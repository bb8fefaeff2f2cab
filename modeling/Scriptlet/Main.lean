import Scriptlet.Command

namespace Scriptlet

def usage : String :=
  "Usage: scriptlet [--keep-going] <tokens|parse|check|run|exec> <file>\n"

def readContents (path : String) : IO Command.Contents := do
  try
    let bytes ← IO.FS.readBinFile path
    return match String.fromUTF8? bytes with
      | some source => .text source
      | none => .notText
  catch
    | .noFileOrDirectory .. => return .missing
    | e => return .unreadable (toString e)

def isKeepGoing (argument : String) : Bool :=
  argument = "--keep-going" || argument = "-k"

def perform (command : Command) (keepGoing : Bool) (path : String) : IO UInt32 := do
  let outcome := command.perform keepGoing path (← readContents path)
  let output ← IO.getStdout
  let errors ← IO.getStderr
  output.putStr outcome.output
  output.flush
  errors.putStr outcome.errors
  return if outcome.failed then 1 else 0

end Scriptlet

open Scriptlet in
def main (arguments : List String) : IO UInt32 := do
  match arguments.filter (!isKeepGoing ·) with
  | [name, path] =>
    match Command.ofName? name with
    | some command => perform command (arguments.any isKeepGoing) path
    | none =>
      (← IO.getStderr).putStr usage
      return 2
  | _ =>
    (← IO.getStderr).putStr usage
    return 2

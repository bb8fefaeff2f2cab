import Scriptlet.Diagnostic.Basic
import Scriptlet.Source.Location

namespace Scriptlet

namespace Report

/-- Indentation that a quoted line leaves out. -/
def isIndent (c : Char) : Bool :=
  c = ' ' || c = '\t'

def headline (fault : Fault) : String :=
  match fault.tip with
  | none => s!"Error: {fault.name}"
  | some tip => s!"Error: {fault.name} ({tip})"

/-- The bar of a line without a number, below the bar after a number of `digits` digits. -/
def margin (digits : Nat) : List Char :=
  List.replicate (digits + 1) ' ' ++ ['|']

/-- The numbered source line, without its indentation and the blanks at its end. -/
def excerpt (place : Location) : List Char :=
  (toString place.line).toList ++ [' ', '|', ' '] ++
    Text.trimEnd (place.text.dropWhile isIndent)

/-- How far the caret stands from the start of the excerpt's text. -/
def caretIndent (place : Location) : Nat :=
  place.column - (place.text.takeWhile isIndent).length

def caretLine (place : Location) : List Char :=
  margin (toString place.line).length ++ [' '] ++
    List.replicate (caretIndent place) '-' ++ ['^']

/-- The lines of a report, from the headline down to the caret. -/
def rows (d : Diagnostic) (source : String) : List String :=
  let place := locate source.toList d.position.offset
  [headline d.fault,
    s!"-> {d.position.file}:{place.line}:{place.column + 1}",
    String.ofList (margin (toString place.line).length),
    String.ofList (excerpt place),
    String.ofList (caretLine place)]

end Report

/-- The rows of a report, each ended by a newline. -/
def Diagnostic.report (d : Diagnostic) (source : String) : String :=
  String.join ((Report.rows d source).map (· ++ "\n"))

end Scriptlet

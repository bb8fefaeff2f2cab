import Scriptlet.Bytecode.Assembly
import Scriptlet.Bytecode.Compile
import Scriptlet.Diagnostic.Report
import Scriptlet.Grammar.Program
import Scriptlet.Machine.Run
import Scriptlet.Token.Scanner
import Scriptlet.Tree.Render
import Scriptlet.Typing.Program

namespace Scriptlet

inductive Command
  | tokens | parse | check | run | exec
  deriving DecidableEq

namespace Command

def all : List (String × Command) :=
  [("tokens", .tokens), ("parse", .parse), ("check", .check), ("run", .run), ("exec", .exec)]

def ofName? (name : String) : Option Command := all.lookup name

/-- What there is at a path. -/
inductive Contents
  | missing
  | unreadable (reason : String)
  | notText
  | text (source : String)

/-- What a command writes, and whether it succeeds. -/
structure Outcome where
  output : String := ""
  errors : String := ""
  failed : Bool := false
  deriving DecidableEq

namespace Outcome

def success (output errors : String) : Outcome := { output, errors }

/-- The message on a line of its own. -/
def failure (output errors message : String) : Outcome :=
  { output
    errors := errors ++ message ++ if message.endsWith "\n" then "" else "\n"
    failed := true }

end Outcome

/-- The last part of a path. -/
def baseName (path : String) : String :=
  String.ofList ((Text.splitWhere (· = '/') path.toList).getLast?.getD [])

/-- Tokens, and the reports to go with them if scanning goes on after errors. -/
def scan (keepGoing : Bool) (name source : String) : Except String (List Token × String) :=
  let scanned := tokenize source name
  let reports := String.join (scanned.2.map (·.report source))
  if scanned.2.isEmpty || keepGoing then .ok (scanned.1, reports) else .error reports

/-- Goes on with the tree of a source. -/
def withProgram (keepGoing : Bool) (name source : String) (next : Block → String → Outcome) :
    Outcome :=
  match scan keepGoing name source with
  | .error reports => .failure "" "" reports
  | .ok (scanned, reports) =>
    match Scriptlet.parse scanned name with
    | .error d _ => .failure "" reports (d.report source)
    | .ok program _ => next program reports

/-- Goes on with the tree of a source that has no type errors. -/
def withChecked (keepGoing : Bool) (name source : String) (next : Block → String → Outcome) :
    Outcome :=
  withProgram keepGoing name source fun program reports =>
    match typecheck program with
    | .error d _ => .failure "" reports (d.report source)
    | .ok _ _ => next program reports

/-- Runs bytecode. What was printed before an error stays printed, and an error of the machine has
no place in the source. -/
def execute (code : List UInt8) (reports : String) : Outcome :=
  match Actions.standard.run (Machine.load code {}) with
  | .error d m => .failure m.output.text reports d.message
  | .ok _ m => .success m.output.text reports

def listing (lines : List String) : String := String.join (lines.map (· ++ "\n"))

/-- Performs a command on a source. -/
def onSource (keepGoing : Bool) (name source : String) : Command → Outcome
  | .tokens =>
    match scan keepGoing name source with
    | .error reports => .failure "" "" reports
    | .ok (scanned, reports) => .success (listing (scanned.map (·.text))) reports
  | .parse =>
    withProgram keepGoing name source fun program reports =>
      .success (listing (program.body.map (·.text))) reports
  | .check =>
    withChecked keepGoing name source fun _ reports => .success (name ++ ": ok\n") reports
  | .run =>
    withChecked keepGoing name source fun program reports =>
      match compile program with
      | .error d => .failure "" reports (d.report source)
      | .ok code => execute code reports
  | .exec =>
    match assemble source with
    | .error d => .failure "" "" (d.report source)
    | .ok code => execute code ""

/-- Performs a command on what there is at a path. -/
def perform (command : Command) (keepGoing : Bool) (path : String) : Contents → Outcome
  | .missing =>
    .failure "" "" s!"failed to read {path}: No such file or directory (os error 2)"
  | .unreadable reason => .failure "" "" s!"failed to read {path}: {reason}"
  | .notText => .failure "" "" s!"failed to read {path}: stream did not contain valid UTF-8"
  | .text source => onSource keepGoing (baseName path) source command

end Command

end Scriptlet

import Scriptlet.Diagnostic.Basic
import Scriptlet.Machine.Heap

/-!
The stack machine: code that is read forwards, a stack of handles, the heap they refer to, and an
output. Every slot of the stack holds one reference. An error leaves the machine where it was when
the error came up, and lies at the instruction's first byte.
-/
namespace Scriptlet

/-- What has been printed, and why writing or flushing fails if it does. -/
structure Output where
  text : String := ""
  writeFailure : Option String := none
  flushFailure : Option String := none

/-- `pending` is the code from byte `pc` on. The top of the stack comes first. -/
structure Machine where
  pending : List UInt8
  pc : Nat
  stack : List Handle
  heap : Heap
  output : Output

/-- At the start of the code, with nothing on the stack. -/
def Machine.load (code : List UInt8) (output : Output) : Machine :=
  { pending := code, pc := 0, stack := [], heap := Heap.empty, output }

/-- The fault at the current byte of the code. -/
def Machine.diagnostic (m : Machine) (fault : Fault) : Diagnostic :=
  ⟨fault, .ofByte "<bytecode>" m.pc⟩

/-- What an instruction does to the machine. -/
abbrev Action := EStateM Diagnostic Machine

namespace Action

def fail {α : Type} (fault : Fault) : Action α := do
  throw ((← get).diagnostic fault)

/-- Puts a new object on the stack. -/
def pushValue (value : Int64) : Action Unit :=
  modify fun m =>
    let (handle, heap) := m.heap.allocate value
    { m with stack := handle :: m.stack, heap }

/-- Takes the top of the stack and gives up its reference. -/
def pop : Action Int64 := do
  match (← get).stack with
  | [] => fail .stackUnderflow
  | handle :: rest =>
    modify ({ · with stack := rest })
    match (← get).heap.release? handle with
    | none => fail (.dangling handle.id)
    | some (value, heap) =>
      modify ({ · with heap })
      return value

def peek : Action Handle := do
  match (← get).stack with
  | [] => fail .stackUnderflow
  | handle :: _ => return handle

def valueOf (handle : Handle) : Action Int64 := do
  match (← get).heap.get? handle with
  | none => fail (.dangling handle.id)
  | some object => return object.value

/-- Puts one more reference to an object on the stack. -/
def pushShared (handle : Handle) : Action Unit := do
  match (← get).heap.retain? handle with
  | none => fail (.dangling handle.id)
  | some heap => modify fun m => { m with heap, stack := handle :: m.stack }

def write (text : String) : Action Unit := do
  match (← get).output.writeFailure with
  | some reason => fail (.outputFailed reason)
  | none => modify fun m => { m with output := { m.output with text := m.output.text ++ text } }

end Action

end Scriptlet

import Scriptlet.Bytecode.Opcode
import Scriptlet.Machine.Basic

namespace Scriptlet

namespace Numeral

/-- `result` times the power, in so many steps, each of which halves the exponent. -/
def powerFrom : Nat → Int64 → Int64 → Nat → Int64
  | 0, result, _, _ => result
  | steps + 1, result, base, exponent =>
    if exponent = 0 then result
    else
      powerFrom steps (if exponent % 2 = 1 then result * base else result) (base * base)
        (exponent / 2)

/-- Powers wrap like products do. Exponents below one give one. -/
def power (base exponent : Int64) : Int64 :=
  powerFrom 64 1 base exponent.toInt.toNat

end Numeral

namespace Action

/-- Goes on by one byte. -/
def skip : Action Unit :=
  modify fun m => { m with pending := m.pending.drop 1, pc := m.pc + 1 }

/-- Reads the operand byte, which is then the current byte. -/
def readOperand : Action UInt8 := do
  match (← get).pending with
  | _ :: operand :: _ =>
    skip
    return operand
  | _ => fail (.operandMissing Opcode.push.mnemonic)

/-- The operand on the top is the right one. -/
def binary (op : Int64 → Int64 → Except Fault Int64) : Action Unit := do
  let right ← pop
  let left ← pop
  match op left right with
  | .ok value => pushValue value
  | .error fault => fail fault

end Action

namespace Opcode

open Scriptlet.Action

/-- Quotients are cut off towards zero. -/
def divide (left right : Int64) : Except Fault Int64 :=
  if right = 0 then .error .divisionByZero else .ok (left / right)

/-- Remainders have the sign of the dividend. -/
def remainder (left right : Int64) : Except Fault Int64 :=
  if right = 0 then .error .divisionByZero else .ok (left % right)

def perform : Opcode → Action Unit
  | push => do pushValue (Int64.ofNat (← readOperand).toNat)
  | dup => do pushShared (← peek)
  | add => binary fun left right => .ok (left + right)
  | sub => binary fun left right => .ok (left - right)
  | mul => binary fun left right => .ok (left * right)
  | div => binary divide
  | mod => binary remainder
  | power => binary fun left right => .ok (Numeral.power left right)
  | print => do
    let value ← valueOf (← peek)
    write (toString value ++ "\n")

end Opcode

/-- What each byte does when it begins an instruction. -/
abbrev Actions := UInt8 → Option (Action Unit)

namespace Actions

def standard : Actions := fun byte => (Opcode.ofByte? byte).map (·.perform)

/-- Gives an opcode another action. -/
def install (actions : Actions) (op : Opcode) (action : Action Unit) : Actions :=
  fun byte => if byte = op.byte then some action else actions byte

/-- Performs at most so many instructions, up to the end of the code. -/
def executeWithin (actions : Actions) : Nat → Action Unit
  | 0 => return
  | limit + 1 => do
    match (← get).pending with
    | [] => return
    | byte :: _ =>
      match actions byte with
      | none => Action.fail (.unknownOpcode byte)
      | some action =>
        action
        Action.skip
        executeWithin actions limit

/-- Performs the code from where the machine stands to its end. Reading goes forwards only, so there
are no more instructions than bytes. -/
def execute (actions : Actions) : Action Unit := do
  executeWithin actions (← get).pending.length

/-- Performs the code and takes one value off the stack, if one is left. -/
def run (actions : Actions) : Action Unit := do
  execute actions
  match (← get).stack with
  | [] => return
  | _ :: _ =>
    let _ ← Action.pop

end Actions

/-- Flushes the output and gives what was printed. -/
def Machine.finish (m : Machine) : Except Diagnostic String :=
  match m.output.flushFailure with
  | some reason => .error (m.diagnostic (.outputFailed reason))
  | none => .ok m.output.text

end Scriptlet

import Scriptlet.Text.Split
import Scriptlet.Text.Size
import Scriptlet.Numeral.Reading
import Scriptlet.Diagnostic.Basic
import Scriptlet.Bytecode.Opcode

namespace Scriptlet.Assembly

def separates (c : Char) : Bool := c = ';' || c = '\n'

def operand (word : List Char) : Except Fault UInt8 :=
  match Numeral.int64? word with
  | none => .error (.badInstruction (String.ofList word))
  | some n =>
    if 0 ≤ n ∧ n ≤ 255 then .ok (UInt8.ofNat n.toInt.toNat)
    else .error (.operandRange (String.ofList word))

/-- The bytes of one instruction. -/
def instruction (text : List Char) : Except Fault (List UInt8) :=
  match Text.words text with
  | [] => .ok []
  | [mnemonic] =>
    match Opcode.ofMnemonic? mnemonic with
    | none => .error (.badInstruction (String.ofList mnemonic))
    | some op => if op.hasOperand then .error (.operandMissing op.mnemonic) else .ok [op.byte]
  | [mnemonic, word] =>
    match Opcode.ofMnemonic? mnemonic with
    | none => .error (.badInstruction (String.ofList mnemonic))
    | some op =>
      if op.hasOperand then (operand word).map fun byte => [op.byte, byte]
      else .error (.badInstruction (String.ofList (Text.trim text)))
  | _ => .error (.badInstruction (String.ofList (Text.trim text)))

/-- The place of a byte of the assembly text. -/
def position (offset : Nat) : Position := .ofByte "<assembly>" offset

/-- The bytes of consecutive instructions, of which the first begins at byte `offset`. -/
def code (offset : Nat) : List (List Char) → Except Diagnostic (List UInt8)
  | [] => .ok []
  | text :: rest =>
    match instruction text with
    | .error fault =>
      .error ⟨fault, position (offset + Text.size (text.takeWhile Text.isBlank))⟩
    | .ok bytes => (code (offset + Text.size text + 1) rest).map (bytes ++ ·)

end Scriptlet.Assembly

namespace Scriptlet

/-- The bytecode that an assembly text stands for: instructions with semicolons or newlines between
them, some of them empty. A wrong one is blamed at its first word. -/
def assemble (text : String) : Except Diagnostic (List UInt8) :=
  Assembly.code 0 (Text.splitWhere Assembly.separates text.toList)

end Scriptlet

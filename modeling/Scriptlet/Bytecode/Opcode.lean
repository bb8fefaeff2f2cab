namespace Scriptlet

/-- Instructions of one byte each. Only `push` is followed by an operand. -/
inductive Opcode
  | push | dup | add | sub | mul | div | mod | power | print
  deriving DecidableEq, Inhabited

namespace Opcode

/-- Every opcode, in the order of their bytes. -/
def all : List Opcode := [.push, .dup, .add, .sub, .mul, .div, .mod, .power, .print]

def byte : Opcode → UInt8
  | push => 0
  | dup => 1
  | add => 2
  | sub => 3
  | mul => 4
  | div => 5
  | mod => 6
  | power => 7
  | print => 8

def ofByte? (byte : UInt8) : Option Opcode := all[byte.toNat]?

def mnemonic : Opcode → String
  | push => "push"
  | dup => "dup"
  | add => "add"
  | sub => "sub"
  | mul => "mul"
  | div => "div"
  | mod => "mod"
  | power => "power"
  | print => "print"

/-- Letters count alike in upper and lower case. -/
def ofMnemonic? (word : List Char) : Option Opcode :=
  all.find? fun op => op.mnemonic.toList == word.map Char.toLower

def hasOperand (op : Opcode) : Bool := op = push

theorem ofByte?_byte (op : Opcode) : ofByte? op.byte = some op := by
  cases op <;> rfl

end Opcode

end Scriptlet

import Scriptlet.Bytecode.Opcode
import Scriptlet.Diagnostic.Basic
import Scriptlet.Tree.Basic

namespace Scriptlet

/-- What an expression is called in reports. -/
def Expr.constructName : Expr → String
  | .int .. => "integer literal"
  | .float .. => "float literal"
  | .string .. => "string literal"
  | .bool .. => "boolean literal"
  | .symbol .. => "symbol"
  | .binary .. => "binary expression"
  | .unary .. => "prefix expression"
  | .assign .. => "assignment"
  | .member .. => "member access"
  | .index .. => "computed member access"
  | .call .. => "call"
  | .range .. => "range"
  | .function .. => "function literal"
  | .array .. => "array literal"
  | .arrayOf .. => "array instantiation"
  | .structOf .. => "struct instantiation"
  | .construct .. => "constructor application"

/-- What a statement is called in reports. -/
def Stmt.constructName : Stmt → String
  | .varDecl .. => "variable declaration"
  | .fnDecl .. => "function declaration"
  | .classDecl .. => "class declaration"
  | .branch .. => "if statement"
  | .loop .. => "for loop"
  | .ret .. => "return statement"
  | .importDecl .. => "import"
  | .expression .. | .block .. => "statement"

namespace Bytecode

/-- The opcode of a binary operator. -/
def arithmetic? : Kind → Option Opcode
  | .plus => some .add
  | .dash => some .sub
  | .star => some .mul
  | .slash => some .div
  | .percent => some .mod
  | _ => none

/-- The operand byte of an integer. -/
def byte? (n : Int64) : Option UInt8 :=
  if 0 ≤ n ∧ n ≤ 255 then some (UInt8.ofNat n.toInt.toNat) else none

def ofExpr : Expr → Except Diagnostic (List UInt8)
  | .int value span =>
    match byte? value with
    | some operand => .ok [Opcode.push.byte, operand]
    | none => .error ⟨.operandRange (toString value), span.start⟩
  | .binary operator left right _ =>
    match arithmetic? operator.kind with
    | some op => do
      let first ← ofExpr left
      let second ← ofExpr right
      return first ++ second ++ [op.byte]
    | none => .error ⟨.unsupported s!"operator `{operator.value}`", operator.span.start⟩
  | e => .error ⟨.unsupported e.constructName, e.start⟩

mutual

def ofStmt : Stmt → Except Diagnostic (List UInt8)
  | .expression e _ => return (← ofExpr e) ++ [Opcode.print.byte]
  | .block (.mk body _) => ofStmts body
  | s => .error ⟨.unsupported s.constructName, s.span.start⟩

def ofStmts : List Stmt → Except Diagnostic (List UInt8)
  | [] => return []
  | s :: ss => do
    let first ← ofStmt s
    return first ++ (← ofStmts ss)

end

end Bytecode

/-- The bytecode of a program. The value of every statement is printed and left on the stack. What
has no bytecode is reported at the first place that has none, an operator before its operands. -/
def compile (program : Block) : Except Diagnostic (List UInt8) :=
  Bytecode.ofStmts program.body

end Scriptlet

import Scriptlet.Typing.Check

/-!
Checking whole programs, and single constructs. The value of a field can mention other fields of
its class, so checking it again can lead to checking another one again. How deep this goes is
bounded. Fields that do not depend on themselves are fewer than the variables declared in the
program. A field that does depend on itself is checked in rounds, one inside the other, until a
check fails: classes declared in its value can make the next round another one. A field that no
check has stopped after `maxRounds` is reported.
-/
namespace Scriptlet

mutual

/-- The number of variables declared in an expression. -/
def Expr.variableCount : Expr → Nat
  | .int .. | .float .. | .string .. | .bool .. | .symbol .. => 0
  | .binary _ left right _ => left.variableCount + right.variableCount
  | .unary _ operand _ => operand.variableCount
  | .assign _ target value _ => target.variableCount + value.variableCount
  | .member object _ _ => object.variableCount
  | .index object position _ => object.variableCount + position.variableCount
  | .call callee arguments _ => callee.variableCount + Expr.variableCountOf arguments
  | .range lower upper _ => lower.variableCount + upper.variableCount
  | .function _ _ body _ => Stmt.variableCountOf body
  | .array items _ => Expr.variableCountOf items
  | .arrayOf _ items _ => Expr.variableCountOf items
  | .structOf _ fields _ => Expr.variableCountOfFields fields
  | .construct _ arguments _ => Expr.variableCountOf arguments

def Expr.variableCountOf : List Expr → Nat
  | [] => 0
  | e :: es => e.variableCount + Expr.variableCountOf es

def Expr.variableCountOfFields : List (String × Expr) → Nat
  | [] => 0
  | (_, e) :: fields => e.variableCount + Expr.variableCountOfFields fields

def Stmt.variableCount : Stmt → Nat
  | .block (.mk body _) => Stmt.variableCountOf body
  | .expression e _ => e.variableCount
  | .varDecl _ _ _ value _ =>
    1 + match value with
      | some e => e.variableCount
      | none => 0
  | .fnDecl _ _ _ (.mk body _) _ => Stmt.variableCountOf body
  | .classDecl _ (.mk body _) _ => Stmt.variableCountOf body
  | .branch condition (.mk body _) otherwise _ =>
    condition.variableCount + Stmt.variableCountOf body + match otherwise with
      | some s => s.variableCount
      | none => 0
  | .loop init condition post body _ =>
    (match init with
      | some s => s.variableCount
      | none => 0) +
    (match condition with
      | some e => e.variableCount
      | none => 0) +
    (match post with
      | some e => e.variableCount
      | none => 0) + body.variableCount
  | .ret value _ =>
    match value with
    | some e => e.variableCount
    | none => 0
  | .importDecl .. => 0

def Stmt.variableCountOf : List Stmt → Nat
  | [] => 0
  | s :: ss => s.variableCount + Stmt.variableCountOf ss

end

namespace Typing

/-- The number of rounds granted to fields that depend on themselves. -/
def maxRounds : Nat := 100000

/-- Checks an expression, with at most so many fields being checked again inside one another. -/
def checkNested : Nat → Expr → Check Ty
  | 0, e => throw ⟨.cyclicField, e.start⟩
  | n + 1, e => checkExpr (checkNested n) e

/-- Checks a part that declares so many variables, from wherever the context stands. -/
def withRereading {α : Type} (count : Nat) (check : (Expr → Check Ty) → Check α) : Check α :=
  fun c =>
    let around := match c.enclosing with
      | some opened => Stmt.variableCountOf opened.body.body
      | none => 0
    check (checkNested (count + around + maxRounds)) c

/-- The type of an expression. -/
def typeOf (e : Expr) : Check Ty := withRereading e.variableCount fun reread => checkExpr reread e

def checkStatement (s : Stmt) : Check Unit :=
  withRereading s.variableCount fun reread => checkStmt reread s

def checkBlock (b : Block) : Check Unit :=
  withRereading (Stmt.variableCountOf b.body) fun reread => checkStmts reread b.body

end Typing

/-- Checks a whole program up to the first error. -/
def typecheck (program : Block) : EStateM.Result Diagnostic Typing.Context Unit :=
  Typing.checkBlock program Typing.Context.fresh

end Scriptlet

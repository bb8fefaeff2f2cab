import Scriptlet.Proofs.Bytecode.Evaluation
import Scriptlet.Proofs.Token.Layout
import Scriptlet.Numeral.Reading

/-!
Integer arithmetic as it is written and meant, said apart from every stage of the language: trees of
operators over the literals from 0 to 255, the values they have, and the source texts that stand for
them. Multiplication, division and remainder bind more strongly than addition and subtraction, and
all of them group to the left; parentheses may stand around any expression.
-/
namespace Scriptlet.Arithmetic

inductive Operator
  | plus | minus | times | divide | remainder
  deriving DecidableEq

namespace Operator

def symbol : Operator → Char
  | plus => '+'
  | minus => '-'
  | times => '*'
  | divide => '/'
  | remainder => '%'

def kind : Operator → Kind
  | plus => .plus
  | minus => .dash
  | times => .star
  | divide => .slash
  | remainder => .percent

/-- How strongly the operator binds. -/
def strength : Operator → Nat
  | plus | minus => 1
  | times | divide | remainder => 2

end Operator

inductive Tree
  | literal (value : UInt8)
  | apply (operator : Operator) (left right : Tree)

namespace Tree

/-- The value of a tree in 64 bits. There is none if something is divided by zero. -/
def value? : Tree → Option Int64
  | literal value => some (Int64.ofNat value.toNat)
  | apply operator left right => do combine? operator.kind (← left.value?) (← right.value?)

/-- The values of the trees in front of the first one that has none. -/
def values : List Tree → List Int64
  | [] => []
  | t :: ts =>
    match t.value? with
    | some value => value :: values ts
    | none => []

end Tree

/-- What a source text is put together from. -/
inductive Piece
  | numeral (digits : List Char)
  | operator (operator : Operator)
  | opening | closing | semicolon

namespace Piece

def text : Piece → List Char
  | numeral digits => digits
  | operator op => [op.symbol]
  | opening => ['(']
  | closing => [')']
  | semicolon => [';']

def kind : Piece → Kind
  | numeral _ => .int
  | operator op => op.kind
  | opening => .openParen
  | closing => .closeParen
  | semicolon => .semicolon

end Piece

/-- The pieces write the tree where an operator has to have at least this strength, or stand in
parentheses. -/
inductive Written : Nat → Tree → List Piece → Prop
  | literal {n value digits} : digits ≠ [] → (∀ c ∈ digits, c.isDigit = true) →
      Numeral.value digits = value.toNat → Written n (.literal value) [.numeral digits]
  | apply {n op left right ps qs} : n ≤ op.strength → Written op.strength left ps →
      Written (op.strength + 1) right qs →
      Written n (.apply op left right) (ps ++ .operator op :: qs)
  | group {n tree ps} : Written 0 tree ps → Written n tree (.opening :: (ps ++ [.closing]))

/-- Expressions one after another, each with a semicolon behind it. -/
inductive WrittenAll : List Tree → List Piece → Prop
  | nil : WrittenAll [] []
  | cons {t ts ps qs} : Written 0 t ps → WrittenAll ts qs →
      WrittenAll (t :: ts) (ps ++ .semicolon :: qs)

/-- What may stand between two pieces: nothing, or layout that begins with a blank. -/
inductive Gap : List Char → Prop
  | nil : Gap []
  | blank {c cs} : Text.isBlank c = true → Layout cs → Gap (c :: cs)

/-- The text of the pieces with gaps around them. -/
inductive LaidOut : List Piece → List Char → Prop
  | nil {gap} : Gap gap → LaidOut [] gap
  | cons {gap p ps text} : Gap gap → LaidOut ps text → LaidOut (p :: ps) (gap ++ (p.text ++ text))

namespace Gap

theorem layout {gap : List Char} (h : Gap gap) : Layout gap := by
  cases h with
  | nil => exact .nil
  | blank hc h => exact .blank hc h

end Gap

end Scriptlet.Arithmetic

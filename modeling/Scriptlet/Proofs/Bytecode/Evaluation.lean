import Scriptlet.Tree.Basic

namespace Scriptlet.Arithmetic

/-- Quotients are cut off towards zero, and remainders belong to them. There is neither for a zero
divisor. -/
def combine? : Kind → Int64 → Int64 → Option Int64
  | .plus, a, b => some (Int64.ofInt (a.toInt + b.toInt))
  | .dash, a, b => some (Int64.ofInt (a.toInt - b.toInt))
  | .star, a, b => some (Int64.ofInt (a.toInt * b.toInt))
  | .slash, a, b => if b.toInt = 0 then none else some (Int64.ofInt (a.toInt.tdiv b.toInt))
  | .percent, a, b => if b.toInt = 0 then none else some (Int64.ofInt (a.toInt.tmod b.toInt))
  | _, _, _ => none

-- The one quotient that does not fit wraps to the dividend, and leaves no remainder.
example : combine? .slash Int64.minValue (-1) = some Int64.minValue := by decide
example : combine? .percent Int64.minValue (-1) = some 0 := by decide

/-- The number of bytes of an expression's code. -/
def codeSize : Expr → Nat
  | .int .. => 2
  | .binary _ left right _ => codeSize left + codeSize right + 1
  | _ => 0

/-- The value of an expression, or the place in its code of the operator that is the first to
divide by zero. Literals and operators are all there is to evaluate. -/
def evaluate : Expr → Except Nat Int64
  | .int value _ => .ok value
  | .binary operator left right _ =>
    match evaluate left with
    | .error place => .error place
    | .ok a =>
      match evaluate right with
      | .error place => .error (codeSize left + place)
      | .ok b =>
        match combine? operator.kind a b with
        | some value => .ok value
        | none => .error (codeSize left + codeSize right)
  | _ => .error 0

/-- The values of the expressions that are evaluated, and where in the code the program stops if it
divides by zero. -/
structure Outcome where
  values : List Int64
  stop : Option Nat

/-- Each expression's code is followed by one byte that prints its value. -/
def evaluateAll : List Expr → Outcome
  | [] => ⟨[], none⟩
  | e :: es =>
    match evaluate e with
    | .error place => ⟨[], some place⟩
    | .ok value =>
      let rest := evaluateAll es
      ⟨value :: rest.values, rest.stop.map (codeSize e + 1 + ·)⟩

mutual

/-- The expressions of a statement in their order, from nested blocks too. -/
def expressionsOf : Stmt → List Expr
  | .expression e _ => [e]
  | .block (.mk body _) => expressionsOfAll body
  | _ => []

def expressionsOfAll : List Stmt → List Expr
  | [] => []
  | s :: ss => expressionsOf s ++ expressionsOfAll ss

end

/-- What a program prints and leaves, and where it stops. -/
def run (program : Block) : Outcome := evaluateAll (expressionsOfAll program.body)

/-- Values in decimal, each on a line of its own. -/
def lines (values : List Int64) : String :=
  String.join (values.map fun value => toString value.toInt ++ "\n")

theorem lines_cons (value : Int64) (values : List Int64) :
    lines (value :: values) = toString value.toInt ++ "\n" ++ lines values := by
  simp [lines]

end Scriptlet.Arithmetic

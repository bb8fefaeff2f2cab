import Scriptlet.Grammar.Parser

namespace Scriptlet

open Scriptlet.Parser

def TypeRule.read (below : Level) : TypeRule → Parser Ty
  | .named => return .named (← advance).value
  | .list => do
    let _ ← expect .openBracket
    let _ ← expect .closeBracket
    return .list (← below.type .default)

def TypeOperatorRule.read (below : Level) (left : Ty) (power : Power) :
    TypeOperatorRule → Parser Ty
  | .listSuffix => do
    let _ ← advance
    return .list left
  | .arrow => do
    let _ ← advance
    return .function [left] (← below.type power)

namespace Grammar

/-- Extends a type by the operators that bind more strongly than `power`. -/
def extendType (g : Grammar) (below : Level) (power : Power) : Nat → Ty → Parser Ty
  | 0, _ => noProgress
  | limit + 1, left => do
    let token ← current
    if g.typePower token.kind ≤ power then return left
    match g.typeOperatorRule token.kind with
    | none => throw ⟨.cannotContinue token.value, token.span.start⟩
    | some rule =>
      let left ← rule.read below left (g.typePower token.kind)
      extendType g below power limit left

def readType (g : Grammar) (below : Level) (power : Power) : Parser Ty := do
  let token ← current
  match g.typeRule token.kind with
  | none => throw ⟨.cannotStart token.value, token.span.start⟩
  | some rule =>
    let left ← rule.read below
    extendType g below power (← repetitions) left

end Grammar

namespace Level

/-- A colon and a type, or nothing. -/
def annotation? (below : Level) : Parser (Option Ty) := do
  if (← kind) = .colon then
    let _ ← advance
    return some (← below.type .default)
  else return Option.none

def parameter (below : Level) : Parser Parameter := do
  let name ← expect .identifier
  let _ ← expect .colon
  return ⟨name.value, ← below.type .default⟩

def parameters (below : Level) : Parser (List Parameter) := do
  let _ ← expect .openParen
  listUntil .closeParen below.parameter

/-- An expression, unless the current token is of the kind that stands for none. -/
def expression? (below : Level) (absent : Kind) : Parser (Option Expr) := do
  if (← kind) = absent then return Option.none
  else return some (← below.expression .default)

/-- Statements between curly brackets. -/
def block (below : Level) : Parser Block := do
  let start := (← expect .openCurly).span.start
  let body ← manyUntil (fun k => k = .closeCurly ∨ k = .eof) below.statement (← repetitions)
  let _ ← expect .closeCurly
  return .mk body (← spanFrom start)

end Level

end Scriptlet

import Scriptlet.Token.Cursor
import Scriptlet.Grammar.Basic
import Scriptlet.Tree.Basic

/-!
Parsers move a cursor and give a node or the first diagnostic; the cursor then stays where the
parser stopped. Every construct of a tree is read by a rule, and a rule reads the constructs inside
it at the `Level` below its own. Levels are counted, so that a parser ends under every grammar: one
that reads the same token over and over runs out of levels, or out of repetitions, and reports it.
-/
namespace Scriptlet

abbrev Parser := EStateM Diagnostic Cursor

namespace Parser

def current : Parser Token := return (← get).current

def kind : Parser Kind := return (← get).kind

def spanFrom (start : Position) : Parser Span := return (← get).spanFrom start

/-- Passes the current token. -/
def advance : Parser Token := do
  let token ← current
  modify (·.advance)
  return token

/-- Passes a token of the given kind; any other is reported as `otherwise`. -/
def expectOr (kind : Kind) (otherwise : Diagnostic) : Parser Token := do
  if (← current).kind = kind then advance else throw otherwise

def expect (kind : Kind) : Parser Token := do
  let token ← current
  expectOr kind ⟨.unexpected token.value, token.span.start⟩

/-- The current token is not what `reason` says is expected. -/
def unexpectedFor {α : Type} (reason : String) : Parser α := do
  throw ((← get).unexpectedFor reason)

/-- Goes on if the condition holds, and reports the current token if not. -/
def require (condition : Bool) (reason : String) : Parser Unit :=
  if condition then pure () else unexpectedFor reason

def noProgress {α : Type} : Parser α := do
  throw ⟨.noProgress, (← get).position⟩

/-- Reads items up to a token that stops. -/
def manyUntil {α : Type} (stops : Kind → Bool) (item : Parser α) : Nat → Parser (List α)
  | 0 => noProgress
  | limit + 1 => do
    if stops (← kind) then return []
    let first ← item
    let rest ← manyUntil stops item limit
    return first :: rest

/-- Reads items with commas between them up to the kind that closes the list. The last item may have
a comma too. -/
def separated {α : Type} (closing : Kind) (item : Parser α) : Nat → Parser (List α)
  | 0 => noProgress
  | limit + 1 => do
    if (← kind) = closing ∨ (← kind) = .eof then return []
    let first ← item
    if (← kind) = .comma then
      let _ ← advance
      let rest ← separated closing item limit
      return first :: rest
    else return [first]

/-- As many repetitions as there can be if each passes a token. -/
def repetitions : Parser Nat := return (← get).ahead.length + 1

/-- A list with its closing token. -/
def listUntil {α : Type} (closing : Kind) (item : Parser α) : Parser (List α) := do
  let items ← separated closing item (← repetitions)
  let _ ← expect closing
  return items

end Parser

/-- The parsers that a rule reads its parts with. `branch` is for an `if` right after `else`. -/
structure Level where
  expression : Power → Parser Expr
  statement : Parser Stmt
  branch : Parser Stmt
  type : Power → Parser Ty

/-- No parts can be read. -/
def Level.none : Level where
  expression _ := Parser.noProgress
  statement := Parser.noProgress
  branch := Parser.noProgress
  type _ := Parser.noProgress

end Scriptlet

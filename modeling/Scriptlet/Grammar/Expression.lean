import Scriptlet.Grammar.Annotation
import Scriptlet.Numeral.Reading

/-!
Reading expressions: an operand, then every operator that binds more strongly than the power the
expression is read at, each with its right side. A right side is read at its operator's own power,
so operators of one power group to the left; only assignments group to the right.
-/
namespace Scriptlet

open Scriptlet.Parser

/-- The literal or name that one token stands for. -/
def Token.primary? (t : Token) : Except Diagnostic Expr :=
  match t.kind with
  | .int =>
    match Numeral.int64? t.value.toList with
    | some value => .ok (.int value t.span)
    | none => .error ⟨.badNumber t.value, t.span.start⟩
  | .float =>
    match Numeral.binary64? t.value.toList with
    | some value => .ok (.float value t.span)
    | none => .error ⟨.badNumber t.value, t.span.start⟩
  | .string => .ok (.string t.value t.span)
  | .trueWord => .ok (.bool true t.span)
  | .falseWord => .ok (.bool false t.span)
  | .identifier | .thisWord => .ok (.symbol t.value t.span)
  | _ => .error ⟨.unexpected t.value, t.span.start⟩

namespace Level

/-- A field with its value. -/
def field (below : Level) : Parser (String × Expr) := do
  let name ← expect .identifier
  let _ ← expect .colon
  return (name.value, ← below.expression .default)

def arguments (below : Level) (closing : Kind) : Parser (List Expr) :=
  listUntil closing (below.expression .default)

end Level

namespace OperandRule

def readPrimary : Parser Expr := do
  match (← current).primary? with
  | .ok e =>
    let _ ← advance
    return e
  | .error d => throw d

def readUnary (below : Level) : Parser Expr := do
  let operator ← advance
  let operand ← below.expression .unary
  return .unary operator operand (operator.span.cover operand.span)

def readGroup (below : Level) : Parser Expr := do
  let _ ← advance
  let e ← below.expression .default
  let _ ← expect .closeParen
  return e

/-- Empty brackets before a type begin a list of that type. -/
def readArray (g : Grammar) (below : Level) : Parser Expr := do
  let start := (← advance).span.start
  if (← kind) = .closeBracket ∧ (g.typeRule (← get).peek).isSome then
    let _ ← advance
    let item ← below.type .default
    let _ ← expect .openCurly
    let items ← below.arguments .closeCurly
    return .arrayOf item items (← spanFrom start)
  else
    let items ← below.arguments .closeBracket
    return .array items (← spanFrom start)

def readConstruct (below : Level) : Parser Expr := do
  let start := (← advance).span.start
  let name ← expect .identifier
  match ← kind with
  | .openParen =>
    let _ ← advance
    let arguments ← below.arguments .closeParen
    return .construct name.value arguments (← spanFrom start)
  | .openCurly =>
    let _ ← advance
    let fields ← listUntil .closeCurly below.field
    return .structOf name.value fields (← spanFrom start)
  | _ => unexpectedFor "expected `\x7b` or `(` after class name"

def readFunction (below : Level) : Parser Expr := do
  let start := (← advance).span.start
  let parameters ← below.parameters
  let result ← below.annotation?
  let body ← below.block
  return .function parameters result body.body (← spanFrom start)

def read (g : Grammar) (below : Level) : OperandRule → Parser Expr
  | .primary => readPrimary
  | .unary => readUnary below
  | .group => readGroup below
  | .array => readArray g below
  | .construct => readConstruct below
  | .function => readFunction below

end OperandRule

namespace OperatorRule

def readBinary (below : Level) (left : Expr) (power : Power) : Parser Expr := do
  let operator ← advance
  let right ← below.expression power
  return .binary operator left right (left.span.cover right.span)

/-- The value is read below the power of assignments, so a further assignment belongs to it. -/
def readAssign (below : Level) (left : Expr) : Parser Expr := do
  let operator ← advance
  let value ← below.expression .comma
  return .assign operator left value (left.span.cover value.span)

def readRange (below : Level) (left : Expr) (power : Power) : Parser Expr := do
  let _ ← advance
  let upper ← below.expression power
  return .range left upper (left.span.cover upper.span)

def readCall (below : Level) (left : Expr) : Parser Expr := do
  let _ ← advance
  let arguments ← below.arguments .closeParen
  return .call left arguments (← spanFrom left.start)

def readMember (left : Expr) : Parser Expr := do
  let _ ← advance
  let property ← expect .identifier
  return .member left property.value (left.span.cover property.span)

def readIndex (below : Level) (left : Expr) : Parser Expr := do
  let _ ← advance
  let position ← below.expression .default
  let _ ← expect .closeBracket
  return .index left position (← spanFrom left.start)

/-- Reads on after the left side of an operator of the given power. -/
def read (below : Level) (left : Expr) (power : Power) : OperatorRule → Parser Expr
  | .binary => readBinary below left power
  | .assign => readAssign below left
  | .range => readRange below left power
  | .call => readCall below left
  | .member => readMember left
  | .index => readIndex below left

end OperatorRule

namespace Grammar

/-- Extends an expression by the operators that bind more strongly than `power`. -/
def extend (g : Grammar) (below : Level) (power : Power) : Nat → Expr → Parser Expr
  | 0, _ => noProgress
  | limit + 1, left => do
    let token ← current
    if g.power token.kind ≤ power then return left
    match g.operatorRule token.kind with
    | none => throw ⟨.cannotContinue token.value, token.span.start⟩
    | some rule =>
      let left ← rule.read below left (g.power token.kind)
      extend g below power limit left

def readExpression (g : Grammar) (below : Level) (power : Power) : Parser Expr := do
  let token ← current
  match g.operandRule token.kind with
  | none => throw ⟨.cannotStart token.value, token.span.start⟩
  | some rule =>
    let left ← rule.read g below
    extend g below power (← repetitions) left

end Grammar

end Scriptlet

import Scriptlet.Token.Basic

/-!
Lexemes: the piece of text that a token is made from. `Lexeme.cut` cuts one off a text that begins
with neither a blank nor a comment. Strings are tried first, then operators, words and numbers; a
text that begins with none of these loses one character.
-/
namespace Scriptlet

/-- A piece of text, read. `closed` is false for a string that lacks its final quote. -/
structure Lexeme where
  kind : Kind
  text : List Char
  value : String
  closed : Bool := true
  deriving DecidableEq

namespace Lexeme

/-- Operators and delimiters. Of two that begin alike the longer stands first. -/
def operators : List (List Char × Kind) :=
  [(['=', '='], .equals), (['!', '='], .notEquals), (['<', '='], .lessEquals),
    (['>', '='], .greaterEquals), (['|', '|'], .or), (['&', '&'], .and), (['+', '='], .plusEquals),
    (['-', '='], .minusEquals), (['*', '='], .starEquals), (['/', '='], .slashEquals),
    (['.', '.'], .dotDot), (['='], .assign), (['!'], .not), (['+'], .plus), (['-'], .dash),
    (['*'], .star), (['/'], .slash), (['%'], .percent), (['<'], .less), (['>'], .greater),
    (['('], .openParen), ([')'], .closeParen), (['['], .openBracket), ([']'], .closeBracket),
    (['\x7b'], .openCurly), (['\x7d'], .closeCurly), (['.'], .dot), (['?'], .question),
    ([':'], .colon), ([';'], .semicolon), ([','], .comma)]

/-- The words that are no names. -/
def keywords : List (String × Kind) :=
  [("int", .intType), ("float", .floatType), ("bool", .boolType), ("string", .stringType),
    ("true", .trueWord), ("false", .falseWord), ("let", .letWord), ("const", .constWord),
    ("function", .functionWord), ("class", .classWord), ("new", .newWord), ("this", .thisWord),
    ("import", .importWord), ("from", .fromWord), ("return", .returnWord), ("if", .ifWord),
    ("else", .elseWord), ("for", .forWord)]

def isWordStart (c : Char) : Bool := c.isAlpha || c = '_'

def isWordRest (c : Char) : Bool := c.isAlphanum || c = '_'

def isHexDigit (c : Char) : Bool :=
  c.isDigit || ('a' ≤ c && c ≤ 'f') || ('A' ≤ c && c ≤ 'F')

def hexValue (c : Char) : Nat :=
  if c.isDigit then c.toNat - '0'.toNat
  else if 'a' ≤ c then c.toNat - 'a'.toNat + 10
  else c.toNat - 'A'.toNat + 10

/-- What the inside of a string literal stands for. A backslash that begins no escape is kept. -/
def unescape : List Char → List Char
  | '\\' :: 'n' :: cs => '\n' :: unescape cs
  | '\\' :: 't' :: cs => '\t' :: unescape cs
  | '\\' :: 'r' :: cs => '\r' :: unescape cs
  | '\\' :: '0' :: cs => '\x00' :: unescape cs
  | '\\' :: '\\' :: cs => '\\' :: unescape cs
  | '\\' :: '"' :: cs => '"' :: unescape cs
  | '\\' :: 'x' :: a :: b :: cs =>
    if isHexDigit a then
      if isHexDigit b then Char.ofNat (16 * hexValue a + hexValue b) :: unescape cs
      else Char.ofNat (hexValue a) :: unescape (b :: cs)
    else '\\' :: 'x' :: unescape (a :: b :: cs)
  | ['\\', 'x', a] => if isHexDigit a then [Char.ofNat (hexValue a)] else ['\\', 'x', a]
  | c :: cs => c :: unescape cs
  | [] => []

/-- Cuts after the first quote that no backslash precedes. The second part is the quote or, where
the text has none, empty. -/
def toQuote : List Char → List Char × List Char
  | [] => ([], [])
  | '"' :: _ => ([], ['"'])
  | '\\' :: c :: cs =>
    let (inside, quote) := toQuote cs
    ('\\' :: c :: inside, quote)
  | c :: cs =>
    let (inside, quote) := toQuote cs
    (c :: inside, quote)

def ofString (body : List Char) : Lexeme :=
  let (inside, quote) := toQuote body
  { kind := .string
    text := '"' :: inside ++ quote
    value := String.ofList (unescape inside)
    closed := !quote.isEmpty }

def ofOperator? (cs : List Char) : Option Lexeme :=
  (operators.find? fun op => op.1.isPrefixOf cs).map fun op =>
    { kind := op.2, text := op.1, value := String.ofList op.1 }

def ofWord (cs : List Char) : Lexeme :=
  let text := cs.takeWhile isWordRest
  let value := String.ofList text
  { kind := (keywords.lookup value).getD .identifier, text, value }

/-- Digits, and a point with the digits after it. A point that another one follows is left alone:
the two are a range. -/
def ofNumber (cs : List Char) : Lexeme :=
  let digits := cs.takeWhile Char.isDigit
  let text := match cs.dropWhile Char.isDigit with
    | '.' :: '.' :: _ => digits
    | '.' :: rest => digits ++ '.' :: rest.takeWhile Char.isDigit
    | _ => digits
  { kind := if '.' ∈ text then .float else .int, text, value := String.ofList text }

/-- Cuts one lexeme off the text that `c` begins. -/
def cut (c : Char) (cs : List Char) : Lexeme :=
  if c = '"' then ofString cs
  else match ofOperator? (c :: cs) with
    | some lexeme => lexeme
    | none =>
      if isWordStart c then ofWord (c :: cs)
      else if c.isDigit then ofNumber (c :: cs)
      else { kind := .error, text := [c], value := c.toString }

end Lexeme

end Scriptlet

import Scriptlet.Source.Location

namespace Scriptlet

inductive Kind
  | eof | error | int | float | string | identifier | openBracket | closeBracket | openCurly
  | closeCurly | openParen | closeParen | assign | equals | not | notEquals | less | lessEquals
  | greater | greaterEquals | or | and | dot | dotDot | semicolon | colon | question | comma
  | plusEquals | minusEquals | slashEquals | starEquals | plus | dash | slash | star | percent
  | intType | floatType | boolType | stringType | trueWord | falseWord | letWord | constWord
  | functionWord | classWord | newWord | thisWord | importWord | fromWord | returnWord | ifWord
  | elseWord | forWord
  deriving DecidableEq, Inhabited

namespace Kind

/-- Every kind, in the order of its declaration. -/
def all : List Kind :=
  [.eof, .error, .int, .float, .string, .identifier, .openBracket, .closeBracket, .openCurly,
  .closeCurly, .openParen, .closeParen, .assign, .equals, .not, .notEquals, .less, .lessEquals,
  .greater, .greaterEquals, .or, .and, .dot, .dotDot, .semicolon, .colon, .question, .comma,
  .plusEquals, .minusEquals, .slashEquals, .starEquals, .plus, .dash, .slash, .star, .percent,
  .intType, .floatType, .boolType, .stringType, .trueWord, .falseWord, .letWord, .constWord,
  .functionWord, .classWord, .newWord, .thisWord, .importWord, .fromWord, .returnWord, .ifWord,
  .elseWord, .forWord]

def name : Kind → String
  | eof => "EOF"
  | error => "Error"
  | int => "Int"
  | float => "Float"
  | string => "String"
  | identifier => "Identifier"
  | openBracket => "OpenBracket"
  | closeBracket => "CloseBracket"
  | openCurly => "OpenCurly"
  | closeCurly => "CloseCurly"
  | openParen => "OpenParen"
  | closeParen => "CloseParen"
  | assign => "Assignment"
  | equals => "Equals"
  | not => "Not"
  | notEquals => "NotEquals"
  | less => "Less"
  | lessEquals => "LessEquals"
  | greater => "Greater"
  | greaterEquals => "GreaterEquals"
  | or => "Or"
  | and => "And"
  | dot => "Dot"
  | dotDot => "DotDot"
  | semicolon => "Semicolon"
  | colon => "Colon"
  | question => "Question"
  | comma => "Comma"
  | plusEquals => "PlusEquals"
  | minusEquals => "MinusEquals"
  | slashEquals => "SlashEquals"
  | starEquals => "StarEquals"
  | plus => "Plus"
  | dash => "Dash"
  | slash => "Slash"
  | star => "Star"
  | percent => "Percent"
  | intType => "IntType"
  | floatType => "FloatType"
  | boolType => "BoolType"
  | stringType => "StringType"
  | trueWord => "True"
  | falseWord => "False"
  | letWord => "Let"
  | constWord => "Const"
  | functionWord => "Function"
  | classWord => "Class"
  | newWord => "New"
  | thisWord => "This"
  | importWord => "Import"
  | fromWord => "From"
  | returnWord => "Return"
  | ifWord => "If"
  | elseWord => "Else"
  | forWord => "For"

def ofName? (name : String) : Option Kind :=
  all.find? fun kind => kind.name == name

end Kind

/-- A lexeme in its place: its kind, its value, and the stretch of source it covers. The value of a
string is what the literal stands for; every other token has its own text. -/
structure Token where
  kind : Kind
  value : String
  span : Span
  deriving DecidableEq, Inhabited

/-- The token as it is listed: only literals and names show their value. -/
def Token.text (t : Token) : String :=
  match t.kind with
  | .string | .identifier | .int | .float => s!"{t.kind.name} ({t.value})"
  | _ => s!"{t.kind.name} ()"

end Scriptlet

import Scriptlet.Diagnostic.Basic
import Scriptlet.Token.Basic

namespace Scriptlet

/-- A token of a sequence that ends in the end of the text. `passed` holds the tokens before it, the
nearest first. -/
structure Cursor where
  passed : List Token
  current : Token
  ahead : List Token

namespace Cursor

/-- The end of the text at a position. -/
def endToken (position : Position) : Token := ⟨.eof, "EOF", ⟨position, position⟩⟩

/-- On the first token. An end is added to a sequence that lacks it. -/
def ofTokens (file : String) : List Token → Cursor
  | [] => ⟨[], endToken ⟨0, file⟩, []⟩
  | t :: ts =>
    let last := ts.getLast?.getD t
    ⟨[], t, if last.kind = .eof then ts else ts ++ [endToken last.span.stop]⟩

/-- The tokens in their order. -/
def tokens (c : Cursor) : List Token := c.passed.reverse ++ c.current :: c.ahead

def kind (c : Cursor) : Kind := c.current.kind

/-- The kind of the token after the current one. -/
def peek (c : Cursor) : Kind :=
  match c.ahead with
  | [] => .eof
  | t :: _ => t.kind

def position (c : Cursor) : Position := c.current.span.start

/-- Where the last passed token ends; before the first token, where that one starts. -/
def lastEnd (c : Cursor) : Position :=
  match c.passed with
  | [] => c.position
  | t :: _ => t.span.stop

/-- From `start` to the end of the last passed token. -/
def spanFrom (c : Cursor) (start : Position) : Span := ⟨start, c.lastEnd⟩

def hasTokens (c : Cursor) : Bool := c.kind ≠ .eof

def advance (c : Cursor) : Cursor :=
  match c.ahead with
  | [] => c
  | t :: ts => ⟨c.current :: c.passed, t, ts⟩

/-- The current token is not what the rule reading it expects. -/
def unexpectedFor (c : Cursor) (reason : String) : Diagnostic :=
  ⟨.unexpectedFor c.current.value reason, c.position⟩

end Cursor

end Scriptlet

import Scriptlet.Grammar.Expression
import Scriptlet.Grammar.Statement

namespace Scriptlet

namespace Grammar

/-- The parsers with `n` levels. -/
def level (g : Grammar) : Nat → Level
  | 0 => Level.none
  | n + 1 =>
    { expression := fun power c => g.readExpression (level g n) power c
      statement := fun c => g.readStatement (level g n) c
      branch := fun c => StatementRule.readBranch (level g n) c
      type := fun power c => g.readType (level g n) power c }

/-- The parsers with as many levels as can be needed from a cursor: a construct inside another
begins behind it, but for the expression that is a statement's first. -/
def levelAt (g : Grammar) (c : Cursor) : Level := g.level (2 * c.ahead.length + 4)

def expression (g : Grammar) (power : Power) : Parser Expr := fun c =>
  (g.levelAt c).expression power c

def statement (g : Grammar) : Parser Stmt := fun c => (g.levelAt c).statement c

def type (g : Grammar) (power : Power) : Parser Ty := fun c => (g.levelAt c).type power c

def block (g : Grammar) : Parser Block := fun c => (g.levelAt c).block c

def parameters (g : Grammar) : Parser (List Parameter) := fun c => (g.levelAt c).parameters c

/-- The statements up to the end of the text, as a block that begins with the text. -/
def program (g : Grammar) (file : String) : Parser Block := do
  let body ← Parser.manyUntil (· = .eof) g.statement (← Parser.repetitions)
  return .mk body ⟨⟨0, file⟩, (← get).lastEnd⟩

/-- Reads a program from its tokens. The cursor stands where reading stopped. -/
def parse (g : Grammar) (tokens : List Token) (file : String) :
    EStateM.Result Diagnostic Cursor Block :=
  g.program file (Cursor.ofTokens file tokens)

end Grammar

/-- Reads a program of the language from its tokens. -/
def parse (tokens : List Token) (file : String) : EStateM.Result Diagnostic Cursor Block :=
  Grammar.standard.parse tokens file

end Scriptlet

import Scriptlet.Grammar.Annotation

namespace Scriptlet

open Scriptlet.Parser

namespace StatementRule

def readExpression (below : Level) : Parser Stmt := do
  let start := (← get).position
  let e ← below.expression .default
  let _ ← expect .semicolon
  return .expression e (← spanFrom start)

/-- What a variable starts with. Without a type it needs a value. -/
def readInitializer (below : Level) (typed : Bool) : Parser (Option Expr) := do
  if (← kind) ≠ .semicolon then
    let _ ← expect .assign
    return some (← below.expression .default)
  else if typed then return none
  else unexpectedFor "expected rhs or explicit type"

def readVarDecl (below : Level) : Parser Stmt := do
  let word ← advance
  let constant : Bool := word.kind = .constWord
  let name ← expectOr .identifier
    ((← get).unexpectedFor "expected identifier during variable declaration")
  let type ← below.annotation?
  let value ← readInitializer below type.isSome
  require (!constant || value.isSome) "expected rhs in constant definition"
  let _ ← expect .semicolon
  return .varDecl name.value constant type value (← spanFrom word.span.start)

/-- The source of an import: a string or a name. -/
def readSource : Parser (Option String) := do
  if (← kind) = .fromWord then
    let _ ← advance
    if (← kind) = .string then return some (← advance).value
    else return some (← expect .identifier).value
  else return none

def readImport : Parser Stmt := do
  let start := (← advance).span.start
  let name ← expect .identifier
  let source ← readSource
  let _ ← expect .semicolon
  return .importDecl name.value source (← spanFrom start)

/-- After `else` stands another branch or a block. -/
def readOtherwise (below : Level) : Parser (Option Stmt) := do
  if (← kind) = .elseWord then
    let _ ← advance
    if (← kind) = .ifWord then return some (← below.branch)
    else return some (.block (← below.block))
  else return none

def readBranch (below : Level) : Parser Stmt := do
  let start := (← advance).span.start
  let condition ← below.expression .default
  let body ← below.block
  let otherwise ← readOtherwise below
  return .branch condition body otherwise (← spanFrom start)

/-- The second and third clause of a loop, and its body. -/
def readClauses (below : Level) (start : Position) (init : Option Stmt) : Parser Stmt := do
  let condition ← below.expression? .semicolon
  let _ ← expect .semicolon
  let post ← below.expression? .openCurly
  let body ← below.statement
  return .loop init condition post body (← spanFrom start)

/-- A loop has three clauses, or a condition only, or neither. -/
def readLoop (below : Level) : Parser Stmt := do
  let start := (← advance).span.start
  match ← kind with
  | .openCurly =>
    let body ← below.statement
    return .loop none none none body (← spanFrom start)
  | .semicolon =>
    let _ ← advance
    readClauses below start none
  | .letWord | .constWord =>
    let init ← readVarDecl below
    readClauses below start (some init)
  | _ =>
    let first := (← get).position
    let e ← below.expression .default
    if (← kind) ≠ .semicolon then
      let body ← below.statement
      return .loop none (some e) none body (← spanFrom start)
    else
      let _ ← advance
      let init := Stmt.expression e (← spanFrom first)
      readClauses below start (some init)

/-- A function without a name begins an expression. -/
def readFnDecl (below : Level) : Parser Stmt := do
  if (← get).peek ≠ .identifier then readExpression below
  else
    let start := (← advance).span.start
    let name ← expect .identifier
    let parameters ← below.parameters
    let result ← below.annotation?
    let body ← below.block
    return .fnDecl name.value parameters result body (← spanFrom start)

def readClass (below : Level) : Parser Stmt := do
  let start := (← advance).span.start
  let name ← expectOr .identifier ((← get).unexpectedFor "expected class name")
  let body ← below.block
  return .classDecl name.value body (← spanFrom start)

def readReturn (below : Level) : Parser Stmt := do
  let start := (← advance).span.start
  let value ← below.expression? .semicolon
  let _ ← expect .semicolon
  return .ret value (← spanFrom start)

def read (below : Level) : StatementRule → Parser Stmt
  | .varDecl => readVarDecl below
  | .importDecl => readImport
  | .branch => readBranch below
  | .loop => readLoop below
  | .block => return .block (← below.block)
  | .fnDecl => readFnDecl below
  | .classDecl => readClass below
  | .ret => readReturn below

end StatementRule

def Grammar.readStatement (g : Grammar) (below : Level) : Parser Stmt := do
  match g.statementRule (← kind) with
  | some rule => rule.read below
  | none => StatementRule.readExpression below

end Scriptlet

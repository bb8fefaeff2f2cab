import Scriptlet.Tree.Ty
import Scriptlet.Token.Basic
import Scriptlet.Numeral.Binary64

namespace Scriptlet

structure Parameter where
  name : String
  type : Ty

mutual

/-- Every node has the span it was read from, and an operator is kept as its token. -/
inductive Expr
  | int (value : Int64) (span : Span)
  | float (value : Binary64) (span : Span)
  | string (value : String) (span : Span)
  | bool (value : Bool) (span : Span)
  | symbol (name : String) (span : Span)
  | binary (operator : Token) (left right : Expr) (span : Span)
  | unary (operator : Token) (operand : Expr) (span : Span)
  | assign (operator : Token) (target value : Expr) (span : Span)
  | member (object : Expr) (property : String) (span : Span)
  | index (object position : Expr) (span : Span)
  | call (callee : Expr) (arguments : List Expr) (span : Span)
  | range (lower upper : Expr) (span : Span)
  | function (parameters : List Parameter) (result : Option Ty) (body : List Stmt) (span : Span)
  | array (items : List Expr) (span : Span)
  /-- A list whose item type is given: `[]int{1, 2}`. -/
  | arrayOf (item : Ty) (items : List Expr) (span : Span)
  /-- A struct with its fields: `new P {x: 1}`. -/
  | structOf (name : String) (fields : List (String × Expr)) (span : Span)
  /-- A struct made by its class: `new P(1)`. -/
  | construct (name : String) (arguments : List Expr) (span : Span)

inductive Stmt
  | block (block : Block)
  | expression (expression : Expr) (span : Span)
  | varDecl (name : String) (constant : Bool) (type : Option Ty) (value : Option Expr) (span : Span)
  | fnDecl (name : String) (parameters : List Parameter) (result : Option Ty) (body : Block)
      (span : Span)
  | classDecl (name : String) (body : Block) (span : Span)
  | branch (condition : Expr) (body : Block) (otherwise : Option Stmt) (span : Span)
  /-- A loop without a condition does not end by itself. -/
  | loop (init : Option Stmt) (condition post : Option Expr) (body : Stmt) (span : Span)
  | ret (value : Option Expr) (span : Span)
  | importDecl (name : String) (source : Option String) (span : Span)

inductive Block
  | mk (body : List Stmt) (span : Span)

end

def Expr.span : Expr → Span
  | .int _ s | .float _ s | .string _ s | .bool _ s | .symbol _ s | .binary _ _ _ s | .unary _ _ s
  | .assign _ _ _ s | .member _ _ s | .index _ _ s | .call _ _ s | .range _ _ s | .function _ _ _ s
  | .array _ s | .arrayOf _ _ s | .structOf _ _ s | .construct _ _ s => s

def Expr.start (e : Expr) : Position := e.span.start

def Block.body : Block → List Stmt
  | .mk body _ => body

def Block.span : Block → Span
  | .mk _ span => span

def Stmt.span : Stmt → Span
  | .block b => b.span
  | .expression _ s | .varDecl _ _ _ _ s | .fnDecl _ _ _ _ s | .classDecl _ _ s | .branch _ _ _ s
  | .loop _ _ _ _ s | .ret _ s | .importDecl _ _ s => s

end Scriptlet

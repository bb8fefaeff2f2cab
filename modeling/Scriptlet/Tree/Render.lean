import Scriptlet.Tree.Basic
import Scriptlet.Numeral.Shortest
import Scriptlet.Text.Quoted

namespace Scriptlet

def Parameter.text (p : Parameter) : String := p.name ++ ": " ++ p.type.text

namespace Render

/-- Each text after a space. -/
def spaced (texts : List String) : String := String.join (texts.map (" " ++ ·))

/-- A type that need not be there. -/
def annotation : Option Ty → String
  | none => ""
  | some type => ": " ++ type.text

def parameters (ps : List Parameter) : String :=
  "(" ++ String.intercalate " " (ps.map (·.text)) ++ ")"

end Render

open Scriptlet.Render

mutual

/-- Operators stand before their operands: `1 + 2 * 3` is written `(+ 1 (* 2 3))`. -/
def Expr.text : Expr → String
  | .int value _ => toString value
  | .float value _ => value.text
  | .string value _ => Text.quote value
  | .bool value _ => if value then "true" else "false"
  | .symbol name _ => name
  | .binary operator left right _ =>
    "(" ++ operator.value ++ " " ++ left.text ++ " " ++ right.text ++ ")"
  | .unary operator operand _ => "(" ++ operator.value ++ " " ++ operand.text ++ ")"
  | .assign operator target value _ =>
    "(" ++ operator.value ++ " " ++ target.text ++ " " ++ value.text ++ ")"
  | .member object property _ => "(. " ++ object.text ++ " " ++ property ++ ")"
  | .index object position _ => "([] " ++ object.text ++ " " ++ position.text ++ ")"
  | .call callee arguments _ => "(call " ++ callee.text ++ spaced (Expr.texts arguments) ++ ")"
  | .range lower upper _ => "(.. " ++ lower.text ++ " " ++ upper.text ++ ")"
  | .function ps result body _ =>
    "(function " ++ parameters ps ++ annotation result ++ spaced (Stmt.texts body) ++ ")"
  | .array items _ => "[" ++ String.intercalate " " (Expr.texts items) ++ "]"
  | .arrayOf item items _ => "([]" ++ item.text ++ spaced (Expr.texts items) ++ ")"
  | .structOf name fields _ => "(struct " ++ name ++ spaced (Expr.fieldTexts fields) ++ ")"
  | .construct name arguments _ => "(new " ++ name ++ spaced (Expr.texts arguments) ++ ")"

def Expr.texts : List Expr → List String
  | [] => []
  | e :: es => e.text :: Expr.texts es

def Expr.fieldTexts : List (String × Expr) → List String
  | [] => []
  | (name, e) :: fields => ("(" ++ name ++ " " ++ e.text ++ ")") :: Expr.fieldTexts fields

def Stmt.text : Stmt → String
  | .block block => block.text
  | .expression e _ => e.text ++ ";"
  | .varDecl name constant type value _ =>
    "(" ++ (if constant then "const" else "let") ++ " " ++ name ++ annotation type ++
      (match value with
        | some e => " " ++ e.text
        | none => "") ++ ")"
  | .fnDecl name ps result body _ =>
    "(function " ++ name ++ " " ++ parameters ps ++ annotation result ++ " " ++ body.text ++ ")"
  | .classDecl name body _ => "(class " ++ name ++ " " ++ body.text ++ ")"
  | .branch condition body otherwise _ =>
    "(if " ++ condition.text ++ " " ++ body.text ++
      (match otherwise with
        | some s => " else " ++ s.text
        | none => "") ++ ")"
  | .loop init condition post body _ =>
    "(for " ++
      (match init with
        | some s => s.text
        | none => "_") ++ " " ++
      (match condition with
        | some e => e.text
        | none => "_") ++ " " ++
      (match post with
        | some e => e.text
        | none => "_") ++ " " ++ body.text ++ ")"
  | .ret value _ =>
    match value with
    | some e => "(return " ++ e.text ++ ")"
    | none => "(return)"
  | .importDecl name source _ =>
    match source with
    | some s => "(import " ++ name ++ " " ++ Text.quote s ++ ")"
    | none => "(import " ++ name ++ ")"

def Stmt.texts : List Stmt → List String
  | [] => []
  | s :: ss => s.text :: Stmt.texts ss

def Block.text : Block → String
  | .mk body _ => "\x7b" ++ spaced (Stmt.texts body) ++ " \x7d"

end

end Scriptlet

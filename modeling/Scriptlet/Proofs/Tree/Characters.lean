import Scriptlet.Proofs.Syntax.Respan
import Scriptlet.Proofs.Text.Quotation
import Scriptlet.Proofs.Tree.Legible
import Scriptlet.Tree.Render

namespace Scriptlet

open Text

section Clear

/-- An infinite number is written like a name. -/
def Expr.isInfinite : Expr → Bool
  | .float value _ => value.magnitude = Binary64.infinity
  | _ => false

/-- The name that is written where a loop lacks a clause. -/
def Expr.isBlank : Expr → Bool
  | .symbol name _ => name = "_"
  | _ => false

/-- A loop with this name as its condition or as its last clause. -/
def Stmt.hasBlankClause : Stmt → Bool
  | .loop _ condition post _ _ => condition.any Expr.isBlank || post.any Expr.isBlank
  | _ => false

/-- The node is not written like another one. -/
def Node.isClear : Node → Bool
  | .expression e => !e.isInfinite
  | .statement s => !s.hasBlankClause

/-- The node can be told from every other by its text. -/
structure Node.Distinct (n : Node) : Prop where
  legible : n.Legible
  clear : n.isClear = true

end Clear

section Scripts

def Ty.script : Script Ty Ty where
  text t := t.text.toList
  legible := Ty.Plain
  meaning := id

def Parameter.script : Script Parameter Parameter where
  text p := p.text.toList
  legible := Parameter.Legible
  meaning := id

def Expr.script : Script Expr Expr where
  text e := e.text.toList
  legible e := (Node.expression e).Throughout Node.Distinct
  meaning := Expr.unplaced

def Stmt.script : Script Stmt Stmt where
  text s := s.text.toList
  legible s := (Node.statement s).Throughout Node.Distinct
  meaning := Stmt.unplaced

/-- The value of a field in a struct, with its name. -/
def Field.script : Script (String × Expr) (String × Expr) where
  text field := '(' :: (field.1.toList ++ ' ' :: (Expr.script.text field.2 ++ [')']))
  legible field := Lexeme.IsWord field.1 ∧ Expr.script.legible field.2
  meaning field := (field.1, field.2.unplaced)

def quoted : Script String String where
  text s := (quote s).toList
  legible _ := True
  meaning := id

theorem quoted_text (s : String) : quoted.text s = (quote s).toList := by simp only [quoted]

theorem quoted_tells (s : String) : quoted.Tells s := by
  intro t r r' _ _ _ h
  rw [quoted_text, quoted_text] at h
  exact quote_append_inj h

/-- An annotation behind what it is about. -/
def annotated : Option Ty → List Char
  | none => []
  | some t => ':' :: ' ' :: Ty.script.text t

/-- Parameters in parentheses, and the type of the result. -/
def signature (parameters : List Parameter) (result : Option Ty) : List Char :=
  '(' :: (Parameter.script.joined parameters ++ ')' :: annotated result)

theorem toList_annotation (type : Option Ty) :
    (Render.annotation type).toList = annotated type := by
  cases type with
  | none => rfl
  | some t => simp [Render.annotation, annotated, Ty.script]

theorem toList_parameters (parameters : List Parameter) :
    (Render.parameters parameters).toList = '(' :: (Parameter.script.joined parameters ++ [')']) := by
  have hjoined := Script.toList_intercalate (w := Parameter.script) Parameter.text (fun _ => rfl)
    parameters
  simp [Render.parameters, ← hjoined]

/-- An operator in front of its operands. -/
def operation (operator : Token) (operands : List Expr) : List Char :=
  '(' :: (operator.value.toList ++ (Expr.script.spread operands ++ [')']))

theorem Expr.texts_eq_map (es : List Expr) : Expr.texts es = es.map Expr.text := by
  induction es with
  | nil => rfl
  | cons e es ih => exact congrArg (e.text :: ·) ih

theorem Expr.fieldTexts_eq_map (fields : List (String × Expr)) : Expr.fieldTexts fields =
    fields.map fun field => "(" ++ field.1 ++ " " ++ field.2.text ++ ")" := by
  induction fields with
  | nil => rfl
  | cons field fields ih => exact congrArg (("(" ++ field.1 ++ " " ++ field.2.text ++ ")") :: ·) ih

theorem Stmt.texts_eq_map (ss : List Stmt) : Stmt.texts ss = ss.map Stmt.text := by
  induction ss with
  | nil => rfl
  | cons s ss ih => exact congrArg (s.text :: ·) ih

theorem toList_spaced_texts (es : List Expr) :
    (Render.spaced (Expr.texts es)).toList = Expr.script.spread es := by
  rw [Expr.texts_eq_map]
  exact Script.toList_spaced Expr.text (fun _ => rfl) es

theorem toList_intercalate_texts (es : List Expr) :
    (String.intercalate " " (Expr.texts es)).toList = Expr.script.joined es := by
  rw [Expr.texts_eq_map]
  exact Script.toList_intercalate Expr.text (fun _ => rfl) es

theorem toList_spaced_fieldTexts (fields : List (String × Expr)) :
    (Render.spaced (Expr.fieldTexts fields)).toList = Field.script.spread fields := by
  rw [Expr.fieldTexts_eq_map]
  exact Script.toList_spaced _ (fun _ => by simp [Field.script, Expr.script]) fields

theorem toList_spaced_stmtTexts (ss : List Stmt) :
    (Render.spaced (Stmt.texts ss)).toList = Stmt.script.spread ss := by
  rw [Stmt.texts_eq_map]
  exact Script.toList_spaced Stmt.text (fun _ => rfl) ss

section Equations

attribute [local simp] Expr.script Stmt.script Script.spread signature toList_spaced_texts
  toList_spaced_fieldTexts toList_spaced_stmtTexts toList_parameters toList_annotation

-- A text is unfolded by `change`: it is defined by recursion through lists of parts.

namespace Expr

variable (s : Span)

theorem script_string (value : String) : script.text (.string value s) = quoted.text value := by
  have htext : (Expr.string value s).text = quote value := rfl
  rw [quoted_text, ← htext, script]

theorem script_binary (operator : Token) (left right : Expr) :
    script.text (.binary operator left right s) = operation operator [left, right] := by
  change ("(" ++ operator.value ++ " " ++ left.text ++ " " ++ right.text ++ ")").toList = _
  simp [operation]

theorem script_unary (operator : Token) (operand : Expr) :
    script.text (.unary operator operand s) = operation operator [operand] := by
  change ("(" ++ operator.value ++ " " ++ operand.text ++ ")").toList = _
  simp [operation]

theorem script_assign (operator : Token) (target value : Expr) :
    script.text (.assign operator target value s) = operation operator [target, value] := by
  change ("(" ++ operator.value ++ " " ++ target.text ++ " " ++ value.text ++ ")").toList = _
  simp [operation]

theorem script_member (object : Expr) (property : String) :
    script.text (.member object property s) =
      "(. ".toList ++ (script.text object ++ ' ' :: (property.toList ++ [')'])) := by
  change ("(. " ++ object.text ++ " " ++ property ++ ")").toList = _
  simp

theorem script_index (object position : Expr) :
    script.text (.index object position s) =
      "([]".toList ++ (script.spread [object, position] ++ [')']) := by
  change ("([] " ++ object.text ++ " " ++ position.text ++ ")").toList = _
  simp

theorem script_call (callee : Expr) (arguments : List Expr) :
    script.text (.call callee arguments s) =
      "(call".toList ++ (script.spread (callee :: arguments) ++ [')']) := by
  change ("(call " ++ callee.text ++ Render.spaced (texts arguments) ++ ")").toList = _
  simp

theorem script_range (lower upper : Expr) :
    script.text (.range lower upper s) =
      "(..".toList ++ (script.spread [lower, upper] ++ [')']) := by
  change ("(.. " ++ lower.text ++ " " ++ upper.text ++ ")").toList = _
  simp

theorem script_function (parameters : List Parameter) (result : Option Ty) (body : List Stmt) :
    script.text (.function parameters result body s) =
      "(function ".toList ++
        (signature parameters result ++ (Stmt.script.spread body ++ [')'])) := by
  change ("(function " ++ Render.parameters parameters ++ Render.annotation result ++
    Render.spaced (Stmt.texts body) ++ ")").toList = _
  simp

theorem script_array (items : List Expr) :
    script.text (.array items s) = '[' :: (script.joined items ++ [']']) := by
  change ("[" ++ String.intercalate " " (texts items) ++ "]").toList = _
  rw [String.toList_append, String.toList_append, toList_intercalate_texts]
  simp

theorem script_arrayOf (item : Ty) (items : List Expr) :
    script.text (.arrayOf item items s) =
      "([]".toList ++ (Ty.script.text item ++ (script.spread items ++ [')'])) := by
  change ("([]" ++ item.text ++ Render.spaced (texts items) ++ ")").toList = _
  simp [Ty.script]

theorem script_structOf (name : String) (fields : List (String × Expr)) :
    script.text (.structOf name fields s) =
      "(struct ".toList ++ (name.toList ++ (Field.script.spread fields ++ [')'])) := by
  change ("(struct " ++ name ++ Render.spaced (fieldTexts fields) ++ ")").toList = _
  simp

theorem script_construct (name : String) (arguments : List Expr) :
    script.text (.construct name arguments s) =
      "(new ".toList ++ (name.toList ++ (script.spread arguments ++ [')'])) := by
  change ("(new " ++ name ++ Render.spaced (texts arguments) ++ ")").toList = _
  simp

end Expr

namespace Stmt

variable (s : Span)

theorem script_block (body : List Stmt) :
    script.text (.block (.mk body s)) = '\x7b' :: (script.spread body ++ [' ', '\x7d']) := by
  change ("\x7b" ++ Render.spaced (texts body) ++ " \x7d").toList = _
  simp

theorem script_expression (e : Expr) :
    script.text (.expression e s) = Expr.script.text e ++ [';'] := by
  change (e.text ++ ";").toList = _
  simp

theorem script_varDecl (name : String) (constant : Bool) (type : Option Ty) (value : Option Expr) :
    script.text (.varDecl name constant type value s) =
      (if constant then "(const ".toList else "(let ".toList) ++
        (name.toList ++ (annotated type ++ (Expr.script.spread value.toList ++ [')']))) := by
  have htext : (Stmt.varDecl name constant type value s).text =
      "(" ++ (if constant then "const" else "let") ++ " " ++ name ++ Render.annotation type ++
        value.elim "" (" " ++ ·.text) ++ ")" := by
    cases value <;> rfl
  change (Stmt.varDecl name constant type value s).text.toList = _
  rw [htext]
  cases value <;> cases constant <;> simp

theorem script_fnDecl (name : String) (parameters : List Parameter) (result : Option Ty)
    (body : Block) :
    script.text (.fnDecl name parameters result body s) =
      "(function ".toList ++ (name.toList ++ ' ' :: (signature parameters result ++
        (script.spread [.block body] ++ [')']))) := by
  change ("(function " ++ name ++ " " ++ Render.parameters parameters ++ Render.annotation result ++
    " " ++ (block body).text ++ ")").toList = _
  simp

theorem script_classDecl (name : String) (body : Block) :
    script.text (.classDecl name body s) =
      "(class ".toList ++ (name.toList ++ (script.spread [.block body] ++ [')'])) := by
  change ("(class " ++ name ++ " " ++ (block body).text ++ ")").toList = _
  simp

/-- What stands behind `else`, with the word. -/
def alternative (otherwise : Option Stmt) : List Char :=
  otherwise.toList.flatMap fun s => " else ".toList ++ script.text s

theorem script_branch (condition : Expr) (body : Block) (otherwise : Option Stmt) :
    script.text (.branch condition body otherwise s) =
      "(if".toList ++ (Expr.script.spread [condition] ++ (script.spread [.block body] ++
        (alternative otherwise ++ [')']))) := by
  have htext : (Stmt.branch condition body otherwise s).text =
      "(if " ++ condition.text ++ " " ++ (block body).text ++
        otherwise.elim "" (" else " ++ ·.text) ++ ")" := by
    cases otherwise <;> rfl
  change (Stmt.branch condition body otherwise s).text.toList = _
  rw [htext]
  cases otherwise <;> simp [alternative]

/-- A clause of a loop, or the name that is written where it is missing. -/
def clause (e : Option Expr) : Expr := e.getD (.symbol "_" default)

/-- The first clause of a loop, which is a statement. -/
def initial : Option Stmt → List Char
  | none => Expr.script.text (clause none)
  | some s => script.text s

theorem script_loop (init : Option Stmt) (condition post : Option Expr) (body : Stmt) :
    script.text (.loop init condition post body s) =
      "(for ".toList ++ (initial init ++ (Expr.script.spread [clause condition] ++
        (Expr.script.spread [clause post] ++ (script.spread [body] ++ [')'])))) := by
  have htext : (Stmt.loop init condition post body s).text =
      "(for " ++ init.elim "_" text ++ " " ++ (clause condition).text ++ " " ++ (clause post).text ++
        " " ++ body.text ++ ")" := by
    cases init <;> cases condition <;> cases post <;> rfl
  have hinitial : (init.elim "_" text).toList = initial init := by
    cases init <;> rfl
  change (Stmt.loop init condition post body s).text.toList = _
  rw [htext]
  simp [hinitial]

theorem script_ret (value : Option Expr) :
    script.text (.ret value s) = "(return".toList ++ (Expr.script.spread value.toList ++ [')']) := by
  cases value with
  | none =>
    have htext : (Stmt.ret none s).text = "(return)" := rfl
    change (Stmt.ret none s).text.toList = _
    rw [htext]
    simp
  | some e =>
    change ("(return " ++ e.text ++ ")").toList = _
    simp

theorem script_importDecl (name : String) (source : Option String) :
    script.text (.importDecl name source s) =
      "(import ".toList ++ (name.toList ++ (quoted.spread source.toList ++ [')'])) := by
  cases source with
  | none =>
    change ("(import " ++ name ++ ")").toList = _
    simp
  | some source =>
    change ("(import " ++ name ++ " " ++ quote source ++ ")").toList = _
    simp [quoted]

end Stmt

end Equations

end Scripts

end Scriptlet

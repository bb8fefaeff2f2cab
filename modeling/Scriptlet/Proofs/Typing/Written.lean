import Scriptlet.Proofs.Syntax.Soundness
import Scriptlet.Proofs.Typing.Built

namespace Scriptlet

/-- The type can be written in an annotation: it mentions no struct, but by name. -/
def Ty.Written (t : Ty) : Prop := t.BuiltFrom (fun _ => True) (fun _ => False)

/-- The types in annotations can be written. -/
def Block.Written (program : Block) : Prop := Stmt.EveryOf Ty.Written True program.body

theorem Ty.Spelled.written {t : Ty} {ts : List Token} (h : t.Spelled ts) : t.Written := by
  induction h with
  | named | primitive => trivial
  | list _ _ _ ih => exact ih

theorem written_of_introduced {k : Kind} {result : Option Ty} {ts : List Token}
    (h : Introduced k Ty.Spelled result ts) : ∀ t ∈ result, t.Written := by
  rintro t ⟨⟩
  cases h with
  | some _ h => exact h.written

theorem written_of_listed {parameters : List Parameter} {ts : List Token}
    (h : Listed Parameter.Spelled parameters ts) : ∀ p ∈ parameters, p.type.Written := by
  have hone {p : Parameter} {ts : List Token} (h : p.Spelled ts) : p.type.Written := by
    cases h with
    | mk _ _ h => exact h.written
  induction h with
  | nil => simp
  | last h => simpa using hone h
  | cons h _ _ ih => simpa using ⟨hone h, ih⟩

section Trees

variable {m : Manner}

mutual

theorem Expr.Bare.written {e : Expr} {ts : List Token} (h : Expr.Bare m e ts) :
    e.Every Ty.Written True := by
  match h with
  | .int .. | .float .. | .string .. | .bool .. | .symbol .. => trivial
  | .binary _ _ _ hleft hright => exact ⟨hleft.written, hright.written⟩
  | .unary _ _ _ hoperand => exact hoperand.written
  | .assign _ _ _ htarget hvalue => exact ⟨htarget.written, hvalue.written⟩
  | .member hobject _ _ => exact hobject.written
  | .index hobject _ hposition _ => exact ⟨hobject.written, hposition.written⟩
  | .call hcallee _ harguments _ => exact ⟨hcallee.written, written_of_spelled harguments⟩
  | .range _ hlower hupper => exact ⟨hlower.written, hupper.written⟩
  | .function _ _ hparameters _ hresult hbody =>
    exact ⟨written_of_listed hparameters, written_of_introduced hresult, hbody.written⟩
  | .array _ hitems _ => exact written_of_spelled hitems
  | .arrayOf _ _ hitem _ hitems _ => exact ⟨hitem.written, written_of_spelled hitems⟩
  | .structOf _ _ _ hfields _ => exact written_of_fields hfields
  | .construct _ _ _ harguments _ => exact written_of_spelled harguments

theorem Expr.Spelled.written {n : Nat} {e : Expr} {ts : List Token} (h : Expr.Spelled m n e ts) :
    e.Every Ty.Written True := by
  match h with
  | .bare _ h => exact h.written
  | .group _ h _ => exact h.written

theorem written_of_spelled {es : List Expr} {ts : List Token}
    (h : Listed (Expr.Spelled m Power.default.rank) es ts) : Expr.EveryOf Ty.Written True es := by
  match h with
  | .nil => trivial
  | .last h => exact ⟨h.written, trivial⟩
  | .cons h _ hrest => exact ⟨h.written, written_of_spelled hrest⟩

theorem written_of_fields {fields : List (String × Expr)} {ts : List Token}
    (h : Listed (Field.Spelled m) fields ts) : Expr.EveryOfFields Ty.Written True fields := by
  match h with
  | .nil => trivial
  | .last h => exact ⟨h.written, trivial⟩
  | .cons h _ hrest => exact ⟨h.written, written_of_fields hrest⟩

theorem Field.Spelled.written {field : String × Expr} {ts : List Token}
    (h : Field.Spelled m field ts) : field.2.Every Ty.Written True := by
  match h with
  | .mk _ _ h => exact h.written

theorem written_of_optional {e : Option Expr} {ts : List Token}
    (h : Optional (Expr.Spelled m Power.default.rank) e ts) : Expr.Every? Ty.Written True e := by
  match h with
  | .none => trivial
  | .some h => exact h.written

theorem written_of_value {value : Option Expr} {ts : List Token}
    (h : Introduced .assign (Expr.Spelled m Power.default.rank) value ts) :
    Expr.Every? Ty.Written True value := by
  match h with
  | .none => trivial
  | .some _ h => exact h.written

theorem Stmt.Spelled.written {s : Stmt} {ts : List Token} (h : Stmt.Spelled m s ts) :
    s.Every Ty.Written True := by
  match h with
  | .block (.mk _ hbody _) => exact written_of_chained hbody
  | .expression he _ => exact he.written
  | .varDecl _ _ htype hvalue _ _ _ => exact ⟨written_of_introduced htype, written_of_value hvalue⟩
  | .fnDecl _ _ _ hparameters _ hresult (.mk _ hbody _) =>
    exact ⟨written_of_listed hparameters, written_of_introduced hresult, written_of_chained hbody⟩
  | .classDecl _ _ (.mk _ hbody _) => exact written_of_chained hbody
  | .branch _ hcondition (.mk _ hbody _) hotherwise =>
    exact ⟨hcondition.written, written_of_chained hbody, written_of_otherwise hotherwise⟩
  | .forever _ _ hbody => exact ⟨trivial, trivial, trivial, hbody.written⟩
  | .while _ hcondition _ hbody => exact ⟨trivial, hcondition.written, trivial, hbody.written⟩
  | .loop _ hinit hcondition _ hpost _ hbody =>
    exact ⟨hinit.written, written_of_optional hcondition, written_of_optional hpost, hbody.written⟩
  | .ret _ hvalue _ => exact written_of_optional hvalue
  | .importDecl .. => trivial

theorem written_of_otherwise {otherwise : Option Stmt} {ts : List Token}
    (h : Introduced .elseWord (Otherwise.Spelled m) otherwise ts) :
    Stmt.Every? Ty.Written True otherwise := by
  match h with
  | .none => trivial
  | .some _ h => exact h.written

theorem Otherwise.Spelled.written {s : Stmt} {ts : List Token} (h : Otherwise.Spelled m s ts) :
    s.Every Ty.Written True := by
  match h with
  | .block (.mk _ hbody _) => exact written_of_chained hbody
  | .branch h => exact h.written

theorem Init.Spelled.written {init : Option Stmt} {ts : List Token} (h : Init.Spelled m init ts) :
    Stmt.Every? Ty.Written True init := by
  match h with
  | .none _ => trivial
  | .varDecl h | .expression h => exact h.written

theorem written_of_chained {ss : List Stmt} {ts : List Token}
    (h : Chained (Stmt.Spelled m) ss ts) : Stmt.EveryOf Ty.Written True ss := by
  match h with
  | .nil => trivial
  | .cons h hrest => exact ⟨h.written, written_of_chained hrest⟩

theorem Block.Spelled.written {b : Block} {ts : List Token} (h : Block.Spelled m b ts) :
    b.Written := by
  match h with
  | .mk _ hbody _ => exact written_of_chained hbody

end

end Trees

/-- The annotations of a program that is read from a text mention no structs. -/
theorem written_of_parse {source file file' : String} {b : Block} {c : Cursor}
    (h : parse (tokenize source file).1 file' = .ok b c) : b.Written := by
  have hproper := Cursor.proper_ofTokens (proper_tokenize source file) file'
  obtain ⟨_, _, _, hspelled⟩ := Grammar.takes_program file' _ hproper b c h
  exact written_of_chained hspelled

end Scriptlet

import Scriptlet.Proofs.Syntax.Region
import Scriptlet.Typing.Program

namespace Scriptlet

/-- Whether the fault can be found by looking at the types in the context. -/
def Fault.Ordinary : Fault → Prop
  | .moduleImported _ | .cyclicField => False
  | _ => True

theorem Fault.Ordinary.ne_cyclicField {fault : Fault} (h : fault.Ordinary) :
    fault ≠ .cyclicField := by
  rintro rfl
  exact h

theorem Fault.Ordinary.ne_moduleImported {fault : Fault} (h : fault.Ordinary) (name : String) :
    fault ≠ .moduleImported name := by
  rintro rfl
  exact h

namespace Typing

/-- What holds of every step that only looks at the context, and whose errors are ordinary ones at
such positions. -/
structure Reading (M : Position → Prop) (P : (α : Type) → Check α → Prop) : Prop where
  pure : ∀ {α : Type} (a : α), P α (pure a)
  throw : ∀ {α : Type} (d : Diagnostic), d.fault.Ordinary → M d.position → P α (throw d)
  get : ∀ {α : Type} {f : Context → Check α}, (∀ c, P α (f c)) → P α (MonadState.get >>= f)
  bind : ∀ {α β : Type} {x : Check α} {f : α → Check β}, P α x → (∀ a, P β (f a)) → P β (x >>= f)

section Reading

variable {M : Position → Prop} {P : (α : Type) → Check α → Prop} (hP : Reading M P)
  {position : Position}
include hP

theorem reading_classType (name : String) (h : M position) : P Ty (classType name position) := by
  apply hP.get
  intro c
  split
  · exact hP.pure _
  · exact hP.throw _ trivial h

theorem reading_symbol (name : String) (h : M position) : P Symbol (symbol name position) := by
  apply hP.get
  intro c
  split
  · exact hP.pure _
  · exact hP.throw _ trivial h

mutual

theorem reading_resolve (t : Ty) (h : M position) : P Ty (resolve position t) := by
  match t with
  | .named name =>
    rw [resolve]
    split
    · exact hP.pure _
    · exact reading_classType hP name h
  | .list item =>
    rw [resolve]
    apply hP.bind (reading_resolve item h)
    exact fun _ => hP.pure _
  | .function parameters result =>
    rw [resolve]
    apply hP.bind (reading_resolveAll parameters h)
    intro types
    apply hP.bind (reading_resolve result h)
    exact fun _ => hP.pure _
  | .struct name members =>
    rw [resolve]
    exact hP.pure _

theorem reading_resolveAll (ts : List Ty) (h : M position) :
    P (List Ty) (resolveAll position ts) := by
  match ts with
  | [] => exact hP.pure _
  | t :: ts =>
    rw [resolveAll]
    apply hP.bind (reading_resolve t h)
    intro first
    apply hP.bind (reading_resolveAll ts h)
    exact fun _ => hP.pure _

end

theorem reading_resolve? (t : Option Ty) (h : M position) :
    P (Option Ty) (resolve? position t) := by
  cases t with
  | none => exact hP.pure _
  | some t =>
    rw [resolve?]
    apply hP.bind (reading_resolve hP t h)
    exact fun _ => hP.pure _

theorem reading_signature (parameters : List Parameter) (result : Option Ty) (h : M position) :
    P Signature (signature parameters result position) := by
  rw [signature]
  apply hP.bind (reading_resolveAll hP _ h)
  intro types
  apply hP.bind (reading_resolve? hP result h)
  exact fun _ => hP.pure _

theorem reading_expectSame (fault : String → String → Fault)
    (hfault : ∀ a b, (fault a b).Ordinary) (expected received : Ty) (h : M position) :
    P Unit (expectSame fault expected received position) := by
  rw [expectSame]
  split
  · exact hP.pure _
  · exact hP.throw _ (hfault _ _) h

theorem reading_expectType (expected received : Ty) (h : M position) :
    P Unit (expectType expected received position) :=
  reading_expectSame hP .typeMismatch (fun _ _ => trivial) expected received h

theorem reading_expectCondition (received : Ty) (h : M position) :
    P Unit (expectCondition received position) :=
  reading_expectSame hP (fun _ text => .conditionMismatch text) (fun _ _ => trivial) .bool received
    h

theorem reading_checkUnary (operator : Token) (operand : Ty) (h : M position) :
    P Unit (checkUnary operator operand position) := by
  rw [checkUnary]
  split
  · exact reading_expectType hP _ _ h
  · split
    · exact hP.pure _
    · exact reading_expectType hP _ _ h

theorem reading_checkTarget (target : Expr) (h : M target.start) :
    P Unit (checkTarget target) := by
  rw [checkTarget.eq_def]
  split
  · split
    · exact hP.throw _ trivial h
    · apply hP.bind (reading_symbol hP _ h)
      intro s
      split
      · exact hP.throw _ trivial h
      · exact hP.pure _
  · exact hP.pure _
  · exact hP.pure _
  · exact hP.throw _ trivial h

theorem reading_checkMember (object : Ty) (property : String) {span : Span} (h : M position)
    (hstop : M span.stop) : P Ty (checkMember object property position span) := by
  rw [checkMember.eq_def]
  split
  · apply hP.get
    intro c
    dsimp only
    split
    · exact hP.pure _
    · exact hP.throw _ trivial hstop
  · exact hP.throw _ trivial h

theorem reading_checkCount (parameters : List Ty) {arguments : List Expr} {span : Span}
    (h : ∀ e ∈ arguments, M e.start) (hstop : M span.stop) :
    P Unit (checkCount parameters arguments span) := by
  rw [checkCount]
  split
  · rename_i extra es heq
    have hextra : extra ∈ arguments.drop parameters.length := by
      rw [heq]
      exact List.mem_cons_self
    exact hP.throw _ trivial (h extra (List.mem_of_mem_drop hextra))
  · split
    · exact hP.throw _ trivial hstop
    · exact hP.pure _

theorem reading_annotatedMembers {body : List Stmt} (h : ∀ s ∈ body, M s.span.start) :
    P (List (String × Ty)) (annotatedMembers body) := by
  fun_induction annotatedMembers body with
  | case1 => exact hP.pure _
  | case2 name _ type _ span rest ih =>
    rw [List.forall_mem_cons] at h
    apply hP.bind (reading_resolve hP type h.1)
    intro type
    apply hP.bind (ih h.2)
    exact fun _ => hP.pure _
  | case3 _ _ _ ih =>
    rw [List.forall_mem_cons] at h
    exact ih h.2

theorem reading_resultType (h : M position) : P Ty (resultType position) := by
  apply hP.get
  intro c
  split
  · exact hP.throw _ trivial h
  · exact hP.pure _

theorem reading_variableType (annotated received : Option Ty) {place : Position} (hplace : M place)
    (h : M position) : P Ty (variableType annotated received place position) := by
  rw [variableType.eq_def]
  split
  · apply hP.bind (reading_expectType hP _ _ hplace)
    exact fun _ => hP.pure _
  · exact hP.pure _
  · exact hP.pure _
  · exact hP.throw _ trivial h

end Reading

/-- A member is one of `this` or one of a value. -/
theorem own_or_of_value (object : Expr) (property : String) (span : Span) :
    (∃ s, object = .symbol "this" s) ∨
      ∀ reread : Expr → Check Ty, checkExpr reread (.member object property span) = (do
        let type ← checkExpr reread object
        checkMember type property object.start span) := by
  by_cases hthis : ∃ s, object = .symbol "this" s
  · exact .inl hthis
  · refine .inr fun reread => ?_
    rw [checkExpr]
    exact fun s hs => hthis ⟨s, hs⟩

theorem checkExpr_member (reread : Expr → Check Ty) (object : Expr) (property : String)
    (span : Span) :
    (∃ s, checkExpr reread (.member object property span) =
        checkOwnMember reread property s span) ∨
      checkExpr reread (.member object property span) = (do
        let type ← checkExpr reread object
        checkMember type property object.start span) := by
  rcases own_or_of_value object property span with ⟨s, rfl⟩ | hvalue
  · refine .inl ⟨s, ?_⟩
    rw [checkExpr]
  · exact .inr (hvalue reread)

end Typing

end Scriptlet

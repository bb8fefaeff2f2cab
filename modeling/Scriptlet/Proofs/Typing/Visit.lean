import Scriptlet.Proofs.Typing.Frame

namespace Scriptlet.Typing

variable {reread : Expr → Check Ty}

/-- The check comes from the first context to the second, and is in the same class all the time. A
function's body is checked in any scope. -/
inductive Comes (c : Context) : Context → Prop
  | refl : Comes c c
  | statement {d d' : Context} {n : Nat} {s : Stmt} (h : Comes c d)
      (hs : checkStmt (checkNested n) s d = .ok () d') : Comes c d'
  | expression {d d' : Context} {n : Nat} {e : Expr} {t : Ty} (h : Comes c d)
      (he : checkNested n e d = .ok t d') : Comes c d'
  | function {d : Context} (h : Comes c d) (scope : Scope) (returns : ReturnContext) :
      Comes c { d with scope, returns }

theorem Comes.leads {c d : Context} (h : Comes c d) : c.Leads d := by
  induction h with
  | refl => exact .refl c
  | @statement d d' n s _ hs ih =>
    have hgrows := (steady_checkStmt (steady_checkNested n) s).of_ok hs
    exact ih.trans hgrows.toLeads
  | @expression d d' n e t _ he ih =>
    have hgrows := (steady_checkNested n e).of_ok he
    exact ih.trans hgrows.toLeads
  | function _ scope returns ih => exact ih.trans (.of_eq rfl rfl)

/-- Begins with the body of a class: its annotated members are known by then. -/
def enterClass (opened : OpenClass) : Check Unit := do
  registerClass opened.name []
  registerClass opened.name (← annotatedMembers opened.body.body)
  modify ({ · with scope := {}, enclosing := some opened })

/-- Some program has its check visit the context. -/
inductive Visited : Context → Prop
  | fresh : Visited .fresh
  | comes {c d : Context} (hc : Visited c) (h : Comes c d) : Visited d
  | enterClass {c d : Context} {opened : OpenClass} (hc : Visited c)
      (h : enterClass opened c = .ok () d) : Visited d

/-- The context in which the body begins is the one around, but for the scope, the class that is
open and what is known of it. -/
theorem enterClass_ok {opened : OpenClass} {c d : Context} (h : enterClass opened c = .ok () d) :
    d.enclosing = some opened ∧ (c.Named → d.Named) := by
  obtain ⟨_, c₁, hempty, h⟩ := bind_run_eq_ok_iff.mp h
  obtain ⟨members, -, h⟩ := (still_annotatedMembers _).bind_eq_ok h
  obtain ⟨_, c₂, hregister, h⟩ := bind_run_eq_ok_iff.mp h
  have h₁ := (steady_registerClass _ _).of_ok hempty
  have h₂ := (steady_registerClass _ _).of_ok hregister
  have h₃ : c₂.Named → d.Named := by
    cases h
    exact id
  refine ⟨?_, fun hnamed => h₃ (h₂.named (h₁.named hnamed))⟩
  cases h
  rfl

/-- The check of the body knows the class and its annotated members. -/
theorem enterClass_eq {opened : OpenClass} {c d : Context} (h : enterClass opened c = .ok () d) :
    ∃ members, d = { c with
      scope := {}
      enclosing := some opened
      classes := (c.classes.insert opened.name (.struct opened.name [])).insert opened.name
        (.struct opened.name members) } := by
  obtain ⟨_, c₁, hempty, h⟩ := bind_run_eq_ok_iff.mp h
  obtain ⟨members, -, h⟩ := (still_annotatedMembers _).bind_eq_ok h
  obtain ⟨_, c₂, hregister, h⟩ := bind_run_eq_ok_iff.mp h
  cases hempty
  cases hregister
  cases h
  exact ⟨members, rfl⟩

theorem Visited.named {c : Context} (h : Visited c) : c.Named := by
  induction h with
  | fresh =>
    intro name type h
    simp [Context.fresh] at h
  | comes _ h ih => exact h.leads.named ih
  | enterClass _ h ih => exact (enterClass_ok h).2 ih

theorem checkStmts_append (xs ys : List Stmt) :
    checkStmts reread (xs ++ ys) =
      (do
        checkStmts reread xs
        checkStmts reread ys) := by
  induction xs with
  | nil =>
    rw [List.nil_append, checkStmts]
    rfl
  | cons x xs ih => rw [List.cons_append, checkStmts, ih, checkStmts, bind_assoc]

theorem inFunction_ok {α : Type} {scope : Scope} {result : Option Ty} {check : Check α}
    {a : α} {c c' : Context} (h : inFunction scope result check c = .ok a c') :
    ∃ c₂, check { c with scope, returns := .function result } = .ok a c₂ ∧
      c' = { c₂ with scope := c.scope, returns := c.returns } := by
  rw [inFunction_run] at h
  split at h
  · rename_i c₂ hcheck
    cases h
    exact ⟨c₂, hcheck, rfl⟩
  · cases h

theorem inClass_ok {opened : OpenClass} {check : Check Unit} {members : Scope} {c c' : Context}
    (h : inClass opened check c = .ok members c') :
    ∃ c₂, check { c with scope := {}, enclosing := some opened } = .ok () c₂ ∧
      members = c₂.scope ∧ c' = { c₂ with scope := c.scope, enclosing := c.enclosing } := by
  rw [inClass_run] at h
  split at h
  · rename_i c₂ hcheck
    cases h
    exact ⟨c₂, hcheck, rfl, rfl⟩
  · cases h

/-- A class is checked by checking its body in the context where that begins. The types of its
members are then the types in the scope that the body leaves. -/
theorem checkClass_ok {opened : OpenClass} {span : Span} {c c' : Context}
    (h : checkStmt reread (.classDecl opened.name opened.body span) c = .ok () c') :
    ∃ c₀ c₂, enterClass opened c = .ok () c₀ ∧ checkStmts reread opened.body.body c₀ = .ok () c₂ ∧
      registerClass opened.name (members opened.body.body c₂.scope)
        { c₂ with scope := c.scope, enclosing := c.enclosing } = .ok () c' := by
  obtain ⟨name, body, bodySpan⟩ := opened
  rw [checkStmt] at h
  obtain ⟨_, c₁, hempty, h⟩ := bind_run_eq_ok_iff.mp h
  obtain ⟨annotated, hannotated, h⟩ := (still_annotatedMembers _).bind_eq_ok h
  obtain ⟨_, c₃, hregister, h⟩ := bind_run_eq_ok_iff.mp h
  obtain ⟨scope, c₄, hbody, h⟩ := bind_run_eq_ok_iff.mp h
  obtain ⟨c₂, hcheck, rfl, rfl⟩ := inClass_ok hbody
  refine ⟨_, c₂, ?_, hcheck, ?_⟩
  · rw [enterClass, bind_run_ok hempty]
    dsimp only [Block.body]
    rw [bind_run_ok hannotated, bind_run_ok hregister]
    rfl
  · cases hempty
    cases hregister
    exact h

/-- A field's own type among the members is the one in the scope. -/
theorem member?_members {body : List Stmt} {scope : Scope} {name f : String} {s : Symbol}
    (hf : f ∈ body.filterMap memberName?) (hs : scope[f]? = some s) :
    (Ty.struct name (members body scope)).member? f = some s.type := by
  rw [Ty.member?, members]
  generalize body.filterMap memberName? = names at hf
  induction names with
  | nil => exact absurd hf List.not_mem_nil
  | cons g names ih =>
    by_cases hg : f = g
    · subst hg
      simp [hs]
    · have hmem : f ∈ names := List.mem_of_ne_of_mem hg hf
      have hrest := ih hmem
      cases hscope : scope[g]? with
      | none => simpa [hscope] using hrest
      | some r =>
        have hne : (f == g) = false := beq_eq_false_iff_ne.mpr hg
        simpa [hscope, List.lookup_cons, hne] using hrest

end Scriptlet.Typing

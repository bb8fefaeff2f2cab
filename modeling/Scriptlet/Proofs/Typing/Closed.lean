import Scriptlet.Proofs.Typing.Lockstep
import Scriptlet.Proofs.Typing.Visit
import Scriptlet.Proofs.Typing.Written

namespace Scriptlet.Typing

open Comparison

namespace Context

/-- The type is built from primitive types and structs of known classes. -/
def Closes (c : Context) (t : Ty) : Prop := t.BuiltFrom (· ∈ Ty.primitives) (· ∈ c.classes)

/-- All types in the context are closed, a class is registered as a struct of its own name, and the
class that is being checked is registered. -/
structure Closed (c : Context) : Prop where
  scope : ∀ (name : String) (s : Symbol), c.scope[name]? = some s → c.Closes s.type
  returns : ∀ t, c.returns = .function (some t) → c.Closes t
  classes : ∀ (name : String) (t : Ty), c.classes[name]? = some t →
    ∃ members, t = .struct name members ∧ ∀ m ∈ members, c.Closes m.2
  enclosing : ∀ opened, c.enclosing = some opened → opened.name ∈ c.classes

theorem Closed.registered {c : Context} (h : c.Closed) {name : String} (hname : name ∈ c.classes) :
    ∃ members, c.classes[name]? = some (.struct name members) := by
  rw [Std.TreeMap.mem_iff_isSome_getElem?, Option.isSome_iff_exists] at hname
  obtain ⟨t, ht⟩ := hname
  obtain ⟨members, rfl, -⟩ := h.classes name t ht
  exact ⟨members, ht⟩

end Context

/-- Checking programs one after another comes to the context: behind a program or a part of one,
whether it was accepted or not, or where the body of a function or of a class begins or ends. -/
inductive Reached : Context → Prop
  | fresh : Reached .fresh
  | program {c : Context} {b : Block} (hc : Reached c) (hb : b.Written) :
      Reached (stateAfter (checkBlock b c))
  | statement {c : Context} {n : Nat} {s : Stmt} (hc : Reached c) (hs : s.Every Ty.Written True) :
      Reached (stateAfter (checkStmt (checkNested n) s c))
  | expression {c : Context} {n : Nat} {e : Expr} (hc : Reached c)
      (he : e.Every Ty.Written True) : Reached (stateAfter (checkNested n e c))
  /-- A function is in scope before its body is checked. -/
  | declared {c : Context} {parameters : List Parameter} {result : Option Ty} {position : Position}
      {s : Signature} (hc : Reached c) (hparameters : ∀ p ∈ parameters, p.type.Written)
      (hresult : ∀ t ∈ result, t.Written)
      (hs : signature parameters result position c = .ok s c) (name : String) :
      Reached (stateAfter (declare name s.type true c))
  | functionBody {c : Context} {parameters : List Parameter} {result : Option Ty}
      {position : Position} {s : Signature} (hc : Reached c)
      (hparameters : ∀ p ∈ parameters, p.type.Written) (hresult : ∀ t ∈ result, t.Written)
      (hs : signature parameters result position c = .ok s c) :
      Reached { c with scope := s.scope, returns := .function s.declared }
  /-- A class is known before the annotations of its members are. -/
  | announced {c : Context} (hc : Reached c) (name : String) :
      Reached (stateAfter (registerClass name [] c))
  | classBody {c d : Context} {opened : OpenClass} (hc : Reached c)
      (hopened : opened.body.Written) (h : enterClass opened c = .ok () d) : Reached d
  /-- Behind a body, the scope and the function or class are those around it again. -/
  | left {c d : Context} (hc : Reached c) (hd : Reached d)
      (h : ∀ name, name ∈ c.classes → name ∈ d.classes) :
      Reached { d with scope := c.scope, returns := c.returns, enclosing := c.enclosing }

/-- The comparison of a check with itself, for trees without structs in annotations. -/
def closing : Comparison :=
  .strictly (· ∈ Ty.primitives) (fun _ => False) (fun _ h => h) fun _ _ h => h.1.elim

/-- The context is related to itself. -/
structure Context.Sound (c : Context) : Prop where
  related : closing.Related {} c c
  named : c.Named
  enclosing : ∀ opened, c.enclosing = some opened → opened.name ∈ c.classes

section Sound

variable {c d : Context}

/-- A check that agrees with itself leaves a context that is related to itself. -/
theorem related_stateAfter {α : Type} {P : Classes → Classes → α → α → Prop}
    {result : EStateM.Result Diagnostic Context α} (h : closing.Agree {} c c P result result) :
    closing.Related {} (stateAfter result) (stateAfter result) := by
  cases h with
  | ok h => exact h
  | error h => exact h
  | refused hlax => exact absurd trivial hlax

theorem Context.Sound.after (hc : c.Sound) {α : Type} {P : Classes → Classes → α → α → Prop}
    {x : Check α} (hx : closing.Agree {} c c P (x c) (x c))
    (hleads : c.Leads (stateAfter (x c))) : (stateAfter (x c)).Sound where
  related := related_stateAfter hx
  named := hleads.named hc.named
  enclosing opened hopened := by
    rw [hleads.enclosing] at hopened
    exact hleads.classes _ (hc.enclosing opened hopened)

theorem Context.sound_fresh : Context.fresh.Sound where
  related := {
    scope := fun name => by simp [fresh, Beside]
    returns := .topLevel
    enclosing := rfl
    opened := nofun
    imported := fun _ _ => .rfl
    modules := fun _ _ => .rfl
    classes := fun name => by simp [fresh, Beside, closing, strictly]
    given := nofun
    alone := fun _ _ => by simp }
  named _ _ h := by simp [fresh] at h
  enclosing := nofun

theorem alikeSignature_of_ok (hc : c.Sound) {parameters : List Parameter} {result : Option Ty}
    {position : Position} {s : Signature} (hparameters : ∀ p ∈ parameters, p.type.Written)
    (hresult : ∀ t ∈ result, t.Written) (hs : signature parameters result position c = .ok s c) :
    closing.AlikeSignature c.classes c.classes s s := by
  have hagree := agree_signature hc.related parameters result position hparameters hresult
  rw [hs] at hagree
  cases hagree with
  | ok _ _ hsignature => exact hsignature

theorem agree_enterClass (h : closing.Related {} c d) {opened : OpenClass}
    (hopened : opened.body.Written) :
    closing.Agree {} c d Any (enterClass opened c) (enterClass opened d) := by
  rw [enterClass]
  apply (agree_registerClass h .nil opened.name).bind
  intro _ _ c d h _ _
  apply (agree_annotatedMembers h opened.body.body hopened).bind
  intro ms ns c d h _ hmembers
  apply (agree_registerClass h hmembers opened.name).bind
  intro _ _ c d h _ _
  exact .ok (h.enterClass hopened) (.refl _ _) trivial

/-- A program is checked like any list of statements, with some bound. -/
theorem exists_checkBlock_run (b : Block) (c : Context) :
    ∃ n, checkBlock b c = checkStmts (checkNested n) b.body c := ⟨_, rfl⟩

theorem Reached.sound (h : Reached c) : c.Sound := by
  induction h with
  | fresh => exact Context.sound_fresh
  | @program c b _ hb ih =>
    obtain ⟨n, hrun⟩ := exists_checkBlock_run b c
    have hgrows := steady_checkStmts (steady_checkNested n) b.body c
    have hagree := agree_checkStmts (agreeing_checkNested closing n) b.body hb ih.related
    rw [hrun]
    exact ih.after hagree hgrows.toLeads
  | @statement c n s _ hs ih =>
    have hgrows := steady_checkStmt (steady_checkNested n) s c
    have hagree := agree_checkStmt (agreeing_checkNested closing n) s hs ih.related
    exact ih.after hagree hgrows.toLeads
  | @expression c n e _ he ih =>
    have hgrows := steady_checkNested n e c
    exact ih.after (agreeing_checkNested closing n e he ih.related) hgrows.toLeads
  | @declared c _ _ _ s _ hparameters hresult hs name ih =>
    have hsignature := alikeSignature_of_ok ih hparameters hresult hs
    exact ih.after (agree_declare ih.related hsignature.type name true) (.of_eq rfl rfl)
  | functionBody _ hparameters hresult hs ih =>
    have hsignature := alikeSignature_of_ok ih hparameters hresult hs
    exact ⟨ih.related.enterFunction hsignature.scope hsignature.declared, ih.named, ih.enclosing⟩
  | @announced c _ name ih =>
    have hgrows := steady_registerClass name [] c
    exact ih.after (agree_registerClass ih.related .nil name) hgrows.toLeads
  | @classBody c d opened _ hopened h ih =>
    have hrelated := related_stateAfter (agree_enterClass ih.related hopened)
    obtain ⟨henclosing, hnamed⟩ := enterClass_ok h
    obtain ⟨members, hd⟩ := enterClass_eq h
    rw [h] at hrelated
    refine ⟨hrelated, hnamed ih.named, fun other hother => ?_⟩
    cases henclosing.symm.trans hother
    rw [hd]
    exact Std.TreeMap.mem_insert_self
  | @left c d _ _ h ihc ihd =>
    have hl : Later c.classes c.classes d.classes d.classes := ⟨h, h⟩
    refine ⟨?_, ihd.named, fun opened hopened => h _ (ihc.enclosing opened hopened)⟩
    exact { ihd.related with
      scope := ihc.related.scope.mono hl
      returns := ihc.related.returns.mono hl
      enclosing := rfl
      opened := ihc.related.opened }

theorem Context.Sound.closed (h : c.Sound) : c.Closed where
  scope name s hs := by
    obtain ⟨_, _, hs⟩ := (h.related.scope name).left hs
    exact hs.type.left
  returns t ht := h.related.returns.left ht
  classes name t ht := by
    obtain ⟨members, rfl⟩ := h.named name t ht
    obtain ⟨_, _, hclass⟩ := (h.related.classes name).left ht
    exact ⟨members, rfl, Ty.membersBuiltFrom_iff.mp hclass.left.members⟩
  enclosing := h.enclosing

end Sound

/-- Wherever the check of programs comes to, all types are closed, also those that it finds there.
So the class of every struct is known, which is where its members are looked up; and in the body of
a class, `this` has a type. -/
theorem closed_of_reached {c : Context} (h : Reached c) :
    c.Closed ∧
    (∀ (n : Nat) (e : Expr), e.Every Ty.Written True → ∀ (t : Ty) (d : Context),
      checkNested n e c = .ok t d → d.Closed ∧ d.Closes t ∧ ∀ name members,
        t = .struct name members → ∃ known, d.classes[name]? = some (.struct name known)) ∧
    ∀ opened, c.enclosing = some opened → ∀ (n : Nat) (span : Span), ∃ members,
      checkNested (n + 1) (.symbol "this" span) c = .ok (.struct opened.name members) c := by
  have hc := h.sound
  refine ⟨hc.closed, fun n e he t d hrun => ?_, fun opened hopened n span => ?_⟩
  · have hagree := agreeing_checkNested closing n e he hc.related
    have hd : d.Closed := by
      have hafter := (h.expression (n := n) he).sound.closed
      rwa [hrun] at hafter
    rw [hrun] at hagree
    cases hagree with
    | ok _ _ htype =>
      refine ⟨hd, htype.left, ?_⟩
      rintro name members rfl
      exact hd.registered htype.left.1
  · obtain ⟨members, hknown⟩ := hc.closed.registered (hc.enclosing opened hopened)
    refine ⟨members, ?_⟩
    rw [checkNested, checkExpr, if_pos rfl, get_bind_run, hopened]
    simp only [classType, get_bind_run, hknown, pure_run]

/-- `class C { let next: C; }` -/
def linked : OpenClass where
  name := "C"
  body := .mk [.varDecl "next" false (some (.named "C")) none default] default

/-- A class whose members have its own type, behind its declaration and in its body. -/
theorem closed_of_reached_linked :
    ∃ b cursor d, parse (tokenize "class C \x7b let next: C; \x7d" "f").1 "f" = .ok b cursor ∧
      (stateAfter (typecheck b)).Closed ∧ enterClass linked .fresh = .ok () d ∧ d.Closed ∧
      ∃ members, checkNested 1 (.symbol "this" default) d = .ok (.struct "C" members) d := by
  have hread : (match parse (tokenize "class C \x7b let next: C; \x7d" "f").1 "f" with
      | .ok .. => true
      | .error .. => false) = true := by
    decide +kernel
  cases h : parse (tokenize "class C \x7b let next: C; \x7d" "f").1 "f" with
  | error =>
    rw [h] at hread
    cases hread
  | ok b cursor =>
    let d := stateAfter (enterClass linked .fresh)
    have hlinked : linked.body.Written := by
      refine ⟨⟨?_, trivial⟩, trivial⟩
      rintro t ⟨⟩
      trivial
    have hbody : Reached d := .classBody .fresh hlinked rfl
    have hprogram : Reached (stateAfter (typecheck b)) := .program .fresh (written_of_parse h)
    refine ⟨b, cursor, d, rfl, (closed_of_reached hprogram).1, rfl, (closed_of_reached hbody).1, ?_⟩
    exact (closed_of_reached hbody).2.2 linked rfl 0 default

end Scriptlet.Typing

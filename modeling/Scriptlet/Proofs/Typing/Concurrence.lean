import Scriptlet.Proofs.Typing.Frame

namespace Scriptlet

namespace Typing

variable {α β : Type} {Q : Diagnostic → Prop} {opened : Option OpenClass} {c : Context}

/-- The check comes out in the class, and with such an error if with any. -/
structure Settled (Q : Diagnostic → Prop) (opened : Option OpenClass)
    (result : EStateM.Result Diagnostic Context α) : Prop where
  enclosing : (stateAfter result).enclosing = opened
  report : ∀ d c, result = .error d c → Q d

theorem settled_ok (h : c.enclosing = opened) (a : α) : Settled Q opened (.ok a c) :=
  ⟨h, fun _ _ herror => nomatch herror⟩

theorem settled_error (h : c.enclosing = opened) {d : Diagnostic} (hd : Q d) :
    Settled (α := α) Q opened (.error d c) := by
  refine ⟨h, ?_⟩
  rintro _ _ ⟨⟩
  exact hd

/-- Wherever they begin in the class, the checks do the same, and it is settled. -/
def Concur (Q : Diagnostic → Prop) (opened : Option OpenClass) (x y : Check α) : Prop :=
  ∀ c, c.enclosing = opened → x c = y c ∧ Settled Q opened (x c)

theorem Concur.bind {x y : Check α} {f g : α → Check β} (hx : Concur Q opened x y)
    (hf : ∀ a, Concur Q opened (f a) (g a)) : Concur Q opened (x >>= f) (y >>= g) := by
  intro c hc
  obtain ⟨heq, hsettled⟩ := hx c hc
  cases h : x c with
  | ok a d =>
    rw [h] at heq hsettled
    rw [bind_run_ok h, bind_run_ok heq.symm]
    exact hf a d hsettled.enclosing
  | error x d =>
    rw [h] at heq hsettled
    rw [bind_run_error h, bind_run_error heq.symm]
    exact ⟨rfl, settled_error hsettled.enclosing (hsettled.report x d rfl)⟩

theorem Concur.get {f g : Context → Check α}
    (h : ∀ c, c.enclosing = opened → Concur Q opened (f c) (g c)) :
    Concur Q opened (MonadState.get >>= f) (MonadState.get >>= g) := fun c hc => h c hc c hc

theorem concur_throw {d : Diagnostic} (hd : Q d) :
    Concur Q opened (throw d : Check α) (throw d) := fun _ hc => ⟨rfl, settled_error hc hd⟩

theorem concur_modify {f : Context → Context} (hf : ∀ c, (f c).enclosing = c.enclosing) :
    Concur Q opened (modify f) (modify f) := fun c hc => ⟨rfl, settled_ok ((hf c).trans hc) ()⟩

theorem Concur.inFunction {x y : Check α} (h : Concur Q opened x y) (scope : Scope)
    (result : Option Ty) :
    Concur Q opened (inFunction scope result x) (inFunction scope result y) := by
  -- The body is checked in the same class; only the scope and the result are other ones.
  intro c hc
  obtain ⟨heq, hsettled⟩ := h { c with scope, returns := .function result } hc
  rw [inFunction_run, inFunction_run, ← heq]
  refine ⟨rfl, ?_⟩
  cases hrun : x { c with scope, returns := .function result } with
  | ok a d =>
    rw [hrun] at hsettled
    refine settled_ok ?_ a
    exact hsettled.enclosing
  | error e d =>
    rw [hrun] at hsettled
    refine settled_error ?_ (hsettled.report e d rfl)
    exact hsettled.enclosing

/-- The class around a nested one comes back. -/
theorem Concur.inClass {o : OpenClass} {x y : Check Unit} (h : Concur Q (some o) x y) :
    Concur Q opened (inClass o x) (inClass o y) := by
  intro c hc
  obtain ⟨heq, hsettled⟩ := h { c with scope := {}, enclosing := some o } rfl
  rw [inClass_run, inClass_run, ← heq]
  refine ⟨rfl, ?_⟩
  cases hrun : x { c with scope := {}, enclosing := some o } with
  | ok a d =>
    refine settled_ok ?_ d.scope
    exact hc
  | error e d =>
    rw [hrun] at hsettled
    refine settled_error ?_ (hsettled.report e d rfl)
    exact hc

/-- What is known holds of every fault but a field that depends on itself. -/
theorem parallel_concur {M : Position → Prop}
    (hQ : ∀ d : Diagnostic, d.fault ≠ .cyclicField → M d.position → Q d) :
    Parallel M fun opened _ _ _ => Concur Q opened where
  reading opened _ :=
    { pure := fun a _ hc => ⟨rfl, settled_ok hc a⟩
      throw := fun d hd hposition => concur_throw (hQ d hd.ne_cyclicField hposition)
      get := fun hf => Concur.get fun c _ => hf c
      bind := Concur.bind }
  get := Concur.get
  bind := Concur.bind
  mono h _ := h
  widen _ := id
  declare _ _ _ := concur_modify fun _ => rfl
  registerClass _ _ := concur_modify fun _ => rfl
  imports name position hposition := by
    apply Concur.get
    intro c hc
    split
    · exact concur_throw (hQ _ (by simp) hposition)
    · split
      · exact fun _ _ => ⟨rfl, hc, nofun⟩
      · exact concur_throw (hQ _ (by simp) hposition)
  function scope result h := h.inFunction scope result
  members := Concur.inClass

end Typing

end Scriptlet

/-!
Running one step after another. Parsers, checks and the actions of the machine all carry a state
and may stop at a diagnostic, with the state as it then is; these are the rules for what such a
sequence does from a given state, and for what its success says about its steps.
-/
namespace Scriptlet

variable {ε σ α β : Type}

theorem bind_run_ok {x : EStateM ε σ α} {f : α → EStateM ε σ β} {s s' : σ} {a : α}
    (h : x s = .ok a s') : (x >>= f) s = f a s' := by
  simp only [bind, EStateM.bind, h]

theorem bind_run_error {x : EStateM ε σ α} {f : α → EStateM ε σ β} {s s' : σ} {e : ε}
    (h : x s = .error e s') : (x >>= f) s = .error e s' := by
  simp only [bind, EStateM.bind, h]

theorem tryCatch_run_ok {x : EStateM ε σ α} {f : ε → EStateM ε σ α} {s s' : σ} {a : α}
    (h : x s = .ok a s') : (tryCatch x f) s = .ok a s' := by
  change EStateM.tryCatch x f s = _
  delta EStateM.tryCatch
  simp only [h]

/-- A handler goes on from the state that the fault has left. -/
theorem tryCatch_run_error {x : EStateM ε σ α} {f : ε → EStateM ε σ α} {s s' : σ} {e : ε}
    (h : x s = .error e s') : (tryCatch x f) s = f e s' := by
  change EStateM.tryCatch x f s = _
  delta EStateM.tryCatch
  simp only [h]
  rfl

/-- A sequence succeeds exactly if both of its steps do. -/
theorem bind_run_eq_ok_iff {x : EStateM ε σ α} {f : α → EStateM ε σ β} {s s'' : σ} {b : β} :
    (x >>= f) s = .ok b s'' ↔ ∃ a s', x s = .ok a s' ∧ f a s' = .ok b s'' := by
  constructor
  · intro h
    cases hx : x s with
    | ok a s' => exact ⟨a, s', rfl, by rwa [bind_run_ok hx] at h⟩
    | error e s' => simp [bind_run_error hx] at h
  · rintro ⟨a, s', hx, hf⟩
    rwa [bind_run_ok hx]

/-- The same for steps that carry no state. -/
theorem bind_eq_ok_iff {x : Except ε α} {f : α → Except ε β} {b : β} :
    x >>= f = .ok b ↔ ∃ a, x = .ok a ∧ f a = .ok b := by
  constructor
  · intro h
    cases x with
    | ok a => exact ⟨a, rfl, h⟩
    | error e => cases h
  · rintro ⟨a, rfl, hf⟩
    exact hf

/-- A sequence fails if its first step does, or else its second. -/
theorem bind_eq_error_iff {x : Except ε α} {f : α → Except ε β} {e : ε} :
    x >>= f = .error e ↔ x = .error e ∨ ∃ a, x = .ok a ∧ f a = .error e := by
  constructor
  · intro h
    cases x with
    | ok a => exact .inr ⟨a, rfl, h⟩
    | error e' => exact .inl (by cases h; rfl)
  · rintro (rfl | ⟨a, rfl, hf⟩)
    · rfl
    · exact hf

@[simp] theorem pure_run (a : α) (s : σ) : (pure a : EStateM ε σ α) s = .ok a s := rfl

@[simp] theorem get_run (s : σ) : (get : EStateM ε σ σ) s = .ok s s := rfl

@[simp] theorem throw_run (e : ε) (s : σ) : (throw e : EStateM ε σ α) s = .error e s := rfl

@[simp] theorem get_bind_run (f : σ → EStateM ε σ β) (s : σ) : (get >>= f) s = f s s := rfl

@[simp] theorem modify_bind_run (g : σ → σ) (f : PUnit → EStateM ε σ β) (s : σ) :
    (modify g >>= f) s = f ⟨⟩ (g s) := rfl

@[simp] theorem pure_bind_run (a : α) (f : α → EStateM ε σ β) (s : σ) :
    ((pure a : EStateM ε σ α) >>= f) s = f a s := rfl

/-- The state a run leaves, whether it succeeds or not. -/
def stateAfter : EStateM.Result ε σ α → σ
  | .ok _ s => s
  | .error _ s => s

/-- Whether a call has given a result. -/
def succeeds : EStateM.Result ε σ α → Bool
  | .ok _ _ => true
  | .error _ _ => false

theorem exists_eq_ok {r : EStateM.Result ε σ α} (h : succeeds r = true) : ∃ a s, r = .ok a s := by
  cases r with
  | ok a s => exact ⟨a, s, rfl⟩
  | error => cases h

/-- What a call has given, if it has succeeded. -/
def resultOf? : EStateM.Result ε σ α → Option α
  | .ok a _ => some a
  | .error _ _ => none

theorem exists_eq_ok_of_resultOf? {r : EStateM.Result ε σ α} {a : α} (h : resultOf? r = some a) :
    ∃ s, r = .ok a s := by
  cases r with
  | ok a' s =>
    cases h
    exact ⟨s, rfl⟩
  | error => cases h

/-- The error that a call has ended with. -/
def errorOf? : EStateM.Result ε σ α → Option ε
  | .ok _ _ => none
  | .error e _ => some e

theorem exists_eq_error {r : EStateM.Result ε σ α} {e : ε} (h : errorOf? r = some e) :
    ∃ s, r = .error e s := by
  cases r with
  | ok => cases h
  | error e' s =>
    cases h
    exact ⟨s, rfl⟩

/-- Wherever the run begins, it leads to a state that is so related to the first. -/
def Moves (R : σ → σ → Prop) (x : EStateM ε σ α) : Prop :=
  ∀ s, R s (stateAfter (x s))

namespace Moves

variable {R : σ → σ → Prop}

theorem of_ok {x : EStateM ε σ α} (hx : Moves R x) {s s' : σ} {a : α} (h : x s = .ok a s') :
    R s s' := by
  have hs := hx s
  rwa [h] at hs

theorem of_error {x : EStateM ε σ α} (hx : Moves R x) {s s' : σ} {e : ε}
    (h : x s = .error e s') : R s s' := by
  have hs := hx s
  rwa [h] at hs

theorem bind (ht : ∀ {a b c}, R a b → R b c → R a c) {x : EStateM ε σ α}
    {f : α → EStateM ε σ β} (hx : Moves R x) (hf : ∀ a, Moves R (f a)) : Moves R (x >>= f) := by
  intro s
  have hs := hx s
  cases h : x s with
  | ok a s' =>
    rw [bind_run_ok h]
    rw [h] at hs
    exact ht hs (hf a s')
  | error e s' =>
    rw [bind_run_error h]
    rwa [h] at hs

/-- What is done with the state moves so if it does with every state. -/
theorem get {f : σ → EStateM ε σ α} (hf : ∀ s, Moves R (f s)) : Moves R (MonadState.get >>= f) :=
  fun s => hf s s

end Moves

end Scriptlet

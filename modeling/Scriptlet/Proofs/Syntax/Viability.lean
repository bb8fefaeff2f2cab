import Scriptlet.Proofs.Syntax.Cursor

/-!
The correct-prefix property of a parser. What a parser gives depends on the tokens it has passed and
on the one it stands on, and on nothing behind; an error is about that token; and the tokens before
an error are the beginning of something that can be read.

A construct is read with a number of levels, and a list with a number of repetitions, that depend on
how many tokens there are. So the property is one of a family of parsers: of what the parser at one
index has read, with those at all indices that are enough for the tokens they are given.
-/
namespace Scriptlet

/-- The token that a fault of the syntax names. -/
def Fault.token? : Fault → Option String
  | .cannotStart token | .cannotContinue token | .unexpected token | .unexpectedFor token _
  | .badNumber token => some token
  | _ => none

/-- The diagnostic stands at the token and names it. -/
structure Diagnostic.Blames (d : Diagnostic) (t : Token) : Prop where
  position : d.position = t.span.start
  token : d.fault.token? = some t.value

namespace Cursor

variable {c c' c'' : Cursor} {u v : List Token}

/-- The end of the text is last. -/
def Ended (c : Cursor) : Prop := ∀ t ∈ c.rest.getLast?, t.kind = .eof

/-- The tokens `u` are passed from one cursor to the other. -/
structure Passes (c : Cursor) (u : List Token) (c' : Cursor) : Prop where
  rest : c.rest = u ++ c'.rest
  passed : c'.passed = u.reverse ++ c.passed

theorem ext_rest (hpassed : c'.passed = c.passed) (hrest : c'.rest = c.rest) : c' = c := by
  injection hrest with hcurrent hahead
  cases c
  cases c'
  simp_all

namespace Passes

theorem refl (c : Cursor) : c.Passes [] c := ⟨rfl, rfl⟩

theorem trans (h : c.Passes u c') (h' : c'.Passes v c'') : c.Passes (u ++ v) c'' := by
  constructor
  · rw [h.rest, h'.rest, List.append_assoc]
  · rw [h'.passed, h.passed, List.reverse_append, List.append_assoc]

theorem eq_of_nil (h : c.Passes [] c') : c' = c := ext_rest h.passed h.rest.symm

theorem unique (h : c.Passes u c') (h' : c.Passes v c') : u = v := by
  have hpassed := h.passed.symm.trans h'.passed
  exact List.reverse_inj.mp (List.append_cancel_right hpassed)

/-- There is a cursor between the tokens that are passed. -/
theorem split (h : c.Passes (u ++ v) c'') : ∃ c', c.Passes u c' ∧ c'.Passes v c'' := by
  have hrest : c.rest = u ++ (v ++ c''.rest) := by rw [h.rest, List.append_assoc]
  obtain ⟨t, ts, hts⟩ : ∃ t ts, v ++ c''.rest = t :: ts := by
    cases v with
    | nil => exact ⟨_, _, rfl⟩
    | cons t ts => exact ⟨_, _, rfl⟩
  refine ⟨⟨u.reverse ++ c.passed, t, ts⟩, ⟨by rw [hrest, hts]; rfl, rfl⟩, hts.symm, ?_⟩
  rw [h.passed, List.reverse_append, List.append_assoc]

/-- The first token that is passed is the current one, and so is the last cursor's if none is. -/
theorem current (h : c.Passes u c') : c.current = u.headD c'.current := by
  have hrest := h.rest
  cases u with
  | nil => injection hrest
  | cons t ts => injection hrest

theorem advance {t : Token} (h : c.Passes [t] c') : c.advance = c' := by
  have hrest := h.rest
  injection hrest with ht hahead
  rw [Cursor.advance, hahead, ht]
  exact (ext_rest (c := ⟨t :: c.passed, c'.current, c'.ahead⟩) h.passed rfl).symm

/-- The second token that is passed is the one behind the current token. -/
theorem peek {t : Token} (h : c.Passes (t :: u) c') : c.peek = (u.headD c'.current).kind := by
  obtain ⟨c₁, ht, hu⟩ := Passes.split (u := [t]) h
  rw [← hu.current]
  exact peek_of_rest ht.rest

theorem length (h : c.Passes u c') : c.rest.length = u.length + c'.rest.length := by
  rw [h.rest, List.length_append]

theorem ended (h : c.Passes u c') (hc : c.Ended) : c'.Ended := by
  intro t ht
  refine hc t ?_
  rw [h.rest, List.getLast?_append, ht]
  rfl

end Passes

/-- Every token but the end of the text can be passed. -/
theorem Ended.passes_advance (hc : c.Ended) (hk : c.kind ≠ .eof) :
    c.Passes [c.current] c.advance := by
  cases hahead : c.ahead with
  | nil =>
    refine absurd (hc c.current ?_) hk
    rw [rest, hahead]
    rfl
  | cons t ts =>
    rw [Cursor.advance, hahead]
    exact ⟨by rw [rest, hahead]; rfl, rfl⟩

/-- With `m` levels there is room for the tokens that are left. The first token of a construct may
be looked at on more than one level, which is what `k` is for. -/
def Room (k m : Nat) (c : Cursor) : Prop := 2 * c.rest.length + k ≤ m + 1

/-- The cursor stands inside a construct that has begun. -/
structure Inside (m : Nat) (c : Cursor) : Prop where
  room : Room 2 m c
  started : c.passed ≠ []

theorem Inside.room_le {k m : Nat} (h : Inside m c) (hk : k ≤ 2) : Room k m c := by
  have hroom := h.room
  unfold Room at *
  exact Nat.le_trans (Nat.add_le_add_left hk _) hroom

/-- The current token alone, be it the end of the text, takes a level. -/
theorem Room.exists_level {k m : Nat} (h : Room (k + 1) m c) : ∃ m', m = m' + 1 ∧ Room k m' c := by
  unfold Room at *
  rw [length_rest] at *
  exact ⟨m - 1, by omega, by omega⟩

end Cursor

namespace Parser

variable {ι κ α β : Type}

/-- Wherever `u` is passed behind `p` and a token is seen next, the results there are as `Q` says of
the cursor on that token. -/
def Yields (enough : ι → Cursor → Prop) (y : ι → Parser α) (p u : List Token) (seen : Token → Prop)
    (Q : Cursor → EStateM.Result Diagnostic Cursor α → Prop) : Prop :=
  ∀ i e e', e.passed = p → e.Passes u e' → seen e'.current → enough i e → Q e' (y i e)

/-- A success at the cursor. -/
def Succeeds (P : α → Prop) (c : Cursor) (r : EStateM.Result Diagnostic Cursor α) : Prop :=
  ∃ a, P a ∧ r = .ok a c

/-- The diagnostic is reported at the cursor. -/
def Fails (d : Diagnostic) (c : Cursor) (r : EStateM.Result Diagnostic Cursor α) : Prop :=
  r = .error d c

/-- Tokens of the kinds `w` are read, whatever their values, if a kind in `next` follows. -/
def Completes (enough : ι → Cursor → Prop) (next : Kind → Prop) (w : List Kind)
    (y : ι → Parser α) : Prop :=
  ∀ p v, v.map Token.kind = w →
    Yields enough y p v (fun t => next t.kind) (Succeeds fun _ => True)

/-- The parser at `i₀` looks no further than the token it stops at, and what it has read before an
error can be completed. A success passes `least` tokens, and stays what it is if a kind in `next`
follows instead of what did. -/
structure Viable (i₀ : ι) (enough : ι → Cursor → Prop) (least : Nat) (starts : Token → Prop)
    (next : Kind → Prop) (y : ι → Parser α) : Prop where
  ok : ∀ {c c' a}, c.Ended → starts c.current → enough i₀ c → y i₀ c = .ok a c' →
    ∃ u, c.Passes u c' ∧ least ≤ u.length ∧
      Yields enough y c.passed u (fun t => t = c'.current ∨ next t.kind) (Succeeds (· = a))
  error : ∀ {c c' d}, c.Ended → starts c.current → enough i₀ c → y i₀ c = .error d c' →
    ∃ u, c.Passes u c' ∧ d.Blames c'.current ∧
      Yields enough y c.passed u (· = c'.current) (Fails d) ∧
      (u ≠ [] → ∃ w : List Kind, ∀ v, v.map Token.kind = w →
        Yields enough y c.passed (u ++ v) (fun t => next t.kind) (Succeeds fun _ => True))

/-- A part of a construct, which may begin with any token: it is viable, and the kinds `w` make one.
-/
structure Phrase (i₀ : ι) (enough : ι → Cursor → Prop) (least : Nat) (next : Kind → Prop)
    (w : List Kind) (y : ι → Parser α) : Prop where
  viable : Viable i₀ enough least (fun _ => True) next y
  completes : Completes enough next w y

/-- What is enough for the one is enough for the other once `l` tokens are passed. -/
def Suffices (enough : ι → Cursor → Prop) (l : Nat) (enough' : ι → Cursor → Prop) : Prop :=
  ∀ i c u c', enough i c → c.Passes u c' → l ≤ u.length → enough' i c'

theorem suffices_inside (l : Nat) : Suffices Cursor.Inside l Cursor.Inside := by
  intro m c u c' h hu _
  have hlength := hu.length
  refine ⟨?_, ?_⟩
  · have hroom := h.room
    unfold Cursor.Room at *
    omega
  · rw [hu.passed]
    exact List.append_ne_nil_of_right_ne_nil _ h.started

/-- The first token of a construct makes room for its parts. -/
theorem suffices_room (k : Nat) : Suffices (Cursor.Room k) 1 Cursor.Inside := by
  intro m c u c' h hu hl
  have hlength := hu.length
  refine ⟨?_, ?_⟩
  · unfold Cursor.Room at *
    omega
  · rw [hu.passed]
    refine List.append_ne_nil_of_left_ne_nil ?_ _
    rw [ne_eq, List.reverse_eq_nil_iff]
    rintro rfl
    cases hl

section Yields

variable {E E' : ι → Cursor → Prop} {l : Nat} {x : ι → Parser α} {f : ι → α → Parser β}
  {p u u' : List Token} {seen seen' : Token → Prop}

theorem Yields.mono {y : ι → Parser α} {Q : Cursor → EStateM.Result Diagnostic Cursor α → Prop}
    (h : Yields E y p u seen Q) (hseen : ∀ t, seen' t → seen t) : Yields E y p u seen' Q :=
  fun i e e' hp hu ht hE => h i e e' hp hu (hseen _ ht) hE

theorem Yields.reindex {E' : κ → Cursor → Prop} {r : κ → Cursor → ι} {y : ι → Parser α}
    {z : κ → Parser α} {Q : Cursor → EStateM.Result Diagnostic Cursor α → Prop}
    (h : Yields E y p u seen Q) (hz : ∀ j c, E' j c → E (r j c) c ∧ z j c = y (r j c) c) :
    Yields E' z p u seen Q := by
  intro j e e' hp hu ht hE
  obtain ⟨hE', heq⟩ := hz j e hE
  rw [heq]
  exact h _ e e' hp hu ht hE'

/-- A sequence does what its second step does behind its first one. The first step must not mind the
token that the second one begins with. -/
theorem Yields.bind {P : α → Prop} {Q : Cursor → EStateM.Result Diagnostic Cursor β → Prop}
    (hx : Yields E x p u seen (Succeeds P))
    (hf : ∀ a, P a → Yields E' (fun i => f i a) (u.reverse ++ p) u' seen' Q)
    (hseen : ∀ t, seen' t → seen (u'.headD t)) (hE : Suffices E l E') (hl : l ≤ u.length) :
    Yields E (fun i => x i >>= f i) p (u ++ u') seen' Q := by
  intro i e e'' hp hu ht hi
  obtain ⟨e', hu, hu'⟩ := hu.split
  have hcurrent : seen e'.current := by
    rw [hu'.current]
    exact hseen _ ht
  obtain ⟨a, ha, hrun⟩ := hx i e e' hp hu hcurrent hi
  have hpassed : e'.passed = u.reverse ++ p := by rw [hu.passed, hp]
  change Q e'' ((x i >>= f i) e)
  rw [bind_run_ok hrun]
  exact hf a ha i e' e'' hpassed hu' ht (hE _ _ _ _ hi hu hl)

theorem Yields.bind_fails {d : Diagnostic} (hx : Yields E x p u seen (Fails d)) :
    Yields E (fun i => x i >>= f i) p u seen (Fails d) :=
  fun i e e' hp hu ht hE => bind_run_error (hx i e e' hp hu ht hE)

end Yields

section Completes

variable {E E' : ι → Cursor → Prop} {next next₁ : Kind → Prop} {w w₁ : List Kind}

theorem kind_headD (v : List Token) (t : Token) :
    (v.headD t).kind = (v.map Token.kind).headD t.kind := by
  cases v <;> rfl

theorem Completes.reindex {E' : κ → Cursor → Prop} {r : κ → Cursor → ι} {y : ι → Parser α}
    {z : κ → Parser α} (h : Completes E next w y)
    (hz : ∀ j c, E' j c → E (r j c) c ∧ z j c = y (r j c) c) : Completes E' next w z :=
  fun p v hv => (h p v hv).reindex hz

theorem Completes.before {y : ι → Parser α} (h : Completes E next w y)
    (hnext : ∀ k, next₁ k → next k) : Completes E next₁ w y :=
  fun p v hv => (h p v hv).mono fun _ ht => hnext _ ht

theorem Completes.bind {l : Nat} {x : ι → Parser α} {f : ι → α → Parser β}
    (hx : Completes E next₁ w₁ x) (hf : ∀ a, Completes E' next w fun i => f i a)
    (hnext : ∀ k, next k → next₁ (w.headD k)) (hE : Suffices E l E') (hl : l ≤ w₁.length) :
    Completes E next (w₁ ++ w) (fun i => x i >>= f i) := by
  intro p v hv
  obtain ⟨v₁, v₂, rfl, hv₁, hv₂⟩ := List.map_eq_append_iff.mp hv
  refine (hx p v₁ hv₁).bind (fun a _ => hf a _ v₂ hv₂) ?_ hE ?_
  · intro t ht
    rw [kind_headD, hv₂]
    exact hnext _ ht
  · rwa [← hv₁, List.length_map] at hl

/-- Nothing needs to be read. -/
theorem Completes.idle {y : ι → Parser α}
    (h : ∀ i c, E i c → next c.kind → ∃ a, y i c = .ok a c) : Completes E next [] y := by
  intro p v hv i e e' hp hu ht hE
  rw [List.map_eq_nil_iff.mp hv] at hu
  have he := hu.eq_of_nil
  subst he
  obtain ⟨a, ha⟩ := h i e' hE ht
  exact ⟨a, trivial, ha⟩

theorem Completes.map {y : ι → Parser α} (h : Completes E next w y) (g : α → β) :
    Completes E next w (fun i => do return g (← y i)) := by
  have hE : Suffices E 0 fun _ _ => True := fun _ _ _ _ _ _ _ => trivial
  have hbind := h.bind (fun a => .idle fun _ _ _ _ => ⟨g a, rfl⟩) (fun _ hk => hk) hE
    (Nat.zero_le _)
  rwa [List.append_nil] at hbind

theorem Completes.pure (a : α) : Completes E next [] (fun _ => pure a) :=
  .idle fun _ _ _ _ => ⟨a, rfl⟩

theorem Completes.advance (k : Kind) : Completes E next [k] (fun _ => Parser.advance) := by
  intro p v hv i e e' hp hu ht hE
  obtain ⟨t, rfl, -⟩ := List.map_eq_singleton_iff.mp hv
  exact ⟨e.current, trivial, congrArg (EStateM.Result.ok e.current) hu.advance⟩

/-- The first kind decides how the parsers go on. -/
theorem Completes.choose {y : ι → Parser α} {Y : Token → ι → Parser α}
    (hy : ∀ i c, E i c → y i c = Y c.current i c)
    (hY : ∀ t k, next k → t.kind = w.headD k → Completes E next w (Y t)) :
    Completes E next w y := by
  intro p v hv i e e' hp hu ht hE
  have hkind : e.current.kind = w.headD e'.current.kind := by
    rw [hu.current, kind_headD, hv]
  rw [hy i e hE]
  exact hY _ _ ht hkind p v hv i e e' hp hu ht hE

theorem Completes.onKind {A : Kind → ι → Parser α}
    (hA : ∀ k, next k → Completes E next w (A (w.headD k))) :
    Completes E next w (fun i => do A (← kind) i) := by
  refine .choose (Y := fun t => A t.kind) (fun _ _ _ => rfl) fun t k hk ht => ?_
  rw [ht]
  exact hA k hk

end Completes

namespace Viable

variable {i₀ : ι} {E : ι → Cursor → Prop} {l : Nat} {starts : Token → Prop} {next : Kind → Prop}

theorem reindex {j₀ : κ} {E' : κ → Cursor → Prop} {r : κ → Cursor → ι} {y : ι → Parser α}
    {z : κ → Parser α} (h : ∀ c, E' j₀ c → Viable (r j₀ c) E l starts next y)
    (hz : ∀ j c, E' j c → E (r j c) c ∧ z j c = y (r j c) c) :
    Viable j₀ E' l starts next z := by
  constructor
  · intro c c' a hc hs hE hrun
    obtain ⟨hE', heq⟩ := hz _ c hE
    rw [heq] at hrun
    obtain ⟨u, hu, hl, hok⟩ := (h c hE).ok hc hs hE' hrun
    exact ⟨u, hu, hl, hok.reindex hz⟩
  · intro c c' d hc hs hE hrun
    obtain ⟨hE', heq⟩ := hz _ c hE
    rw [heq] at hrun
    obtain ⟨u, hu, hd, herror, hw⟩ := (h c hE).error hc hs hE' hrun
    refine ⟨u, hu, hd, herror.reindex hz, fun hne => ?_⟩
    obtain ⟨w, hw⟩ := hw hne
    exact ⟨w, fun v hv => (hw v hv).reindex hz⟩

theorem mono {y : ι → Parser α} {l' : Nat} {starts' : Token → Prop} {next' : Kind → Prop}
    (h : Viable i₀ E l starts next y) (hl : l' ≤ l) (hs : ∀ t, starts' t → starts t)
    (hn : ∀ k, next' k → next k) : Viable i₀ E l' starts' next' y := by
  constructor
  · intro c c' a hc ht hE hrun
    obtain ⟨u, hu, hlu, hok⟩ := h.ok hc (hs _ ht) hE hrun
    exact ⟨u, hu, Nat.le_trans hl hlu, hok.mono fun t ht => ht.imp_right (hn _)⟩
  · intro c c' d hc ht hE hrun
    obtain ⟨u, hu, hd, herror, hw⟩ := h.error hc (hs _ ht) hE hrun
    refine ⟨u, hu, hd, herror, fun hne => ?_⟩
    obtain ⟨w, hw⟩ := hw hne
    exact ⟨w, fun v hv => (hw v hv).mono fun _ ht => hn _ ht⟩

theorem least {y : ι → Parser α} {l' : Nat} (h : Viable i₀ E l starts next y) (hl : l' ≤ l) :
    Viable i₀ E l' starts next y :=
  h.mono hl (fun _ h => h) fun _ h => h

theorem pure (a : α) : Viable i₀ E 0 starts next (fun _ => pure a) := by
  constructor
  · intro c c' b hc hs hE hrun
    cases hrun
    refine ⟨[], .refl c, Nat.zero_le _, fun i e e' hp hu _ _ => ⟨a, rfl, ?_⟩⟩
    rw [hu.eq_of_nil]
    rfl
  · intro c c' d hc hs hE hrun
    cases hrun

/-- An error about the token that the parser begins with. -/
theorem throw {d : Diagnostic} (hd : ∀ t, starts t → d.Blames t) :
    Viable i₀ E l starts next (fun _ => (throw d : Parser α)) := by
  constructor
  · intro c c' a hc hs hE hrun
    cases hrun
  · intro c c' d' hc hs hE hrun
    cases hrun
    refine ⟨[], .refl c, hd _ hs, fun i e e' hp hu _ _ => ?_, fun hne => absurd rfl hne⟩
    rw [hu.eq_of_nil]
    rfl

/-- The token that the parser stands on is reported. -/
theorem unexpectedFor (reason : String) :
    Viable i₀ E l starts next (fun _ => (Parser.unexpectedFor reason : Parser α)) := by
  constructor
  · intro c c' a hc hs hE hrun
    cases hrun
  · intro c c' d hc hs hE hrun
    cases hrun
    refine ⟨[], .refl c, ⟨rfl, rfl⟩, fun i e e' hp hu ht _ => ?_, fun hne => absurd rfl hne⟩
    have he := hu.eq_of_nil
    subst he
    have hd : e'.unexpectedFor reason = c.unexpectedFor reason := by
      rw [Cursor.unexpectedFor, Cursor.unexpectedFor, Cursor.position, Cursor.position, ht]
    exact congrArg (EStateM.Result.error · e') hd

theorem advance (hs : ∀ t, starts t → t.kind ≠ .eof) :
    Viable i₀ E 1 starts next (fun _ => Parser.advance) := by
  constructor
  · intro c c' t hc ht hE hrun
    cases hrun
    refine ⟨[c.current], hc.passes_advance (hs _ ht), Nat.le_refl _, ?_⟩
    intro i e e' hp hu _ _
    refine ⟨_, rfl, ?_⟩
    change EStateM.Result.ok e.current e.advance = _
    rw [hu.current, hu.advance]
    rfl
  · intro c c' d hc ht hE hrun
    cases hrun

theorem advance_of_kind {k : Kind} (hk : k ≠ .eof) :
    Viable i₀ E 1 (·.kind = k) next (fun _ => Parser.advance) :=
  advance fun _ ht => ht ▸ hk

/-- A construct that begins with `x` and goes on with parts. -/
theorem bind {E' : ι → Cursor → Prop} {m l₁ l₂ : Nat} {next₁ : Kind → Prop} {w : List Kind}
    {x : ι → Parser α} {f : ι → α → Parser β} (hx : Viable i₀ E l₁ starts next₁ x)
    (hf : ∀ a, Phrase i₀ E' l₂ next w fun i => f i a)
    (hnext : ∀ k, next k → next₁ (w.headD k)) (hidle : 1 ≤ l₂ ∨ ∀ k, next k → next₁ k)
    (hE : Suffices E m E') (hm : m ≤ l₁) (hm' : m ≤ 1) :
    Viable i₀ E (l₂ + l₁) starts next (fun i => x i >>= f i) := by
  constructor
  · intro c c'' b hc hs hi hrun
    obtain ⟨a, c', hxrun, hfrun⟩ := bind_run_eq_ok_iff.mp hrun
    obtain ⟨u, hu, hl, hok⟩ := hx.ok hc hs hi hxrun
    obtain ⟨u', hu', hl', hok'⟩ :=
      (hf a).viable.ok (hu.ended hc) trivial (hE _ _ _ _ hi hu (Nat.le_trans hm hl)) hfrun
    refine ⟨u ++ u', hu.trans hu', by rw [List.length_append]; omega, ?_⟩
    refine hok.bind (P := (· = a)) ?_ ?_ hE (Nat.le_trans hm hl)
    · rintro _ rfl
      rwa [hu.passed] at hok'
    · intro t ht
      -- Only a second step that passes nothing lets the first one see what follows both.
      cases u' with
      | cons t' ts => exact .inl hu'.current.symm
      | nil =>
        have hc' := hu'.eq_of_nil
        subst hc'
        refine ht.imp_right (hidle.resolve_left ?_ _)
        exact fun h => absurd (Nat.le_trans h hl') (Nat.not_succ_le_zero 0)
  · intro c c'' d hc hs hi hrun
    cases hxrun : x i₀ c with
    | error d' c' =>
      rw [bind_run_error hxrun] at hrun
      cases hrun
      obtain ⟨u, hu, hd, herror, hw⟩ := hx.error hc hs hi hxrun
      refine ⟨u, hu, hd, herror.bind_fails, fun hne => ?_⟩
      -- The first step is completed as it can be, and the second one with its shortest form.
      obtain ⟨w₁, hw₁⟩ := hw hne
      refine ⟨w₁ ++ w, fun v hv => ?_⟩
      obtain ⟨v₁, v₂, rfl, hv₁, hv₂⟩ := List.map_eq_append_iff.mp hv
      rw [← List.append_assoc]
      refine (hw₁ v₁ hv₁).bind (fun a _ => (hf a).completes _ v₂ hv₂) ?_ hE ?_
      · intro t ht
        rw [kind_headD, hv₂]
        exact hnext _ ht
      · have hpos := List.length_pos_iff.mpr hne
        rw [List.length_append]
        omega
    | ok a c' =>
      rw [bind_run_ok hxrun] at hrun
      obtain ⟨u, hu, hl, hok⟩ := hx.ok hc hs hi hxrun
      obtain ⟨u', hu', hd, herror, hw⟩ :=
        (hf a).viable.error (hu.ended hc) trivial (hE _ _ _ _ hi hu (Nat.le_trans hm hl)) hrun
      rw [hu.passed] at herror hw
      refine ⟨u ++ u', hu.trans hu', hd, ?_, fun _ => ?_⟩
      · refine hok.bind (P := (· = a)) (fun _ h => h ▸ herror) ?_ hE (Nat.le_trans hm hl)
        rintro _ rfl
        exact .inl hu'.current.symm
      · -- The second step is completed, or begun if it has passed nothing.
        cases u' with
        | nil =>
          refine ⟨w, fun v hv => ?_⟩
          rw [List.append_nil]
          refine hok.bind (fun b _ => (hf b).completes _ v hv) ?_ hE (Nat.le_trans hm hl)
          intro t ht
          refine .inr ?_
          rw [kind_headD, hv]
          exact hnext _ ht
        | cons t' ts =>
          obtain ⟨w', hw'⟩ := hw (List.cons_ne_nil _ _)
          refine ⟨w', fun v hv => ?_⟩
          rw [List.append_assoc]
          refine hok.bind (P := (· = a)) (fun _ h => h ▸ hw' v hv) ?_ hE (Nat.le_trans hm hl)
          exact fun _ _ => .inl hu'.current.symm

/-- The construct begins with `x`, which ends by itself. -/
theorem seq {E' : ι → Cursor → Prop} {m l₁ l₂ : Nat} {w : List Kind} {x : ι → Parser α}
    {f : ι → α → Parser β} (hx : Viable i₀ E l₁ starts (fun _ => True) x)
    (hf : ∀ a, Phrase i₀ E' l₂ next w fun i => f i a) (hE : Suffices E m E') (hm : m ≤ l₁)
    (hm' : m ≤ 1) : Viable i₀ E (l₂ + l₁) starts next (fun i => x i >>= f i) :=
  hx.bind hf (fun _ _ => trivial) (.inr fun _ _ => trivial) hE hm hm'

/-- The result is made of the last parser's. -/
theorem map {y : ι → Parser α} (h : Viable i₀ E l starts next y) (g : α → β) :
    Viable i₀ E l starts next (fun i => do return g (← y i)) := by
  have hE : Suffices E 0 fun _ _ => True := fun _ _ _ _ _ _ _ => trivial
  have hbind := h.bind (fun a => ⟨.pure (g a), .pure (g a)⟩) (fun _ hk => hk) (.inr fun _ hk => hk)
    hE (Nat.zero_le _) (Nat.zero_le _)
  rwa [Nat.zero_add] at hbind

/-- The first token decides how the parsers go on. A choice that passes nothing is also made on
every token that may follow. -/
theorem choose {y : ι → Parser α} {Y : Token → ι → Parser α}
    (hy : ∀ i c, E i c → y i c = Y c.current i c)
    (hY : ∀ t, starts t → ∃ l', l ≤ l' ∧ Viable i₀ E l' (· = t) next (Y t) ∧
      (1 ≤ l' ∨ ∀ s : Token, next s.kind → Y s = Y t)) :
    Viable i₀ E l starts next y := by
  -- Once a token is passed, the same choice is made.
  have hsame {p u : List Token} {seen : Token → Prop} {t : Token}
      {Q : Cursor → EStateM.Result Diagnostic Cursor α → Prop}
      (h : Yields E (Y t) p u seen Q) (ht : ∀ s, seen s → Y (u.headD s) = Y t) :
      Yields E y p u seen Q := by
    intro i e e' hp hu hs hi
    rw [hy i e hi, hu.current, ht _ hs]
    exact h i e e' hp hu hs hi
  constructor
  · intro c c' a hc hs hi hrun
    rw [hy i₀ c hi] at hrun
    obtain ⟨l', hl, hviable, hidle⟩ := hY c.current hs
    obtain ⟨u, hu, hl', hok⟩ := hviable.ok hc rfl hi hrun
    refine ⟨u, hu, Nat.le_trans hl hl', hsame hok fun s hs' => ?_⟩
    cases u with
    | cons t ts => rw [hu.current]; rfl
    | nil =>
      -- Nothing is passed, so the choice may be made on a token that follows instead.
      have hc' := hu.eq_of_nil
      subst hc'
      rcases hs' with rfl | hs'
      · rfl
      · refine hidle.resolve_left (fun h => ?_) s hs'
        exact absurd (Nat.le_trans h hl') (Nat.not_succ_le_zero 0)
  · intro c c' d hc hs hi hrun
    rw [hy i₀ c hi] at hrun
    obtain ⟨l', hl, hviable, hidle⟩ := hY c.current hs
    obtain ⟨u, hu, hd, herror, hw⟩ := hviable.error hc rfl hi hrun
    refine ⟨u, hu, hd, hsame herror ?_, fun hne => ?_⟩
    · rintro _ rfl
      rw [hu.current]
    · obtain ⟨w, hw⟩ := hw hne
      refine ⟨w, fun v hv => hsame (hw v hv) fun s _ => ?_⟩
      obtain ⟨t, ts, rfl⟩ := List.exists_cons_of_ne_nil hne
      rw [hu.current]
      rfl

/-- A choice between parsers that all pass a token. -/
theorem select {y : ι → Parser α} {Y : Token → ι → Parser α}
    (hy : ∀ i c, E i c → y i c = Y c.current i c)
    (hY : ∀ t, starts t → Viable i₀ E (l + 1) (· = t) next (Y t)) :
    Viable i₀ E (l + 1) starts next y :=
  choose hy fun t ht => ⟨l + 1, Nat.le_refl _, hY t ht, .inl (Nat.le_add_left _ _)⟩

/-- The kind of the first token decides. -/
theorem onKind {A : Kind → ι → Parser α}
    (hA : ∀ k, ∃ l', l ≤ l' ∧ Viable i₀ E l' (·.kind = k) next (A k) ∧
      (1 ≤ l' ∨ ∀ k', next k' → A k' = A k)) :
    Viable i₀ E l starts next (fun i => do A (← kind) i) := by
  refine choose (Y := fun t => A t.kind) (fun _ _ _ => rfl) fun t _ => ?_
  obtain ⟨l', hl, hviable, hidle⟩ := hA t.kind
  refine ⟨l', hl, hviable.mono (Nat.le_refl _) ?_ fun _ h => h, hidle.imp_right fun h s hs => ?_⟩
  · rintro _ rfl
    rfl
  · exact h _ hs

/-- A choice by whether the first token is of one kind. -/
theorem ifKind {A B : ι → Parser α} {lA lB : Nat} {k : Kind}
    (hA : Viable i₀ E lA (·.kind = k) next A) (hlA : l ≤ lA)
    (hidleA : 1 ≤ lA ∨ ∀ k', next k' → k' = k)
    (hB : Viable i₀ E lB (·.kind ≠ k) next B) (hlB : l ≤ lB)
    (hidleB : 1 ≤ lB ∨ ∀ k', next k' → k' ≠ k) :
    Viable i₀ E l starts next (fun i => do if (← kind) = k then A i else B i) := by
  refine onKind (A := fun k' i => if k' = k then A i else B i) fun k' => ?_
  by_cases hk : k' = k
  · subst hk
    simp only [if_pos]
    exact ⟨lA, hlA, hA, hidleA.imp_right fun h s hs => by simp only [if_pos (h s hs)]⟩
  · simp only [if_neg hk]
    refine ⟨lB, hlB, hB.mono (Nat.le_refl _) ?_ fun _ h => h,
      hidleB.imp_right fun h s hs => by simp only [if_neg (h s hs)]⟩
    intro t ht
    rwa [ht]

end Viable

end Parser

end Scriptlet

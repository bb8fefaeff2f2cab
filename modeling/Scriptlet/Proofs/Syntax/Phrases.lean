import Scriptlet.Proofs.Syntax.Viability

namespace Scriptlet

namespace Cursor

/-- The end of the last token that is passed, once there is one. -/
theorem spanFrom_eq_of_passed {c c' : Cursor} (h : c'.passed = c.passed) (hc : c.passed ≠ [])
    (start : Position) : c'.spanFrom start = c.spanFrom start := by
  obtain ⟨t, ts, hts⟩ := List.exists_cons_of_ne_nil hc
  rw [spanFrom, spanFrom, lastEnd, lastEnd, h, hts]

end Cursor

/-- A token of the kind, in no place. -/
def Kind.token (k : Kind) : Token := ⟨k, k.name, ⟨.null, .null⟩⟩

theorem Kind.map_token (w : List Kind) : (w.map Kind.token).map Token.kind = w := by
  induction w with
  | nil => rfl
  | cons k w ih =>
    rw [List.map_cons, List.map_cons, ih]
    rfl

namespace Parser

variable {ι α β : Type}

namespace Phrase

variable {i₀ : ι} {E : ι → Cursor → Prop} {l : Nat} {next : Kind → Prop} {w : List Kind}

theorem pure (a : α) : Phrase i₀ E 0 next [] (fun _ => pure a) := ⟨.pure a, .pure a⟩

/-- Parsers that do nothing. -/
theorem of_run {y : ι → Parser α} {a : α} (hy : ∀ i c, E i c → y i c = .ok a c) :
    Phrase i₀ E 0 next [] y :=
  ⟨.reindex (r := fun i _ => i) (fun _ _ => .pure a) fun i c hi => ⟨hi, hy i c hi⟩,
    .idle fun i c hi _ => ⟨a, hy i c hi⟩⟩

/-- A phrase may begin with any token. -/
theorem starting {y : ι → Parser α} {starts : Token → Prop} (h : Phrase i₀ E l next w y) :
    Viable i₀ E l starts next y :=
  h.viable.mono (Nat.le_refl _) (fun _ _ => trivial) fun _ h => h

theorem before {next' : Kind → Prop} {y : ι → Parser α} (h : Phrase i₀ E l next w y)
    (hn : ∀ k, next' k → next k) : Phrase i₀ E l next' w y :=
  ⟨h.viable.mono (Nat.le_refl _) (fun _ h => h) hn, h.completes.before hn⟩

theorem reindex {κ : Type} {j₀ : κ} {E' : κ → Cursor → Prop} {r : κ → ι} {y : ι → Parser α}
    {z : κ → Parser α} (h : Phrase (r j₀) E l next w y)
    (hz : ∀ j c, E' j c → E (r j) c ∧ z j c = y (r j) c) : Phrase j₀ E' l next w z :=
  ⟨.reindex (fun _ _ => h.viable) hz, h.completes.reindex hz⟩

/-- The result is made of the last parser's. -/
theorem map {y : ι → Parser α} (h : Phrase i₀ E l next w y) (g : α → β) :
    Phrase i₀ E l next w (fun i => do return g (← y i)) :=
  ⟨h.viable.map g, h.completes.map g⟩

/-- A token of one kind; any other is reported. -/
theorem token {k : Kind} (hk : k ≠ .eof) {y : ι → Parser Token} (d : Token → Diagnostic)
    (hy : ∀ i c, y i c = if c.kind = k then .ok c.current c.advance else .error (d c.current) c)
    (hd : ∀ t, (d t).Blames t) : Phrase i₀ E 1 next [k] y := by
  have hchoice (i : ι) (c : Cursor) (_ : E i c) :
      y i c = (if c.current.kind = k then advance else throw (d c.current) : Parser Token) c := by
    rw [hy, Cursor.kind]
    split <;> rfl
  constructor
  · refine .select (Y := fun t _ => if t.kind = k then advance else throw (d t)) hchoice ?_
    intro t _
    split
    · rename_i ht
      refine .advance ?_
      rintro _ rfl
      rwa [ht]
    · refine .throw ?_
      rintro _ rfl
      exact hd _
  · intro p v hv i e e' _ hu _ _
    obtain ⟨t, rfl, ht⟩ := List.map_eq_singleton_iff.mp hv
    refine ⟨e.current, trivial, ?_⟩
    rw [hy, ← hu.advance, if_pos]
    rwa [Cursor.kind, hu.current]

theorem expect (k : Kind) (hk : k ≠ .eof) : Phrase i₀ E 1 next [k] (fun _ => expect k) :=
  token hk (fun t => ⟨.unexpected t.value, t.span.start⟩) (fun _ c => expect_run k c)
    fun _ => ⟨rfl, rfl⟩

theorem expectFor (k : Kind) (hk : k ≠ .eof) (reason : String) :
    Phrase i₀ E 1 next [k]
      (fun _ => do expectOr k ((← get).unexpectedFor reason)) :=
  token hk (fun t => ⟨.unexpectedFor t.value reason, t.span.start⟩)
    (fun _ c => expectOr_run k (c.unexpectedFor reason) c) fun _ => ⟨rfl, rfl⟩

end Phrase

section Inside

open Cursor

variable {n l l₁ : Nat} {next next₁ : Kind → Prop} {w w₁ : List Kind}

theorem phrase_spanFrom (start : Position) :
    Phrase n Inside 0 next [] (fun _ => spanFrom start) := by
  -- Behind a token that has been passed, the span does not depend on the current one.
  constructor
  · constructor
    · intro c c' a _ _ hE hrun
      cases hrun
      refine ⟨[], .refl c, Nat.le_refl _, fun i e e' hp hu _ _ => ⟨_, rfl, ?_⟩⟩
      rw [hu.eq_of_nil, ← spanFrom_eq_of_passed hp hE.started start]
      rfl
    · intro c c' d _ _ _ hrun
      cases hrun
  · exact .idle fun _ _ _ _ => ⟨_, rfl⟩

/-- Two phrases, of which the first one minds what follows it. -/
theorem Phrase.bind {x : Nat → Parser α} {f : Nat → α → Parser β}
    (hx : Phrase n Inside l₁ next₁ w₁ x) (hf : ∀ a, Phrase n Inside l next w fun m => f m a)
    (hnext : ∀ k, next k → next₁ (w.headD k)) (hidle : 1 ≤ l ∨ ∀ k, next k → next₁ k) :
    Phrase n Inside (l + l₁) next (w₁ ++ w) (fun m => x m >>= f m) :=
  ⟨hx.viable.bind hf hnext hidle (suffices_inside 0) (Nat.zero_le _) (Nat.zero_le _),
    hx.completes.bind (fun a => (hf a).completes) hnext (suffices_inside 0) (Nat.zero_le _)⟩

/-- Two phrases, of which the first one ends by itself. -/
theorem Phrase.seq {x : Nat → Parser α} {f : Nat → α → Parser β}
    (hx : Phrase n Inside l₁ (fun _ => True) w₁ x)
    (hf : ∀ a, Phrase n Inside l next w fun m => f m a) :
    Phrase n Inside (l + l₁) next (w₁ ++ w) (fun m => x m >>= f m) :=
  hx.bind hf (fun _ _ => trivial) (.inr fun _ _ => trivial)

/-- The last phrase of a construct is followed by the positions it covers. -/
theorem Phrase.spanned {x : Nat → Parser α} (hx : Phrase n Inside l next w x) (start : Position)
    (g : α → Span → β) :
    Phrase n Inside l next w (fun m => do
      let a ← x m
      return g a (← Parser.spanFrom start)) := by
  have hbind := hx.bind (fun a => (phrase_spanFrom start).map (g a)) (fun _ hk => hk)
    (.inr fun _ hk => hk)
  rwa [Nat.zero_add, List.append_nil] at hbind

variable {k : Nat} {starts : Token → Prop}

/-- A part that can begin a construct can stand inside one. -/
theorem Phrase.inside {y : Nat → Parser α} (h : Phrase n (Room k) l next w y) (hk : k ≤ 2) :
    Phrase n Inside l next w y :=
  h.reindex (r := id) fun _ _ hm => ⟨hm.room_le hk, rfl⟩

theorem Viable.inside {y : Nat → Parser α} (h : Viable n (Room k) l starts next y) (hk : k ≤ 2) :
    Viable n Inside l starts next y :=
  .reindex (r := fun m _ => m) (fun _ _ => h) fun _ _ hm => ⟨hm.room_le hk, rfl⟩

variable {E : Nat → Cursor → Prop}

/-- A construct with its first token, whatever that is. -/
theorem Viable.behind (hE : Suffices E 1 Inside) {f : Nat → Token → Parser β}
    (hs : ∀ t, starts t → t.kind ≠ .eof) (hf : ∀ t, Phrase n Inside l next w fun m => f m t) :
    Viable n E (l + 1) starts next (fun m => Parser.advance >>= f m) :=
  (Viable.advance hs).seq hf hE (Nat.le_refl _) (Nat.le_refl _)

theorem Completes.behind (hE : Suffices E 1 Inside) (k : Kind) {f : Nat → Token → Parser β}
    (hf : ∀ t, Completes Inside next w fun m => f m t) :
    Completes E next (k :: w) (fun m => Parser.advance >>= f m) := by
  have hfirst : Completes E (fun _ => True) [k] fun _ => Parser.advance := .advance k
  exact hfirst.bind hf (fun _ _ => trivial) hE (Nat.le_refl _)

theorem Completes.expect (hE : Suffices E 1 Inside) (k : Kind) (hk : k ≠ .eof)
    {f : Nat → Token → Parser β} (hf : ∀ t, Completes Inside next w fun m => f m t) :
    Completes E next (k :: w) (fun m => Parser.expect k >>= f m) := by
  have hfirst : Phrase 0 E 1 (fun _ => True) [k] fun _ => Parser.expect k := .expect k hk
  exact hfirst.completes.bind hf (fun _ _ => trivial) hE (Nat.le_refl _)

/-- A part that does nothing until something follows that may follow it. -/
theorem Completes.skip {x : Nat → Parser α} {f : Nat → α → Parser β}
    (hx : Completes Inside next₁ [] x) (hf : ∀ a, Completes Inside next w fun m => f m a)
    (hnext : ∀ k, next k → next₁ (w.headD k)) :
    Completes Inside next w (fun m => x m >>= f m) :=
  hx.bind hf hnext (suffices_inside 0) (Nat.zero_le _)

theorem Completes.seq {x : Nat → Parser α} {f : Nat → α → Parser β}
    (hx : Completes Inside (fun _ => True) w₁ x)
    (hf : ∀ a, Completes Inside next w fun m => f m a) :
    Completes Inside next (w₁ ++ w) (fun m => x m >>= f m) :=
  hx.bind hf (fun _ _ => trivial) (suffices_inside 0) (Nat.zero_le _)

theorem completes_spanFrom (start : Position) (g : Span → β) :
    Completes Inside next [] (fun _ => do return g (← spanFrom start)) :=
  .idle fun _ _ _ _ => ⟨_, rfl⟩

/-- A part with the kind it begins with. -/
theorem Phrase.behind (hE : Suffices E 1 Inside) (k : Kind) (hk : k ≠ .eof)
    {f : Nat → Token → Parser β} (hf : ∀ t, Phrase n Inside l next w fun m => f m t) :
    Phrase n E (l + 1) next (k :: w) (fun m => Parser.expect k >>= f m) := by
  have hx : Phrase n E 1 (fun _ => True) [k] fun _ => Parser.expect k := .expect k hk
  exact ⟨hx.viable.seq hf hE (Nat.le_refl _) (Nat.le_refl _),
    .expect hE k hk fun t => (hf t).completes⟩

/-- A construct is read on the level above its parts. -/
theorem Viable.lift {y z : Nat → Parser α} (h : Viable n (Room k) l starts next y)
    (hz : ∀ m, z (m + 1) = y m) : Viable (n + 1) (Room (k + 1)) l starts next z := by
  refine .reindex (r := fun m _ => m - 1) (fun _ _ => h) fun m c hm => ?_
  obtain ⟨m, rfl, hroom⟩ := hm.exists_level
  exact ⟨hroom, by rw [hz]; rfl⟩

theorem Completes.lift {y z : Nat → Parser α} (h : Completes (Room k) next w y)
    (hz : ∀ m, z (m + 1) = y m) : Completes (Room (k + 1)) next w z := by
  refine h.reindex (r := fun m _ => m - 1) fun m c hm => ?_
  obtain ⟨m, rfl, hroom⟩ := hm.exists_level
  exact ⟨hroom, by rw [hz]; rfl⟩

/-- No levels are not enough for a token. -/
theorem Viable.of_no_level {y : Nat → Parser α} :
    Viable 0 (Room (k + 1)) l starts next y := by
  constructor <;> intro c _ _ _ _ hroom
  all_goals
    obtain ⟨_, hlevel, -⟩ := hroom.exists_level
    cases hlevel

end Inside

section Peek

variable {i₀ : ι} {E : ι → Cursor → Prop} {next : Kind → Prop}

/-- Parsers do not stop at a token that they can begin with. -/
theorem Yields.not_fails {y : ι → Parser α} {p : List Token} {t : Token} {d : Diagnostic}
    {w : List Kind} {k : Kind} (h : Yields E y p [] (· = t) (Fails d))
    (hw : Completes E next (t.kind :: w) y) (hk : next k)
    (hroom : ∀ c : Cursor, c.passed = p → ∃ i, E i c) : False := by
  let e : Cursor := ⟨p, t, w.map Kind.token ++ [k.token]⟩
  let e' : Cursor := ⟨(t :: w.map Kind.token).reverse ++ p, k.token, []⟩
  obtain ⟨i, hi⟩ := hroom e rfl
  have herror : y i e = .error d e := h i e e rfl (.refl e) rfl hi
  have hkinds : (t :: w.map Kind.token).map Token.kind = t.kind :: w := by
    rw [List.map_cons, Kind.map_token]
  obtain ⟨a, -, hok⟩ := hw p _ hkinds i e e' rfl ⟨rfl, rfl⟩ hk hi
  rw [hok] at herror
  cases herror

/-- Parsers that choose by the second token, on a first one that they all can begin with. They are
viable although they look ahead, since none of them stops before the token that is looked at. -/
theorem Viable.peek {y : ι → Parser α} {Y : Kind → ι → Parser α} {first k₀ : Kind} {w : List Kind}
    (hy : ∀ i c, E i c → c.kind = first → y i c = Y c.peek i c)
    (hY : ∀ k, ∃ l, 1 ≤ l ∧ Viable i₀ E l (·.kind = first) next (Y k) ∧
      (2 ≤ l ∨ ∀ k', next k' → Y k' = Y k))
    (hbegin : ∀ k, ∃ ks, Completes E next (first :: ks) (Y k)) (hk₀ : next k₀)
    (hroom : ∀ c c' : Cursor, E i₀ c → c'.passed = c.passed → ∃ i, E i c')
    (hfirst : Completes E next (first :: w) y) :
    Viable i₀ E 1 (·.kind = first) next y := by
  -- Once the second token is seen, the same choice is made.
  have hsame {p u : List Token} {seen : Token → Prop} {t : Token} {k : Kind}
      {Q : Cursor → EStateM.Result Diagnostic Cursor α → Prop}
      (h : Yields E (Y k) p (t :: u) seen Q) (ht : t.kind = first)
      (hk : ∀ s, seen s → Y (u.headD s).kind = Y k) : Yields E y p (t :: u) seen Q := by
    intro i e e' hp hu hs hi
    have hkind : e.kind = first := by
      rw [Cursor.kind, hu.current]
      exact ht
    rw [hy i e hi hkind, hu.peek, hk _ hs]
    exact h i e e' hp hu hs hi
  constructor
  · intro c c' a hc hs hi hrun
    rw [hy i₀ c hi hs] at hrun
    obtain ⟨l, hl, hviable, hidle⟩ := hY c.peek
    obtain ⟨u, hu, hl', hok⟩ := hviable.ok hc hs hi hrun
    obtain ⟨t, us, rfl⟩ := List.exists_cons_of_length_pos (Nat.le_trans hl hl')
    have ht : c.current = t := hu.current
    refine ⟨t :: us, hu, Nat.le_add_left _ _, hsame hok (ht ▸ hs) fun s hseen => ?_⟩
    rw [hu.peek] at hidle ⊢
    cases us with
    | cons t' ts => rfl
    | nil =>
      rcases hseen with rfl | hnext
      · rfl
      · refine hidle.resolve_left (fun h => ?_) _ hnext
        exact absurd (Nat.le_trans h hl') (Nat.not_succ_le_self 1)
  · intro c c' d hc hs hi hrun
    rw [hy i₀ c hi hs] at hrun
    obtain ⟨l, hl, hviable, -⟩ := hY c.peek
    obtain ⟨ks, hks⟩ := hbegin c.peek
    obtain ⟨u, hu, hd, herror, hw⟩ := hviable.error hc hs hi hrun
    cases u with
    | nil =>
      -- An error on the first token is out of the question: the choice can begin with it.
      have hc' := hu.eq_of_nil
      subst hc'
      rw [← hs] at hks
      exact (herror.not_fails hks hk₀ fun e he => hroom c' e hi he).elim
    | cons t us =>
      have ht : t.kind = first := by
        rw [← hs, hu.current]
        rfl
      refine ⟨t :: us, hu, hd, hsame herror ht ?_, fun _ => ?_⟩
      · rintro _ rfl
        rw [hu.peek]
      · cases us with
        | nil =>
          -- The second token is the wrong one, so that the completion may make another choice.
          refine ⟨w, fun v hv => hfirst _ _ ?_⟩
          rw [List.singleton_append, List.map_cons, ht, hv]
        | cons t' ts =>
          obtain ⟨w', hw'⟩ := hw (List.cons_ne_nil _ _)
          refine ⟨w', fun v hv => hsame (hw' v hv) ht fun s _ => ?_⟩
          rw [hu.peek]
          rfl

end Peek

section Lists

/-- Parsers that are given a number of repetitions. -/
def counted {ι : Type} (y : ι → Nat → Parser α) (j : ι × Nat) : Parser α := y j.1 j.2

/-- Enough for the items, and repetitions for `s` tokens more than are left. -/
def Sized {ι : Type} (E : ι → Cursor → Prop) (s : Nat) (j : ι × Nat) (c : Cursor) : Prop :=
  E j.1 c ∧ c.rest.length + s ≤ j.2

variable {ι : Type} {i₀ : ι} {E : ι → Cursor → Prop} {l limit : Nat} {starts : Token → Prop}
  {next : Kind → Prop} {w : List Kind} {y : ι → Nat → Parser α}

theorem suffices_sized {s : Nat} (hE : Suffices E 0 E) (hs : s ≤ 1) :
    Suffices (Sized E s) (1 - s) (Sized E 1) := by
  intro j c u c' h hu hl
  have hlength := hu.length
  have hsize := h.2
  exact ⟨hE _ _ _ _ h.1 hu (Nat.zero_le _), by omega⟩

/-- A token that is left makes one repetition possible. -/
theorem Sized.exists_succ {j : ι × Nat} {c : Cursor} (h : Sized E 0 j c) :
    ∃ limit, j.2 = limit + 1 :=
  Cursor.exists_eq_succ_of_length_rest_le h.2

theorem Viable.of_no_repetition : Viable (i₀, 0) (Sized E 0) l starts next (counted y) := by
  constructor <;> rintro c _ _ - - ⟨-, hsize⟩ -
  all_goals exact absurd hsize (Nat.not_succ_le_zero _)

/-- The repetitions after the first one. -/
theorem Viable.repeated (h : Viable (i₀, limit) (Sized E 0) l starts next (counted y)) :
    Viable (i₀, limit + 1) (Sized E 1) l starts next fun j => y j.1 (j.2 - 1) :=
  .reindex (r := fun j _ => (j.1, j.2 - 1)) (fun _ _ => h)
    fun _ _ hj => ⟨⟨hj.1, Nat.le_sub_of_add_le hj.2⟩, rfl⟩

theorem Completes.repeated (h : Completes (Sized E 0) next w (counted y)) :
    Completes (Sized E 1) next w fun j => y j.1 (j.2 - 1) :=
  h.reindex (r := fun j _ => (j.1, j.2 - 1))
    fun _ _ hj => ⟨⟨hj.1, Nat.le_sub_of_add_le hj.2⟩, rfl⟩

theorem Completes.sized (hw : Completes (Sized E 0) next w (counted y)) :
    Completes E next w (fun i => repetitions >>= y i) :=
  hw.reindex (r := fun i c => (i, c.rest.length)) fun _ _ h => ⟨⟨h, Nat.le_refl _⟩, rfl⟩

/-- As many repetitions as there are tokens are enough. -/
theorem Phrase.sized
    (hy : ∀ limit, Viable (i₀, limit) (Sized E 0) l (fun _ => True) next (counted y))
    (hw : Completes (Sized E 0) next w (counted y)) :
    Phrase i₀ E l next w (fun i => repetitions >>= y i) :=
  ⟨.reindex (r := fun i c => (i, c.rest.length)) (fun _ _ => hy _)
    fun _ _ h => ⟨⟨h, Nat.le_refl _⟩, rfl⟩, hw.sized⟩

variable {item : ι → Parser α}

/-- The item, in a list. -/
theorem Phrase.listed (h : Phrase i₀ E l next w item) :
    Phrase (i₀, limit) (Sized E 0) l next w (fun j => item j.1) :=
  h.reindex (r := Prod.fst) fun _ _ hj => ⟨hj.1, rfl⟩

variable {stops : Kind → Bool} {closing : Kind}

theorem completes_manyUntil :
    Completes (Sized E 0) (stops · = true) [] (counted fun i => manyUntil stops (item i)) := by
  refine .idle fun j c hj hstop => ⟨[], ?_⟩
  obtain ⟨limit, hlimit⟩ := hj.exists_succ
  rw [counted, hlimit, manyUntil, bind_run_ok (kind_run c), if_pos hstop]
  rfl

theorem viable_manyUntil (hE : Suffices E 0 E) (hitem : Phrase i₀ E (l + 1) next w item)
    (hstops : ∀ k, stops k = true → next k) (limit : Nat) :
    Viable (i₀, limit) (Sized E 0) 0 (fun _ => True) (stops · = true)
      (counted fun i => manyUntil stops (item i)) := by
  induction limit with
  | zero => exact .of_no_repetition
  | succ limit ih =>
    refine .choose (Y := fun t j => if stops t.kind then pure [] else do
      let first ← item j.1
      let rest ← manyUntil stops (item j.1) (j.2 - 1)
      return first :: rest) ?_ fun t _ => ?_
    · intro j c hj
      obtain ⟨limit, hlimit⟩ := hj.exists_succ
      simp only [counted, hlimit]
      rfl
    · cases hstop : stops t.kind with
      | true =>
        refine ⟨0, Nat.le_refl _, .pure [], .inr fun s hs => ?_⟩
        simp only [hs]
      | false =>
        -- An item passes a token, which makes room for the repetitions after it.
        refine ⟨0 + (l + 1), Nat.zero_le _, ?_, .inl (by omega)⟩
        exact hitem.listed.starting.bind
          (fun a => Phrase.map ⟨ih.repeated, completes_manyUntil.repeated⟩ (a :: ·))
          hstops (.inr hstops) (suffices_sized hE (Nat.zero_le _)) (Nat.le_add_left _ _)
          (Nat.le_refl _)

/-- Items up to a kind that may follow each of them. -/
theorem phrase_manyUntil (hE : Suffices E 0 E) (hitem : Phrase i₀ E (l + 1) next w item)
    (hstops : ∀ k, stops k = true → next k) :
    Phrase i₀ E 0 (stops · = true) [] (fun i => repetitions >>= manyUntil stops (item i)) :=
  .sized (viable_manyUntil hE hitem hstops) completes_manyUntil

theorem completes_separated :
    Completes (Sized E 0) (· = closing) [] (counted fun i => separated closing (item i)) := by
  refine .idle fun j c hj hclosing => ⟨[], ?_⟩
  obtain ⟨limit, hlimit⟩ := hj.exists_succ
  rw [counted, hlimit, separated, bind_run_ok (kind_run c), bind_run_ok (kind_run c),
    if_pos (.inl hclosing)]
  rfl

/-- After an item the list goes on behind a comma, or ends. -/
theorem phrase_separated_rest (hE : Suffices E 0 E) (hne : closing ≠ .comma)
    (hlist : Viable (i₀, limit) (Sized E 0) 0 (fun _ => True) (· = closing)
      (counted fun i => separated closing (item i))) (a : α) :
    Phrase (i₀, limit + 1) (Sized E 1) 0 (· = closing) [] (fun j => do
      if (← kind) = .comma then
        let _ ← advance
        let rest ← separated closing (item j.1) (j.2 - 1)
        return a :: rest
      else return [a]) := by
  constructor
  · have hmore : Viable (i₀, limit + 1) (Sized E 1) 1 (·.kind = .comma) (· = closing) fun j => do
        let _ ← advance
        let rest ← separated closing (item j.1) (j.2 - 1)
        return a :: rest :=
      (Viable.advance_of_kind (by decide)).seq
        (fun _ => Phrase.map ⟨hlist.repeated, completes_separated.repeated⟩ (a :: ·))
        (suffices_sized hE (Nat.le_refl _)) (Nat.zero_le _) (Nat.zero_le _)
    exact .ifKind hmore (Nat.zero_le _) (.inl (Nat.le_refl _)) (.pure [a]) (Nat.le_refl _)
      (.inr fun k hk => hk ▸ hne)
  · refine .idle fun j c hj hclosing => ⟨[a], ?_⟩
    have hcomma : c.kind ≠ .comma := by rwa [show c.kind = closing from hclosing]
    rw [bind_run_ok (kind_run c), if_neg hcomma]
    rfl

theorem viable_separated (hE : Suffices E 0 E) (hitem : Phrase i₀ E (l + 1) next w item)
    (hne : closing ≠ .comma) (hclosing : next closing) (limit : Nat) :
    Viable (i₀, limit) (Sized E 0) 0 (fun _ => True) (· = closing)
      (counted fun i => separated closing (item i)) := by
  induction limit with
  | zero => exact .of_no_repetition
  | succ limit ih =>
    refine .choose (Y := fun t j => if t.kind = closing ∨ t.kind = .eof then pure [] else do
      let first ← item j.1
      if (← kind) = .comma then
        let _ ← advance
        let rest ← separated closing (item j.1) (j.2 - 1)
        return first :: rest
      else return [first]) ?_ fun t _ => ?_
    · intro j c hj
      obtain ⟨limit, hlimit⟩ := hj.exists_succ
      simp only [counted, hlimit]
      rfl
    · by_cases ht : t.kind = closing ∨ t.kind = .eof
      · refine ⟨0, Nat.le_refl _, ?_, .inr fun s hs => ?_⟩
        · simp only [if_pos ht]
          exact .pure []
        · have hs' : s.kind = closing ∨ s.kind = .eof := .inl hs
          simp only [if_pos hs', if_pos ht]
      · refine ⟨0 + (l + 1), Nat.zero_le _, ?_, .inl (by omega)⟩
        simp only [if_neg ht]
        have hfollow (k : Kind) (hk : k = closing) : next k := hk ▸ hclosing
        exact hitem.listed.starting.bind
          (phrase_separated_rest hE hne ih) hfollow (.inr hfollow)
          (suffices_sized hE (Nat.zero_le _)) (Nat.le_add_left _ _) (Nat.le_refl _)

/-- Items with commas between them. -/
theorem phrase_separated (hE : Suffices E 0 E) (hitem : Phrase i₀ E (l + 1) next w item)
    (hne : closing ≠ .comma) (hclosing : next closing) :
    Phrase i₀ E 0 (· = closing) [] (fun i => repetitions >>= separated closing (item i)) :=
  .sized (viable_separated hE hitem hne hclosing) completes_separated

/-- The closing token is all of a list that is needed. -/
theorem completes_listUntil (item : Nat → Parser α) (heof : closing ≠ .eof) :
    Completes Cursor.Inside next [closing] (fun m => listUntil closing (item m)) :=
  completes_separated.sized.skip
    (fun _ => .expect (suffices_inside 1) closing heof fun _ => .pure _) fun _ _ => rfl

/-- A list with its closing token. -/
theorem phrase_listUntil {n : Nat} {item : Nat → Parser α}
    (hitem : Phrase n Cursor.Inside (l + 1) next w item) (hne : closing ≠ .comma)
    (heof : closing ≠ .eof) (hclosing : next closing) {next' : Kind → Prop} :
    Phrase n Cursor.Inside 1 next' [closing] (fun m => listUntil closing (item m)) := by
  have hlist := phrase_separated (suffices_inside 0) hitem hne hclosing
  exact hlist.bind (fun items => (Phrase.expect closing heof).map fun _ => items) (fun _ _ => rfl)
    (.inl (Nat.le_refl _))

end Lists

end Parser

end Scriptlet

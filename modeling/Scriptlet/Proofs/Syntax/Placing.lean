import Scriptlet.Proofs.Syntax.Nesting
import Scriptlet.Proofs.Syntax.Progress

namespace Scriptlet

namespace Cursor

variable {ts : List Token} {c : Cursor} {i : Nat}

/-- The cursor stands on one of these tokens. The last of them is the end of the text. -/
structure On (ts : List Token) (c : Cursor) : Prop where
  tokens : c.tokens = ts
  ended : c.Ended

namespace On

theorem current (h : c.On ts) : ts[c.index]? = some c.current := by
  rw [← h.tokens]
  exact c.getElem?_index

theorem advance (h : c.On ts) (hk : c.kind ≠ .eof) :
    c.advance.On ts ∧ c.advance.index = c.index + 1 := by
  have hpasses := h.ended.passes_advance hk
  exact ⟨⟨hpasses.tokens.trans h.tokens, hpasses.ended h.ended⟩, hpasses.index⟩

theorem length (h : c.On ts) : ts.length = c.index + c.rest.length := by
  rw [← h.tokens, Cursor.tokens, Cursor.index, List.length_append, List.length_reverse]
  rfl

/-- Behind the first token, what was passed last ends at the end of a token. -/
theorem lastEnd (h : c.On ts) (hpos : 0 < c.index) :
    ∃ t, ts[c.index - 1]? = some t ∧ c.lastEnd = t.span.stop := by
  obtain ⟨t, passed, hpassed⟩ := List.exists_cons_of_length_pos hpos
  refine ⟨t, ?_, by rw [Cursor.lastEnd, hpassed]⟩
  have hindex : c.index - 1 = passed.reverse.length := by
    rw [Cursor.index, hpassed, List.length_cons, List.length_reverse]
    omega
  have hsplit : ts = passed.reverse ++ t :: c.rest := by
    rw [← h.tokens, Cursor.tokens, hpassed, List.reverse_cons, List.append_assoc]
    rfl
  rw [hindex, hsplit, List.getElem?_append_right (Nat.le_refl _), Nat.sub_self,
    List.getElem?_cons_zero]

end On

end Cursor

/-- The cursor on the first token of a source. -/
theorem on_ofTokens (source file file' : String) :
    (Cursor.ofTokens file' (tokenize source file).1).On (tokenize source file).1 ∧
      (Cursor.ofTokens file' (tokenize source file).1).index = 0 := by
  obtain ⟨front, last, htokens, hlast⟩ := exists_tokenize_eq_concat source file
  refine ⟨⟨?_, Cursor.ended_ofTokens _ _⟩, by rw [Cursor.index, Cursor.passed_ofTokens]; rfl⟩
  rw [Cursor.tokens, Cursor.passed_ofTokens, htokens]
  exact Cursor.rest_ofTokens file' front hlast

namespace Region.Among

variable {ts : List Token} {c : Cursor} {lo hi i : Nat} {first : Token} {a : Region}
  {rs : List Region}

/-- A region from a token that has been passed up to the last that has. -/
theorem spanFrom (h : Among ts i c.index rs) (hc : c.On ts) (hfirst : ts[i]? = some first)
    (hlt : i < c.index) : Among ts i c.index [.node (c.spanFrom first.span.start) rs] := by
  obtain ⟨last, hlast, hstop⟩ := hc.lastEnd (Nat.zero_lt_of_lt hlt)
  obtain ⟨j, hj⟩ : ∃ j, c.index = j + 1 := ⟨c.index - 1, by omega⟩
  rw [hj, Nat.add_sub_cancel] at hlast
  rw [hj] at h ⊢
  rw [Cursor.spanFrom, hstop]
  exact enclose (by omega) hfirst hlast h

/-- A region from its first part up to the last token that has been passed. -/
theorem spanFrom_part (h : Among ts lo hi (a :: rs)) (hc : c.On ts) (hle : hi ≤ c.index) :
    Among ts lo c.index [.node (c.spanFrom a.span.start) (a :: rs)] := by
  have hpos : 0 < hi := by
    obtain ⟨i, -, hlo, hlt, -⟩ := h.beginning
    omega
  obtain ⟨last, hlast, hstop⟩ := hc.lastEnd (by omega)
  obtain ⟨j, hj⟩ : ∃ j, c.index = j + 1 := ⟨c.index - 1, by omega⟩
  rw [hj, Nat.add_sub_cancel] at hlast
  rw [hj] at hle ⊢
  rw [Cursor.spanFrom, hstop]
  exact h.upto hle hlast

end Region.Among

namespace Parser

open Region

variable {α β : Type} {ts : List Token} {c : Cursor}

/-- If the parser succeeds, then further on in the same tokens and with a result as `Q` says. -/
def Places (ts : List Token) (p : Parser α) (c : Cursor) (Q : α → Cursor → Prop) : Prop :=
  c.On ts → ∀ a c', p c = .ok a c' → c'.On ts ∧ c.index ≤ c'.index ∧ Q a c'

namespace Places

variable {p : Parser α} {f : α → Parser β} {P : α → Cursor → Prop} {Q : β → Cursor → Prop}

theorem pure {a : α} (h : c.On ts → P a c) : Places ts (pure a) c P := by
  rintro hc _ _ ⟨⟩
  exact ⟨hc, Nat.le_refl _, h hc⟩

theorem of_error {d : Diagnostic} {c' : Cursor} (h : p c = .error d c') : Places ts p c P := by
  intro _ a c'' hp
  rw [h] at hp
  cases hp

theorem bind (hp : Places ts p c P)
    (hf : ∀ a c', c.index ≤ c'.index → P a c' → Places ts (f a) c' Q) :
    Places ts (p >>= f) c Q := by
  intro hc b c'' h
  obtain ⟨a, c', hpa, hfb⟩ := bind_run_eq_ok_iff.mp h
  obtain ⟨hc', hle, ha⟩ := hp hc a c' hpa
  obtain ⟨hc'', hle', hb⟩ := hf a c' hle ha hc' b c'' hfb
  exact ⟨hc'', Nat.le_trans hle hle', hb⟩

/-- A step that only looks leaves the cursor where it is. -/
theorem look {a : α} (hp : p c = .ok a c) (hf : Places ts (f a) c Q) :
    Places ts (p >>= f) c Q := by
  intro hc b c' h
  rw [bind_run_ok hp] at h
  exact hf hc b c' h

/-- The first step passes one token. -/
theorem next {p : Parser Token} {f : Token → Parser β}
    (hp : Places ts p c fun t c' => ts[c.index]? = some t ∧ c'.index = c.index + 1)
    (hf : ∀ t c', ts[c.index]? = some t → c'.index = c.index + 1 → Places ts (f t) c' Q) :
    Places ts (p >>= f) c Q :=
  hp.bind fun t c' _ h => hf t c' h.1 h.2

theorem mono {Q : α → Cursor → Prop} (hp : Places ts p c P)
    (h : ∀ a c', c.index ≤ c'.index → P a c' → Q a c') : Places ts p c Q := by
  intro hc a c' hpa
  obtain ⟨hc', hle, ha⟩ := hp hc a c' hpa
  exact ⟨hc', hle, h a c' hle ha⟩

/-- The result is made of the last parser's. -/
theorem map {g : α → β} (hp : Places ts p c P)
    (hg : ∀ a c', c.index ≤ c'.index → P a c' → Q (g a) c') :
    Places ts (do return g (← p)) c Q :=
  hp.bind fun a c' hle ha => .pure fun _ => hg a c' hle ha

section Spans

variable {lo hi i : Nat} {first : Token} {part : Region} {parts : List Region} {g : Span → α}
  {R : α → Region}

/-- The last step gives the result its span: from a token that has been passed up to the last that
has, with its parts in between. -/
theorem spanned (hfirst : ts[i]? = some first) (hlt : i < c.index)
    (h : Among ts i c.index parts) (hg : ∀ s, R (g s) = .node s parts) :
    Places ts (do return g (← spanFrom first.span.start)) c
      fun a c' => Among ts i c'.index [R a] := by
  refine .look (spanFrom_run _ c) (.pure fun hc => ?_)
  rw [hg]
  exact h.spanFrom hc hfirst hlt

/-- The same from the first of its parts. -/
theorem spanned_part (h : Among ts lo hi (part :: parts)) (hle : hi ≤ c.index)
    (hg : ∀ s, R (g s) = .node s (part :: parts)) :
    Places ts (do return g (← spanFrom part.span.start)) c
      fun a c' => Among ts lo c'.index [R a] := by
  refine .look (spanFrom_run _ c) (.pure fun hc => ?_)
  rw [hg]
  exact h.spanFrom_part hc hle

end Spans

end Places

theorem places_advance (hk : c.kind ≠ .eof) :
    Places ts advance c fun t c' => ts[c.index]? = some t ∧ c'.index = c.index + 1 := by
  rintro hc _ _ ⟨⟩
  obtain ⟨hc', hindex⟩ := hc.advance hk
  have hle : c.index ≤ c.advance.index := by omega
  exact ⟨hc', hle, hc.current, hindex⟩

theorem places_expectOr {k : Kind} (d : Diagnostic) (hk : k ≠ .eof) :
    Places ts (expectOr k d) c fun t c' => ts[c.index]? = some t ∧ c'.index = c.index + 1 := by
  intro hc t c' h
  obtain ⟨hkind, rfl, rfl⟩ := expectOr_eq_ok h
  exact places_advance (by rw [hkind]; exact hk) hc _ _ (advance_run c)

theorem places_expect {k : Kind} (hk : k ≠ .eof) :
    Places ts (expect k) c fun t c' => ts[c.index]? = some t ∧ c'.index = c.index + 1 :=
  .look (current_run c) (places_expectOr _ hk)

section Lists

variable {item : Parser α} {R : α → List Region}

/-- The items of a list stand one behind the other. -/
theorem places_manyUntil (stops : Kind → Bool)
    (hitem : ∀ c, Places ts item c fun a c' => Among ts c.index c'.index (R a)) (limit : Nat)
    (c : Cursor) :
    Places ts (manyUntil stops item limit) c
      fun as c' => Among ts c.index c'.index (as.flatMap R) := by
  induction limit generalizing c with
  | zero => exact .of_error (noProgress_run c)
  | succ limit ih =>
    refine .look (kind_run c) ?_
    split
    · exact .pure fun _ => .nil (Nat.le_refl _)
    · apply (hitem c).bind
      intro a c' _ ha
      apply (ih c').map
      intro as c'' _ has
      exact ha.append has

theorem places_separated (closing : Kind)
    (hitem : ∀ c, Places ts item c fun a c' => Among ts c.index c'.index (R a)) (limit : Nat)
    (c : Cursor) :
    Places ts (separated closing item limit) c
      fun as c' => Among ts c.index c'.index (as.flatMap R) := by
  induction limit generalizing c with
  | zero => exact .of_error (noProgress_run c)
  | succ limit ih =>
    refine .look (kind_run c) (.look (kind_run c) ?_)
    split
    · exact .pure fun _ => .nil (Nat.le_refl _)
    · apply (hitem c).bind
      intro a c₁ _ ha
      refine .look (kind_run c₁) ?_
      split
      · rename_i hk
        apply (places_advance (by rw [hk]; decide)).next
        intro comma c₂ _ hindex
        apply (ih c₂).map
        intro as c' _ has
        exact ha.append (has.mono (by omega) (Nat.le_refl _))
      · refine .pure fun _ => ?_
        rwa [List.flatMap_cons, List.flatMap_nil, List.append_nil]

theorem places_listUntil {closing : Kind} (hk : closing ≠ .eof)
    (hitem : ∀ c, Places ts item c fun a c' => Among ts c.index c'.index (R a)) (c : Cursor) :
    Places ts (listUntil closing item) c
      fun as c' => Among ts c.index c'.index (as.flatMap R) := by
  refine .look (repetitions_run c) ?_
  apply (places_separated closing hitem _ c).bind
  intro as c₁ _ has
  apply (places_expect hk).next
  intro close c₂ _ hindex
  exact .pure fun _ => has.mono (Nat.le_refl _) (by omega)

end Lists

end Parser

end Scriptlet

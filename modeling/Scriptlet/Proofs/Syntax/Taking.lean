import Scriptlet.Grammar.Program
import Scriptlet.Proofs.Syntax.Cursor
import Scriptlet.Proofs.Syntax.Spelling

namespace Scriptlet

/-- The tokens that are left have the kinds of their texts, and the end of the text is last. -/
structure Cursor.Proper (c : Cursor) : Prop where
  tokens : ∀ t ∈ c.rest, t.Proper
  ended : ∀ t ∈ c.rest.getLast?, t.kind = .eof

theorem Cursor.Proper.of_append {c c' : Cursor} {ts : List Token} (h : c.Proper)
    (hc : c.rest = ts ++ c'.rest) : c'.Proper := by
  refine ⟨fun t ht => h.tokens t ?_, fun t ht => h.ended t ?_⟩
  · rw [hc]
    exact List.mem_append_right ts ht
  · rw [hc, List.getLast?_append, ht]
    rfl

/-- The cursor passes every token but the end of the text. -/
theorem Cursor.Proper.rest_eq {c : Cursor} (h : c.Proper) (hk : c.kind ≠ .eof) :
    c.rest = c.current :: c.advance.rest := by
  have hahead : c.ahead ≠ [] := by
    intro hnil
    refine hk (h.ended c.current ?_)
    rw [rest, hnil]
    rfl
  rw [rest_advance rfl hahead]
  rfl

namespace Parser

variable {α β : Type} {c : Cursor}

/-- If the parser succeeds, then with a result that `Q` relates to the tokens it has passed. -/
def Takes (p : Parser α) (c : Cursor) (Q : α → List Token → Prop) : Prop :=
  c.Proper → ∀ a c', p c = .ok a c' →
    ∃ ts, c.rest = ts ++ c'.rest ∧ (∀ t ∈ ts, t.kind ≠ .eof) ∧ Q a ts

namespace Takes

theorem pure {a : α} {Q : α → List Token → Prop} (h : Q a []) : Takes (pure a) c Q := by
  rintro - _ _ ⟨⟩
  exact ⟨[], rfl, by simp, h⟩

theorem of_error {p : Parser α} {Q : α → List Token → Prop} {d : Diagnostic} {c' : Cursor}
    (h : p c = .error d c') : Takes p c Q := by
  intro _ a c'' hp
  rw [h] at hp
  cases hp

theorem bind {p : Parser α} {f : α → Parser β} {P : α → List Token → Prop}
    {Q : β → List Token → Prop} (hp : Takes p c P)
    (hf : ∀ a c' ts, P a ts → Takes (f a) c' (fun b us => Q b (ts ++ us))) :
    Takes (p >>= f) c Q := by
  intro hc b c'' h
  obtain ⟨a, c', hpa, hfb⟩ := bind_run_eq_ok_iff.mp h
  obtain ⟨ts, hts, hend, ha⟩ := hp hc a c' hpa
  obtain ⟨us, hus, hend', hb⟩ := hf a c' ts ha (hc.of_append hts) b c'' hfb
  refine ⟨ts ++ us, by rw [hts, hus, List.append_assoc], ?_, hb⟩
  intro t ht
  exact (List.mem_append.mp ht).elim (hend t) (hend' t)

/-- The first step takes one token. -/
theorem next {p : Parser Token} {f : Token → Parser β} {P : Token → Prop}
    {Q : β → List Token → Prop} (hp : Takes p c (fun t ts => ts = [t] ∧ P t))
    (hf : ∀ t c', P t → Takes (f t) c' (fun b us => Q b (t :: us))) : Takes (p >>= f) c Q := by
  apply hp.bind
  rintro t c' _ ⟨rfl, ht⟩
  exact hf t c' ht

/-- A step that only looks takes nothing. -/
theorem look {p : Parser α} {f : α → Parser β} {a : α} {Q : β → List Token → Prop}
    (hp : p c = .ok a c) (hf : Takes (f a) c Q) : Takes (p >>= f) c Q := by
  intro hc b c' h
  rw [bind_run_ok hp] at h
  exact hf hc b c' h

/-- The result is made of the last parser's. -/
theorem map {p : Parser α} {g : α → β} {P : α → List Token → Prop} {Q : β → List Token → Prop}
    (hp : Takes p c P) (hg : ∀ a ts, P a ts → Q (g a) ts) :
    Takes (do return g (← p)) c Q := by
  apply hp.bind
  intro a c' ts ha
  apply pure
  rw [List.append_nil]
  exact hg a ts ha

theorem mono {p : Parser α} {P Q : α → List Token → Prop} (hp : Takes p c P)
    (h : ∀ a ts, P a ts → Q a ts) : Takes p c Q := by
  intro hc a c' hpa
  obtain ⟨ts, hts, hend, ha⟩ := hp hc a c' hpa
  exact ⟨ts, hts, hend, h a ts ha⟩

end Takes

/-- The current token is taken, whatever it is. -/
theorem takes_advance (hk : c.kind ≠ .eof) :
    Takes advance c (fun t ts => ts = [t] ∧ t = c.current ∧ t.Proper) := by
  rintro hc _ _ ⟨⟩
  refine ⟨[c.current], hc.rest_eq hk, ?_, rfl, rfl, hc.tokens _ List.mem_cons_self⟩
  intro t ht
  rw [List.mem_singleton.mp ht]
  exact hk

theorem takes_advance_is {k : Kind} (hk : c.kind = k) (hs : k.spelling?.isSome) :
    Takes advance c (fun t ts => ts = [t] ∧ t.Is k) := by
  have hne : c.kind ≠ .eof := by
    rintro heq
    rw [← hk, heq] at hs
    cases hs
  refine (takes_advance hne).mono ?_
  rintro t ts ⟨hts, ht, hproper⟩
  exact ⟨hts, hproper.is (by rw [ht]; exact hk) hs⟩

theorem takes_expectOr {k : Kind} (d : Diagnostic) (hk : k ≠ .eof) :
    Takes (expectOr k d) c (fun t ts => ts = [t] ∧ t.kind = k ∧ t.Proper) := by
  intro hc t c' h
  obtain ⟨hkind, rfl, rfl⟩ := expectOr_eq_ok h
  obtain ⟨ts, hts, hend, hts', -, hproper⟩ := takes_advance (by rw [hkind]; exact hk) hc _ _
    (advance_run c)
  exact ⟨ts, hts, hend, hts', hkind, hproper⟩

theorem takes_expect_is {k : Kind} (hs : k.spelling?.isSome) :
    Takes (expect k) c (fun t ts => ts = [t] ∧ t.Is k) := by
  have hne : k ≠ .eof := by
    rintro rfl
    cases hs
  refine Takes.look (current_run c) ((takes_expectOr _ hne).mono ?_)
  rintro t ts ⟨hts, ht, hproper⟩
  exact ⟨hts, hproper.is ht hs⟩

theorem takes_expectOr_name (d : Diagnostic) :
    Takes (expectOr .identifier d) c (fun t ts => ts = [t] ∧ t.IsName) := by
  refine (takes_expectOr d (by decide)).mono ?_
  rintro t ts ⟨hts, ht, hproper⟩
  exact ⟨hts, hproper.isName ht⟩

theorem takes_expect_name : Takes (expect .identifier) c (fun t ts => ts = [t] ∧ t.IsName) :=
  Takes.look (current_run c) (takes_expectOr_name _)

section Lists

variable {item : Parser α} {R : α → List Token → Prop}

theorem takes_manyUntil (stops : Kind → Bool) (hitem : ∀ c, Takes item c R) (limit : Nat)
    (c : Cursor) : Takes (manyUntil stops item limit) c (Chained R) := by
  -- Nothing is claimed of a parser that runs out of repetitions, since it fails.
  induction limit generalizing c with
  | zero => exact .of_error (noProgress_run c)
  | succ limit ih =>
    refine .look (kind_run c) ?_
    split
    · exact .pure .nil
    · apply (hitem c).bind
      intro a c ts ha
      apply (ih c).map
      intro as us has
      exact .cons ha has

theorem takes_separated (closing : Kind) (hitem : ∀ c, Takes item c R) (limit : Nat)
    (c : Cursor) : Takes (separated closing item limit) c (Listed R) := by
  induction limit generalizing c with
  | zero => exact .of_error (noProgress_run c)
  | succ limit ih =>
    -- The list can end here, or behind the next item if no comma follows it.
    refine .look (kind_run c) (.look (kind_run c) ?_)
    split
    · exact .pure .nil
    · apply (hitem c).bind
      intro a c ts ha
      refine .look (kind_run c) ?_
      split
      · rename_i hk
        apply (takes_advance_is hk (by decide)).next
        intro comma c hcomma
        apply (ih c).map
        intro as us has
        exact .cons ha hcomma has
      · refine .pure ?_
        rw [List.append_nil]
        exact .last ha

theorem takes_listUntil {closing : Kind} (hs : closing.spelling?.isSome)
    (hitem : ∀ c, Takes item c R) (c : Cursor) :
    Takes (listUntil closing item) c
      (fun as us => ∃ ts close, us = ts ++ [close] ∧ Listed R as ts ∧ close.Is closing) := by
  refine .look (repetitions_run c) ?_
  apply (takes_separated closing hitem _ c).bind
  intro as c ts has
  apply (takes_expect_is hs).next
  intro close c hclose
  exact .pure ⟨ts, close, rfl, has, hclose⟩

end Lists

end Parser

end Scriptlet

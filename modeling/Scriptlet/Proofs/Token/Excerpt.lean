import Scriptlet.Proofs.Token.Lines
import Scriptlet.Proofs.Token.Separation

namespace Scriptlet

open Lexeme (Placed EndsLike)

/-- What is kept of a list is kept of the piece from the first to the last item that is. -/
theorem exists_infix_of_filter {α : Type} {p : α → Bool} {as before kept behind : List α}
    (h : as.filter p = before ++ (kept ++ behind)) (hne : kept ≠ []) :
    ∃ front middle back, as = front ++ (middle ++ back) ∧ middle.filter p = kept ∧
      middle.head? = kept.head? ∧ middle.getLast? = kept.getLast? := by
  obtain ⟨front, rest, rfl, -, hrest⟩ := List.filter_eq_append_iff.mp h
  obtain ⟨all, back, rfl, hall, -⟩ := List.filter_eq_append_iff.mp hrest
  obtain ⟨first, others, rfl⟩ := List.exists_cons_of_ne_nil hne
  obtain ⟨skipped, inside, rfl, -, hfirst, hothers⟩ := List.filter_eq_cons_iff.mp hall
  rcases List.eq_nil_or_concat others with rfl | ⟨between, last, rfl⟩
  · refine ⟨front ++ skipped, [first], inside ++ back, by simp, ?_, rfl, rfl⟩
    rw [List.filter_cons_of_pos hfirst, List.filter_nil]
  · rw [List.concat_eq_append] at hothers ⊢
    obtain ⟨middle, rest, rfl, hmiddle, hrest⟩ := List.filter_eq_append_iff.mp hothers
    obtain ⟨gap, tail, rfl, hgap, hlast, -⟩ := List.filter_eq_cons_iff.mp hrest
    refine ⟨front ++ skipped, first :: (middle ++ gap) ++ [last], tail ++ back, by simp, ?_, rfl,
      ?_⟩
    · rw [List.filter_append, List.filter_cons_of_pos hfirst, List.filter_append, hmiddle,
        List.filter_eq_nil_iff.mpr hgap, List.filter_cons_of_pos hlast, List.append_nil]
      rfl
    · rw [List.getLast?_concat, ← List.cons_append, List.getLast?_concat]

namespace Scan

variable {offset n : Nat} {gap text rest : List Char} {lexeme : Lexeme} {p q : Placed}
  {found front middle back : List Placed}

/-- The text from a lexeme on. -/
theorem from_lexeme (h : Scan offset text (front ++ p :: back)) :
    ∃ before rest, text = before ++ rest ∧ p.offset = offset + Text.size before ∧
      Scan p.offset rest (p :: back) := by
  generalize hfound : front ++ p :: back = found at h
  induction h generalizing front with
  | done => cases front <;> cases hfound
  | @step offset gap rest lexeme found hgap hcut hscan ih =>
    cases front with
    | nil =>
      cases hfound
      exact ⟨gap, _, rfl, rfl, .step_at .nil hcut rfl hscan⟩
    | cons q front =>
      cases hfound
      obtain ⟨before, rest', rfl, hoffset, hrest⟩ := ih rfl
      refine ⟨gap ++ (lexeme.text ++ before), rest', ?_, ?_, hrest⟩
      · simp only [List.append_assoc]
      · rw [hoffset, Text.size_append, Text.size_append]
        omega

/-- The text up to the end of a lexeme. -/
theorem to_lexeme (h : Scan offset text (found ++ back)) (hq : found.getLast? = some q) :
    ∃ inside rest, text = inside ++ rest ∧ q.stop = offset + Text.size inside ∧
      Scan offset inside found ∧ EndsLike text inside := by
  generalize hall : found ++ back = all at h
  -- On what is found. Each lexeme has before it what it had there, as far as that is of account.
  induction h generalizing found with
  | done =>
    rw [(List.append_eq_nil_iff.mp hall).1] at hq
    cases hq
  | @step offset gap rest lexeme all hgap hcut hscan ih =>
    cases found with
    | nil => cases hq
    | cons p found =>
      cases hall
      cases found with
      | nil =>
        cases hq
        refine ⟨gap ++ (lexeme.text ++ []), rest, ?_, ?_, ?_, hcut.endsLike hgap []⟩
        · simp
        · rw [List.append_nil, Text.size_append, ← Nat.add_assoc]
          rfl
        · exact .step hgap hcut.at_end (.done (.layout .nil))
      | cons p' found =>
        obtain ⟨inside, rest', rfl, hstop, hinside, hends⟩ := ih (by simpa using hq) rfl
        have hcut' : lexeme.CutBefore inside := by
          cases hclosed : lexeme.closed with
          | true => exact hcut.congr hends hclosed
          | false =>
            obtain ⟨-, hnil⟩ := hcut.of_open hclosed
            rw [hnil] at hscan
            cases hscan.eq_nil
        refine ⟨gap ++ (lexeme.text ++ inside), rest', ?_, ?_, .step hgap hcut' hinside,
          hcut.endsLike hgap inside⟩
        · simp only [List.append_assoc]
        · rw [hstop, Text.size_append, Text.size_append]
          omega

/-- What is found in a text that begins further on is what is found in it. -/
theorem unshift (h : Scan (n + offset) text found) :
    ∃ found', Scan offset text found' ∧ found = found'.map (·.shift n) := by
  generalize hstart : n + offset = start at h
  induction h generalizing offset with
  | done hgap => exact ⟨[], .done hgap, rfl⟩
  | @step start gap rest lexeme found hgap hcut _ ih =>
    subst hstart
    have hbehind : n + (offset + Text.size gap + Text.size lexeme.text) =
        n + offset + Text.size gap + Text.size lexeme.text := by
      omega
    obtain ⟨found', hfound, rfl⟩ := ih hbehind
    refine ⟨_, .step hgap hcut hfound, ?_⟩
    rw [List.map_cons, Placed.shift, Nat.add_assoc]

/-- What is found in the piece of a source from one lexeme to another. -/
theorem excerpt {source : String} (h : Scan 0 source.toList (front ++ (middle ++ back)))
    (hp : middle.head? = some p) (hq : middle.getLast? = some q) :
    ∃ found, Scan 0 (Text.slice p.offset q.stop source.toList) found ∧
      p.offset + Text.size (Text.slice p.offset q.stop source.toList) = q.stop ∧
      middle = found.map (·.shift p.offset) := by
  obtain ⟨middle, rfl⟩ : ∃ ps, middle = p :: ps := by
    cases middle with
    | nil => cases hp
    | cons p' ps =>
      cases hp
      exact ⟨ps, rfl⟩
  obtain ⟨before, rest, hsource, hstart, hrest⟩ := h.from_lexeme
  have hmiddle : Scan p.offset rest (p :: middle ++ back) := hrest
  obtain ⟨inside, behind, rfl, hstop, hinside, -⟩ := hmiddle.to_lexeme hq
  rw [Nat.zero_add] at hstart
  have hslice : Text.slice p.offset q.stop source.toList = inside := by
    rw [hsource, hstop, hstart, Text.slice_append]
  obtain ⟨found, hfound, hshift⟩ :
      ∃ found, Scan 0 inside found ∧ p :: middle = found.map (·.shift p.offset) :=
    unshift hinside
  rw [hslice]
  exact ⟨found, hfound, hstop.symm, hshift⟩

end Scan

end Scriptlet

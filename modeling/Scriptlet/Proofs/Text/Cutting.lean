import Mathlib.Algebra.Ring.Nat
import Scriptlet.Text.Size
import Scriptlet.Text.Split

namespace Scriptlet.Text

section pieces

variable {p : Char → Bool}

theorem splitWhere_eq_splitOnP (p : Char → Bool) (cs : List Char) :
    splitWhere p cs = cs.splitOnP p := by
  induction cs with
  | nil => rw [splitWhere, List.splitOnP_nil]
  | cons c cs ih =>
    rw [splitWhere, List.splitOnP_cons_eq_if_modifyHead, ih]
    split
    · rfl
    · cases h : cs.splitOnP p with
      | nil => exact absurd h (List.splitOnP_ne_nil p cs)
      | cons piece pieces => rfl

/-- Texts are read piece by piece. -/
theorem piece_induction {motive : List Char → Prop}
    (last : ∀ piece : List Char, (∀ c ∈ piece, p c = false) → motive piece)
    (next : ∀ (piece : List Char) (c : Char) (rest : List Char), (∀ c ∈ piece, p c = false) →
      p c = true → motive rest → motive (piece ++ c :: rest))
    (cs : List Char) : motive cs := by
  induction hn : cs.length using Nat.strongRecOn generalizing cs with
  | ind n ih =>
  cases hf : cs.find? p with
  | none =>
    refine last cs fun c hc => ?_
    rw [List.find?_eq_none] at hf
    exact Bool.eq_false_iff.mpr (hf c hc)
  | some c =>
    obtain ⟨hc, piece, rest, rfl, hpiece⟩ := List.find?_eq_some_iff_append.mp hf
    refine next piece c rest (fun c' hc' => by simpa using hpiece c' hc') hc (ih _ ?_ rest rfl)
    rw [← hn, List.length_append, List.length_cons]
    omega

end pieces

section words

theorem words_append_blank {c : Char} (hc : isBlank c = true) (as bs : List Char) :
    words (as ++ c :: bs) = words as ++ words bs := by
  simp only [words, splitWhere_eq_splitOnP, List.splitOnP_append_cons as bs hc, List.filter_append]

theorem words_nil : words [] = [] := by
  simp [words, splitWhere_eq_splitOnP]

/-- Blanks in front belong to no word. -/
theorem words_blanks_append {blanks : List Char} (h : ∀ c ∈ blanks, isBlank c = true)
    (cs : List Char) : words (blanks ++ cs) = words cs := by
  induction blanks with
  | nil => rfl
  | cons c blanks ih =>
    obtain ⟨hc, hblanks⟩ := List.forall_mem_cons.mp h
    have hfront := words_append_blank hc [] (blanks ++ cs)
    rwa [words_nil, List.nil_append, List.nil_append, ih hblanks] at hfront

theorem words_blanks {blanks : List Char} (h : ∀ c ∈ blanks, isBlank c = true) :
    words blanks = [] := by
  have hw := words_blanks_append h []
  rwa [List.append_nil, words_nil] at hw

/-- Nor do blanks at the end. -/
theorem words_append_blanks {blanks : List Char} (h : ∀ c ∈ blanks, isBlank c = true)
    (cs : List Char) : words (cs ++ blanks) = words cs := by
  cases blanks with
  | nil => rw [List.append_nil]
  | cons c blanks =>
    obtain ⟨hc, hblanks⟩ := List.forall_mem_cons.mp h
    rw [words_append_blank hc, words_blanks hblanks, List.append_nil]

theorem words_word {word : List Char} (hne : word ≠ []) (h : ∀ c ∈ word, isBlank c = false) :
    words word = [word] := by
  simp [words, splitWhere_eq_splitOnP, List.splitOnP_eq_singleton h, hne]

end words

end Scriptlet.Text

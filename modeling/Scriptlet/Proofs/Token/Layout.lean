import Scriptlet.Token.Scanner

namespace Scriptlet

theorem Text.size_slashes (cs : List Char) : Text.size ('/' :: '/' :: cs) = 2 + Text.size cs := by
  rw [size_cons, size_cons, ← Nat.add_assoc]
  rfl

theorem Text.size_comment (inside cs : List Char) :
    Text.size ('/' :: '/' :: (inside ++ '\n' :: cs)) = 2 + Text.size inside + 1 + Text.size cs := by
  rw [size_slashes, size_append, size_cons]
  simp only [Nat.add_assoc]
  rfl

theorem Text.size_replicate_space (n : Nat) : Text.size (List.replicate n ' ') = n := by
  induction n with
  | zero => rfl
  | succ n ih =>
    rw [List.replicate_succ, size_cons, ih]
    exact Nat.add_comm _ _

/-- Blanks and comments, each comment with the newline that ends it. -/
inductive Layout : List Char → Prop
  | nil : Layout []
  | blank {c cs} : Text.isBlank c = true → Layout cs → Layout (c :: cs)
  | comment {inside cs} : '\n' ∉ inside → Layout cs →
      Layout ('/' :: '/' :: (inside ++ '\n' :: cs))

/-- Layout at the end of a source, which may cut its last comment short. -/
inductive Layout.Final : List Char → Prop
  | layout {gap} : Layout gap → Final gap
  | comment {gap inside} : Layout gap → '\n' ∉ inside → Final (gap ++ '/' :: '/' :: inside)

namespace Layout

theorem append {gap cs : List Char} (h : Layout gap) (hcs : Layout cs) : Layout (gap ++ cs) := by
  induction h with
  | nil => exact hcs
  | blank hc _ ih => exact .blank hc ih
  | @comment inside gap hinside _ ih =>
    have hcomment : Layout ('/' :: '/' :: (inside ++ '\n' :: (gap ++ cs))) := .comment hinside ih
    simpa using hcomment

theorem replicate_space (n : Nat) : Layout (List.replicate n ' ') := by
  induction n with
  | zero => exact .nil
  | succ n ih => exact .blank (by decide) ih

/-- A newline ends whatever layout is open. -/
theorem Final.newline {gap : List Char} (h : Final gap) : Layout (gap ++ ['\n']) := by
  cases h with
  | layout h => exact h.append (.blank (by decide) .nil)
  | @comment gap inside h hinside =>
    have hcomment : Layout (gap ++ '/' :: '/' :: (inside ++ '\n' :: [])) :=
      h.append (.comment hinside .nil)
    simpa using hcomment

theorem Final.blank {c : Char} {cs : List Char} (hc : Text.isBlank c = true) (h : Final cs) :
    Final (c :: cs) := by
  cases h with
  | layout h => exact .layout (.blank hc h)
  | comment h hinside => exact .comment (.blank hc h) hinside

theorem Final.behind_comment {inside cs : List Char} (hinside : '\n' ∉ inside) (h : Final cs) :
    Final ('/' :: '/' :: (inside ++ '\n' :: cs)) := by
  cases h with
  | layout h => exact .layout (.comment hinside h)
  | @comment gap last h hlast =>
    have hfinal : Final (('/' :: '/' :: (inside ++ '\n' :: gap)) ++ '/' :: '/' :: last) :=
      .comment (.comment hinside h) hlast
    simpa using hfinal

theorem Final.behind {gap cs : List Char} (hgap : Layout gap) (h : Final cs) :
    Final (gap ++ cs) := by
  induction hgap with
  | nil => exact h
  | blank hc _ ih => exact ih.blank hc
  | comment hinside _ ih => simpa using ih.behind_comment hinside

end Layout

namespace Scanner

/-- A comment goes on to the end of its line. -/
theorem skipLayout_comment {inside : List Char} (h : '\n' ∉ inside) (offset : Nat)
    (cs : List Char) :
    skipLayout true offset (inside ++ '\n' :: cs) =
      skipLayout false (offset + Text.size inside + 1) cs := by
  induction inside generalizing offset with
  | nil => rfl
  | cons c inside ih =>
    obtain ⟨hc, hinside⟩ := not_or.mp (mt List.mem_cons.mpr h)
    rw [List.cons_append, skipLayout, if_pos rfl, bne_iff_ne.mpr (Ne.symm hc), ih hinside,
      Text.size_cons, ← Nat.add_assoc]

/-- A comment on the last line goes on to the end of the source. -/
theorem skipLayout_comment_to_end {inside : List Char} (h : '\n' ∉ inside) (offset : Nat) :
    skipLayout true offset inside = (offset + Text.size inside, []) := by
  induction inside generalizing offset with
  | nil => rfl
  | cons c inside ih =>
    obtain ⟨hc, hinside⟩ := not_or.mp (mt List.mem_cons.mpr h)
    rw [skipLayout, if_pos rfl, bne_iff_ne.mpr (Ne.symm hc), ih hinside, Text.size_cons,
      ← Nat.add_assoc]

theorem skipLayout_blank {c : Char} (h : Text.isBlank c = true) (offset : Nat) (cs : List Char) :
    skipLayout false offset (c :: cs) = skipLayout false (offset + c.utf8Size) cs := by
  rw [skipLayout, if_neg Bool.false_ne_true, if_pos h]

/-- Two slashes begin a comment, and the second of them is already in it. -/
theorem skipLayout_slashes (offset : Nat) (cs : List Char) :
    skipLayout false offset ('/' :: '/' :: cs) = skipLayout true (offset + 2) cs := by
  rw [skipLayout, if_neg Bool.false_ne_true, if_neg (by decide), if_pos ⟨rfl, rfl⟩, skipLayout,
    if_pos rfl]
  rfl

/-- A text begins with a lexeme if it begins with neither a blank nor a comment. -/
def AtLexeme : List Char → Prop
  | [] => False
  | c :: cs => Text.isBlank c = false ∧ ¬(c = '/' ∧ cs.head? = some '/')

theorem skipLayout_lexeme {text : List Char} (h : AtLexeme text) (offset : Nat) :
    skipLayout false offset text = (offset, text) := by
  cases text with
  | nil => exact absurd h id
  | cons c cs =>
    rw [skipLayout, if_neg Bool.false_ne_true, if_neg (by rw [h.1]; exact Bool.false_ne_true),
      if_neg h.2]

/-- Layout leads to what stands behind it. -/
theorem skipLayout_layout {gap : List Char} (h : Layout gap) (offset : Nat) (cs : List Char) :
    skipLayout false offset (gap ++ cs) = skipLayout false (offset + Text.size gap) cs := by
  induction h generalizing offset with
  | nil => rfl
  | blank hc _ ih =>
    rw [List.cons_append, skipLayout_blank hc, ih, Text.size_cons, ← Nat.add_assoc]
  | @comment inside gap hinside _ ih =>
    rw [List.cons_append, List.cons_append, List.append_assoc, List.cons_append,
      skipLayout_slashes, skipLayout_comment hinside, ih, Text.size_comment]
    simp only [Nat.add_assoc]

/-- Layout at the end of a source leads to its end. -/
theorem skipLayout_final {gap : List Char} (h : Layout.Final gap) (offset : Nat) :
    skipLayout false offset gap = (offset + Text.size gap, []) := by
  cases h with
  | layout h =>
    have hskip := skipLayout_layout h offset []
    rwa [List.append_nil] at hskip
  | comment h hinside =>
    rw [skipLayout_layout h, skipLayout_slashes, skipLayout_comment_to_end hinside,
      Text.size_append, Text.size_slashes]
    simp only [Nat.add_assoc]

/-- Where the rest of a text begins once its layout is skipped. -/
structure Skips (text gap rest : List Char) : Prop where
  text_eq : text = gap ++ rest
  layout : AtLexeme rest ∧ Layout gap ∨ rest = [] ∧ Layout.Final gap

namespace Skips

theorem behind_blank {c : Char} {text gap rest : List Char} (hc : Text.isBlank c = true)
    (h : Skips text gap rest) : Skips (c :: text) (c :: gap) rest where
  text_eq := by rw [h.text_eq, List.cons_append]
  layout := h.layout.imp (.imp_right (.blank hc)) (.imp_right (.blank hc))

theorem behind_comment {line text gap rest : List Char} (hline : '\n' ∉ line)
    (h : Skips text gap rest) :
    Skips ('/' :: '/' :: (line ++ '\n' :: text)) ('/' :: '/' :: (line ++ '\n' :: gap)) rest where
  text_eq := by rw [h.text_eq]; simp
  layout := h.layout.imp (.imp_right (.comment hline)) (.imp_right (.behind_comment hline))

end Skips

/-- What is skipped is the longest layout that the text begins with. -/
theorem exists_skipLayout_eq (offset : Nat) (text : List Char) :
    ∃ gap rest, Skips text gap rest ∧
      skipLayout false offset text = (offset + Text.size gap, rest) := by
  -- A comment is skipped as a whole, so the induction is on the length.
  induction hlength : text.length using Nat.strongRecOn generalizing offset text with
  | ind n ih =>
    cases text with
    | nil => exact ⟨[], [], ⟨rfl, .inr ⟨rfl, .layout .nil⟩⟩, rfl⟩
    | cons c cs =>
      rw [List.length_cons] at hlength
      by_cases hblank : Text.isBlank c = true
      · obtain ⟨gap, rest, hskips, hskip⟩ := ih cs.length (by omega) (offset + c.utf8Size) cs rfl
        refine ⟨c :: gap, rest, hskips.behind_blank hblank, ?_⟩
        rw [skipLayout_blank hblank, hskip, Text.size_cons, Nat.add_assoc]
      · by_cases hcomment : c = '/' ∧ cs.head? = some '/'
        · obtain ⟨rfl, hhead⟩ := hcomment
          obtain ⟨body, rfl⟩ := List.head?_eq_some_iff.mp hhead
          by_cases hnewline : '\n' ∈ body
          · obtain ⟨line, text, rfl, hline⟩ := List.eq_append_cons_of_mem hnewline
            rw [List.length_cons, List.length_append, List.length_cons] at hlength
            obtain ⟨gap, rest, hskips, hskip⟩ := ih text.length (by omega)
              (offset + 2 + Text.size line + 1) text rfl
            refine ⟨'/' :: '/' :: (line ++ '\n' :: gap), rest, hskips.behind_comment hline, ?_⟩
            rw [skipLayout_slashes, skipLayout_comment hline, hskip, Text.size_comment]
            simp only [Nat.add_assoc]
          · refine ⟨'/' :: '/' :: body, [], ⟨by simp, .inr ⟨rfl, .comment .nil hnewline⟩⟩, ?_⟩
            rw [skipLayout_slashes, skipLayout_comment_to_end hnewline, Text.size_slashes,
              Nat.add_assoc]
        · have hlexeme : AtLexeme (c :: cs) := ⟨Bool.eq_false_iff.mpr hblank, hcomment⟩
          exact ⟨[], c :: cs, ⟨rfl, .inl ⟨hlexeme, .nil⟩⟩, skipLayout_lexeme hlexeme offset⟩

end Scanner

end Scriptlet

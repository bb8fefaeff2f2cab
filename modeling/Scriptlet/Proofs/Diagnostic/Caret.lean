import Scriptlet.Diagnostic.Report
import Scriptlet.Proofs.Numeral.Digits
import Scriptlet.Proofs.Source.Location

namespace Scriptlet

namespace Text

/-- What is cut off at the end is blank. -/
theorem exists_trimEnd_append (cs : List Char) :
    ∃ blanks, trimEnd cs ++ blanks = cs ∧ ∀ c ∈ blanks, isBlank c = true :=
  ⟨cs.rtakeWhile isBlank, List.rdropWhile_append_rtakeWhile, fun _ => List.mem_rtakeWhile_imp⟩

theorem trimEnd_append_newline (cs : List Char) : trimEnd (cs ++ ['\n']) = trimEnd cs :=
  List.rdropWhile_concat_pos isBlank cs '\n' (by decide)

theorem newline_not_mem_lastLine (cs : List Char) : '\n' ∉ lastLine cs := by
  intro h
  have hne : decide ('\n' ≠ '\n') = true :=
    List.mem_rtakeWhile_imp (p := fun c => decide (c ≠ '\n')) h
  exact absurd hne (by decide)

/-- A newline can only be the last character of a line. -/
theorem exists_firstLine_eq (cs : List Char) :
    ∃ line, '\n' ∉ line ∧ (firstLine cs = line ∨ firstLine cs = line ++ ['\n']) := by
  induction cs using line_induction with
  | last line h => exact ⟨line, h, .inl (firstLine_of_not_mem h)⟩
  | next line rest h _ => exact ⟨line, h, .inr (firstLine_append_newline h rest)⟩

theorem lines_append_lines (as bs : List Char) :
    lines (as ++ '\n' :: bs) = lines (as ++ ['\n']) ++ lines bs := by
  induction as using line_induction with
  | last line h => rw [lines_append_newline h, lines_append_newline h]; rfl
  | next line rest h ih =>
    rw [List.append_assoc, List.append_assoc, List.cons_append, List.cons_append,
      lines_append_newline h, lines_append_newline h, ih, List.cons_append]

/-- Rows that are written one below the other are lines of the text. -/
theorem lines_flatMap_rows {rows : List (List Char)} (h : ∀ row ∈ rows, '\n' ∉ row) :
    lines (rows.flatMap (· ++ ['\n'])) = rows.map (· ++ ['\n']) := by
  induction rows with
  | nil => rfl
  | cons row rows ih =>
    rw [List.forall_mem_cons] at h
    rw [List.flatMap_cons, List.append_assoc, List.singleton_append, lines_append_newline h.1,
      ih h.2, List.map_cons]

end Text

/-- The text of a number has nothing but digits. -/
theorem not_mem_toString_nat {c : Char} (hc : c.isDigit = false) (n : Nat) :
    c ∉ (toString n).toList := by
  intro hmem
  rw [Numeral.toList_toString_nat] at hmem
  rw [Numeral.isDigit_of_mem_toDigits hmem] at hc
  cases hc

namespace Location

/-- A line is cut off in front of its newline, wherever it is read from. -/
theorem At.newline_not_mem {cs : List Char} {q : Nat} {place : Location} (h : place.At cs q)
    (n : Nat) : '\n' ∉ Text.trimEnd (place.text.drop n) := by
  have htrim {line : List Char} (hline : '\n' ∉ line) : '\n' ∉ Text.trimEnd (line.drop n) := by
    intro hmem
    exact hline (List.mem_of_mem_drop ((List.rdropWhile_prefix Text.isBlank _).subset hmem))
  obtain ⟨line, hline, heq⟩ := Text.exists_firstLine_eq (Text.dropBytes q cs)
  have hall : '\n' ∉ Text.lastLine (Text.takeBytes q cs) ++ line := by
    rw [List.mem_append, not_or]
    exact ⟨Text.newline_not_mem_lastLine _, hline⟩
  rw [h.text]
  rcases heq with heq | heq <;> rw [heq]
  · exact htrim hall
  · rw [← List.append_assoc, List.drop_append]
    cases n - (Text.lastLine (Text.takeBytes q cs) ++ line).length with
    | zero =>
      rw [List.drop_zero, Text.trimEnd_append_newline]
      exact htrim hall
    | succ k =>
      rw [List.drop_succ_cons, List.drop_nil, List.append_nil]
      exact htrim hall

end Location

namespace Report

/-- How many spaces and tabs the line begins with, which the excerpt leaves out. -/
def indentation (place : Location) : Nat := (place.text.takeWhile isIndent).length

/-- Where character number `i` of the line stands in the excerpt, or would stand if it had not been
cut off at the end. It is one behind the indentation. -/
def seat (place : Location) (i : Nat) : Nat :=
  (toString place.line).length + 3 + (i - indentation place)

/-- The last three rows of a report go together. The caret stands below the character that the place
is at, or below the first one behind the indentation if the place lies in that. -/
structure Aligned (place : Location) (margin excerpt caret : List Char) : Prop where
  shown : ∃ body cut, place.text.drop (indentation place) = body ++ cut ∧
    (∀ c ∈ cut, Text.isBlank c = true) ∧
    excerpt = (toString place.line).toList ++ ' ' :: '|' :: ' ' :: body
  seated : ∀ i, indentation place ≤ i → seat place i < excerpt.length →
    excerpt[seat place i]? = place.text[i]?
  empty : ∀ c ∈ margin, c = ' ' ∨ c = '|'
  bars : '|' ∈ margin ∧ '|' ∈ excerpt ∧ '|' ∈ caret
  aligned : margin.idxOf '|' = excerpt.idxOf '|' ∧ caret.idxOf '|' = excerpt.idxOf '|'
  last : caret.getLast? = some '^'
  points : caret.length = seat place (max place.column (indentation place)) + 1

theorem drop_indentation (place : Location) :
    place.text.drop (indentation place) = place.text.dropWhile isIndent := by
  conv_lhs => rw [← List.takeWhile_append_dropWhile (p := isIndent) (l := place.text)]
  rw [indentation, List.drop_left]

theorem not_mem_replicate {c d : Char} (h : c ≠ d) (n : Nat) : c ∉ List.replicate n d :=
  fun hmem => h (List.eq_of_mem_replicate hmem)

theorem newline_not_mem_margin (digits : Nat) : '\n' ∉ margin digits := by
  rw [margin, List.mem_append, not_or]
  exact ⟨not_mem_replicate (by decide) _, by decide⟩

theorem newline_not_mem_excerpt {cs : List Char} {q : Nat} {place : Location}
    (h : place.At cs q) : '\n' ∉ excerpt place := by
  rw [excerpt, ← drop_indentation, List.mem_append, List.mem_append, not_or, not_or]
  exact ⟨⟨not_mem_toString_nat rfl _, by decide⟩, h.newline_not_mem _⟩

theorem newline_not_mem_caretLine (place : Location) : '\n' ∉ caretLine place := by
  simp only [caretLine, List.mem_append, not_or]
  exact ⟨⟨⟨newline_not_mem_margin _, by decide⟩, not_mem_replicate (by decide) _⟩, by decide⟩

theorem idxOf_bar {front : List Char} (h : '|' ∉ front) (rest : List Char) :
    (front ++ '|' :: rest).idxOf '|' = front.length := by
  rw [List.idxOf_append_of_notMem h, List.idxOf_cons_self, Nat.add_zero]

/-- What stands in the excerpt behind its bar is the line from behind its indentation on. -/
theorem getElem?_excerpt {number body cut text : List Char} {n : Nat}
    (h : text.drop n = body ++ cut) (k : Nat) (hk : k < body.length) :
    (number ++ ' ' :: '|' :: ' ' :: body)[number.length + 3 + k]? = text[n + k]? := by
  have hseat : number.length + 3 + k - number.length = k + 3 := by omega
  rw [List.getElem?_append_right (by omega), hseat, List.getElem?_cons_succ,
    List.getElem?_cons_succ, List.getElem?_cons_succ, ← List.getElem?_drop, h,
    List.getElem?_append_left hk]

theorem aligned_rows (place : Location) :
    Aligned place (margin (toString place.line).length) (excerpt place) (caretLine place) := by
  obtain ⟨cut, hcut, hblank⟩ := Text.exists_trimEnd_append (place.text.dropWhile isIndent)
  have hlength : (toString place.line).length = (toString place.line).toList.length :=
    String.length_toList.symm
  -- Digits and spaces are no bars, so the first bar of a row is the one behind the margin.
  have hnumber : '|' ∉ (toString place.line).toList := not_mem_toString_nat rfl _
  have hspaces (n : Nat) : '|' ∉ List.replicate n ' ' := not_mem_replicate (by decide) n
  rw [← drop_indentation] at hcut
  have hexcerpt : excerpt place = (toString place.line).toList ++ ' ' :: '|' :: ' ' ::
      Text.trimEnd (place.text.drop (indentation place)) := by
    rw [excerpt, drop_indentation, List.append_assoc]
    rfl
  have hcaret : caretLine place = List.replicate ((toString place.line).length + 1) ' ' ++
      '|' :: (' ' :: List.replicate (caretIndent place) '-' ++ ['^']) := by
    rw [caretLine, margin, List.append_assoc, List.append_assoc, List.append_assoc]
    rfl
  have hexcerptBar : (excerpt place).idxOf '|' = (toString place.line).length + 1 := by
    rw [hexcerpt, hlength, List.idxOf_append_of_notMem hnumber, List.idxOf_cons_ne _ (by decide),
      List.idxOf_cons_self]
  constructor
  case shown => exact ⟨_, cut, hcut.symm, hblank, hexcerpt⟩
  case seated =>
    intro i hi hshort
    obtain ⟨k, rfl⟩ := Nat.exists_eq_add_of_le hi
    rw [seat, Nat.add_sub_cancel_left, hlength] at hshort ⊢
    rw [hexcerpt] at hshort ⊢
    apply getElem?_excerpt hcut.symm
    simp only [List.length_append, List.length_cons] at hshort
    omega
  case empty =>
    intro c hc
    rcases List.mem_append.mp hc with hspace | hbar
    · exact .inl (List.eq_of_mem_replicate hspace)
    · exact .inr (List.mem_singleton.mp hbar)
  case bars =>
    rw [hexcerpt, hcaret, margin]
    simp
  case aligned =>
    rw [hexcerptBar, hcaret, margin, idxOf_bar (hspaces _), idxOf_bar (hspaces _),
      List.length_replicate]
    exact ⟨rfl, rfl⟩
  case last => rw [hcaret, ← List.cons_append, ← List.append_assoc, List.getLast?_concat]
  case points =>
    rw [hcaret, seat, caretIndent, indentation]
    simp only [List.length_append, List.length_cons, List.length_replicate, List.length_nil]
    omega

end Report

theorem toList_report (d : Diagnostic) (source : String) :
    (d.report source).toList =
      (Report.rows d source).flatMap fun row => row.toList ++ ['\n'] := by
  rw [Diagnostic.report, String.toList_join, List.flatMap_map]
  simp only [String.toList_append]
  rfl

/-- A report ends in an empty margin, the excerpt and the caret line. Their bars stand one below the
other, and the caret stands below the character that is reported. -/
theorem report_aligned (d : Diagnostic) (source : String) :
    let place := locate source.toList d.position.offset
    ∃ above margin excerpt caret,
      Text.lines (d.report source).toList =
        above ++ [margin ++ ['\n'], excerpt ++ ['\n'], caret ++ ['\n']] ∧
      Report.Aligned place margin excerpt caret := by
  intro place
  let arrow := s!"-> {d.position.file}:{place.line}:{place.column + 1}"
  let rows := [Report.margin (toString place.line).length, Report.excerpt place,
    Report.caretLine place]
  have hrows : ∀ row ∈ rows, '\n' ∉ row := by
    have hplace := at_locate source.toList d.position.offset
    simp only [rows, List.forall_mem_cons]
    exact ⟨Report.newline_not_mem_margin _, Report.newline_not_mem_excerpt hplace,
      Report.newline_not_mem_caretLine place, by simp⟩
  have hreport : (d.report source).toList =
      (Report.headline d.fault).toList ++ '\n' :: arrow.toList ++
        '\n' :: rows.flatMap (· ++ ['\n']) := by
    rw [toList_report]
    simp [Report.rows, rows, arrow, place]
  refine ⟨Text.lines ((Report.headline d.fault).toList ++ '\n' :: arrow.toList ++ ['\n']),
    Report.margin (toString place.line).length, Report.excerpt place, Report.caretLine place, ?_,
    Report.aligned_rows place⟩
  rw [hreport, Text.lines_append_lines, Text.lines_flatMap_rows hrows]
  rfl

end Scriptlet

import Mathlib.Data.List.DropRight
import Mathlib.Data.Prod.Lex
import Mathlib.Order.Monotone.Basic
import Scriptlet.Proofs.Text.Cutting
import Scriptlet.Proofs.Token.Scan
import Scriptlet.Source.Location

namespace Scriptlet

namespace Text

variable {as bs : List Char} {n : Nat}

theorem takeBytes_append_of_le (h : size as ≤ n) :
    takeBytes n (as ++ bs) = as ++ takeBytes (n - size as) bs := by
  induction as generalizing n with
  | nil => rfl
  | cons a as ih =>
    have hpos := a.utf8Size_pos
    rw [size_cons] at h
    obtain ⟨m, rfl⟩ : ∃ m, n = m + 1 := ⟨n - 1, by omega⟩
    rw [List.cons_append, takeBytes, ih (by omega), size_cons, Nat.sub_sub, List.cons_append]

theorem dropBytes_append_of_le (h : size as ≤ n) :
    dropBytes n (as ++ bs) = dropBytes (n - size as) bs := by
  induction as generalizing n with
  | nil => rfl
  | cons a as ih =>
    have hpos := a.utf8Size_pos
    rw [size_cons] at h
    obtain ⟨m, rfl⟩ : ∃ m, n = m + 1 := ⟨n - 1, by omega⟩
    rw [List.cons_append, dropBytes, ih (by omega), size_cons, Nat.sub_sub]

theorem takeBytes_append_of_ge (h : n ≤ size as) : takeBytes n (as ++ bs) = takeBytes n as := by
  induction as generalizing n with
  | nil =>
    obtain rfl : n = 0 := Nat.le_zero.mp h
    rw [takeBytes, takeBytes]
  | cons a as ih =>
    rw [size_cons] at h
    cases n with
    | zero => rw [takeBytes, takeBytes]
    | succ m => rw [List.cons_append, takeBytes, takeBytes, ih (by omega)]

theorem dropBytes_append_of_ge (h : n ≤ size as) :
    dropBytes n (as ++ bs) = dropBytes n as ++ bs := by
  induction as generalizing n with
  | nil =>
    obtain rfl : n = 0 := Nat.le_zero.mp h
    rw [dropBytes, dropBytes]
  | cons a as ih =>
    rw [size_cons] at h
    cases n with
    | zero => rw [dropBytes, dropBytes]
    | succ m => rw [List.cons_append, dropBytes, dropBytes, ih (by omega)]

/-- Nothing is lost where a text is cut, even if the cut is inside of a character. -/
theorem takeBytes_append_dropBytes (n : Nat) (cs : List Char) :
    takeBytes n cs ++ dropBytes n cs = cs := by
  induction cs generalizing n with
  | nil => cases n <;> rfl
  | cons c cs ih =>
    cases n with
    | zero => rfl
    | succ n => rw [takeBytes, dropBytes, List.cons_append, ih]

/-- Past the end there is nothing to cut off. -/
theorem takeBytes_min (n : Nat) (cs : List Char) :
    takeBytes (min n (size cs)) cs = takeBytes n cs := by
  rcases Nat.le_total n (size cs) with h | h
  · rw [Nat.min_eq_left h]
  · rw [Nat.min_eq_right h]
    have hall : takeBytes n (cs ++ []) = cs ++ takeBytes (n - size cs) [] :=
      takeBytes_append_of_le h
    have hsize := takeBytes_size cs []
    simp only [List.append_nil] at hall hsize
    rw [hsize, hall]
    cases n - size cs <;> simp [takeBytes]

theorem dropBytes_min (n : Nat) (cs : List Char) :
    dropBytes (min n (size cs)) cs = dropBytes n cs := by
  have hcut := takeBytes_append_dropBytes (min n (size cs)) cs
  rw [takeBytes_min] at hcut
  exact List.append_cancel_left (hcut.trans (takeBytes_append_dropBytes n cs).symm)

theorem length_takeBytes (n : Nat) (cs : List Char) :
    (takeBytes n cs).length = Location.charsBefore n cs := by
  induction cs generalizing n with
  | nil => cases n <;> rfl
  | cons c cs ih =>
    cases n with
    | zero => rfl
    | succ n => rw [takeBytes, List.length_cons, ih, Location.charsBefore, if_pos (Nat.succ_pos n)]

/-- What stands behind the last newline. -/
def lastLine (cs : List Char) : List Char := cs.rtakeWhile (· ≠ '\n')

/-- What stands up to the first newline, and that newline. -/
def firstLine : List Char → List Char
  | [] => []
  | c :: cs => if c = '\n' then [c] else c :: firstLine cs

/-- A text without a newline is its last line, and one behind a newline has the same last line with
what stands in front. -/
theorem lastLine_of_not_mem {cs : List Char} (h : '\n' ∉ cs) : lastLine cs = cs := by
  rw [lastLine, List.rtakeWhile_eq_self_iff]
  intro c hc
  exact decide_eq_true fun heq => h (heq ▸ hc)

theorem lastLine_append_of_not_mem (as : List Char) {bs : List Char} (h : '\n' ∉ bs) :
    lastLine (as ++ bs) = lastLine as ++ bs := by
  have hall : ∀ c ∈ bs.reverse, decide (c ≠ '\n') = true := by
    intro c hc
    exact decide_eq_true fun heq => h (heq ▸ List.mem_reverse.mp hc)
  rw [lastLine, List.rtakeWhile, List.reverse_append, List.takeWhile_append_of_pos hall,
    List.reverse_append, List.reverse_reverse]
  rfl

theorem lastLine_append_newline (as bs : List Char) :
    lastLine (as ++ '\n' :: bs) = lastLine bs := by
  have hstop : ('\n' :: as.reverse).takeWhile (fun c => decide (c ≠ '\n')) = [] :=
    List.takeWhile_cons_of_neg (by decide)
  rw [lastLine, lastLine, List.rtakeWhile, List.rtakeWhile, List.reverse_append,
    List.reverse_cons, List.append_assoc, List.singleton_append, List.takeWhile_append, hstop]
  split
  · rename_i hlength
    rw [List.append_nil, (List.takeWhile_prefix _).eq_of_length hlength]
  · rfl

theorem firstLine_of_not_mem {cs : List Char} (h : '\n' ∉ cs) : firstLine cs = cs := by
  induction cs with
  | nil => rfl
  | cons c cs ih =>
    rw [List.mem_cons, not_or] at h
    rw [firstLine, if_neg (Ne.symm h.1), ih h.2]

theorem firstLine_append_newline {as : List Char} (h : '\n' ∉ as) (bs : List Char) :
    firstLine (as ++ '\n' :: bs) = as ++ ['\n'] := by
  induction as with
  | nil => rfl
  | cons a as ih =>
    rw [List.mem_cons, not_or] at h
    rw [List.cons_append, firstLine, if_neg (Ne.symm h.1), ih h.2, List.cons_append]

theorem lines_of_not_mem {cs : List Char} (h : '\n' ∉ cs) (hne : cs ≠ []) : lines cs = [cs] := by
  induction cs with
  | nil => exact absurd rfl hne
  | cons c cs ih =>
    rw [List.mem_cons, not_or] at h
    rw [lines, if_neg (Ne.symm h.1)]
    cases cs with
    | nil => rfl
    | cons d ds => rw [ih h.2 (List.cons_ne_nil _ _)]

theorem lines_append_newline {as : List Char} (h : '\n' ∉ as) (bs : List Char) :
    lines (as ++ '\n' :: bs) = (as ++ ['\n']) :: lines bs := by
  induction as with
  | nil => rfl
  | cons a as ih =>
    rw [List.mem_cons, not_or] at h
    rw [List.cons_append, lines, if_neg (Ne.symm h.1), ih h.2, List.cons_append]

/-- Texts are read line by line. -/
theorem line_induction {motive : List Char → Prop}
    (last : ∀ line : List Char, '\n' ∉ line → motive line)
    (next : ∀ line rest : List Char, '\n' ∉ line → motive rest → motive (line ++ '\n' :: rest))
    (cs : List Char) : motive cs := by
  have hnewline {line : List Char} (h : ∀ c ∈ line, (c == '\n') = false) : '\n' ∉ line :=
    fun hmem => by simpa using h _ hmem
  induction cs using piece_induction (p := (· == '\n')) with
  | last line h => exact last line (hnewline h)
  | next line c rest h hc ih =>
    obtain rfl : c = '\n' := by simpa using hc
    exact next line rest (hnewline h) ih

/-- Some characters end at byte `q` of the text. -/
def IsBoundary (cs : List Char) (q : Nat) : Prop := ∃ before, before <+: cs ∧ q = size before

/-- The lines in front of the last one, and that one, are the text. -/
theorem lines_take_append_lastLine (as bs : List Char) :
    ((lines (as ++ bs)).take (as.count '\n')).flatten ++ lastLine as = as := by
  induction as using line_induction with
  | last line h => rw [List.count_eq_zero.mpr h, lastLine_of_not_mem h]; rfl
  | next line rest h ih =>
    rw [List.append_assoc, List.cons_append, lines_append_newline h, List.count_append,
      List.count_eq_zero.mpr h, List.count_cons_self, Nat.zero_add, List.take_succ_cons,
      List.flatten_cons, lastLine_append_newline, List.append_assoc, ih]
    simp

end Text

namespace Location

open Text

/-- The place is that of byte `q` of the text: its line is the one behind the newlines that start
before `q`, and its column counts the characters of that line that do. -/
structure At (cs : List Char) (q : Nat) (place : Location) : Prop where
  line : place.line = 1 + (takeBytes q cs).count '\n'
  text : place.text = lastLine (takeBytes q cs) ++ firstLine (dropBytes q cs)
  column : place.column = (lastLine (takeBytes q cs)).length

/-- Looking through the lines leads to the place that can be read off what is in front of it. -/
theorem among_lines (line n : Nat) (text : List Char) :
    among line n (lines text) =
      ⟨line + (takeBytes n text).count '\n',
        lastLine (takeBytes n text) ++ firstLine (dropBytes n text),
        (lastLine (takeBytes n text)).length⟩ := by
  induction text using line_induction generalizing line n with
  | last text h =>
    -- There is no newline on either side of the place.
    have hcut := takeBytes_append_dropBytes n text
    have hfront : '\n' ∉ takeBytes n text := fun hmem => h (hcut ▸ List.mem_append_left _ hmem)
    have hback : '\n' ∉ dropBytes n text := fun hmem => h (hcut ▸ List.mem_append_right _ hmem)
    rw [List.count_eq_zero.mpr hfront, lastLine_of_not_mem hfront, firstLine_of_not_mem hback, hcut,
      length_takeBytes]
    cases text with
    | nil => rfl
    | cons c cs =>
      have hlast : (c :: cs).getLast? ≠ some '\n' := fun heq => h (List.mem_of_getLast? heq)
      rw [lines_of_not_mem h (List.cons_ne_nil _ _), among, if_pos (.inr ⟨rfl, hlast⟩)]
      rfl
  | next text rest h ih =>
    have hlast : (text ++ ['\n']).getLast? = some '\n' := List.getLast?_concat
    have hsize : size (text ++ ['\n']) = size text + 1 := by rw [size_append]; rfl
    rw [lines_append_newline h, among, hsize]
    by_cases hn : n < size text + 1
    · -- The place is on the line that is looked at.
      have hcut := takeBytes_append_dropBytes n text
      have hfront : '\n' ∉ takeBytes n text := fun hmem => h (hcut ▸ List.mem_append_left _ hmem)
      have hback : '\n' ∉ dropBytes n text := fun hmem => h (hcut ▸ List.mem_append_right _ hmem)
      have hle : n ≤ size text := Nat.le_of_lt_succ hn
      rw [if_pos (.inl hn), takeBytes_append_of_ge hle, dropBytes_append_of_ge hle,
        List.count_eq_zero.mpr hfront, lastLine_of_not_mem hfront, firstLine_append_newline hback,
        ← List.append_assoc, hcut, ← length_takeBytes, takeBytes_append_of_ge hle]
      rfl
    · -- It is on one of the lines behind, and the newline is among the characters before it.
      have hle : size text + 1 ≤ n := Nat.le_of_not_lt hn
      obtain ⟨k, rfl⟩ := Nat.exists_eq_add_of_le hle
      have hrest : size text + 1 + k - size text = k + 1 := by omega
      rw [if_neg (by rintro (hlt | ⟨-, hne⟩); exacts [hn hlt, hne hlast]), Nat.add_sub_cancel_left,
        ih, takeBytes_append_of_le (by omega), dropBytes_append_of_le (by omega), hrest, takeBytes,
        dropBytes, show '\n'.utf8Size = 1 from rfl, Nat.add_sub_cancel, List.count_append,
        List.count_eq_zero.mpr h, List.count_cons_self, lastLine_append_newline]
      congr 1
      omega

end Location

open Location Text

theorem at_locate (text : List Char) (offset : Nat) :
    At text (min offset (size text)) (locate text offset) := by
  rw [locate, among_lines]
  exact ⟨by rw [takeBytes_min], by rw [takeBytes_min, dropBytes_min], by rw [takeBytes_min]⟩

/-- The place behind some characters of the text. -/
theorem locate_size (before behind : List Char) :
    locate (before ++ behind) (size before) =
      ⟨1 + before.count '\n', lastLine before ++ firstLine behind, (lastLine before).length⟩ := by
  rw [locate, among_lines, takeBytes_size, dropBytes_size]

/-- The offset of a place, from its line and column. -/
theorem size_lines_take_locate (before behind : List Char) :
    let place := locate (before ++ behind) (size before)
    size ((lines (before ++ behind)).take (place.line - 1)).flatten +
      size (place.text.take place.column) = size before := by
  rw [locate_size]
  dsimp only
  rw [Nat.add_sub_cancel_left, List.take_left', ← size_append, lines_take_append_lastLine]
  rfl

/-- Farther on in a text, the line is a later one, or it is the same and the column is. -/
theorem locate_lt_locate {text before before' : List Char} (h : before <+: text)
    (h' : before' <+: text) (hlt : size before < size before') :
    toLex ((locate text (size before)).line, (locate text (size before)).column) <
      toLex ((locate text (size before')).line, (locate text (size before')).column) := by
  obtain ⟨between, rfl⟩ : before <+: before' := by
    rcases List.prefix_or_prefix_of_prefix h h' with hfront | ⟨more, rfl⟩
    · exact hfront
    · rw [size_append] at hlt
      omega
  obtain ⟨behind, rfl⟩ := h'
  have hne : between ≠ [] := by
    rintro rfl
    simp at hlt
  rw [locate_size, List.append_assoc, locate_size, Prod.Lex.toLex_lt_toLex]
  by_cases hnewline : '\n' ∈ between
  · left
    have hcount := List.count_pos_iff.mpr hnewline
    simp only [List.count_append]
    omega
  · right
    have hlength := List.length_pos_iff.mpr hne
    simp only [List.count_append, List.count_eq_zero.mpr hnewline,
      lastLine_append_of_not_mem before hnewline, List.length_append]
    omega

/-- Every offset, also one past the end of the text, is located at the line and column that the
characters before it make. On the boundaries of characters, places are in the order of their offsets,
and the offset is the size of the lines before the place and of the characters before it in its own
line. -/
theorem locate_exact (text : List Char) :
    (∀ offset, At text (min offset (size text)) (locate text offset)) ∧
    StrictMonoOn (fun q => toLex ((locate text q).line, (locate text q).column))
      {q | IsBoundary text q} ∧
    Set.InjOn (fun q => ((locate text q).line, (locate text q).column)) {q | IsBoundary text q} ∧
    ∀ q, IsBoundary text q →
      size ((lines text).take ((locate text q).line - 1)).flatten +
        size ((locate text q).text.take (locate text q).column) = q := by
  have hmono : StrictMonoOn (fun q => toLex ((locate text q).line, (locate text q).column))
      {q | IsBoundary text q} := by
    rintro _ ⟨before, h, rfl⟩ _ ⟨before', h', rfl⟩ hlt
    exact locate_lt_locate h h' hlt
  refine ⟨at_locate text, hmono, hmono.injOn, ?_⟩
  rintro _ ⟨before, ⟨behind, rfl⟩, rfl⟩
  exact size_lines_take_locate before behind

/-- The last character of a text whose first one takes two bytes. -/
theorem locate_exact_second_line :
    let text := ['é', '\n', 'a', 'b']
    IsBoundary text 4 ∧
      size ((lines text).take ((locate text 4).line - 1)).flatten +
        size ((locate text 4).text.take (locate text 4).column) = 4 := by
  intro text
  have hboundary : IsBoundary text 4 := ⟨['é', '\n', 'a'], ⟨['b'], rfl⟩, by decide⟩
  exact ⟨hboundary, (locate_exact text).2.2.2 4 hboundary⟩

end Scriptlet

import Scriptlet.Proofs.Token.Layout
import Scriptlet.Proofs.Token.Scanner
import Scriptlet.Token.Cursor

namespace Scriptlet

namespace Lexeme

theorem toQuote_isPrefix (cs : List Char) : (toQuote cs).1 ++ (toQuote cs).2 <+: cs := by
  fun_induction toQuote cs with
  | case1 => exact List.prefix_rfl
  | case2 cs => exact List.cons_prefix_cons.mpr ⟨rfl, List.nil_prefix⟩
  | case3 c cs inside quote hcut ih =>
    rw [hcut] at ih
    exact List.cons_prefix_cons.mpr ⟨rfl, List.cons_prefix_cons.mpr ⟨rfl, ih⟩⟩
  | case4 c cs _ _ inside quote hcut ih =>
    rw [hcut] at ih
    exact List.cons_prefix_cons.mpr ⟨rfl, ih⟩

theorem ofOperator?_isPrefix {cs : List Char} {lexeme : Lexeme}
    (h : ofOperator? cs = some lexeme) : lexeme.text <+: cs := by
  obtain ⟨entry, hentry, rfl⟩ := Option.map_eq_some_iff.mp h
  have hfront := List.find?_some hentry
  exact List.isPrefixOf_iff_prefix.mp hfront

theorem ofNumber_isPrefix (cs : List Char) : (ofNumber cs).text <+: cs := by
  have hsplit : cs.takeWhile Char.isDigit ++ cs.dropWhile Char.isDigit = cs :=
    List.takeWhile_append_dropWhile
  have hdigits : cs.takeWhile Char.isDigit <+: cs := List.takeWhile_prefix _
  rw [ofNumber]
  split
  · exact hdigits
  · rename_i fraction _ hpoint
    rw [hpoint] at hsplit
    have hfraction : '.' :: fraction.takeWhile Char.isDigit <+: '.' :: fraction :=
      List.cons_prefix_cons.mpr ⟨rfl, List.takeWhile_prefix _⟩
    have happend := (List.prefix_append_right_inj (cs.takeWhile Char.isDigit)).mpr hfraction
    rwa [hsplit] at happend
  · exact hdigits

/-- A lexeme is cut off the front of its text. -/
theorem cut_isPrefix (c : Char) (cs : List Char) : (cut c cs).text <+: c :: cs := by
  unfold cut
  split
  · rename_i hquote
    rw [hquote]
    exact List.cons_prefix_cons.mpr ⟨rfl, toQuote_isPrefix cs⟩
  · split
    · rename_i lexeme h
      exact ofOperator?_isPrefix h
    · split
      · exact List.takeWhile_prefix _
      · split
        · exact ofNumber_isPrefix _
        · exact List.cons_prefix_cons.mpr ⟨rfl, List.nil_prefix⟩

/-- Every lexeme but a string has its own text for its value. -/
theorem cut_value {c : Char} {cs : List Char} (h : (cut c cs).kind ≠ .string) :
    (cut c cs).value = String.ofList (cut c cs).text := by
  unfold cut at h ⊢
  split
  · rename_i hquote
    rw [if_pos hquote] at h
    exact absurd rfl h
  · split
    · rename_i lexeme hoperator
      obtain ⟨entry, -, rfl⟩ := Option.map_eq_some_iff.mp hoperator
      rfl
    · split
      · rfl
      · split
        · rfl
        · exact String.singleton_eq_ofList

theorem ne_of_spelling? {k k' : Kind} {text : String} (h : k.spelling? = some text)
    (h' : k'.spelling? = none) : k ≠ k' := by
  rintro rfl
  rw [h] at h'
  cases h'

theorem ofWord_kind_ne {k : Kind} (hspelling : k.spelling? = none) (hname : .identifier ≠ k)
    (cs : List Char) : (ofWord cs).kind ≠ k := by
  have hkind : (ofWord cs).kind = (keywords.lookup (ofWord cs).value).getD .identifier := rfl
  rw [hkind]
  cases hlookup : keywords.lookup (ofWord cs).value with
  | none => exact hname
  | some k =>
    exact ne_of_spelling? (spelling?_of_mem_keywords _ (mem_keywords_of_lookup hlookup)) hspelling

theorem ofNumber_kind (cs : List Char) :
    (ofNumber cs).kind = if '.' ∈ (ofNumber cs).text then .float else .int := rfl

/-- The kinds without a spelling that no lexeme is of, unless it is a string. -/
theorem cut_kind_ne {k : Kind} (hspelling : k.spelling? = none)
    (hkinds : k ∉ [.identifier, .int, .float, .error]) {c : Char} (hquote : c = '"' → .string ≠ k)
    (cs : List Char) : (cut c cs).kind ≠ k := by
  have hne (k' : Kind) (hk' : k' ∈ [.identifier, .int, .float, .error]) : k' ≠ k := by
    rintro rfl
    exact hkinds hk'
  unfold cut
  split
  · rename_i hc
    exact hquote hc
  · split
    · rename_i lexeme hoperator
      obtain ⟨entry, hentry, rfl⟩ := Option.map_eq_some_iff.mp hoperator
      have hmem := List.mem_of_find?_eq_some hentry
      exact ne_of_spelling? (spelling?_of_mem_operators entry hmem) hspelling
    · split
      · exact ofWord_kind_ne hspelling (hne _ (by decide)) _
      · split
        · rw [ofNumber_kind]
          split <;> exact hne _ (by decide)
        · exact hne .error (by decide)

/-- A lexeme is never the end of the text. -/
theorem cut_kind_ne_eof (c : Char) (cs : List Char) : (cut c cs).kind ≠ .eof :=
  cut_kind_ne rfl (by decide) (fun _ => by decide) cs

/-- Only a quote begins a string. -/
theorem cut_kind_ne_string {c : Char} (hc : c ≠ '"') (cs : List Char) :
    (cut c cs).kind ≠ .string :=
  cut_kind_ne rfl (by decide) (fun hquote => absurd hquote hc) cs

end Lexeme

/-- The token is what stands at `text`, which follows `before` in its file. -/
structure Token.Stands (file : String) (before text : List Char) (t : Token) : Prop where
  kind_ne_eof : t.kind ≠ .eof
  text_ne_nil : text ≠ []
  span_eq : t.span =
    ⟨.ofByte file (Text.size before), .ofByte file (Text.size (before ++ text))⟩
  value_eq : t.kind ≠ .string → t.value = String.ofList text

namespace Token.Stands

variable {file : String} {before text : List Char} {t : Token}

/-- Where 32 bits can count the bytes, the span is that of the text. -/
theorem span_eq_of_lt (h : t.Stands file before text)
    (hlt : Text.size (before ++ text) < 0x100000000) :
    t.span = ⟨⟨Text.size before, file⟩, ⟨Text.size (before ++ text), file⟩⟩ := by
  have hstart : Text.size before < 0x100000000 := by
    rw [Text.size_append] at hlt
    omega
  rw [h.span_eq, Position.ofByte_of_lt file hstart, Position.ofByte_of_lt file hlt]

theorem start_lt_stop (h : t.Stands file before text)
    (hlt : Text.size (before ++ text) < 0x100000000) :
    t.span.start.offset < t.span.stop.offset := by
  obtain ⟨c, cs, rfl⟩ := List.exists_cons_of_ne_nil h.text_ne_nil
  have hc := c.utf8Size_pos
  rw [h.span_eq_of_lt hlt, Text.size_append, Text.size_cons]
  change Text.size before < Text.size before + (c.utf8Size + Text.size cs)
  omega

end Token.Stands

/-- The tokens of the text behind `before`, with layout before, between and after them. -/
inductive Covers (file : String) : List Char → List Token → List Char → Prop
  | done {before gap} : Layout.Final gap → Covers file before [] gap
  | token {before gap text rest t tokens} : Layout gap → t.Stands file (before ++ gap) text →
      Covers file (before ++ gap ++ text) tokens rest →
      Covers file before (t :: tokens) (gap ++ text ++ rest)

namespace Covers

variable {file : String} {before rest : List Char} {tokens : List Token}

/-- Each token stands somewhere in the text. -/
theorem exists_stands (h : Covers file before tokens rest) : ∀ t ∈ tokens,
    ∃ front text back, before ++ rest = before ++ front ++ text ++ back ∧
      t.Stands file (before ++ front) text := by
  induction h with
  | done => exact fun _ ht => nomatch ht
  | @token before gap text rest t tokens _ hstands _ ih =>
    intro u hu
    rcases List.mem_cons.mp hu with rfl | hu
    · exact ⟨gap, text, rest, by simp, hstands⟩
    · obtain ⟨front, own, back, hsplit, hown⟩ := ih u hu
      refine ⟨gap ++ text ++ front, own, back, ?_, by simpa using hown⟩
      simpa using hsplit

/-- Each token ends before the next one starts. -/
theorem pairwise (h : Covers file before tokens rest)
    (hlt : Text.size (before ++ rest) < 0x100000000) :
    tokens.Pairwise fun t u => t.span.stop.offset ≤ u.span.start.offset := by
  induction h with
  | done => exact .nil
  | @token before gap text rest t tokens _ hstands hrest ih =>
    have hbehind : Text.size (before ++ gap ++ text ++ rest) < 0x100000000 := by simpa using hlt
    refine .cons (fun u hu => ?_) (ih hbehind)
    obtain ⟨front, own, back, hsplit, hown⟩ := hrest.exists_stands u hu
    rw [hsplit, Text.size_append _ back] at hbehind
    have hfirst : Text.size (before ++ gap ++ text) ≤
        Text.size (before ++ gap ++ text ++ front) := by
      rw [Text.size_append _ front]
      exact Nat.le_add_right _ _
    have hinside : Text.size (before ++ gap ++ text ++ front) ≤
        Text.size (before ++ gap ++ text ++ front ++ own) := by
      rw [Text.size_append _ own]
      exact Nat.le_add_right _ _
    rw [hstands.span_eq_of_lt (by omega), hown.span_eq_of_lt (by omega)]
    exact hfirst

end Covers

namespace Scanner

/-- The scanner after so many tokens. -/
def after : Nat → Scanner → Scanner
  | 0, s => s
  | n + 1, s => after n s.next.2

/-- The token that step `n` gives, counted from zero. -/
def token (s : Scanner) (n : Nat) : Token := (s.after n).next.1

/-- The scanner has come past `before` in its source. -/
structure Behind (source file : String) (before : List Char) (s : Scanner) : Prop where
  source_eq : s.source = source
  file_eq : s.file = file
  split : source.toList = before ++ s.rest
  offset_eq : s.offset = Text.size before

variable {source file : String} {before : List Char} {s : Scanner}

theorem behind_ofSource (source file : String) : Behind source file [] (ofSource source file) :=
  ⟨rfl, rfl, rfl, rfl⟩

theorem Behind.skipLayout_at_end (h : s.Behind source file source.toList) :
    skipLayout false s.offset s.rest = (source.utf8ByteSize, []) := by
  rw [List.append_right_eq_self.mp h.split.symm, h.offset_eq, Text.size_toList]
  rfl

/-- Before a lexeme the scanner cuts it off. -/
theorem next_stands (h : s.Behind source file before) {gap : List Char} {c : Char} {cs : List Char}
    (hrest : s.rest = gap ++ c :: cs)
    (hskip : skipLayout false s.offset s.rest = (Text.size (before ++ gap), c :: cs)) :
    s.next.1.kind = (Lexeme.cut c cs).kind ∧
      s.rest = gap ++ (Lexeme.cut c cs).text ++ s.next.2.rest ∧
      s.next.1.Stands file (before ++ gap) (Lexeme.cut c cs).text ∧
      s.next.2.Behind source file (before ++ gap ++ (Lexeme.cut c cs).text) := by
  obtain ⟨rest, hcut⟩ := Lexeme.cut_isPrefix c cs
  have hdrop := congrArg (List.drop (Lexeme.cut c cs).text.length) hcut
  rw [List.drop_left] at hdrop
  have hsplit : s.rest = gap ++ (Lexeme.cut c cs).text ++ rest := by
    rw [hrest, List.append_assoc, hcut]
  rw [next, hskip]
  dsimp only
  rw [← hdrop, ← Text.size_append]
  refine ⟨rfl, hsplit,
    ⟨Lexeme.cut_kind_ne_eof c cs, Lexeme.cut_text_ne_nil c cs, ?_, Lexeme.cut_value⟩,
    h.source_eq, h.file_eq, ?_, rfl⟩
  · rw [position, position, h.file_eq]
  · rw [h.split, hsplit]
    simp only [List.append_assoc]

/-- Before nothing but layout the scanner goes to the end of the source. -/
theorem next_endToken (h : s.Behind source file before)
    (hskip : skipLayout false s.offset s.rest = (source.utf8ByteSize, [])) :
    s.next.1 = Cursor.endToken (.ofByte file source.utf8ByteSize) ∧
      s.next.2.Behind source file source.toList := by
  rw [next, hskip]
  refine ⟨?_, h.source_eq, h.file_eq, (List.append_nil _).symm, (Text.size_toList source).symm⟩
  simp only [position, h.file_eq, Cursor.endToken]

/-- One step: either a lexeme follows the layout and is cut off, or only layout is left. -/
theorem next_behind (h : s.Behind source file before) :
    (∃ gap text, s.rest = gap ++ text ++ s.next.2.rest ∧ Layout gap ∧
        s.next.1.Stands file (before ++ gap) text ∧
        s.next.2.Behind source file (before ++ gap ++ text)) ∨
      Layout.Final s.rest ∧ s.next.1 = Cursor.endToken (.ofByte file source.utf8ByteSize) ∧
        s.next.2.Behind source file source.toList := by
  obtain ⟨gap, rest, hskips, hskip⟩ := exists_skipLayout_eq s.offset s.rest
  have hoffset : s.offset + Text.size gap = Text.size (before ++ gap) := by
    rw [h.offset_eq, Text.size_append]
  rw [hoffset] at hskip
  cases rest with
  | nil =>
    obtain ⟨hlexeme, -⟩ | ⟨-, hgap⟩ := hskips.layout
    · exact absurd hlexeme id
    · have hrest : s.rest = gap := by rw [hskips.text_eq, List.append_nil]
      rw [← hrest, ← h.split, Text.size_toList] at hskip
      exact .inr ⟨hrest ▸ hgap, next_endToken h hskip⟩
  | cons c cs =>
    obtain ⟨-, hgap⟩ | ⟨hnil, -⟩ := hskips.layout
    · obtain ⟨-, hrest, hstands, hbehind⟩ := next_stands h hskips.text_eq hskip
      exact .inl ⟨gap, _, hrest, hgap, hstands, hbehind⟩
    · cases hnil

/-- At the end of the source the scanner stays there. -/
theorem token_at_end (h : s.Behind source file source.toList) (n : Nat) :
    s.token n = Cursor.endToken (.ofByte file source.utf8ByteSize) := by
  induction n generalizing s with
  | zero => exact (next_endToken h h.skipLayout_at_end).1
  | succ n ih => exact ih (next_endToken h h.skipLayout_at_end).2

/-- The scanner gives the tokens of what is left of its source, and then the end of the text for
ever. -/
theorem exists_covers (h : s.Behind source file before) :
    ∃ tokens, Covers file before tokens s.rest ∧
      ∀ n, s.token n = tokens[n]?.getD (Cursor.endToken (.ofByte file source.utf8ByteSize)) := by
  induction hlength : s.rest.length using Nat.strongRecOn generalizing s before with
  | ind n ih =>
    rcases next_behind h with ⟨gap, text, hrest, hgap, hstands, hbehind⟩ | ⟨hfinal, hnext, hbehind⟩
    · have htext := List.length_pos_iff.mpr hstands.text_ne_nil
      have hshort : s.next.2.rest.length < n := by
        rw [← hlength, hrest, List.length_append, List.length_append]
        omega
      obtain ⟨tokens, hcovers, htoken⟩ := ih _ hshort hbehind rfl
      refine ⟨s.next.1 :: tokens, ?_, fun k => ?_⟩
      · rw [hrest]
        exact .token hgap hstands hcovers
      · cases k with
        | zero => rfl
        | succ k => exact htoken k
    · refine ⟨[], .done hfinal, fun k => ?_⟩
      cases k with
      | zero => exact hnext
      | succ k => exact token_at_end hbehind k

end Scanner

/-- The tokens of a source that 32 bits can count cover it: they lie in it one behind the other, and
what is around them is layout. Error tokens are among them. -/
theorem covers_source {source : String} (hsize : source.utf8ByteSize < 0x100000000)
    (file : String) :
    ∃ tokens, Covers file [] tokens source.toList ∧
      (∀ t ∈ tokens, t.span.start.offset < t.span.stop.offset ∧
        ∃ before text behind, source.toList = before ++ text ++ behind ∧
          t.Stands file before text ∧
          t.span = ⟨⟨Text.size before, file⟩, ⟨Text.size (before ++ text), file⟩⟩) ∧
      (tokens.Pairwise fun t u => t.span.stop.offset ≤ u.span.start.offset) ∧
      ∀ n, (Scanner.ofSource source file).token n =
        tokens[n]?.getD (Cursor.endToken ⟨source.utf8ByteSize, file⟩) := by
  obtain ⟨tokens, hcovers, htoken⟩ := Scanner.exists_covers (Scanner.behind_ofSource source file)
  have hcovers : Covers file [] tokens source.toList := hcovers
  have hall : Text.size ([] ++ source.toList) < 0x100000000 := by
    rwa [List.nil_append, Text.size_toList]
  rw [Position.ofByte_of_lt file hsize] at htoken
  refine ⟨tokens, hcovers, fun t ht => ?_, hcovers.pairwise hall, htoken⟩
  obtain ⟨front, text, back, hsplit, hstands⟩ := hcovers.exists_stands t ht
  have hlt : Text.size ([] ++ front ++ text) < 0x100000000 := by
    rw [hsplit, Text.size_append _ back] at hall
    omega
  exact ⟨hstands.start_lt_stop hlt, front, text, back, hsplit, hstands, hstands.span_eq_of_lt hlt⟩

/-- The slashes in the string begin no comment, and nothing is behind the last of its characters. -/
theorem covers_source_open : "é // \n\"//".utf8ByteSize < 0x100000000 ∧
    ∃ tokens, Covers "f" [] tokens "é // \n\"//".toList ∧
      (∀ t ∈ tokens, t.span.start.offset < t.span.stop.offset ∧
        ∃ before text behind, "é // \n\"//".toList = before ++ text ++ behind ∧
          t.Stands "f" before text ∧
          t.span = ⟨⟨Text.size before, "f"⟩, ⟨Text.size (before ++ text), "f"⟩⟩) ∧
      (tokens.Pairwise fun t u => t.span.stop.offset ≤ u.span.start.offset) ∧
      ∀ n, (Scanner.ofSource "é // \n\"//" "f").token n =
        tokens[n]?.getD (Cursor.endToken ⟨"é // \n\"//".utf8ByteSize, "f"⟩) := by
  have hsize : "é // \n\"//".utf8ByteSize < 0x100000000 := by decide
  exact ⟨hsize, covers_source hsize "f"⟩

end Scriptlet

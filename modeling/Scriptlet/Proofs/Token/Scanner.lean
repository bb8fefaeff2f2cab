import Scriptlet.Proofs.Syntax.Spelling
import Scriptlet.Token.Scanner

namespace Scriptlet

namespace Token

theorem Is.proper {t : Token} {k : Kind} (h : t.Is k) : t.Proper := by
  refine ⟨fun text ht => ?_, fun hk => ?_⟩
  · rw [h.kind, h.spelling] at ht
    exact Option.some.inj ht
  · have hs := h.spelling
    rw [← h.kind, hk] at hs
    cases hs

theorem IsName.proper {t : Token} (h : t.IsName) : t.Proper := by
  refine ⟨fun text ht => ?_, fun _ => h.name⟩
  rw [h.kind] at ht
  cases ht

/-- Nothing is asked of a token whose kind has no text, unless it is a name. -/
theorem proper_of_kind {t : Token} {k : Kind} (hk : t.kind = k) (hs : k.spelling? = none)
    (hn : k ≠ .identifier) : t.Proper := by
  refine ⟨fun text ht => ?_, fun h => absurd (hk.symm.trans h) hn⟩
  rw [hk, hs] at ht
  cases ht

end Token

namespace Lexeme

variable (span : Span)

theorem spelling?_of_mem_operators :
    ∀ entry ∈ operators, entry.2.spelling? = some (String.ofList entry.1) := by
  decide

theorem spelling?_of_mem_keywords :
    ∀ entry ∈ keywords, entry.2.spelling? = some entry.1 := by
  decide

theorem mem_keywords_of_lookup {word : String} {k : Kind} (h : keywords.lookup word = some k) :
    (word, k) ∈ keywords := by
  obtain ⟨before, behind, hsplit, -⟩ := List.lookup_eq_some_iff.mp h
  rw [hsplit]
  exact List.mem_append_right _ List.mem_cons_self

theorem proper_ofOperator? {cs : List Char} {lexeme : Lexeme} (h : ofOperator? cs = some lexeme) :
    Token.Proper ⟨lexeme.kind, lexeme.value, span⟩ := by
  obtain ⟨entry, hentry, rfl⟩ := Option.map_eq_some_iff.mp h
  have hmem := List.mem_of_find?_eq_some hentry
  exact Token.Is.proper ⟨rfl, spelling?_of_mem_operators entry hmem⟩

theorem proper_ofWord (cs : List Char) :
    Token.Proper ⟨(ofWord cs).kind, (ofWord cs).value, span⟩ := by
  have hkind : (ofWord cs).kind = (keywords.lookup (ofWord cs).value).getD .identifier := rfl
  cases hlookup : keywords.lookup (ofWord cs).value with
  | none =>
    rw [hlookup] at hkind
    exact Token.IsName.proper ⟨hkind, hlookup⟩
  | some k =>
    rw [hlookup] at hkind
    exact Token.Is.proper ⟨hkind, spelling?_of_mem_keywords _ (mem_keywords_of_lookup hlookup)⟩

theorem proper_cut (c : Char) (cs : List Char) :
    Token.Proper ⟨(cut c cs).kind, (cut c cs).value, span⟩ := by
  unfold cut
  split
  · exact Token.proper_of_kind (k := .string) rfl rfl (by decide)
  · split
    · rename_i lexeme h
      exact proper_ofOperator? span h
    · split
      · exact proper_ofWord span _
      · split
        · by_cases hpoint : '.' ∈ (ofNumber (c :: cs)).text
          · exact Token.proper_of_kind (k := .float) (if_pos hpoint) rfl (by decide)
          · exact Token.proper_of_kind (k := .int) (if_neg hpoint) rfl (by decide)
        · exact Token.proper_of_kind (k := .error) rfl rfl (by decide)

theorem ne_nil_of_mem_operators : ∀ entry ∈ operators, entry.1 ≠ [] := by
  decide

theorem isWordRest_of_isWordStart {c : Char} (h : isWordStart c = true) :
    isWordRest c = true := by
  simp only [isWordStart, isWordRest, Char.isAlphanum, Bool.or_eq_true] at h ⊢
  exact h.imp_left .inl

theorem toNat_of_isDigit {c : Char} (h : c.isDigit = true) : 48 ≤ c.toNat ∧ c.toNat ≤ 57 := by
  simp only [Char.isDigit, Bool.and_eq_true, decide_eq_true_eq] at h
  exact ⟨h.1, h.2⟩

/-- The capital letters stand before the others. -/
theorem toNat_of_isAlpha {c : Char} (h : c.isAlpha = true) : 65 ≤ c.toNat ∧ c.toNat ≤ 122 := by
  rcases Bool.or_eq_true_iff.mp h with hcapital | hsmall
  · have hlower : 65 ≤ c.toNat := (of_decide_eq_true hcapital).1
    have hupper : c.toNat ≤ 90 := (of_decide_eq_true hcapital).2
    omega
  · have hlower : 97 ≤ c.toNat := of_decide_eq_true (Bool.and_eq_true_iff.mp hsmall).1
    have hupper : c.toNat ≤ 122 := of_decide_eq_true (Bool.and_eq_true_iff.mp hsmall).2
    omega

theorem isWordStart_of_isDigit {c : Char} (h : c.isDigit = true) : isWordStart c = false := by
  have hdigit := toNat_of_isDigit h
  rw [Bool.eq_false_iff]
  intro hstart
  rcases Bool.or_eq_true_iff.mp hstart with hletter | hunderscore
  · have hletter := toNat_of_isAlpha hletter
    omega
  · rw [of_decide_eq_true hunderscore] at h
    cases h

/-- No operator begins as a string, a word or a numeral does. -/
theorem head_of_mem_operators {c : Char} {cs : List Char} {k : Kind}
    (h : (c :: cs, k) ∈ operators) : isWordStart c = false ∧ c.isDigit = false ∧ c ≠ '"' := by
  have hheads : (operators.all fun entry => entry.1.head?.all fun d =>
      !isWordStart d && !d.isDigit && d != '"') = true := by
    decide
  have hhead := List.all_eq_true.mp hheads _ h
  simpa [and_assoc] using hhead

theorem head_of_operator_isPrefix {entry : List Char × Kind} {c : Char} {cs : List Char}
    (hmem : entry ∈ operators) (hfront : entry.1 <+: c :: cs) :
    isWordStart c = false ∧ c.isDigit = false ∧ c ≠ '"' := by
  obtain ⟨text, k⟩ := entry
  obtain ⟨d, ds, rfl⟩ := List.exists_cons_of_ne_nil (ne_nil_of_mem_operators _ hmem)
  obtain ⟨rfl, -⟩ := List.cons_prefix_cons.mp hfront
  exact head_of_mem_operators hmem

/-- No blank is a letter, a digit or an underscore. -/
theorem isBlank_of_isWordRest {c : Char} (h : isWordRest c = true) : Text.isBlank c = false := by
  have hvisible : 48 ≤ c.toNat ∧ c.toNat ≤ 122 := by
    simp only [isWordRest, Char.isAlphanum, Bool.or_eq_true, decide_eq_true_eq] at h
    rcases h with (hletter | hdigit) | rfl
    · have hletter := toNat_of_isAlpha hletter
      omega
    · have hdigit := toNat_of_isDigit hdigit
      omega
    · decide
  simp [Text.isBlank, Text.blankRanges]
  omega

theorem isBlank_of_isDigit {c : Char} (h : c.isDigit = true) : Text.isBlank c = false :=
  isBlank_of_isWordRest (by simp [isWordRest, Char.isAlphanum, h])

/-- A run of characters of one class ends where none of them follows. -/
theorem span_run {p : Char → Bool} {run tail : List Char} (hrun : ∀ c ∈ run, p c = true)
    (htail : ∀ c ∈ tail.head?, p c = false) :
    (run ++ tail).takeWhile p = run ∧ (run ++ tail).dropWhile p = tail := by
  have hstop : tail.takeWhile p = [] ∧ tail.dropWhile p = tail := by
    cases tail with
    | nil => exact ⟨rfl, rfl⟩
    | cons c cs =>
      have hc := htail c rfl
      exact ⟨by rw [List.takeWhile_cons, hc]; rfl, by rw [List.dropWhile_cons, hc]; rfl⟩
  constructor
  · rw [List.takeWhile_append_of_pos hrun, hstop.1, List.append_nil]
  · rw [List.dropWhile_append_of_pos hrun, hstop.2]

theorem ofNumber_text_ne_nil {c : Char} (hc : c.isDigit = true) (cs : List Char) :
    (ofNumber (c :: cs)).text ≠ [] := by
  have hdigits : (c :: cs).takeWhile Char.isDigit ≠ [] := by
    rw [List.takeWhile_cons_of_pos hc]
    exact List.cons_ne_nil _ _
  rw [ofNumber]
  split
  · exact hdigits
  · exact List.append_ne_nil_of_left_ne_nil hdigits _
  · exact hdigits

/-- Every lexeme has a character. -/
theorem cut_text_ne_nil (c : Char) (cs : List Char) : (cut c cs).text ≠ [] := by
  unfold cut
  split
  · exact List.cons_ne_nil _ _
  · split
    · rename_i lexeme h
      obtain ⟨entry, hentry, rfl⟩ := Option.map_eq_some_iff.mp h
      exact ne_nil_of_mem_operators entry (List.mem_of_find?_eq_some hentry)
    · split
      · rename_i hword
        change (c :: cs).takeWhile isWordRest ≠ []
        rw [List.takeWhile_cons_of_pos (isWordRest_of_isWordStart hword)]
        exact List.cons_ne_nil _ _
      · split
        · rename_i hdigit
          exact ofNumber_text_ne_nil hdigit cs
        · exact List.cons_ne_nil _ _

end Lexeme

namespace Scanner

theorem proper_next (s : Scanner) : s.next.1.Proper := by
  rw [next]
  split
  rename_i offset rest _
  cases rest with
  | nil => exact Token.proper_of_kind (k := .eof) rfl rfl (by decide)
  | cons c cs => exact Lexeme.proper_cut _ c cs

theorem proper_run (s : Scanner) (limit : Nat) : ∀ t ∈ (s.run limit).1, t.Proper := by
  induction limit generalizing s with
  | zero =>
    intro t ht
    cases ht
  | succ limit ih =>
    intro t ht
    -- Either this token is the last one or the rest of the source goes on behind it.
    rw [run] at ht
    split at ht
    rename_i token behind hnext
    have htoken : token.Proper := by
      have h := s.proper_next
      rwa [hnext] at h
    split at ht
    · rwa [List.mem_singleton.mp ht]
    · rcases List.mem_cons.mp ht with rfl | ht
      · exact htoken
      · exact ih behind t ht

theorem length_skipLayout_le (inComment : Bool) (offset : Nat) (cs : List Char) :
    (skipLayout inComment offset cs).2.length ≤ cs.length := by
  induction cs generalizing inComment offset with
  | nil => exact Nat.le_refl _
  | cons c cs ih =>
    rw [skipLayout]
    repeat' split
    all_goals first
      | exact Nat.le_refl _
      | exact Nat.le_succ_of_le (ih _ _)

/-- A step that is not the last one takes a character. -/
theorem length_rest_next_lt (s : Scanner) (h : s.next.1.kind ≠ .eof) :
    s.next.2.rest.length < s.rest.length := by
  have hlayout := length_skipLayout_le false s.offset s.rest
  rw [next] at h ⊢
  split at h
  rename_i offset rest hskip
  rw [hskip] at hlayout
  cases rest with
  | nil => exact absurd rfl h
  | cons c cs =>
    have htext := List.length_pos_iff.mpr (Lexeme.cut_text_ne_nil c cs)
    simp only [List.length_drop, List.length_cons] at hlayout ⊢
    omega

theorem run_succ_of_eof {s : Scanner} (h : s.next.1.kind = .eof) (limit : Nat) :
    s.run (limit + 1) = ([s.next.1], s.next.2) := if_pos h

theorem run_succ {s : Scanner} (h : s.next.1.kind ≠ .eof) (limit : Nat) :
    s.run (limit + 1) = (s.next.1 :: (s.next.2.run limit).1, (s.next.2.run limit).2) := if_neg h

/-- With a step for every character and one more, the scanner reaches the end of the text. -/
theorem exists_run_eq_concat (s : Scanner) {limit : Nat} (h : s.rest.length < limit) :
    ∃ ts last, (s.run limit).1 = ts ++ [last] ∧ last.kind = .eof := by
  induction limit generalizing s with
  | zero => cases h
  | succ limit ih =>
    by_cases hend : s.next.1.kind = .eof
    · exact ⟨[], s.next.1, by rw [run_succ_of_eof hend, List.nil_append], hend⟩
    · have hnext := s.length_rest_next_lt hend
      obtain ⟨ts, last, hrun, hlast⟩ := ih s.next.2 (by omega)
      exact ⟨s.next.1 :: ts, last, by rw [run_succ hend, hrun, List.cons_append], hlast⟩

end Scanner

/-- The end of the text is the last token. -/
theorem exists_tokenize_eq_concat (source file : String) :
    ∃ ts last, (tokenize source file).1 = ts ++ [last] ∧ last.kind = .eof := by
  let scanner := Scanner.ofSource source file
  obtain ⟨ts, last, hrun, hlast⟩ := scanner.exists_run_eq_concat (Nat.lt_succ_self _)
  refine ⟨ts.filter (·.kind ≠ .error), last, ?_, hlast⟩
  change (scanner.run (scanner.rest.length + 1)).1.filter _ = _
  rw [hrun, List.filter_append]
  simp [hlast]

theorem proper_tokenize (source file : String) : ∀ t ∈ (tokenize source file).1, t.Proper := by
  intro t ht
  let scanner := Scanner.ofSource source file
  exact scanner.proper_run (scanner.rest.length + 1) t (List.mem_filter.mp ht).1

end Scriptlet

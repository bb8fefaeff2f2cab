import Mathlib.Data.List.TakeWhile
import Scriptlet.Proofs.Token.Coverage

/-!
The scanner cuts off the longest lexeme that its text begins with. It never compares lengths: the
rules are tried in a fixed order, and the first that applies is as good as any other. Digits before
two points are the one exception, since the points belong to a range.
-/
namespace Scriptlet

/-- What follows the opening quote of a string literal, with its ending. A backslash takes the
character behind it along. -/
inductive Lexeme.Inside (ending : List Char) : List Char → Prop
  | done : Inside ending ending
  | plain {c cs} : c ≠ '"' → c ≠ '\\' → Inside ending cs → Inside ending (c :: cs)
  | escape {c cs} : Inside ending cs → Inside ending ('\\' :: c :: cs)

/-- The lexemes of a kind. -/
inductive Kind.IsLexeme : Kind → List Char → Prop
  | operator {k text} : (text, k) ∈ Lexeme.operators → k.IsLexeme text
  | keyword {k word} : (word, k) ∈ Lexeme.keywords → k.IsLexeme word.toList
  | name {c cs} : Lexeme.isWordStart c = true → (∀ d ∈ cs, Lexeme.isWordRest d = true) →
    (∀ k, (String.ofList (c :: cs), k) ∉ Lexeme.keywords) → Kind.identifier.IsLexeme (c :: cs)
  | int {digits} : digits ≠ [] → (∀ d ∈ digits, d.isDigit = true) → Kind.int.IsLexeme digits
  | float {digits fraction} : digits ≠ [] → (∀ d ∈ digits, d.isDigit = true) →
    (∀ d ∈ fraction, d.isDigit = true) → Kind.float.IsLexeme (digits ++ '.' :: fraction)
  | closed {text} : Lexeme.Inside ['"'] text → Kind.string.IsLexeme ('"' :: text)
  /-- A literal that lacks its closing quote. A backslash may be left alone at its end. -/
  | unclosed {text} : Lexeme.Inside [] text ∨ Lexeme.Inside ['\\'] text →
    Kind.string.IsLexeme ('"' :: text)

/-- The text begins with this lexeme, and with no longer one. -/
structure Kind.IsLongest (k : Kind) (text rest : List Char) : Prop where
  lexeme : k.IsLexeme text
  front : text <+: rest
  longest : ∀ k' text', Kind.IsLexeme k' text' → text' <+: rest → text'.length ≤ text.length

namespace Lexeme

/-- The text begins with digits that two points follow. -/
structure BeginsRange (digits rest : List Char) : Prop where
  ne_nil : digits ≠ []
  isDigit : ∀ d ∈ digits, d.isDigit = true
  front : digits ++ ['.', '.'] <+: rest

/-- The kind and the text of the token that is due where this text is left. -/
inductive Due (rest : List Char) : Kind → List Char → Prop
  | longest {k text} : k.IsLongest text rest → (∀ digits, ¬BeginsRange digits rest) →
    Due rest k text
  | range {digits} : BeginsRange digits rest → Due rest .int digits
  | unrecognised {c} : (∀ k text, Kind.IsLexeme k text → ¬text <+: rest) → [c] <+: rest →
    Due rest .error [c]

section Tables

/-- An operator is not the beginning of one that is tried later. -/
theorem operators_pairwise : operators.Pairwise fun a b => ¬a.1 <+: b.1 := by
  decide

theorem kind_of_mem_operators : ∀ a ∈ operators, ∀ b ∈ operators, a.1 = b.1 → a.2 = b.2 := by
  decide

theorem lookup_of_mem_keywords : ∀ entry ∈ keywords, keywords.lookup entry.1 = some entry.2 := by
  decide

theorem isWord_of_mem_keywords : ∀ entry ∈ keywords,
    ∃ c cs, entry.1.toList = c :: cs ∧ isWordStart c = true ∧
      ∀ d ∈ cs, isWordRest d = true := by
  have hwords : (keywords.all fun entry =>
      entry.1.toList.head?.any isWordStart && entry.1.toList.all isWordRest) = true := by
    decide
  intro entry hentry
  have hword := List.all_eq_true.mp hwords entry hentry
  cases htext : entry.1.toList with
  | nil =>
    rw [htext] at hword
    cases hword
  | cons c cs =>
    rw [htext, Bool.and_eq_true, List.all_cons, Bool.and_eq_true] at hword
    exact ⟨c, cs, rfl, hword.1, List.all_eq_true.mp hword.2.2⟩

theorem not_mem_keywords {word : String} (h : keywords.lookup word = none) (k : Kind) :
    (word, k) ∉ keywords := by
  intro hmem
  rw [lookup_of_mem_keywords _ hmem] at h
  cases h

end Tables

end Lexeme

namespace Kind.IsLexeme

open Lexeme

variable {k k' : Kind} {text rest : List Char} {c : Char} {cs : List Char}

theorem ne_nil (h : k.IsLexeme text) : text ≠ [] := by
  cases h with
  | operator h => exact ne_nil_of_mem_operators _ h
  | keyword h =>
    obtain ⟨c, cs, htext, -⟩ := isWord_of_mem_keywords _ h
    rw [htext]
    exact List.cons_ne_nil _ _
  | name | closed | unclosed => exact List.cons_ne_nil _ _
  | int hne => exact hne
  | float => exact List.append_ne_nil_of_right_ne_nil _ (List.cons_ne_nil _ _)

/-- A lexeme has its first character from the text that it begins. -/
theorem exists_cons (h : k.IsLexeme text) (hfront : text <+: c :: cs) :
    ∃ text', text = c :: text' ∧ text' <+: cs := by
  obtain ⟨d, text', rfl⟩ := List.exists_cons_of_ne_nil h.ne_nil
  obtain ⟨rfl, htext'⟩ := List.cons_prefix_cons.mp hfront
  exact ⟨text', rfl, htext'⟩

/-- The first character of a lexeme tells what it is. -/
theorem head_cases (h : k.IsLexeme (c :: cs)) :
    (c :: cs, k) ∈ operators ∨
      (isWordStart c = true ∧ (∀ d ∈ cs, isWordRest d = true) ∧
        k = (keywords.lookup (String.ofList (c :: cs))).getD .identifier) ∨
      (c.isDigit = true ∧ ((k = .int ∧ ∀ d ∈ cs, d.isDigit = true) ∨
        k = .float ∧ ∃ digits fraction, cs = digits ++ '.' :: fraction ∧
          (∀ d ∈ digits, d.isDigit = true) ∧ ∀ d ∈ fraction, d.isDigit = true)) ∨
      (c = '"' ∧ k = .string ∧ (Inside ['"'] cs ∨ Inside [] cs ∨ Inside ['\\'] cs)) := by
  generalize htext : c :: cs = text at h
  cases h with
  | operator h => exact .inl h
  | @keyword k word h =>
    obtain ⟨d, ds, hword, hstart, hrest⟩ := isWord_of_mem_keywords _ h
    obtain ⟨rfl, rfl⟩ := List.cons.inj (htext.trans hword)
    refine .inr (.inl ⟨hstart, hrest, ?_⟩)
    rw [String.ofList_toList, lookup_of_mem_keywords _ h]
    rfl
  | name hc hcs hname =>
    obtain ⟨rfl, rfl⟩ := List.cons.inj htext
    refine .inr (.inl ⟨hc, hcs, ?_⟩)
    cases hlookup : keywords.lookup (String.ofList (c :: cs)) with
    | none => rfl
    | some k => exact absurd (mem_keywords_of_lookup hlookup) (hname k)
  | int _ h =>
    subst htext
    obtain ⟨hc, hcs⟩ := List.forall_mem_cons.mp h
    exact .inr (.inr (.inl ⟨hc, .inl ⟨rfl, hcs⟩⟩))
  | @float digits fraction hne h hfraction =>
    obtain ⟨d, digits, rfl⟩ := List.exists_cons_of_ne_nil hne
    obtain ⟨rfl, rfl⟩ := List.cons.inj htext
    obtain ⟨hc, hdigits⟩ := List.forall_mem_cons.mp h
    exact .inr (.inr (.inl ⟨hc, .inr ⟨rfl, digits, fraction, rfl, hdigits, hfraction⟩⟩))
  | closed h =>
    obtain ⟨rfl, rfl⟩ := List.cons.inj htext
    exact .inr (.inr (.inr ⟨rfl, rfl, .inl h⟩))
  | unclosed h =>
    obtain ⟨rfl, rfl⟩ := List.cons.inj htext
    exact .inr (.inr (.inr ⟨rfl, rfl, .inr h⟩))

theorem of_wordStart (h : k.IsLexeme (c :: cs)) (hc : isWordStart c = true) :
    (∀ d ∈ cs, isWordRest d = true) ∧
      k = (keywords.lookup (String.ofList (c :: cs))).getD .identifier := by
  rcases h.head_cases with h | ⟨-, h⟩ | ⟨hdigit, -⟩ | ⟨rfl, -⟩
  · rw [(head_of_mem_operators h).1] at hc
    cases hc
  · exact h
  · rw [isWordStart_of_isDigit hdigit] at hc
    cases hc
  · cases hc

theorem of_digit (h : k.IsLexeme (c :: cs)) (hc : c.isDigit = true) :
    (k = .int ∧ ∀ d ∈ cs, d.isDigit = true) ∨
      k = .float ∧ ∃ digits fraction, cs = digits ++ '.' :: fraction ∧
        (∀ d ∈ digits, d.isDigit = true) ∧ ∀ d ∈ fraction, d.isDigit = true := by
  rcases h.head_cases with h | ⟨hword, -⟩ | ⟨-, h⟩ | ⟨rfl, -⟩
  · rw [(head_of_mem_operators h).2.1] at hc
    cases hc
  · rw [isWordStart_of_isDigit hc] at hword
    cases hword
  · exact h
  · cases hc

theorem of_quote (h : k.IsLexeme ('"' :: cs)) :
    k = .string ∧ (Inside ['"'] cs ∨ Inside [] cs ∨ Inside ['\\'] cs) := by
  rcases h.head_cases with h | ⟨hword, -⟩ | ⟨hdigit, -⟩ | ⟨-, h⟩
  · exact absurd rfl (head_of_mem_operators h).2.2
  · cases hword
  · cases hdigit
  · exact h

/-- What begins neither a literal nor a word begins operators only. -/
theorem mem_operators (h : k.IsLexeme (c :: cs)) (hword : isWordStart c = false)
    (hdigit : c.isDigit = false) (hquote : c ≠ '"') : (c :: cs, k) ∈ operators := by
  rcases h.head_cases with h | ⟨h, -⟩ | ⟨h, -⟩ | ⟨h, -⟩
  · exact h
  · rw [hword] at h
    cases h
  · rw [hdigit] at h
    cases h
  · exact absurd h hquote

/-- A lexeme is of one kind. -/
theorem kind_unique (h : k.IsLexeme text) (h' : k'.IsLexeme text) : k = k' := by
  obtain ⟨c, cs, rfl⟩ := List.exists_cons_of_ne_nil h.ne_nil
  rcases h.head_cases with hop | ⟨hc, -, hk⟩ | ⟨hc, hnumber⟩ | ⟨rfl, hk, -⟩
  · obtain ⟨hword, hdigit, hquote⟩ := head_of_mem_operators hop
    exact kind_of_mem_operators _ hop _ (h'.mem_operators hword hdigit hquote) rfl
  · exact hk.trans (h'.of_wordStart hc).2.symm
  · have hpoint (digits fraction : List Char) :
        ¬∀ d ∈ digits ++ '.' :: fraction, d.isDigit = true := fun h =>
      absurd (h '.' (List.mem_append_right _ List.mem_cons_self)) (by decide)
    rcases hnumber with ⟨rfl, hdigits⟩ | ⟨rfl, digits, fraction, rfl, -⟩ <;>
      rcases h'.of_digit hc with ⟨rfl, hdigits'⟩ | ⟨rfl, digits', fraction', hcs, -⟩
    · rfl
    · rw [hcs] at hdigits
      exact absurd hdigits (hpoint _ _)
    · exact absurd hdigits' (hpoint _ _)
    · rfl
  · exact hk.trans h'.of_quote.1.symm

theorem ne_error (h : k.IsLexeme text) : k ≠ .error := by
  obtain ⟨c, cs, rfl⟩ := List.exists_cons_of_ne_nil h.ne_nil
  rcases h.head_cases with hop | ⟨-, -, hk⟩ | ⟨-, ⟨hk, -⟩ | ⟨hk, -⟩⟩ | ⟨-, hk, -⟩
  · exact ne_of_spelling? (spelling?_of_mem_operators _ hop) rfl
  · rw [hk]
    cases hlookup : keywords.lookup (String.ofList (c :: cs)) with
    | none => exact Kind.noConfusion
    | some k =>
      exact ne_of_spelling? (spelling?_of_mem_keywords _ (mem_keywords_of_lookup hlookup)) rfl
  · rw [hk]
    exact Kind.noConfusion
  · rw [hk]
    exact Kind.noConfusion
  · rw [hk]
    exact Kind.noConfusion

end Kind.IsLexeme

namespace Lexeme

open Kind

variable {c : Char} {cs rest : List Char}

section Strings

theorem toQuote_plain (hc : c ≠ '"') (hc' : c ≠ '\\') (cs : List Char) :
    toQuote (c :: cs) = (c :: (toQuote cs).1, (toQuote cs).2) := by
  rw [toQuote]
  · exact fun h => hc h
  · exact fun _ _ h => absurd h hc'

/-- The recursion of `toQuote`. A backslash that takes nothing along is a case of its own. -/
@[elab_as_elim]
theorem toQuote_induction {motive : List Char → Prop} (nil : motive [])
    (quote : ∀ cs, motive ('"' :: cs)) (lone : motive ['\\'])
    (escape : ∀ c cs, motive cs → motive ('\\' :: c :: cs))
    (plain : ∀ c cs, c ≠ '"' → c ≠ '\\' → motive cs → motive (c :: cs)) (cs : List Char) :
    motive cs := by
  fun_induction toQuote cs with
  | case1 => exact nil
  | case2 cs => exact quote cs
  | case3 c cs _ _ _ ih => exact escape c cs ih
  | case4 c cs hquote hescape _ _ _ ih =>
    by_cases hc : c = '\\'
    · cases cs with
      | nil => exact hc ▸ lone
      | cons d ds => exact absurd rfl (hescape d ds hc)
    · exact plain c cs hquote hc ih

/-- A string is cut off as a literal, with its closing quote or without one. -/
theorem inside_toQuote (cs : List Char) :
    Inside ['"'] ((toQuote cs).1 ++ (toQuote cs).2) ∨
      Inside [] ((toQuote cs).1 ++ (toQuote cs).2) ∨
      Inside ['\\'] ((toQuote cs).1 ++ (toQuote cs).2) := by
  induction cs using toQuote_induction with
  | nil => exact .inr (.inl .done)
  | quote cs => exact .inl .done
  | lone => exact .inr (.inr .done)
  | escape c cs ih => exact ih.imp .escape (.imp .escape .escape)
  | plain c cs hquote hc ih =>
    rw [toQuote_plain hquote hc]
    exact ih.imp (.plain hquote hc) (.imp (.plain hquote hc) (.plain hquote hc))

/-- No string literal goes beyond what is cut off, whatever it ends in. -/
theorem Inside.isPrefix {ending text : List Char} (h : Inside ending text)
    (hending : ending ∈ [['"'], [], ['\\']]) (hfront : text <+: cs) :
    text <+: (toQuote cs).1 ++ (toQuote cs).2 := by
  induction h generalizing cs with
  | done =>
    simp only [List.mem_cons, List.not_mem_nil, or_false] at hending
    rcases hending with rfl | rfl | rfl
    · obtain ⟨rest, rfl⟩ := hfront
      exact List.prefix_rfl
    · exact List.nil_prefix
    · obtain ⟨rest, rfl⟩ := hfront
      cases rest <;> exact List.cons_prefix_cons.mpr ⟨rfl, List.nil_prefix⟩
  | @plain c text hc hc' _ ih =>
    obtain ⟨rest, rfl⟩ := hfront
    rw [List.cons_append, toQuote_plain hc hc']
    exact List.cons_prefix_cons.mpr ⟨rfl, ih (List.prefix_append text rest)⟩
  | @escape c text _ ih =>
    obtain ⟨rest, rfl⟩ := hfront
    have htext := ih (List.prefix_append text rest)
    exact List.cons_prefix_cons.mpr ⟨rfl, List.cons_prefix_cons.mpr ⟨rfl, htext⟩⟩

theorem isLongest_ofString (cs : List Char) :
    Kind.string.IsLongest (ofString cs).text ('"' :: cs) where
  lexeme := (inside_toQuote cs).elim .closed .unclosed
  front := List.cons_prefix_cons.mpr ⟨rfl, toQuote_isPrefix cs⟩
  longest k text h hfront := by
    obtain ⟨text, rfl, hbehind⟩ := h.exists_cons hfront
    have htext : text <+: (toQuote cs).1 ++ (toQuote cs).2 := by
      rcases h.of_quote.2 with h | h | h <;> exact h.isPrefix (by decide) hbehind
    exact Nat.succ_le_succ htext.length_le

end Strings

section Operators

/-- The first operator in the table that the text begins with is the longest. -/
theorem isLongest_ofOperator? {lexeme : Lexeme} (h : ofOperator? (c :: cs) = some lexeme) :
    lexeme.kind.IsLongest lexeme.text (c :: cs) := by
  obtain ⟨entry, hentry, rfl⟩ := Option.map_eq_some_iff.mp h
  obtain ⟨hfront, before, behind, hsplit, hbefore⟩ := List.find?_eq_some_iff_append.mp hentry
  have hmem : entry ∈ operators := List.mem_of_find?_eq_some hentry
  rw [List.isPrefixOf_iff_prefix] at hfront
  refine ⟨.operator hmem, hfront, fun k text hlexeme htext => ?_⟩
  have hlexeme' : (text, k) ∈ operators := by
    obtain ⟨hword, hdigit, hquote⟩ := head_of_operator_isPrefix hmem hfront
    obtain ⟨text, rfl, -⟩ := hlexeme.exists_cons htext
    exact hlexeme.mem_operators hword hdigit hquote
  -- The entries before this one do not fit, and those behind it do not continue it.
  rw [hsplit] at hlexeme'
  rcases List.mem_append.mp hlexeme' with hbefore' | hbehind
  · have hno := hbefore _ hbefore'
    rw [List.isPrefixOf_iff_prefix.mpr htext] at hno
    cases hno
  · rcases List.mem_cons.mp hbehind with rfl | hbehind
    · exact Nat.le_refl _
    · have hpairwise := operators_pairwise
      rw [hsplit, List.pairwise_append, List.pairwise_cons] at hpairwise
      have hno := hpairwise.2.1.1 _ hbehind
      have hshorter := (List.prefix_or_prefix_of_prefix hfront htext).resolve_left hno
      exact hshorter.length_le

end Operators

section Words

theorem isLongest_ofWord (hc : isWordStart c = true) :
    (ofWord (c :: cs)).kind.IsLongest (ofWord (c :: cs)).text (c :: cs) := by
  have htext : (ofWord (c :: cs)).text = c :: cs.takeWhile isWordRest :=
    List.takeWhile_cons_of_pos (isWordRest_of_isWordStart hc)
  refine ⟨?_, List.takeWhile_prefix _, fun k text h hfront => ?_⟩
  · have hkind : (ofWord (c :: cs)).kind =
        (keywords.lookup (String.ofList (ofWord (c :: cs)).text)).getD .identifier := rfl
    rw [hkind]
    cases hlookup : keywords.lookup (String.ofList (ofWord (c :: cs)).text) with
    | none =>
      rw [htext] at hlookup ⊢
      exact .name hc (fun d hd => List.mem_takeWhile_imp hd) (not_mem_keywords hlookup)
    | some k =>
      have hword : k.IsLexeme (String.ofList (ofWord (c :: cs)).text).toList :=
        .keyword (mem_keywords_of_lookup hlookup)
      rwa [String.toList_ofList] at hword
  · obtain ⟨text, rfl, more, rfl⟩ := h.exists_cons hfront
    rw [htext, List.takeWhile_append_of_pos (h.of_wordStart hc).1, List.length_cons,
      List.length_cons, List.length_append]
    omega

end Words

section Numbers

variable {digits tail digits' tail' : List Char}

/-- Where the digits end is fixed by the text. -/
theorem digits_unique (hdigits : ∀ d ∈ digits, d.isDigit = true)
    (htail : ∀ d ∈ tail.head?, d.isDigit = false) (hdigits' : ∀ d ∈ digits', d.isDigit = true)
    (htail' : ∀ d ∈ tail'.head?, d.isDigit = false) (h : digits ++ tail = digits' ++ tail') :
    digits = digits' ∧ tail = tail' := by
  obtain ⟨htake, hdrop⟩ := span_run hdigits htail
  obtain ⟨htake', hdrop'⟩ := span_run hdigits' htail'
  rw [h] at htake hdrop
  exact ⟨htake.symm.trans htake', hdrop.symm.trans hdrop'⟩

theorem exists_digits (hc : c.isDigit = true) (cs : List Char) :
    ∃ digits tail, c :: cs = digits ++ tail ∧ digits ≠ [] ∧ (∀ d ∈ digits, d.isDigit = true) ∧
      ∀ d ∈ tail.head?, d.isDigit = false := by
  refine ⟨_, _, List.takeWhile_append_dropWhile.symm, ?_, fun d => List.mem_takeWhile_imp, ?_⟩
  · rw [List.takeWhile_cons_of_pos hc]
    exact List.cons_ne_nil _ _
  · intro d hd
    have hnot := List.head?_dropWhile_not Char.isDigit (c :: cs)
    rw [hd] at hnot
    exact hnot

theorem BeginsRange.tail_eq (h : BeginsRange digits' (digits ++ tail))
    (hdigits : ∀ d ∈ digits, d.isDigit = true) (htail : ∀ d ∈ tail.head?, d.isDigit = false) :
    digits' = digits ∧ ['.', '.'] <+: tail := by
  obtain ⟨more, hmore⟩ := h.front
  rw [List.append_assoc] at hmore
  have hpoint : ∀ d ∈ (['.', '.'] ++ more).head?, d.isDigit = false := by
    rintro d ⟨⟩
    rfl
  obtain ⟨heq, hrest⟩ := digits_unique h.isDigit hpoint hdigits htail hmore
  exact ⟨heq, more, hrest⟩

/-- What numerals a text can begin with. -/
theorem numeral_cases {k : Kind} {text : List Char} (h : k.IsLexeme text)
    (hfront : text <+: digits ++ tail) (hne : digits ≠ [])
    (hdigits : ∀ d ∈ digits, d.isDigit = true) (htail : ∀ d ∈ tail.head?, d.isDigit = false) :
    text.length ≤ digits.length ∨ ∃ fraction, text = digits ++ '.' :: fraction ∧
      (∀ d ∈ fraction, d.isDigit = true) ∧ '.' :: fraction <+: tail := by
  obtain ⟨c, cs, rfl⟩ := List.exists_cons_of_ne_nil hne
  have hc := hdigits c List.mem_cons_self
  obtain ⟨text, rfl, -⟩ := h.exists_cons hfront
  obtain ⟨more, hmore⟩ := hfront
  rcases h.of_digit hc with ⟨-, htext⟩ | ⟨-, ds, fraction, rfl, hds, hfraction⟩
  · left
    have htake := (span_run hdigits htail).1
    have hall : ∀ d ∈ c :: text, d.isDigit = true := List.forall_mem_cons.mpr ⟨hc, htext⟩
    rw [← hmore, List.takeWhile_append_of_pos hall] at htake
    rw [← htake, List.length_append]
    exact Nat.le_add_right _ _
  · right
    have hall : ∀ d ∈ c :: ds, d.isDigit = true := List.forall_mem_cons.mpr ⟨hc, hds⟩
    have hpoint : ∀ d ∈ ('.' :: (fraction ++ more)).head?, d.isDigit = false := by
      rintro d ⟨⟩
      rfl
    have hsplit : (c :: ds) ++ '.' :: (fraction ++ more) = c :: cs ++ tail := by
      rw [← hmore]
      simp
    obtain ⟨heq, rfl⟩ := digits_unique hall hpoint hdigits htail hsplit
    refine ⟨fraction, by rw [← heq]; rfl, hfraction, more, rfl⟩

/-- What is cut off a text that begins with digits, by what stands behind them. -/
theorem ofNumber_digits (hdigits : ∀ d ∈ digits, d.isDigit = true)
    (htail : ∀ d ∈ tail.head?, d.isDigit = false) :
    (∃ more, tail = '.' :: '.' :: more ∧ (ofNumber (digits ++ tail)).kind = .int ∧
        (ofNumber (digits ++ tail)).text = digits) ∨
      (∃ more, tail = '.' :: more ∧ more.head? ≠ some '.' ∧
        (ofNumber (digits ++ tail)).kind = .float ∧
        (ofNumber (digits ++ tail)).text = digits ++ '.' :: more.takeWhile Char.isDigit) ∨
      tail.head? ≠ some '.' ∧ (ofNumber (digits ++ tail)).kind = .int ∧
        (ofNumber (digits ++ tail)).text = digits := by
  obtain ⟨htake, hdrop⟩ := span_run hdigits htail
  have hpoint : '.' ∉ digits := fun h => absurd (hdigits '.' h) (by decide)
  rw [ofNumber, htake, hdrop]
  split
  · rename_i more
    exact .inl ⟨more, rfl, if_neg hpoint, rfl⟩
  · rename_i more hmore
    refine .inr (.inl ⟨more, rfl, ?_, if_pos (List.mem_append_right _ List.mem_cons_self), rfl⟩)
    intro hhead
    obtain ⟨rest, rfl⟩ := List.head?_eq_some_iff.mp hhead
    exact hmore rest rfl
  · rename_i hnone
    refine .inr (.inr ⟨?_, if_neg hpoint, rfl⟩)
    intro hhead
    obtain ⟨rest, rfl⟩ := List.head?_eq_some_iff.mp hhead
    exact hnone rest rfl

theorem due_ofNumber (hc : c.isDigit = true) (cs : List Char) :
    Due (c :: cs) (ofNumber (c :: cs)).kind (ofNumber (c :: cs)).text := by
  obtain ⟨digits, tail, hsplit, hne, hdigits, htail⟩ := exists_digits hc cs
  rw [hsplit]
  rcases ofNumber_digits hdigits htail with ⟨more, rfl, hkind, htext⟩ |
    ⟨more, rfl, hmore, hkind, htext⟩ | ⟨hpoint, hkind, htext⟩ <;> rw [hkind, htext]
  · exact .range ⟨hne, hdigits, more, by simp⟩
  · refine .longest ⟨.float hne hdigits fun d => List.mem_takeWhile_imp, ?_, ?_⟩ ?_
    · have hfraction := List.takeWhile_prefix Char.isDigit (l := more)
      exact (List.prefix_append_right_inj _).mpr (List.cons_prefix_cons.mpr ⟨rfl, hfraction⟩)
    · intro k text h hfront
      rcases numeral_cases h hfront hne hdigits htail with hshort | ⟨fraction, rfl, hall, hbegins⟩
      · rw [List.length_append]
        omega
      · obtain ⟨rest, rfl⟩ := (List.cons_prefix_cons.mp hbegins).2
        rw [List.takeWhile_append_of_pos hall, List.length_append, List.length_append,
          List.length_cons, List.length_cons, List.length_append]
        omega
    · intro digits' hrange
      obtain ⟨rest, rfl⟩ := (List.cons_prefix_cons.mp (hrange.tail_eq hdigits htail).2).2
      exact hmore rfl
  · refine .longest ⟨.int hne hdigits, List.prefix_append _ _, ?_⟩ ?_
    · intro k text h hfront
      rcases numeral_cases h hfront hne hdigits htail with hshort | ⟨fraction, -, -, rest, rfl⟩
      · exact hshort
      · exact absurd rfl hpoint
    · intro digits' hrange
      obtain ⟨rest, rfl⟩ := (hrange.tail_eq hdigits htail).2
      exact hpoint rfl

end Numbers

theorem BeginsRange.isDigit_head {digits : List Char} (h : BeginsRange digits (c :: cs)) :
    c.isDigit = true := by
  obtain ⟨d, ds, rfl⟩ := List.exists_cons_of_ne_nil h.ne_nil
  have hd := h.isDigit d List.mem_cons_self
  rwa [(List.cons_prefix_cons.mp h.front).1] at hd

/-- What is cut off is due. -/
theorem due_cut (c : Char) (cs : List Char) :
    Due (c :: cs) (cut c cs).kind (cut c cs).text := by
  have hrange (hc : ¬c.isDigit = true) (digits : List Char) : ¬BeginsRange digits (c :: cs) :=
    fun h => hc h.isDigit_head
  -- In the order in which they are tried: a literal, an operator, a word, a numeral. Only a numeral
  -- can begin a range.
  unfold cut
  split
  · rename_i hquote
    subst hquote
    exact .longest (isLongest_ofString cs) (hrange (by decide))
  · rename_i hquote
    split
    · rename_i lexeme h
      refine .longest (isLongest_ofOperator? h) (hrange ?_)
      have hdigit : c.isDigit = false := by
        obtain ⟨entry, hentry, -⟩ := Option.map_eq_some_iff.mp h
        have hfront := List.find?_some hentry
        exact (head_of_operator_isPrefix (List.mem_of_find?_eq_some hentry)
          (List.isPrefixOf_iff_prefix.mp hfront)).2.1
      rw [hdigit]
      exact Bool.false_ne_true
    · rename_i hoperator
      split
      · rename_i hword
        refine .longest (isLongest_ofWord hword) (hrange fun hdigit => ?_)
        rw [isWordStart_of_isDigit hdigit] at hword
        cases hword
      · rename_i hword
        split
        · rename_i hdigit
          exact due_ofNumber hdigit cs
        · rename_i hdigit
          -- A lexeme with no quote, letter or digit in front is an operator, and none is found.
          refine .unrecognised (fun k text h hfront => ?_) ⟨cs, rfl⟩
          obtain ⟨text, rfl, -⟩ := h.exists_cons hfront
          have hmem := h.mem_operators (Bool.eq_false_iff.mpr hword) (Bool.eq_false_iff.mpr hdigit)
            hquote
          rw [ofOperator?, Option.map_eq_none_iff, List.find?_eq_none] at hoperator
          exact hoperator _ hmem (List.isPrefixOf_iff_prefix.mpr hfront)

/-- Only one token is due. -/
theorem Due.unique {k k' : Kind} {text text' : List Char} (h : Due rest k text)
    (h' : Due rest k' text') : k' = k ∧ text' = text := by
  have hdigits {digits : List Char} (hrange : BeginsRange digits rest) :
      Kind.int.IsLexeme digits ∧ digits <+: rest :=
    ⟨.int hrange.ne_nil hrange.isDigit, (List.prefix_append _ _).trans hrange.front⟩
  cases h with
  | longest h hno =>
    cases h' with
    | longest h' _ =>
      -- Each is at most as long as the other, and both are what the text begins with.
      have hlength := h.longest _ _ h'.lexeme h'.front
      have hprefix := List.prefix_of_prefix_length_le h'.front h.front hlength
      have htext : text' = text := hprefix.eq_of_length_le (h'.longest _ _ h.lexeme h.front)
      subst htext
      exact ⟨h'.lexeme.kind_unique h.lexeme, rfl⟩
    | range hrange => exact absurd hrange (hno _)
    | unrecognised hnone => exact absurd h.front (hnone _ _ h.lexeme)
  | range h =>
    cases h' with
    | longest _ hno => exact absurd h (hno _)
    | range h' =>
      obtain ⟨more, rfl⟩ := h.front
      have hpoint : ∀ d ∈ (['.', '.'] ++ more).head?, d.isDigit = false := by
        rintro d ⟨⟩
        rfl
      rw [List.append_assoc] at h'
      exact ⟨rfl, (h'.tail_eq h.isDigit hpoint).1⟩
    | unrecognised hnone => exact absurd (hdigits h).2 (hnone _ _ (hdigits h).1)
  | @unrecognised c hnone hc =>
    cases h' with
    | longest h' _ => exact absurd h'.front (hnone _ _ h'.lexeme)
    | range h' => exact absurd (hdigits h').2 (hnone _ _ (hdigits h').1)
    | unrecognised _ hc' =>
      obtain ⟨more, rfl⟩ := hc
      exact ⟨rfl, congrArg (fun d => [d]) (List.cons_prefix_cons.mp hc').1⟩

end Lexeme

namespace Scanner

open Lexeme

/-- Where neither a blank nor a comment stands, the next token covers the longest lexeme and is of
its kind. Only of digits that two points follow no more is taken, and a character that begins no
lexeme is an error. -/
theorem next_covers_longest {source file : String} {before : List Char} {s : Scanner}
    (h : s.Behind source file before) (hlexeme : AtLexeme s.rest) :
    ∃ text, s.next.1.Stands file before text ∧ s.next.2.Behind source file (before ++ text) ∧
      (source.utf8ByteSize < 0x100000000 →
        s.next.1.span = ⟨⟨Text.size before, file⟩, ⟨Text.size (before ++ text), file⟩⟩) ∧
      ∀ k text', Due s.rest k text' ↔ k = s.next.1.kind ∧ text' = text := by
  have hskip := skipLayout_lexeme hlexeme s.offset
  rw [h.offset_eq] at hskip
  cases hrest : s.rest with
  | nil =>
    rw [hrest] at hlexeme
    exact absurd hlexeme id
  | cons c cs =>
    have hsplit : s.rest = [] ++ c :: cs := hrest
    have hplace : skipLayout false s.offset s.rest = (Text.size (before ++ []), c :: cs) := by
      rw [h.offset_eq, hskip, hrest, List.append_nil]
    obtain ⟨hkind, -, hstands, hbehind⟩ := next_stands h hsplit hplace
    have hdue := due_cut c cs
    rw [List.append_nil] at hstands hbehind
    rw [hkind]
    refine ⟨_, hstands, hbehind, fun hsize => hstands.span_eq_of_lt ?_, fun k text' =>
      ⟨hdue.unique, ?_⟩⟩
    · have hall := congrArg Text.size hbehind.split
      rw [Text.size_toList, Text.size_append] at hall
      omega
    · rintro ⟨rfl, rfl⟩
      exact hdue

/-- The longest lexeme would be `1.`, but the points belong together. -/
theorem next_covers_longest_range :
    let s := ofSource "1..5" "f"
    s.Behind "1..5" "f" [] ∧ AtLexeme s.rest ∧ s.next.1.Stands "f" [] ['1'] ∧
      s.next.2.Behind "1..5" "f" ['1'] ∧ s.next.1.span = ⟨⟨0, "f"⟩, ⟨1, "f"⟩⟩ ∧
      ∀ k text, Due s.rest k text ↔ k = .int ∧ text = ['1'] := by
  intro s
  have hbehind := behind_ofSource "1..5" "f"
  have hlexeme : AtLexeme s.rest := ⟨by decide, by decide⟩
  have hkind : s.next.1.kind = .int := by decide
  obtain ⟨text, hstands, hnext, hspan, hdue⟩ := next_covers_longest hbehind hlexeme
  have hdigit : ∀ d ∈ ['1'], d.isDigit = true := List.forall_mem_singleton.mpr (by decide)
  have hrange : Due s.rest .int ['1'] := .range ⟨by decide, hdigit, ['5'], rfl⟩
  obtain ⟨-, rfl⟩ := (hdue _ _).mp hrange
  rw [hkind] at hdue
  exact ⟨hbehind, hlexeme, hstands, hnext, hspan (by decide), hdue⟩

/-- Behind so many blanks that 32 bits cannot count them, the span is that of another text: the name
at the end of the source has the place of the first blank. -/
theorem next_span_wraps :
    let blanks := List.replicate 0x100000000 ' '
    let s : Scanner := ⟨String.ofList (blanks ++ ['a']), ['a'], 0x100000000, "f", []⟩
    s.Behind (String.ofList (blanks ++ ['a'])) "f" blanks ∧ AtLexeme s.rest ∧
      s.next.1.span = ⟨⟨0, "f"⟩, ⟨1, "f"⟩⟩ ∧
      ¬∃ text, s.next.1.span = ⟨⟨Text.size blanks, "f"⟩, ⟨Text.size (blanks ++ text), "f"⟩⟩ := by
  intro blanks s
  have hsize : Text.size blanks = 0x100000000 := Text.size_replicate_space _
  have hlexeme : AtLexeme ['a'] := ⟨by decide, by decide⟩
  have hspan : s.next.1.span = ⟨⟨0, "f"⟩, ⟨1, "f"⟩⟩ := by
    have hcut : (cut 'a' []).text = ['a'] := by decide
    rw [next, skipLayout_lexeme hlexeme]
    simp only [hcut, position]
    decide
  refine ⟨⟨rfl, rfl, String.toList_ofList, hsize.symm⟩, hlexeme, hspan, ?_⟩
  rintro ⟨text, htext⟩
  have hstart := congrArg (·.start.offset) (hspan.symm.trans htext)
  rw [hsize] at hstart
  cases hstart

end Scanner

end Scriptlet

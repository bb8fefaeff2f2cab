import Scriptlet.Proofs.Token.Longest

/-!
How far the scanner looks ahead. Where a lexeme ends depends on the first character behind it, and
for digits on whether two points stand there. So the lexeme stays what it is if the text behind it
is exchanged for one that begins alike, or with a blank. Only a string that lacks its final quote
takes all there is.
-/
namespace Scriptlet

namespace Lexeme

/-- A lexeme that ends before the first text ends before the second: that one begins with a blank,
if with anything, or it begins as the first one does. -/
inductive EndsLike (rest : List Char) : List Char → Prop
  | gap {rest'} : (∀ c ∈ rest'.head?, Text.isBlank c = true) → EndsLike rest rest'
  | same {rest'} : rest'.head? = rest.head? → (['.', '.'] <+: rest → ['.', '.'] <+: rest') →
      EndsLike rest rest'

variable {c : Char} {cs text rest rest' : List Char}

namespace EndsLike

/-- What is no blank follows only if it did before. -/
theorem head?_eq_some (h : EndsLike rest rest') (hc : Text.isBlank c = false)
    (hrest' : rest'.head? = some c) : rest.head? = some c := by
  cases h with
  | gap hgap =>
    rw [hgap c hrest'] at hc
    cases hc
  | same hhead _ => rw [← hhead, hrest']

theorem not_of_head? (h : EndsLike rest rest') {p : Char → Bool}
    (hp : ∀ c, p c = true → Text.isBlank c = false) (hrest : ∀ c ∈ rest.head?, p c = false) :
    ∀ c ∈ rest'.head?, p c = false := by
  intro c hc
  rw [Bool.eq_false_iff]
  intro htrue
  have hfalse := hrest c (h.head?_eq_some (hp c htrue) hc)
  rw [htrue] at hfalse
  cases hfalse

end EndsLike

section Strings

/-- A literal that is closed ends at its quote, whatever follows. -/
theorem toQuote_append (h : (toQuote cs).2 ≠ []) (tail : List Char) :
    toQuote ((toQuote cs).1 ++ (toQuote cs).2 ++ tail) = toQuote cs := by
  induction cs using toQuote_induction with
  | nil | lone => exact absurd rfl h
  | quote => rfl
  | escape c cs ih =>
    change toQuote ('\\' :: c :: ((toQuote cs).1 ++ (toQuote cs).2 ++ tail)) = _
    rw [toQuote, ih h]
    rfl
  | plain c cs hquote hc ih =>
    rw [toQuote_plain hquote hc] at h ⊢
    rw [List.cons_append, List.cons_append, toQuote_plain hquote hc, ih h]

/-- A literal that is left open takes all there is. -/
theorem toQuote_open (h : (toQuote cs).2 = []) : (toQuote cs).1 = cs := by
  induction cs using toQuote_induction with
  | nil | lone => rfl
  | quote => cases h
  | escape c cs ih => exact congrArg (fun inside => '\\' :: c :: inside) (ih h)
  | plain c cs hquote hc ih =>
    rw [toQuote_plain hquote hc] at h ⊢
    exact congrArg (c :: ·) (ih h)

theorem ofString_congr (htext : (ofString (text ++ rest)).text = '"' :: text)
    (hclosed : (ofString (text ++ rest)).closed = true) (rest' : List Char) :
    ofString (text ++ rest') = ofString (text ++ rest) := by
  have hquote : (toQuote (text ++ rest)).2 ≠ [] := by
    intro hnil
    change (!(toQuote (text ++ rest)).2.isEmpty) = true at hclosed
    rw [hnil] at hclosed
    cases hclosed
  have hsplit : (toQuote (text ++ rest)).1 ++ (toQuote (text ++ rest)).2 = text :=
    (List.cons.inj htext).2
  have hcut : toQuote (text ++ rest') = toQuote (text ++ rest) := by
    have happend := toQuote_append hquote rest'
    rwa [hsplit] at happend
  rw [ofString, hcut, ofString]

end Strings

section Operators

theorem length_le_of_mem_operators : ∀ entry ∈ operators, entry.1.length ≤ 2 := by
  decide

theorem isBlank_of_mem_operators :
    ∀ entry ∈ operators, ∀ c ∈ entry.1, Text.isBlank c = false := by
  have hsymbols : (operators.all fun entry => entry.1.all (!Text.isBlank ·)) = true := by
    decide
  intro entry hentry c hc
  have hblank := List.all_eq_true.mp (List.all_eq_true.mp hsymbols entry hentry) c hc
  simpa using hblank

/-- No operator fits that did not fit before: it could reach into what follows with its second
character only, which is no blank. -/
theorem isPrefix_of_endsLike {entry : List Char × Kind} (hentry : entry ∈ operators)
    (hrest : EndsLike rest rest') (hfront : entry.1 <+: c :: (text ++ rest')) :
    entry.1 <+: c :: (text ++ rest) := by
  have hlength := length_le_of_mem_operators entry hentry
  have hblank := isBlank_of_mem_operators entry hentry
  obtain ⟨symbols, k⟩ := entry
  match symbols, hlength with
  | [], _ => exact List.nil_prefix
  | [d], _ =>
    obtain ⟨rfl, -⟩ := List.cons_prefix_cons.mp hfront
    exact List.cons_prefix_cons.mpr ⟨rfl, List.nil_prefix⟩
  | [d, e], _ =>
    obtain ⟨rfl, hsecond⟩ := List.cons_prefix_cons.mp hfront
    refine List.cons_prefix_cons.mpr ⟨rfl, ?_⟩
    cases text with
    | nil =>
      have he : Text.isBlank e = false := hblank e (by simp)
      have hhead : rest'.head? = some e := by
        obtain ⟨more, hmore⟩ := hsecond
        rw [List.nil_append] at hmore
        rw [← hmore]
        rfl
      obtain ⟨more, rfl⟩ := List.head?_eq_some_iff.mp (hrest.head?_eq_some he hhead)
      exact ⟨more, rfl⟩
    | cons f fs =>
      obtain ⟨rfl, -⟩ := List.cons_prefix_cons.mp hsecond
      exact List.cons_prefix_cons.mpr ⟨rfl, List.nil_prefix⟩

theorem ofOperator?_congr (hrest : EndsLike rest rest')
    (htext : ∀ lexeme, ofOperator? (c :: (text ++ rest)) = some lexeme → lexeme.text = c :: text) :
    ofOperator? (c :: (text ++ rest')) = ofOperator? (c :: (text ++ rest)) := by
  have hfits (entry : List Char × Kind) (hentry : entry ∈ operators)
      (hno : entry.1.isPrefixOf (c :: (text ++ rest)) = false) :
      entry.1.isPrefixOf (c :: (text ++ rest')) = false := by
    rw [Bool.eq_false_iff, ne_eq, List.isPrefixOf_iff_prefix] at hno ⊢
    exact fun hfront => hno (isPrefix_of_endsLike hentry hrest hfront)
  cases hfind : operators.find? fun op => op.1.isPrefixOf (c :: (text ++ rest)) with
  | none =>
    have hnone : (operators.find? fun op => op.1.isPrefixOf (c :: (text ++ rest'))) = none := by
      rw [List.find?_eq_none] at hfind ⊢
      intro entry hentry
      rw [hfits entry hentry (Bool.eq_false_iff.mpr (hfind entry hentry))]
      exact Bool.false_ne_true
    rw [ofOperator?, hnone, ofOperator?, hfind]
  | some entry =>
    have hown : entry.1 = c :: text := htext _ (by rw [ofOperator?, hfind]; rfl)
    obtain ⟨-, before, behind, hsplit, hbefore⟩ := List.find?_eq_some_iff_append.mp hfind
    -- The entries before this one still do not fit, and its own text has not changed.
    have hsome :
        (operators.find? fun op => op.1.isPrefixOf (c :: (text ++ rest'))) = some entry := by
      refine List.find?_eq_some_iff_append.mpr ⟨?_, before, behind, hsplit, fun e he => ?_⟩
      · rw [List.isPrefixOf_iff_prefix, hown]
        exact ⟨rest', rfl⟩
      · have hmem : e ∈ operators := by
          rw [hsplit]
          exact List.mem_append_left _ he
        rw [hfits e hmem (by simpa using hbefore e he)]
        rfl
    rw [ofOperator?, hsome, ofOperator?, hfind]

end Operators

section Runs

/-- A run that is taken from a text goes no further. -/
theorem not_head?_of_takeWhile {p : Char → Bool} (h : (text ++ rest).takeWhile p = text) :
    ∀ c ∈ rest.head?, p c = false := by
  intro c hc
  obtain ⟨more, rfl⟩ := List.head?_eq_some_iff.mp hc
  rw [Bool.eq_false_iff]
  intro hp
  have hrun : ∀ d ∈ text, p d = true := by
    intro d hd
    rw [← h] at hd
    exact List.mem_takeWhile_imp hd
  rw [List.takeWhile_append_of_pos hrun, List.takeWhile_cons_of_pos hp] at h
  exact List.cons_ne_nil _ _ (List.append_right_eq_self.mp h)

theorem ofWord_congr (hrest : EndsLike rest rest')
    (htext : (ofWord (c :: (text ++ rest))).text = c :: text) :
    ofWord (c :: (text ++ rest')) = ofWord (c :: (text ++ rest)) := by
  rw [← List.cons_append] at htext ⊢
  have htake : (c :: text ++ rest).takeWhile isWordRest = c :: text := htext
  have hrun : ∀ d ∈ c :: text, isWordRest d = true := by
    intro d hd
    rw [← htake] at hd
    exact List.mem_takeWhile_imp hd
  have hends := hrest.not_of_head? (fun _ => isBlank_of_isWordRest) (not_head?_of_takeWhile htake)
  rw [ofWord, ← List.cons_append, ofWord, htake, (span_run hrun hends).1]

theorem ofNumber_eq_of_text {cs ds : List Char} (h : (ofNumber cs).text = (ofNumber ds).text) :
    ofNumber cs = ofNumber ds := by
  have hown (es : List Char) : ofNumber es =
      { kind := if '.' ∈ (ofNumber es).text then .float else .int
        text := (ofNumber es).text
        value := String.ofList (ofNumber es).text } := rfl
  rw [hown cs, h, ← hown ds]

variable {digits fraction : List Char}

/-- Digits are taken alone where no point follows, or two. -/
theorem ofNumber_text_int (hdigits : ∀ d ∈ digits, d.isDigit = true)
    (hrest : ∀ d ∈ rest.head?, d.isDigit = false)
    (hpoint : rest.head? = some '.' → ['.', '.'] <+: rest) :
    (ofNumber (digits ++ rest)).text = digits := by
  rcases ofNumber_digits hdigits hrest with ⟨-, -, -, htext⟩ | ⟨more, rfl, hmore, -⟩ | ⟨-, -, htext⟩
  · exact htext
  · obtain ⟨after, hafter⟩ := (List.cons_prefix_cons.mp (hpoint rfl)).2
    rw [← hafter] at hmore
    exact absurd rfl hmore
  · exact htext

/-- A point is taken with the digits behind it if it stands alone. -/
theorem ofNumber_text_float (hdigits : ∀ d ∈ digits, d.isDigit = true)
    (hfraction : ∀ d ∈ fraction, d.isDigit = true) (hrest : ∀ d ∈ rest.head?, d.isDigit = false)
    (hpoint : (fraction ++ rest).head? ≠ some '.') :
    (ofNumber (digits ++ '.' :: (fraction ++ rest))).text = digits ++ '.' :: fraction := by
  have htail : ∀ d ∈ ('.' :: (fraction ++ rest)).head?, d.isDigit = false := by
    rintro d ⟨⟩
    rfl
  rcases ofNumber_digits hdigits htail with ⟨more, hmore, -⟩ | ⟨more, hmore, -, -, htext⟩ | ⟨h, -⟩
  · rw [(List.cons.inj hmore).2] at hpoint
    exact absurd rfl hpoint
  · rw [htext, ← (List.cons.inj hmore).2, (span_run hfraction hrest).1]
  · exact absurd rfl h

theorem ofNumber_congr (hc : c.isDigit = true) (hrest : EndsLike rest rest')
    (htext : (ofNumber (c :: (text ++ rest))).text = c :: text) :
    ofNumber (c :: (text ++ rest')) = ofNumber (c :: (text ++ rest)) := by
  apply ofNumber_eq_of_text
  obtain ⟨digits, tail, hsplit, -, hdigits, htail⟩ := exists_digits hc (text ++ rest)
  have hown : (ofNumber (digits ++ tail)).text = c :: text := hsplit ▸ htext
  rw [← List.cons_append] at hsplit ⊢
  rw [htext]
  rcases ofNumber_digits hdigits htail with ⟨more, rfl, -, hint⟩ |
    ⟨more, rfl, hmore, -, hfloat⟩ | ⟨hpoint, -, hint⟩
  -- A range behind the digits: the two points are still there.
  · obtain rfl : digits = c :: text := hint.symm.trans hown
    obtain rfl : rest = '.' :: '.' :: more := List.append_cancel_left hsplit
    refine ofNumber_text_int hdigits (hrest.not_of_head? (fun _ => isBlank_of_isDigit) htail) ?_
    intro hhead
    cases hrest with
    | gap hgap => cases hgap '.' hhead
    | same _ hrange => exact hrange ⟨more, rfl⟩
  · -- The fraction is what has been taken behind the point.
    have hfraction : ∀ d ∈ more.takeWhile Char.isDigit, d.isDigit = true :=
      fun d => List.mem_takeWhile_imp
    rw [← hown, hfloat, List.append_assoc] at hsplit ⊢
    have hmore' : more.takeWhile Char.isDigit ++ rest = more :=
      (List.cons.inj (List.append_cancel_left hsplit)).2
    have hrest' := hrest.not_of_head? (fun _ => isBlank_of_isDigit)
      (not_head?_of_takeWhile (congrArg (List.takeWhile Char.isDigit) hmore'))
    refine ofNumber_text_float hdigits hfraction hrest' fun hpoint => ?_
    cases hdigit : more.takeWhile Char.isDigit with
    | nil =>
      rw [hdigit, List.nil_append] at hpoint hmore'
      rw [← hmore'] at hmore
      exact hmore (hrest.head?_eq_some (by decide) hpoint)
    | cons d ds =>
      have hd := hfraction d (by rw [hdigit]; exact List.mem_cons_self)
      rw [hdigit] at hpoint
      cases hpoint
      cases hd
  · obtain rfl : digits = c :: text := hint.symm.trans hown
    obtain rfl : rest = tail := List.append_cancel_left hsplit
    refine ofNumber_text_int hdigits (hrest.not_of_head? (fun _ => isBlank_of_isDigit) htail) ?_
    exact fun hhead => absurd (hrest.head?_eq_some (by decide) hhead) hpoint

end Runs

/-- The lexeme stays what it is if what follows it is exchanged for a text that ends it as well. -/
theorem cut_congr (hrest : EndsLike rest rest') (htext : (cut c (text ++ rest)).text = c :: text)
    (hclosed : (cut c (text ++ rest)).closed = true) :
    cut c (text ++ rest') = cut c (text ++ rest) := by
  unfold cut at htext hclosed ⊢
  -- The rules are tried in their order, and one that did not apply does not apply now.
  by_cases hquote : c = '"'
  · subst hquote
    simp only [if_true] at htext hclosed ⊢
    exact ofString_congr htext hclosed rest'
  · simp only [if_neg hquote] at htext ⊢
    have hoperator : ofOperator? (c :: (text ++ rest')) = ofOperator? (c :: (text ++ rest)) := by
      refine ofOperator?_congr hrest fun lexeme hsome => ?_
      rwa [hsome] at htext
    rw [hoperator]
    cases hfind : ofOperator? (c :: (text ++ rest)) with
    | some lexeme => rfl
    | none =>
      rw [hfind] at htext
      by_cases hword : isWordStart c = true
      · simp only [if_pos hword] at htext ⊢
        exact ofWord_congr hrest htext
      · by_cases hdigit : c.isDigit = true
        · simp only [if_neg hword, if_pos hdigit] at htext ⊢
          exact ofNumber_congr hdigit hrest htext
        · simp only [if_neg hword, if_neg hdigit]

theorem closed_ofOperator? {lexeme : Lexeme} (h : ofOperator? cs = some lexeme) :
    lexeme.closed = true := by
  obtain ⟨entry, -, rfl⟩ := Option.map_eq_some_iff.mp h
  rfl

/-- Only a string is left open, and then it takes all there is. -/
theorem cut_of_open (h : (cut c cs).closed = false) :
    (cut c cs).kind = .string ∧ (cut c cs).text = c :: cs := by
  unfold cut at h ⊢
  split at h
  · rename_i hquote
    have hnone : (toQuote cs).2 = [] := by
      change (!(toQuote cs).2.isEmpty) = false at h
      simpa using h
    have htext : (ofString cs).text = '"' :: ((toQuote cs).1 ++ (toQuote cs).2) := rfl
    rw [if_pos hquote, htext, hnone, toQuote_open hnone, List.append_nil, hquote]
    exact ⟨rfl, rfl⟩
  · -- Every other lexeme is closed.
    split at h
    · rename_i lexeme hsome
      rw [closed_ofOperator? hsome] at h
      cases h
    · split at h
      · cases h
      · split at h <;> cases h

end Lexeme

end Scriptlet

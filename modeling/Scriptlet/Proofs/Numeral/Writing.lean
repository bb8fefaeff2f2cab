import Scriptlet.Proofs.Numeral.Digits
import Scriptlet.Proofs.Numeral.Rounding
import Scriptlet.Proofs.Token.Scanner

namespace Scriptlet

open Binary64

namespace Numeral

/-- The digits behind a point, and the text behind them. -/
def cutFraction : List Char → List Char × List Char
  | '.' :: rest => (rest.takeWhile Char.isDigit, rest.dropWhile Char.isDigit)
  | rest => ([], rest)

/-- The decimal that digits with a point and an exponent stand for, before it is rounded. -/
def scan? (cs : List Char) : Option Decimal := do
  let parts := cutFraction (cs.dropWhile Char.isDigit)
  let exponent ← exponent? parts.2
  let n ← natural? (cs.takeWhile Char.isDigit ++ parts.1)
  return ⟨n, exponent - parts.1.length⟩

/-- Reading a numeral is rounding what it stands for. -/
theorem decimal?_eq_scan? (negative : Bool) (cs : List Char) :
    decimal? negative cs = (scan? cs).map fun d => ofDecimal negative d.digits d.exponent := by
  rw [scan?]
  change (exponent? (cutFraction (cs.dropWhile Char.isDigit)).2).bind _ = _
  cases exponent? (cutFraction (cs.dropWhile Char.isDigit)).2 with
  | none => rfl
  | some exponent =>
    change (natural? (cs.takeWhile Char.isDigit ++ (cutFraction (cs.dropWhile Char.isDigit)).1)).bind
      _ = _
    cases natural? (cs.takeWhile Char.isDigit ++ (cutFraction (cs.dropWhile Char.isDigit)).1) <;> rfl

theorem toLower_of_isDigit {c : Char} (h : c.isDigit = true) : c.toLower = c := by
  have hdigit := Lexeme.toNat_of_isDigit h
  refine dif_neg ?_
  rintro ⟨hletter, -⟩
  have hletter : 65 ≤ c.toNat := hletter
  omega

/-- A magnitude that is rounded is at most the infinite one. -/
theorem magnitude_ofMagnitude_le (negative : Bool) (magnitude : Nat) :
    (Binary64.ofMagnitude negative magnitude).magnitude ≤ Binary64.infinity := by
  have hle : min magnitude Binary64.infinity ≤ Binary64.infinity := Nat.min_le_right _ _
  rw [Binary64.ofMagnitude, Binary64.magnitude, UInt64.toNat_ofNat']
  generalize min magnitude Binary64.infinity = m at hle
  simp only [Binary64.infinity, Binary64.exponentUnit, Binary64.signBit] at hle ⊢
  split <;> omega

/-- What begins with a digit is a number: infinity and what is no number have names. -/
theorem magnitude_le_of_binary64? {c : Char} {cs : List Char} (hc : c.isDigit = true)
    {x : Binary64} (h : binary64? (c :: cs) = some x) : x.magnitude ≤ Binary64.infinity := by
  have hsign : splitSign (c :: cs) = (false, c :: cs) := by
    rw [splitSign] <;> rintro _ ⟨⟩ <;> cases hc
  have hname {name : String} (heq : String.ofList ((c :: cs).map Char.toLower) = name) :
      ∀ d ∈ name.toList.head?, d.isDigit = true := by
    subst heq
    rw [String.toList_ofList]
    rintro _ ⟨⟩
    rwa [toLower_of_isDigit hc]
  rw [binary64?, hsign] at h
  dsimp only at h
  split at h
  · rename_i heq
    exact absurd (hname heq 'i' rfl) (by decide)
  · rename_i heq
    exact absurd (hname heq 'i' rfl) (by decide)
  · rename_i heq
    exact absurd (hname heq 'n' rfl) (by decide)
  · rw [decimal?_eq_scan?] at h
    obtain ⟨d, -, rfl⟩ := Option.map_eq_some_iff.mp h
    exact magnitude_ofMagnitude_le _ _

theorem natural?_of_digits {digits : List Char} (hne : digits ≠ [])
    (hdigits : ∀ c ∈ digits, c.isDigit = true) : natural? digits = some (value digits) := by
  rw [natural?, List.all_eq_true.mpr hdigits, List.isEmpty_eq_false_iff.mpr hne]
  rfl

theorem value_append (as bs : List Char) :
    value (as ++ bs) = 10 ^ bs.length * value as + value bs :=
  (Nat.ofDigitChars_append 0).trans Nat.ofDigitChars_eq_ofDigitChars_zero

theorem value_zeros (n : Nat) : value (zeros n) = 0 :=
  Nat.ofDigitChars_replicate_zero

theorem toList_toString_ofNat (n : Nat) : (toString (Int.ofNat n)).toList = Nat.toDigits 10 n :=
  toList_toString_nat n

theorem toList_toString_negSucc (n : Nat) :
    (toString (Int.negSucc n)).toList = '-' :: Nat.toDigits 10 (n + 1) := by
  rw [show toString (Int.negSucc n) = "-" ++ toString (n + 1) from rfl, String.toList_append,
    toList_toString_nat]
  rfl

/-- An integer is read back from its text. -/
theorem integer?_toString (n : Int) : integer? (toString n).toList = some n := by
  cases n with
  | ofNat n =>
    rw [toList_toString_ofNat, integer?_of_digits Nat.toDigits_ne_nil fun _ => isDigit_of_mem_toDigits, value_toDigits]
    rfl
  | negSucc n =>
    rw [toList_toString_negSucc, integer?, splitSign]
    dsimp only
    rw [natural?_of_digits Nat.toDigits_ne_nil fun _ => isDigit_of_mem_toDigits, value_toDigits]
    rfl

theorem mem_toString_int (n : Int) : ∀ c ∈ (toString n).toList, c.isDigit = true ∨ c = '-' := by
  intro c hc
  cases n with
  | ofNat n =>
    rw [toList_toString_ofNat] at hc
    exact .inl (isDigit_of_mem_toDigits hc)
  | negSucc n =>
    rw [toList_toString_negSucc] at hc
    rcases List.mem_cons.mp hc with rfl | hc
    · exact .inr rfl
    · exact .inl (isDigit_of_mem_toDigits hc)

theorem toString_int_ne_nil (n : Int) : (toString n).toList ≠ [] := by
  cases n with
  | ofNat n =>
    rw [toList_toString_ofNat]
    exact Nat.toDigits_ne_nil
  | negSucc n =>
    rw [toList_toString_negSucc]
    exact List.cons_ne_nil _ _

theorem toString_int64_inj {n k : Int64} (h : toString n = toString k) : n = k := by
  have hread := integer?_toString n.toInt
  rw [show toString n.toInt = toString n from rfl, h, show toString k = toString k.toInt from rfl,
    integer?_toString, Option.some.injEq] at hread
  exact Int64.toInt_inj.mp hread.symm

section Scanning

variable {whole fraction rest : List Char} {exponent : Int}

theorem scan?_point (hwhole : ∀ c ∈ whole, c.isDigit = true) (hne : whole ≠ [])
    (hfraction : ∀ c ∈ fraction, c.isDigit = true) (hrest : ∀ c ∈ rest.head?, c.isDigit = false)
    (hexponent : exponent? rest = some exponent) :
    scan? (whole ++ '.' :: (fraction ++ rest)) =
      some ⟨value (whole ++ fraction), exponent - fraction.length⟩ := by
  have hpoint : ∀ c ∈ ('.' :: (fraction ++ rest)).head?, c.isDigit = false := by
    rintro _ ⟨⟩
    rfl
  obtain ⟨htake, hdrop⟩ := Lexeme.span_run hwhole hpoint
  obtain ⟨htake', hdrop'⟩ := Lexeme.span_run hfraction hrest
  have hall : ∀ c ∈ whole ++ fraction, c.isDigit = true :=
    List.forall_mem_append.mpr ⟨hwhole, hfraction⟩
  rw [scan?, htake, hdrop, cutFraction, htake', hdrop']
  dsimp only
  rw [hexponent, natural?_of_digits (by simp [hne]) hall]
  rfl

/-- Without an exponent, the value is that of the digits behind the point taken together. -/
theorem scan?_point_nil (hwhole : ∀ c ∈ whole, c.isDigit = true) (hne : whole ≠ [])
    (hfraction : ∀ c ∈ fraction, c.isDigit = true) :
    ∃ d, scan? (whole ++ '.' :: fraction) = some d ∧
      d.value = value (whole ++ fraction) * 10 ^ (-(fraction.length : Int)) := by
  have hnil : ∀ c ∈ ([] : List Char).head?, c.isDigit = false := by simp
  have hscan := scan?_point hwhole hne hfraction hnil rfl
  rw [List.append_nil, zero_sub] at hscan
  exact ⟨_, hscan, rfl⟩

theorem scan?_whole (hwhole : ∀ c ∈ whole, c.isDigit = true) (hne : whole ≠ [])
    (hexponent : exponent? ('e' :: rest) = some exponent) :
    scan? (whole ++ 'e' :: rest) = some ⟨value whole, exponent⟩ := by
  have hletter : ∀ c ∈ ('e' :: rest).head?, c.isDigit = false := by
    rintro _ ⟨⟩
    rfl
  obtain ⟨htake, hdrop⟩ := Lexeme.span_run hwhole hletter
  have hcut : cutFraction ('e' :: rest) = ([], 'e' :: rest) := by
    rw [cutFraction]
    rintro _ ⟨⟩
  rw [scan?, htake, hdrop, hcut]
  dsimp only
  rw [hexponent, List.append_nil, natural?_of_digits hne hwhole]
  simp

end Scanning

end Numeral

namespace Binary64

open Numeral

section Decimals

theorem length_zeros (n : Nat) : (zeros n).length = n := List.length_replicate

theorem isDigit_of_mem_zeros {n : Nat} : ∀ c ∈ zeros n, c.isDigit = true := by
  intro c hc
  rw [List.eq_of_mem_replicate hc]
  rfl

theorem isDigit_of_mem_zero : ∀ c ∈ ['0'], c.isDigit = true := List.forall_mem_singleton.mpr rfl

variable {digits : List Char} (hdigits : ∀ c ∈ digits, c.isDigit = true) (hne : digits ≠ [])
include hdigits hne

/-- Wherever the point stands, the zeros around the digits make up for it. -/
theorem scan?_positional (point : Int) : ∃ d, scan? (positional digits point) = some d ∧
    d.value = value digits * 10 ^ (point - digits.length) := by
  rw [positional]
  split
  -- All digits are behind the point, behind zeros.
  · have hfraction : ∀ c ∈ zeros (-point).toNat ++ digits, c.isDigit = true :=
      List.forall_mem_append.mpr ⟨isDigit_of_mem_zeros, hdigits⟩
    obtain ⟨d, hscan, hvalue⟩ :=
      scan?_point_nil isDigit_of_mem_zero (List.cons_ne_nil '0' []) hfraction
    refine ⟨d, hscan, ?_⟩
    rw [hvalue, value_append, value_append, value_zeros, List.length_append, length_zeros,
      show value ['0'] = 0 from rfl, Nat.mul_zero, Nat.mul_zero, Nat.zero_add, Nat.zero_add]
    congr 2
    omega
  · split
    -- All are in front of it, in front of zeros.
    · have hwhole : ∀ c ∈ digits ++ zeros (point.toNat - digits.length), c.isDigit = true :=
        List.forall_mem_append.mpr ⟨hdigits, isDigit_of_mem_zeros⟩
      obtain ⟨d, hscan, hvalue⟩ :=
        scan?_point_nil hwhole (by simp [hne]) isDigit_of_mem_zero
      refine ⟨d, hscan, ?_⟩
      rw [hvalue, value_append, value_append, value_zeros, length_zeros,
        show value ['0'] = 0 from rfl]
      have hpow : (10 : ℚ) ^ (point - digits.length) = 10 ^ (point.toNat - digits.length) := by
        rw [← zpow_natCast]
        congr 1
        omega
      rw [hpow]
      push_cast
      simp only [List.length_cons, List.length_nil]
      ring
    -- It is among them.
    · have hwhole : ∀ c ∈ digits.take point.toNat, c.isDigit = true :=
        fun c hc => hdigits c (List.mem_of_mem_take hc)
      have hfraction : ∀ c ∈ digits.drop point.toNat, c.isDigit = true :=
        fun c hc => hdigits c (List.mem_of_mem_drop hc)
      have htake : digits.take point.toNat ≠ [] := by
        rw [Ne, List.take_eq_nil_iff, not_or]
        exact ⟨by omega, hne⟩
      obtain ⟨d, hscan, hvalue⟩ := scan?_point_nil hwhole htake hfraction
      refine ⟨d, hscan, ?_⟩
      rw [hvalue, List.take_append_drop, List.length_drop]
      congr 2
      omega

/-- The point stands behind the first digit, and the exponent makes up for it. -/
theorem scan?_scientific (exponent : Int) : ∃ d, scan? (scientific digits exponent) = some d ∧
    d.value = value digits * 10 ^ (exponent - (digits.length - 1)) := by
  have hexponent : exponent? ('e' :: (toString exponent).toList) = some exponent := by
    rw [exponent?, if_pos (.inl rfl), integer?_toString]
  have hpos : 0 < digits.length := List.length_pos_of_ne_nil hne
  rw [scientific]
  split
  · rename_i hone
    rw [List.append_nil, List.take_of_length_le (by omega)]
    refine ⟨_, scan?_whole hdigits hne hexponent, ?_⟩
    rw [Decimal.value, hone]
    simp
  · have hwhole : ∀ c ∈ digits.take 1, c.isDigit = true :=
      fun c hc => hdigits c (List.mem_of_mem_take hc)
    have hfraction : ∀ c ∈ digits.drop 1, c.isDigit = true :=
      fun c hc => hdigits c (List.mem_of_mem_drop hc)
    have hletter : ∀ c ∈ ('e' :: (toString exponent).toList).head?, c.isDigit = false := by
      rintro _ ⟨⟩
      rfl
    have hscan := scan?_point hwhole (by simp [hne]) hfraction hletter hexponent
    refine ⟨_, by rw [List.append_assoc]; exact hscan, ?_⟩
    rw [Decimal.value, List.take_append_drop, List.length_drop]
    dsimp only
    congr 2
    omega

end Decimals

/-- What is read from the text of a decimal has the value of the decimal. -/
theorem scan?_text (d : Decimal) : ∃ d', scan? d.text = some d' ∧ d'.value = d.value := by
  have hdigits : ∀ c ∈ Nat.toDigits 10 d.digits, c.isDigit = true :=
    fun _ => isDigit_of_mem_toDigits
  rw [Decimal.text]
  split
  · obtain ⟨d', hscan, hvalue⟩ := scan?_positional hdigits Nat.toDigits_ne_nil
      (d.exponent + (Nat.toDigits 10 d.digits).length)
    rw [value_toDigits, add_sub_cancel_right] at hvalue
    exact ⟨d', hscan, hvalue⟩
  · obtain ⟨d', hscan, hvalue⟩ := scan?_scientific hdigits Nat.toDigits_ne_nil
      (d.exponent + (Nat.toDigits 10 d.digits).length - 1)
    rw [value_toDigits, sub_sub_sub_cancel_right, add_sub_cancel_right] at hvalue
    exact ⟨d', hscan, hvalue⟩

/-- What is read from the text of a finite magnitude rounds to it. -/
theorem exists_scan?_magnitudeText {w : Nat} (h : w < infinity) :
    ∃ d, scan? (magnitudeText w) = some d ∧ Rounds d.value w := by
  rw [magnitudeText]
  split
  · rename_i hzero
    subst hzero
    have hlow : low 0 = 0 := zero_mul _
    have hvalue : (⟨0, -1⟩ : Decimal).value = 0 := zero_mul _
    refine ⟨⟨0, -1⟩, rfl, ?_⟩
    rw [hvalue, ← hlow]
    exact ⟨le_rfl, (low_lt_high 0).le, fun _ => rfl⟩
  · rw [if_neg h.ne]
    obtain ⟨d, hscan, hvalue⟩ := scan?_text (shortest (scaled w).1 (scaled w).2)
    exact ⟨d, hscan, hvalue ▸ rounds_shortest h⟩

theorem magnitudeText_inj {w w' : Nat} (h : w < infinity) (h' : w' < infinity)
    (htext : magnitudeText w = magnitudeText w') : w = w' := by
  obtain ⟨d, hscan, hrounds⟩ := exists_scan?_magnitudeText h
  obtain ⟨d', hscan', hrounds'⟩ := exists_scan?_magnitudeText h'
  rw [htext, hscan', Option.some.injEq] at hscan
  subst hscan
  exact hrounds.unique hrounds'

/-- A text that begins with a digit and is made of digits, signs and what only the text of a number
that is no integer has: a point or the letter of an exponent. -/
structure Fractional (cs : List Char) : Prop where
  head : ∃ c rest, cs = c :: rest ∧ c.isDigit = true
  mem : ∀ c ∈ cs, c.isDigit = true ∨ c ∈ ['.', 'e', '-']
  mark : '.' ∈ cs ∨ 'e' ∈ cs

section Shape

variable {digits : List Char} (hdigits : ∀ c ∈ digits, c.isDigit = true) (hne : digits ≠ [])
include hdigits hne

theorem fractional_point {fraction : List Char} (hfraction : ∀ c ∈ fraction, c.isDigit = true) :
    Fractional (digits ++ '.' :: fraction) := by
  obtain ⟨c, cs, rfl⟩ := List.exists_cons_of_ne_nil hne
  refine ⟨⟨c, _, rfl, hdigits c List.mem_cons_self⟩, fun d hd => ?_, .inl (by simp)⟩
  rcases List.mem_append.mp hd with hd | hd
  · exact .inl (hdigits d hd)
  · rcases List.mem_cons.mp hd with rfl | hd
    · exact .inr (by decide)
    · exact .inl (hfraction d hd)

theorem fractional_positional (point : Int) : Fractional (positional digits point) := by
  rw [positional]
  split
  · exact fractional_point isDigit_of_mem_zero (List.cons_ne_nil '0' [])
      (List.forall_mem_append.mpr ⟨isDigit_of_mem_zeros, hdigits⟩)
  · split
    · exact fractional_point (List.forall_mem_append.mpr ⟨hdigits, isDigit_of_mem_zeros⟩)
        (by simp [hne]) isDigit_of_mem_zero
    · refine fractional_point (fun c hc => hdigits c (List.mem_of_mem_take hc)) ?_
        fun c hc => hdigits c (List.mem_of_mem_drop hc)
      rw [Ne, List.take_eq_nil_iff, not_or]
      exact ⟨by omega, hne⟩

theorem fractional_scientific (exponent : Int) : Fractional (scientific digits exponent) := by
  obtain ⟨c, cs, rfl⟩ := List.exists_cons_of_ne_nil hne
  refine ⟨⟨c, _, rfl, hdigits c List.mem_cons_self⟩, fun d hd => ?_, .inr (by simp [scientific])⟩
  rw [scientific] at hd
  simp only [List.mem_append, List.mem_cons] at hd
  rcases hd with (hd | hd) | rfl | hd
  · exact .inl (hdigits d (List.mem_of_mem_take hd))
  · split at hd
    · cases hd
    · rcases List.mem_cons.mp hd with rfl | hd
      · exact .inr (by decide)
      · exact .inl (hdigits d (List.mem_of_mem_drop hd))
  · exact .inr (by decide)
  · refine (mem_toString_int exponent d hd).imp_right ?_
    rintro rfl
    decide

end Shape

theorem fractional_magnitudeText {w : Nat} (h : w < infinity) : Fractional (magnitudeText w) := by
  rw [magnitudeText]
  split
  · exact ⟨⟨'0', _, rfl, rfl⟩, by simp, by decide⟩
  · rw [if_neg h.ne, Decimal.text]
    split
    · exact fractional_positional (fun _ => isDigit_of_mem_toDigits) Nat.toDigits_ne_nil _
    · exact fractional_scientific (fun _ => isDigit_of_mem_toDigits) Nat.toDigits_ne_nil _

section Text

variable {x y : Binary64}

theorem toList_text (h : x.magnitude < infinity) :
    x.text.toList = (if x.isNegative then ['-'] else []) ++ magnitudeText x.magnitude := by
  rw [text, if_neg (by omega), String.toList_ofList]

theorem ext_word (hsign : x.isNegative = y.isNegative) (hmagnitude : x.magnitude = y.magnitude) :
    x = y := by
  have hword : x.word.toNat = y.word.toNat := by
    have hx := x.word.toNat_lt
    have hy := y.word.toNat_lt
    have hsign' : signBit ≤ x.word.toNat ↔ signBit ≤ y.word.toNat := decide_eq_decide.mp hsign
    simp only [magnitude, signBit] at hsign' hmagnitude
    omega
  obtain ⟨w⟩ := x
  obtain ⟨w'⟩ := y
  rw [UInt64.toNat_inj] at hword
  cases hword
  rfl

/-- A finite number can be told from every other by its text. -/
theorem text_inj (hx : x.magnitude < infinity) (hy : y.magnitude < infinity)
    (h : x.text = y.text) : x = y := by
  have hlist : x.text.toList = y.text.toList := by rw [h]
  rw [toList_text hx, toList_text hy] at hlist
  -- A magnitude begins with a digit, so that a minus in front is a sign.
  obtain ⟨c, cs, hc, hdigit⟩ := (fractional_magnitudeText hx).head
  obtain ⟨d, ds, hd, hdigit'⟩ := (fractional_magnitudeText hy).head
  have hsign : x.isNegative = y.isNegative := by
    rw [hc, hd] at hlist
    cases hnegative : x.isNegative <;> cases hnegative' : y.isNegative
    · rfl
    · simp only [hnegative, hnegative'] at hlist
      obtain ⟨rfl, -⟩ := List.cons.inj hlist
      cases hdigit
    · simp only [hnegative, hnegative'] at hlist
      obtain ⟨rfl, -⟩ := List.cons.inj hlist
      cases hdigit'
    · rfl
  rw [hsign, List.append_cancel_left_eq] at hlist
  exact ext_word hsign (magnitudeText_inj hx hy hlist)

end Text

end Binary64

end Scriptlet

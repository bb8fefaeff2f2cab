import Mathlib.Algebra.Ring.Nat
import Scriptlet.Numeral.Reading

namespace Scriptlet.Numeral

theorem integer?_of_digits {digits : List Char} (hne : digits ≠ [])
    (hdigits : ∀ c ∈ digits, c.isDigit = true) : integer? digits = some (value digits : Int) := by
  -- No digit is a sign.
  have hsign : splitSign digits = (false, digits) := by
    rw [splitSign] <;> rintro cs rfl
    · exact absurd (hdigits '-' List.mem_cons_self) (by decide)
    · exact absurd (hdigits '+' List.mem_cons_self) (by decide)
  have hnatural : natural? digits = some (value digits) := by
    rw [natural?, List.all_eq_true.mpr hdigits, List.isEmpty_eq_false_iff.mpr hne]
    rfl
  rw [integer?, hsign]
  simp only [hnatural]
  rfl

theorem int64?_of_digits {digits : List Char} (hne : digits ≠ [])
    (hdigits : ∀ c ∈ digits, c.isDigit = true) (hmax : value digits < 2 ^ 63) :
    int64? digits = some (Int64.ofNat (value digits)) := by
  have hfits : Int64.minValue.toInt ≤ (value digits : Int) ∧
      (value digits : Int) ≤ Int64.maxValue.toInt := by
    change (-9223372036854775808 : Int) ≤ value digits ∧
      (value digits : Int) ≤ 9223372036854775807
    omega
  rw [int64?, integer?_of_digits hne hdigits]
  change (if _ then _ else _) = _
  rw [if_pos hfits, Int64.ofInt_eq_ofNat]

theorem toList_toString_nat (n : Nat) : (toString n).toList = Nat.toDigits 10 n := by
  rw [Nat.toString_eq_repr, Nat.repr, String.toList_ofList]

theorem value_toDigits (n : Nat) : value (Nat.toDigits 10 n) = n :=
  Nat.ofDigitChars_ten_toDigits

theorem isDigit_of_mem_toDigits {n : Nat} {c : Char} (h : c ∈ Nat.toDigits 10 n) :
    c.isDigit = true :=
  Nat.isDigit_of_mem_toDigits (by decide) (by decide) h

theorem int64?_toDigits {n : Nat} (hmax : n < 2 ^ 63) :
    int64? (Nat.toDigits 10 n) = some (Int64.ofNat n) := by
  have h : int64? (Nat.toDigits 10 n) = some (Int64.ofNat (value (Nat.toDigits 10 n))) :=
    int64?_of_digits Nat.toDigits_ne_nil (fun _ => isDigit_of_mem_toDigits)
      (by rwa [value_toDigits])
  rwa [value_toDigits] at h

/-- The digits of an integer that is not negative stand for it. -/
theorem int64?_toDigits_toInt {n : Int64} (h : 0 ≤ n) :
    int64? (Nat.toDigits 10 n.toInt.toNat) = some n := by
  have hnonneg : 0 ≤ n.toInt := Int64.le_iff_toInt_le.mp h
  have hmax : n.toInt ≤ 9223372036854775807 := n.toInt_le
  rw [int64?_toDigits (by omega), ← Int64.ofInt_eq_ofNat, Int.toNat_of_nonneg hnonneg,
    Int64.ofInt_toInt]

end Scriptlet.Numeral

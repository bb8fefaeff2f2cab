import Mathlib.Data.Int.Basic
import Mathlib.Tactic.Ring
import Scriptlet.Machine.Run

namespace Scriptlet.Numeral

/-- The loop run to its end in so many turns. The lowest bit of the exponent says whether a turn
multiplies; the base is squared in each turn, also in the last one, where nothing reads it. -/
inductive PowerLoop : Nat → Int64 → Int64 → UInt64 → Int64 → Prop
  | stop {result base : Int64} : PowerLoop 0 result base 0 result
  | turn {turns : Nat} {result base value : Int64} {exponent : UInt64} (more : 0 < exponent)
    (rest : PowerLoop turns (if exponent &&& 1 = 1 then result * base else result) (base * base)
      (exponent >>> 1) value) :
    PowerLoop (turns + 1) result base exponent value

/-- There is nothing to choose in the loop. -/
theorem PowerLoop.unique {turns turns' : Nat} {result base value value' : Int64}
    {exponent : UInt64} (h : PowerLoop turns result base exponent value)
    (h' : PowerLoop turns' result base exponent value') : turns = turns' ∧ value = value' := by
  induction h generalizing turns' value' with
  | stop =>
    cases h' with
    | stop => exact ⟨rfl, rfl⟩
    | turn more _ => exact absurd more (by decide)
  | turn more _ ih =>
    cases h' with
    | stop => exact absurd more (by decide)
    | turn _ rest =>
      obtain ⟨rfl, rfl⟩ := ih rest
      exact ⟨rfl, rfl⟩

section Halving

variable {exponent : UInt64}

theorem and_one_eq_one_iff : exponent &&& 1 = 1 ↔ exponent.toNat % 2 = 1 := by
  rw [← UInt64.toNat_inj, UInt64.toNat_and]
  exact iff_of_eq (congrArg (· = 1) (Nat.and_one_is_mod _))

theorem toNat_shiftRight_one : (exponent >>> 1).toNat = exponent.toNat / 2 := by
  rw [UInt64.toNat_shiftRight]
  exact Nat.shiftRight_eq_div_pow _ 1

end Halving

/-- The loop ends within as many turns as the exponent has bits, and the steps granted to it are
not used up before that. -/
theorem exists_powerLoop {size steps : Nat} (hsize : size ≤ steps) {result base : Int64}
    {exponent : UInt64} (h : exponent.toNat < 2 ^ size) :
    ∃ turns ≤ size,
      PowerLoop turns result base exponent (powerFrom steps result base exponent.toNat) := by
  -- Each turn takes one bit off the exponent, and one of the steps.
  induction size generalizing steps result base exponent with
  | zero =>
    have hnone : exponent.toNat = 0 := by omega
    obtain rfl : exponent = 0 := UInt64.toNat_inj.mp hnone
    refine ⟨0, Nat.le_refl 0, ?_⟩
    cases steps <;> exact .stop
  | succ size ih =>
    obtain ⟨steps, rfl⟩ : ∃ n, steps = n + 1 := ⟨steps - 1, by omega⟩
    by_cases hzero : exponent = 0
    · subst hzero
      exact ⟨0, Nat.zero_le _, .stop⟩
    · have hpos : 0 < exponent := UInt64.pos_iff_ne_zero.mpr hzero
      have hnat : exponent.toNat ≠ 0 := fun h => hzero (UInt64.toNat_inj.mp h)
      have hhalf : (exponent >>> 1).toNat < 2 ^ size := by
        rw [toNat_shiftRight_one]
        omega
      obtain ⟨turns, hturns, hrest⟩ := ih (Nat.le_of_succ_le_succ hsize) hhalf
      refine ⟨turns + 1, Nat.succ_le_succ hturns, .turn hpos ?_⟩
      rw [powerFrom, if_neg hnat, ← toNat_shiftRight_one]
      simp only [← and_one_eq_one_iff]
      exact hrest

/-- What a turn of the loop does not change. -/
theorem turn_mul_pow (result base : Int) (exponent : Nat) :
    (if exponent % 2 = 1 then result * base else result) * (base * base) ^ (exponent / 2) =
      result * base ^ exponent := by
  by_cases hodd : exponent % 2 = 1
  · have hsplit : 2 * (exponent / 2) + 1 = exponent := by omega
    calc
      (if exponent % 2 = 1 then result * base else result) * (base * base) ^ (exponent / 2)
        = result * base * (base * base) ^ (exponent / 2) := by rw [if_pos hodd]
      _ = result * base ^ (2 * (exponent / 2) + 1) := by ring
      _ = result * base ^ exponent := by rw [hsplit]
  · have hsplit : 2 * (exponent / 2) = exponent := by omega
    calc
      (if exponent % 2 = 1 then result * base else result) * (base * base) ^ (exponent / 2)
        = result * (base * base) ^ (exponent / 2) := by rw [if_neg hodd]
      _ = result * base ^ (2 * (exponent / 2)) := by ring
      _ = result * base ^ exponent := by rw [hsplit]

/-- The loop on words is the loop on integers, wrapped. -/
theorem powerFrom_ofInt {steps : Nat} (result base : Int) {exponent : Nat}
    (h : exponent < 2 ^ steps) :
    powerFrom steps (Int64.ofInt result) (Int64.ofInt base) exponent =
      Int64.ofInt (result * base ^ exponent) := by
  -- On the turns that are left. Wrapping commutes with products, so a turn may be taken on integers,
  -- where it does not change the result times the power.
  induction steps generalizing result base exponent with
  | zero =>
    obtain rfl : exponent = 0 := by omega
    rw [powerFrom, Int.pow_zero, Int.mul_one]
  | succ steps ih =>
    rw [powerFrom]
    by_cases hzero : exponent = 0
    · rw [if_pos hzero, hzero, Int.pow_zero, Int.mul_one]
    · have hhalf : exponent / 2 < 2 ^ steps := by omega
      have hresult : (if exponent % 2 = 1 then Int64.ofInt result * Int64.ofInt base
          else Int64.ofInt result) =
          Int64.ofInt (if exponent % 2 = 1 then result * base else result) := by
        rw [← Int64.ofInt_mul, apply_ite Int64.ofInt]
      have hbase : Int64.ofInt base * Int64.ofInt base = Int64.ofInt (base * base) :=
        (Int64.ofInt_mul base base).symm
      rw [if_neg hzero, hresult, hbase, ih _ _ hhalf, turn_mul_pow]

/-- So is multiplying again and again. -/
theorem iterate_mul_ofInt (base : Int) (n : Nat) :
    (· * Int64.ofInt base)^[n] 1 = Int64.ofInt (base ^ n) := by
  induction n with
  | zero =>
    rw [Function.iterate_zero_apply, Int.pow_zero]
    rfl
  | succ n ih => rw [Function.iterate_succ_apply', ih, ← Int64.ofInt_mul, Int.pow_succ]

section Power

variable (base exponent : Int64)

/-- An exponent has no more than 63 bits, because its sign is not among them. -/
theorem toNat_toInt_lt : exponent.toInt.toNat < 2 ^ 63 := by
  have hlt := exponent.toInt_lt
  omega

/-- The exponent as the loop reads it. -/
theorem toNat_toUInt64_max : (max exponent 0).toUInt64.toNat = exponent.toInt.toNat := by
  change (if exponent ≤ 0 then 0 else exponent).toUInt64.toNat = exponent.toInt.toNat
  split
  · rename_i hle
    have hint : exponent.toInt ≤ 0 := Int64.le_iff_toInt_le.mp hle
    exact (Int.toNat_of_nonpos hint).symm
  · rename_i hgt
    have hlt : 0 < exponent := Int64.not_le.mp hgt
    exact Int64.toNat_toUInt64_of_le (Int64.le_of_lt hlt)

/-- The loop ends with the power, after at most 63 turns, and it does not end in any other way. -/
theorem powerLoop_iff : ∃ turns ≤ 63, ∀ n value,
    PowerLoop n 1 base (max exponent 0).toUInt64 value ↔ n = turns ∧ value = power base exponent := by
  have hbits : (max exponent 0).toUInt64.toNat < 2 ^ 63 := by
    rw [toNat_toUInt64_max]
    exact toNat_toInt_lt exponent
  obtain ⟨turns, hturns, hloop⟩ := exists_powerLoop (by decide : 63 ≤ 64) hbits
  rw [toNat_toUInt64_max] at hloop
  refine ⟨turns, hturns, fun n value => ⟨fun h => h.unique hloop, ?_⟩⟩
  rintro ⟨rfl, rfl⟩
  exact hloop

/-- The power is the base to the exponent, or to zero, wrapped once at the end. -/
theorem power_eq_ofInt_pow :
    power base exponent = Int64.ofInt (base.toInt ^ exponent.toInt.toNat) := by
  have hexponent := toNat_toInt_lt exponent
  have hbits : exponent.toInt.toNat < 2 ^ 64 := by omega
  calc
    power base exponent
      = powerFrom 64 (Int64.ofInt 1) (Int64.ofInt base.toInt) exponent.toInt.toNat := by
        rw [Int64.ofInt_toInt]
        rfl
    _ = Int64.ofInt (1 * base.toInt ^ exponent.toInt.toNat) := powerFrom_ofInt 1 base.toInt hbits
    _ = Int64.ofInt (base.toInt ^ exponent.toInt.toNat) := by rw [Int.one_mul]

theorem power_eq_iterate : power base exponent = (· * base)^[exponent.toInt.toNat] 1 := by
  have hiterate := iterate_mul_ofInt base.toInt exponent.toInt.toNat
  rw [Int64.ofInt_toInt] at hiterate
  rw [power_eq_ofInt_pow, hiterate]

theorem power_of_nonpos {base exponent : Int64} (h : exponent ≤ 0) : power base exponent = 1 := by
  have hint : exponent.toInt ≤ 0 := Int64.le_iff_toInt_le.mp h
  rw [power_eq_iterate, Int.toNat_of_nonpos hint, Function.iterate_zero_apply]

theorem toInt_power :
    (power base exponent).toInt = (base.toInt ^ exponent.toInt.toNat).bmod (2 ^ 64) := by
  rw [power_eq_ofInt_pow, Int64.toInt_ofInt]
  rfl

end Power

/-- Whatever the base and the exponent are, the loop ends, after at most 63 turns and with the power
only. The power is what becomes of one when it is multiplied by the base as often as the exponent
says, with every product wrapped to 64 bits, or one if the exponent is not positive. So it is the
exact power brought into the range of 64-bit integers. -/
theorem power_eq_iterate_mul (base exponent : Int64) :
    (∃ turns ≤ 63, ∀ n value, PowerLoop n 1 base (max exponent 0).toUInt64 value ↔
      n = turns ∧ value = power base exponent) ∧
    power base exponent =
      (if 0 < exponent then (· * base)^[exponent.toInt.toNat] 1 else 1) ∧
    (power base exponent).toInt = (base.toInt ^ (max exponent.toInt 0).toNat).bmod (2 ^ 64) := by
  refine ⟨powerLoop_iff base exponent, ?_, ?_⟩
  · split
    · exact power_eq_iterate base exponent
    · rename_i hle
      exact power_of_nonpos (Int64.not_lt.mp hle)
  · have hexponent : (max exponent.toInt 0).toNat = exponent.toInt.toNat := by omega
    rw [hexponent]
    exact toInt_power base exponent

-- The last square of the base overflows, and nothing reads it.
example : power 2 63 = Int64.minValue := by decide

end Scriptlet.Numeral

import Mathlib.Algebra.Order.Field.Power
import Mathlib.Order.Monotone.Basic
import Mathlib.Tactic.Linarith
import Mathlib.Tactic.Positivity
import Mathlib.Tactic.Ring
import Scriptlet.Numeral.Shortest

/-!
Where the numbers lie that round to a floating-point number. Its interval ends where that of the next
one begins, and of two neighbours only one takes the bound that they share, since only one is even.
So a number rounds to one magnitude only.
-/
namespace Scriptlet.Binary64

section Interval

/-- The ends of the interval of a magnitude. -/
def low (w : Nat) : ℚ := (bounds (scaled w).1 (scaled w).2).1 * 2 ^ ((scaled w).2 - 2)

def high (w : Nat) : ℚ := (bounds (scaled w).1 (scaled w).2).2 * 2 ^ ((scaled w).2 - 2)

/-- The number rounds to the magnitude. An even one has both ends of its interval. -/
structure Rounds (v : ℚ) (w : Nat) : Prop where
  low_le : low w ≤ v
  le_high : v ≤ high w
  even : v = low w ∨ v = high w → w % 2 = 0

variable {v : ℚ} {w w' : Nat}

theorem scaled_subnormal (h : w < exponentUnit) : scaled w = (w, -1074) := by
  rw [scaled, if_pos h]

theorem scaled_normal {e f : Nat} (he : 1 ≤ e) (hf : f < exponentUnit) :
    scaled (e * exponentUnit + f) = (exponentUnit + f, (e : Int) - 1075) := by
  have hle : exponentUnit ≤ e * exponentUnit := Nat.le_mul_of_pos_left _ he
  have hdiv : (e * exponentUnit + f) / exponentUnit = e := by
    rw [Nat.mul_comm, Nat.mul_add_div (by decide), Nat.div_eq_of_lt hf, Nat.add_zero]
  have hmod : (e * exponentUnit + f) % exponentUnit = f := by
    rw [Nat.mul_comm, Nat.mul_add_mod, Nat.mod_eq_of_lt hf]
  rw [scaled, if_neg (by omega), hdiv, hmod]

/-- A magnitude that is not subnormal has an exponent and a fraction. -/
theorem exists_normal (h : exponentUnit ≤ w) :
    ∃ e f, 1 ≤ e ∧ f < exponentUnit ∧ w = e * exponentUnit + f :=
  ⟨w / exponentUnit, w % exponentUnit, Nat.div_pos h (by decide), Nat.mod_lt _ (by decide),
    (Nat.div_add_mod' w exponentUnit).symm⟩

/-- The last bit of the fraction is that of the word. -/
theorem scaled_mod_two (w : Nat) : (scaled w).1 % 2 = w % 2 := by
  rcases Nat.lt_or_ge w exponentUnit with h | h
  · rw [scaled_subnormal h]
  · obtain ⟨e, f, he, hf, rfl⟩ := exists_normal h
    rw [scaled_normal he hf]
    simp only [exponentUnit]
    omega

/-- Within one exponent, the numbers have the same distance. -/
theorem bounds_succ (m : Nat) (q : Int) (h : m + 1 = exponentUnit → q ≤ -1074) :
    (bounds m q).2 = (bounds (m + 1) q).1 := by
  have hnot : ¬ (m + 1 = exponentUnit ∧ -1074 < q) := fun hunit => by
    have hq := h hunit.1
    omega
  change 4 * m + 2 = 4 * (m + 1) - if m + 1 = exponentUnit ∧ -1074 < q then 1 else 2
  rw [if_neg hnot]
  omega

/-- At a power of two, the numbers below are nearer to each other. -/
theorem bounds_unit {q : Int} (h : -1074 < q) : (bounds exponentUnit q).1 = 4 * exponentUnit - 1 := by
  rw [bounds, if_pos ⟨rfl, h⟩]

/-- A step to the next word is a step to the next number, also where that has a greater exponent. -/
theorem high_eq_low_succ (w : Nat) : high w = low (w + 1) := by
  rcases Nat.lt_or_ge (w + 1) exponentUnit with h | h
  · rw [high, low, scaled_subnormal h, scaled_subnormal (by omega), bounds_succ _ _ fun _ => le_rfl]
  rcases Nat.lt_or_ge w exponentUnit with hw | hw
  · -- The least normal magnitude has the exponent of the subnormal ones.
    obtain rfl : w = exponentUnit - 1 := by omega
    rfl
  obtain ⟨e, f, he, hf, rfl⟩ := exists_normal hw
  rcases Nat.lt_or_ge (f + 1) exponentUnit with hf' | hf'
  · rw [high, low, Nat.add_assoc, scaled_normal he hf, scaled_normal he hf', ← Nat.add_assoc,
      bounds_succ _ _ fun hunit => by omega]
  · -- The fraction is full. The next number has the least fraction and the next exponent.
    obtain rfl : f = exponentUnit - 1 := by omega
    have hnext : e * exponentUnit + (exponentUnit - 1) + 1 = (e + 1) * exponentUnit + 0 := by
      simp only [exponentUnit]
      omega
    have hpow : (2 : ℚ) ^ (((e + 1 : Nat) : Int) - 1075 - 2) = 2 * 2 ^ ((e : Int) - 1075 - 2) := by
      rw [show ((e + 1 : Nat) : Int) - 1075 - 2 = 1 + ((e : Int) - 1075 - 2) by omega,
        zpow_add₀ two_ne_zero, zpow_one]
    rw [high, low, hnext, scaled_normal he hf, scaled_normal (Nat.le_add_left 1 e) (by decide), hpow,
      ← mul_assoc, Nat.add_zero, bounds_unit (by push_cast; omega)]
    congr 1
    norm_num [bounds, exponentUnit]

theorem low_lt_high (w : Nat) : low w < high w := by
  rw [low, high]
  refine mul_lt_mul_of_pos_right ?_ (zpow_pos two_pos _)
  rw [Nat.cast_lt, bounds]
  dsimp only
  split <;> omega

theorem strictMono_low : StrictMono low := by
  refine strictMono_nat_of_lt_succ fun w => ?_
  rw [← high_eq_low_succ]
  exact low_lt_high w

/-- A number rounds to one magnitude only. -/
theorem Rounds.unique (h : Rounds v w) (h' : Rounds v w') : w = w' := by
  have hle {w w' : Nat} (h : Rounds v w) (h' : Rounds v w') : w' ≤ w := by
    by_contra hlt
    -- The number is the end of one interval and the beginning of the other.
    have hbetween : low (w + 1) ≤ low w' := strictMono_low.monotone (by omega)
    have hhigh : v = high w := by
      refine le_antisymm h.le_high ?_
      rw [high_eq_low_succ]
      exact hbetween.trans h'.low_le
    have hlow : v = low (w + 1) := hhigh.trans (high_eq_low_succ w)
    have hnext : w + 1 = w' := by
      refine strictMono_low.injective (le_antisymm hbetween ?_)
      rw [← hlow]
      exact h'.low_le
    have heven := h.even (.inr hhigh)
    have heven' := h'.even (.inl (by rw [← hnext, ← hlow]))
    omega
  exact le_antisymm (hle h' h) (hle h h')

end Interval

section Grid

variable {m c : Nat} {q k : Int}

/-- The number that a decimal stands for. -/
def Decimal.value (d : Decimal) : ℚ := d.digits * 10 ^ d.exponent

theorem pow_toNat {b : ℚ} (hb : b ≠ 0) (n : Int) : b ^ n.toNat = b ^ n * b ^ (-n).toNat := by
  rw [← zpow_natCast b n.toNat, ← zpow_natCast b (-n).toNat, ← zpow_add₀ hb]
  congr 1
  omega

/-- Both sides of a comparison on the grid are scaled alike, so that they are natural numbers. -/
theorem exists_scale (q k : Int) : ∃ x : ℚ, 0 < x ∧
    ((Nat.pow 10 (-k).toNat <<< (q - 2).toNat : Nat) : ℚ) = 2 ^ (q - 2) * x ∧
      ((Nat.pow 10 k.toNat <<< (2 - q).toNat : Nat) : ℚ) = 10 ^ k * x := by
  refine ⟨10 ^ (-k).toNat * 2 ^ (2 - q).toNat, by positivity, ?_, ?_⟩
  · have htwo := pow_toNat (b := (2 : ℚ)) two_ne_zero (q - 2)
    rw [neg_sub] at htwo
    rw [Nat.shiftLeft_eq, Nat.pow_eq]
    push_cast
    rw [htwo]
    ring
  · rw [Nat.shiftLeft_eq, Nat.pow_eq]
    push_cast
    rw [pow_toNat (by norm_num) k]
    ring

/-- The decimal is between the bounds, or at one of them if these count. -/
def Inside (m : Nat) (q k : Int) (c : Nat) : Prop :=
  if m % 2 = 0 then
    (bounds m q).1 * 2 ^ (q - 2) ≤ (c * 10 ^ k : ℚ) ∧ (c * 10 ^ k : ℚ) ≤ (bounds m q).2 * 2 ^ (q - 2)
  else
    (bounds m q).1 * 2 ^ (q - 2) < (c * 10 ^ k : ℚ) ∧ (c * 10 ^ k : ℚ) < (bounds m q).2 * 2 ^ (q - 2)

theorem onGrid?_inside (h : onGrid? m q k = some c) : Inside m q k c := by
  obtain ⟨x, hx, hup, hdown⟩ := exists_scale q k
  simp only [onGrid?] at h
  generalize Nat.pow 10 (-k).toNat <<< (q - 2).toNat = up at h hup
  generalize Nat.pow 10 k.toNat <<< (2 - q).toNat = down at h hdown
  have hlow (a c : Nat) : a * up ≤ c * down ↔ (a * 2 ^ (q - 2) : ℚ) ≤ c * 10 ^ k := by
    rw [← Nat.cast_le (α := ℚ), Nat.cast_mul, Nat.cast_mul, hup, hdown, ← mul_assoc, ← mul_assoc,
      mul_le_mul_iff_of_pos_right hx]
  have hhigh (a c : Nat) : c * down ≤ a * up ↔ (c * 10 ^ k : ℚ) ≤ a * 2 ^ (q - 2) := by
    rw [← Nat.cast_le (α := ℚ), Nat.cast_mul, Nat.cast_mul, hup, hdown, ← mul_assoc, ← mul_assoc,
      mul_le_mul_iff_of_pos_right hx]
  have hinside (c : Nat) : (if m % 2 = 0 then
      decide ((bounds m q).1 * up ≤ c * down) && decide (c * down ≤ (bounds m q).2 * up)
      else decide ((bounds m q).1 * up < c * down) && decide (c * down < (bounds m q).2 * up)) = true ↔
      Inside m q k c := by
    rw [Inside]
    split <;> simp only [Bool.and_eq_true, decide_eq_true_eq, ← not_le, hlow, hhigh]
  split at h
  · cases h
  · rename_i hbelow _
    cases h
    exact (hinside _).mp hbelow
  · rename_i _ habove
    cases h
    exact (hinside _).mp habove
  · rename_i hbelow habove
    split at h
    · cases h
      exact (hinside _).mp hbelow
    · cases h
      exact (hinside _).mp habove

/-- What is found on the grid rounds to the magnitude. -/
theorem Inside.rounds {w : Nat} (h : Inside (scaled w).1 (scaled w).2 k c) :
    Rounds (c * 10 ^ k) w := by
  rw [Inside, scaled_mod_two] at h
  split at h
  · rename_i heven
    exact ⟨h.1, h.2, fun _ => heven⟩
  · refine ⟨h.1.le, h.2.le, ?_⟩
    rintro (heq | heq)
    · exact absurd heq.symm h.1.ne
    · exact absurd heq h.2.ne

/-- A grid that is this fine has a number between the magnitude and its upper bound. -/
theorem exists_onGrid? (h : (10 : ℚ) ^ k < 2 ^ (q - 1)) : ∃ c, onGrid? m q k = some c := by
  obtain ⟨x, hx, hup, hdown⟩ := exists_scale q k
  simp only [onGrid?]
  generalize Nat.pow 10 (-k).toNat <<< (q - 2).toNat = up at hup
  generalize Nat.pow 10 k.toNat <<< (2 - q).toNat = down at hdown
  have hfine : down < 2 * up := by
    rw [← Nat.cast_lt (α := ℚ), Nat.cast_mul, hup, hdown, Nat.cast_ofNat, ← mul_assoc,
      ← zpow_one_add₀ two_ne_zero, show 1 + (q - 2) = q - 1 by ring]
    exact mul_lt_mul_of_pos_right h hx
  have hpos : 0 < down := by
    rw [← Nat.cast_pos (α := ℚ), hdown]
    positivity
  -- The first multiple above the magnitude is less than one step away from it.
  have habove : 4 * m * up < (4 * m * up / down + 1) * down :=
    (Nat.lt_mul_div_succ _ hpos).trans_eq (Nat.mul_comm _ _)
  have hbelow : 4 * m * up / down * down ≤ 4 * m * up := Nat.div_mul_le_self _ _
  have hstep : (4 * m * up / down + 1) * down = 4 * m * up / down * down + down := Nat.succ_mul _ _
  have hlow : (bounds m q).1 * up ≤ 4 * m * up := Nat.mul_le_mul_right _ (Nat.sub_le _ _)
  have hhigh : (bounds m q).2 * up = 4 * m * up + 2 * up := Nat.add_mul _ _ _
  have hinside : (bounds m q).1 * up < (4 * m * up / down + 1) * down ∧
      (4 * m * up / down + 1) * down < (bounds m q).2 * up := by
    constructor <;> omega
  have hfound : (if m % 2 = 0 then
      decide ((bounds m q).1 * up ≤ (4 * m * up / down + 1) * down) &&
        decide ((4 * m * up / down + 1) * down ≤ (bounds m q).2 * up)
      else decide ((bounds m q).1 * up < (4 * m * up / down + 1) * down) &&
        decide ((4 * m * up / down + 1) * down < (bounds m q).2 * up)) = true := by
    split <;> simp [hinside.1, hinside.2, hinside.1.le, hinside.2.le]
  rw [hfound]
  split
  · rename_i hfalse
    cases hfalse
  · rename_i hfalse
    cases hfalse
  · exact ⟨_, rfl⟩
  · split <;> exact ⟨_, rfl⟩

/-- If one of the grids has a number, then one is found that does. -/
theorem descend_spec {limit j : Nat} (hj : j < limit) (h : ∃ c, onGrid? m q (k - j) = some c) :
    onGrid? m q (descend m q limit k).exponent = some (descend m q limit k).digits := by
  induction limit generalizing k j with
  | zero => omega
  | succ limit ih =>
    rw [descend]
    cases hfirst : onGrid? m q k with
    | some c => exact hfirst
    | none =>
      cases j with
      | zero =>
        obtain ⟨c, hc⟩ := h
        rw [Nat.cast_zero, sub_zero, hfirst] at hc
        cases hc
      | succ j =>
        refine ih (j := j) (by omega) ?_
        rwa [sub_sub, add_comm, ← Nat.cast_succ]

/-- For every exponent, a grid of seventeen digits is fine enough. -/
theorem fine : ∀ i : Nat, i < 2046 →
    10 ^ ((i - 1022 : Int) * 30103 / 100000 - 18).toNat * 2 ^ (1075 - i) <
      10 ^ (-((i - 1022 : Int) * 30103 / 100000 - 18)).toNat * 2 ^ (i - 1075) := by
  decide +kernel

theorem pow_lt_of_le {i : Nat} (hi : i < 2046) (hk : k ≤ (i - 1022 : Int) * 30103 / 100000 - 18) :
    (10 : ℚ) ^ k < 2 ^ ((i : Int) - 1075) := by
  have hfine := fine i hi
  generalize (i - 1022 : Int) * 30103 / 100000 - 18 = last at hk hfine
  have hten := pow_toNat (b := (10 : ℚ)) (by norm_num) last
  have htwo := pow_toNat (b := (2 : ℚ)) two_ne_zero ((i : Int) - 1075)
  rw [show ((i : Int) - 1075).toNat = i - 1075 by omega,
    show (-((i : Int) - 1075)).toNat = 1075 - i by omega] at htwo
  rw [← Nat.cast_lt (α := ℚ)] at hfine
  push_cast at hfine
  rw [hten, htwo] at hfine
  have hlast : (10 : ℚ) ^ last < 2 ^ ((i : Int) - 1075) := by
    refine lt_of_mul_lt_mul_right ?_ (show (0 : ℚ) ≤ 10 ^ (-last).toNat * 2 ^ (1075 - i) by positivity)
    linarith
  exact (zpow_le_zpow_right₀ (by norm_num) hk).trans_lt hlast

theorem scaled_finite {w : Nat} (h : w < infinity) :
    (scaled w).1.log2 ≤ 52 ∧ ∃ i < 2046, (scaled w).2 = (i : Nat) - 1074 := by
  have hlog {m : Nat} (hm : m < 2 * exponentUnit) : m.log2 ≤ 52 := by
    rcases Nat.eq_zero_or_pos m with rfl | hpos
    · exact Nat.zero_le _
    · exact Nat.le_of_lt_succ ((Nat.log2_lt hpos.ne').mpr hm)
  rcases Nat.lt_or_ge w exponentUnit with hw | hw
  · rw [scaled_subnormal hw]
    exact ⟨hlog (by omega), 0, by decide, rfl⟩
  · obtain ⟨e, f, he, hf, rfl⟩ := exists_normal hw
    rw [scaled_normal he hf]
    refine ⟨hlog (by omega), e - 1, ?_, by omega⟩
    have he' : e < 2047 := by
      by_contra hge
      have hmul := Nat.mul_le_mul_right exponentUnit (Nat.not_lt.mp hge)
      rw [infinity] at h
      omega
    omega

/-- The shortest decimal of a finite magnitude rounds to it. -/
theorem rounds_shortest {w : Nat} (h : w < infinity) :
    Rounds (shortest (scaled w).1 (scaled w).2).value w := by
  obtain ⟨hlog, i, hi, hq⟩ := scaled_finite h
  have hfine : (10 : ℚ) ^ ((((scaled w).1.log2 : Int) + (scaled w).2) * 30103 / 100000 + 2 - (20 : Nat)) <
      2 ^ ((scaled w).2 - 1) := by
    rw [hq, show (i : Int) - 1074 - 1 = i - 1075 by ring]
    exact pow_lt_of_le hi (by omega)
  exact (onGrid?_inside (descend_spec (by decide) (exists_onGrid? hfine))).rounds

end Grid

end Scriptlet.Binary64

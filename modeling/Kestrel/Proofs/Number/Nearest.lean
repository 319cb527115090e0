import Kestrel.Number.Decimal
import Mathlib.Data.Int.Log
import Mathlib.Data.Rat.Floor
import Mathlib.Tactic.FieldSimp
import Mathlib.Tactic.Positivity

/-!
# The nearest double of a number

`nearestBits` is given a quotient of natural numbers, but all that matters is the number that the
quotient stands for. A double is the nearest one to itself.

## Main definitions

- `Binary.value`, `Decimal.value` — the number that a magnitude or a decimal stands for

## Main statements

- `exponentFor_eq` — the exponent of the nearest double is read off the logarithm of the number
- `nearestBits_congr` — two quotients of one value have the same nearest double
- `nearestBits_of_value` — a finite double is the nearest one to its own value
-/

namespace Kestrel.Number

-- Powers of natural numbers are the built-in ones, whatever other powers are in scope.
attribute [local instance (high)] instPowNat

/-- The number that a magnitude stands for. -/
def Binary.value (b : Binary) : ℚ := b.significand * 2 ^ b.exponent

/-- The number that a decimal stands for. -/
def Decimal.value (d : Decimal) : ℚ := d.digits * 10 ^ d.exponent

/-- A power with an exponent of either sign as a quotient. -/
theorem zpow_eq_div (base : ℕ) (e : ℤ) :
    (base : ℚ) ^ e = ((base ^ e.toNat : ℕ) : ℚ) / ((base ^ (-e).toNat : ℕ) : ℚ) := by
  rcases Int.le_total 0 e with he | he
  · rw [Int.toNat_of_nonpos (by omega : -e ≤ 0)]
    obtain ⟨n, rfl⟩ := Int.eq_ofNat_of_zero_le he
    simp
  · rw [Int.toNat_of_nonpos he]
    obtain ⟨n, hn⟩ := Int.eq_ofNat_of_zero_le (by omega : 0 ≤ -e)
    obtain rfl : e = -n := by omega
    simp

theorem Binary.toRatio_value (b : Binary) : (b.toRatio.1 : ℚ) / b.toRatio.2 = b.value := by
  have hpow := zpow_eq_div 2 b.exponent
  rw [Nat.cast_two] at hpow
  rw [Binary.value, hpow, Binary.toRatio, Nat.cast_mul, mul_div_assoc]

theorem Decimal.toRatio_value (d : Decimal) : (d.toRatio.1 : ℚ) / d.toRatio.2 = d.value := by
  have hpow := zpow_eq_div 10 d.exponent
  rw [Nat.cast_ofNat] at hpow
  rw [Decimal.value, hpow, Decimal.toRatio, Nat.cast_mul, mul_div_assoc]

theorem Binary.toRatio_pos (b : Binary) : 0 < b.toRatio.2 := Nat.two_pow_pos _

theorem Decimal.toRatio_pos (d : Decimal) : 0 < d.toRatio.2 := Nat.pow_pos (by decide)

section Quotient

variable {num den num' den' : ℕ}

theorem inUnits_pos (hden : 0 < den) (num : ℕ) (e : ℤ) : 0 < (inUnits num den e).2 :=
  Nat.mul_pos hden (Nat.two_pow_pos _)

theorem inUnits_value (num den : ℕ) (e : ℤ) :
    ((inUnits num den e).1 : ℚ) / (inUnits num den e).2 = num / den / 2 ^ e := by
  have hpow := zpow_eq_div 2 e
  rw [Nat.cast_two] at hpow
  rw [hpow, inUnits, Nat.cast_mul, Nat.cast_mul, div_div_eq_mul_div, div_mul_eq_mul_div, div_div]

/-- A quotient is below a power of two of some units if the number is below the power. -/
theorem inUnits_lt_iff (hden : 0 < den) (e : ℤ) (k : ℕ) :
    (inUnits num den e).1 < (inUnits num den e).2 * 2 ^ k ↔ (num : ℚ) / den < 2 ^ (e + k) := by
  have hpos : (0 : ℚ) < (inUnits num den e).2 := Nat.cast_pos.2 (inUnits_pos hden num e)
  have htwo : (0 : ℚ) < (2 : ℚ) ^ e := zpow_pos two_pos e
  rw [zpow_add₀ two_ne_zero, zpow_natCast, mul_comm (2 ^ e : ℚ), ← div_lt_iff₀ htwo,
    ← inUnits_value, div_lt_iff₀ hpos, Nat.mul_comm]
  exact_mod_cast Iff.rfl

theorem zpow_log2_bounds (hnum : 0 < num) :
    (2 : ℚ) ^ (num.log2 : ℤ) ≤ num ∧ (num : ℚ) < 2 ^ ((num.log2 : ℤ) + 1) := by
  obtain ⟨hlow, hhigh⟩ := (Nat.log2_eq_iff hnum.ne').1 rfl
  constructor
  · exact_mod_cast hlow
  · exact_mod_cast hhigh

/-- The logarithm of a quotient is the difference of those of its parts, or one less. -/
theorem log_eq_or (hnum : 0 < num) (hden : 0 < den) :
    Int.log 2 ((num : ℚ) / den) = (num.log2 : ℤ) - den.log2 ∨
      Int.log 2 ((num : ℚ) / den) = (num.log2 : ℤ) - den.log2 - 1 := by
  have hpos : (0 : ℚ) < num / den := by positivity
  have hden' : (0 : ℚ) < den := Nat.cast_pos.2 hden
  obtain ⟨hn, hn'⟩ := zpow_log2_bounds hnum
  obtain ⟨hd, hd'⟩ := zpow_log2_bounds hden
  have hlow : (num.log2 : ℤ) - den.log2 - 1 ≤ Int.log 2 ((num : ℚ) / den) := by
    rw [← Int.zpow_le_iff_le_log Nat.one_lt_two hpos, le_div_iff₀ hden', Nat.cast_two]
    calc (2 : ℚ) ^ ((num.log2 : ℤ) - den.log2 - 1) * den
        ≤ 2 ^ ((num.log2 : ℤ) - den.log2 - 1) * 2 ^ ((den.log2 : ℤ) + 1) :=
          mul_le_mul_of_nonneg_left hd'.le (zpow_pos two_pos _).le
      _ = 2 ^ (num.log2 : ℤ) := by
          rw [← zpow_add₀ two_ne_zero]
          congr 1
          omega
      _ ≤ num := hn
  have hhigh : Int.log 2 ((num : ℚ) / den) < (num.log2 : ℤ) - den.log2 + 1 := by
    rw [← Int.lt_zpow_iff_log_lt Nat.one_lt_two hpos, div_lt_iff₀ hden', Nat.cast_two]
    calc (num : ℚ) < 2 ^ ((num.log2 : ℤ) + 1) := hn'
      _ = 2 ^ ((num.log2 : ℤ) - den.log2 + 1) * 2 ^ (den.log2 : ℤ) := by
          rw [← zpow_add₀ two_ne_zero]
          congr 1
          omega
      _ ≤ 2 ^ ((num.log2 : ℤ) - den.log2 + 1) * den :=
          mul_le_mul_of_nonneg_left hd (zpow_pos two_pos _).le
  omega

/-- The exponent of the nearest double is read off the logarithm of the number. -/
theorem exponentFor_eq (hnum : 0 < num) (hden : 0 < den) :
    exponentFor num den = max (Int.log 2 ((num : ℚ) / den) - 52) leastExponent := by
  have hpos : (0 : ℚ) < num / den := by positivity
  have hlog := log_eq_or hnum hden
  have hbelow : (inUnits num den ((num.log2 : ℤ) - den.log2 - 53)).1 <
      (inUnits num den ((num.log2 : ℤ) - den.log2 - 53)).2 * 2 ^ 53 ↔
        Int.log 2 ((num : ℚ) / den) < (num.log2 : ℤ) - den.log2 := by
    rw [inUnits_lt_iff hden, ← Int.lt_zpow_iff_log_lt Nat.one_lt_two hpos]
    simp
  simp only [exponentFor, hbelow]
  split <;> omega

theorem roundDiv_mul_right (tie : Tie) (num den : ℕ) {k : ℕ} (hk : 0 < k) :
    roundDiv tie (num * k) (den * k) = roundDiv tie num den := by
  unfold roundDiv
  rw [Nat.mul_div_mul_right _ _ hk, Nat.mul_mod_mul_right, ← Nat.mul_assoc]
  simp only [Nat.mul_lt_mul_right hk]

/-- Rounding depends on nothing but the number that a quotient stands for. -/
theorem roundDiv_congr (tie : Tie) (hden : 0 < den) (hden' : 0 < den')
    (h : (num : ℚ) / den = num' / den') : roundDiv tie num den = roundDiv tie num' den' := by
  have hcross : num * den' = num' * den := by
    rw [div_eq_div_iff (Nat.cast_pos.2 hden).ne' (Nat.cast_pos.2 hden').ne'] at h
    exact_mod_cast h
  rw [← roundDiv_mul_right tie num den hden', hcross, Nat.mul_comm den,
    roundDiv_mul_right tie num' den' hden]

/-- Two quotients of one value have the same nearest double. -/
theorem nearestBits_congr (hden : 0 < den) (hden' : 0 < den')
    (h : (num : ℚ) / den = num' / den') : nearestBits num den = nearestBits num' den' := by
  have hzero : num = 0 ↔ num' = 0 := by
    have := congrArg (· = 0) h
    simpa [hden.ne', hden'.ne'] using this
  unfold nearestBits
  by_cases hnum : num = 0
  · rw [if_pos hnum, if_pos (hzero.1 hnum)]
  · have hpos := Nat.pos_of_ne_zero hnum
    have hpos' := Nat.pos_of_ne_zero fun h => hnum (hzero.2 h)
    have hexponent : exponentFor num den = exponentFor num' den' := by
      rw [exponentFor_eq hpos hden, exponentFor_eq hpos' hden', h]
    rw [if_neg hnum, if_neg fun h => hnum (hzero.2 h)]
    simp only [hexponent]
    rw [roundDiv_congr .toEven (inUnits_pos hden _ _) (inUnits_pos hden' _ _)]
    rw [inUnits_value, inUnits_value, h]

theorem nearestBits_le (num den : ℕ) : nearestBits num den ≤ infinityBits := by
  unfold nearestBits
  split
  · exact Nat.zero_le _
  · exact Nat.min_le_right _ _

/-! ### A double is nearest to itself -/

theorem Binary.ofBits_of_lt {bits : ℕ} (h : bits < 2 ^ 52) :
    Binary.ofBits bits = ⟨bits, leastExponent⟩ := by
  rw [Binary.ofBits, if_pos (Nat.div_eq_of_lt h), Nat.mod_eq_of_lt h]

theorem Binary.ofBits_of_le {bits : ℕ} (h : 2 ^ 52 ≤ bits) :
    Binary.ofBits bits =
      ⟨2 ^ 52 + bits % 2 ^ 52, leastExponent - 1 + (bits / 2 ^ 52 : ℕ)⟩ := by
  rw [Binary.ofBits, if_neg (by omega)]

/-- The bits of a magnitude from its parts. -/
theorem bits_of_ofBits (bits : ℕ) :
    ((Binary.ofBits bits).exponent - leastExponent).toNat * 2 ^ 52 +
      (Binary.ofBits bits).significand = bits := by
  rcases Nat.lt_or_ge bits (2 ^ 52) with h | h
  · rw [Binary.ofBits_of_lt h, Int.sub_self, Int.toNat_zero, Nat.zero_mul, Nat.zero_add]
  · rw [Binary.ofBits_of_le h]
    dsimp only
    omega

theorem Binary.log_value {b : Binary} (h : 0 < b.significand) :
    Int.log 2 b.value = b.significand.log2 + b.exponent := by
  obtain ⟨hlow, hhigh⟩ := zpow_log2_bounds h
  have hpow := zpow_pos (two_pos : (0 : ℚ) < 2) b.exponent
  have hpos : 0 < b.value := mul_pos (Nat.cast_pos.2 h) hpow
  have hle : (b.significand.log2 : ℤ) + b.exponent ≤ Int.log 2 b.value := by
    rw [← Int.zpow_le_iff_le_log Nat.one_lt_two hpos, Nat.cast_two, zpow_add₀ two_ne_zero]
    exact mul_le_mul_of_nonneg_right hlow hpow.le
  have hlt : Int.log 2 b.value < b.significand.log2 + 1 + b.exponent := by
    rw [← Int.lt_zpow_iff_log_lt Nat.one_lt_two hpos, Nat.cast_two, zpow_add₀ two_ne_zero]
    exact mul_lt_mul_of_pos_right hhigh hpow
  omega

theorem Binary.significand_ofBits_pos {bits : ℕ} (hbits : 0 < bits) :
    0 < (Binary.ofBits bits).significand := by
  rcases Nat.lt_or_ge bits (2 ^ 52) with h | h
  · rwa [Binary.ofBits_of_lt h]
  · rw [Binary.ofBits_of_le h]
    exact Nat.add_pos_left (Nat.two_pow_pos 52) _

/-- The significand has its full size unless the exponent is the least one. -/
theorem Binary.exponent_ofBits {bits : ℕ} (hbits : 0 < bits) :
    (Binary.ofBits bits).exponent =
      max (Int.log 2 (Binary.ofBits bits).value - 52) leastExponent := by
  rw [Binary.log_value (Binary.significand_ofBits_pos hbits)]
  rcases Nat.lt_or_ge bits (2 ^ 52) with h | h
  · have hsize : bits.log2 < 52 := (Nat.log2_lt hbits.ne').2 h
    rw [Binary.ofBits_of_lt h]
    dsimp only
    omega
  · have hsize : (2 ^ 52 + bits % 2 ^ 52).log2 = 52 :=
      (Nat.log2_eq_iff (by omega)).2 ⟨by omega, by omega⟩
    rw [Binary.ofBits_of_le h]
    dsimp only
    omega

/-- A finite double is the nearest one to its own value. -/
theorem nearestBits_of_value {bits : ℕ} (hbits : bits < infinityBits) (hden : 0 < den)
    (h : (num : ℚ) / den = (Binary.ofBits bits).value) : nearestBits num den = bits := by
  have hnum : num = 0 ↔ (Binary.ofBits bits).significand = 0 := by
    have hzero := congrArg (· = 0) h
    simpa [Binary.value, hden.ne', (zpow_pos (two_pos : (0 : ℚ) < 2) _).ne'] using hzero
  rcases Nat.eq_zero_or_pos bits with rfl | hpos
  · rw [nearestBits, if_pos (hnum.2 rfl)]
  · have hne : num ≠ 0 := fun h => (Binary.significand_ofBits_pos hpos).ne' (hnum.1 h)
    have hexponent : exponentFor num den = (Binary.ofBits bits).exponent := by
      rw [exponentFor_eq (Nat.pos_of_ne_zero hne) hden, h, Binary.exponent_ofBits hpos]
    have hunits : roundDiv .toEven (inUnits num den (Binary.ofBits bits).exponent).1
        (inUnits num den (Binary.ofBits bits).exponent).2 = (Binary.ofBits bits).significand := by
      rw [← roundDiv_mul_self .toEven (Binary.ofBits bits).significand 1 Nat.one_pos]
      refine roundDiv_congr .toEven (inUnits_pos hden _ _) Nat.one_pos ?_
      rw [inUnits_value, h, Binary.value, mul_div_cancel_right₀ _ (zpow_pos two_pos _).ne']
      simp
    rw [nearestBits, if_neg hne]
    simp only [hexponent, hunits, bits_of_ofBits]
    exact Nat.min_eq_left hbits.le

end Quotient

end Kestrel.Number

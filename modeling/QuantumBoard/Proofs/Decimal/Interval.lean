import QuantumBoard.Decimal.Shortest
import QuantumBoard.Proofs.Decimal.Rounding

/-! # The decimals that a double is read from

Around each double lie the values that are rounded to it: up to the midpoints between it and its
neighbours, the midpoints included when its mantissa is even. -/

namespace QuantumBoard.Decimal

open Float.Model
open Float.Model.UnpackedFloat (Accuracy Sign roundWithAccuracy)

/-- The magnitude of a finite double other than zero. -/
structure Magnitude.IsDouble (m : Magnitude) : Prop where
  some : 0 < m.mantissa
  small : m.mantissa < 2 ^ 53
  least : -1074 ≤ m.exponent
  greatest : m.exponent ≤ 971
  normal : 2 ^ 52 ≤ m.mantissa ∨ m.exponent = -1074
  narrow : m.mantissa = 2 ^ 52 → -1074 < m.exponent → m.narrow = true

/-- The midpoint to the smaller neighbour, in quarters of the last place. -/
def Magnitude.low (m : Magnitude) : Nat :=
  if m.narrow then 4 * m.mantissa - 1 else 4 * m.mantissa - 2

/-- The midpoint to the larger neighbour, in quarters of the last place. -/
def Magnitude.high (m : Magnitude) : Nat := 4 * m.mantissa + 2

/-- The value is rounded to the double. -/
structure Magnitude.IsNear (m : Magnitude) (v : ℚ) : Prop where
  lower : m.low * 2 ^ (m.exponent - 2) ≤ v
  upper : v ≤ m.high * 2 ^ (m.exponent - 2)
  even : v = m.low * 2 ^ (m.exponent - 2) ∨ v = m.high * 2 ^ (m.exponent - 2) → m.mantissa % 2 = 0

variable {m : Magnitude} {v : ℚ}

/-- The power of a whole exponent, with the part below zero on the other side. -/
theorem zpow_mul_toNat {b : ℚ} (some : b ≠ 0) (i : ℤ) : b ^ i * b ^ (-i).toNat = b ^ i.toNat := by
  rw [← zpow_natCast, ← zpow_natCast, ← zpow_add₀ some]
  congr 1
  omega

theorem quarter_place (e : ℤ) : (2 : ℚ) ^ (e - 2) = 2 ^ e / 4 := by
  rw [zpow_sub₀ two_ne_zero]
  norm_num

theorem Magnitude.low_cast (some : 0 < m.mantissa) :
    (m.low : ℚ) = if m.narrow then 4 * (m.mantissa : ℚ) - 1 else 4 * (m.mantissa : ℚ) - 2 := by
  unfold low
  split
  · rw [Nat.cast_sub (by omega)]
    norm_num
  · rw [Nat.cast_sub (by omega)]
    norm_num

theorem Magnitude.high_cast : (m.high : ℚ) = 4 * (m.mantissa : ℚ) + 2 := by
  unfold high
  norm_num

/-- A double is rounded to itself. -/
theorem Magnitude.isNear_self (some : 0 < m.mantissa) :
    m.IsNear (m.mantissa * 2 ^ m.exponent) := by
  have unit : (0 : ℚ) < 2 ^ m.exponent := by positivity
  have below : (m.low : ℚ) < 4 * m.mantissa := by
    rw [low_cast some]
    split <;> linarith
  have above : 4 * (m.mantissa : ℚ) < m.high := by
    rw [high_cast]
    linarith
  have lower : m.low * 2 ^ (m.exponent - 2) < (m.mantissa : ℚ) * 2 ^ m.exponent := by
    rw [quarter_place]
    linarith [mul_lt_mul_of_pos_right below unit]
  have upper : (m.mantissa : ℚ) * 2 ^ m.exponent < m.high * 2 ^ (m.exponent - 2) := by
    rw [quarter_place]
    linarith [mul_lt_mul_of_pos_right above unit]
  refine ⟨lower.le, upper.le, ?_⟩
  rintro (tie | tie)
  · exact absurd tie lower.ne'
  · exact absurd tie upper.ne

/-- Measured in its last place, what is rounded to a double is near to its mantissa. -/
theorem Magnitude.IsNear.isNearest (near : m.IsNear v) (some : 0 < m.mantissa) :
    IsNearest (v / 2 ^ m.exponent) m.mantissa := by
  have unit : (0 : ℚ) < 2 ^ m.exponent := by positivity
  obtain ⟨lower, upper, even⟩ := near
  rw [quarter_place, low_cast some] at lower
  rw [quarter_place, high_cast] at upper
  rw [quarter_place, low_cast some, high_cast] at even
  refine ⟨?_, ?_, ?_⟩
  · rw [le_div_iff₀ unit]
    split at lower <;> linarith
  · rw [div_le_iff₀ unit]
    linarith
  · rw [div_eq_iff unit.ne', div_eq_iff unit.ne']
    rintro (tie | tie)
    · refine even (.inl ?_)
      split at lower
      · linarith
      · rw [if_neg ‹_›]
        linarith
    · exact even (.inr (by linarith))

/-- What is rounded to a double from below its leading bit is rounded up to a power of two. -/
theorem Magnitude.IsNear.carries (near : m.IsNear v) (double : m.IsDouble)
    (upper : v < 2 ^ (52 + m.exponent)) (least : m.exponent ≠ -1074) :
    m.mantissa = 2 ^ 52 ∧ 2 ^ (51 + m.exponent) ≤ v ∧
      IsNearest (v / 2 ^ (m.exponent - 1)) (2 ^ 53) := by
  have unit : (0 : ℚ) < 2 ^ m.exponent := by positivity
  rw [zpow_add₀ two_ne_zero] at upper
  have nearest := near.isNearest double.some
  have mantissa : m.mantissa = 2 ^ 52 := by
    have lower := nearest.lower
    rw [le_div_iff₀ unit] at lower
    have below : ((m.mantissa : ℚ) - 1 / 2) * 2 ^ m.exponent < 2 ^ 52 * 2 ^ m.exponent := by
      exact_mod_cast lower.trans_lt upper
    have : (m.mantissa : ℚ) < 2 ^ 52 + 1 := by linarith [(mul_lt_mul_iff_left₀ unit).mp below]
    have : m.mantissa < 2 ^ 52 + 1 := by exact_mod_cast this
    have := double.normal.resolve_right least
    omega
  have lower := near.lower
  have narrow := double.narrow mantissa (lt_of_le_of_ne double.least (Ne.symm least))
  rw [quarter_place, low_cast double.some, narrow, if_pos rfl, mantissa] at lower
  push_cast at lower
  have half : (2 : ℚ) ^ (m.exponent - 1) = 2 ^ m.exponent / 2 := by
    rw [zpow_sub₀ two_ne_zero]
    norm_num
  refine ⟨mantissa, ?_, ?_⟩
  · rw [zpow_add₀ two_ne_zero]
    norm_num at lower ⊢
    linarith
  · rw [half]
    norm_num at upper lower
    refine ⟨?_, ?_, fun _ => by decide⟩
    · rw [le_div_iff₀ (by positivity)]
      norm_num
      linarith
    · rw [div_le_iff₀ (by positivity)]
      norm_num
      linarith

/-- An exact result is rounded to the double in whose interval it lies. -/
theorem Magnitude.IsNear.roundWithAccuracy_eq (near : m.IsNear v) (double : m.IsDouble) {n : ℕ}
    {e : ℤ} {accuracy : Accuracy} (measures : Measures n e accuracy v) (fine : IsFine n e)
    (sign : Sign) :
    roundWithAccuracy Format.binary64 sign n e accuracy =
      .finite sign m.mantissa m.exponent double.some := by
  have unit : (0 : ℚ) < 2 ^ m.exponent := by positivity
  have nearest := near.isNearest double.some
  by_cases lower : 2 ^ (52 + m.exponent) ≤ v
  · -- The value has the leading bit of the double.
    have upper : v < 2 ^ (52 + m.exponent + 1) := by
      have small : (m.mantissa : ℚ) + 1 ≤ 2 ^ 53 := by exact_mod_cast double.small
      have above := nearest.upper
      rw [div_le_iff₀ unit] at above
      have below : ((m.mantissa : ℚ) + 1 / 2) * 2 ^ m.exponent < 2 ^ 53 * 2 ^ m.exponent := by
        gcongr
        linarith
      rw [show 52 + m.exponent + 1 = 53 + m.exponent by ring, zpow_add₀ two_ne_zero]
      exact_mod_cast above.trans_lt below
    have target := targetExponent_of_bounds measures fine lower upper (by linarith [double.least])
    rw [add_sub_cancel_left] at target
    exact roundWithAccuracy_of_nearest measures fine target nearest double.some double.small
  rw [not_le] at lower
  by_cases least : m.exponent = -1074
  · -- The double has the least exponent, and no leading bit is asked for.
    rw [least] at lower
    have target := targetExponent_of_lt measures fine lower
    rw [← least] at target
    exact roundWithAccuracy_of_nearest measures fine target nearest double.some double.small
  · obtain ⟨mantissa, above, carried⟩ := near.carries double lower least
    have upper : v < 2 ^ (51 + m.exponent + 1) := by
      rwa [show 51 + m.exponent + 1 = 52 + m.exponent by ring]
    have normal := lt_of_le_of_ne double.least (Ne.symm least)
    have target := targetExponent_of_bounds measures fine above upper (by omega)
    rw [show 51 + m.exponent - 52 = m.exponent - 1 by ring] at target
    rw [roundWithAccuracy_of_carry measures fine target carried]
    simp only [mantissa, sub_add_cancel]

end QuantumBoard.Decimal

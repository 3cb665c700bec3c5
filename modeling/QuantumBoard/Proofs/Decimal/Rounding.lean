import Mathlib

/-! # Rounding to a double

The exact result of an operation on doubles is a mantissa with what is behind it, as a bit for the
half and a bit for all that follows. The bits decide the nearest whole number, and the place of the
leading bit decides the exponent. -/

namespace QuantumBoard.Decimal

open Float.Model
open Float.Model.UnpackedFloat (Accuracy ExtendedMantissa Sign roundWithAccuracy shiftToExponent
  shiftToTargetExponent)

/-- The nearest whole number; of two that are equally near the even one. -/
structure IsNearest (q : ℚ) (n : ℕ) : Prop where
  lower : (n : ℚ) - 1 / 2 ≤ q
  upper : q ≤ n + 1 / 2
  even : q = n - 1 / 2 ∨ q = n + 1 / 2 → n % 2 = 0

theorem IsNearest.le {q : ℚ} {n k : ℕ} (h : IsNearest q n) (h' : IsNearest q k) : n ≤ k := by
  by_contra! less
  have next : (k : ℚ) + 1 ≤ n := by exact_mod_cast less
  have tie : q = k + 1 / 2 ∧ q = n - 1 / 2 := by
    constructor <;> linarith [h.lower, h'.upper]
  have even := h.even (.inl tie.2)
  have even' := h'.even (.inr tie.1)
  have : (n : ℚ) = (k + 1 : ℕ) := by push_cast; linarith [tie.1, tie.2]
  have : n = k + 1 := by exact_mod_cast this
  omega

theorem IsNearest.unique {q : ℚ} {n k : ℕ} (h : IsNearest q n) (h' : IsNearest q k) : n = k :=
  Nat.le_antisymm (h.le h') (h'.le h)

/-! ## The bits behind a mantissa -/

/-- The value between a mantissa and the next, as far as the two bits tell. -/
def Represents (em : ExtendedMantissa) (q : ℚ) : Prop :=
  match em.roundBit, em.stickyBit with
  | false, false => q = em.mantissa
  | false, true => (em.mantissa : ℚ) < q ∧ q < em.mantissa + 1 / 2
  | true, false => q = em.mantissa + 1 / 2
  | true, true => (em.mantissa : ℚ) + 1 / 2 < q ∧ q < em.mantissa + 1

theorem Represents.bounds {em : ExtendedMantissa} {q : ℚ} (h : Represents em q) :
    (em.mantissa : ℚ) ≤ q ∧ q < em.mantissa + 1 := by
  obtain ⟨m, half, more⟩ := em
  cases half <;> cases more <;> simp only [Represents] at h <;> constructor <;> linarith

theorem represents_exact (m : ℕ) : Represents (.ofMantissaAndAccuracy m .exact) m := rfl

theorem represents_accuracyOfFraction (m r d : ℕ) (proper : r < d) :
    Represents (.ofMantissaAndAccuracy m (UnpackedFloat.accuracyOfFraction r d)) (m + r / d) := by
  have positive : (0 : ℚ) < d := by exact_mod_cast Nat.zero_lt_of_lt proper
  have below : (r : ℚ) / d < 1 := (div_lt_one positive).mpr (by exact_mod_cast proper)
  unfold UnpackedFloat.accuracyOfFraction
  split
  · rename_i zero
    simp [ExtendedMantissa.ofMantissaAndAccuracy, Represents, zero]
  · rename_i some
    have above : (0 : ℚ) < r / d := div_pos (by exact_mod_cast Nat.pos_of_ne_zero some) positive
    cases side : compare (2 * r) d with
    | lt =>
      have half : 2 * (r : ℚ) < d := by exact_mod_cast Nat.compare_eq_lt.mp side
      have : (r : ℚ) / d < 1 / 2 := by rw [div_lt_iff₀ positive]; linarith
      simp only [ExtendedMantissa.ofMantissaAndAccuracy, Represents]
      constructor <;> linarith
    | eq =>
      have half : 2 * (r : ℚ) = d := by exact_mod_cast Nat.compare_eq_eq.mp side
      have : (r : ℚ) / d = 1 / 2 := by rw [div_eq_iff positive.ne']; linarith
      simp only [ExtendedMantissa.ofMantissaAndAccuracy, Represents]
      linarith
    | gt =>
      have half : (d : ℚ) < 2 * r := by exact_mod_cast Nat.compare_eq_gt.mp side
      have : 1 / 2 < (r : ℚ) / d := by rw [lt_div_iff₀ positive]; linarith
      simp only [ExtendedMantissa.ofMantissaAndAccuracy, Represents]
      constructor <;> linarith

theorem Represents.shiftRightOne {em : ExtendedMantissa} {q : ℚ} (h : Represents em q) :
    Represents em.shiftRightOne (q / 2) := by
  obtain ⟨m, half, more⟩ := em
  have split : (m : ℚ) = 2 * (m / 2 : ℕ) + (m % 2 : ℕ) := by
    exact_mod_cast (Nat.div_add_mod m 2).symm
  have one : ((1 : ℕ) != 0) = true := rfl
  rcases Nat.mod_two_eq_zero_or_one m with parity | parity <;> rw [parity] at split <;>
    cases half <;> cases more <;>
    simp only [Represents, ExtendedMantissa.shiftRightOne, parity, split, Nat.cast_zero,
      Nat.cast_one, add_zero, bne_self_eq_false, one, Bool.or_false, Bool.or_true,
      Bool.or_self] at h ⊢ <;>
    first | linarith | (constructor <;> linarith)

theorem Represents.shiftRight {em : ExtendedMantissa} {q : ℚ} (h : Represents em q) (n : ℕ) :
    Represents (em >>> n) (q / 2 ^ n) := by
  show Represents (Nat.repeat ExtendedMantissa.shiftRightOne n em) (q / 2 ^ n)
  induction n with
  | zero => simpa [Nat.repeat] using h
  | succ n ih =>
    have next := ih.shiftRightOne
    rwa [div_div, ← pow_succ] at next

theorem isNearest_of_lt {q : ℚ} {n : ℕ} (lower : (n : ℚ) - 1 / 2 < q) (upper : q < n + 1 / 2) :
    IsNearest q n := by
  refine ⟨lower.le, upper.le, ?_⟩
  rintro (tie | tie)
  · exact absurd tie lower.ne'
  · exact absurd tie upper.ne

theorem Represents.isNearest {em : ExtendedMantissa} {q : ℚ} (h : Represents em q) :
    IsNearest q em.roundedMantissa := by
  obtain ⟨m, half, more⟩ := em
  cases half <;> cases more <;>
    simp only [Represents, ExtendedMantissa.roundedMantissa, ExtendedMantissa.accuracy,
      Accuracy.roundToNearestEven] at h ⊢
  · exact isNearest_of_lt (by linarith) (by linarith)
  · exact isNearest_of_lt (by linarith) (by linarith)
  · rcases Nat.mod_two_eq_zero_or_one m with parity | parity <;> rw [parity]
    · exact ⟨by push_cast; linarith, by push_cast; linarith, fun _ => parity⟩
    · exact ⟨by push_cast; linarith, by push_cast; linarith, fun _ => by omega⟩
  · exact isNearest_of_lt (by push_cast; linarith) (by push_cast; linarith)

/-! ## The exponent of the result -/

theorem targetExponent_eq (k : ℤ) :
    Format.binary64.targetExponent k = max (k - 53) (-1074) := by
  simp [Format.targetExponent, Format.mantissaBits, Format.minExponent]

/-- A mantissa that is fine enough has no digit fewer than the result. -/
def IsFine (m : ℕ) (e : ℤ) : Prop :=
  e ≤ Format.binary64.targetExponent (totalExponent m e)

theorem isFine_iff {m : ℕ} {e : ℤ} : IsFine m e ↔ 52 ≤ m.log2 ∨ e ≤ -1074 := by
  rw [IsFine, targetExponent_eq, totalExponent]
  omega

/-- The value is described by the mantissa at the exponent. -/
def Measures (m : ℕ) (e : ℤ) (accuracy : Accuracy) (v : ℚ) : Prop :=
  Represents (.ofMantissaAndAccuracy m accuracy) (v / 2 ^ e)

theorem mantissa_ofMantissaAndAccuracy (m : ℕ) (accuracy : Accuracy) :
    (ExtendedMantissa.ofMantissaAndAccuracy m accuracy).mantissa = m := by
  rcases accuracy with _ | (_ | _ | _) <;> rfl

/-- The value is below the power of two behind its leading bit, and not below the one at it. -/
theorem Measures.bounds {m : ℕ} {e : ℤ} {accuracy : Accuracy} {v : ℚ}
    (h : Measures m e accuracy v) :
    v < 2 ^ (m.log2 + 1 + e : ℤ) ∧ (m ≠ 0 → 2 ^ (m.log2 + e : ℤ) ≤ v) := by
  have unit : (0 : ℚ) < 2 ^ e := by positivity
  obtain ⟨lower, upper⟩ := Represents.bounds h
  rw [mantissa_ofMantissaAndAccuracy] at lower upper
  rw [le_div_iff₀ unit] at lower
  rw [div_lt_iff₀ unit] at upper
  constructor
  · have next : (m : ℚ) + 1 ≤ 2 ^ (m.log2 + 1) := by exact_mod_cast Nat.lt_log2_self (n := m)
    have : ((m : ℚ) + 1) * 2 ^ e ≤ 2 ^ (m.log2 + 1) * 2 ^ e := by gcongr
    rw [zpow_add₀ two_ne_zero]
    exact_mod_cast upper.trans_le this
  · intro some
    have first : (2 : ℚ) ^ m.log2 ≤ m := by exact_mod_cast Nat.log2_self_le some
    have : (2 : ℚ) ^ m.log2 * 2 ^ e ≤ m * 2 ^ e := by gcongr
    rw [zpow_add₀ two_ne_zero]
    exact_mod_cast this.trans lower

variable {m : ℕ} {e k : ℤ} {accuracy : Accuracy} {v : ℚ}

theorem pow_lt_iff {i j : ℤ} : (2 : ℚ) ^ i < 2 ^ j ↔ i < j := zpow_lt_zpow_iff_right₀ one_lt_two

/-- The exponent of the result, from the place of the leading bit of the value. -/
theorem targetExponent_of_bounds (h : Measures m e accuracy v) (fine : IsFine m e)
    (lower : 2 ^ k ≤ v) (upper : v < 2 ^ (k + 1)) (normal : -1022 ≤ k) :
    Format.binary64.targetExponent (totalExponent m e) = k - 52 := by
  obtain ⟨below, above⟩ := h.bounds
  have first : k < m.log2 + 1 + e := pow_lt_iff.mp (lower.trans_lt below)
  have last : m ≠ 0 → (m.log2 : ℤ) + e < k + 1 := fun some =>
    pow_lt_iff.mp ((above some).trans_lt upper)
  rw [isFine_iff] at fine
  rw [targetExponent_eq, totalExponent]
  by_cases none : m = 0
  · subst none
    rw [Nat.log2_zero] at *
    omega
  · have := last none
    omega

/-- Below the normal doubles the exponent of the result is the least one. -/
theorem targetExponent_of_lt (h : Measures m e accuracy v) (fine : IsFine m e)
    (upper : v < 2 ^ (-1022 : ℤ)) :
    Format.binary64.targetExponent (totalExponent m e) = -1074 := by
  obtain ⟨-, above⟩ := h.bounds
  rw [isFine_iff] at fine
  rw [targetExponent_eq, totalExponent]
  by_cases none : m = 0
  · subst none
    rw [Nat.log2_zero] at *
    omega
  · have := pow_lt_iff.mp ((above none).trans_lt upper)
    omega

/-! ## Rounding -/

theorem shiftToTargetExponent_of_lt {n : ℕ} {t : ℤ} (small : n < 2 ^ 53) (least : -1074 ≤ t) :
    shiftToTargetExponent Format.binary64 n t .exact = (.ofMantissaAndAccuracy n .exact, t) := by
  have bits : n.log2 ≤ 52 := by
    by_cases none : n = 0
    · simp [none]
    · exact Nat.lt_succ_iff.mp ((Nat.log2_lt none).mpr small)
  have none : (Format.binary64.targetExponent (totalExponent n t) - t).toNat = 0 := by
    rw [targetExponent_eq, totalExponent]
    omega
  simp only [shiftToTargetExponent, shiftToExponent, none]
  simp [HShiftRight.hShiftRight, Nat.repeat]

theorem shiftToTargetExponent_carry {t : ℤ} (least : -1074 ≤ t) :
    shiftToTargetExponent Format.binary64 (2 ^ 53) t .exact =
      (.ofMantissaAndAccuracy (2 ^ 52) .exact, t + 1) := by
  have one : (Format.binary64.targetExponent (totalExponent (2 ^ 53) t) - t).toNat = 1 := by
    rw [targetExponent_eq, totalExponent, Nat.log2_two_pow]
    omega
  simp only [shiftToTargetExponent, shiftToExponent, one]
  rfl

/-- The first of the two shifts: the bits that the result has no place for are behind the
mantissa. -/
theorem represents_shiftToTargetExponent (h : Measures m e accuracy v) (fine : IsFine m e) {t : ℤ}
    (target : Format.binary64.targetExponent (totalExponent m e) = t) :
    (shiftToTargetExponent Format.binary64 m e accuracy).2 = t ∧
      Represents (shiftToTargetExponent Format.binary64 m e accuracy).1 (v / 2 ^ t) := by
  rw [IsFine, target] at fine
  have sum : e + ((t - e).toNat : ℤ) = t := by omega
  simp only [shiftToTargetExponent, shiftToExponent, target]
  refine ⟨sum, ?_⟩
  have shifted := Represents.shiftRight h (t - e).toNat
  rwa [div_div, ← zpow_natCast, ← zpow_add₀ two_ne_zero, sum] at shifted

theorem roundWithAccuracy_of_nearest {sign : Sign} (h : Measures m e accuracy v) (fine : IsFine m e)
    {t : ℤ} (target : Format.binary64.targetExponent (totalExponent m e) = t) {n : ℕ}
    (nearest : IsNearest (v / 2 ^ t) n) (some : 0 < n) (small : n < 2 ^ 53) :
    roundWithAccuracy Format.binary64 sign m e accuracy = .finite sign n t some := by
  have least : -1074 ≤ t := by
    rw [targetExponent_eq] at target
    omega
  obtain ⟨exponent, represents⟩ := represents_shiftToTargetExponent h fine target
  have rounded := represents.isNearest.unique nearest
  simp only [roundWithAccuracy, exponent, rounded, shiftToTargetExponent_of_lt small least]
  exact dif_neg some.ne'

theorem roundWithAccuracy_of_carry {sign : Sign} (h : Measures m e accuracy v) (fine : IsFine m e)
    {t : ℤ} (target : Format.binary64.targetExponent (totalExponent m e) = t)
    (nearest : IsNearest (v / 2 ^ t) (2 ^ 53)) :
    roundWithAccuracy Format.binary64 sign m e accuracy =
      .finite sign (2 ^ 52) (t + 1) (by decide) := by
  have least : -1074 ≤ t := by
    rw [targetExponent_eq] at target
    omega
  obtain ⟨exponent, represents⟩ := represents_shiftToTargetExponent h fine target
  have rounded := represents.isNearest.unique nearest
  simp only [roundWithAccuracy, exponent, rounded, shiftToTargetExponent_carry least]
  exact dif_neg (by decide)

end QuantumBoard.Decimal

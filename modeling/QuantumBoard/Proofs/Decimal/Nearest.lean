import QuantumBoard.Decimal.Numeral
import QuantumBoard.Proofs.Decimal.Double

/-! # Reading a decimal as the nearest double

A decimal is read by one product or one quotient of exact numbers, which is rounded once. So every
decimal in the interval of a double is read as that double. -/

namespace QuantumBoard.Decimal

open Float.Model
open Float.Model.UnpackedFloat (Accuracy Sign roundWithAccuracy divCore)

/-! ## Products and quotients -/

theorem measures_exact (m : ℕ) (e : ℤ) : Measures m e .exact (m * 2 ^ e) := by
  unfold Measures
  rw [mul_div_cancel_right₀ _ (by positivity)]
  exact represents_exact m

/-- The quotient of a division has a place more than the result, or the least exponent. -/
theorem divCore_measures {m₁ m₂ : ℕ} (some₁ : 0 < m₁) (some₂ : 0 < m₂) (e₁ e₂ : ℤ) :
    let result := divCore Format.binary64 m₁ e₁ m₂ e₂
    Measures result.1 result.2.1 result.2.2 (m₁ * 2 ^ e₁ / (m₂ * 2 ^ e₂)) ∧
      IsFine result.1 result.2.1 := by
  simp only [divCore]
  generalize target : min (e₁ - e₂) (Format.binary64.targetExponent
    (totalExponent m₁ e₁ - totalExponent m₂ e₂)) = t
  generalize amount : (e₁ - e₂ - t).toNat = shift
  have sum : t + (shift : ℤ) = e₁ - e₂ := by omega
  have divisor : (m₂ : ℚ) ≠ 0 := by exact_mod_cast some₂.ne'
  constructor
  · have value : (m₁ : ℚ) * 2 ^ e₁ / (m₂ * 2 ^ e₂) / 2 ^ t =
        (m₁ <<< shift / m₂ : ℕ) + (m₁ <<< shift % m₂ : ℕ) / m₂ := by
      have split : ((m₂ * (m₁ <<< shift / m₂) + m₁ <<< shift % m₂ : ℕ) : ℚ) = m₁ * 2 ^ shift := by
        rw [Nat.div_add_mod, Nat.shiftLeft_eq]
        push_cast
        rfl
      have power : (2 : ℚ) ^ e₁ = 2 ^ t * 2 ^ shift * 2 ^ e₂ := by
        rw [← zpow_natCast, ← zpow_add₀ two_ne_zero, ← zpow_add₀ two_ne_zero, sum, sub_add_cancel]
      push_cast at split
      rw [power]
      field_simp
      linarith
    unfold Measures
    rw [value]
    exact represents_accuracyOfFraction _ _ _ (Nat.mod_lt _ some₂)
  · rw [isFine_iff]
    refine or_iff_not_imp_right.mpr fun normal => ?_
    rw [targetExponent_eq, totalExponent, totalExponent] at target
    have bits : m₂.log2 + 53 ≤ m₁.log2 + shift := by omega
    have first : 2 ^ m₁.log2 ≤ m₁ := Nat.log2_self_le some₁.ne'
    have second : m₂ < 2 ^ (m₂.log2 + 1) := Nat.lt_log2_self
    have places : 2 ^ 52 * m₂ ≤ m₁ <<< shift := by
      rw [Nat.shiftLeft_eq]
      calc 2 ^ 52 * m₂ ≤ 2 ^ 52 * 2 ^ (m₂.log2 + 1) := by gcongr
        _ = 2 ^ (m₂.log2 + 53) := by rw [← pow_add]; congr 1; omega
        _ ≤ 2 ^ (m₁.log2 + shift) := Nat.pow_le_pow_right (by decide) bits
        _ = 2 ^ m₁.log2 * 2 ^ shift := pow_add ..
        _ ≤ m₁ * 2 ^ shift := by gcongr
    have quotient : 2 ^ 52 ≤ m₁ <<< shift / m₂ := (Nat.le_div_iff_mul_le some₂).mpr places
    exact (Nat.le_log2 (by positivity)).mpr quotient

section

variable {m : Magnitude} {m₁ m₂ : ℕ} {e₁ e₂ : ℤ} {some₁ : 0 < m₁} {some₂ : 0 < m₂}

theorem unpacked_mul_eq (double : m.IsDouble) (near : m.IsNear (m₁ * 2 ^ e₁ * (m₂ * 2 ^ e₂)))
    (fine : IsFine (m₁ * m₂) (e₁ + e₂)) :
    UnpackedFloat.mul Format.binary64 (.finite .positive m₁ e₁ some₁)
      (.finite .positive m₂ e₂ some₂) = .finite .positive m.mantissa m.exponent double.some := by
  have measures := measures_exact (m₁ * m₂) (e₁ + e₂)
  have value : ((m₁ * m₂ : ℕ) : ℚ) * 2 ^ (e₁ + e₂) = m₁ * 2 ^ e₁ * (m₂ * 2 ^ e₂) := by
    rw [zpow_add₀ two_ne_zero]
    push_cast
    ring
  rw [value] at measures
  exact near.roundWithAccuracy_eq double measures fine .positive

theorem unpacked_div_eq (double : m.IsDouble) (near : m.IsNear (m₁ * 2 ^ e₁ / (m₂ * 2 ^ e₂))) :
    UnpackedFloat.div Format.binary64 (.finite .positive m₁ e₁ some₁)
      (.finite .positive m₂ e₂ some₂) = .finite .positive m.mantissa m.exponent double.some := by
  obtain ⟨measures, fine⟩ := divCore_measures some₁ some₂ e₁ e₂
  exact near.roundWithAccuracy_eq double measures fine .positive

end

/-- The product or the quotient of the digits and a power of ten. -/
theorem unpacked_ofScientific_eq {m : Magnitude} (double : m.IsDouble) {n : ℕ} {e : ℤ}
    (near : m.IsNear (n * 10 ^ e)) (some : n ≠ 0) (upper : e ≤ 2 ^ 11)
    (lower : -(2 ^ 11 + n.log2 : ℤ) ≤ e) :
    UnpackedFloat.ofScientific Format.binary64 n e =
      .finite .positive m.mantissa m.exponent double.some := by
  simp only [UnpackedFloat.ofScientific]
  rw [dif_neg some, if_neg (not_lt.mpr upper), if_neg (not_lt.mpr lower)]
  split
  · rename_i whole
    obtain ⟨k, rfl⟩ := Int.eq_ofNat_of_zero_le whole
    have value : ((n <<< 53 : ℕ) : ℚ) * 2 ^ (-53 : ℤ) * ((10 ^ k : ℕ) * 2 ^ (0 : ℤ)) =
        n * 10 ^ (k : ℤ) := by
      rw [Nat.shiftLeft_eq]
      push_cast
      norm_num
      ring
    rw [← value] at near
    refine unpacked_mul_eq double near (isFine_iff.mpr (.inl ?_))
    rw [Nat.shiftLeft_eq]
    refine (Nat.le_log2 (by positivity)).mpr ?_
    calc 2 ^ 52 ≤ 1 * 2 ^ 53 * 1 := by norm_num
      _ ≤ n * 2 ^ 53 * 10 ^ k :=
        Nat.mul_le_mul (Nat.mul_le_mul_right _ (Nat.pos_of_ne_zero some)) (Nat.pow_pos (by decide))
  · rename_i part
    obtain ⟨k, rfl⟩ := Int.eq_negSucc_of_lt_zero (not_le.mp part)
    refine unpacked_div_eq double ?_
    have value : (n : ℚ) * 2 ^ (0 : ℤ) / ((10 ^ (-Int.negSucc k).toNat : ℕ) * 2 ^ (0 : ℤ)) =
        n * 10 ^ Int.negSucc k := by
      rw [zpow_zero, mul_one, mul_one, zpow_negSucc, div_eq_mul_inv]
      norm_cast
    rwa [← value] at near

/-! ## Small decimals -/

/-- The model of a double that is a given whole number, with all its bits. -/
def IsWhole (n : ℕ) (unpacked : UnpackedFloat) : Prop :=
  ∃ m e some, unpacked = .finite .positive m e some ∧ (m : ℚ) * 2 ^ e = n ∧ 2 ^ 52 ≤ m

/-- The leading bit of a number goes to the front of the mantissa. -/
theorem exists_normal_shift {n : ℕ} (some : 0 < n) (small : n < 2 ^ 53) :
    ∃ shift, n.log2 + shift = 52 ∧ 2 ^ 52 ≤ n * 2 ^ shift ∧ n * 2 ^ shift < 2 ^ 53 := by
  have bits : n.log2 < 53 := (Nat.log2_lt some.ne').mpr small
  have first : 2 ^ n.log2 ≤ n := Nat.log2_self_le some.ne'
  have last : n < 2 ^ (n.log2 + 1) := Nat.lt_log2_self
  obtain ⟨shift, sum⟩ : ∃ shift, n.log2 + shift = 52 := ⟨52 - n.log2, by omega⟩
  refine ⟨shift, sum, ?_, ?_⟩
  · calc 2 ^ 52 = 2 ^ n.log2 * 2 ^ shift := by rw [← pow_add, sum]
      _ ≤ n * 2 ^ shift := by gcongr
  · calc n * 2 ^ shift < 2 ^ (n.log2 + 1) * 2 ^ shift := by gcongr
      _ = 2 ^ 53 := by rw [← pow_add]; congr 1; omega

theorem isWhole_toFloat {n : ℕ} (some : 0 < n) (small : n < 2 ^ 53) :
    IsWhole n n.toUInt64.toFloat.toModel.unpack := by
  obtain ⟨shift, sum, normal, narrow⟩ := exists_normal_shift some small
  let m : Magnitude := ⟨n * 2 ^ shift, -shift, true⟩
  have double : m.IsDouble := by
    refine ⟨?_, narrow, ?_, ?_, .inl normal, fun _ _ => rfl⟩
    · positivity
    · show (-1074 : ℤ) ≤ -shift
      omega
    · show (-shift : ℤ) ≤ 971
      omega
  have rounded := (Magnitude.isNear_self double.some).roundWithAccuracy_eq double
    (measures_exact (n * 2 ^ shift) (-shift))
    (isFine_iff.mpr (.inl ((Nat.le_log2 double.some.ne').mpr normal))) .positive
  have read : UnpackedFloat.ofNat Format.binary64 n =
      .finite .positive m.mantissa m.exponent double.some := by
    have target : Format.binary64.targetExponent (totalExponent n 0) = -shift := by
      rw [targetExponent_eq, totalExponent]
      omega
    rw [UnpackedFloat.ofNat, UnpackedFloat.ofInt, UnpackedFloat.normalize,
      compare_gt_iff_gt.mpr (by exact_mod_cast some)]
    simp only [UnpackedFloat.round, UnpackedFloat.decreaseExponent, Int.toNat_natCast, target,
      zero_sub, Int.neg_neg, Nat.shiftLeft_eq]
    exact rounded
  refine ⟨m.mantissa, m.exponent, double.some, ?_, ?_, normal⟩
  · have value : n.toUInt64.toNat = n := Nat.mod_eq_of_lt (by omega)
    show (Float.Model.pack (UnpackedFloat.ofNat Format.binary64 n.toUInt64.toNat)).unpack = _
    rw [value, read]
    exact unpack_pack_normal double.some normal narrow double.least double.greatest
  · show ((n * 2 ^ shift : ℕ) : ℚ) * 2 ^ (-shift : ℤ) = n
    rw [zpow_neg, zpow_natCast]
    push_cast
    field_simp

/-- The model is the power of ten, with all its bits. -/
def isPowerOfTen (k : ℕ) : UnpackedFloat → Bool
  | .finite .positive m e _ => 2 ^ 52 ≤ m && m * 2 ^ e.toNat == 10 ^ k * 2 ^ (-e).toNat
  | _ => false

theorem isPowerOfTen_table : ∀ k : Fin 23,
    isPowerOfTen k (Float.exactlyRepresentablePowersOfTen[k]).toModel.unpack = true := by
  decide +kernel

theorem isWhole_of_isPowerOfTen {k : ℕ} {unpacked : UnpackedFloat}
    (h : isPowerOfTen k unpacked = true) : IsWhole (10 ^ k) unpacked := by
  unfold isPowerOfTen at h
  split at h
  · rename_i m e some
    simp only [Bool.and_eq_true, decide_eq_true_eq, beq_iff_eq] at h
    refine ⟨m, e, some, rfl, ?_, h.1⟩
    have scaled : (m : ℚ) * 2 ^ e.toNat = (10 ^ k : ℕ) * 2 ^ (-e).toNat := by exact_mod_cast h.2
    rw [← zpow_mul_toNat two_ne_zero, ← mul_assoc] at scaled
    exact mul_right_cancel₀ (by positivity) scaled
  · cases h

theorem isWhole_table {k : ℕ} (small : k < 23) :
    IsWhole (10 ^ k) (Float.exactlyRepresentablePowersOfTen[k]).toModel.unpack :=
  isWhole_of_isPowerOfTen (isPowerOfTen_table ⟨k, small⟩)

section

variable {m : Magnitude} {x y : Float} {n k : ℕ}

theorem float_mul_eq (double : m.IsDouble) (left : IsWhole n x.toModel.unpack)
    (right : IsWhole k y.toModel.unpack) (near : m.IsNear (n * k)) :
    x * y = m.toFloat double.some := by
  obtain ⟨m₁, e₁, some₁, first, value₁, bits₁⟩ := left
  obtain ⟨m₂, e₂, some₂, second, value₂, -⟩ := right
  rw [← value₁, ← value₂] at near
  have fine : IsFine (m₁ * m₂) (e₁ + e₂) := by
    refine isFine_iff.mpr (.inl ((Nat.le_log2 (by positivity)).mpr ?_))
    exact bits₁.trans (Nat.le_mul_of_pos_right _ some₂)
  show Float.ofModel (Float.Model.pack (UnpackedFloat.mul _ x.toModel.unpack y.toModel.unpack)) = _
  rw [first, second, unpacked_mul_eq double near fine, Magnitude.toFloat]

theorem float_div_eq (double : m.IsDouble) (left : IsWhole n x.toModel.unpack)
    (right : IsWhole k y.toModel.unpack) (near : m.IsNear (n / k)) :
    x / y = m.toFloat double.some := by
  obtain ⟨m₁, e₁, some₁, first, value₁, -⟩ := left
  obtain ⟨m₂, e₂, some₂, second, value₂, -⟩ := right
  rw [← value₁, ← value₂] at near
  show Float.ofModel (Float.Model.pack (UnpackedFloat.div _ x.toModel.unpack y.toModel.unpack)) = _
  rw [first, second, unpacked_div_eq double near, Magnitude.toFloat]

end

/-- A decimal is read as the double that it is rounded to. -/
theorem float_ofScientific_eq {m : Magnitude} (double : m.IsDouble) {n : ℕ} {e : ℤ}
    (near : m.IsNear (n * 10 ^ e)) (some : n ≠ 0) (upper : e ≤ 2 ^ 11)
    (lower : -(2 ^ 11 + n.log2 : ℤ) ≤ e) :
    Float.ofScientific n (decide (e < 0)) e.natAbs = m.toFloat double.some := by
  unfold Float.ofScientific
  split
  · rename_i small
    have digits := isWhole_toFloat (Nat.pos_of_ne_zero some) small.1
    have power := isWhole_table (Nat.lt_succ_of_le small.2)
    split
    · rename_i negative
      refine float_div_eq double digits power ?_
      have whole : e = -(e.natAbs : ℤ) := by
        have := of_decide_eq_true negative
        omega
      rw [whole, zpow_neg, zpow_natCast, ← div_eq_mul_inv] at near
      exact_mod_cast near
    · rename_i positive
      refine float_mul_eq double digits power ?_
      have whole : e = (e.natAbs : ℤ) := by
        have := of_decide_eq_false (Bool.eq_false_iff.mpr positive)
        omega
      rw [whole, zpow_natCast] at near
      exact_mod_cast near
  · have signed :
        (if decide (e < 0) = true then Int.negOfNat e.natAbs else Int.ofNat e.natAbs) = e := by
      by_cases negative : e < 0
      · rw [if_pos (decide_eq_true negative), Int.negOfNat_eq, Int.ofNat_eq_natCast]
        omega
      · rw [if_neg (by simpa using negative), Int.ofNat_eq_natCast]
        omega
    simp only [signed]
    rw [Float.Model.ofScientific, unpacked_ofScientific_eq double near some upper lower,
      Magnitude.toFloat]

/-! ## Decimals with any number of digits -/

theorem least_lt : (10 : ℚ) ^ (-324 : ℤ) < 1 / 2 * 2 ^ (-1074 : ℤ) := by
  have powers : (2 : ℚ) * 2 ^ 1074 < 10 ^ 324 := by
    have : 2 * 2 ^ 1074 < 10 ^ 324 := by decide +kernel
    exact_mod_cast this
  have inverse := inv_strictAnti₀ (by positivity) powers
  rw [mul_inv] at inverse
  rw [one_div]
  exact inverse

theorem lt_greatest : (2 : ℚ) ^ 53 * 2 ^ (971 : ℤ) < 10 ^ (309 : ℤ) := by
  have : 2 ^ 53 * 2 ^ 971 < 10 ^ 309 := by decide +kernel
  exact_mod_cast this

/-- What is rounded to a double is in the range of the doubles. -/
theorem Magnitude.IsNear.range {m : Magnitude} {v : ℚ} (near : m.IsNear v) (double : m.IsDouble) :
    (10 : ℚ) ^ (-324 : ℤ) < v ∧ v < 10 ^ (309 : ℤ) := by
  have unit : (0 : ℚ) < 2 ^ m.exponent := by positivity
  have nearest := near.isNearest double.some
  have lower := nearest.lower
  have upper := nearest.upper
  rw [le_div_iff₀ unit] at lower
  rw [div_le_iff₀ unit] at upper
  constructor
  · have some : (1 : ℚ) ≤ m.mantissa := by exact_mod_cast double.some
    have least : (2 : ℚ) ^ (-1074 : ℤ) ≤ 2 ^ m.exponent :=
      zpow_le_zpow_right₀ one_le_two double.least
    have half : (1 : ℚ) / 2 ≤ m.mantissa - 1 / 2 := by linarith
    calc (10 : ℚ) ^ (-324 : ℤ) < 1 / 2 * 2 ^ (-1074 : ℤ) := least_lt
      _ ≤ (m.mantissa - 1 / 2) * 2 ^ m.exponent := by gcongr
      _ ≤ v := lower
  · have small : (m.mantissa : ℚ) + 1 / 2 ≤ 2 ^ 53 := by
      have : (m.mantissa : ℚ) + 1 ≤ 2 ^ 53 := by exact_mod_cast double.small
      linarith
    have greatest : (2 : ℚ) ^ m.exponent ≤ 2 ^ (971 : ℤ) :=
      zpow_le_zpow_right₀ one_le_two double.greatest
    calc v ≤ (m.mantissa + 1 / 2) * 2 ^ m.exponent := upper
      _ ≤ 2 ^ 53 * 2 ^ (971 : ℤ) := by gcongr
      _ < 10 ^ (309 : ℤ) := lt_greatest

theorem digits_bounds {n : ℕ} (some : n ≠ 0) :
    10 ^ ((Nat.toDigits 10 n).length - 1) ≤ n ∧ n < 10 ^ (Nat.toDigits 10 n).length := by
  have digits : 0 < (Nat.toDigits 10 n).length := List.length_pos_iff.mpr Nat.toDigits_ne_nil
  refine ⟨?_, (Nat.length_toDigits_le_iff (by decide) digits).mp (le_refl _)⟩
  by_cases one : (Nat.toDigits 10 n).length - 1 = 0
  · rw [one]
    exact Nat.pos_of_ne_zero some
  · by_contra! less
    have := (Nat.length_toDigits_le_iff (by decide) (Nat.pos_of_ne_zero one)).mpr less
    omega

/-- The place of the leading digit, from bounds of the decimal. -/
theorem top_bounds {n : ℕ} (some : n ≠ 0) {e i j : ℤ} (lower : (10 : ℚ) ^ i < n * 10 ^ e)
    (upper : (n : ℚ) * 10 ^ e < 10 ^ j) :
    i < e + (Nat.toDigits 10 n).length ∧ e + (Nat.toDigits 10 n).length ≤ j := by
  have length : 0 < (Nat.toDigits 10 n).length := List.length_pos_iff.mpr Nat.toDigits_ne_nil
  obtain ⟨first, last⟩ := digits_bounds some
  generalize (Nat.toDigits 10 n).length = l at first last length ⊢
  constructor
  · have above : (n : ℚ) * 10 ^ e < 10 ^ l * 10 ^ e := by
      gcongr
      exact_mod_cast last
    rw [← zpow_natCast, ← zpow_add₀ (by norm_num)] at above
    have := (zpow_lt_zpow_iff_right₀ (by norm_num)).mp (lower.trans above)
    omega
  · have below : (10 : ℚ) ^ (l - 1 : ℕ) * 10 ^ e ≤ n * 10 ^ e := by
      gcongr
      exact_mod_cast first
    rw [← zpow_natCast, ← zpow_add₀ (by norm_num)] at below
    have := (zpow_lt_zpow_iff_right₀ (by norm_num)).mp (below.trans_lt upper)
    omega

theorem length_digits_le_log2 {n : ℕ} (some : n ≠ 0) :
    (Nat.toDigits 10 n).length ≤ n.log2 + 1 := by
  have : 2 ^ ((Nat.toDigits 10 n).length - 1) < 2 ^ (n.log2 + 1) :=
    ((Nat.pow_le_pow_left (by decide) _).trans (digits_bounds some).1).trans_lt Nat.lt_log2_self
  have := (Nat.pow_lt_pow_iff_right (by decide)).mp this
  omega

/-- A decimal that is rounded to a double is read as that double: it is nowhere near the bounds that
are read without forming it. -/
theorem nearest_eq {x : Float} (finite : x.isFinite = true) (positive : isNegative x = false)
    (some : (Magnitude.ofFloat x).mantissa ≠ 0) {n : ℕ} {e : ℤ}
    (near : (Magnitude.ofFloat x).IsNear (n * 10 ^ e)) : nearest n e = x := by
  have double := isDouble_ofFloat finite some
  obtain ⟨above, below⟩ := near.range double
  have digits : n ≠ 0 := by
    rintro rfl
    rw [Nat.cast_zero, zero_mul] at above
    exact absurd above (not_lt.mpr (by positivity))
  obtain ⟨bottom, top⟩ := top_bounds digits above below
  have bits := length_digits_le_log2 digits
  rw [nearest, if_neg digits]
  simp only
  rw [if_neg (by omega), if_neg (by omega),
    float_ofScientific_eq double near digits (by omega) (by omega)]
  exact toFloat_ofFloat finite positive double.some

end QuantumBoard.Decimal

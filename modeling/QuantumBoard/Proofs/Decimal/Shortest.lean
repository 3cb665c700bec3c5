import QuantumBoard.Proofs.Decimal.Interval

/-! # The shortest decimal of a double

Candidates are tested in whole numbers, and the test passes exactly on the decimals that are rounded
to the double. So the decimal that is found, on whichever grid, is one of them. -/

namespace QuantumBoard.Decimal

variable {m : Magnitude}

/-- The number that a decimal stands for. -/
def Scientific.value (d : Scientific) : ℚ := d.digits * 10 ^ d.exponent

/-! ## The test -/

theorem compare_eq_of_scaled {a b : ℕ} {p q unit : ℚ} (positive : 0 < unit) (left : p * unit = a)
    (right : q * unit = b) : compare a b = compare p q := by
  rcases lt_trichotomy p q with less | rfl | more
  · have : (a : ℚ) < b := by rw [← left, ← right]; gcongr
    rw [compare_lt_iff_lt.mpr less, compare_lt_iff_lt]
    exact_mod_cast this
  · have : (a : ℚ) = b := left.symm.trans right
    rw [compare_eq_iff_eq.mpr rfl, compare_eq_iff_eq]
    exact_mod_cast this
  · have : (b : ℚ) < a := by rw [← left, ← right]; gcongr
    rw [compare_gt_iff_gt.mpr more, compare_gt_iff_gt]
    exact_mod_cast this

theorem compareScaled_eq (a : ℕ) (i : ℤ) (n : ℕ) (j : ℤ) :
    compareScaled a i n j = compare ((a : ℚ) * 10 ^ i) (n * 2 ^ j) := by
  have tens := zpow_mul_toNat (b := 10) (by norm_num) i
  have twos := zpow_mul_toNat (b := 2) (by norm_num) j
  have unit : (0 : ℚ) < 10 ^ (-i).toNat * 2 ^ (-j).toNat := by positivity
  refine compare_eq_of_scaled unit ?_ ?_
  · simp only [Nat.pow_eq]
    push_cast
    rw [← tens]
    ring
  · simp only [Nat.pow_eq]
    push_cast
    rw [← twos]
    ring

theorem Magnitude.isReadFrom_iff (d : Scientific) : m.isReadFrom d = true ↔ m.IsNear d.value := by
  have tested : m.isReadFrom d = true ↔
      ((m.low : ℚ) * 2 ^ (m.exponent - 2) < d.value ∨
          m.mantissa % 2 = 0 ∧ d.value = m.low * 2 ^ (m.exponent - 2)) ∧
        (d.value < m.high * 2 ^ (m.exponent - 2) ∨
          m.mantissa % 2 = 0 ∧ d.value = m.high * 2 ^ (m.exponent - 2)) := by
    simp only [isReadFrom, compareScaled_eq, Bool.and_eq_true, Bool.or_eq_true, beq_iff_eq,
      compare_gt_iff_gt, compare_lt_iff_lt, compare_eq_iff_eq]
    rfl
  rw [tested]
  constructor
  · rintro ⟨lower, upper⟩
    refine ⟨?_, ?_, ?_⟩
    · rcases lower with less | ⟨-, tie⟩
      · exact less.le
      · exact tie.ge
    · rcases upper with less | ⟨-, tie⟩
      · exact less.le
      · exact tie.le
    · rintro (tie | tie)
      · rcases lower with less | ⟨even, -⟩
        · exact absurd tie less.ne'
        · exact even
      · rcases upper with less | ⟨even, -⟩
        · exact absurd tie less.ne
        · exact even
  · rintro ⟨lower, upper, even⟩
    constructor
    · rcases lower.lt_or_eq with less | tie
      · exact .inl less
      · exact .inr ⟨even (.inl tie.symm), tie.symm⟩
    · rcases upper.lt_or_eq with less | tie
      · exact .inl less
      · exact .inr ⟨even (.inr tie), tie⟩

/-! ## The search -/

theorem Magnitude.isReadFrom_of_nearestOn {tie : Tie} {place : ℤ} {d : Scientific}
    (found : m.nearestOn tie place = some d) : m.isReadFrom d = true := by
  unfold nearestOn at found
  simp only at found
  split at found
  · rename_i below above
    split at found
    · exact Option.some.inj found ▸ below
    · exact Option.some.inj found ▸ above
    · obtain rfl := Option.some.inj found
      split
      · exact below
      · exact above
  · rename_i below _
    exact Option.some.inj found ▸ below
  · rename_i _ above
    exact Option.some.inj found ▸ above
  · cases found

theorem Magnitude.value_exactDecimal : m.exactDecimal.value = m.mantissa * 2 ^ m.exponent := by
  unfold exactDecimal
  split
  · rename_i whole
    obtain ⟨k, exponent⟩ := Int.eq_ofNat_of_zero_le whole
    simp [Scientific.value, exponent]
  · rename_i part
    obtain ⟨k, exponent⟩ := Int.eq_negSucc_of_lt_zero (not_le.mp part)
    have split : (10 : ℚ) ^ (k + 1) = 2 ^ (k + 1) * 5 ^ (k + 1) := by
      rw [← mul_pow]
      norm_num
    simp only [Scientific.value, exponent, Nat.pow_eq, Int.neg_negSucc, Int.toNat_natCast,
      zpow_negSucc, split]
    push_cast
    field_simp

theorem Scientific.value_strip (d : Scientific) : d.strip.value = d.value := by
  induction d using Scientific.strip.induct with
  | case1 d zeros ih =>
    rw [strip, dif_pos zeros, ih]
    have digits : (d.digits : ℚ) = 10 * (d.digits / 10 : ℕ) := by
      have := Nat.div_add_mod d.digits 10
      rw [zeros.2, add_zero] at this
      exact_mod_cast this.symm
    simp only [value]
    rw [digits, zpow_add₀ (by norm_num)]
    ring
  | case2 d done => rw [strip, dif_neg done]

/-- The shortest decimal of a double is rounded to the double. -/
theorem Magnitude.isNear_shortest (some : 0 < m.mantissa) (tie : Tie) :
    m.IsNear (m.shortest tie).value := by
  rw [shortest, if_neg some.ne', Scientific.value_strip]
  cases found : (List.range 17).findSome? fun n =>
      m.nearestOn tie (m.decimalOrder - (n + 1 : ℕ)) with
  | none =>
    rw [Option.getD_none, value_exactDecimal]
    exact isNear_self some
  | some d =>
    obtain ⟨n, -, place⟩ := List.exists_of_findSome?_eq_some found
    exact (isReadFrom_iff d).mp (isReadFrom_of_nearestOn place)

end QuantumBoard.Decimal

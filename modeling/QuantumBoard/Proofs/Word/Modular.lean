import Mathlib.Data.Nat.ModEq
import QuantumBoard.Proofs.Word.Bits

/-! Words cut to their lowest bits. Cutting to `w` bits is reduction modulo `2 ^ w`, so sums,
differences and products may be cut before or after; and Newton's iteration finds the
inverse of every odd word, each step doubling the number of low bits that are right. -/

namespace QuantumBoard.Word

variable {x y a : UInt64} {w : Nat}

theorem toNat_and_lowBits (x : UInt64) (h : w ≤ 64) :
    (x &&& lowBits w).toNat = x.toNat % 2 ^ w := by
  apply Nat.eq_of_testBit_eq
  intro k
  rw [Nat.testBit_mod_two_pow]
  by_cases hk : k < 64
  · have hbit := testBit_and x (lowBits w) k
    rw [testBit_lowBits w k hk, Bool.and_comm] at hbit
    exact hbit
  · have hw : ¬k < w := by omega
    exact (testBit_of_le _ (by omega)).trans (by simp [hw])

theorem and_lowBits_of_le (x : UInt64) (h : 64 ≤ w) : x &&& lowBits w = x := by
  apply eq_of_testBit
  intro k hk
  rw [testBit_and, testBit_lowBits w k hk]
  simp [show k < w by omega]

theorem and_lowBits_idem (x : UInt64) (w : Nat) :
    x &&& lowBits w &&& lowBits w = x &&& lowBits w := by
  rw [UInt64.and_assoc, UInt64.and_self]

/-- Words with the same lowest bits and the same bits behind them are equal. -/
theorem eq_of_and_lowBits (low : x &&& lowBits w = y &&& lowBits w)
    (behind : ∀ k, w ≤ k → testBit x k = testBit y k) : x = y := by
  apply eq_of_testBit
  intro k hk
  by_cases h : k < w
  · have bit := congrArg (testBit · k) low
    simpa only [testBit_and, testBit_lowBits w k hk, h, decide_true, Bool.and_true] using bit
  · exact behind k (by omega)

/-- Words are the same in their lowest bits when they are the same modulo a power of two. -/
theorem and_lowBits_eq_iff (h : w ≤ 64) :
    x &&& lowBits w = y &&& lowBits w ↔ x.toNat % 2 ^ w = y.toNat % 2 ^ w := by
  rw [← toNat_and_lowBits x h, ← toNat_and_lowBits y h]
  exact UInt64.toNat_inj.symm

theorem toNat_mod_mod (n : Nat) (h : w ≤ 64) : n % 2 ^ 64 % 2 ^ w = n % 2 ^ w :=
  Nat.mod_mod_of_dvd n (Nat.pow_dvd_pow 2 h)

theorem add_and_lowBits (x a : UInt64) (w : Nat) :
    (x &&& lowBits w) + a &&& lowBits w = x + a &&& lowBits w := by
  by_cases h : w ≤ 64
  · rw [and_lowBits_eq_iff h, UInt64.toNat_add, UInt64.toNat_add, toNat_mod_mod _ h,
      toNat_mod_mod _ h, toNat_and_lowBits x h, Nat.mod_add_mod]
  · rw [and_lowBits_of_le x (by omega)]

theorem sub_and_lowBits (x a : UInt64) (w : Nat) :
    (x &&& lowBits w) - a &&& lowBits w = x - a &&& lowBits w := by
  rw [UInt64.sub_eq_add_neg, UInt64.sub_eq_add_neg, add_and_lowBits]

theorem mul_and_lowBits (x a : UInt64) (w : Nat) :
    (x &&& lowBits w) * a &&& lowBits w = x * a &&& lowBits w := by
  by_cases h : w ≤ 64
  · rw [and_lowBits_eq_iff h, UInt64.toNat_mul, UInt64.toNat_mul, toNat_mod_mod _ h,
      toNat_mod_mod _ h, toNat_and_lowBits x h, Nat.mod_mul_mod]
  · rw [and_lowBits_of_le x (by omega)]

/-- The number that is subtracted may be cut as well. -/
theorem rsub_and_lowBits (a x : UInt64) (w : Nat) :
    a - (x &&& lowBits w) &&& lowBits w = a - x &&& lowBits w := by
  have hneg : ∀ c : UInt64, a - c = c * -1 + a := fun c => by grind
  rw [hneg, hneg, ← add_and_lowBits, mul_and_lowBits, add_and_lowBits]

theorem xor_and_lowBits (x a : UInt64) (w : Nat) :
    ((x &&& lowBits w) ^^^ a) &&& lowBits w = (x ^^^ a) &&& lowBits w := by
  apply eq_of_testBit
  intro k _
  simp only [testBit_and, testBit_xor]
  cases testBit (lowBits w) k <;> simp

/-- No word grows when it is cut. -/
theorem and_lowBits_le (x : UInt64) (w : Nat) : x &&& lowBits w ≤ x := by
  by_cases h : w ≤ 64
  · rw [UInt64.le_iff_toNat_le, toNat_and_lowBits x h]
    exact Nat.mod_le _ _
  · rw [and_lowBits_of_le x (by omega)]
    exact UInt64.le_refl x

/-! ## Inverses of odd words -/

theorem isSet_zero_iff : isSet a 0 = true ↔ a.toNat % 2 = 1 := by
  rw [isSet_eq_testBit a (by decide), testBit, Nat.testBit_zero, decide_eq_true_iff]

/-- An odd number is its own inverse modulo eight. -/
theorem one_sub_square (odd : a.toNat % 2 = 1) : ∃ q, 1 - a * a = UInt64.ofNat (2 ^ 3) * q := by
  obtain ⟨c, hc⟩ : ∃ c, a.toNat = 4 * c + 1 ∨ a.toNat = 4 * c + 3 :=
    ⟨a.toNat / 4, by omega⟩
  rcases hc with hc | hc
  · have ha : a = 4 * UInt64.ofNat c + 1 := by
      rw [← UInt64.ofNat_toNat (x := a), hc, UInt64.ofNat_add, UInt64.ofNat_mul]
      rfl
    refine ⟨-(2 * UInt64.ofNat c * UInt64.ofNat c + UInt64.ofNat c), ?_⟩
    rw [ha, show UInt64.ofNat (2 ^ 3) = 8 from rfl]
    grind
  · have ha : a = 4 * UInt64.ofNat c + 3 := by
      rw [← UInt64.ofNat_toNat (x := a), hc, UInt64.ofNat_add, UInt64.ofNat_mul]
      rfl
    refine ⟨-(2 * UInt64.ofNat c * UInt64.ofNat c + 3 * UInt64.ofNat c + 1), ?_⟩
    rw [ha, show UInt64.ofNat (2 ^ 3) = 8 from rfl]
    grind

/-- A step of the iteration squares the error. -/
theorem one_sub_newtonStep (a inverse : UInt64) :
    1 - a * newtonStep a inverse = (1 - a * inverse) * (1 - a * inverse) := by
  unfold newtonStep
  grind

/-- After `k` steps, `3 * 2 ^ k` low bits of the product with the inverse are those of one. -/
theorem one_sub_newton (odd : a.toNat % 2 = 1) (k : Nat) :
    ∃ q, 1 - a * Nat.repeat (newtonStep a) k a = UInt64.ofNat (2 ^ (3 * 2 ^ k)) * q := by
  induction k with
  | zero => exact one_sub_square odd
  | succ k ih =>
    obtain ⟨q, hq⟩ := ih
    refine ⟨q * q, ?_⟩
    have hp : 2 ^ (3 * 2 ^ (k + 1)) = 2 ^ (3 * 2 ^ k) * 2 ^ (3 * 2 ^ k) := by
      rw [← Nat.pow_add, Nat.pow_succ]
      congr 1
      omega
    rw [Nat.repeat, one_sub_newtonStep, hq, hp, UInt64.ofNat_mul]
    grind

/-- Where the error of an inverse has no bits, the product of the two numbers is one. -/
theorem modEq_one_of_one_sub {m : Nat} {q : UInt64} (h : 1 - x * y = UInt64.ofNat (2 ^ m) * q) :
    x.toNat * y.toNat ≡ 1 [MOD 2 ^ min 64 m] := by
  have whole : 1 = x * y + UInt64.ofNat (2 ^ m) * q := by
    rw [← h]
    grind
  have error : 2 ^ min 64 m ∣ 2 ^ m % 2 ^ 64 :=
    (Nat.dvd_mod_iff (Nat.pow_dvd_pow 2 (Nat.min_le_left 64 m))).mpr
      (Nat.pow_dvd_pow 2 (Nat.min_le_right 64 m))
  have wrapped : x.toNat * y.toNat + 2 ^ m % 2 ^ 64 * q.toNat ≡ 1 [MOD 2 ^ 64] := by
    have numbers := congrArg UInt64.toNat whole
    rw [UInt64.toNat_add, UInt64.toNat_mul, UInt64.toNat_mul, UInt64.toNat_ofNat',
      UInt64.toNat_one, ← Nat.add_mod] at numbers
    exact numbers.symm
  calc x.toNat * y.toNat
      ≡ x.toNat * y.toNat + 2 ^ m % 2 ^ 64 * q.toNat [MOD 2 ^ min 64 m] :=
        (Nat.add_modEq_left_iff.mpr (error.mul_right q.toNat)).symm
    _ ≡ 1 [MOD 2 ^ min 64 m] := wrapped.of_dvd (Nat.pow_dvd_pow 2 (Nat.min_le_left 64 m))

theorem mul_oddInverse (odd : a.toNat % 2 = 1) : a * oddInverse a = 1 := by
  obtain ⟨q, hq⟩ := one_sub_newton odd 6
  have hzero : UInt64.ofNat (2 ^ (3 * 2 ^ 6)) = 0 := by decide
  rw [hzero, UInt64.zero_mul] at hq
  unfold oddInverse
  grind

/-- The iteration starts with three right bits of the inverse of an odd number and doubles them
with each step; so six steps find the inverse modulo every power of two that words have. -/
theorem newton_doubles_right_bits (odd : a.toNat % 2 = 1) :
    (∀ k, a.toNat * (Nat.repeat (newtonStep a) k a).toNat ≡ 1 [MOD 2 ^ min 64 (3 * 2 ^ k)]) ∧
      oddInverse a * a = 1 ∧
      ∀ w ≤ 64, (oddInverse a).toNat * a.toNat ≡ 1 [MOD 2 ^ w] := by
  have right : ∀ k,
      a.toNat * (Nat.repeat (newtonStep a) k a).toNat ≡ 1 [MOD 2 ^ min 64 (3 * 2 ^ k)] := by
    intro k
    obtain ⟨q, error⟩ := one_sub_newton odd k
    exact modEq_one_of_one_sub error
  refine ⟨right, ?_, fun w fit => ?_⟩
  · rw [UInt64.mul_comm, mul_oddInverse odd]
  · have six : a.toNat * (oddInverse a).toNat ≡ 1 [MOD 2 ^ 64] := right 6
    rw [Nat.mul_comm]
    exact six.of_dvd (Nat.pow_dvd_pow 2 fit)

/-- Of eleven, the first step has the six low bits right, and the last one the whole word. -/
theorem newton_doubles_right_bits_eleven :
    11 * (newtonStep 11 11).toNat ≡ 1 [MOD 2 ^ 6] ∧
      oddInverse 11 = 0x2E8BA2E8BA2E8BA3 ∧ 0x2E8BA2E8BA2E8BA3 * 11 = (1 : UInt64) := by
  obtain ⟨right, whole, -⟩ := @newton_doubles_right_bits 11 (by decide)
  have inverse : oddInverse 11 = 0x2E8BA2E8BA2E8BA3 := by decide
  rw [inverse] at whole
  exact ⟨right 1, inverse, whole⟩

end QuantumBoard.Word

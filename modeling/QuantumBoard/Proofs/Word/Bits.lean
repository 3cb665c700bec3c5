import Mathlib.Algebra.Group.Nat.Defs
import QuantumBoard.Word

/-! Words bit by bit. Two words with the same 64 bits are equal, and every operation on words
is known from the bits of its result: this is how statements about states are proved, with
no arithmetic on the words themselves. Rows stay below 64, where a shift by a row is what
it looks like. -/

namespace QuantumBoard.Word

/-- Bit `k` of a word; none is set from 64 on. -/
def testBit (x : UInt64) (k : Nat) : Bool := x.toNat.testBit k

theorem testBit_of_le (x : UInt64) {k : Nat} (h : 64 ≤ k) : testBit x k = false :=
  Nat.testBit_lt_two_pow
    (Nat.lt_of_lt_of_le x.toNat_lt (Nat.pow_le_pow_right (by decide) h))

theorem eq_of_testBit {x y : UInt64} (h : ∀ k < 64, testBit x k = testBit y k) : x = y := by
  apply UInt64.toNat.inj
  apply Nat.eq_of_testBit_eq
  intro k
  by_cases hk : k < 64
  · exact h k hk
  · exact (testBit_of_le x (by omega)).trans (testBit_of_le y (by omega)).symm

@[simp] theorem testBit_zero (k : Nat) : testBit 0 k = false := by
  simp [testBit]

theorem testBit_one (k : Nat) : testBit 1 k = decide (k = 0) := by
  rw [testBit, UInt64.toNat_one]
  cases k with
  | zero => rfl
  | succ k => simp [Nat.testBit_succ]

@[simp] theorem testBit_and (x y : UInt64) (k : Nat) :
    testBit (x &&& y) k = (testBit x k && testBit y k) := by
  simp [testBit]

@[simp] theorem testBit_or (x y : UInt64) (k : Nat) :
    testBit (x ||| y) k = (testBit x k || testBit y k) := by
  simp [testBit]

@[simp] theorem testBit_xor (x y : UInt64) (k : Nat) :
    testBit (x ^^^ y) k = (testBit x k ^^ testBit y k) := by
  simp [testBit]

theorem testBit_not (x : UInt64) {k : Nat} (h : k < 64) : testBit (~~~x) k = !testBit x k := by
  have hs : UInt64.size - 1 - x.toNat = 2 ^ 64 - (x.toNat + 1) := by
    have : UInt64.size = 2 ^ 64 := rfl
    omega
  rw [testBit, UInt64.toNat_not, hs, Nat.testBit_two_pow_sub_succ x.toNat_lt]
  simp [h, testBit]

theorem toNat_amount {r : Nat} (h : r < 64) : (amount r).toNat = r := by
  rw [amount, UInt64.toNat_ofNat']
  omega

theorem testBit_shiftLeft (x : UInt64) {r : Nat} (h : r < 64) (k : Nat) :
    testBit (x <<< amount r) k = (decide (k < 64) && decide (r ≤ k) && testBit x (k - r)) := by
  rw [testBit, UInt64.toNat_shiftLeft, toNat_amount h, Nat.mod_eq_of_lt h,
    Nat.testBit_mod_two_pow, Nat.testBit_shiftLeft, testBit, ← Bool.and_assoc]

theorem testBit_shiftRight (x : UInt64) {r : Nat} (h : r < 64) (k : Nat) :
    testBit (x >>> amount r) k = testBit x (r + k) := by
  rw [testBit, UInt64.toNat_shiftRight, toNat_amount h, Nat.mod_eq_of_lt h,
    Nat.testBit_shiftRight, testBit]

/-! ## Single bits -/

theorem testBit_bit (x : UInt64) {r : Nat} (h : r < 64) (k : Nat) :
    testBit (bit x r) k = (decide (k = 0) && testBit x r) := by
  rw [bit, testBit_and, testBit_shiftRight x h, testBit_one, Bool.and_comm]
  by_cases hk : k = 0 <;> simp [hk]

theorem isSet_eq_testBit (x : UInt64) {r : Nat} (h : r < 64) : isSet x r = testBit x r := by
  have hone : ∀ b : Bool, (bit x r = if b then 1 else 0) → isSet x r = b := by
    intro b hb
    rw [isSet, hb]
    cases b <;> rfl
  apply hone
  apply eq_of_testBit
  intro k _
  rw [testBit_bit x h]
  cases testBit x r <;> simp [testBit_one]

theorem testBit_single {r : Nat} (h : r < 64) (k : Nat) :
    testBit (single r) k = decide (k = r) := by
  rw [single, testBit_shiftLeft 1 h, testBit_one]
  simp only [← Bool.decide_and]
  exact decide_eq_decide.mpr (by omega)

/-- A single bit moved to another place. -/
theorem testBit_bit_shiftLeft (x : UInt64) {i r : Nat} (hi : i < 64) (h : r < 64) (k : Nat) :
    testBit (bit x i <<< amount r) k = (decide (k = r) && testBit x i) := by
  rw [testBit_shiftLeft _ h, testBit_bit x hi]
  cases testBit x i with
  | false => simp
  | true =>
    simp only [Bool.and_true, ← Bool.decide_and]
    exact decide_eq_decide.mpr (by omega)

theorem testBit_write (s v : UInt64) {i r : Nat} (hi : i < 64) (h : r < 64) (k : Nat)
    (hk : k < 64) :
    testBit (write s r (bit v i)) k = if k = r then testBit v i else testBit s k := by
  rw [write, testBit_or, testBit_and, testBit_not _ hk, testBit_single h,
    testBit_bit_shiftLeft v hi h]
  by_cases he : k = r <;> simp [he]

theorem toNat_single {r : Nat} (h : r < 64) : (single r).toNat = 2 ^ r := by
  rw [single, UInt64.toNat_shiftLeft, toNat_amount h, Nat.mod_eq_of_lt h, UInt64.toNat_one,
    Nat.shiftLeft_eq, Nat.one_mul, Nat.mod_eq_of_lt (Nat.pow_lt_pow_right (by decide) h)]

theorem one_le_single {r : Nat} (h : r < 64) : 1 ≤ single r := by
  rw [UInt64.le_iff_toNat_le, toNat_single h]
  exact Nat.one_le_two_pow

theorem testBit_lowBits (w k : Nat) (hk : k < 64) : testBit (lowBits w) k = decide (k < w) := by
  unfold lowBits
  split
  · have hlt : k < w := by omega
    have hones : (0xFFFFFFFFFFFFFFFF : UInt64).toNat = 2 ^ 64 - 1 := rfl
    rw [testBit, hones, Nat.testBit_two_pow_sub_one]
    simp [hk, hlt]
  · have hw : w < 64 := by omega
    rw [testBit, UInt64.toNat_sub_of_le _ _ (one_le_single hw), toNat_single hw,
      UInt64.toNat_one, Nat.testBit_two_pow_sub_one]

end QuantumBoard.Word

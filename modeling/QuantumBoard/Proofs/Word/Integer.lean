import Mathlib.Data.Int.ModEq
import Mathlib.Data.Nat.Digits.Defs
import QuantumBoard.Proofs.Word.Modular

/-! # Words as integers

A word represents the integers that leave its number modulo `2 ^ 64`. Sums, differences and
products of words represent those of the integers, also where they wrap around; and a word cut to
its lowest bits is the remainder of every integer that it represents. -/

namespace QuantumBoard.Word

/-- A word cut to `w` bits is the remainder of its number. -/
theorem toNat_cut (x : UInt64) (w : Nat) : (x &&& lowBits w).toNat = x.toNat % 2 ^ min w 64 := by
  rcases Nat.le_total w 64 with h | h
  · rw [Nat.min_eq_left h, toNat_and_lowBits x h]
  · rw [Nat.min_eq_right h, and_lowBits_of_le x h, Nat.mod_eq_of_lt x.toNat_lt]

/-- The word is the integer modulo `2 ^ 64`. -/
def Represents (x : UInt64) (n : ℤ) : Prop := (x.toNat : ℤ) ≡ n [ZMOD 2 ^ 64]

namespace Represents

variable {x y : UInt64} {m n : ℤ}

theorem self (x : UInt64) : Represents x x.toNat := Int.ModEq.refl _

theorem one : Represents 1 1 := self 1

theorem add (hx : Represents x m) (hy : Represents y n) : Represents (x + y) (m + n) := by
  refine Int.ModEq.trans ?_ (Int.ModEq.add hx hy)
  rw [UInt64.toNat_add, Int.natCast_mod, Int.natCast_add]
  exact Int.mod_modEq _ _

theorem mul (hx : Represents x m) (hy : Represents y n) : Represents (x * y) (m * n) := by
  refine Int.ModEq.trans ?_ (Int.ModEq.mul hx hy)
  rw [UInt64.toNat_mul, Int.natCast_mod, Int.natCast_mul]
  exact Int.mod_modEq _ _

theorem sub (hx : Represents x m) (hy : Represents y n) : Represents (x - y) (m - n) := by
  have sum : ((x - y).toNat : ℤ) + y.toNat ≡ x.toNat [ZMOD 2 ^ 64] := by
    have h := (self (x - y)).add (self y)
    rw [UInt64.sub_add_cancel] at h
    exact h.symm
  have difference := (sum.trans hx).sub hy
  rwa [Int.add_sub_cancel] at difference

/-- A word cut to `w` bits is the remainder of every integer that it represents. -/
theorem cut (h : Represents x n) (w : Nat) :
    ((x &&& lowBits w).toNat : ℤ) = n % (2 ^ min w 64 : Nat) := by
  have divides : ((2 ^ min w 64 : Nat) : ℤ) ∣ 2 ^ 64 := by
    exact_mod_cast Nat.pow_dvd_pow 2 (Nat.min_le_right w 64)
  rw [toNat_cut, Int.natCast_mod]
  exact h.of_dvd divides

end Represents

/-! ## Counting bits -/

/-- The number of ones among the binary digits of a number. -/
def ones (n : Nat) : Nat := (Nat.digits 2 n).sum

theorem ones_eq_sum {w n : Nat} (h : n < 2 ^ w) :
    ones n = ((List.range w).map fun k => (n.testBit k).toNat).sum := by
  induction w generalizing n with
  | zero =>
    obtain rfl : n = 0 := by simpa using h
    rfl
  | succ w ih =>
    -- the lowest digit first, then the digits of the half
    have half : n / 2 < 2 ^ w := by omega
    have digits : ones n = n % 2 + ones (n / 2) := by
      rcases Nat.eq_zero_or_pos n with rfl | pos
      · rfl
      · rw [ones, Nat.digits_def' (by decide) pos, List.sum_cons, ones]
    have lowest : (n.testBit 0).toNat = n % 2 := by
      rw [Nat.testBit_zero]
      rcases Nat.mod_two_eq_zero_or_one n with parity | parity <;> simp [parity]
    rw [digits, ih half, List.range_succ_eq_map, List.map_cons, List.sum_cons, lowest, List.map_map]
    congr 3
    funext k
    exact congrArg Bool.toNat (Nat.testBit_succ n k).symm

theorem toNat_bit (x : UInt64) {row : Nat} (h : row < 64) :
    (bit x row).toNat = (testBit x row).toNat := by
  apply Nat.eq_of_testBit_eq
  intro k
  have shown := testBit_bit x h k
  rw [testBit] at shown
  rw [shown]
  cases testBit x row <;> cases k <;> simp [Nat.testBit_succ]

/-- A sum of bits that has room in a word. -/
theorem toNat_foldl_bit (x : UInt64) {rows : List Nat} (range : ∀ r ∈ rows, r < 64) {n : UInt64}
    (fit : n.toNat + rows.length < 2 ^ 64) :
    (rows.foldl (fun n row => n + bit x row) n).toNat =
      n.toNat + (rows.map fun row => (testBit x row).toNat).sum := by
  induction rows generalizing n with
  | nil => simp
  | cons row rows ih =>
    have one := Bool.toNat_le (testBit x row)
    rw [List.length_cons] at fit
    have next : (n + bit x row).toNat = n.toNat + (testBit x row).toNat := by
      rw [UInt64.toNat_add, toNat_bit x (range row List.mem_cons_self), Nat.mod_eq_of_lt (by omega)]
    rw [List.foldl_cons, ih (fun r hr => range r (List.mem_cons_of_mem _ hr)) (by omega), next,
      List.map_cons, List.sum_cons, Nat.add_assoc]

/-- The set bits of a word are the ones of its number. -/
theorem toNat_count (x : UInt64) : (count x).toNat = ones x.toNat := by
  have range : ∀ r ∈ List.range 64, r < 64 := fun r hr => List.mem_range.mp hr
  rw [count, toNat_foldl_bit x range (by simp), ones_eq_sum x.toNat_lt]
  exact Nat.zero_add _

end QuantumBoard.Word

import Mathlib.Data.Nat.Prime.Basic
import QuantumBoard.Gate.Transform
import QuantumBoard.Proofs.Word.Integer

/-! # Transforms on integers

What a transform leaves in a register is a remainder of the number that it computes over the
integers, whatever wraps around on the way there. Only the division is no such formula: the number
it leaves is the one whose product with the input is the number that was there. -/

namespace QuantumBoard

open Word (Represents oddInverse ones)

/-- The relation between two numbers that a comparison tests. -/
def Comparison.Relates (a b : Nat) : Comparison → Prop
  | less => a < b
  | greater => b < a
  | lessOrEqual => a ≤ b
  | greaterOrEqual => b ≤ a
  | equal => a = b
  | notEqual => a ≠ b

theorem Comparison.holds_iff (relation : Comparison) (a b : UInt64) :
    relation.holds a b = true ↔ relation.Relates a.toNat b.toNat := by
  cases relation <;>
    simp [holds, Relates, UInt64.lt_iff_toNat_lt, UInt64.le_iff_toNat_le, UInt64.toNat_inj]

namespace Transform

/-- The number `y` that a transform leaves in a register of `m` states in which it found `x`, when
the numbers in its inputs are `a` and `b`. -/
def Yields (m x a b y : Nat) : Transform → Prop
  | increment => (y : ℤ) = (x + 1) % m
  | decrement => (y : ℤ) = (x - 1) % m
  | addA => (y : ℤ) = (x + a) % m
  | subA => (y : ℤ) = (x - a) % m
  | addSquare => (y : ℤ) = (x + a * a) % m
  | subSquare => (y : ℤ) = (x - a * a) % m
  | addProduct => (y : ℤ) = (x + a * b) % m
  | subProduct => (y : ℤ) = (x - a * b) % m
  | addCount => (y : ℤ) = (x + ones a) % m
  | subCount => (y : ℤ) = (x - ones a) % m
  | xorA => y = (x ^^^ a) % m
  | flipBelow => (x < a → (y : ℤ) = (a - x - 1) % m) ∧ (a ≤ x → y = x % m)
  | mulA => (Odd a → y = x * a % m) ∧ (Even a → y = x % m)
  | divA =>
    (Odd a → y < m ∧ y * a ≡ x [MOD m] ∧ ∀ z < m, z * a ≡ x [MOD m] → z = y) ∧
      (Even a → y = x % m)
  | compare relation =>
    (relation.Relates a b → y = (x % m ^^^ 1) % m) ∧ (¬relation.Relates a b → y = x % m)

theorem toNat_apply (t : Transform) (x a b : UInt64) (w : Nat) :
    (t.apply x [a, b] w).toNat = (t.wide x a b).toNat % 2 ^ min w 64 := Word.toNat_cut _ w

theorem represents_count (a : UInt64) : Represents (Word.count a) (ones a.toNat) := by
  rw [← Word.toNat_count]
  exact .self _

/-- A product with the inverse of an odd word is a quotient modulo each power of two, and there is
no other. -/
theorem quotient {a : UInt64} (odd : Odd a.toNat) (x : UInt64) (w : Nat) :
    let y := (x * oddInverse a).toNat % 2 ^ min w 64
    y * a.toNat ≡ x.toNat [MOD 2 ^ min w 64] ∧
      ∀ z < 2 ^ min w 64, z * a.toNat ≡ x.toNat [MOD 2 ^ min w 64] → z = y := by
  intro y
  have product : x * oddInverse a * a = x := by
    rw [UInt64.mul_assoc, UInt64.mul_comm _ a, Word.mul_oddInverse (Nat.odd_iff.mp odd),
      UInt64.mul_one]
  have whole : (x * oddInverse a).toNat * a.toNat ≡ x.toNat [MOD 2 ^ 64] := by
    rw [Nat.ModEq, ← UInt64.toNat_mul, product, Nat.mod_eq_of_lt x.toNat_lt]
  have divides : y * a.toNat ≡ x.toNat [MOD 2 ^ min w 64] :=
    ((Nat.mod_modEq _ _).mul_right _).trans
      (whole.of_dvd (Nat.pow_dvd_pow 2 (Nat.min_le_right w 64)))
  refine ⟨divides, fun z small other => ?_⟩
  have coprime : (2 ^ min w 64).gcd a.toNat = 1 :=
    Nat.Coprime.pow_left _ odd.coprime_two_left
  exact ((other.trans divides.symm).cancel_right_of_coprime coprime).eq_of_lt_of_lt small
    (Nat.mod_lt _ (Nat.two_pow_pos _))

theorem yields_flipBelow (x a b : UInt64) (w : Nat) :
    flipBelow.Yields (2 ^ min w 64) x.toNat a.toNat b.toNat (flipBelow.apply x [a, b] w).toNat := by
  constructor
  · intro below
    have below : x < a := UInt64.lt_iff_toNat_lt.mpr below
    have reflected : Represents (wide x a b flipBelow) (a.toNat - x.toNat - 1) := by
      rw [wide, if_pos below]
      exact ((Represents.self a).sub (.self x)).sub .one
    exact reflected.cut w
  · intro above
    have above : ¬x < a := UInt64.not_lt.mpr (UInt64.le_iff_toNat_le.mpr above)
    rw [toNat_apply, wide, if_neg above]

theorem yields_compare (relation : Comparison) (x a b : UInt64) (w : Nat) :
    (compare relation).Yields (2 ^ min w 64) x.toNat a.toNat b.toNat
      ((compare relation).apply x [a, b] w).toNat := by
  constructor
  · intro relates
    rw [toNat_apply, wide, if_pos ((relation.holds_iff a b).mpr relates), UInt64.toNat_xor,
      Nat.xor_mod_two_pow, Nat.xor_mod_two_pow, Nat.mod_mod]
    rfl
  · intro apart
    rw [toNat_apply, wide, if_neg (mt (relation.holds_iff a b).mp apart)]

theorem isSet_of_odd {a : UInt64} (odd : Odd a.toNat) : Word.isSet a 0 = true :=
  Word.isSet_zero_iff.mpr (Nat.odd_iff.mp odd)

theorem not_isSet_of_even {a : UInt64} (even : Even a.toNat) : ¬Word.isSet a 0 = true := by
  rw [Word.isSet_zero_iff, Nat.even_iff.mp even]
  decide

/-- On registers of every width, transforms are what they are called: arithmetic on integers modulo
the number of states of the register, which is never more than `2 ^ 64`. -/
theorem apply_yields (t : Transform) (x a b : UInt64) (w : Nat) :
    t.Yields (2 ^ min w 64) x.toNat a.toNat b.toNat (t.apply x [a, b] w).toNat := by
  cases t with
  | increment => exact ((Represents.self x).add .one).cut w
  | decrement => exact ((Represents.self x).sub .one).cut w
  | addA => exact ((Represents.self x).add (.self a)).cut w
  | subA => exact ((Represents.self x).sub (.self a)).cut w
  | addSquare => exact ((Represents.self x).add ((Represents.self a).mul (.self a))).cut w
  | subSquare => exact ((Represents.self x).sub ((Represents.self a).mul (.self a))).cut w
  | addProduct => exact ((Represents.self x).add ((Represents.self a).mul (.self b))).cut w
  | subProduct => exact ((Represents.self x).sub ((Represents.self a).mul (.self b))).cut w
  | addCount => exact ((Represents.self x).add (represents_count a)).cut w
  | subCount => exact ((Represents.self x).sub (represents_count a)).cut w
  | xorA => exact (toNat_apply xorA x a b w).trans (by rw [wide, UInt64.toNat_xor])
  | flipBelow => exact yields_flipBelow x a b w
  | mulA =>
    constructor
    · intro odd
      rw [toNat_apply, wide, if_pos (isSet_of_odd odd), UInt64.toNat_mul,
        Nat.mod_mod_of_dvd _ (Nat.pow_dvd_pow 2 (Nat.min_le_right w 64))]
    · intro even
      rw [toNat_apply, wide, if_neg (not_isSet_of_even even)]
  | divA =>
    constructor
    · intro odd
      rw [toNat_apply, wide, if_pos (isSet_of_odd odd)]
      exact ⟨Nat.mod_lt _ (Nat.two_pow_pos _), quotient odd x w⟩
    · intro even
      rw [toNat_apply, wide, if_neg (not_isSet_of_even even)]
  | compare relation => exact yields_compare relation x a b w

end Transform

end QuantumBoard

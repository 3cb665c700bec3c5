import QuantumBoard.Proofs.Decimal.Nearest
import QuantumBoard.Proofs.Decimal.Plain
import QuantumBoard.Proofs.Decimal.Shortest

/-! # Doubles are read back from their digits

The text of a decimal is read as the double nearest to the decimal, wherever its point is. The
shortest decimal of a finite double is rounded to that double, and so the digits of every finite
double are read back as the double. -/

namespace QuantumBoard.Decimal

/-! ## The number that digits spell -/

theorem ofDigits_eq (ds : List Char) : ofDigits ds = Nat.ofDigitChars 10 ds 0 :=
  Nat.ofDigitChars_eq_foldl.symm

theorem ofDigits_toDigits (n : ℕ) : ofDigits (Nat.toDigits 10 n) = n := by
  rw [ofDigits_eq, Nat.ofDigitChars_ten_toDigits]

theorem ofDigits_zeros_after (ds : List Char) (k : ℕ) :
    ofDigits (ds ++ List.replicate k '0') = 10 ^ k * ofDigits ds := by
  rw [ofDigits_eq, ofDigits_eq, Nat.ofDigitChars_append, Nat.ofDigitChars_replicate_zero]

theorem ofDigits_zeros_before (ds : List Char) (k : ℕ) :
    ofDigits (List.replicate k '0' ++ ds) = ofDigits ds := by
  rw [ofDigits_eq, ofDigits_eq, Nat.ofDigitChars_append, Nat.ofDigitChars_replicate_zero, mul_zero]

/-! ## Positional texts -/

/-- The text is read as the double nearest to the number. -/
def IsReadAs (cs : List Char) (v : ℚ) : Prop :=
  ∃ n e, unsigned? cs = some (nearest n e) ∧ n * 10 ^ (e : ℤ) = v

section

variable {ds fs : List Char} (some : ds ≠ []) (digits : ∀ c ∈ ds, c.isDigit = true)

include some digits

theorem isReadAs_whole : IsReadAs ds (ofDigits ds) := by
  refine ⟨ofDigits ds, 0, ?_, by simp⟩
  rw [unsigned?, List.takeWhile_eq_self_iff.mpr digits, List.dropWhile_eq_nil_iff.mpr digits]
  simp [some, exponent?, ofParts]

theorem isReadAs_point (fraction : ∀ c ∈ fs, c.isDigit = true) :
    IsReadAs (ds ++ '.' :: fs) (ofDigits (ds ++ fs) / 10 ^ fs.length) := by
  refine ⟨ofDigits (ds ++ fs), -fs.length, ?_, ?_⟩
  · have point : ¬ ('.').isDigit = true := by decide
    rw [unsigned?, List.takeWhile_append_of_pos digits, List.dropWhile_append_of_pos digits,
      List.takeWhile_cons_of_neg point, List.dropWhile_cons_of_neg point, List.append_nil]
    simp only [List.takeWhile_eq_self_iff.mpr fraction, List.dropWhile_eq_nil_iff.mpr fraction]
    simp [some, exponent?, ofParts]
  · rw [zpow_neg, zpow_natCast, div_eq_mul_inv]

end

/-- The text of a decimal is read as the double nearest to the decimal. -/
theorem Scientific.isReadAs_positional (d : Scientific) : IsReadAs d.positional d.value := by
  have zeros (k : ℕ) : ∀ c ∈ List.replicate k '0', c.isDigit = true := fun _ =>
    isDigit_of_mem_replicate
  have digits : ∀ c ∈ Nat.toDigits 10 d.digits, c.isDigit = true := fun c hc =>
    Nat.isDigit_of_mem_toDigits (by decide) (by decide) hc
  have some : Nat.toDigits 10 d.digits ≠ [] := Nat.toDigits_ne_nil
  have number := ofDigits_toDigits d.digits
  unfold positional
  generalize Nat.toDigits 10 d.digits = ds at digits some number ⊢
  simp only
  split
  · -- The zeros behind the digits are the power of ten.
    rename_i whole
    obtain ⟨k, exponent⟩ := Int.eq_ofNat_of_zero_le whole
    have read := isReadAs_whole (List.append_ne_nil_of_left_ne_nil some _)
      (List.forall_mem_append.mpr ⟨digits, zeros k⟩)
    rw [ofDigits_zeros_after, number] at read
    rw [value, exponent]
    simpa [mul_comm] using read
  · rename_i part
    have value : d.value = d.digits / 10 ^ (-d.exponent).toNat := by
      have exponent : d.exponent = -((-d.exponent).toNat : ℤ) := by omega
      rw [value, div_eq_mul_inv, ← zpow_natCast, ← zpow_neg, ← exponent]
    rw [value]
    generalize (-d.exponent).toNat = places
    split
    · -- The point stands among the digits.
      rename_i short
      have front : ds.take (ds.length - places) ≠ [] := by
        rw [← List.length_pos_iff, List.length_take]
        omega
      have behind : ∀ c ∈ ds.drop (ds.length - places), c.isDigit = true := fun c hc =>
        digits c (List.mem_of_mem_drop hc)
      have read := isReadAs_point front (fun c hc => digits c (List.mem_of_mem_take hc)) behind
      rwa [List.take_append_drop, List.length_drop, Nat.sub_sub_self short.le, number] at read
    · -- The point and zeros stand in front of them.
      rename_i long
      have first : List.replicate 1 '0' ≠ [] := by simp
      have read := isReadAs_point first (zeros 1)
        (List.forall_mem_append.mpr ⟨zeros (places - ds.length), digits⟩)
      rwa [← List.append_assoc, List.replicate_append_replicate, ofDigits_zeros_before, number,
        List.length_append, List.length_replicate, Nat.sub_add_cancel (not_lt.mp long)] at read

/-! ## Doubles -/

variable {x : Float}

/-- The digits of a finite double are read as the double without its sign. -/
theorem unsigned?_digits (finite : x.isFinite = true) :
    unsigned? (digitsOf x) = some (withoutSign x) := by
  have same : Magnitude.ofFloat (withoutSign x) = Magnitude.ofFloat x := by
    unfold withoutSign
    split
    · exact Magnitude.ofFloat_neg x
    · rfl
  have positive : isNegative (withoutSign x) = false := by
    unfold withoutSign
    split
    · rename_i negative
      rw [isNegative_neg finite, negative]
      rfl
    · rename_i positive
      exact Bool.eq_false_iff.mpr positive
  obtain ⟨n, e, read, value⟩ := ((Magnitude.ofFloat x).shortest .up).isReadAs_positional
  rw [digitsOf, read]
  by_cases zero : (Magnitude.ofFloat x).mantissa = 0
  · rw [Magnitude.shortest, if_pos zero, Scientific.value, Nat.cast_zero, zero_mul,
      mul_eq_zero] at value
    have none : n = 0 := by exact_mod_cast value.resolve_right (by positivity)
    rw [← same] at zero
    rw [eq_zero_of_magnitude positive zero, nearest, if_pos none]
  · have near := Magnitude.isNear_shortest (Nat.pos_of_ne_zero zero) .up
    rw [← value, ← same] at near
    rw [← same] at zero
    rw [nearest_eq (isFinite_withoutSign finite) positive zero near]

end QuantumBoard.Decimal

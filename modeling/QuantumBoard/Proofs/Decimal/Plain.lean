import QuantumBoard.Decimal.Notation
import QuantumBoard.Decimal.Numeral
import QuantumBoard.Proofs.Decimal.Sign

/-! The plain text of a finite value: a sign when the value has one, then digits, and perhaps
a point with digits behind it. It never has an exponent. -/

namespace QuantumBoard.Decimal

/-- Digits, and perhaps a point with digits behind it. -/
inductive Positional : List Char → Prop
  | whole {ds} : ds ≠ [] → (∀ c ∈ ds, c.isDigit = true) → Positional ds
  | point {ds fs} : ds ≠ [] → (∀ c ∈ ds, c.isDigit = true) → (∀ c ∈ fs, c.isDigit = true) →
      Positional (ds ++ '.' :: fs)

theorem isDigit_of_mem_replicate {n : Nat} {c : Char} (h : c ∈ List.replicate n '0') :
    c.isDigit = true := by
  obtain rfl := (List.mem_replicate.mp h).2
  rfl

theorem Scientific.positional_positional (d : Scientific) : Positional d.positional := by
  have digits : ∀ c ∈ Nat.toDigits 10 d.digits, c.isDigit = true := fun c hc =>
    Nat.isDigit_of_mem_toDigits (by decide) (by decide) hc
  have some : Nat.toDigits 10 d.digits ≠ [] := Nat.toDigits_ne_nil
  unfold positional
  simp only
  split
  · refine .whole (by simp [some]) fun c hc => ?_
    rcases List.mem_append.mp hc with hc | hc
    · exact digits c hc
    · exact isDigit_of_mem_replicate hc
  · split
    · rename_i short
      refine .point (fun none => ?_) (fun c hc => digits c (List.mem_of_mem_take hc))
        (fun c hc => digits c (List.mem_of_mem_drop hc))
      have := congrArg List.length none
      rw [List.length_take, List.length_nil] at this
      omega
    · have zero : ∀ c ∈ ['0'], c.isDigit = true := by simp
      refine .point (List.cons_ne_nil _ _) zero fun c hc => ?_
      rcases List.mem_append.mp hc with hc | hc
      · exact isDigit_of_mem_replicate hc
      · exact digits c hc

/-- Such a text starts with a digit. -/
theorem Positional.cons {cs : List Char} (h : Positional cs) :
    ∃ c rest, cs = c :: rest ∧ c.isDigit = true := by
  cases h with
  | whole some digits | point some digits _ =>
    obtain ⟨c, rest, rfl⟩ := List.exists_cons_of_ne_nil some
    exact ⟨c, _, rfl, digits c (by simp)⟩

theorem Positional.isDigit_or_point {cs : List Char} (h : Positional cs) {c : Char} (hc : c ∈ cs) :
    c.isDigit = true ∨ c = '.' := by
  cases h with
  | whole some digits => exact .inl (digits c hc)
  | point some digits fraction =>
    rcases List.mem_append.mp hc with hc | hc
    · exact .inl (digits c hc)
    · rcases List.mem_cons.mp hc with rfl | hc
      · exact .inr rfl
      · exact .inl (fraction c hc)

/-! ## The text of a value -/

variable {x : Float}

/-- The digits of a value without its sign. -/
def digitsOf (x : Float) : List Char := ((Magnitude.ofFloat x).shortest .up).positional

/-- The value without its sign. -/
def withoutSign (x : Float) : Float := if isNegative x then -x else x

theorem positional_digitsOf (x : Float) : Positional (digitsOf x) :=
  Scientific.positional_positional _

theorem not_isNaN_of_finite (finite : x.isFinite = true) : x.isNaN = false := by
  change x.toModel.unpack.isFinite = true at finite
  change x.toModel.unpack.isNaN = false
  cases h : x.toModel.unpack <;> rw [h] at finite <;> first | rfl | cases finite

theorem not_isInf_of_finite (finite : x.isFinite = true) : x.isInf = false := by
  change x.toModel.unpack.isFinite = true at finite
  change x.toModel.unpack.isInf = false
  cases h : x.toModel.unpack <;> rw [h] at finite <;> first | rfl | cases finite

theorem plain_of_finite (finite : x.isFinite = true) :
    plain x = String.ofList (signOf x ++ digitsOf x) := by
  rw [plain, not_isNaN_of_finite finite, not_isInf_of_finite finite]
  rfl

theorem isFinite_withoutSign (finite : x.isFinite = true) : (withoutSign x).isFinite = true := by
  unfold withoutSign
  split
  · rw [isFinite_neg, finite]
  · exact finite

end QuantumBoard.Decimal

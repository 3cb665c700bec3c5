import QuantumBoard.Proofs.Decimal.Interval
import QuantumBoard.Proofs.Decimal.Sign

/-! # The magnitude of a double

A finite double is its sign and its magnitude: the magnitude is in the range of the format, and put
together with the sign it gives the bits back. -/

namespace QuantumBoard.Decimal

open Float.Model
open Float.Model.UnpackedFloat (Sign)

variable {x : Float}

/-! ## The sign -/

theorem toNat_signPart (x : Float) :
    (@UnpackedFloat.unpackSign double x.toBits.toBitVec).toNat = (x.toBits >>> 63).toNat := by
  rw [UnpackedFloat.unpackSign_def, BitVec.extractLsb'_toNat, UInt64.toNat_shiftRight]
  have bound := x.toBits.toNat_lt
  rw [Nat.mod_eq_of_lt]
  · rfl
  · rw [Nat.shiftRight_eq_div_pow]
    exact Nat.div_lt_of_lt_mul bound

theorem isNegative_eq (x : Float) : isNegative x = (signPart x.toBits.toBitVec == .negative) := by
  have part := toNat_signPart x
  have bits : isNegative x = decide ((x.toBits >>> 63).toNat = 1) := by
    rw [isNegative, Bool.eq_iff_iff, beq_iff_eq, decide_eq_true_eq, ← UInt64.toNat_inj]
    rfl
  rw [bits, ← part, signPart]
  generalize @UnpackedFloat.unpackSign double x.toBits.toBitVec = b
  revert b
  decide

theorem signPart_of_not_isNegative (positive : isNegative x = false) :
    signPart x.toBits.toBitVec = .positive := by
  rw [isNegative_eq] at positive
  cases part : signPart x.toBits.toBitVec
  · rw [part] at positive
    cases positive
  · rfl

theorem isNegative_neg (finite : x.isFinite = true) : isNegative (-x) = !isNegative x := by
  have number : exponentPart x.toBits.toBitVec = -1#_ → fractionPart x.toBits.toBitVec = 0#_ := by
    rw [isFinite_eq, decide_eq_true_eq] at finite
    exact fun top => absurd top finite
  rw [isNegative_eq, isNegative_eq, toBitVec_neg_of_number x number, signPart_packComponents]
  cases signPart x.toBits.toBitVec <;> rfl

/-! ## The magnitude -/

theorem exponentPart_lt (finite : x.isFinite = true) :
    (exponentPart x.toBits.toBitVec).toNat < 2047 := by
  rw [isFinite_eq, decide_eq_true_eq] at finite
  have bound := (exponentPart x.toBits.toBitVec).isLt
  have other : (exponentPart x.toBits.toBitVec).toNat ≠ 2047 := fun top =>
    finite (BitVec.eq_of_toNat_eq top)
  omega

theorem magnitude_subnormal (zero : (exponentPart x.toBits.toBitVec).toNat = 0) :
    Magnitude.ofFloat x = ⟨(fractionPart x.toBits.toBitVec).toNat, -1074, false⟩ := by
  rw [toNat_exponentPart] at zero
  rw [toNat_fractionPart]
  exact if_pos zero

theorem magnitude_normal (some : (exponentPart x.toBits.toBitVec).toNat ≠ 0) :
    Magnitude.ofFloat x = ⟨2 ^ 52 + (fractionPart x.toBits.toBitVec).toNat,
      ((exponentPart x.toBits.toBitVec).toNat : Int) - 1075,
      (fractionPart x.toBits.toBitVec).toNat == 0 &&
        decide (1 < (exponentPart x.toBits.toBitVec).toNat)⟩ := by
  rw [toNat_exponentPart] at some ⊢
  rw [toNat_fractionPart]
  exact if_neg some

theorem isDouble_ofFloat (finite : x.isFinite = true) (some : (Magnitude.ofFloat x).mantissa ≠ 0) :
    (Magnitude.ofFloat x).IsDouble := by
  have top := exponentPart_lt finite
  have bound := (fractionPart x.toBits.toBitVec).isLt
  by_cases zero : (exponentPart x.toBits.toBitVec).toNat = 0
  · rw [magnitude_subnormal zero] at some ⊢
    exact ⟨Nat.pos_of_ne_zero some, bound.trans (by decide), le_refl _,
      show (-1074 : ℤ) ≤ 971 by decide, .inr rfl, fun _ less => absurd less (lt_irrefl _)⟩
  · rw [magnitude_normal zero]
    constructor <;> simp only [Bool.and_eq_true, beq_iff_eq, decide_eq_true_eq] <;> omega

/-- The model of the double, unpacked. -/
theorem unpack_of_magnitude (finite : x.isFinite = true) (positive : isNegative x = false)
    (some : 0 < (Magnitude.ofFloat x).mantissa) :
    x.toModel.unpack =
      .finite .positive (Magnitude.ofFloat x).mantissa (Magnitude.ofFloat x).exponent some := by
  have number : exponentPart x.toBits.toBitVec ≠ -1#_ := by
    rwa [isFinite_eq, decide_eq_true_eq] at finite
  show UnpackedFloat.unpack double x.toBits.toBitVec = _
  rw [unpack_eq_assembled, signPart_of_not_isNegative positive, assembled, if_neg number]
  by_cases zero : (exponentPart x.toBits.toBitVec).toNat = 0
  · have least : exponentPart x.toBits.toBitVec = 0#_ := BitVec.eq_of_toNat_eq zero
    have fraction : fractionPart x.toBits.toBitVec ≠ 0#_ := by
      intro none
      rw [magnitude_subnormal zero, none] at some
      exact absurd some (lt_irrefl _)
    rw [if_pos least, dif_neg fraction, least]
    simp only [magnitude_subnormal zero]
    rfl
  · have normal : exponentPart x.toBits.toBitVec ≠ 0#_ := fun least => zero (by rw [least]; rfl)
    rw [if_neg normal]
    simp only [magnitude_normal zero, toNat_withHiddenBit]
    rfl

/-- A mantissa with all its bits and an exponent of the format are what they are packed as. -/
theorem unpack_pack_normal {sign : Sign} {n : ℕ} {e : ℤ} (some : 0 < n) (normal : 2 ^ 52 ≤ n)
    (small : n < 2 ^ 53) (least : -1074 ≤ e) (greatest : e ≤ 971) :
    (Float.Model.pack (.finite sign n e some)).unpack = .finite sign n e some := by
  have exponent : (BitVec.ofNat 11 (e + 1075).toNat).toNat = (e + 1075).toNat := by
    rw [BitVec.toNat_ofNat, Nat.mod_eq_of_lt (by omega)]
  have fraction : (BitVec.ofNat 52 (n - 2 ^ 52)).toNat = n - 2 ^ 52 := by
    rw [BitVec.toNat_ofNat, Nat.mod_eq_of_lt (by omega)]
  have number : BitVec.ofNat 11 (e + 1075).toNat ≠ -1#_ := fun top => by
    have : (e + 1075).toNat = 2047 := exponent.symm.trans (congrArg BitVec.toNat top)
    omega
  have parts : UnpackedFloat.finite sign n e some =
      assembled sign (BitVec.ofNat 11 (e + 1075).toNat) (BitVec.ofNat 52 (n - 2 ^ 52)) := by
    have some : BitVec.ofNat 11 (e + 1075).toNat ≠ 0#_ := fun zero => by
      have : (e + 1075).toNat = 0 := exponent.symm.trans (congrArg BitVec.toNat zero)
      omega
    have bias : ((e + 1075).toNat : ℤ) -
        (double.exponentBias + double.mantissaBitsWithoutImplicit) = e := by
      show ((e + 1075).toNat : ℤ) - 1075 = e
      omega
    simp only [assembled, if_neg number, if_neg some, toNat_withHiddenBit, exponent, fraction, bias,
      Nat.add_sub_of_le normal]
  show UnpackedFloat.unpack double (UnpackedFloat.pack double _) = _
  rw [parts, pack_assembled _ _ _ fun top => absurd top number, unpack_packComponents]

/-- Packing gives the double back. -/
theorem ofModel_pack {unpacked : UnpackedFloat} (same : x.toModel.unpack = unpacked) :
    Float.ofModel (Float.Model.pack unpacked) = x := by
  apply toBits_eq_of_toBitVec
  show UnpackedFloat.pack double unpacked = x.toBits.toBitVec
  rw [← same]
  exact UnpackedFloat.pack_unpack_of_valid x.toModel.valid

/-- The double with the magnitude and without a sign. -/
def Magnitude.toFloat (m : Magnitude) (some : 0 < m.mantissa) : Float :=
  Float.ofModel (Float.Model.pack (.finite .positive m.mantissa m.exponent some))

theorem toFloat_ofFloat (finite : x.isFinite = true) (positive : isNegative x = false)
    (some : 0 < (Magnitude.ofFloat x).mantissa) : (Magnitude.ofFloat x).toFloat some = x :=
  ofModel_pack (unpack_of_magnitude finite positive some)

/-- There is one zero without a sign. -/
theorem eq_zero_of_magnitude (positive : isNegative x = false)
    (none : (Magnitude.ofFloat x).mantissa = 0) : x = 0 := by
  have zero : (exponentPart x.toBits.toBitVec).toNat = 0 := by
    by_contra some
    rw [magnitude_normal some] at none
    simp only at none
    omega
  rw [magnitude_subnormal zero] at none
  have unpacked : x.toModel.unpack = .zero .positive := by
    show UnpackedFloat.unpack double x.toBits.toBitVec = _
    rw [unpack_eq_assembled, signPart_of_not_isNegative positive,
      BitVec.eq_of_toNat_eq (y := 0#_) zero, BitVec.eq_of_toNat_eq (y := 0#_) none]
    rfl
  exact (ofModel_pack unpacked).symm

end QuantumBoard.Decimal

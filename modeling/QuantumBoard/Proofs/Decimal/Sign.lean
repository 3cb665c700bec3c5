import Mathlib
import QuantumBoard.Decimal.Magnitude

/-! The sign of a double. Negation changes the sign bit of a number and nothing else, so the
magnitude of a value, and with it everything that is asked of the magnitude, does not depend
on the sign. -/

namespace QuantumBoard.Decimal

open Float.Model
open Float.Model.UnpackedFloat (Sign isNaNBits pack_unpack packComponents
  packComponents_unpackSign_unpackExponent_unpackMantissa unpackExponent
  unpackExponent_packComponents unpackMantissa unpackMantissa_packComponents unpackSign
  unpackSign_packComponents)

/-! ## The three parts of a double -/

abbrev double : Format := Format.binary64

abbrev signPart (b : BitVec 64) : Sign := Sign.ofBitVec (@unpackSign double b)

abbrev exponentPart (b : BitVec 64) : BitVec 11 := @unpackExponent double b

abbrev fractionPart (b : BitVec 64) : BitVec 52 := @unpackMantissa double b

theorem toNat_withHiddenBit (m : BitVec 52) : (1#1 ++ m).toNat = 2 ^ 52 + m.toNat := by
  rw [BitVec.toNat_append, ← Nat.shiftLeft_add_eq_or_of_lt m.isLt]
  rfl

/-- The value with the given parts. -/
def assembled (s : Sign) (e : BitVec 11) (m : BitVec 52) : UnpackedFloat :=
  let exponent : Int :=
    (e.toNat : Int) - (double.exponentBias + double.mantissaBitsWithoutImplicit)
  if e = -1#_ then
    if m = 0#_ then .infinity s else .notANumber
  else if e = 0#_ then
    if h : m = 0#_ then .zero s
    else .finite s m.toNat (exponent + 1) (by simpa [BitVec.toNat_pos, BitVec.pos_iff_ne_zero])
  else .finite s (1#1 ++ m).toNat exponent (by rw [toNat_withHiddenBit]; omega)

theorem unpack_eq_assembled (b : BitVec 64) :
    UnpackedFloat.unpack double b = assembled (signPart b) (exponentPart b) (fractionPart b) := rfl

theorem neg_assembled (s : Sign) (e : BitVec 11) (m : BitVec 52) :
    (assembled s e m).neg = assembled (-s) e m := by
  unfold assembled
  grind [UnpackedFloat.neg]

theorem isFinite_assembled (s : Sign) (e : BitVec 11) (m : BitVec 52) :
    (assembled s e m).isFinite = decide (e ≠ -1#_) := by
  unfold assembled
  grind [UnpackedFloat.isFinite]

theorem signPart_packComponents (s : Sign) (e : BitVec 11) (m : BitVec 52) :
    signPart (packComponents double s e m) = s := by
  rw [signPart, unpackSign_packComponents, Sign.ofBitVec_toBitVec]

theorem unpack_packComponents (s : Sign) (e : BitVec 11) (m : BitVec 52) :
    UnpackedFloat.unpack double (packComponents double s e m) = assembled s e m := by
  rw [unpack_eq_assembled, signPart_packComponents, exponentPart, fractionPart,
    unpackExponent_packComponents, unpackMantissa_packComponents]

/-- Packing gives the parts of a number back. -/
theorem pack_assembled (s : Sign) (e : BitVec 11) (m : BitVec 52)
    (number : e = -1#_ → m = 0#_) :
    UnpackedFloat.pack double (assembled s e m) = packComponents double s e m := by
  rw [← unpack_packComponents, pack_unpack, isNaNBits, unpackExponent_packComponents,
    unpackMantissa_packComponents, if_neg]
  exact fun nan => (of_decide_eq_true nan).2 (number (of_decide_eq_true nan).1)

/-! ## Negation -/

variable (x : Float)

theorem toBits_eq_of_toBitVec {x y : Float} (h : x.toBits.toBitVec = y.toBits.toBitVec) :
    x = y := Float.toBits_inj.mp (UInt64.toBitVec_inj.mp h)

theorem toBitVec_neg :
    (-x).toBits.toBitVec =
      UnpackedFloat.pack double (UnpackedFloat.unpack double x.toBits.toBitVec).neg := rfl

/-- Negation changes the sign bit of a number. -/
theorem toBitVec_neg_of_number
    (number : exponentPart x.toBits.toBitVec = -1#_ → fractionPart x.toBits.toBitVec = 0#_) :
    (-x).toBits.toBitVec = packComponents double (-signPart x.toBits.toBitVec)
      (exponentPart x.toBits.toBitVec) (fractionPart x.toBits.toBitVec) := by
  rw [toBitVec_neg, unpack_eq_assembled, neg_assembled, pack_assembled _ _ _ number]

/-- What is not a number has no sign. -/
theorem neg_of_not_number (top : exponentPart x.toBits.toBitVec = -1#_)
    (some : fractionPart x.toBits.toBitVec ≠ 0#_) : -x = x := by
  apply toBits_eq_of_toBitVec
  have nan : UnpackedFloat.unpack double x.toBits.toBitVec = .notANumber := by
    rw [unpack_eq_assembled, assembled, if_pos top, if_neg some]
  rw [toBitVec_neg, nan]
  exact (x.toModel.valid.eq_packedNaN top some).symm

theorem parts_neg :
    exponentPart (-x).toBits.toBitVec = exponentPart x.toBits.toBitVec ∧
      fractionPart (-x).toBits.toBitVec = fractionPart x.toBits.toBitVec := by
  by_cases number : exponentPart x.toBits.toBitVec = -1#_ → fractionPart x.toBits.toBitVec = 0#_
  · rw [toBitVec_neg_of_number x number]
    exact ⟨unpackExponent_packComponents, unpackMantissa_packComponents⟩
  · obtain ⟨top, some⟩ := Classical.not_imp.mp number
    rw [neg_of_not_number x top some]
    exact ⟨rfl, rfl⟩

theorem toNat_exponentPart :
    (exponentPart x.toBits.toBitVec).toNat = (x.toBits >>> 52 &&& 0x7FF).toNat := by
  rw [exponentPart, unpackExponent, BitVec.toNat_cast, BitVec.extractLsb_toNat, UInt64.toNat_and,
    UInt64.toNat_shiftRight]
  exact (Nat.and_two_pow_sub_one_eq_mod _ 11).symm

theorem toNat_fractionPart :
    (fractionPart x.toBits.toBitVec).toNat = (x.toBits &&& 0xFFFFFFFFFFFFF).toNat := by
  rw [fractionPart, unpackMantissa, BitVec.toNat_cast, BitVec.extractLsb_toNat, UInt64.toNat_and]
  exact (Nat.and_two_pow_sub_one_eq_mod _ 52).symm

theorem Magnitude.ofFloat_neg : Magnitude.ofFloat (-x) = Magnitude.ofFloat x := by
  obtain ⟨exponent, fraction⟩ := parts_neg x
  unfold Magnitude.ofFloat
  rw [← toNat_exponentPart, ← toNat_fractionPart, exponent, fraction, toNat_exponentPart,
    toNat_fractionPart]

theorem isFinite_eq : x.isFinite = decide (exponentPart x.toBits.toBitVec ≠ -1#_) :=
  isFinite_assembled _ _ _

theorem isFinite_neg : (-x).isFinite = x.isFinite := by
  rw [isFinite_eq, isFinite_eq, (parts_neg x).1]

/-- Negation is taken back by negation, also of what is not a number. -/
theorem neg_neg : - -x = x := by
  by_cases number : exponentPart x.toBits.toBitVec = -1#_ → fractionPart x.toBits.toBitVec = 0#_
  · have negated : exponentPart (-x).toBits.toBitVec = -1#_ →
        fractionPart (-x).toBits.toBitVec = 0#_ := by
      rwa [(parts_neg x).1, (parts_neg x).2]
    apply toBits_eq_of_toBitVec
    rw [toBitVec_neg_of_number _ negated, (parts_neg x).1, (parts_neg x).2,
      toBitVec_neg_of_number x number, signPart_packComponents]
    have twice : - -signPart x.toBits.toBitVec = signPart x.toBits.toBitVec := by
      cases signPart x.toBits.toBitVec <;> rfl
    rw [twice]
    exact packComponents_unpackSign_unpackExponent_unpackMantissa _
  · obtain ⟨top, some⟩ := Classical.not_imp.mp number
    rw [neg_of_not_number x top some, neg_of_not_number x top some]

end QuantumBoard.Decimal

/-! Doubles as exact numbers. A finite double is a sign and a magnitude
`mantissa * 2 ^ exponent`; the questions that need an exact answer (which decimals
read back to a value, whether a value is a whole or an odd number) are asked of the
magnitude, in integer arithmetic. -/

namespace QuantumBoard.Decimal

/-- The absolute value of a finite double, `mantissa * 2 ^ exponent`. The gap to the
next smaller double is half the gap to the next larger one when `narrow` holds. -/
structure Magnitude where
  mantissa : Nat
  exponent : Int
  narrow : Bool
deriving Repr, DecidableEq

/-- The magnitude of a finite double. -/
def Magnitude.ofFloat (x : Float) : Magnitude :=
  let biased := ((x.toBits >>> 52) &&& 0x7FF).toNat
  let fraction := (x.toBits &&& 0xFFFFFFFFFFFFF).toNat
  if biased = 0 then ⟨fraction, -1074, false⟩
  else ⟨Nat.pow 2 52 + fraction, (biased : Int) - 1075, fraction == 0 && decide (1 < biased)⟩

/-- Whether the sign bit is set; it is for `-0`. -/
def isNegative (x : Float) : Bool := x.toBits >>> 63 == 1

/-- Whether the value is a whole number. -/
def Magnitude.isWhole (m : Magnitude) : Bool :=
  decide (0 ≤ m.exponent) || m.mantissa % Nat.pow 2 (-m.exponent).toNat == 0

/-- Whether the value is an odd whole number. -/
def Magnitude.isOdd (m : Magnitude) : Bool :=
  m.isWhole && decide (m.exponent ≤ 0) && m.mantissa / Nat.pow 2 (-m.exponent).toNat % 2 == 1

end QuantumBoard.Decimal

import QuantumBoard.Decimal.Numeral

/-! The length of a vector of two doubles: the root of the sum of the squares, and then one
correction by what the root misses. The last bit of the answer depends on the order of
these steps, so they are part of the rule. Sides that are so large or small that a
square would overflow or underflow are scaled by a power of two first. -/

namespace QuantumBoard.Decimal

/-- The root of the sum of two squares, for `0 < y ≤ x`, corrected once. The correction is
written with the distance of the root from the side that is nearer to it. -/
def correctedRoot (x y : Float) : Float :=
  let h := (x * x + y * y).sqrt
  let (first, second) :=
    if h ≤ 2 * y then
      let d := h - y
      (x * (2 * d - x), (d - 2 * (x - y)) * d)
    else
      let d := h - x
      (2 * d * (x - 2 * y), (4 * d - y) * y + d * d)
  h - (first + second) / (2 * h)

/-- A power of two within the normal doubles. -/
def powerOfTwo (e : Int) : Float := Float.ofBits (UInt64.ofNat ((e + 1023).toNat <<< 52))

/-- Longer sides have squares that overflow. -/
def longestSide : Float := powerOfTwo 511

/-- Shorter sides have squares that underflow. -/
def shortestSide : Float := powerOfTwo (-459)

/-- The unit in which such long sides are measured; its inverse is the one for short sides. -/
def longUnit : Float := powerOfTwo 600

/-- A side that is shorter than the other by this factor or more is just added to it. -/
def negligible : Float := powerOfTwo (-54)

/-- The length from the longer and the shorter side, both finite and not negative. -/
def lengthOfSides (x y : Float) : Float :=
  if x > longestSide then
    if y ≤ x * negligible then x + y
    else correctedRoot (x / longUnit) (y / longUnit) * longUnit
  else if y < shortestSide then
    if x ≥ y / negligible then x + y
    else correctedRoot (x * longUnit) (y * longUnit) / longUnit
  else if y ≤ x * negligible then x + y
  else correctedRoot x y

/-- The length of a vector; it is infinite when a part is, also beside an undefined part. -/
def hypotenuse (x y : Float) : Float :=
  if x.isInf || y.isInf then infinity
  else if x.isNaN || y.isNaN then undefined
  else if x.abs < y.abs then lengthOfSides y.abs x.abs
  else lengthOfSides x.abs y.abs

end QuantumBoard.Decimal

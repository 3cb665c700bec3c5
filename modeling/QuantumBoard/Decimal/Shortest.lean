import QuantumBoard.Decimal.Magnitude

/-! The shortest decimal that reads back to a given double. A decimal reads back when
it lies between the midpoints to the two neighbouring doubles, the midpoints included
exactly when the mantissa is even. For one digit, two digits and so on, the two
points of that decimal grid around the value are tested; the first grid with a hit
wins, and of two hits the nearer one. -/

namespace QuantumBoard.Decimal

/-- The number `digits * 10 ^ exponent`. -/
structure Scientific where
  digits : Nat
  exponent : Int
deriving Repr, DecidableEq

/-- Which of two equally near decimals is taken. -/
inductive Tie where
  | up
  | toEven
deriving Repr, DecidableEq

/-- Compares `a * 10 ^ i` with `n * 2 ^ j`. -/
def compareScaled (a : Nat) (i : Int) (n : Nat) (j : Int) : Ordering :=
  compare (a * Nat.pow 10 i.toNat * Nat.pow 2 (-j).toNat)
    (n * Nat.pow 2 j.toNat * Nat.pow 10 (-i).toNat)

/-- Whether a decimal is among the reals that round to the value. -/
def Magnitude.isReadFrom (m : Magnitude) (d : Scientific) : Bool :=
  let low := if m.narrow then 4 * m.mantissa - 1 else 4 * m.mantissa - 2
  let high := 4 * m.mantissa + 2
  let inclusive := m.mantissa % 2 == 0
  let fromLow := compareScaled d.digits d.exponent low (m.exponent - 2)
  let fromHigh := compareScaled d.digits d.exponent high (m.exponent - 2)
  (fromLow == .gt || (inclusive && fromLow == .eq)) &&
    (fromHigh == .lt || (inclusive && fromHigh == .eq))

/-- The value as a quotient of naturals after division by `10 ^ place`. -/
def Magnitude.scaled (m : Magnitude) (place : Int) : Nat × Nat :=
  (m.mantissa * Nat.pow 2 m.exponent.toNat * Nat.pow 10 (-place).toNat,
    Nat.pow 2 (-m.exponent).toNat * Nat.pow 10 place.toNat)

/-- The least `k` with `m < 10 ^ k`, for a value above zero: an estimate from the
binary logarithm, which is at most two too small. -/
def Magnitude.decimalOrder (m : Magnitude) : Int :=
  let estimate := ((m.mantissa.log2 : Int) + m.exponent) * 30103 / 100000
  if compareScaled 1 estimate m.mantissa m.exponent == .gt then estimate
  else if compareScaled 1 (estimate + 1) m.mantissa m.exponent == .gt then estimate + 1
  else estimate + 2

/-- The point of the grid `10 ^ place` that reads back to the value and is nearest to it. -/
def Magnitude.nearestOn (m : Magnitude) (tie : Tie) (place : Int) : Option Scientific :=
  let (num, den) := m.scaled place
  let below : Scientific := ⟨num / den, place⟩
  let above : Scientific := ⟨num / den + 1, place⟩
  match m.isReadFrom below, m.isReadFrom above with
  | true, true =>
    match compare (2 * (num % den)) den with
    | .lt => some below
    | .gt => some above
    | .eq => some (if tie = .toEven ∧ below.digits % 2 = 0 then below else above)
  | true, false => some below
  | false, true => some above
  | false, false => none

/-- The value itself as a decimal. -/
def Magnitude.exactDecimal (m : Magnitude) : Scientific :=
  if 0 ≤ m.exponent then ⟨m.mantissa * Nat.pow 2 m.exponent.toNat, 0⟩
  else ⟨m.mantissa * Nat.pow 5 (-m.exponent).toNat, m.exponent⟩

/-- Moves the trailing zeros of the digits into the exponent. -/
def Scientific.strip (d : Scientific) : Scientific :=
  if h : 0 < d.digits ∧ d.digits % 10 = 0 then
    Scientific.strip ⟨d.digits / 10, d.exponent + 1⟩
  else d
termination_by d.digits
decreasing_by exact Nat.div_lt_self h.1 (by decide)

/-- The shortest decimal that reads back to the value; zero has no digits but `0`. -/
def Magnitude.shortest (m : Magnitude) (tie : Tie) : Scientific :=
  if m.mantissa = 0 then ⟨0, 0⟩
  else
    let order := m.decimalOrder
    let found := (List.range 17).findSome? fun (n : Nat) =>
      m.nearestOn tie (order - (n + 1 : Nat))
    (found.getD m.exactDecimal).strip

end QuantumBoard.Decimal

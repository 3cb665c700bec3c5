import QuantumBoard.Decimal.Shortest

/-! How numbers are written. Formulas and listings write a double positionally with
the fewest digits; documents write it as a number that keeps its point, with an
exponent when it is very large or very small. -/

namespace QuantumBoard.Decimal

/-- Digits with the point in its place and no exponent: `1500`, `0.25`. -/
def Scientific.positional (d : Scientific) : List Char :=
  let ds := Nat.toDigits 10 d.digits
  if 0 ≤ d.exponent then ds ++ List.replicate d.exponent.toNat '0'
  else
    let places := (-d.exponent).toNat
    if places < ds.length then
      ds.take (ds.length - places) ++ '.' :: ds.drop (ds.length - places)
    else '0' :: '.' :: List.replicate (places - ds.length) '0' ++ ds

/-- The exponent of the leading digit. -/
def Scientific.order (d : Scientific) : Int :=
  d.exponent + (Nat.toDigits 10 d.digits).length - 1

/-- A digit, the other digits after a point if there are any, a mark and the exponent. -/
def Scientific.withExponent (d : Scientific) (exponent : List Char) : List Char :=
  match Nat.toDigits 10 d.digits with
  | first :: second :: rest => first :: '.' :: second :: rest ++ 'e' :: exponent
  | ds => ds ++ 'e' :: exponent

def signOf (x : Float) : List Char := if isNegative x then ['-'] else []

/-- Formulas and listings: the fewest digits, never an exponent, no point in a whole
number; of two equally near decimals the larger. -/
def plain (x : Float) : String :=
  if x.isNaN then "NaN"
  else if x.isInf then String.ofList (signOf x ++ ['i', 'n', 'f'])
  else String.ofList (signOf x ++ ((Magnitude.ofFloat x).shortest .up).positional)

/-- The digits of an integer, with a `+` when it is not negative. -/
def signedDigits (e : Int) : List Char :=
  (if e < 0 then '-' else '+') :: Nat.toDigits 10 e.natAbs

/-- Documents: the fewest digits, positional from `1e-5` to below `1e16` with `.0`
after a whole number, else with a signed exponent. -/
def number (x : Float) : String :=
  let d := (Magnitude.ofFloat x).shortest .toEven
  let body :=
    if d.digits = 0 then ['0', '.', '0']
    else if -5 ≤ d.order ∧ d.order < 16 then
      if 0 ≤ d.exponent then d.positional ++ ['.', '0'] else d.positional
    else d.withExponent (signedDigits d.order)
  String.ofList (signOf x ++ body)

end QuantumBoard.Decimal

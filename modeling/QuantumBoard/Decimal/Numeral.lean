import QuantumBoard.Decimal.Magnitude

/-! Reading decimals: a numeral is an optional sign, digits with at most one point
among or beside them, and an optional exponent; infinity and the undefined number have
names. The value is the double nearest to the decimal. -/

namespace QuantumBoard.Decimal

def infinity : Float := 1.0 / 0.0

def undefined : Float := 0.0 / 0.0

/-- The number that decimal digits spell. -/
def ofDigits (ds : List Char) : Nat :=
  ds.foldl (fun n c => 10 * n + (c.toNat - 48)) 0

/-- The double nearest to `digits * 10 ^ exponent`. Far outside the range of doubles
the answer is known without forming the power. -/
def nearest (digits : Nat) (exponent : Int) : Float :=
  if digits = 0 then 0
  else
    let top := exponent + (Nat.toDigits 10 digits).length
    if 400 < top then infinity
    else if top < -400 then 0
    else Float.ofScientific digits (decide (exponent < 0)) exponent.natAbs

/-- The decimal `whole . fraction e exponent`. -/
def ofParts (whole fraction : List Char) (exponent : Int) : Float :=
  nearest (ofDigits (whole ++ fraction)) (exponent - fraction.length)

/-- A sign and what follows it. -/
def splitSign : List Char → Bool × List Char
  | '-' :: r => (true, r)
  | '+' :: r => (false, r)
  | r => (false, r)

/-- The exponent of a numeral that ends here, `0` when there is none. -/
def exponent? : List Char → Option Int
  | [] => some 0
  | e :: r =>
    if e = 'e' ∨ e = 'E' then
      let (negative, ds) := splitSign r
      if ds ≠ [] ∧ ds.all Char.isDigit then
        some (if negative then -(ofDigits ds : Int) else ofDigits ds)
      else none
    else none

/-- The value of an unsigned numeral. -/
def unsigned? (cs : List Char) : Option Float :=
  let whole := cs.takeWhile Char.isDigit
  let (fraction, rest) := match cs.dropWhile Char.isDigit with
    | '.' :: r => (r.takeWhile Char.isDigit, r.dropWhile Char.isDigit)
    | r => ([], r)
  if whole = [] ∧ fraction = [] then none
  else (exponent? rest).map (ofParts whole fraction)

/-- The double that a text spells, if it is a numeral. -/
def parse? (text : String) : Option Float :=
  let (negative, cs) := splitSign text.toList
  let lower := cs.map Char.toLower
  let value :=
    if lower = "inf".toList ∨ lower = "infinity".toList then some infinity
    else if lower = "nan".toList then some undefined
    else unsigned? cs
  value.map fun x => if negative then -x else x

end QuantumBoard.Decimal

import QuantumBoard.Amplitude.Elementary
import QuantumBoard.Formula.Parser
import QuantumBoard.Text.Basic

/-! Complex literals: formulas over the complex numbers in which `i` is the imaginary unit,
with `2i` short for `2*i`. Every part of a literal must have a finite value. -/

namespace QuantumBoard.Amplitude

/-- A value both of whose parts are finite. -/
def finite? (z : Amplitude) : Option Amplitude := if z.isFinite then some z else none

def applyBinary? (z w : Amplitude) : BinaryOp → Option Amplitude
  | .add => finite? (z + w)
  | .sub => finite? (z - w)
  | .mul => finite? (z * w)
  | .div => if w.normSquare == 0 then none else finite? (z / w)
  | .pow => finite? (z.pow w)

/-- The value of an expression over the complex numbers. -/
def ofExpr? : Expr → Option Amplitude
  | .constant v => finite? (ofReal v)
  | .symbol name => if name = "i" then some unit else none
  | .pi => some (ofReal Expr.piValue)
  | .euler => some (ofReal Expr.eulerValue)
  | .neg e => do finite? (-(← ofExpr? e))
  | .binary op a b => do
    let w ← ofExpr? b
    let z ← ofExpr? a
    applyBinary? z w op
  | .call f e => do finite? ((← ofExpr? e).apply f)

/-- Whether an `i` right after the character is a factor. -/
def takesUnit (c : Char) : Bool := c.isDigit || c == '.' || c == ')' || c == 'π'

/-- The literal with its last `i` made a factor where it is one. -/
def withFactor (cs : List Char) : List Char :=
  match cs.reverse with
  | 'i' :: c :: rest => if takesUnit c then (c :: rest).reverse ++ ['*', 'i'] else cs
  | _ => cs

/-- A text that is no complex literal, without the blanks around it. -/
structure LiteralError where
  text : List Char
deriving DecidableEq

/-- The number that a literal spells. -/
def ofLiteral (text : List Char) : Except LiteralError Amplitude :=
  let literal := Text.trim text
  match Formula.parse (withFactor literal) with
  | .error _ => .error ⟨literal⟩
  | .ok e =>
    match ofExpr? e with
    | some z => .ok z
    | none => .error ⟨literal⟩

end QuantumBoard.Amplitude

import QuantumBoard.Decimal.Magnitude
import QuantumBoard.Formula.Expr

/-! Gates on single qubits, with their powers and rotations about an axis, and the swap
of two qubits. -/

namespace QuantumBoard

inductive Axis where
  | x
  | y
  | z
deriving Repr, DecidableEq

inductive WireGate where
  | identity
  | hadamard
  | pauli (axis : Axis)
  | power (axis : Axis) (exponent : Expr)
  | rotation (axis : Axis) (angle : Expr)
  | swap
deriving DecidableEq

namespace Axis

def letter : Axis → String
  | x => "x"
  | y => "y"
  | z => "z"

/-- A power of the axis with a fixed exponent. -/
def fixedPower (axis : Axis) (exponent : Float) : WireGate := .power axis (.constant exponent)

end Axis

namespace WireGate

def name : WireGate → String
  | identity => "id"
  | hadamard => "h"
  | pauli axis => axis.letter
  | power axis _ => axis.letter ++ "pow"
  | rotation axis _ => "r" ++ axis.letter
  | swap => "swap"

def numQubits : WireGate → Nat
  | swap => 2
  | _ => 1

/-- The exponent or the angle. -/
def parameter? : WireGate → Option Expr
  | power _ e | rotation _ e => some e
  | _ => none

def isParameterized (g : WireGate) : Bool := g.parameter?.any Expr.isSymbolic

def mapParameter (f : Expr → Expr) : WireGate → WireGate
  | power axis e => power axis (f e)
  | rotation axis e => rotation axis (f e)
  | g => g

def inverse (g : WireGate) : WireGate := g.mapParameter Expr.negated

/-- The gate with a value in place of a symbol. -/
def bind (name : String) (v : Float) (g : WireGate) : WireGate :=
  g.mapParameter fun e => (e.bind name v).simplify

/-- Whether a power of a flip flips: it does when the exponent is odd, and it is no map of basis
states when the exponent is not whole. -/
def powerFlips? (exponent : Float) : Option Bool :=
  let m := Decimal.Magnitude.ofFloat exponent
  if exponent.isFinite && m.isWhole then some m.isOdd else none

/-- Whether the gate flips a basis state; there is no answer for a gate that maps some basis
state to a superposition. -/
def flips? : WireGate → Option Bool
  | identity | pauli .z | power .z _ | rotation .z _ => some false
  | pauli _ => some true
  | power _ e => e.value?.bind powerFlips?
  | hadamard | rotation _ _ | swap => none

end WireGate

end QuantumBoard

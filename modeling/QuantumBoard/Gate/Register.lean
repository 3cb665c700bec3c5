import QuantumBoard.Formula.Expr

/-! Gates on a whole register: Fourier transforms, phase gradients and rearrangements of
the qubits. -/

namespace QuantumBoard

inductive RegisterGate where
  | fourier (width : Nat) (inverse : Bool)
  | gradient (width : Nat) (exponent : Expr)
  /-- The bit at place `i` goes to place `mapping[i]`. -/
  | permutation (mapping : List Nat)
deriving DecidableEq

namespace RegisterGate

def name : RegisterGate → String
  | fourier _ false => "qft"
  | fourier _ true => "qft_dg"
  | gradient _ _ => "phase_gradient"
  | permutation _ => "permute"

def numQubits : RegisterGate → Nat
  | fourier width _ | gradient width _ => width
  | permutation mapping => mapping.length

def isParameterized : RegisterGate → Bool
  | gradient _ exponent => exponent.isSymbolic
  | _ => false

/-- Writes the places from `i` on at the places they are mapped to. -/
def invertFrom (i : Nat) (inverted : List Nat) : List Nat → List Nat
  | [] => inverted
  | place :: mapping => invertFrom (i + 1) (inverted.set place i) mapping

/-- The mapping that undoes a rearrangement. -/
def invertMapping (mapping : List Nat) : List Nat :=
  invertFrom 0 (List.replicate mapping.length 0) mapping

def inverse : RegisterGate → RegisterGate
  | fourier width inverse => fourier width !inverse
  | gradient width exponent => gradient width exponent.negated
  | permutation mapping => permutation (invertMapping mapping)

/-- Whether every place is mapped into the register. -/
def invertible : RegisterGate → Bool
  | permutation mapping => mapping.all (· < mapping.length)
  | _ => true

/-- The gate with a value in place of a symbol. -/
def bind (name : String) (v : Float) : RegisterGate → RegisterGate
  | gradient width exponent => gradient width (exponent.bind name v).simplify
  | g => g

end RegisterGate

end QuantumBoard

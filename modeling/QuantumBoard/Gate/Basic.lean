import QuantumBoard.Gate.Arithmetic
import QuantumBoard.Gate.Matrix
import QuantumBoard.Gate.Register
import QuantumBoard.Gate.Wire

/-! Gates of every kind, with an optional label that is shown instead of the name. -/

namespace QuantumBoard

inductive GateKind where
  | wire (gate : WireGate)
  | register (gate : RegisterGate)
  | arithmetic (gate : ArithmeticGate)
  | matrix (gate : MatrixGate)
deriving DecidableEq

namespace GateKind

def name : GateKind → String
  | wire g => g.name
  | register g => g.name
  | arithmetic _ => "arithmetic"
  | matrix g => g.name

def numQubits : GateKind → Nat
  | wire g => g.numQubits
  | register g => g.numQubits
  | arithmetic g => g.numQubits
  | matrix g => g.width

def isParameterized : GateKind → Bool
  | wire g => g.isParameterized
  | register g => g.isParameterized
  | _ => false

def inverse : GateKind → GateKind
  | wire g => wire g.inverse
  | register g => register g.inverse
  | arithmetic g => arithmetic g.inverse
  | matrix g => matrix g.adjoint

/-- Whether the gate is well-formed enough to have an inverse. -/
def invertible : GateKind → Bool
  | register g => g.invertible
  | matrix g => g.invertible
  | _ => true

/-- The gate with a value in place of a symbol. -/
def bind (name : String) (v : Float) : GateKind → GateKind
  | wire g => wire (g.bind name v)
  | register g => register (g.bind name v)
  | g => g

end GateKind

structure Gate where
  kind : GateKind
  label : Option String := none
deriving DecidableEq

namespace Gate

def displayName (g : Gate) : String := g.label.getD g.kind.name

def inverse (g : Gate) : Gate := { g with kind := g.kind.inverse }

def bind (name : String) (v : Float) (g : Gate) : Gate := { g with kind := g.kind.bind name v }

end Gate

end QuantumBoard

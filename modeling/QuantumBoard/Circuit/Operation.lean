import QuantumBoard.Gate.Basic

/-! Operations: a gate, a measurement or a phase, with the rows it acts on and the rows that
control it. An operation acts only when all its controls are set. -/

namespace QuantumBoard

inductive Action where
  | gate (gate : Gate)
  | measure
  /-- The whole state times a number, which shows once the operation is controlled. -/
  | phase (factor : Amplitude)
deriving DecidableEq

structure Operation where
  action : Action
  targets : List Nat
  controls : List Nat := []
deriving DecidableEq

namespace Action

def name : Action → String
  | gate g => g.displayName
  | measure => "measure"
  | phase _ => "global_phase"

/-- The action that undoes this one; a measurement is its own. -/
def inverse : Action → Action
  | gate g => gate g.inverse
  | measure => measure
  | phase z => phase z.conj

def invertible : Action → Bool
  | gate g => g.kind.invertible
  | _ => true

def bind (name : String) (v : Float) : Action → Action
  | gate g => gate (g.bind name v)
  | action => action

def isParameterized : Action → Bool
  | gate g => g.kind.isParameterized
  | _ => false

/-- The gate on one or two wires that the action is. -/
def wireGate? : Action → Option WireGate
  | gate ⟨.wire g, _⟩ => some g
  | _ => none

end Action

namespace Operation

def ofGate (g : Gate) (targets : List Nat) : Operation := ⟨.gate g, targets, []⟩

def ofKind (kind : GateKind) (targets : List Nat) : Operation := ofGate ⟨kind, none⟩ targets

/-- A gate on one qubit. -/
def wire (g : WireGate) (row : Nat) : Operation := ofKind (.wire g) [row]

def flip (row : Nat) : Operation := wire (.pauli .x) row

def swap (first second : Nat) : Operation := ofKind (.wire .swap) [first, second]

def measure (row : Nat) : Operation := ⟨.measure, [row], []⟩

def phase (z : Amplitude) : Operation := ⟨.phase z, [], []⟩

/-- The operation under more controls. -/
def controlledBy (rows : List Nat) (op : Operation) : Operation :=
  { op with controls := op.controls ++ rows }

def controlledFlip (control target : Nat) : Operation := (flip target).controlledBy [control]

/-- The operation on other rows. -/
def mapRows (f : Nat → Nat) (op : Operation) : Operation :=
  { op with targets := op.targets.map f, controls := op.controls.map f }

def name (op : Operation) : String := op.action.name

def inverse (op : Operation) : Operation := { op with action := op.action.inverse }

def bind (name : String) (v : Float) (op : Operation) : Operation :=
  { op with action := op.action.bind name v }

def isParameterized (op : Operation) : Bool := op.action.isParameterized

def isMeasurement (op : Operation) : Bool := op.action matches .measure

/-- The rows touched, targets first. -/
def rows (op : Operation) : List Nat := op.targets ++ op.controls

end Operation

end QuantumBoard

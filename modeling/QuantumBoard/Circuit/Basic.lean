import QuantumBoard.Circuit.Operation

/-! Circuits: operations in the order in which they act. Only an operation with as many
targets as its gate has qubits, and on rows that are all different, can be added. The lists of an
operation are shorter than `2 ^ 32`, so that their lengths are counted as they are. The inverse of
a circuit has the inverse operations in reverse order, added one by one. -/

namespace QuantumBoard

/-- Why an operation cannot be part of a circuit. -/
inductive PlacementError where
  | count (gate : String) (expected actual : Nat)
  | duplicate (row : Nat) (operation : String)
deriving Repr, DecidableEq

/-- The name of a qubit. -/
def rowName (row : Nat) : String := "q" ++ toString row

def PlacementError.message : PlacementError → String
  | count gate expected actual =>
    "Gate '" ++ gate ++ "' requires " ++ toString expected ++ " qubits, got " ++
      toString actual
  | duplicate row operation =>
    "Duplicate qubit " ++ rowName row ++ " in operation (gate: " ++ operation ++ ")"

/-- The first row that occurs earlier in the list or among the rows already seen. -/
def firstRepeat? (seen : List Nat) : List Nat → Option Nat
  | [] => none
  | row :: rows => if row ∈ seen then some row else firstRepeat? (row :: seen) rows

namespace Operation

/-- The number of targets that the action asks for, if it asks for one. -/
def arity? (op : Operation) : Option Nat :=
  match op.action with
  | .gate g => some g.kind.numQubits
  | _ => none

/-- What keeps an operation out of a circuit; a wrong number of targets comes first. -/
def placementError? (op : Operation) : Option PlacementError :=
  match op.arity?.filter (· ≠ op.targets.length) with
  | some expected => some (.count op.name expected op.targets.length)
  | none => (firstRepeat? [] op.rows).map fun row => .duplicate row op.name

end Operation

structure Circuit where
  name : String := ""
  operations : Array Operation := #[]
deriving DecidableEq

namespace Circuit

def push (c : Circuit) (op : Operation) : Except PlacementError Circuit :=
  match op.placementError? with
  | some e => .error e
  | none => .ok { c with operations := c.operations.push op }

/-- Adds operations up to the first that cannot be added. -/
def extend (c : Circuit) : List Operation → Circuit × Option PlacementError
  | [] => (c, none)
  | op :: ops =>
    match c.push op with
    | .error e => (c, some e)
    | .ok c => c.extend ops

def size (c : Circuit) : Nat := c.operations.size

/-- The rows that the operations touch, in ascending order. -/
def rows (c : Circuit) : List Nat :=
  (c.operations.toList.flatMap Operation.rows).eraseDups.mergeSort

/-- One more than the highest row. -/
def numQubits (c : Circuit) : Nat :=
  (c.operations.toList.flatMap Operation.rows).foldl (fun n row => max n (row + 1)) 0

def isParameterized (c : Circuit) : Bool := c.operations.any Operation.isParameterized

/-- The circuit with a value in place of a symbol. -/
def bind (name : String) (v : Float) (c : Circuit) : Circuit :=
  { c with operations := c.operations.map (Operation.bind name v) }

end Circuit

/-! ## Inverses -/

inductive InverseError where
  /-- A gate that is not well-formed enough to have an inverse. -/
  | noInverse (operation : String)
  | placement (error : PlacementError)
deriving Repr, DecidableEq

namespace Circuit

/-- Adds the inverse of an operation. -/
def pushInverse (c : Circuit) (op : Operation) : Except InverseError Circuit :=
  if op.action.invertible then (c.push op.inverse).mapError .placement
  else .error (.noInverse op.name)

/-- The circuit that undoes this one, under the same name. -/
def inverse (c : Circuit) : Except InverseError Circuit :=
  c.operations.toList.reverse.foldlM pushInverse ⟨c.name, #[]⟩

end Circuit

end QuantumBoard

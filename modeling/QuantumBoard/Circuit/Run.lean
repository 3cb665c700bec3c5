import QuantumBoard.Circuit.Basic
import QuantumBoard.Word

/-! Running a circuit on a basis state, as far as its operations map basis states to basis
states up to a phase. Measurements and phases leave a basis state as it is. -/

namespace QuantumBoard

inductive RunError where
  | outOfRange (row : Nat)
  | notClassical (operation : String)
  /-- The operation has fewer targets than its gate; no operation of a circuit that was built
  by adding has. -/
  | missingTarget
deriving Repr, DecidableEq

def RunError.message : RunError → String
  | outOfRange row => "Qubit " ++ rowName row ++ " is out of range for basis-state evaluation"
  | notClassical operation =>
    "Operation '" ++ operation ++ "' does not map basis states to basis states"
  | missingTarget => "Operation without a target"

/-- Moves bit `i` to place `mapping[i]`, for the places from `i` on. -/
def permuteFrom (bits : UInt64) (i : Nat) : List Nat → UInt64
  | [] => 0
  | place :: mapping =>
    Word.bit bits i <<< Word.amount place ||| permuteFrom bits (i + 1) mapping

/-- The bits of a register, each at the place it is mapped to. -/
def permute (mapping : List Nat) (bits : UInt64) : UInt64 := permuteFrom bits 0 mapping

/-- Exchanges two bits. -/
def exchange (state : UInt64) (first second : Nat) : UInt64 :=
  (state &&& ~~~(Word.single first) &&& ~~~(Word.single second)) |||
    Word.bit state second <<< Word.amount first ||| Word.bit state first <<< Word.amount second

/-- The state with a register replaced by a function of it. -/
def onRegister (f : UInt64 → UInt64) (rows : List Nat) (state : UInt64) : UInt64 :=
  Word.scatter state rows (f (Word.gather state rows))

namespace Operation

/-- What a gate on one or two wires does to a basis state. -/
def runWire (op : Operation) (g : WireGate) (state : UInt64) : Except RunError UInt64 :=
  match g, op.targets with
  | .swap, first :: second :: _ => .ok (exchange state first second)
  | .swap, _ => .error .missingTarget
  | g, targets =>
    match g.flips?, targets with
    | none, _ => .error (.notClassical op.name)
    | some false, _ => .ok state
    | some true, row :: _ => .ok (state ^^^ Word.single row)
    | some true, [] => .error .missingTarget

/-- What the operation does to a basis state in which its controls are set. -/
def act (op : Operation) (state : UInt64) : Except RunError UInt64 :=
  match op.action with
  | .measure | .phase _ => .ok state
  | .gate ⟨.wire g, _⟩ => op.runWire g state
  | .gate ⟨.register (.gradient _ _), _⟩ => .ok state
  | .gate ⟨.register (.permutation mapping), _⟩ =>
    .ok (onRegister (permute mapping) op.targets state)
  | .gate ⟨.arithmetic g, _⟩ => .ok (onRegister g.applyToBits op.targets state)
  | .gate ⟨.register (.fourier _ _), _⟩ | .gate ⟨.matrix _, _⟩ =>
    .error (.notClassical op.name)

/-- What the operation does to a basis state; every row must be one of its 64. -/
def run (op : Operation) (state : UInt64) : Except RunError UInt64 :=
  match op.rows.find? (64 ≤ ·) with
  | some row => .error (.outOfRange row)
  | none => if op.controls.all (Word.isSet state) then op.act state else .ok state

end Operation

/-- Runs operations one after the other. -/
def runAll (ops : List Operation) (state : UInt64) : Except RunError UInt64 :=
  ops.foldlM (fun state op => op.run state) state

def Circuit.run (c : Circuit) (state : UInt64) : Except RunError UInt64 :=
  runAll c.operations.toList state

end QuantumBoard

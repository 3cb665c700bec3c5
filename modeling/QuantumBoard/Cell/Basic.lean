import QuantumBoard.Circuit.Operation

/-! Cells: what can stand in a column of the board. A cell has an identifier, covers one or more
rows, and has a kind that says what it does. -/

namespace QuantumBoard

/-- Where the bits of a register go. -/
inductive Rearrangement where
  | rotateLeft
  | rotateRight
  | reverse
  /-- The two halves are dealt out in turn, the first half to the even places. -/
  | interleave
  /-- The even places go to the first half, the odd ones to the second. -/
  | deinterleave
deriving Repr, DecidableEq

namespace Rearrangement

/-- The larger half of a register. -/
def half (n : Nat) : Nat := (n + 1) / 2

/-- The place to which the bit at place `i` of `n` goes. -/
def destination (n i : Nat) : Rearrangement → Nat
  | rotateLeft => (i + 1) % n
  | rotateRight => (i + n - 1) % n
  | reverse => n - 1 - i
  | interleave => i % half n * 2 + i / half n
  | deinterleave => i / 2 + i % 2 * half n

def mapping (n : Nat) (r : Rearrangement) : List Nat :=
  (List.range n).map fun i => r.destination n i

end Rearrangement

/-- What a custom gate stands for. -/
inductive Definition where
  | matrix (gate : MatrixGate)
  | circuit (operations : List Operation)
deriving DecidableEq

inductive Spectrum where
  | fourier (inverse : Bool)
  | gradient (exponent : Float)
  /-- A gradient that turns with the time, in the direction of the sign. -/
  | timedGradient (sign : Float)
deriving DecidableEq

inductive CellKind where
  | gate (gate : WireGate)
  /-- A power, or a rotation, by the formula in the argument of the cell. -/
  | formula (axis : Axis) (rotation : Bool) (default : String)
  /-- A control, on the basis that the gate changes to the usual one. -/
  | control (basis : Option WireGate)
  /-- A control on the parity of all such cells of the column. -/
  | parity (basis : Option WireGate)
  | swap
  | identity
  | scalar (factor : Amplitude)
  | measurement (basis : Option WireGate)
  | input (register : Register) (reversed : Bool)
  /-- A rotation by the number in register `a`. -/
  | inputRotation (axis : Axis) (sign : Float)
  | rearrangement (kind : Rearrangement)
  | spectrum (kind : Spectrum)
  | arithmetic (transform : Transform)
  | display
  | unsupported (reason : String)
  | custom (definition : Definition)
deriving DecidableEq

structure Cell where
  id : String
  size : Nat
  kind : CellKind
deriving DecidableEq

/-- The formula of a cell that has no argument, for the cells that take one. -/
def CellKind.formulaDefault? : CellKind → Option String
  | formula _ _ default => some default
  | _ => none

end QuantumBoard

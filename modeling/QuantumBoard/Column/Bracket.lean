import QuantumBoard.Column.Resolved

/-! The bracket of a column: the rows that control its operations, and the operations in front
of them. The bases of control and parity cells are changed to the usual one, and then all
parities are folded into the first parity row, which controls for all of them. -/

namespace QuantumBoard.Column

/-- What surrounds the controlled region: the rows that control it and the operations in front. -/
structure Bracket where
  controls : List Nat
  before : List Operation
deriving DecidableEq

def controlRow? (p : Placed) : Option Nat :=
  match p.cell.kind with
  | .control _ => some p.row
  | _ => none

def parityRow? (p : Placed) : Option Nat :=
  match p.cell.kind with
  | .parity _ => some p.row
  | _ => none

/-- The change of basis on the row of a control or parity cell. -/
def basisChange? (p : Placed) : Option Operation :=
  match p.cell.kind with
  | .control basis | .parity basis => basis.map fun g => .wire g p.row
  | _ => none

/-- A row added to ascending rows. -/
def insertRow (row : Nat) : List Nat → List Nat
  | [] => [row]
  | r :: rows => if row ≤ r then row :: r :: rows else r :: insertRow row rows

/-- The bracket of a column; the first parity row collects the parity of the others. -/
def bracket (cells : List Placed) : Bracket :=
  let controls := cells.filterMap controlRow?
  let bases := cells.filterMap basisChange?
  match cells.filterMap parityRow? with
  | [] => ⟨controls, bases⟩
  | first :: others =>
    ⟨insertRow first controls, bases ++ others.map fun row => .controlledFlip row first⟩

end QuantumBoard.Column

import QuantumBoard.Column.Bracket
import QuantumBoard.Column.Operations

/-! Building a column. The operations of its swaps and of its other cells form the controlled
region; the bracket stands before it, and its inverse behind it. -/

namespace QuantumBoard.Column

/-- Gives the rows of all input cells to their registers. -/
def bindInputs (cells : List Placed) : Except ColumnError Inputs :=
  cells.foldlM (fun inputs p =>
    match p.cell.kind with
    | .input register reversed =>
      inputs.bind register (if reversed then p.footprint.reverse else p.footprint)
    | _ => .ok inputs) Inputs.empty

def swapRow? (p : Placed) : Option Nat :=
  match p.cell.kind with
  | .swap => some p.row
  | _ => none

/-- Rows in pairs, in order. -/
def pairs : List Nat → List (Nat × Nat)
  | first :: second :: rows => (first, second) :: pairs rows
  | _ => []

/-- The swaps of a column, which has an even number of swap cells. -/
def swaps (cells : List Placed) : Except ColumnError (List Operation) :=
  let rows := cells.filterMap swapRow?
  if rows.length % 2 = 0 then .ok ((pairs rows).map fun (a, b) => .swap a b)
  else .error (.oddSwaps rows.length)

/-- The operations of one cell under the controls; a measurement cannot be controlled. -/
def controlledOperations (inputs : Inputs) (controls : List Nat) (p : Placed) :
    Except ColumnError (List Operation) := do
  let ops ← cellOperations inputs p
  if controls ≠ [] ∧ ops.any Operation.isMeasurement then
    throw (.unphysical p.cell.id "controlled measurement")
  return ops.map (Operation.controlledBy controls)

/-- A column ready to be put together: its bracket, and the operations of its controlled region
in groups, one for each swap and one for each cell. -/
structure Parts where
  bracket : Bracket
  groups : List (List Operation)
deriving DecidableEq

/-- The parts of a column. Repeated registers are found first, then an odd number of swap cells,
then what is wrong with a cell, in row order. -/
def parts (cells : List Placed) : Except ColumnError Parts := do
  let inputs ← bindInputs cells
  let b := bracket cells
  let exchanges ← swaps cells
  let groups ← cells.mapM (controlledOperations inputs b.controls)
  return ⟨b, exchanges.map (fun op => [op.controlledBy b.controls]) ++ groups⟩

/-- The controlled region in its bracket; nothing at all when the region is empty. -/
def Parts.assemble (p : Parts) : List Operation :=
  let region := p.groups.flatten
  if region = [] then []
  else p.bracket.before ++ region ++ p.bracket.before.reverse.map Operation.inverse

/-- The operations of a resolved column. -/
def build (cells : List Placed) : Except ColumnError (List Operation) := do
  return (← parts cells).assemble

end QuantumBoard.Column

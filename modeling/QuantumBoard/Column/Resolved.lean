import QuantumBoard.Cell.Catalog
import QuantumBoard.Column.Error

/-! Resolved columns: every slot is looked up, first among the custom gates and then in the
registry, before anything is built. No cell may cover a slot that is not blank. -/

namespace QuantumBoard

/-- An entry of a column, as a document writes it. -/
inductive Slot where
  /-- The number one: nothing stands here. -/
  | blank
  | bare (id : String)
  | withArgument (id : String) (argument : Option Json)

namespace Slot

/-- The slot that a document entry means, if it means one. -/
def ofJson? (entry : Json) : Option Slot :=
  match entry with
  | .text id => some (bare id)
  | .object _ =>
    match entry.member? "id" with
    | some (.text id) => some (withArgument id (entry.member? "arg"))
    | _ => none
  | _ => if entry.number?.any (· == 1) then some blank else none

/-- The identifier of the cell in the slot. -/
def id? : Slot → Option String
  | blank => none
  | bare id | withArgument id _ => some id

def argument? : Slot → Option Json
  | withArgument _ argument => argument
  | _ => none

def isBlank : Slot → Bool
  | blank => true
  | _ => false

end Slot

/-- A cell at its row, with the argument of its slot. -/
structure Placed where
  row : Nat
  cell : Cell
  argument : Option Json

/-- The rows that a placed cell covers. -/
def Placed.footprint (p : Placed) : List Nat := List.range' p.row p.cell.size

/-- Custom gates, in the order of their definitions. -/
abbrev CustomGates := List Cell

/-- The cell with an identifier; a custom gate hides a cell of the registry. -/
def CustomGates.find? (custom : CustomGates) (id : String) : Option Cell :=
  (List.find? (·.id = id) custom).or (Registry.standard.find? id)

namespace Column

/-- Reads the entries of a column. -/
def readSlots (entries : List Json) : Except ColumnError (List Slot) :=
  entries.mapM fun entry =>
    match Slot.ofJson? entry with
    | some slot => .ok slot
    | none => .error (.unrecognized entry)

/-- Looks up a cell and checks the slots behind it that it covers. -/
def place (custom : CustomGates) (row : Nat) (id : String) (argument : Option Json)
    (behind : List Slot) : Except ColumnError Placed :=
  match custom.find? id with
  | none => .error (.unknownCell id)
  | some cell =>
    match (behind.take (cell.size - 1)).findIdx? (!·.isBlank) with
    | some i => .error (.overlap id row (row + 1 + i))
    | none => .ok ⟨row, cell, argument⟩

/-- The placed cells of the slots from a row on. -/
def placeFrom (custom : CustomGates) (row : Nat) :
    List Slot → Except ColumnError (List Placed)
  | [] => .ok []
  | slot :: behind =>
    match slot.id? with
    | none => placeFrom custom (row + 1) behind
    | some id => do
      let p ← place custom row id slot.argument? behind
      let ps ← placeFrom custom (row + 1) behind
      return p :: ps

/-- The placed cells of a column, in row order. -/
def resolve (custom : CustomGates) (entries : List Json) : Except ColumnError (List Placed) := do
  placeFrom custom 0 (← readSlots entries)

end Column

end QuantumBoard

import Std.Data.HashMap
import QuantumBoard.Cell.Basic

/-! Registries: cells in the order in which they were registered, found by their identifier
through a hash index. The first cell with an identifier keeps it. -/

namespace QuantumBoard

structure Registry where
  cells : Array Cell
  index : Std.HashMap String Nat

namespace Registry

def empty : Registry := ⟨#[], ∅⟩

def contains (r : Registry) (id : String) : Bool := r.index.contains id

def find? (r : Registry) (id : String) : Option Cell := do
  let place ← r.index[id]?
  r.cells[place]?

def size (r : Registry) : Nat := r.cells.size

/-- Registers a cell, unless its identifier is taken. -/
def insert (r : Registry) (cell : Cell) : Registry :=
  if r.contains cell.id then r
  else ⟨r.cells.push cell, r.index.insert cell.id r.cells.size⟩

def ofList (cells : List Cell) : Registry := cells.foldl insert empty

end Registry

end QuantumBoard

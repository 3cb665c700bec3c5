import QuantumBoard.Board.Error
import QuantumBoard.Column.Build

/-! Lists of columns, all of which are resolved before the first is built, and custom gates. Each
gate is defined by a matrix or by columns, and can use the gates that are defined before it. -/

namespace QuantumBoard.Board

/-! ## Columns -/

/-- The entries of each column of a list of columns. -/
def columnEntries (value : Json) : Except BoardError (List (List Json)) :=
  match value with
  | .array columns =>
    columns.mapM fun column =>
      match column with
      | .array entries => .ok entries
      | other => .error (.shape (.column other))
  | other => .error (.shape (.columns other))

/-- The operations of columns, one column after the other. -/
def compileColumns (custom : CustomGates) (columns : List (List Json)) :
    Except BoardError (List Operation) :=
  Except.mapError .column do
    let resolved ← columns.mapM (Column.resolve custom)
    let built ← resolved.mapM Column.build
    return built.flatten

/-! ## Custom gates -/

/-- A gate defined by a matrix, which must have as many rows as some register has states. -/
def matrixCell (id text : String) : Except BoardError Cell := do
  let m ← (Matrix.ofLiteral text).mapError .matrix
  let width := m.rows.log2
  if m.isSquare && decide (2 ≤ m.rows) && m.rows == Nat.pow 2 width then
    let gate ← (MatrixGate.ofEntries id width m.entries).mapError .dimension
    return ⟨id, width, .custom (.matrix gate)⟩
  else throw (.definition id (.badSize m.rows m.columns))

/-- One more than the highest row of the operations; one when there are no rows. -/
def rowCount (ops : List Operation) : Nat :=
  (ops.flatMap Operation.rows).foldl (fun n row => max n (row + 1)) 1

/-- A gate defined by columns; it covers the rows that its operations touch. -/
def circuitCell (earlier : CustomGates) (id : String) (circuit : Json) :
    Except BoardError Cell := do
  match circuit.member? "cols" with
  | none => throw (.definition id .noColumns)
  | some columns =>
    let ops ← compileColumns earlier (← columnEntries columns)
    return ⟨id, rowCount ops, .custom (.circuit ops)⟩

/-- The gate that an entry of the list of gates defines. -/
def defineGate (earlier : CustomGates) (entry : Json) : Except BoardError Cell :=
  match entry with
  | .object _ =>
    match entry.member? "id" with
    | some (.text id) =>
      match entry.member? "matrix", entry.member? "circuit" with
      | some (.text text), none => matrixCell id text
      | none, some circuit => circuitCell earlier id circuit
      | some _, some _ => .error (.definition id .both)
      | some _, none => .error (.definition id .matrixNotText)
      | none, none => .error (.definition id .neither)
    | _ => .error (.definition "" .noId)
  | _ => .error (.definition "" .notDictionary)

/-- Adds a gate to those defined before it. -/
def addGate (earlier : CustomGates) (entry : Json) : Except BoardError CustomGates := do
  let cell ← defineGate earlier entry
  if earlier.any (·.id = cell.id) then throw (.definition cell.id .repeated)
  return earlier ++ [cell]

/-- The custom gates of a document. -/
def customGates : Option Json → Except BoardError CustomGates
  | none | some .null => .ok []
  | some (.array entries) => entries.foldlM addGate []
  | some other => .error (.definition "" (.notList other))

end QuantumBoard.Board

import QuantumBoard.Board.Definition

/-! Documents: columns, with custom gates and initial states of the rows. -/

namespace QuantumBoard.Board

/-- The gates that prepare the state an entry names from the state zero. -/
def preparation? (entry : Json) : Option (List WireGate) :=
  match entry with
  | .text "+" => some [.hadamard]
  | .text "-" => some [.pauli .x, .hadamard]
  | .text "i" => some [.hadamard, Axis.z.fixedPower 0.5]
  | .text "-i" => some [.hadamard, Axis.z.fixedPower (-0.5)]
  | entry =>
    match entry.number? with
    | some x => if x == 0 then some [] else if x == 1 then some [.pauli .x] else none
    | none => none

/-- The preparations of the rows from one on. -/
def prepareFrom (row : Nat) : List Json → Except BoardError (List Operation)
  | [] => .ok []
  | entry :: entries =>
    match preparation? entry with
    | none => .error (.initial entry)
    | some gates => do
      let ops ← prepareFrom (row + 1) entries
      return gates.map (Operation.wire · row) ++ ops

/-- The operations that prepare the initial states. -/
def initialOperations : Option Json → Except BoardError (List Operation)
  | none | some .null => .ok []
  | some (.array entries) => prepareFrom 0 entries
  | some other => .error (.shape (.initial other))

/-- A circuit extended by operations. -/
def extend (c : Circuit) (ops : List Operation) : Except BoardError Circuit :=
  match c.extend ops with
  | (c, none) => .ok c
  | (_, some e) => .error (.placement e)

/-- The circuit of a document. The shape of the columns is checked before the gates, the gates
before the initial states, and these before anything in a column. -/
def compile (document : Json) : Except BoardError Circuit :=
  match document with
  | .object _ =>
    match document.member? "cols" with
    | none => .error (.shape .noColumns)
    | some value => do
      let columns ← columnEntries value
      let custom ← customGates (document.member? "gates")
      let initial ← initialOperations (document.member? "init")
      let ops ← compileColumns custom columns
      extend (← extend ⟨"", #[]⟩ initial) ops
  | other => .error (.shape (.document other))

end QuantumBoard.Board

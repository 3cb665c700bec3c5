import QuantumBoard.Amplitude.Basic

/-! Gates given by a matrix: the entries in row order, `4 ^ width` of them. -/

namespace QuantumBoard

structure MatrixGate where
  name : String
  width : Nat
  entries : Array Amplitude
deriving DecidableEq

namespace MatrixGate

/-- Whether a number of entries is that of a matrix on `width` qubits. -/
def fits (width size : Nat) : Bool :=
  decide (2 * width ≤ size.log2) && size == Nat.pow 2 width * Nat.pow 2 width

/-- A number of entries that is not that of a matrix on so many qubits. -/
structure DimensionError where
  size : Nat
  width : Nat
deriving Repr, DecidableEq

def DimensionError.message (e : DimensionError) : String :=
  "Matrix with " ++ toString e.size ++ " entries does not fit a " ++ toString e.width ++
    "-qubit gate"

/-- The gate with the given entries. -/
def ofEntries (name : String) (width : Nat) (entries : Array Amplitude) :
    Except DimensionError MatrixGate :=
  if fits width entries.size then .ok ⟨name, width, entries⟩
  else .error ⟨entries.size, width⟩

/-- The entry in a row and column. -/
def entry? (g : MatrixGate) (row column : Nat) : Option Amplitude :=
  g.entries[row * Nat.pow 2 g.width + column]?

/-- Whether there is an entry for every row and column. -/
def invertible (g : MatrixGate) : Bool :=
  decide (2 * g.width ≤ g.entries.size.log2) &&
    decide (Nat.pow 2 g.width * Nat.pow 2 g.width ≤ g.entries.size)

/-- The conjugate transpose. -/
def adjoint (g : MatrixGate) : MatrixGate :=
  let size := Nat.pow 2 g.width
  let entries := (Array.range (size * size)).map fun i =>
    ((g.entry? (i % size) (i / size)).getD ⟨0, 0⟩).conj
  ⟨g.name ++ "†", g.width, entries⟩

end MatrixGate

end QuantumBoard

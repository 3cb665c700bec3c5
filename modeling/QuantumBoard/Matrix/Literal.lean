import QuantumBoard.Amplitude.Literal
import QuantumBoard.Formula.Fraction
import QuantumBoard.Text.Quoted

/-! Complex matrices: entries in row order, with the number of rows and columns. A literal has
the rows in braces within braces and the entries between commas. -/

namespace QuantumBoard

structure Matrix where
  rows : Nat
  columns : Nat
  entries : Array Amplitude
deriving DecidableEq

namespace Matrix

/-- The entry in a row and column, none outside the matrix. -/
def get? (m : Matrix) (row column : Nat) : Option Amplitude :=
  if row < m.rows ∧ column < m.columns then m.entries[row * m.columns + column]? else none

def isSquare (m : Matrix) : Bool := m.rows == m.columns

inductive Error where
  | unbraced (text : String)
  | ragged (row entries expected : Nat)
  | badEntry (text : List Char)
deriving DecidableEq

def Error.message : Error → String
  | unbraced text =>
    "Invalid matrix text: no opening/closing braces in " ++ Text.quoted text
  | ragged row entries expected =>
    "Invalid matrix text: row " ++ toString row ++ " has " ++ toString entries ++
      " entries, expected " ++ toString expected
  | badEntry text => "Failed to parse complex from " ++ Text.quoted (String.ofList text)

/-- What stands between the outer pair of double braces. -/
def inner? (cs : List Char) : Option (List Char) :=
  match cs with
  | '{' :: '{' :: rest =>
    match rest.reverse with
    | '}' :: '}' :: middle => some middle.reverse
    | _ => none
  | _ => none

/-- The texts of the rows, which a closing brace, a comma and an opening brace part. -/
def splitRows : List Char → List (List Char)
  | [] => [[]]
  | '}' :: ',' :: '{' :: rest => [] :: splitRows rest
  | c :: rest =>
    match splitRows rest with
    | [] => [[c]]
    | row :: rows => (c :: row) :: rows

/-- The texts of the entries of a row. -/
def splitEntries : List Char → List (List Char)
  | [] => [[]]
  | ',' :: rest => [] :: splitEntries rest
  | c :: rest =>
    match splitEntries rest with
    | [] => [[c]]
    | entry :: entries => (c :: entry) :: entries

/-- The numbers of a row. -/
def readRow (row : List Char) : Except Error (List Amplitude) :=
  (splitEntries row).mapM fun entry =>
    (Amplitude.ofLiteral entry).mapError fun e => .badEntry e.text

/-- Adds the rows to a matrix that has a row. -/
def readRows (m : Matrix) : List (List Char) → Except Error Matrix
  | [] => .ok m
  | row :: rows => do
    let entries ← readRow row
    if entries.length = m.columns then
      readRows ⟨m.rows + 1, m.columns, m.entries ++ entries.toArray⟩ rows
    else throw (.ragged m.rows entries.length m.columns)

/-- The matrix that a literal spells. -/
def ofLiteral (text : String) : Except Error Matrix :=
  match inner? text.toList with
  | none => .error (.unbraced text)
  | some cs =>
    match splitRows (Formula.expandFractions cs) with
    | [] => .ok ⟨0, 0, #[]⟩
    | row :: rows => do
      let entries ← readRow row
      readRows ⟨1, entries.length, entries.toArray⟩ rows

end Matrix

end QuantumBoard

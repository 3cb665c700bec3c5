import QuantumBoard.Circuit.Basic
import QuantumBoard.Column.Error
import QuantumBoard.Matrix.Literal

/-! What can be wrong with a document, or with a link that should hold one. -/

namespace QuantumBoard

/-- A link that does not hold a document. -/
inductive LinkError where
  | address (expected actual : String)
  | afterAddress (rest : String)
  | fragment
  | notUtf8 (reason : String)
deriving Repr, DecidableEq

def LinkError.message : LinkError → String
  | address expected actual =>
    "URL must start with " ++ Text.quoted expected ++ ", got " ++ Text.quoted actual
  | afterAddress rest =>
    "text after the URL prefix must start with '#', got " ++ Text.quoted rest
  | fragment => "fragment must start with \"circuit=\""
  | notUtf8 reason => "fragment is not UTF-8: " ++ reason

/-- A part of a document that has the wrong shape. -/
inductive ShapeError where
  | document (value : Json)
  | noColumns
  | columns (value : Json)
  | column (value : Json)
  | initial (value : Json)

def ShapeError.message : ShapeError → String
  | document value => "circuit JSON must be a top-level dictionary, got " ++ value.render
  | noColumns => "circuit JSON must have a \"cols\" entry"
  | columns value => "cols must be a list, got " ++ value.render
  | column value => "col must be a list, got " ++ value.render
  | initial value => "init must be a list, got " ++ value.render

/-- What is wrong with the definition of a custom gate. -/
inductive DefinitionError where
  | notList (value : Json)
  | notDictionary
  | noId
  | badSize (rows columns : Nat)
  | noColumns
  | both
  | matrixNotText
  | neither
  | repeated

def DefinitionError.message : DefinitionError → String
  | notList value => "gates must be a list, got " ++ value.render
  | notDictionary => "entry must be a dictionary"
  | noId => "missing string \"id\""
  | badSize rows columns =>
    "matrix must be square with a power-of-two size, got " ++ toString rows ++ "x" ++
      toString columns
  | noColumns => "circuit must have a \"cols\" entry"
  | both => "has both a matrix and a circuit"
  | matrixNotText => "matrix must be a string"
  | neither => "needs a matrix or a circuit"
  | repeated => "defined more than once"

inductive BoardError where
  | link (error : LinkError)
  | notJson
  | shape (error : ShapeError)
  | initial (entry : Json)
  | definition (id : String) (error : DefinitionError)
  | column (error : ColumnError)
  | matrix (error : Matrix.Error)
  | dimension (error : MatrixGate.DimensionError)
  | placement (error : PlacementError)

def BoardError.message : BoardError → String
  | link error => "Malformed URL: " ++ error.message
  | notJson => "JSON decode error"
  | shape error => "Invalid circuit JSON: " ++ error.message
  | initial entry => "Unrecognized column entry: " ++ entry.render
  | definition id error => "Invalid custom gate '" ++ id ++ "': " ++ error.message
  | column error => error.message
  | matrix error => error.message
  | dimension error => "Circuit error: " ++ error.message
  | placement error => "Circuit error: " ++ error.message

end QuantumBoard

import QuantumBoard.Formula.Argument
import QuantumBoard.Gate.Transform

/-! What can be wrong with a column. -/

namespace QuantumBoard

inductive ColumnError where
  | unrecognized (entry : Json)
  | unknownCell (id : String)
  | overlap (cell : String) (row other : Nat)
  | duplicateInput (register : Register)
  | missingInput (register : Register) (cell : String)
  | inputOverlap (register : Register) (cell : String)
  | oddSwaps (count : Nat)
  | unphysical (cell reason : String)
  | formula (error : Formula.Error)

def ColumnError.message : ColumnError → String
  | unrecognized entry => "Unrecognized column entry: " ++ entry.render
  | unknownCell id => "Unrecognized column entry: " ++ id
  | overlap cell row other =>
    "Cell '" ++ cell ++ "' at row " ++ toString row ++ " overlaps the cell at row " ++
      toString other
  | duplicateInput register => "Duplicate input " ++ register.letter ++ " in column"
  | missingInput register cell =>
    "Missing input " ++ register.letter ++ " for cell '" ++ cell ++ "'"
  | inputOverlap register cell =>
    "Input " ++ register.letter ++ " overlaps the target of cell '" ++ cell ++ "'"
  | oddSwaps count =>
    "A column must contain 0 or an even number of swap gates, got " ++ toString count
  | unphysical cell reason => "Unphysical operation: '" ++ cell ++ "' (" ++ reason ++ ")"
  | formula error => error.message

end QuantumBoard

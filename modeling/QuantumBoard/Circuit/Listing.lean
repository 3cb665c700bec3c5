import QuantumBoard.Circuit.Basic

/-! The text of circuits: a numbered line for each operation. -/

namespace QuantumBoard

def commaRows (rows : List Nat) : String := ", ".intercalate (rows.map rowName)

namespace Operation

/-- The action with its parameter or factor. -/
def actionListing (op : Operation) : String :=
  match op.action with
  | .phase z => "global_phase(" ++ z.listing ++ ")"
  | action =>
    action.name ++
      match action.wireGate?.bind WireGate.parameter? with
      | some e => "(" ++ e.listing ++ ")"
      | none => ""

def listing (op : Operation) : String :=
  op.actionListing ++ (if op.targets = [] then "" else " " ++ commaRows op.targets) ++
    (if op.controls = [] then "" else " ctrl " ++ commaRows op.controls)

end Operation

/-- A number set to the right in four columns. -/
def rightAligned (n : Nat) : String :=
  let ds := Nat.toDigits 10 n
  String.ofList (List.replicate (4 - ds.length) ' ' ++ ds)

def Circuit.listing (c : Circuit) : String :=
  String.join <| c.operations.toList.mapIdx fun i op =>
    rightAligned i ++ ": " ++ op.listing ++ "\n"

end QuantumBoard

import QuantumBoard.Board.Link
import QuantumBoard.Circuit.Listing
import QuantumBoard.CommandLine.Arguments
import QuantumBoard.Json.Writer
import QuantumBoard.Saved.Write

/-! What the commands answer: the circuit of a link as text or as a document, the list of
cells, and the version. -/

namespace QuantumBoard.CommandLine

structure Outcome where
  code : Nat
  output : String := ""
  error : Option String := none
deriving Repr, DecidableEq

/-- The circuit as text: its size, a remark when it depends on the time, and its operations. -/
def circuitText (c : Circuit) : String :=
  "✓ " ++ toString c.size ++ " operations on " ++ toString c.numQubits ++ " qubits\n" ++
    (if c.isParameterized then "  symbolic in t; pass --time to bind it\n" else "") ++ c.listing

/-- The operations as a document. -/
def circuitDocument (c : Circuit) : String :=
  (operationsToJson .document c.operations.toList).layout 0 ++ "\n"

/-- The circuit with its time bound, if one is given. -/
def atTime (time : Option Float) (c : Circuit) : Circuit :=
  match time with
  | some v => c.bind Formula.timeName v
  | none => c

def failure (message : String) : Outcome := ⟨1, "", some ("Error: " ++ message)⟩

def compile (link format : String) (time : Option Float) : Outcome :=
  match Board.compileLink link with
  | .error e => failure ("Failed to compile Quirk URL: " ++ e.message)
  | .ok c =>
    match format with
    | "json" => ⟨0, circuitDocument (atTime time c), none⟩
    | "text" => ⟨0, circuitText (atTime time c), none⟩
    | other => failure ("Unknown format: '" ++ other ++ "' (expected text or json)")

/-- Whether the characters occur in a text one after the other. -/
def occursIn (part : List Char) : List Char → Bool
  | [] => part.isEmpty
  | c :: cs => part.isPrefixOf (c :: cs) || occursIn part cs

/-- A text filled up with blanks to 24 characters. -/
def column (text : String) : String :=
  text ++ String.ofList (List.replicate (24 - text.length) ' ')

def cellLine (cell : Cell) : String :=
  "  " ++ column cell.id ++ " " ++ toString cell.size ++
    (match cell.kind.formulaDefault? with
    | some default => "  (formula, default " ++ default ++ ")"
    | none => "") ++ "\n"

/-- The cells whose identifier holds the filter, and how many they are. -/
def cells (filter : Option String) : String :=
  let all := Registry.standard.cells.toList
  let shown := all.filter fun cell =>
    match filter with
    | some part => occursIn part.toList cell.id.toList
    | none => true
  String.join (shown.map cellLine) ++ "\n" ++ toString shown.length ++ " of " ++
    toString all.length ++ " cells\n"

def version : String :=
  "Quirk v0.1.0 - Quirk URL to quantum circuit compiler\n\nComponents:\n" ++
    "  quirk-ir   Operations, gates and circuits\n" ++
    "  quirk-url  URL decoding, cell registry and column compiler\n" ++
    "  quirk-cli  Command-line interface\n\nLicense: Apache-2.0\n"

def Command.run : Command → Outcome
  | compile link format time => CommandLine.compile link format time
  | cells filter => ⟨0, CommandLine.cells filter, none⟩
  | version => ⟨0, CommandLine.version, none⟩

/-- The outcome of the arguments; arguments that spell no command give the code 2. -/
def run (defaultLink : Option String) (arguments : List String) : Outcome :=
  match readCommand defaultLink arguments with
  | some command => command.run
  | none => ⟨2, "", none⟩

end QuantumBoard.CommandLine

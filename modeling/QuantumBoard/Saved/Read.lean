import QuantumBoard.Circuit.Basic
import QuantumBoard.Saved.Tag

/-! Reading saved circuits. Members that are not known are passed over; a record may also be the
list of its fields. What is read need not be a circuit that could be built. -/

namespace QuantumBoard

namespace Json

/-- A row, a width or a place: a whole number of 32 bits. -/
def natural? : Json → Option Nat
  | .integer n => if 0 ≤ n ∧ n < 4294967296 then some n.toNat else none
  | _ => none

def naturals? : Json → Option (List Nat)
  | .array items => items.mapM natural?
  | _ => none

def text? : Json → Option String
  | .text s => some s
  | _ => none

def bool? : Json → Option Bool
  | .bool b => some b
  | _ => none

def items? : Json → Option (List Json)
  | .array items => some items
  | _ => none

/-- The fields of a record. A list of fields may leave out the last ones, as many as `spare`. -/
def fields? (names : List String) (spare : Nat) : Json → Option (List (Option Json))
  | .object members => some (names.map (members.lookup ·))
  | .array items =>
    if items.length ≤ names.length ∧ names.length ≤ items.length + spare then
      some (items.map some ++ List.replicate (names.length - items.length) none)
    else none
  | _ => none

end Json

def Elementary.ofJson? (value : Json) : Option Elementary := value.tag?.bind ofTag?

def Expr.ofJson? : Json → Option Expr
  | .text "Pi" => some .pi
  | .text "Euler" => some .euler
  | .object [(tag, value)] =>
    match tag, value with
    | "Pi", .null => some .pi
    | "Euler", .null => some .euler
    | "Constant", value => value.number?.map .constant
    | "Symbol", value => value.text?.map .symbol
    | "Neg", value => (ofJson? value).map .neg
    | "Call", .array [f, e] => do
      return .call (← Elementary.ofJson? f) (← ofJson? e)
    | tag, .array [a, b] => do
      let op ← BinaryOp.ofTag? tag
      return .binary op (← ofJson? a) (← ofJson? b)
    | _, _ => none
  | _ => none

def Amplitude.ofJson? : Json → Option Amplitude
  | .array [re, im] => do return ⟨← re.number?, ← im.number?⟩
  | _ => none

def WireGate.ofJson? (value : Json) : Option WireGate :=
  match value.tag?.bind ofTag?, value with
  | some g, _ => some g
  | none, .object [(tag, e)] => do
    let gate ← ofParameterTag? tag
    return gate (← Expr.ofJson? e)
  | _, _ => none

def RegisterGate.ofJson? : Json → Option RegisterGate
  | .object [("Qft", .object members)] => do
    let width ← (← members.lookup "num_qubits").natural?
    let inverse ← (← members.lookup "inverse").bool?
    return fourier width inverse
  | .object [("PhaseGradient", .object members)] => do
    let width ← (← members.lookup "num_qubits").natural?
    let exponent ← Expr.ofJson? (← members.lookup "exponent")
    return gradient width exponent
  | .object [("Permutation", .object members)] => do
    let mapping ← (← members.lookup "mapping").naturals?
    return permutation mapping
  | _ => none

def Comparison.ofJson? (value : Json) : Option Comparison := value.tag?.bind ofTag?

def Transform.ofJson? : Json → Option Transform
  | .object [("Compare", relation)] => (Comparison.ofJson? relation).map compare
  | value => value.tag?.bind ofTag?

def ArithmeticGate.ofJson? (value : Json) : Option ArithmeticGate :=
  match value.fields? ["op", "target_width", "input_widths"] 0 with
  | some [some op, some target, some inputs] => do
    return ⟨← Transform.ofJson? op, ← target.natural?, ← inputs.naturals?⟩
  | _ => none

def MatrixGate.ofJson? (value : Json) : Option MatrixGate :=
  match value.fields? ["name", "num_qubits", "matrix"] 0 with
  | some [some name, some width, some matrix] => do
    let entries ← (← matrix.items?).mapM Amplitude.ofJson?
    return ⟨← name.text?, ← width.natural?, entries.toArray⟩
  | _ => none

def GateKind.ofJson? : Json → Option GateKind
  | .object [("Standard", g)] => (WireGate.ofJson? g).map wire
  | .object [("Register", g)] => (RegisterGate.ofJson? g).map register
  | .object [("Arithmetic", g)] => (ArithmeticGate.ofJson? g).map arithmetic
  | .object [("Custom", g)] => (MatrixGate.ofJson? g).map matrix
  | _ => none

/-- A label, which may be left out or be null. -/
def labelOfJson? : Option Json → Option (Option String)
  | none | some .null => some none
  | some (.text label) => some (some label)
  | some _ => none

def Gate.ofJson? (value : Json) : Option Gate :=
  match value.fields? ["kind", "label"] 0 with
  | some [some kind, label] => do return ⟨← GateKind.ofJson? kind, ← labelOfJson? label⟩
  | _ => none

def Action.ofJson? : Json → Option Action
  | .object [("Gate", g)] => (Gate.ofJson? g).map gate
  | .object [("GlobalPhase", z)] => (Amplitude.ofJson? z).map phase
  | value => if value.tag? = some "Measure" then some measure else none

def Operation.ofJson? (value : Json) : Option Operation :=
  match value.fields? ["kind", "qubits", "controls"] 1 with
  | some [some kind, some targets, controls] => do
    let rows ← match controls with
      | none => some []
      | some controls => controls.naturals?
    return ⟨← Action.ofJson? kind, ← targets.naturals?, rows⟩
  | _ => none

/-- Operations in order. -/
def operationsOfJson? (value : Json) : Option (List Operation) := do
  (← value.items?).mapM Operation.ofJson?

def Circuit.ofJson? (value : Json) : Option Circuit :=
  match value.fields? ["name", "operations"] 0 with
  | some [some name, some operations] => do
    return ⟨← name.text?, (← operationsOfJson? operations).toArray⟩
  | _ => none

end QuantumBoard

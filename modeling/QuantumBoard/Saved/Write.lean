import QuantumBoard.Circuit.Basic
import QuantumBoard.Saved.Tag

/-! Writing circuits as documents. A label or controls that are not there are left out. -/

namespace QuantumBoard

/-- How the numbers of a circuit are written: those of its gates and phases, and the parts of the
entries of its matrices. -/
structure NumberForm where
  value : Float → Json
  entry : Float → Json

/-- The form of documents. -/
def NumberForm.document : NumberForm := ⟨Json.ofFloat, Json.ofFloat⟩

def Expr.toJson (form : NumberForm) : Expr → Json
  | constant v => .tagged "Constant" (form.value v)
  | symbol name => .tagged "Symbol" (.text name)
  | pi => .text "Pi"
  | euler => .text "Euler"
  | neg e => .tagged "Neg" (e.toJson form)
  | binary op a b => .tagged op.tag (.array [a.toJson form, b.toJson form])
  | call f e => .tagged "Call" (.array [.text f.tag, e.toJson form])

def Amplitude.toJson (number : Float → Json) (z : Amplitude) : Json :=
  .array [number z.re, number z.im]

def Json.ofNat (n : Nat) : Json := .integer n

/-- Rows, widths or places. -/
def Json.ofNats (ns : List Nat) : Json := .array (ns.map ofNat)

def WireGate.toJson (form : NumberForm) : WireGate → Json
  | identity => .text "I"
  | hadamard => .text "H"
  | pauli axis => .text axis.tag
  | power axis e => .tagged axis.powerTag (e.toJson form)
  | rotation axis e => .tagged axis.rotationTag (e.toJson form)
  | swap => .text "Swap"

def RegisterGate.toJson (form : NumberForm) : RegisterGate → Json
  | fourier width inverse =>
    .tagged "Qft" (.object [("num_qubits", .ofNat width), ("inverse", .bool inverse)])
  | gradient width exponent =>
    .tagged "PhaseGradient"
      (.object [("num_qubits", .ofNat width), ("exponent", exponent.toJson form)])
  | permutation mapping =>
    .tagged "Permutation" (.object [("mapping", .ofNats mapping)])

def Transform.toJson : Transform → Json
  | increment => .text "Increment"
  | decrement => .text "Decrement"
  | addA => .text "AddA"
  | subA => .text "SubA"
  | addSquare => .text "AddASquared"
  | subSquare => .text "SubASquared"
  | addProduct => .text "AddAB"
  | subProduct => .text "SubAB"
  | xorA => .text "XorA"
  | addCount => .text "AddPopcountA"
  | subCount => .text "SubPopcountA"
  | flipBelow => .text "FlipBelowA"
  | mulA => .text "MulA"
  | divA => .text "DivA"
  | compare relation => .tagged "Compare" (.text relation.tag)

def ArithmeticGate.toJson (g : ArithmeticGate) : Json :=
  .object [("op", g.transform.toJson), ("target_width", .ofNat g.targetWidth),
    ("input_widths", .ofNats g.inputWidths)]

def MatrixGate.toJson (form : NumberForm) (g : MatrixGate) : Json :=
  .object [("name", .text g.name), ("num_qubits", .ofNat g.width),
    ("matrix", .array (g.entries.toList.map (Amplitude.toJson form.entry)))]

def GateKind.toJson (form : NumberForm) : GateKind → Json
  | wire g => .tagged "Standard" (g.toJson form)
  | register g => .tagged "Register" (g.toJson form)
  | arithmetic g => .tagged "Arithmetic" g.toJson
  | matrix g => .tagged "Custom" (g.toJson form)

def Gate.toJson (form : NumberForm) (g : Gate) : Json :=
  .object (("kind", g.kind.toJson form) ::
    match g.label with
    | some label => [("label", .text label)]
    | none => [])

def Action.toJson (form : NumberForm) : Action → Json
  | gate g => .tagged "Gate" (g.toJson form)
  | measure => .text "Measure"
  | phase z => .tagged "GlobalPhase" (z.toJson form.value)

def Operation.toJson (form : NumberForm) (op : Operation) : Json :=
  .object (("kind", op.action.toJson form) :: ("qubits", .ofNats op.targets) ::
    if op.controls = [] then [] else [("controls", .ofNats op.controls)])

/-- Operations in order. -/
def operationsToJson (form : NumberForm) (ops : List Operation) : Json :=
  .array (ops.map (Operation.toJson form))

def Circuit.toJson (form : NumberForm) (c : Circuit) : Json :=
  .object [("name", .text c.name), ("operations", operationsToJson form c.operations.toList)]

end QuantumBoard

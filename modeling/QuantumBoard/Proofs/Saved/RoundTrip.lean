import Mathlib.Algebra.Group.Nat.Defs
import QuantumBoard.Saved.Read
import QuantumBoard.Saved.Write

/-! # Saved circuits read back

A saved circuit reads back as it was, part by part: each choice by its tag, each record by its
fields, lists item by item. Two kinds of numbers have to be readable for that. Rows, widths and
places must fit 32 bits, as all of them do where they come from; and each double has to read back
from what is written for it, which is a matter of the form of the numbers and not of the
circuit. -/

namespace QuantumBoard

/-- A double reads back from what is written for it. -/
structure NumberForm.Keeps (form : NumberForm) (x : Float) : Prop where
  value : (form.value x).number? = some x
  entry : (form.entry x).number? = some x

/-- The form of documents keeps every double that is a number. -/
theorem NumberForm.document_keeps {x : Float} (finite : x.isFinite = true) :
    NumberForm.document.Keeps x := by
  have written : Json.ofFloat x = .real x := if_pos finite
  exact ⟨congrArg Json.number? written, congrArg Json.number? written⟩

/-! ## The numbers in a circuit -/

def Expr.floats : Expr → List Float
  | constant v => [v]
  | symbol _ | pi | euler => []
  | neg e | call _ e => e.floats
  | binary _ a b => a.floats ++ b.floats

def Amplitude.floats (z : Amplitude) : List Float := [z.re, z.im]

def WireGate.floats : WireGate → List Float
  | power _ e | rotation _ e => e.floats
  | _ => []

def RegisterGate.floats : RegisterGate → List Float
  | gradient _ e => e.floats
  | _ => []

def GateKind.floats : GateKind → List Float
  | wire g => g.floats
  | register g => g.floats
  | arithmetic _ => []
  | matrix g => g.entries.toList.flatMap Amplitude.floats

def Action.floats : Action → List Float
  | gate g => g.kind.floats
  | measure => []
  | phase z => z.floats

/-- The doubles in the operations of a circuit. -/
def Circuit.floats (c : Circuit) : List Float :=
  c.operations.toList.flatMap fun op => op.action.floats

def RegisterGate.naturals : RegisterGate → List Nat
  | fourier width _ | gradient width _ => [width]
  | permutation mapping => mapping

def GateKind.naturals : GateKind → List Nat
  | wire _ => []
  | register g => g.naturals
  | arithmetic g => g.targetWidth :: g.inputWidths
  | matrix g => [g.width]

def Action.naturals : Action → List Nat
  | gate g => g.kind.naturals
  | _ => []

def Operation.naturals (op : Operation) : List Nat := op.action.naturals ++ op.rows

/-- The rows, widths and places in the operations of a circuit. -/
def Circuit.naturals (c : Circuit) : List Nat := c.operations.toList.flatMap Operation.naturals

/-! ## Numbers and lists -/

theorem Json.natural?_ofNat {n : Nat} (h : n < 2 ^ 32) : (Json.ofNat n).natural? = some n := by
  have range : (0 : Int) ≤ n ∧ (n : Int) < 4294967296 := by omega
  rw [ofNat, natural?, if_pos range, Int.toNat_natCast]

/-- A list reads back when its items do. -/
theorem mapM_map_eq_some {α β : Type} {write : α → β} {read : β → Option α} {items : List α}
    (each : ∀ a ∈ items, read (write a) = some a) : (items.map write).mapM read = some items := by
  induction items with
  | nil => rfl
  | cons a items ih =>
    rw [List.map_cons, List.mapM_cons, each a List.mem_cons_self,
      ih fun b h => each b (List.mem_cons_of_mem _ h)]
    rfl

theorem Json.naturals?_ofNats {ns : List Nat} (h : ∀ n ∈ ns, n < 2 ^ 32) :
    (Json.ofNats ns).naturals? = some ns :=
  mapM_map_eq_some fun n hn => natural?_ofNat (h n hn)

/-! ## Expressions -/

section

variable {form : NumberForm}

theorem Expr.ofJson?_toJson {e : Expr} (kept : ∀ x ∈ e.floats, form.Keeps x) :
    Expr.ofJson? (e.toJson form) = some e := by
  induction e with
  | constant v =>
    show (form.value v).number?.map Expr.constant = _
    rw [(kept v List.mem_cons_self).value]
    rfl
  | symbol name => rfl
  | pi => rfl
  | euler => rfl
  | neg e ih =>
    show (Expr.ofJson? (e.toJson form)).map Expr.neg = _
    rw [ih kept]
    rfl
  | binary op a b iha ihb =>
    have first := iha fun x hx => kept x (List.mem_append_left _ hx)
    have second := ihb fun x hx => kept x (List.mem_append_right _ hx)
    have step : Expr.ofJson? ((binary op a b).toJson form) = (do
        return .binary (← BinaryOp.ofTag? op.tag) (← Expr.ofJson? (a.toJson form))
          (← Expr.ofJson? (b.toJson form))) := by
      cases op <;> rfl
    rw [step, BinaryOp.ofTag?_tag, first, second]
    rfl
  | call f e ih =>
    show (do return Expr.call (← Elementary.ofTag? f.tag) (← Expr.ofJson? (e.toJson form))) = _
    rw [Elementary.ofTag?_tag, ih kept]
    rfl

theorem Amplitude.ofJson?_toJson {number : Float → Json} {z : Amplitude}
    (kept : ∀ x ∈ z.floats, (number x).number? = some x) :
    Amplitude.ofJson? (z.toJson number) = some z := by
  have re := kept z.re (by simp [floats])
  have im := kept z.im (by simp [floats])
  simp [toJson, ofJson?, re, im]

/-! ## Gates -/

/-- What is tagged as a gate with a parameter is no gate without one. -/
theorem WireGate.ofJson?_tagged {tag : String} {gate : Expr → WireGate} {e : Expr} {value : Json}
    (plain : ofTag? tag = none) (tagged : ofParameterTag? tag = some gate)
    (read : Expr.ofJson? value = some e) :
    WireGate.ofJson? (.tagged tag value) = some (gate e) := by
  have bare : (Json.tagged tag value).tag?.bind ofTag? = none := by
    cases value <;> simp [Json.tagged, Json.tag?, plain]
  unfold ofJson?
  rw [bare]
  simp [Json.tagged, tagged, read]

theorem WireGate.ofJson?_toJson {g : WireGate} (kept : ∀ x ∈ g.floats, form.Keeps x) :
    WireGate.ofJson? (g.toJson form) = some g := by
  cases g with
  | identity => rfl
  | hadamard => rfl
  | swap => rfl
  | pauli axis => cases axis <;> rfl
  | power axis e =>
    have read := Expr.ofJson?_toJson kept
    cases axis <;> exact ofJson?_tagged rfl rfl read
  | rotation axis e =>
    have read := Expr.ofJson?_toJson kept
    cases axis <;> exact ofJson?_tagged rfl rfl read

namespace RegisterGate

/-! The width of a register gate is whatever the reader makes of what stands in its place. -/

theorem ofJson?_fourier (width : Json) (inverse : Bool) :
    ofJson? (.tagged "Qft" (.object [("num_qubits", width), ("inverse", .bool inverse)])) =
      (do return fourier (← width.natural?) inverse) := rfl

theorem ofJson?_gradient (width exponent : Json) :
    ofJson? (.tagged "PhaseGradient" (.object [("num_qubits", width), ("exponent", exponent)])) =
      (do return gradient (← width.natural?) (← Expr.ofJson? exponent)) := rfl

theorem ofJson?_permutation (mapping : Json) :
    ofJson? (.tagged "Permutation" (.object [("mapping", mapping)])) =
      (do return permutation (← mapping.naturals?)) := rfl

theorem ofJson?_toJson {g : RegisterGate} (fits : ∀ n ∈ g.naturals, n < 2 ^ 32)
    (kept : ∀ x ∈ g.floats, form.Keeps x) : ofJson? (g.toJson form) = some g := by
  cases g with
  | fourier width inverse =>
    rw [toJson, ofJson?_fourier, Json.natural?_ofNat (fits width List.mem_cons_self)]
    rfl
  | gradient width e =>
    rw [toJson, ofJson?_gradient, Json.natural?_ofNat (fits width List.mem_cons_self),
      Expr.ofJson?_toJson kept]
    rfl
  | permutation mapping =>
    have places : (Json.ofNats mapping).naturals? = some mapping := Json.naturals?_ofNats fits
    rw [toJson, ofJson?_permutation, places]
    rfl

end RegisterGate

theorem Transform.ofJson?_toJson (t : Transform) : Transform.ofJson? t.toJson = some t := by
  cases t with
  | compare relation =>
    show (Comparison.ofTag? relation.tag).map Transform.compare = _
    rw [Comparison.ofTag?_tag]
    rfl
  | _ => rfl

theorem ArithmeticGate.ofJson?_toJson {g : ArithmeticGate}
    (fits : ∀ n ∈ g.targetWidth :: g.inputWidths, n < 2 ^ 32) :
    ArithmeticGate.ofJson? g.toJson = some g := by
  have target := Json.natural?_ofNat (fits _ List.mem_cons_self)
  have inputs := Json.naturals?_ofNats fun n hn => fits n (List.mem_cons_of_mem _ hn)
  simp [toJson, ofJson?, Json.fields?, List.lookup_cons, g.transform.ofJson?_toJson, target, inputs]

theorem MatrixGate.ofJson?_toJson {g : MatrixGate} (fits : g.width < 2 ^ 32)
    (kept : ∀ x ∈ g.entries.toList.flatMap Amplitude.floats, form.Keeps x) :
    MatrixGate.ofJson? (g.toJson form) = some g := by
  have entries : (g.entries.toList.map (Amplitude.toJson form.entry)).mapM Amplitude.ofJson? =
      some g.entries.toList :=
    mapM_map_eq_some fun z hz => Amplitude.ofJson?_toJson fun x hx =>
      (kept x (List.mem_flatMap.mpr ⟨z, hz, hx⟩)).entry
  simp [toJson, ofJson?, Json.fields?, List.lookup_cons, Json.items?, Json.text?, entries,
    Json.natural?_ofNat fits]

theorem GateKind.ofJson?_toJson {kind : GateKind} (fits : ∀ n ∈ kind.naturals, n < 2 ^ 32)
    (kept : ∀ x ∈ kind.floats, form.Keeps x) : GateKind.ofJson? (kind.toJson form) = some kind := by
  cases kind with
  | wire g => exact congrArg (Option.map wire) (WireGate.ofJson?_toJson kept)
  | register g => exact congrArg (Option.map register) (RegisterGate.ofJson?_toJson fits kept)
  | arithmetic g => exact congrArg (Option.map arithmetic) (ArithmeticGate.ofJson?_toJson fits)
  | matrix g =>
    exact congrArg (Option.map matrix) (MatrixGate.ofJson?_toJson (fits _ List.mem_cons_self) kept)

theorem Gate.ofJson?_toJson {g : Gate} (fits : ∀ n ∈ g.kind.naturals, n < 2 ^ 32)
    (kept : ∀ x ∈ g.kind.floats, form.Keeps x) : Gate.ofJson? (g.toJson form) = some g := by
  have read := GateKind.ofJson?_toJson fits kept
  match g with
  | ⟨kind, label⟩ =>
    have step : Gate.ofJson? (Gate.toJson form ⟨kind, label⟩) =
        (do return ⟨← GateKind.ofJson? (kind.toJson form), label⟩) := by
      cases label <;> rfl
    rw [step, read]
    rfl

theorem Gate.member?_label (form : NumberForm) (g : Gate) :
    (g.toJson form).member? "label" = none ↔ g.label = none := by
  match g with
  | ⟨_, none⟩ | ⟨_, some label⟩ => simp [toJson, Json.member?, List.lookup_cons]

/-! ## Operations and circuits -/

theorem Action.ofJson?_toJson {action : Action} (fits : ∀ n ∈ action.naturals, n < 2 ^ 32)
    (kept : ∀ x ∈ action.floats, form.Keeps x) :
    Action.ofJson? (action.toJson form) = some action := by
  cases action with
  | gate g => exact congrArg (Option.map gate) (Gate.ofJson?_toJson fits kept)
  | measure => rfl
  | phase z =>
    exact congrArg (Option.map phase) (Amplitude.ofJson?_toJson fun x hx => (kept x hx).value)

theorem Operation.ofJson?_toJson {op : Operation} (fits : ∀ n ∈ op.naturals, n < 2 ^ 32)
    (kept : ∀ x ∈ op.action.floats, form.Keeps x) :
    Operation.ofJson? (op.toJson form) = some op := by
  match op with
  | ⟨action, targets, controls⟩ =>
    have read := Action.ofJson?_toJson
      (fun n hn => fits n (List.mem_append_left _ hn)) kept
    have rows : ∀ n ∈ targets ++ controls, n < 2 ^ 32 :=
      fun n hn => fits n (List.mem_append_right _ hn)
    have onTargets := Json.naturals?_ofNats fun n hn => rows n (List.mem_append_left _ hn)
    have onControls := Json.naturals?_ofNats fun n hn => rows n (List.mem_append_right _ hn)
    by_cases none : controls = []
    · simp [toJson, ofJson?, Json.fields?, List.lookup_cons, none, read, onTargets]
    · simp [toJson, ofJson?, Json.fields?, List.lookup_cons, none, read, onTargets, onControls]

theorem Operation.member?_controls (form : NumberForm) (op : Operation) :
    (op.toJson form).member? "controls" = none ↔ op.controls = [] := by
  by_cases none : op.controls = []
  · simp [toJson, Json.member?, List.lookup_cons, none]
  · simp [toJson, Json.member?, List.lookup_cons, none]

theorem Circuit.ofJson?_toJson {c : Circuit} (fits : ∀ n ∈ c.naturals, n < 2 ^ 32)
    (kept : ∀ x ∈ c.floats, form.Keeps x) : Circuit.ofJson? (c.toJson form) = some c := by
  have read : operationsOfJson? (operationsToJson form c.operations.toList) =
      some c.operations.toList :=
    mapM_map_eq_some fun op hop => Operation.ofJson?_toJson
      (fun n hn => fits n (List.mem_flatMap.mpr ⟨op, hop, hn⟩))
      (fun x hx => kept x (List.mem_flatMap.mpr ⟨op, hop, hx⟩))
  simp [toJson, ofJson?, Json.fields?, List.lookup_cons, Json.text?, read]

end

/-- A saved circuit leaves out controls and labels that are not there, and reads back as the circuit
that was saved: without doubles in every form of the numbers, with doubles that are numbers in every
form from which these read back, such as that of documents. -/
theorem Circuit.saved_reads_back {c : Circuit} (fits : ∀ n ∈ c.naturals, n < 2 ^ 32) :
    (∀ form, ∀ op ∈ c.operations.toList,
      ((op.toJson form).member? "controls" = none ↔ op.controls = []) ∧
        ∀ g, op.action = .gate g → ((g.toJson form).member? "label" = none ↔ g.label = none)) ∧
    (c.floats = [] → ∀ form, Circuit.ofJson? (c.toJson form) = some c) ∧
    ((∀ x ∈ c.floats, x.isFinite = true) →
      (∀ form : NumberForm, (∀ x, x.isFinite = true → form.Keeps x) →
        Circuit.ofJson? (c.toJson form) = some c) ∧
      Circuit.ofJson? (c.toJson .document) = some c) := by
  refine ⟨fun form op _ => ⟨op.member?_controls form, fun g _ => g.member?_label form⟩,
    fun none form => ofJson?_toJson fits fun x hx => ?_, fun finite => ⟨fun form kept => ?_, ?_⟩⟩
  · rw [none] at hx
    cases hx
  · exact ofJson?_toJson fits fun x hx => kept x (finite x hx)
  · exact ofJson?_toJson fits fun x hx => NumberForm.document_keeps (finite x hx)

/-- A labelled power under a control, with the exponent `sin(π * t)`, and a comparison. -/
def symbolicCircuit : Circuit where
  name := "symbolic"
  operations := #[
    (Operation.ofGate ⟨.wire (.power .z (.call .sin (.binary .mul .pi .time))), some "Z^ft"⟩
      [1]).controlledBy [0],
    .ofKind (.arithmetic ⟨.compare .less, 1, [1, 2]⟩) [3, 4, 5, 6]]

/-- A gradient, a matrix and a phase, all with doubles. -/
def numericCircuit : Circuit where
  operations := #[
    .ofKind (.register (.gradient 2 (.constant 0.5))) [0, 1],
    .ofKind (.matrix ⟨"~root", 1, #[⟨0, 1⟩, ⟨0, 0⟩, ⟨0, 0⟩, ⟨-0.0, -1⟩]⟩) [2],
    (Operation.phase ⟨0.6, 0.8⟩).controlledBy [4294967295]]

theorem Circuit.saved_reads_back_twoCircuits :
    (∀ form, Circuit.ofJson? (symbolicCircuit.toJson form) = some symbolicCircuit) ∧
      Circuit.ofJson? (numericCircuit.toJson .document) = some numericCircuit :=
  ⟨(saved_reads_back (by decide)).2.1 rfl,
    ((saved_reads_back (by decide)).2.2 (by decide +kernel)).2⟩

end QuantumBoard

import QuantumBoard.Proofs.Board.Placement

/-! # Circuits under construction

A circuit is built step by step: single operations and lists of them are added, symbols are bound,
and the circuits of documents are put behind what is there. What each step leaves is said once, for
every circuit; so all operations are well placed at every moment, whatever steps failed on the way,
and the name stays. -/

namespace QuantumBoard

/-- The ways to add one operation. -/
inductive Builder where
  | hadamard (row : Nat)
  | pauli (axis : Axis) (row : Nat)
  | measure (row : Nat)
  | controlledFlip (control target : Nat)
  | swap (first second : Nat)
  | gate (gate : Gate) (targets : List Nat)
  | push (operation : Operation)

def Builder.operation : Builder → Operation
  | hadamard row => .wire .hadamard row
  | pauli axis row => .wire (.pauli axis) row
  | measure row => .measure row
  | controlledFlip control target => .controlledFlip control target
  | swap first second => .swap first second
  | gate g targets => .ofGate g targets
  | push op => op

inductive Step where
  | add (builder : Builder)
  | extend (operations : List Operation)
  | bind (name : String) (value : Float)
  /-- Adds the operations of a document, if it compiles. -/
  | append (document : Json)

namespace Circuit

/-- The circuit after an operation was offered to it, with the error that turned it down. -/
def offer (c : Circuit) (op : Operation) : Circuit × Option PlacementError :=
  match c.push op with
  | .ok c => (c, none)
  | .error e => (c, some e)

/-- The circuit after a step, with the error that the step reports. -/
def apply (c : Circuit) : Step → Circuit × Option BoardError
  | .add builder => (c.offer builder.operation).map id (Option.map .placement)
  | .extend ops => (c.extend ops).map id (Option.map .placement)
  | .bind name v => (c.bind name v, none)
  | .append document =>
    match Board.compile document with
    | .ok d => (c.extend d.operations.toList).map id (Option.map .placement)
    | .error e => (c, some e)

/-- What a step leaves of a circuit and what it reports. A failed step leaves the circuit with
those operations that it offered before the first that was turned down. -/
inductive Outcome (c : Circuit) : Step → Circuit × Option BoardError → Prop
  | added {builder : Builder} (placed : builder.operation.WellPlaced) :
      Outcome c (.add builder) (c.appended [builder.operation], none)
  | turnedDown {builder : Builder} {e : PlacementError}
      (rejected : builder.operation.Rejected e) :
      Outcome c (.add builder) (c, some (.placement e))
  | extended {ops : List Operation} (placed : ∀ op ∈ ops, op.WellPlaced) :
      Outcome c (.extend ops) (c.appended ops, none)
  | stopped {front behind : List Operation} {op : Operation} {e : PlacementError}
      (placed : ∀ op ∈ front, op.WellPlaced) (rejected : op.Rejected e) :
      Outcome c (.extend (front ++ op :: behind)) (c.appended front, some (.placement e))
  | bound {name : String} {v : Float} : Outcome c (.bind name v) (c.bind name v, none)
  | appended {document : Json} {d : Circuit} (compiled : Board.compile document = .ok d)
      (placed : ∀ op ∈ d.operations.toList, op.WellPlaced) :
      Outcome c (.append document) (c.appended d.operations.toList, none)
  | unreadable {document : Json} {e : BoardError} (fails : Board.compile document = .error e) :
      Outcome c (.append document) (c, some e)

/-- A circuit under construction: its name is the one it was given, and its operations are all
well placed. -/
structure WellFormed (name : String) (c : Circuit) : Prop where
  name_eq : c.name = name
  placed : ∀ op ∈ c.operations.toList, op.WellPlaced

variable {name : String} {c : Circuit}

theorem WellFormed.empty (name : String) : WellFormed name ⟨name, #[]⟩ := ⟨rfl, nofun⟩

theorem WellFormed.appended (wellFormed : WellFormed name c) {ops : List Operation}
    (placed : ∀ op ∈ ops, op.WellPlaced) : WellFormed name (c.appended ops) where
  name_eq := wellFormed.name_eq
  placed op mem := (mem_appended.mp mem).elim (wellFormed.placed op) (placed op)

theorem WellFormed.bind (wellFormed : WellFormed name c) (symbol : String) (v : Float) :
    WellFormed name (c.bind symbol v) where
  name_eq := wellFormed.name_eq
  placed := forall_mem_bind (fun _ placed => placed.bind symbol v) wellFormed.placed

theorem WellFormed.outcome (wellFormed : WellFormed name c) {step : Step}
    {result : Circuit × Option BoardError} (outcome : Outcome c step result) :
    WellFormed name result.1 := by
  cases outcome with
  | added placed => exact wellFormed.appended (List.forall_mem_singleton.mpr placed)
  | extended placed | stopped placed _ | appended _ placed => exact wellFormed.appended placed
  | bound => exact wellFormed.bind _ _
  | turnedDown _ | unreadable _ => exact wellFormed

end Circuit

end QuantumBoard

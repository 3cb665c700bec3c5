import QuantumBoard.Proofs.Cell.WellFormed
import QuantumBoard.Proofs.Circuit.Time
import QuantumBoard.Proofs.Column.Build
import QuantumBoard.Proofs.Column.Resolve

/-! # Columns depend on the time at most

The gates of the cells that the board knows have no symbol but the time, and neither have the
formulas that cells accept as arguments. A cell of a custom gate has the operations of the gate. So
no operation of a column depends on anything but the time. -/

namespace QuantumBoard

open Success

/-- The gate that a cell puts on its own row depends on the time at most, and so do the operations
of a custom gate. -/
structure Cell.Timed (c : Cell) : Prop where
  gate : ∀ g, c.kind.wireGate? = some g → ∀ e, g.parameter? = some e → e.OnlyTime
  definition : ∀ ops, c.kind = .custom (.circuit ops) → ∀ op ∈ ops, op.Timed

/-- Whether the gate that a cell puts on its own row, if there is one, has no symbol but the
time. -/
def Cell.isTimed (c : Cell) : Bool :=
  (c.kind.wireGate?.bind WireGate.parameter?).all fun e => e.symbols.all (· = Formula.timeName)

theorem Cell.timed_of_isTimed {c : Cell} (plain : c.isPlain = true) (timed : c.isTimed = true) :
    c.Timed where
  gate g hg e he := by
    rw [isTimed, hg, Option.bind_some, he, Option.all_some, List.all_eq_true] at timed
    exact Expr.onlyTime_iff.mpr fun name mem => of_decide_eq_true (timed name mem)
  definition ops hops := by
    simp [isPlain, hops] at plain

theorem Catalog.all_isTimed : Catalog.all.all Cell.isTimed = true := by
  decide +kernel

theorem Registry.standard_timed {id : String} {c : Cell}
    (h : Registry.standard.find? id = some c) : c.Timed := by
  have known := mem_ofList (mem_of_find? h)
  exact Cell.timed_of_isTimed (List.all_eq_true.mp Catalog.all_isPlain c known)
    (List.all_eq_true.mp Catalog.all_isTimed c known)

/-- Every custom gate depends on the time at most. -/
def CustomGates.Timed (custom : CustomGates) : Prop := ∀ c ∈ custom, c.Timed

theorem CustomGates.Timed.find? {custom : CustomGates} (timed : custom.Timed) {id : String}
    {c : Cell} (h : custom.find? id = some c) : c.Timed :=
  of_find? timed (fun _ _ => Registry.standard_timed) h

namespace Column

variable {inputs : Inputs} {p : Placed}

theorem labelled_timed {kind : GateKind} (time : ∀ e, kind.formula? = some e → e.OnlyTime)
    (id : String) (rows : List Nat) : ∀ op ∈ labelled id kind rows, op.Timed := by
  intro op hop
  obtain rfl := List.mem_singleton.mp hop
  exact time

theorem measure_timed {basis : Option WireGate}
    (time : ∀ g, basis = some g → ∀ e, g.parameter? = some e → e.OnlyTime) (row : Nat) :
    ∀ op ∈ measure basis row, op.Timed := by
  intro op hop
  cases basis with
  | none =>
    obtain rfl := List.mem_singleton.mp hop
    exact Operation.timed_of_no_formula rfl
  | some g =>
    have change : (Operation.wire g row).Timed := time g rfl
    simp only [measure, List.mem_cons, List.not_mem_nil, or_false] at hop
    rcases hop with rfl | rfl | rfl
    · exact change
    · exact Operation.timed_of_no_formula rfl
    · exact change.inverse

theorem inputRotation_timed (axis : Axis) (sign : Float) (row : Nat) (bits : List Nat) :
    ∀ op ∈ inputRotation axis sign row bits, op.Timed := by
  intro op hop
  obtain ⟨k, hk, rfl⟩ := List.mem_mapIdx.mp hop
  rintro e ⟨⟩
  exact Expr.onlyTime_constant _

theorem spectrumGate_timed (width : Nat) (s : Spectrum) :
    ∀ e, (GateKind.register (spectrumGate width s)).formula? = some e → e.OnlyTime := by
  intro e formula
  cases s with
  | fourier inverse => cases formula
  | gradient exponent =>
    cases formula
    exact Expr.onlyTime_constant _
  | timedGradient sign =>
    cases formula
    exact Expr.onlyTime_iff.mpr fun name mem => List.mem_singleton.mp mem

theorem custom_timed (timed : p.cell.Timed) {d : Definition} (kind : p.cell.kind = .custom d) :
    ∀ op ∈ custom d p.row, op.Timed := by
  intro op hop
  cases d with
  | matrix g =>
    obtain rfl := List.mem_singleton.mp hop
    exact Operation.timed_of_no_formula rfl
  | circuit ops =>
    obtain ⟨inner, hinner, rfl⟩ := List.mem_map.mp hop
    exact (timed.definition ops kind inner hinner).mapRows _

/-- What a cell does depends on the time at most. -/
theorem cellOperations_timed (timed : p.cell.Timed) {ops : List Operation}
    (h : cellOperations inputs p = .ok ops) : ∀ op ∈ ops, op.Timed := by
  intro op hop
  cases cellOperation_of_mem h hop with
  | gate kind => exact timed.gate _ (by rw [kind]; rfl)
  | @formula axis rotation default e _ accepted =>
    have time := Formula.ofArgument_onlyTime accepted
    cases rotation <;> rintro e' ⟨⟩ <;> exact time
  | identity _ | phase _ => exact Operation.timed_of_no_formula rfl
  | measured kind hop =>
    exact measure_timed (fun g same => timed.gate g (by rw [kind]; exact same)) p.row op hop
  | rotation _ _ hop => exact inputRotation_timed _ _ p.row _ op hop
  | rearrangement _ hop =>
    exact labelled_timed (fun e formula => by cases formula) _ _ op hop
  | spectrum _ hop => exact labelled_timed (spectrumGate_timed _ _) _ _ op hop
  | arithmetic _ compiled hop =>
    obtain ⟨-, rfl⟩ := arithmetic_eq_ok.mp compiled
    exact labelled_timed (fun e formula => by cases formula) _ _ op hop
  | custom kind hop => exact custom_timed timed kind op hop

/-- The operations of a column depend on the time at most. -/
theorem build_timed {cells : List Placed} (timed : ∀ p ∈ cells, p.cell.Timed)
    {ops : List Operation} (h : build cells = .ok ops) : ∀ op ∈ ops, op.Timed := by
  have front : ∀ op ∈ (bracket cells).before, op.Timed := by
    intro op hop
    rcases mem_before hop with ⟨p, hp, g, kind, rfl⟩ | ⟨row, first, rfl⟩
    · refine (timed p hp).gate g ?_
      rcases kind with kind | kind
      · rw [kind]
        rfl
      · rw [kind]
        rfl
    · exact Operation.timed_of_no_formula rfl
  intro op hop
  rcases mem_build h hop with ⟨before, hbefore, rfl | rfl⟩ | ⟨a, b, rfl⟩ |
    ⟨inputs, p, body, bare, -, hp, own, hbare, rfl⟩
  · exact front op hbefore
  · exact (front before hbefore).inverse
  · exact Operation.timed_of_no_formula rfl
  · exact (cellOperations_timed (timed p hp) own bare hbare).controlledBy _

end Column

end QuantumBoard

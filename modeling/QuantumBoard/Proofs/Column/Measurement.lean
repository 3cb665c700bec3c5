import QuantumBoard.Proofs.Column.Region

/-! # Columns that measure

A column measures when one of its cells does, by itself or in the circuit that a custom gate stands
for. As such a circuit is made of columns, this finds a measurement at any depth. -/

namespace QuantumBoard

open Success

/-- Whether a cell measures, by itself or in the circuit that it stands for. -/
def CellKind.measures : CellKind → Bool
  | .measurement _ => true
  | .custom (.circuit ops) => ops.any Operation.isMeasurement
  | _ => false

theorem Operation.isMeasurement_inverse (op : Operation) :
    op.inverse.isMeasurement = op.isMeasurement := by
  obtain ⟨action, targets, controls⟩ := op
  cases action <;> rfl

namespace Column

section

variable {inputs : Inputs} {p : Placed}

/-- Only a cell that measures has a measurement among its operations. -/
theorem CellOperation.measures {op : Operation} (h : CellOperation inputs p op)
    (measured : op.isMeasurement = true) : p.cell.kind.measures = true := by
  cases h with
  | gate _ | formula _ _ | identity _ | phase _ => cases measured
  | measured kind _ => rw [kind, CellKind.measures]
  | rotation _ _ hop =>
    obtain ⟨k, hk, rfl⟩ := List.mem_mapIdx.mp hop
    cases measured
  | rearrangement _ hop | spectrum _ hop =>
    obtain rfl := List.mem_singleton.mp hop
    cases measured
  | arithmetic _ compiled hop =>
    obtain ⟨-, rfl⟩ := arithmetic_eq_ok.mp compiled
    obtain rfl := List.mem_singleton.mp hop
    cases measured
  | @custom d _ kind hop =>
    cases d with
    | matrix g =>
      obtain rfl := List.mem_singleton.mp hop
      cases measured
    | circuit ops =>
      obtain ⟨inner, hinner, rfl⟩ := List.mem_map.mp hop
      rw [kind, CellKind.measures]
      exact List.any_eq_true.mpr ⟨inner, hinner, measured⟩

/-- A cell that measures builds to operations with a measurement among them. -/
theorem exists_measurement (inputs : Inputs) (measures : p.cell.kind.measures = true) :
    ∃ ops, cellOperations inputs p = .ok ops ∧ ops.any Operation.isMeasurement = true := by
  unfold cellOperations
  unfold CellKind.measures at measures
  split at measures
  · rename_i basis kind
    rw [kind]
    refine ⟨_, rfl, ?_⟩
    cases basis <;> rfl
  · rename_i ops kind
    rw [kind]
    refine ⟨_, rfl, ?_⟩
    rw [custom, List.any_map]
    exact measures
  · cases measures

/-- The operations of a cell measure if the cell does. -/
theorem any_isMeasurement {ops : List Operation} (own : cellOperations inputs p = .ok ops) :
    ops.any Operation.isMeasurement = true ↔ p.cell.kind.measures = true := by
  constructor
  · intro some
    obtain ⟨op, hop, measured⟩ := List.any_eq_true.mp some
    exact (cellOperation_of_mem own hop).measures measured
  · intro measures
    obtain ⟨ops', own', some⟩ := exists_measurement inputs measures
    cases own.symm.trans own'
    exact some

end

/-- The bracket brings no measurements. -/
theorem any_isMeasurement_surround (cells : List Placed) (region : List Operation) :
    (surround (bracket cells) region).any Operation.isMeasurement =
      region.any Operation.isMeasurement := by
  have front : ∀ op ∈ (bracket cells).before, ¬op.isMeasurement = true := by
    intro op hop
    rcases mem_before hop with ⟨p, -, g, -, rfl⟩ | ⟨row, first, rfl⟩ <;> exact Bool.false_ne_true
  have back : ∀ op ∈ (bracket cells).before.reverse.map Operation.inverse,
      ¬op.isMeasurement = true := by
    intro op hop
    obtain ⟨own, hown, rfl⟩ := List.mem_map.mp hop
    rw [Operation.isMeasurement_inverse]
    exact front own (List.mem_reverse.mp hown)
  unfold surround
  split
  · rename_i empty
    rw [empty]
  · rw [List.any_append, List.any_append, List.any_eq_false.mpr front, List.any_eq_false.mpr back,
      Bool.false_or, Bool.or_false, List.any_map]
    rfl

/-- A column that builds measures when one of its cells does, be it in a circuit of its own. -/
theorem build_isMeasurement {cells : List Placed} {ops : List Operation}
    (built : build cells = .ok ops) :
    ops.any Operation.isMeasurement = true ↔ ∃ p ∈ cells, p.cell.kind.measures = true := by
  obtain ⟨region, ⟨inputs, exchanges, groups, -, swapped, own, rfl⟩, -, rfl⟩ :=
    build_eq_ok_iff_region.mp built
  rw [any_isMeasurement_surround, List.any_append, not_measured_of_swaps swapped, Bool.false_or,
    List.any_flatten, List.any_eq_true]
  constructor
  · rintro ⟨group, hgroup, found⟩
    obtain ⟨p, hp, operations⟩ := exists_of_mem_mapM own hgroup
    exact ⟨p, hp, (any_isMeasurement operations).mp found⟩
  · rintro ⟨p, hp, measures⟩
    obtain ⟨group, hgroup, operations⟩ := ok_of_mem_mapM own hp
    exact ⟨group, hgroup, (any_isMeasurement operations).mpr measures⟩

end Column

end QuantumBoard

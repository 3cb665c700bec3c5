import QuantumBoard.Proofs.Cell.WellFormed
import QuantumBoard.Proofs.Circuit.Relabel
import QuantumBoard.Proofs.Column.Physical

/-! # The operations of a column can be added to a circuit

Every operation of a column has as many targets as its gate has qubits, on rows that are all
different. A cell keeps to its own rows and to those of the registers it reads, which are apart;
the rows that steer the region are apart from both. For the same reason no cell ever finds a
register among its own rows. -/

namespace QuantumBoard

open Success

/-- An error that no column of known cells has: a register has a row of the cell that reads it. -/
def ColumnError.isInputOverlap : ColumnError → Bool
  | .inputOverlap _ _ => true
  | _ => false

/-! ## Single operations -/

namespace Operation

theorem wire_placed {g : WireGate} (single : g.numQubits = 1) (row : Nat) :
    (wire g row).placementError? = none := by
  refine placementError?_eq_none.mpr ⟨fun n arity => ?_, List.nodup_singleton row⟩
  cases arity
  exact single

theorem controlledBy_placed {op : Operation} {rows : List Nat} (placed : op.placementError? = none)
    (nodup : rows.Nodup) (apart : ∀ r ∈ op.rows, r ∉ rows) :
    (op.controlledBy rows).placementError? = none := by
  obtain ⟨arity, own⟩ := placementError?_eq_none.mp placed
  refine placementError?_eq_none.mpr ⟨arity, ?_⟩
  show (op.targets ++ (op.controls ++ rows)).Nodup
  rw [← List.append_assoc]
  exact List.nodup_append'.mpr ⟨own, nodup, fun r hr => apart r hr⟩

/-- A gate on as many rows as it has qubits. -/
theorem ofGate_placed {g : Gate} {rows : List Nat} (width : g.kind.numQubits = rows.length)
    (nodup : rows.Nodup) : (ofGate g rows).placementError? = none := by
  refine placementError?_eq_none.mpr ⟨fun n arity => ?_, ?_⟩
  · cases arity
    exact width
  · simpa [ofGate, Operation.rows] using nodup

end Operation

theorem Transform.nodup_inputs (t : Transform) : t.inputs.Nodup := by
  cases t <;> simp [inputs]

namespace Column

variable {inputs : Inputs} {p : Placed}

/-! ## The operations of cells -/

theorem measure_placed {basis : Option WireGate} (single : ∀ g, basis = some g → g.numQubits = 1)
    (row : Nat) : ∀ op ∈ measure basis row, op.placementError? = none := by
  intro op hop
  match basis with
  | none =>
    obtain rfl := List.mem_singleton.mp hop
    rfl
  | some g =>
    have one : g.inverse.numQubits = 1 := by
      rw [← single g rfl]
      cases g <;> rfl
    simp only [measure, List.mem_cons, List.not_mem_nil, or_false] at hop
    rcases hop with rfl | rfl | rfl
    · exact Operation.wire_placed (single g rfl) row
    · rfl
    · exact Operation.wire_placed one row

theorem inputRotation_placed (axis : Axis) (sign : Float) {row : Nat} {bits : List Nat}
    (apart : row ∉ bits) : ∀ op ∈ inputRotation axis sign row bits, op.placementError? = none := by
  intro op hop
  obtain ⟨k, hk, rfl⟩ := List.mem_mapIdx.mp hop
  refine Operation.controlledBy_placed (Operation.wire_placed rfl row)
    (List.nodup_singleton _) fun r hr => ?_
  obtain rfl : r = row := List.mem_singleton.mp hr
  intro bit
  rw [List.mem_singleton.mp bit] at apart
  exact apart (List.getElem_mem hk)

theorem spectrumGate_numQubits (width : Nat) (s : Spectrum) :
    (spectrumGate width s).numQubits = width := by
  cases s <;> rfl

theorem totalWidth_lengths (registers : List (List Nat)) :
    ArithmeticGate.totalWidth (registers.map List.length) = registers.flatten.length := by
  rw [List.length_flatten]
  rfl

/-- Registers that are read one after the other are apart. -/
theorem nodup_registers (separate : inputs.Separate) {needed : List Register}
    (bound : ∀ register ∈ needed, ∃ rows, inputs register = some rows)
    (different : needed.Nodup) : (needed.map inputs.rows).flatten.Nodup := by
  rw [List.nodup_flatten]
  constructor
  · intro rows hrows
    obtain ⟨register, hr, rfl⟩ := List.mem_map.mp hrows
    obtain ⟨rows, h⟩ := bound register hr
    rw [Inputs.rows_eq h]
    exact separate.nodup register rows h
  · rw [List.pairwise_map]
    refine different.imp_of_mem fun {register other} hr ho ne => ?_
    obtain ⟨rows, h⟩ := bound register hr
    obtain ⟨rows', h'⟩ := bound other ho
    rw [Inputs.rows_eq h, Inputs.rows_eq h']
    exact separate.disjoint register rows other rows' h h' ne

theorem arithmetic_placed (separate : inputs.Separate) {t : Transform} {id : String}
    {target : List Nat} (nodup : target.Nodup) {ops : List Operation}
    (h : arithmetic t id target inputs = .ok ops) {op : Operation} (hop : op ∈ ops)
    (sound : op.Sound) : op.placementError? = none := by
  obtain ⟨bound, rfl⟩ := arithmetic_eq_ok.mp h
  obtain rfl := List.mem_singleton.mp hop
  refine Operation.ofGate_placed ?_ (List.nodup_append'.mpr ⟨nodup, ?_, ?_⟩)
  · refine sound.2.2.trans ?_
    show target.length + ArithmeticGate.totalWidth _ = _
    rw [totalWidth_lengths, List.length_append]
  · exact nodup_registers separate (fun register hr => (bound register hr).imp fun _ h => h.1)
      t.nodup_inputs
  · intro r hr hr'
    obtain ⟨rows, hrows, hr'⟩ := List.mem_flatten.mp hr'
    obtain ⟨register, hregister, rfl⟩ := List.mem_map.mp hrows
    obtain ⟨rows, h, apart⟩ := bound register hregister
    rw [Inputs.rows_eq h] at hr'
    exact apart r hr' hr

theorem custom_placed (placeable : p.cell.Placeable) {d : Definition}
    (kind : p.cell.kind = .custom d) : ∀ op ∈ custom d p.row, op.placementError? = none := by
  intro op hop
  match d with
  | .matrix g =>
    obtain rfl := List.mem_singleton.mp hop
    exact Operation.ofGate_placed (by simp [GateKind.numQubits]) (by simp [List.nodup_range'])
  | .circuit ops =>
    obtain ⟨inner, hinner, rfl⟩ := List.mem_map.mp hop
    have placed := Operation.placementError?_eq_none_iff.mp
      (placeable.definition ops kind inner hinner)
    exact Operation.placementError?_eq_none_iff.mpr
      (placed.mapRows fun _ _ _ _ same => Nat.add_right_cancel same)

/-- A gate on exactly the rows that its cell covers. -/
theorem labelled_placed {kind : GateKind} (width : kind.numQubits = p.cell.size) :
    ∀ op ∈ labelled p.cell.id kind p.footprint, op.placementError? = none := by
  intro op hop
  obtain rfl := List.mem_singleton.mp hop
  exact Operation.ofGate_placed (width.trans p.length_footprint.symm) p.nodup_footprint

/-- What a cell does can be added to a circuit. -/
theorem cellOperations_placed (wellFormed : p.cell.WellFormed) (placeable : p.cell.Placeable)
    (separate : inputs.Separate) (sized : inputs.Sized) {ops : List Operation}
    (h : cellOperations inputs p = .ok ops) : ∀ op ∈ ops, op.placementError? = none := by
  intro op hop
  cases cellOperation_of_mem h hop with
  | gate kind => exact Operation.wire_placed (placeable.single _ (by rw [kind]; rfl)) p.row
  | formula _ _ => exact Operation.wire_placed (by split <;> rfl) p.row
  | identity _ => exact Operation.wire_placed rfl p.row
  | phase _ => rfl
  | measured kind hop =>
    exact measure_placed (fun g hg => placeable.single g (by rw [kind, ← hg]; rfl)) p.row op hop
  | rotation _ required hop =>
    have apart := (Inputs.require_eq_ok.mp required).2
    exact inputRotation_placed _ _ (fun row => apart p.row row (by simp)) op hop
  | @rearrangement r _ _ hop =>
    have width : (GateKind.register (.permutation (r.mapping p.cell.size))).numQubits
        = p.cell.size := r.length_mapping _
    exact labelled_placed width op hop
  | @spectrum s _ _ hop =>
    have width : (GateKind.register (spectrumGate p.cell.size s)).numQubits = p.cell.size :=
      spectrumGate_numQubits _ s
    exact labelled_placed width op hop
  | arithmetic kind compiled hop =>
    exact arithmetic_placed separate p.nodup_footprint compiled hop
      (Fits.arithmetic wellFormed sized kind _ compiled op hop).sound
  | custom kind hop => exact custom_placed placeable kind op hop

/-! ## Columns -/

/-- Rows are all different when those of the first pair are, and are not among the others. -/
theorem nodup_pair {first second : Nat} {rows : List Nat} : (first :: second :: rows).Nodup ↔
    first ≠ second ∧ first ∉ rows ∧ second ∉ rows ∧ rows.Nodup := by
  simp only [List.nodup_cons, List.mem_cons, not_or, and_assoc]

theorem ne_of_mem_pairs {rows : List Nat} (nodup : rows.Nodup) {a b : Nat}
    (h : (a, b) ∈ pairs rows) : a ≠ b := by
  induction rows using pairs.induct with
  | case1 first second rows ih =>
    obtain ⟨other, -, -, nodup⟩ := nodup_pair.mp nodup
    rw [pairs, List.mem_cons, Prod.mk.injEq] at h
    rcases h with ⟨rfl, rfl⟩ | h
    · exact other
    · exact ih nodup h
  | case2 rows short =>
    rw [pairs] at h
    · cases h
    · exact short

section

variable {cells : List Placed} (apart : Apart cells)

include apart

theorem swaps_placed {exchanges : List Operation} (h : swaps cells = .ok exchanges) :
    ∀ op ∈ exchanges, op.placementError? = none := by
  obtain ⟨-, rfl⟩ := swaps_eq_ok.mp h
  have nodup : (cells.filterMap swapRow?).Nodup :=
    apart.nodup_rows fun _ _ row => (swapRow?_eq_some.mp row).2
  intro op hop
  obtain ⟨⟨a, b⟩, hab, rfl⟩ := List.mem_map.mp hop
  refine Operation.ofGate_placed rfl ?_
  simpa using ne_of_mem_pairs nodup hab

variable (placeable : ∀ p ∈ cells, p.cell.Placeable)

include placeable

theorem region_placed (wellFormed : ∀ p ∈ cells, p.cell.WellFormed) {region : List Operation}
    (h : IsRegion cells region) : ∀ op ∈ region, op.placementError? = none := by
  obtain ⟨inputs, exchanges, groups, bound, swapped, own, rfl⟩ := h
  intro op hop
  rcases List.mem_append.mp hop with hop | hop
  · exact swaps_placed apart swapped op hop
  · obtain ⟨group, hgroup, hop⟩ := List.mem_flatten.mp hop
    obtain ⟨p, hp, operations⟩ := exists_of_mem_mapM own hgroup
    exact cellOperations_placed (wellFormed p hp) (placeable p hp)
      (bindInputs_separate apart bound) (bindInputs_sized wellFormed bound) operations op hop

omit apart in
theorem basisChanges_placed : ∀ op ∈ cells.filterMap basisChange?, op.placementError? = none := by
  intro op hop
  obtain ⟨p, hp, changed⟩ := List.mem_filterMap.mp hop
  obtain ⟨g, kind, rfl⟩ := basisChange?_eq_some.mp changed
  refine Operation.wire_placed ((placeable p hp).single g ?_) p.row
  rcases kind with kind | kind <;> simp [kind, CellKind.wireGate?]

/-- The operations of a column can be added to a circuit. -/
theorem build_placed (wellFormed : ∀ p ∈ cells, p.cell.WellFormed) {ops : List Operation}
    (h : build cells = .ok ops) : ∀ op ∈ ops, op.placementError? = none := by
  obtain ⟨region, isRegion, -, rfl⟩ := build_eq_ok_iff_region.mp h
  have front := bracket_placed apart (basisChanges_placed placeable)
  intro op hop
  unfold surround at hop
  split at hop
  · cases hop
  rcases List.mem_append.mp hop with hop | hop
  · rcases List.mem_append.mp hop with hop | hop
    · exact front op hop
    · obtain ⟨own, hown, rfl⟩ := List.mem_map.mp hop
      refine Operation.controlledBy_placed
        (region_placed apart placeable wellFormed isRegion own hown)
        ((controls_ascending apart).imp fun h => Nat.ne_of_lt h) fun r hr steering => ?_
      exact isRegion.not_mem_bracketRows apart wellFormed own hown r hr
        (mem_bracketRows_of_controls steering)
  · obtain ⟨own, hown, rfl⟩ := List.mem_map.mp hop
    exact Operation.placementError?_inverse (front own (List.mem_reverse.mp hown))

end

/-! ## No cell finds a register among its rows -/

/-- A column of known cells never fails because a register has a row of a cell that reads it. -/
theorem build_error {cells : List Placed} (apart : Apart cells) {e : ColumnError}
    (h : build cells = .error e) : e.isInputOverlap = false := by
  cases (build_eq_error apart).mp h with
  | register _ _ | swaps _ _ => rfl
  | cell _ _ _ wrong => cases wrong <;> rfl

theorem place_error {custom : CustomGates} {row : Nat} {id : String} {argument : Option Json}
    {behind : List Slot} {e : ColumnError} (h : place custom row id argument behind = .error e) :
    e.isInputOverlap = false := by
  unfold place at h
  split at h
  · cases h
    rfl
  · split at h <;> cases h
    rfl

theorem placeFrom_error {custom : CustomGates} {row : Nat} {slots : List Slot} {e : ColumnError}
    (h : placeFrom custom row slots = .error e) : e.isInputOverlap = false := by
  induction slots generalizing row with
  | nil => cases h
  | cons slot behind ih =>
    rw [placeFrom] at h
    split at h
    · exact ih h
    · simp only [bind_eq_error, pure_ne_error, and_false, exists_false, or_false] at h
      rcases h with h | ⟨p, -, h⟩
      · exact place_error h
      · exact ih h

theorem resolve_error {custom : CustomGates} {entries : List Json} {e : ColumnError}
    (h : resolve custom entries = .error e) : e.isInputOverlap = false := by
  rw [resolve, bind_eq_error] at h
  rcases h with h | ⟨slots, -, h⟩
  · obtain ⟨entry, -, failed⟩ := exists_of_mapM_eq_error h
    split at failed <;> cases failed
    rfl
  · exact placeFrom_error h

end Column

end QuantumBoard

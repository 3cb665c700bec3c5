import QuantumBoard.Proofs.Circuit.Frame
import QuantumBoard.Proofs.Column.Placement

/-! # The cells of a column act independently

A cell writes on the rows that it covers, or on none. It reads these rows, the registers of its
column and the rows that steer the region, and no cell writes any of the others' rows, a register
or a steering row. So the swaps and the cells of a column may run in any order between the bracket
and its inverse. -/

namespace QuantumBoard

open Success

namespace CellKind

/-- The kinds of cells whose operations depend on the registers of their column. -/
def readsRegisters : CellKind → Bool
  | inputRotation _ _ | arithmetic _ => true
  | _ => false

end CellKind

/-- The rows on which a cell has operations. -/
def Placed.written (p : Placed) : List Nat := if p.cell.kind.isIdle then [] else p.footprint

theorem Placed.written_subset (p : Placed) : p.written ⊆ p.footprint := by
  unfold written
  split
  · exact List.nil_subset _
  · exact List.Subset.refl _

namespace Column

variable {inputs : Inputs} {p : Placed}

/-! ## What a cell writes -/

theorem cellOperations_congr (inputs inputs' : Inputs)
    (unread : p.cell.kind.readsRegisters = false) :
    cellOperations inputs p = cellOperations inputs' p := by
  unfold cellOperations
  cases kind : p.cell.kind <;> simp_all [CellKind.readsRegisters]

/-- An arithmetic gate writes its target; the registers it reads stay. -/
theorem arithmetic_leaves (separate : inputs.Separate) {t : Transform} {id : String}
    {target : List Nat} (nodup : target.Nodup) {ops : List Operation}
    (h : arithmetic t id target inputs = .ok ops) {op : Operation} (hop : op ∈ ops)
    (sound : op.Sound) {r : Nat} (outside : r ∉ target) : Leaves [op] r := by
  have placed := arithmetic_placed separate nodup h hop sound
  obtain ⟨-, rfl⟩ := arithmetic_eq_ok.mp h
  obtain rfl := List.mem_singleton.mp hop
  refine Operation.leaves_of_not_mem_written (Operation.placementError?_eq_none_iff.mp placed) ?_
  show r ∉ (target ++ (t.inputs.map inputs.rows).flatten).take target.length
  rwa [List.take_left]

/-- A cell writes no row that it does not cover. -/
theorem cellOperations_leaves (wellFormed : p.cell.WellFormed) (separate : inputs.Separate)
    (sized : inputs.Sized) {ops : List Operation} (h : cellOperations inputs p = .ok ops) :
    ∀ op ∈ ops, ∀ r, r ∉ p.footprint → Leaves [op] r := by
  intro op hop r outside
  by_cases reads : p.cell.kind.readsRegisters = true
  · unfold cellOperations at h
    cases kind : p.cell.kind with
    | inputRotation axis sign =>
      rw [kind] at h
      simp only [bind_eq_ok, pure_eq_ok] at h
      obtain ⟨rows, -, rfl⟩ := h
      obtain ⟨k, hk, rfl⟩ := List.mem_mapIdx.mp hop
      refine leaves_of_not_mem_targets fun target => outside ?_
      obtain rfl : r = p.row := List.mem_singleton.mp target
      exact p.row_mem_footprint wellFormed
    | arithmetic t =>
      rw [kind] at h
      exact arithmetic_leaves separate p.nodup_footprint h hop
        (Fits.arithmetic wellFormed sized kind _ h op hop).sound outside
    | _ => simp [kind, CellKind.readsRegisters] at reads
  · -- what does not depend on the registers stays on the cell
    rw [cellOperations_congr inputs Inputs.empty (by simpa using reads)] at h
    have fits := cellOperations_fits wellFormed (fun _ _ bound => by cases bound) h op hop
    refine leaves_of_not_mem_targets fun target => ?_
    rcases fits.rows r (List.mem_append_left _ target) with inside | ⟨_, _, bound, _⟩
    · exact outside inside
    · cases bound

/-! ## Groups of operations -/

/-- A group of operations that writes the rows alone, and besides them touches registers and
controls, where it has no rows. -/
structure Owns (inputs : Inputs) (controls rows : List Nat) (group : List Operation) : Prop where
  touched : ∀ r ∈ touched group, r ∈ rows ∨ inputs.Holds r ∨ r ∈ controls
  leaves : ∀ r, r ∉ rows → Leaves group r
  clear : ∀ r ∈ rows, ¬inputs.Holds r ∧ r ∉ controls

variable {controls : List Nat}

theorem Owns.independent {rows rows' : List Nat} {group group' : List Operation}
    (h : Owns inputs controls rows group) (h' : Owns inputs controls rows' group')
    (apart : rows.Disjoint rows') : Independent group group' where
  left r hr := h.leaves r fun own => by
    rcases h'.touched r hr with other | held | control
    · exact apart own other
    · exact (h.clear r own).1 held
    · exact (h.clear r own).2 control
  right r hr := h'.leaves r fun own => by
    rcases h.touched r hr with other | held | control
    · exact apart other own
    · exact (h'.clear r own).1 held
    · exact (h'.clear r own).2 control

/-- Groups that own different rows are independent of each other. -/
theorem pairwise_independent {rows : List (List Nat)} {groups : List (List Operation)}
    (owns : List.Forall₂ (Owns inputs controls) rows groups)
    (apart : rows.Pairwise List.Disjoint) : groups.Pairwise Independent := by
  induction owns with
  | nil => exact .nil
  | @cons own group rest groups first others ih =>
    obtain ⟨front, apart⟩ := List.pairwise_cons.mp apart
    refine List.pairwise_cons.mpr ⟨fun other hother => ?_, ih apart⟩
    obtain ⟨i, hi, rfl⟩ := List.getElem_of_mem hother
    have hi' : i < rest.length := by rwa [others.length_eq]
    exact first.independent (others.get hi' hi) (front _ (List.getElem_mem hi'))

section

variable {cells : List Placed} (apart : Apart cells)
  (wellFormed : ∀ p ∈ cells, p.cell.WellFormed) (bound : bindInputs cells = .ok inputs)

include apart bound

/-- The rows of a cell that is no input and no control are rows of no register and steer nothing. -/
theorem clear_of_plain (hp : p ∈ cells)
    (plain : ∀ register reversed, p.cell.kind ≠ .input register reversed)
    (free : p.cell.isControl = false) :
    ∀ r ∈ p.footprint, ¬inputs.Holds r ∧ r ∉ (bracket cells).controls := by
  intro r covered
  constructor
  · rintro ⟨register, rows, holds, hr⟩
    exact bindInputs_clear apart bound hp plain register rows holds r hr covered
  · intro steers
    obtain ⟨q, hq, control, rfl⟩ := mem_bracketRows.mp (mem_bracketRows_of_controls steers)
    refine apart.row_not_mem_footprint hp hq (fun same => ?_) covered
    rw [same, control] at free
    cases free

include wellFormed

/-- The operations of a cell own the rows of the cell. -/
theorem owns_of_cell (hp : p ∈ cells) {body : List Operation}
    (own : cellOperations inputs p = .ok body) : Owns inputs (bracket cells).controls p.written
      (body.map (Operation.controlledBy (bracket cells).controls)) := by
  by_cases idle : p.cell.kind.isIdle = true
  · cases (cellOperations_of_isIdle idle).symm.trans own
    rw [Placed.written, if_pos idle]
    exact ⟨fun _ none => absurd none List.not_mem_nil, fun r _ => leaves_nil r,
      fun _ none => absurd none List.not_mem_nil⟩
  rw [Placed.written, if_neg idle]
  have sized := bindInputs_sized wellFormed bound
  have fits := cellOperations_fits (wellFormed p hp) sized own
  have leaves := cellOperations_leaves (wellFormed p hp) (bindInputs_separate apart bound) sized own
  refine ⟨fun r hr => ?_, fun r outside => leaves_of_forall fun op hop => ?_, ?_⟩
  · obtain ⟨op, hop, hr⟩ := mem_touched.mp hr
    obtain ⟨bare, hbare, rfl⟩ := List.mem_map.mp hop
    have split : r ∈ bare.rows ∨ r ∈ (bracket cells).controls := by
      simpa [Operation.rows, Operation.controlledBy, or_assoc] using hr
    rcases split with hr | hr
    · exact ((fits bare hbare).rows r hr).imp_right .inl
    · exact .inr (.inr hr)
  · obtain ⟨bare, hbare, rfl⟩ := List.mem_map.mp hop
    exact (leaves bare hbare r outside).controlledBy _
  · refine clear_of_plain apart bound hp (fun register reversed input => ?_) ?_
    · simp [input, CellKind.isIdle] at idle
    · cases kind : p.cell.kind <;> simp_all [Cell.isControl, CellKind.isIdle]

/-- The swap of two swap cells owns their rows. -/
theorem owns_of_swap {a b : Nat} (ha : a ∈ cells.filterMap swapRow?)
    (hb : b ∈ cells.filterMap swapRow?) : Owns inputs (bracket cells).controls [a, b]
      [(Operation.swap a b).controlledBy (bracket cells).controls] := by
  have clear : ∀ r ∈ cells.filterMap swapRow?,
      ¬inputs.Holds r ∧ r ∉ (bracket cells).controls := by
    intro r hr
    obtain ⟨q, hq, row⟩ := List.mem_filterMap.mp hr
    obtain ⟨kind, rfl⟩ := swapRow?_eq_some.mp row
    exact clear_of_plain apart bound hq (by simp [kind]) (by simp [Cell.isControl, kind]) q.row
      (q.row_mem_footprint (wellFormed q hq))
  refine ⟨fun r hr => ?_, fun r outside => leaves_of_not_mem_targets outside, fun r hr => ?_⟩
  · have split : (r = a ∨ r = b) ∨ r ∈ (bracket cells).controls := by
      simpa [touched, Operation.rows, Operation.controlledBy, Operation.swap, Operation.ofKind,
        Operation.ofGate, or_assoc] using hr
    exact split.imp (by simp) .inr
  · simp only [List.mem_cons, List.not_mem_nil, or_false] at hr
    rcases hr with rfl | rfl
    · exact clear r ha
    · exact clear r hb

end

/-! ## The groups of a column -/

/-- The parts of a column, by origin: the bracket, and a group for each pair of swap cells and for
each cell, all under the rows that steer the region. -/
structure ByOrigin (cells : List Placed) (ps : Parts) : Prop where
  bracket : ps.bracket = Column.bracket cells
  groups : ∃ inputs bodies, bindInputs cells = .ok inputs ∧
    List.Forall₂ (fun p body => cellOperations inputs p = .ok body) cells bodies ∧
    ps.groups = (pairs (cells.filterMap swapRow?)).map (fun pair =>
        [(Operation.swap pair.1 pair.2).controlledBy ps.bracket.controls]) ++
      bodies.map (List.map (Operation.controlledBy ps.bracket.controls))

theorem byOrigin_of_parts {cells : List Placed} {ps : Parts} (h : parts cells = .ok ps) :
    ByOrigin cells ps := by
  obtain ⟨inputs, exchanges, controlled, bound, swapped, grouped, rfl⟩ := parts_eq_ok.mp h
  obtain ⟨bodies, own, -, rfl⟩ := mapM_controlledOperations.mp grouped
  obtain ⟨-, rfl⟩ := swaps_eq_ok.mp swapped
  refine ⟨rfl, inputs, bodies, bound, mapM_eq_ok.mp own, ?_⟩
  rw [List.map_map]
  rfl

theorem pairwise_pairs {rows : List Nat} (nodup : rows.Nodup) :
    (pairs rows).Pairwise fun x y => [x.1, x.2].Disjoint [y.1, y.2] := by
  induction rows using pairs.induct with
  | case1 first second rows ih =>
    obtain ⟨-, fresh, fresh', nodup⟩ := nodup_pair.mp nodup
    rw [pairs]
    refine List.pairwise_cons.mpr ⟨fun pair hpair => ?_, ih nodup⟩
    obtain ⟨ha, hb⟩ := mem_of_mem_pairs hpair
    simp only [List.disjoint_cons_left, List.mem_cons, List.not_mem_nil, or_false, not_or,
      List.disjoint_nil_left, and_true]
    exact ⟨⟨fun h => fresh (h ▸ ha), fun h => fresh (h ▸ hb)⟩, fun h => fresh' (h ▸ ha),
      fun h => fresh' (h ▸ hb)⟩
  | case2 rows short =>
    rw [pairs]
    · exact .nil
    · exact short

section

variable {cells : List Placed} (apart : Apart cells)

include apart

/-- The pairs of swap rows and the rows that the cells write are all apart. -/
theorem pairwise_written : ((pairs (cells.filterMap swapRow?)).map (fun pair =>
    [pair.1, pair.2]) ++ cells.map Placed.written).Pairwise List.Disjoint := by
  have nodup : (cells.filterMap swapRow?).Nodup :=
    apart.nodup_rows fun _ _ row => (swapRow?_eq_some.mp row).2
  refine List.pairwise_append.mpr ⟨List.pairwise_map.mpr (pairwise_pairs nodup),
    List.pairwise_map.mpr (apart.imp fun {p q} front => ?_), ?_⟩
  · intro r hr hr'
    have inside := p.written_subset hr
    have inside' := q.written_subset hr'
    rw [Placed.mem_footprint] at inside inside'
    omega
  · intro rows hrows written hwritten r hr hr'
    obtain ⟨⟨a, b⟩, hpair, rfl⟩ := List.mem_map.mp hrows
    obtain ⟨p, hp, rfl⟩ := List.mem_map.mp hwritten
    obtain ⟨ha, hb⟩ := mem_of_mem_pairs hpair
    have swapped : r ∈ cells.filterMap swapRow? := by
      simp only [List.mem_cons, List.not_mem_nil, or_false] at hr
      rcases hr with rfl | rfl
      · exact ha
      · exact hb
    obtain ⟨q, hq, row⟩ := List.mem_filterMap.mp swapped
    obtain ⟨kind, rfl⟩ := swapRow?_eq_some.mp row
    refine apart.row_not_mem_footprint hp hq (fun same => ?_) (p.written_subset hr')
    rw [same, Placed.written, if_pos (by rw [kind]; rfl)] at hr'
    cases hr'

/-- The groups of a column are independent of each other. -/
theorem ByOrigin.independent (wellFormed : ∀ p ∈ cells, p.cell.WellFormed) {ps : Parts}
    (h : ByOrigin cells ps) : ps.groups.Pairwise Independent := by
  obtain ⟨inputs, bodies, bound, own, groups⟩ := h.groups
  rw [groups, h.bracket]
  have swapped : List.Forall₂ (Owns inputs (Column.bracket cells).controls)
      ((pairs (cells.filterMap swapRow?)).map fun pair => [pair.1, pair.2])
      ((pairs (cells.filterMap swapRow?)).map fun pair =>
        [(Operation.swap pair.1 pair.2).controlledBy (Column.bracket cells).controls]) := by
    rw [List.forall₂_map_left_iff, List.forall₂_map_right_iff, List.forall₂_same]
    intro pair hpair
    obtain ⟨ha, hb⟩ := mem_of_mem_pairs hpair
    exact owns_of_swap apart wellFormed bound ha hb
  have written : List.Forall₂ (Owns inputs (Column.bracket cells).controls)
      (cells.map Placed.written)
      (bodies.map (List.map (Operation.controlledBy (Column.bracket cells).controls))) := by
    rw [List.forall₂_map_left_iff, List.forall₂_map_right_iff]
    rw [List.forall₂_iff_zip] at own ⊢
    exact ⟨own.1, fun each =>
      owns_of_cell apart wellFormed bound (List.of_mem_zip each).1 (own.2 each)⟩
  exact pairwise_independent (List.rel_append swapped written) (pairwise_written apart)

end

/-! ## Reordering -/

/-- Independent groups may change their order between the bracket and its inverse. -/
theorem runAll_assemble_perm {ps : Parts} (independent : ps.groups.Pairwise Independent)
    {groups : List (List Operation)} (perm : groups.Perm ps.groups) {s s' : UInt64}
    (ran : runAll ps.assemble s = .ok s') :
    runAll (Parts.assemble ⟨ps.bracket, groups⟩) s = .ok s' := by
  have same : groups.flatten = [] ↔ ps.groups.flatten = [] := by
    rw [← List.length_eq_zero_iff, perm.flatten.length_eq, List.length_eq_zero_iff]
  by_cases empty : ps.groups.flatten = []
  · rw [Parts.assemble, if_pos empty] at ran
    rw [Parts.assemble, if_pos (same.mpr empty)]
    exact ran
  · rw [Parts.assemble, if_neg empty] at ran
    rw [Parts.assemble, if_neg (mt same.mp empty)]
    simp only [runAll_append, bind_eq_ok] at ran ⊢
    obtain ⟨u, ⟨t, entered, acted⟩, left⟩ := ran
    exact ⟨u, ⟨t, entered, runAll_perm perm.symm independent acted⟩, left⟩

/-- The swaps and the cells of a column may run in any order between the bracket and its inverse. -/
theorem run_in_any_order {gates : Option Json} {custom : CustomGates}
    (table : Board.customGates gates = .ok custom) {entries : List Json} {cells : List Placed}
    (resolved : resolve custom entries = .ok cells) {ops : List Operation}
    (built : build cells = .ok ops) :
    ∃ ps, ByOrigin cells ps ∧ ops = ps.assemble ∧ ∀ groups, groups.Perm ps.groups →
      ∀ s s', runAll ops s = .ok s' →
        runAll (Parts.assemble ⟨ps.bracket, groups⟩) s = .ok s' := by
  have wellFormed := wellFormed_of_resolve (Board.customGates_wellFormed table) resolved
  obtain ⟨ps, split, rfl⟩ := build_eq_ok.mp built
  have byOrigin := byOrigin_of_parts split
  exact ⟨ps, byOrigin, rfl, fun groups perm s s' ran =>
    runAll_assemble_perm (byOrigin.independent (apart_of_resolve resolved) wellFormed) perm ran⟩

/-- The entries of a swap and two arithmetic gates with one register, all under a control. -/
def mixedColumn : List Json :=
  [.text "•", .text "Swap", .text "+=A1", .text "Swap", .text "inputA1", .text "^=A1"]

def mixedColumnCells : List Placed :=
  [⟨0, ⟨"•", 1, .control none⟩, none⟩, ⟨1, ⟨"Swap", 1, .swap⟩, none⟩,
    ⟨2, ⟨"+=A1", 1, .arithmetic .addA⟩, none⟩, ⟨3, ⟨"Swap", 1, .swap⟩, none⟩,
    ⟨4, ⟨"inputA1", 1, .input .a false⟩, none⟩, ⟨5, ⟨"^=A1", 1, .arithmetic .xorA⟩, none⟩]

theorem resolve_mixedColumn : resolve [] mixedColumn = .ok mixedColumnCells :=
  @resolve_texts [] ["•", "Swap", "+=A1", "Swap", "inputA1", "^=A1"]
    (mixedColumnCells.map Placed.cell) (by decide +kernel) (by decide)

/-- From state 19, the column ends in state 61 with its groups in their own order and in the
opposite one. -/
theorem run_in_any_order_mixedColumn : ∃ ops ps, build mixedColumnCells = .ok ops ∧
    ByOrigin mixedColumnCells ps ∧ ops = ps.assemble ∧ runAll ops 19 = .ok 61 ∧
      runAll (Parts.assemble ⟨ps.bracket, ps.groups.reverse⟩) 19 = .ok 61 := by
  have table : Board.customGates none = .ok [] := rfl
  obtain ⟨ops, built, ran⟩ : ∃ ops, build mixedColumnCells = .ok ops ∧ runAll ops 19 = .ok 61 :=
    ⟨_, build_eq_ok.mpr ⟨_, rfl, rfl⟩, by decide +kernel⟩
  obtain ⟨ps, byOrigin, assembled, anyOrder⟩ := run_in_any_order table resolve_mixedColumn built
  exact ⟨ops, ps, built, byOrigin, assembled, ran,
    anyOrder _ ps.groups.reverse_perm 19 61 ran⟩

end Column

end QuantumBoard

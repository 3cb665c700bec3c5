import QuantumBoard.Proofs.Column.Control

/-! # The bracket contract of a column

Whatever stands in a column, its operations are a controlled region between a bracket and the
inverse of the bracket. The bracket stays on the rows of control and parity cells; the region is
steered by the rows of the control cells and of the first parity cell, listed in ascending order
behind the controls that its operations bring themselves, and touches no other such row. -/

namespace QuantumBoard.Column

/-- A row whose bit steers the region: one of a control cell, or the first one of a parity cell. -/
def Steers (cells : List Placed) (row : Nat) : Prop :=
  row ∈ cells.filterMap controlRow? ∨
    (row ∈ cells.filterMap parityRow? ∧ ∀ r ∈ cells.filterMap parityRow?, row ≤ r)

/-! ## The rows of the bracket -/

theorem insertRow_ascending {row : Nat} {rows : List Nat} (ascending : rows.Pairwise (· < ·))
    (fresh : row ∉ rows) : (insertRow row rows).Pairwise (· < ·) := by
  induction rows with
  | nil => simp [insertRow]
  | cons r rows ih =>
    obtain ⟨least, ascending⟩ := List.pairwise_cons.mp ascending
    obtain ⟨other, fresh⟩ := not_or.mp (mt List.mem_cons.mpr fresh)
    rw [insertRow]
    split
    · have below : row < r := by omega
      refine List.pairwise_cons.mpr ⟨fun k hk => ?_, List.pairwise_cons.mpr ⟨least, ascending⟩⟩
      rcases List.mem_cons.mp hk with rfl | hk
      · exact below
      · exact Nat.lt_trans below (least k hk)
    · refine List.pairwise_cons.mpr ⟨fun k hk => ?_, ih ascending fresh⟩
      rcases mem_insertRow.mp hk with rfl | hk
      · omega
      · exact least k hk

section

variable {cells : List Placed} (apart : Apart cells)

include apart

theorem ascending_parityRows : (cells.filterMap parityRow?).Pairwise (· < ·) :=
  apart.ascending_rows fun _ _ h => (parityRow?_eq_some.mp h).2

/-- The controls of the region are in ascending order. -/
theorem controls_ascending : (bracket cells).controls.Pairwise (· < ·) := by
  have controls : (cells.filterMap controlRow?).Pairwise (· < ·) :=
    apart.ascending_rows fun _ _ h => (controlRow?_eq_some.mp h).2
  unfold bracket
  match parities : cells.filterMap parityRow? with
  | [] => exact controls
  | first :: others =>
    refine insertRow_ascending controls fun control => ?_
    exact controlRow_ne_parityRow apart control (by simp [parities])

/-- The controls of the region are the rows that steer it. -/
theorem mem_controls_iff_steers {row : Nat} :
    row ∈ (bracket cells).controls ↔ Steers cells row := by
  rw [mem_bracket_controls, Steers]
  refine or_congr_right ?_
  have ascending := ascending_parityRows apart
  match parities : cells.filterMap parityRow? with
  | [] => simp
  | first :: others =>
    rw [parities] at ascending
    have least := (List.pairwise_cons.mp ascending).1
    simp only [List.head?_cons, Option.some.injEq]
    constructor
    · rintro rfl
      refine ⟨List.mem_cons_self, fun r hr => ?_⟩
      rcases List.mem_cons.mp hr with rfl | hr
      · exact Nat.le_refl _
      · exact Nat.le_of_lt (least r hr)
    · rintro ⟨hrow, lowest⟩
      have below := lowest first List.mem_cons_self
      rcases List.mem_cons.mp hrow with rfl | hrow
      · rfl
      · have := least row hrow
        omega

omit apart in
theorem mem_bracketRows_of_controls {row : Nat} (h : row ∈ (bracket cells).controls) :
    row ∈ bracketRows cells := by
  rcases mem_bracket_controls.mp h with h | h
  · exact List.mem_append_left _ h
  · exact List.mem_append_right _ (List.mem_of_mem_head? h)

/-- The region touches no row of a control or parity cell. -/
theorem IsRegion.not_mem_bracketRows {region : List Operation} (h : IsRegion cells region)
    (wellFormed : ∀ p ∈ cells, p.cell.WellFormed) :
    ∀ op ∈ region, ∀ r ∈ op.rows, r ∉ bracketRows cells := by
  intro op hop r hr bracketed
  obtain ⟨p, hp, plain, covered⟩ := h.rows wellFormed op hop r hr
  obtain ⟨q, hq, control, rfl⟩ := mem_bracketRows.mp bracketed
  refine apart.row_not_mem_footprint hp hq (fun same => ?_) covered
  rw [same, control] at plain
  cases plain

end

theorem mem_bracketRows_of_basisChange {cells : List Placed} {op : Operation}
    (h : op ∈ cells.filterMap basisChange?) : ∀ r ∈ op.rows, r ∈ bracketRows cells := by
  obtain ⟨p, hp, changed⟩ := List.mem_filterMap.mp h
  obtain ⟨g, kind, rfl⟩ := basisChange?_eq_some.mp changed
  have control : p.cell.isControl = true :=
    isControl_iff.mpr (kind.imp (fun h => ⟨_, h⟩) fun h => ⟨_, h⟩)
  intro r hr
  obtain rfl : r = p.row := List.mem_singleton.mp hr
  exact mem_bracketRows.mpr ⟨p, hp, control, rfl⟩

/-- The bracket stays on the rows of control and parity cells. -/
theorem mem_bracketRows_of_before {cells : List Placed} {op : Operation}
    (h : op ∈ (bracket cells).before) : ∀ r ∈ op.rows, r ∈ bracketRows cells := by
  unfold bracket at h
  match parities : cells.filterMap parityRow? with
  | [] =>
    rw [parities] at h
    exact mem_bracketRows_of_basisChange h
  | first :: others =>
    rw [parities] at h
    rcases List.mem_append.mp h with h | h
    · exact mem_bracketRows_of_basisChange h
    · obtain ⟨row, hrow, rfl⟩ := List.mem_map.mp h
      intro r hr
      have folded : r ∈ first :: others := by
        simp only [Operation.rows, Operation.controlledFlip, Operation.flip, Operation.wire,
          Operation.ofKind, Operation.ofGate, Operation.controlledBy, List.nil_append,
          List.mem_append, List.mem_singleton] at hr
        rcases hr with rfl | rfl
        · exact List.mem_cons_self
        · exact List.mem_cons_of_mem _ hrow
      exact List.mem_append_right _ (parities ▸ folded)

/-! ## The contract -/

/-- Operations that stand as a column stands with its controls: a region that is steered, between
a bracket and its inverse. -/
structure Bracketed (cells : List Placed) (before region ops : List Operation)
    (steering : List Nat) : Prop where
  output : ops = before ++ region ++ before.reverse.map Operation.inverse
  bracket : ∀ op ∈ before, ∀ r ∈ op.rows, ∃ p ∈ cells, p.cell.isControl = true ∧ r = p.row
  ascending : steering.Pairwise (· < ·)
  steers : ∀ r, r ∈ steering ↔ Steers cells r
  steered : ∀ op ∈ region, ∃ own, op.controls = own ++ steering ∧
    ∀ r ∈ op.targets ++ own, ∀ p ∈ cells, p.cell.isControl = true → r ≠ p.row

theorem surround_bracketed {cells : List Placed} (apart : Apart cells)
    (wellFormed : ∀ p ∈ cells, p.cell.WellFormed) {bare : List Operation}
    (isRegion : IsRegion cells bare) (some : bare ≠ []) :
    Bracketed cells (bracket cells).before
      (bare.map (Operation.controlledBy (bracket cells).controls))
      (surround (bracket cells) bare) (bracket cells).controls where
  output := by rw [surround, if_neg some]
  bracket op hop r hr := mem_bracketRows.mp (mem_bracketRows_of_before hop r hr)
  ascending := controls_ascending apart
  steers _ := mem_controls_iff_steers apart
  steered := by
    intro op hop
    obtain ⟨own, hown, rfl⟩ := List.mem_map.mp hop
    refine ⟨own.controls, rfl, fun r hr p hp control same => ?_⟩
    exact isRegion.not_mem_bracketRows apart wellFormed own hown r hr
      (mem_bracketRows.mpr ⟨p, hp, control, same⟩)

theorem surround_eq_nil {b : Bracket} {region : List Operation} :
    surround b region = [] ↔ region = [] := by
  unfold surround
  split <;> simp_all

/-- A column has operations just when a swap or another cell has some, and these then stand,
under the rows that steer them, between a bracket and its inverse. -/
theorem build_bracketed {gates : Option Json} {custom : CustomGates}
    (table : Board.customGates gates = .ok custom) {entries : List Json} {cells : List Placed}
    (resolved : resolve custom entries = .ok cells) {ops : List Operation}
    (built : build cells = .ok ops) :
    ∃ bare, IsRegion cells bare ∧ (ops = [] ↔ bare = []) ∧
      (bare ≠ [] → ∃ before steering,
        Bracketed cells before (bare.map (Operation.controlledBy steering)) ops steering) := by
  have wellFormed := wellFormed_of_resolve (Board.customGates_wellFormed table) resolved
  obtain ⟨bare, isRegion, -, rfl⟩ := build_eq_ok_iff_region.mp built
  refine ⟨bare, isRegion, surround_eq_nil, fun some => ?_⟩
  exact ⟨_, _, surround_bracketed (apart_of_resolve resolved) wellFormed isRegion some⟩

/-- The entries of a flip under a control on another basis and the parity of two cells, the first
of them above the control. -/
def spunFlip : List Json := [.text "zpar", .text "⊕", .text "X", .text "ypar"]

def spunFlipCells : List Placed :=
  [⟨0, ⟨"zpar", 1, .parity none⟩, none⟩,
    ⟨1, ⟨"⊕", 1, .control (some (Axis.y.fixedPower 0.5))⟩, none⟩,
    ⟨2, ⟨"X", 1, .gate (.pauli .x)⟩, none⟩,
    ⟨3, ⟨"ypar", 1, .parity (some (Axis.x.fixedPower (-0.5)))⟩, none⟩]

def spunFlipOperations : List Operation :=
  [.wire (Axis.y.fixedPower 0.5) 1, .wire (Axis.x.fixedPower (-0.5)) 3, .controlledFlip 3 0,
    (Operation.flip 2).controlledBy [0, 1],
    .controlledFlip 3 0, .wire (Axis.x.fixedPower 0.5) 3, .wire (Axis.y.fixedPower (-0.5)) 1]

theorem resolve_spunFlip : resolve [] spunFlip = .ok spunFlipCells :=
  @resolve_texts [] ["zpar", "⊕", "X", "ypar"] (spunFlipCells.map Placed.cell)
    (by decide +kernel) (by decide +kernel)

theorem build_spunFlip : build spunFlipCells = .ok spunFlipOperations :=
  build_eq_ok.mpr ⟨_, rfl, by decide +kernel⟩

/-- The flip of row 2 is steered by rows 0 and 1, and nothing else touches rows 0, 1 and 3. -/
theorem build_bracketed_spunFlip :
    ∃ bare, IsRegion spunFlipCells bare ∧ (spunFlipOperations = [] ↔ bare = []) ∧
      (bare ≠ [] → ∃ before steering, Bracketed spunFlipCells before
        (bare.map (Operation.controlledBy steering)) spunFlipOperations steering) := by
  have table : Board.customGates none = .ok [] := rfl
  exact build_bracketed table resolve_spunFlip build_spunFlip

end QuantumBoard.Column

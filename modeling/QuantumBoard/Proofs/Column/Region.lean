import QuantumBoard.Proofs.Column.Build

/-! The controlled region of a column: its swaps and the operations of its other cells. It stays
on the rows of cells that are no controls. Controls and displays have no part in it, so that it is
all that is left of the column when the controls are blanked out. -/

namespace QuantumBoard

open Success

/-- Whether the cell is one of the controls of its column, by value or by parity. -/
def Cell.isControl (c : Cell) : Bool := c.kind matches .control _ | .parity _

/-- The kinds of cells that bind no register, are no swap cells and have no operations. -/
def CellKind.isSilent : CellKind → Bool
  | control _ | parity _ | display => true
  | _ => false

namespace Column

/-- The operations that a column controls: its swaps, and the operations of its other cells. -/
def IsRegion (cells : List Placed) (region : List Operation) : Prop :=
  ∃ inputs exchanges groups, bindInputs cells = .ok inputs ∧ swaps cells = .ok exchanges ∧
    cells.mapM (cellOperations inputs) = .ok groups ∧ region = exchanges ++ groups.flatten

theorem mapM_controlledOperations {inputs : Inputs} {controls : List Nat} {cells : List Placed}
    {controlled : List (List Operation)} :
    cells.mapM (controlledOperations inputs controls) = .ok controlled ↔
      ∃ groups, cells.mapM (cellOperations inputs) = .ok groups ∧
        ¬(controls ≠ [] ∧ groups.flatten.any Operation.isMeasurement) ∧
        controlled = groups.map (List.map (Operation.controlledBy controls)) := by
  induction cells generalizing controlled with
  | nil =>
    simp only [List.mapM_nil, pure_eq_ok]
    constructor
    · rintro rfl
      exact ⟨[], rfl, by simp, rfl⟩
    · rintro ⟨-, rfl, -, rfl⟩
      rfl
  | cons p cells ih =>
    simp only [List.mapM_cons, bind_eq_ok, pure_eq_ok, controlledOperations_eq_ok, ih]
    constructor
    · rintro ⟨-, ⟨ops, own, clear, rfl⟩, -, ⟨groups, rest, clear', rfl⟩, rfl⟩
      refine ⟨ops :: groups, ⟨ops, own, groups, rest, rfl⟩, ?_, rfl⟩
      simp only [List.flatten_cons, List.any_append, Bool.or_eq_true]
      tauto
    · rintro ⟨-, ⟨ops, own, groups, rest, rfl⟩, clear, rfl⟩
      simp only [List.flatten_cons, List.any_append, Bool.or_eq_true] at clear
      exact ⟨_, ⟨ops, own, by tauto, rfl⟩, _, ⟨groups, rest, by tauto, rfl⟩, rfl⟩

/-- The region under its controls, between the bracket and what takes it back. -/
def surround (b : Bracket) (region : List Operation) : List Operation :=
  if region = [] then []
  else b.before ++ region.map (Operation.controlledBy b.controls) ++
    b.before.reverse.map Operation.inverse

theorem not_measured_of_swaps {cells : List Placed} {exchanges : List Operation}
    (h : swaps cells = .ok exchanges) : exchanges.any Operation.isMeasurement = false := by
  obtain ⟨-, rfl⟩ := swaps_eq_ok.mp h
  rw [List.any_eq_false]
  intro op hop
  obtain ⟨⟨a, b⟩, -, rfl⟩ := List.mem_map.mp hop
  exact Bool.false_ne_true

/-- A column builds when it has a region that its controls can control. -/
theorem build_eq_ok_iff_region {cells : List Placed} {ops : List Operation} :
    build cells = .ok ops ↔ ∃ region, IsRegion cells region ∧
      ¬((bracket cells).controls ≠ [] ∧ region.any Operation.isMeasurement) ∧
      ops = surround (bracket cells) region := by
  have flat : ∀ (controls : List Nat) (exchanges : List Operation)
      (groups : List (List Operation)),
      (exchanges.map (fun op => [op.controlledBy controls]) ++
        groups.map (List.map (Operation.controlledBy controls))).flatten =
      (exchanges ++ groups.flatten).map (Operation.controlledBy controls) := by
    intro controls exchanges groups
    rw [List.flatten_append, List.map_append, List.map_flatten]
    congr 1
    induction exchanges with
    | nil => rfl
    | cons op exchanges ih => simp [ih]
  have assembled : ∀ (b : Bracket) (groups : List (List Operation)) (region : List Operation),
      groups.flatten = region.map (Operation.controlledBy b.controls) →
      Parts.assemble ⟨b, groups⟩ = surround b region := by
    intro b groups region h
    unfold Parts.assemble surround
    simp only [h, List.map_eq_nil_iff]
  constructor
  · intro h
    obtain ⟨ps, hparts, rfl⟩ := build_eq_ok.mp h
    obtain ⟨inputs, exchanges, controlled, bound, swapped, grouped, rfl⟩ := parts_eq_ok.mp hparts
    obtain ⟨groups, own, clear, rfl⟩ := mapM_controlledOperations.mp grouped
    refine ⟨_, ⟨inputs, exchanges, groups, bound, swapped, own, rfl⟩, ?_,
      assembled _ _ _ (flat _ _ _)⟩
    rwa [List.any_append, not_measured_of_swaps swapped, Bool.false_or]
  · rintro ⟨-, ⟨inputs, exchanges, groups, bound, swapped, own, rfl⟩, clear, rfl⟩
    rw [List.any_append, not_measured_of_swaps swapped, Bool.false_or] at clear
    refine build_eq_ok.mpr ⟨_, parts_eq_ok.mpr ⟨inputs, exchanges, _, bound, swapped,
      mapM_controlledOperations.mpr ⟨groups, own, clear, rfl⟩, rfl⟩, ?_⟩
    exact (assembled _ _ _ (flat _ _ _)).symm

theorem mem_of_mem_pairs {rows : List Nat} {a b : Nat} (h : (a, b) ∈ pairs rows) :
    a ∈ rows ∧ b ∈ rows := by
  induction rows using pairs.induct with
  | case1 first second rows ih =>
    rw [pairs, List.mem_cons, Prod.mk.injEq] at h
    rcases h with ⟨rfl, rfl⟩ | h
    · simp
    · have := ih h
      simp [this]
  | case2 rows short =>
    rw [pairs] at h
    · cases h
    · exact short

/-- The region stays on the rows of cells that are no controls. -/
theorem IsRegion.rows {cells : List Placed} {region : List Operation}
    (h : IsRegion cells region) (wellFormed : ∀ p ∈ cells, p.cell.WellFormed) :
    ∀ op ∈ region, ∀ r ∈ op.rows, ∃ p ∈ cells, p.cell.isControl = false ∧ r ∈ p.footprint := by
  obtain ⟨inputs, exchanges, groups, bound, swapped, own, rfl⟩ := h
  intro op hop r hr
  rcases List.mem_append.mp hop with hop | hop
  · obtain ⟨-, rfl⟩ := swaps_eq_ok.mp swapped
    obtain ⟨⟨a, b⟩, hab, rfl⟩ := List.mem_map.mp hop
    have hswap : r ∈ cells.filterMap swapRow? := by
      obtain ⟨ha, hb⟩ := mem_of_mem_pairs hab
      simp only [Operation.swap, Operation.ofKind, Operation.ofGate, Operation.rows,
        List.append_nil, List.mem_cons, List.not_mem_nil, or_false] at hr
      rcases hr with rfl | rfl
      · exact ha
      · exact hb
    obtain ⟨p, hp, row⟩ := List.mem_filterMap.mp hswap
    obtain ⟨kind, rfl⟩ := swapRow?_eq_some.mp row
    exact ⟨p, hp, by simp [Cell.isControl, kind], p.row_mem_footprint (wellFormed p hp)⟩
  · obtain ⟨group, hgroup, hop⟩ := List.mem_flatten.mp hop
    obtain ⟨p, hp, operations⟩ := exists_of_mem_mapM own hgroup
    have fits := cellOperations_fits (wellFormed p hp) (bindInputs_sized wellFormed bound)
      operations op hop
    rcases fits.rows r hr with hr | ⟨register, rows, holds, hr⟩
    · refine ⟨p, hp, ?_, hr⟩
      cases kind : p.cell.kind with
      | control _ | parity _ =>
        unfold cellOperations at operations
        rw [kind] at operations
        cases operations
        cases hop
      | gate _ | formula _ _ _ | swap | identity | scalar _ | measurement _ | input _ _
      | inputRotation _ _ | rearrangement _ | spectrum _ | arithmetic _ | display
      | unsupported _ | custom _ => simp [Cell.isControl, kind]
    · obtain ⟨q, hq, reversed, kind, rfl⟩ := bindInputs_source bound register rows holds
      refine ⟨q, hq, by simp [Cell.isControl, kind], ?_⟩
      unfold inputRows at hr
      split at hr
      · exact List.mem_reverse.mp hr
      · exact hr

/-! ## Cells left out -/

theorem isControl_iff {c : Cell} : c.isControl = true ↔
    (∃ basis, c.kind = .control basis) ∨ ∃ basis, c.kind = .parity basis := by
  unfold Cell.isControl
  split <;> simp_all

theorem isSilent_iff {kind : CellKind} : kind.isSilent = true ↔
    (∃ basis, kind = .control basis) ∨ (∃ basis, kind = .parity basis) ∨ kind = .display := by
  unfold CellKind.isSilent
  split <;> simp_all

section

variable {p : Placed} (silent : p.cell.kind.isSilent = true)

include silent

theorem bindInput_of_isSilent (inputs : Inputs) : bindInput inputs p = .ok inputs := by
  rcases isSilent_iff.mp silent with ⟨basis, kind⟩ | ⟨basis, kind⟩ | kind <;> rw [bindInput, kind]

theorem swapRow?_of_isSilent : swapRow? p = none := by
  rcases isSilent_iff.mp silent with ⟨basis, kind⟩ | ⟨basis, kind⟩ | kind <;> rw [swapRow?, kind]

theorem cellOperations_of_isSilent {inputs : Inputs} : cellOperations inputs p = .ok [] := by
  refine cellOperations_of_isIdle ?_
  rcases isSilent_iff.mp silent with ⟨basis, kind⟩ | ⟨basis, kind⟩ | kind <;> rw [kind] <;> rfl

end

section

variable {keep : Placed → Bool}

theorem filterMap_filter_of_none {α : Type} {f : Placed → Option α}
    (none : ∀ p, keep p = false → f p = none) (cells : List Placed) :
    (cells.filter keep).filterMap f = cells.filterMap f := by
  rw [List.filterMap_filter]
  refine List.filterMap_congr fun p _ => ?_
  cases kept : keep p with
  | true => rfl
  | false => exact (none p kept).symm

/-- Without cells that are no controls the bracket is the same. -/
theorem bracket_filter (plain : ∀ p, keep p = false → p.cell.isControl = false)
    (cells : List Placed) : bracket (cells.filter keep) = bracket cells := by
  have same {α : Type} {f : Placed → Option α}
      (steers : ∀ p a, f p = some a → p.cell.isControl = true) :
      (cells.filter keep).filterMap f = cells.filterMap f := by
    refine filterMap_filter_of_none (fun p left => ?_) cells
    refine Option.eq_none_iff_forall_ne_some.mpr fun a picked => ?_
    cases (plain p left).symm.trans (steers p a picked)
  have controls := same (f := controlRow?) fun p r picked =>
    isControl_iff.mpr (.inl (controlRow?_eq_some.mp picked).1)
  have parities := same (f := parityRow?) fun p r picked =>
    isControl_iff.mpr (.inr (parityRow?_eq_some.mp picked).1)
  have bases := same (f := basisChange?) fun p op picked => by
    obtain ⟨g, kind | kind, -⟩ := basisChange?_eq_some.mp picked
    · exact isControl_iff.mpr (.inl ⟨some g, kind⟩)
    · exact isControl_iff.mpr (.inr ⟨some g, kind⟩)
  rw [bracket, bracket, controls, parities, bases]

section

variable (silent : ∀ p, keep p = false → p.cell.kind.isSilent = true)

include silent

theorem bindInputs_filter (cells : List Placed) :
    bindInputs (cells.filter keep) = bindInputs cells := by
  rw [bindInputs_eq, bindInputs_eq, List.foldlM_filter]
  congr
  funext inputs p
  cases kept : keep p with
  | true => rfl
  | false => exact (bindInput_of_isSilent (silent p kept) inputs).symm

theorem flatten_mapM_filter (inputs : Inputs) (cells : List Placed) :
    List.flatten <$> (cells.filter keep).mapM (cellOperations inputs) =
      List.flatten <$> cells.mapM (cellOperations inputs) := by
  induction cells with
  | nil => rfl
  | cons p cells ih =>
    rw [List.mapM_cons]
    cases kept : keep p with
    | true =>
      have step (rest : Except ColumnError (List (List Operation))) :
          List.flatten <$> (do
            let ops ← cellOperations inputs p
            let groups ← rest
            pure (ops :: groups)) =
          cellOperations inputs p >>= fun ops => (ops ++ ·) <$> List.flatten <$> rest := by
        cases cellOperations inputs p <;> cases rest <;> rfl
      rw [List.filter_cons_of_pos kept, List.mapM_cons, step, step, ih]
    | false =>
      rw [List.filter_cons_of_neg (by simp [kept]), ih,
        cellOperations_of_isSilent (silent p kept)]
      cases cells.mapM (cellOperations inputs) <;> rfl

/-- Silent cells have no part in the region of a column. -/
theorem isRegion_filter {cells : List Placed} {region : List Operation} :
    IsRegion (cells.filter keep) region ↔ IsRegion cells region := by
  have exchanges : swaps (cells.filter keep) = swaps cells := by
    rw [swaps, swaps, filterMap_filter_of_none fun p left => swapRow?_of_isSilent (silent p left)]
  have groups (inputs : Inputs) (ops : List Operation) :
      (∃ groups, (cells.filter keep).mapM (cellOperations inputs) = .ok groups ∧
        groups.flatten = ops) ↔
      ∃ groups, cells.mapM (cellOperations inputs) = .ok groups ∧ groups.flatten = ops := by
    rw [← map_eq_ok, ← map_eq_ok, flatten_mapM_filter silent]
  unfold IsRegion
  rw [bindInputs_filter silent, exchanges]
  constructor
  · rintro ⟨inputs, swapped, those, bound, paired, own, rfl⟩
    obtain ⟨all, own, same⟩ := (groups inputs those.flatten).mp ⟨those, own, rfl⟩
    exact ⟨inputs, swapped, all, bound, paired, own, by rw [same]⟩
  · rintro ⟨inputs, swapped, all, bound, paired, own, rfl⟩
    obtain ⟨those, own, same⟩ := (groups inputs all.flatten).mpr ⟨all, own, rfl⟩
    exact ⟨inputs, swapped, those, bound, paired, own, by rw [same]⟩

end

end

/-! ## Controls blanked out -/

/-- The cells of a column that are no controls. -/
def uncontrolled (cells : List Placed) : List Placed := cells.filter fun p => !p.cell.isControl

/-- The controls of a column have no part in its region. -/
theorem IsRegion.uncontrolled {cells : List Placed} {region : List Operation}
    (h : IsRegion cells region) : IsRegion (uncontrolled cells) region := by
  refine (isRegion_filter fun p left => ?_).mpr h
  rcases isControl_iff.mp (by simpa using left) with ⟨basis, kind⟩ | ⟨basis, kind⟩
  · rw [kind]
    rfl
  · rw [kind]
    rfl

/-- Without controls there is nothing in the bracket. -/
theorem bracket_of_no_control {cells : List Placed}
    (quiet : ∀ p ∈ cells, p.cell.isControl = false) : bracket cells = ⟨[], []⟩ := by
  have none : cells.filter (fun p => p.cell.isControl) = [] :=
    List.filter_eq_nil_iff.mpr fun p hp => by simp [quiet p hp]
  rw [← bracket_filter (fun p plain => plain) cells, none]
  rfl

/-- A column without controls is its bare region. -/
theorem IsRegion.build {cells : List Placed} {region : List Operation} (h : IsRegion cells region)
    (quiet : ∀ p ∈ cells, p.cell.isControl = false) : build cells = .ok region := by
  refine build_eq_ok_iff_region.mpr ⟨region, h, ?_, ?_⟩
  · rw [bracket_of_no_control quiet]
    exact fun controlled => controlled.1 rfl
  · have bare : region.map (Operation.controlledBy []) = region := by
      refine (List.map_congr_left fun op _ => ?_).trans (List.map_id region)
      simp [Operation.controlledBy]
    rw [bracket_of_no_control quiet, surround, bare]
    split <;> simp_all

theorem build_uncontrolled {cells : List Placed} {region : List Operation}
    (h : IsRegion cells region) : build (Column.uncontrolled cells) = .ok region :=
  h.uncontrolled.build fun p hp => by simpa using (List.mem_filter.mp hp).2

end Column

end QuantumBoard

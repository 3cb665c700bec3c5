import QuantumBoard.Proofs.Circuit.Relabel
import QuantumBoard.Proofs.Column.Build
import QuantumBoard.Proofs.Column.Resolve

/-! # Columns further down

Blank slots in front of a column move its cells down and change nothing else: each stage does on
the lower rows what it does on the upper ones. So every operation is moved down, and what is
wrong with the one column is wrong with the other. -/

namespace QuantumBoard

open Success

/-! ## Cells, registers and errors further down -/

/-- The cell `r` rows further down. -/
def Placed.shift (r : Nat) (p : Placed) : Placed := { p with row := p.row + r }

/-- Registers whose rows are `r` rows further down. -/
def Inputs.shift (r : Nat) (inputs : Inputs) : Inputs := fun register =>
  (inputs register).map (List.map (· + r))

/-- The error of a column that is `r` rows further down. -/
def ColumnError.shift (r : Nat) : ColumnError → ColumnError
  | overlap cell row other => overlap cell (row + r) (other + r)
  | e => e

theorem Placed.footprint_shift (r : Nat) (p : Placed) :
    (p.shift r).footprint = p.footprint.map (· + r) := by
  simp only [footprint, shift, Nat.add_comm _ r]
  exact (List.map_add_range' p.row p.cell.size 1).symm

theorem contains_shift (r row : Nat) (rows : List Nat) :
    (rows.map (· + r)).contains (row + r) = rows.contains row := by
  simp [List.contains_eq_mem]

namespace Inputs

theorem bind_shift (r : Nat) (inputs : Inputs) (register : Register) (rows : List Nat) :
    (inputs.shift r).bind register (rows.map (· + r)) =
      carry (ColumnError.shift r) (shift r) (inputs.bind register rows) := by
  unfold bind
  match bound : inputs register with
  | some _ => simp [shift, bound, ColumnError.shift]
  | none =>
    simp only [shift, bound, Option.map_none, Option.isSome_none, Bool.false_eq_true, if_false,
      carry_ok, Except.ok.injEq]
    funext other
    by_cases same : other = register <;> simp [shift, same]

theorem require_shift (r : Nat) (inputs : Inputs) (register : Register) (cell : String)
    (target : List Nat) : (inputs.shift r).require register cell (target.map (· + r)) =
      carry (ColumnError.shift r) (List.map (· + r)) (inputs.require register cell target) := by
  unfold require
  match bound : inputs register with
  | none => simp [shift, bound, ColumnError.shift]
  | some rows =>
    simp only [shift, bound, Option.map_some, List.any_map, Function.comp_def, contains_shift]
    split <;> rfl

end Inputs

namespace Column

variable (r : Nat)

/-! ## Rows, brackets and swaps -/

/-- What is picked from each cell is picked further down. -/
theorem filterMap_shift {α : Type} {pick : Placed → Option α} {down : α → α}
    (each : ∀ p : Placed, pick (p.shift r) = (pick p).map down) (cells : List Placed) :
    (cells.map (Placed.shift r)).filterMap pick = (cells.filterMap pick).map down := by
  rw [List.filterMap_map, List.map_filterMap]
  exact List.filterMap_congr fun p _ => each p

theorem controlRow?_shift (p : Placed) :
    controlRow? (p.shift r) = (controlRow? p).map (· + r) := by
  simp only [controlRow?, Placed.shift]
  split <;> rfl

theorem parityRow?_shift (p : Placed) :
    parityRow? (p.shift r) = (parityRow? p).map (· + r) := by
  simp only [parityRow?, Placed.shift]
  split <;> rfl

theorem swapRow?_shift (p : Placed) : swapRow? (p.shift r) = (swapRow? p).map (· + r) := by
  simp only [swapRow?, Placed.shift]
  split <;> rfl

theorem basisChange?_shift (p : Placed) :
    basisChange? (p.shift r) = (basisChange? p).map (Operation.mapRows (· + r)) := by
  simp only [basisChange?, Placed.shift]
  split <;> simp [Operation.mapRows, Operation.wire, Operation.ofKind, Operation.ofGate,
    Function.comp_def]

theorem insertRow_shift (row : Nat) (rows : List Nat) :
    insertRow (row + r) (rows.map (· + r)) = (insertRow row rows).map (· + r) := by
  induction rows with
  | nil => rfl
  | cons first rows ih =>
    simp only [List.map_cons, insertRow, Nat.add_le_add_iff_right, ih]
    split <;> rfl

/-- The bracket `r` rows further down. -/
def Bracket.shift (b : Bracket) : Bracket :=
  ⟨b.controls.map (· + r), b.before.map (Operation.mapRows (· + r))⟩

theorem bracket_shift (cells : List Placed) :
    bracket (cells.map (Placed.shift r)) = (bracket cells).shift r := by
  unfold bracket
  rw [filterMap_shift r (controlRow?_shift r), filterMap_shift r (basisChange?_shift r),
    filterMap_shift r (parityRow?_shift r)]
  match cells.filterMap parityRow? with
  | [] => rfl
  | first :: others =>
    simp [Bracket.shift, insertRow_shift, Operation.mapRows, Operation.controlledFlip,
      Operation.controlledBy, Operation.flip, Operation.wire, Operation.ofKind, Operation.ofGate]

theorem pairs_map (f : Nat → Nat) (rows : List Nat) :
    pairs (rows.map f) = (pairs rows).map (Prod.map f f) := by
  induction rows using pairs.induct with
  | case1 first second rows ih => simp [pairs, ih]
  | case2 rows short =>
    match rows, short with
    | [], _ | [_], _ => rfl
    | first :: second :: rows, short => exact (short first second rows rfl).elim

theorem swaps_shift (cells : List Placed) : swaps (cells.map (Placed.shift r)) =
    carry (ColumnError.shift r) (List.map (Operation.mapRows (· + r))) (swaps cells) := by
  simp only [swaps, filterMap_shift r (swapRow?_shift r), List.length_map, pairs_map]
  split
  · simp [Operation.swap, Operation.mapRows, Operation.ofKind, Operation.ofGate]
  · rfl

/-! ## Registers -/

theorem inputRows_shift (reversed : Bool) (p : Placed) :
    inputRows reversed (p.shift r) = (inputRows reversed p).map (· + r) := by
  unfold inputRows
  rw [p.footprint_shift r]
  split
  · rw [List.map_reverse]
  · rfl

theorem bindInput_shift (inputs : Inputs) (p : Placed) :
    bindInput (inputs.shift r) (p.shift r) =
      carry (ColumnError.shift r) (Inputs.shift r) (bindInput inputs p) := by
  unfold bindInput
  simp only [inputRows_shift, Inputs.bind_shift]
  simp only [Placed.shift]
  split <;> rfl

theorem bindInputs_shift (cells : List Placed) : bindInputs (cells.map (Placed.shift r)) =
    carry (ColumnError.shift r) (Inputs.shift r) (bindInputs cells) := by
  rw [bindInputs_eq, bindInputs_eq]
  refine carry_foldlM (f := Inputs.shift r) ?_ Inputs.empty
  exact List.forall₂_map_right_iff.mpr (List.forall₂_same.mpr fun p _ inputs =>
    bindInput_shift r inputs p)

/-! ## Cells -/

theorem measure_shift (basis : Option WireGate) (row : Nat) :
    measure basis (row + r) = (measure basis row).map (Operation.mapRows (· + r)) := by
  cases basis <;> rfl

theorem inputRotation_shift (axis : Axis) (sign : Float) (row : Nat) (bits : List Nat) :
    inputRotation axis sign (row + r) (bits.map (· + r)) =
      (inputRotation axis sign row bits).map (Operation.mapRows (· + r)) := by
  refine List.ext_getElem (by simp [inputRotation]) fun k _ _ => ?_
  simp only [inputRotation, List.getElem_mapIdx, List.getElem_map, List.length_map,
    Operation.mapRows_controlledBy]
  rfl

theorem labelled_shift (id : String) (kind : GateKind) (rows : List Nat) :
    labelled id kind (rows.map (· + r)) =
      (labelled id kind rows).map (Operation.mapRows (· + r)) := rfl

theorem arithmetic_shift (t : Transform) (id : String) (target : List Nat) (inputs : Inputs) :
    arithmetic t id (target.map (· + r)) (inputs.shift r) =
      carry (ColumnError.shift r) (List.map (Operation.mapRows (· + r)))
        (arithmetic t id target inputs) := by
  unfold arithmetic
  rw [carry_mapM (g := fun register => inputs.require register id target)
    (List.forall₂_same.mpr fun register _ => inputs.require_shift r register id target)]
  refine carry_bind _ fun registers => ?_
  simp [Function.comp_def, ← labelled_shift]

theorem custom_shift (d : Definition) (row : Nat) :
    custom d (row + r) = (custom d row).map (Operation.mapRows (· + r)) := by
  cases d with
  | matrix g =>
    simp only [custom, List.map_cons, List.map_nil, Nat.add_comm row r]
    rw [← List.map_add_range' row g.width 1]
    simp [Operation.ofKind, Operation.ofGate, Operation.mapRows, Nat.add_comm]
  | circuit ops =>
    rw [custom, custom, List.map_map]
    refine List.map_congr_left fun op _ => ?_
    rw [Function.comp_apply, Operation.mapRows_mapRows]
    simp only [Function.comp_def, Nat.add_assoc]

theorem cellOperations_shift (inputs : Inputs) (p : Placed) :
    cellOperations (inputs.shift r) (p.shift r) =
      carry (ColumnError.shift r) (List.map (Operation.mapRows (· + r)))
        (cellOperations inputs p) := by
  have covered := p.footprint_shift r
  obtain ⟨row, ⟨id, size, kind⟩, argument⟩ := p
  simp only [cellOperations, covered]
  cases kind with
  | measurement basis => exact congrArg Except.ok (measure_shift r basis row)
  | inputRotation axis sign =>
    refine (congrArg (· >>= _) (inputs.require_shift r .a id [row])).trans ?_
    exact carry_bind _ fun bits => congrArg Except.ok (inputRotation_shift r axis sign row bits)
  | formula axis rotation default =>
    simp only [Placed.shift]
    split <;> rfl
  | arithmetic t => exact arithmetic_shift r t id _ inputs
  | custom d => exact congrArg Except.ok (custom_shift r d row)
  | _ => rfl

theorem controlledOperations_shift (inputs : Inputs) (controls : List Nat) (p : Placed) :
    controlledOperations (inputs.shift r) (controls.map (· + r)) (p.shift r) =
      carry (ColumnError.shift r) (List.map (Operation.mapRows (· + r)))
        (controlledOperations inputs controls p) := by
  unfold controlledOperations
  rw [cellOperations_shift]
  refine carry_bind _ fun ops => ?_
  have measured : (ops.map (Operation.mapRows (· + r))).any Operation.isMeasurement =
      ops.any Operation.isMeasurement := by
    rw [List.any_map]
    rfl
  simp only [measured, ne_eq, List.map_eq_nil_iff]
  split
  · rfl
  · simp [Function.comp_def, Operation.mapRows_controlledBy]

/-! ## Columns -/

/-- The parts of a column `r` rows further down. -/
def Parts.shift (ps : Parts) : Parts :=
  ⟨ps.bracket.shift r, ps.groups.map (List.map (Operation.mapRows (· + r)))⟩

theorem parts_shift (cells : List Placed) : parts (cells.map (Placed.shift r)) =
    carry (ColumnError.shift r) (Parts.shift r) (parts cells) := by
  unfold parts
  rw [bindInputs_shift, bracket_shift, swaps_shift]
  refine carry_bind _ fun inputs => carry_bind _ fun exchanges => ?_
  have groups : (cells.map (Placed.shift r)).mapM (controlledOperations (inputs.shift r)
      ((bracket cells).shift r).controls) = carry (ColumnError.shift r)
        (List.map (List.map (Operation.mapRows (· + r))))
        (cells.mapM (controlledOperations inputs (bracket cells).controls)) :=
    carry_mapM (List.forall₂_map_right_iff.mpr (List.forall₂_same.mpr fun p _ =>
      controlledOperations_shift r inputs (bracket cells).controls p))
  refine (congrArg (· >>= _) groups).trans (carry_bind _ fun groups => ?_)
  simp [Parts.shift, Bracket.shift, Function.comp_def, Operation.mapRows_controlledBy]

theorem assemble_shift (ps : Parts) :
    (ps.shift r).assemble = ps.assemble.map (Operation.mapRows (· + r)) := by
  simp only [Parts.assemble, Parts.shift, ← List.map_flatten, List.map_eq_nil_iff]
  split
  · rfl
  · simp [Bracket.shift, Function.comp_def, Operation.mapRows_inverse, List.map_reverse]

/-- Cells that are moved down build to the operations moved down. -/
theorem build_shift (cells : List Placed) : build (cells.map (Placed.shift r)) =
    carry (ColumnError.shift r) (List.map (Operation.mapRows (· + r))) (build cells) := by
  unfold build
  rw [parts_shift]
  exact carry_bind _ fun ps => congrArg Except.ok (assemble_shift r ps)

/-! ## Slots -/

variable {custom : CustomGates}

theorem place_shift (row : Nat) (id : String) (argument : Option Json) (behind : List Slot) :
    place custom (row + r) id argument behind =
      carry (ColumnError.shift r) (Placed.shift r) (place custom row id argument behind) := by
  unfold place
  match custom.find? id with
  | none => rfl
  | some cell =>
    simp only
    split
    · simp [ColumnError.shift, Nat.add_right_comm]
    · rfl

theorem placeFrom_shift (row : Nat) (slots : List Slot) : placeFrom custom (row + r) slots =
    carry (ColumnError.shift r) (List.map (Placed.shift r)) (placeFrom custom row slots) := by
  induction slots generalizing row with
  | nil => rfl
  | cons slot behind ih =>
    rw [placeFrom, placeFrom, Nat.add_right_comm, ih]
    cases slot.id? with
    | none => rfl
    | some id =>
      simp only [place_shift]
      exact carry_bind _ fun p => carry_bind _ fun ps => rfl

/-- An entry that is no slot is the same entry further down. -/
theorem readSlots_shift (entries : List Json) :
    readSlots entries = carry (ColumnError.shift r) id (readSlots entries) := by
  match h : readSlots entries with
  | .ok slots => rfl
  | .error e =>
    obtain ⟨entry, -, failed⟩ := exists_of_mapM_eq_error h
    split at failed <;> cases failed
    rfl

/-- The column `column'` is `column` with `r` blank slots in front. -/
def Indented (column column' : List Json) : Prop :=
  ∃ blanks, blanks.length = r ∧ (∀ entry ∈ blanks, IsBlank entry) ∧ column' = blanks ++ column

/-- Placing cells behind blank slots starts further down. -/
theorem placeFrom_of_blanks {blanks : List Json} (blank : ∀ entry ∈ blanks, IsBlank entry)
    (row : Nat) (entries : List Json) : (readSlots (blanks ++ entries) >>= placeFrom custom row) =
      readSlots entries >>= placeFrom custom (row + blanks.length) := by
  induction blanks generalizing row with
  | nil => rfl
  | cons entry blanks ih =>
    have first : readSlots (entry :: (blanks ++ entries)) =
        (readSlots (blanks ++ entries) >>= fun slots => pure (.blank :: slots)) := by
      have := blank entry List.mem_cons_self
      rw [IsBlank] at this
      rw [readSlots, List.mapM_cons, this]
      rfl
    rw [List.cons_append, first, bind_assoc, List.length_cons, Nat.add_comm _ 1, ← Nat.add_assoc,
      ← ih (fun entry h => blank entry (List.mem_cons_of_mem _ h))]
    rfl

/-- The cells of an indented column are those of the column, further down. -/
theorem resolve_indented {column column' : List Json} (indented : Indented r column column') :
    resolve custom column' =
      carry (ColumnError.shift r) (List.map (Placed.shift r)) (resolve custom column) := by
  obtain ⟨blanks, rfl, blank, rfl⟩ := indented
  refine (placeFrom_of_blanks blank 0 column).trans ?_
  -- an entry that cannot be read is named by its text, which does not move
  refine (congrArg (· >>= _) (readSlots_shift blanks.length column)).trans ?_
  exact carry_bind _ fun slots => placeFrom_shift _ 0 slots

/-- The column has one cell, with the identifier, at the row. -/
def StandsAlone (id : String) (row : Nat) (column : List Json) : Prop :=
  ∃ entry slot behind, Slot.ofJson? entry = some slot ∧ slot.id? = some id ∧
    (∀ other ∈ behind, IsBlank other) ∧ Indented row (entry :: behind) column

end Column

end QuantumBoard

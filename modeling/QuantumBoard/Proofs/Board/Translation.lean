import QuantumBoard.Proofs.Board.Placement
import QuantumBoard.Proofs.Column.Translation

/-! # Columns further down, and custom gates written out

Moving a list of columns down moves its operations down. A custom gate that is defined by columns
keeps the operations of its columns, and moves them down to its row; so a column with just this
gate has the operations that the columns themselves have when they are moved down. -/

namespace QuantumBoard

open Success

/-- The error of columns that are `r` rows further down. -/
def BoardError.shift (r : Nat) : BoardError → BoardError
  | column e => column (e.shift r)
  | e => e

namespace Board

/-- Columns that are moved down compile to the operations moved down. -/
theorem compileColumns_shift {r : Nat} {columns columns' : List (List Json)}
    (indented : List.Forall₂ (Column.Indented r) columns columns') (custom : CustomGates) :
    compileColumns custom columns' =
      carry (BoardError.shift r) (List.map (Operation.mapRows (· + r)))
        (compileColumns custom columns) := by
  have resolved : columns'.mapM (Column.resolve custom) = carry (ColumnError.shift r)
      (List.map (List.map (Placed.shift r))) (columns.mapM (Column.resolve custom)) :=
    carry_mapM (indented.imp fun _ _ h => Column.resolve_indented r h)
  have built (cells : List (List Placed)) : (cells.map (List.map (Placed.shift r))).mapM
      Column.build = carry (ColumnError.shift r)
        (List.map (List.map (Operation.mapRows (· + r)))) (cells.mapM Column.build) :=
    carry_mapM (List.forall₂_map_right_iff.mpr (List.forall₂_same.mpr fun column _ =>
      Column.build_shift r column))
  have both : (columns'.mapM (Column.resolve custom) >>= fun cells =>
      cells.mapM Column.build >>= fun built => pure built.flatten) = carry (ColumnError.shift r)
        (List.map (Operation.mapRows (· + r))) (columns.mapM (Column.resolve custom) >>=
          fun cells => cells.mapM Column.build >>= fun built => pure built.flatten) := by
    rw [resolved]
    refine carry_bind _ fun cells => ?_
    rw [built]
    exact carry_bind _ fun ops => by simp [List.map_flatten]
  refine (congrArg (Except.mapError BoardError.column) both).trans ?_
  refine mapError_carry ?_ _
  exact fun e => rfl

/-! ## Gates written out -/

/-- The entry of a list of gates defines the gate by the columns. -/
def DefinedBy (entry : Json) (id : String) (columns : List (List Json)) : Prop :=
  entry.member? "id" = some (.text id) ∧ ∃ circuit value, entry.member? "circuit" = some circuit ∧
    circuit.member? "cols" = some value ∧ columnEntries value = .ok columns

/-- The cell of a gate that is defined by columns has the operations of the columns. -/
theorem DefinedBy.cell {entry : Json} {id : String} {columns : List (List Json)}
    (definition : DefinedBy entry id columns) {earlier : CustomGates} {cell : Cell}
    (h : defineGate earlier entry = .ok cell) : ∃ ops, compileColumns earlier columns = .ok ops ∧
      cell = ⟨id, rowCount ops, .custom (.circuit ops)⟩ := by
  obtain ⟨named, circuit, value, present, cols, listed⟩ := definition
  obtain ⟨id', named', ⟨_, -, absent, -⟩ | ⟨circuit', -, present', h⟩⟩ := defineGate_eq_ok.mp h
  · rw [present] at absent
    cases absent
  · cases named.symm.trans named'
    cases present.symm.trans present'
    obtain ⟨value', columns', ops, cols', listed', compiled, rfl⟩ := circuitCell_eq_ok.mp h
    cases cols.symm.trans cols'
    cases listed.symm.trans listed'
    exact ⟨ops, compiled, rfl⟩

theorem customGates_concat {entries : List Json} {earlier custom : CustomGates}
    (table : customGates (some (.array entries)) = .ok earlier) {entry : Json}
    (added : addGate earlier entry = .ok custom) :
    customGates (some (.array (entries ++ [entry]))) = .ok custom := by
  simp only [customGates] at table ⊢
  rw [List.foldlM_append, bind_eq_ok]
  exact ⟨earlier, table, by simpa using added⟩

/-- Gates are added behind those that are there. -/
theorem prefix_of_foldlM {entries : List Json} {earlier custom : CustomGates}
    (h : entries.foldlM addGate earlier = .ok custom) : earlier <+: custom := by
  refine foldlM_invariant (fun later : CustomGates => earlier <+: later)
    (fun entry _ later later' kept h => ?_) (List.prefix_refl _) h
  obtain ⟨other, -, -, rfl⟩ := addGate_eq_ok.mp h
  exact kept.trans (List.prefix_append _ _)

/-- A gate of an accepted list is defined by the gates before it, and is found among all. -/
theorem found_of_customGates {before behind : List Json} {entry : Json} {custom : CustomGates}
    (h : customGates (some (.array (before ++ entry :: behind))) = .ok custom) :
    ∃ earlier cell, customGates (some (.array before)) = .ok earlier ∧
      defineGate earlier entry = .ok cell ∧ custom.find? cell.id = some cell := by
  simp only [customGates, List.foldlM_append, List.foldlM_cons, bind_eq_ok] at h
  obtain ⟨earlier, accepted, next, added, rest⟩ := h
  obtain ⟨cell, defined, fresh, rfl⟩ := addGate_eq_ok.mp added
  -- what is added behind does not hide the first gate with the identifier
  obtain ⟨later, rfl⟩ := prefix_of_foldlM rest
  refine ⟨earlier, cell, accepted, defined, ?_⟩
  have absent : List.find? (fun c : Cell => c.id = cell.id) earlier = none :=
    List.find?_eq_none.mpr fun c hc => by simpa using fresh c hc
  simp [CustomGates.find?, absent]

/-- A column with one cell, a custom gate, has the operations of the gate. -/
theorem build_custom (id : String) (size : Nat) (d : Definition) (argument : Option Json) :
    Column.build [⟨0, ⟨id, size, .custom d⟩, argument⟩] = .ok (Column.custom d 0) := by
  have region : Column.IsRegion [⟨0, ⟨id, size, .custom d⟩, argument⟩] (Column.custom d 0) :=
    ⟨Inputs.empty, [], [Column.custom d 0], rfl, rfl, mapM_eq_ok.mpr (.cons rfl .nil), by simp⟩
  refine region.build fun p hp => ?_
  obtain rfl := List.mem_singleton.mp hp
  rfl

theorem build_circuit (id : String) (size : Nat) (ops : List Operation)
    (argument : Option Json) :
    Column.build [⟨0, ⟨id, size, .custom (.circuit ops)⟩, argument⟩] = .ok ops := by
  have own : Column.custom (.circuit ops) 0 = ops := by
    simp [Column.custom]
  rw [build_custom, own]

theorem resolve_alone {custom : CustomGates} {id : String} {cell : Cell}
    (found : custom.find? id = some cell) {entry : Json} {slot : Slot} {behind : List Json}
    (read : Slot.ofJson? entry = some slot) (named : slot.id? = some id)
    (blank : ∀ other ∈ behind, Column.IsBlank other) :
    Column.resolve custom (entry :: behind) = .ok [⟨0, cell, slot.argument?⟩] := by
  have blanks : ∀ other ∈ behind.map fun _ => Slot.blank, other.isBlank = true := by
    simp [Slot.isBlank]
  refine Column.resolve_eq_ok.mpr ⟨slot :: behind.map fun _ => .blank, ?_, ?_⟩
  · exact Column.readSlots_eq_ok.mpr
      (.cons read (List.forall₂_map_right_iff.mpr (List.forall₂_same.mpr blank)))
  · refine Column.placeFrom_cons named (Column.place_eq_ok.mpr
      ⟨cell, found, fun other h => blanks other (List.mem_of_mem_take h), rfl⟩) ?_
    rw [List.map_const']
    exact Column.placeFrom_replicate_blank ..

/-- Columns with `r` blank slots in front of each compile when the columns do, to the operations
with `r` added to every row; they fail as the columns do, with `r` added to the rows that the
error names. And a column with nothing but a gate at row `r` that is defined by the columns
compiles to what the columns, moved down by `r`, compile to under the gates before it. -/
theorem compileColumns_indented {r : Nat} {columns columns' : List (List Json)}
    (indented : List.Forall₂ (Column.Indented r) columns columns') :
    (∀ custom : CustomGates, compileColumns custom columns' =
      match compileColumns custom columns with
      | .ok ops => .ok (ops.map (Operation.mapRows (· + r)))
      | .error e => .error (e.shift r)) ∧
    ∀ (before behind : List Json) (entry : Json) (id : String) (custom : CustomGates)
      (column : List Json),
      customGates (some (.array (before ++ entry :: behind))) = .ok custom →
      DefinedBy entry id columns → Column.StandsAlone id r column →
      ∃ earlier ops, customGates (some (.array before)) = .ok earlier ∧
        compileColumns custom [column] = .ok ops ∧ compileColumns earlier columns' = .ok ops := by
  constructor
  · intro custom
    rw [compileColumns_shift indented]
    cases compileColumns custom columns <;> rfl
  · intro before behind entry id custom column accepted definition alone
    obtain ⟨earlier, cell, table, defined, found⟩ := found_of_customGates accepted
    obtain ⟨ops, compiled, rfl⟩ := definition.cell defined
    obtain ⟨entry, slot, behind, read, named, blank, lower⟩ := alone
    -- at row zero the gate is what its columns are, and both are moved down alike
    have upper : compileColumns custom [entry :: behind] = .ok ops :=
      compileColumns_singleton.mpr ⟨_, resolve_alone found read named blank, build_circuit ..⟩
    refine ⟨earlier, ops.map (Operation.mapRows (· + r)), table, ?_, ?_⟩
    · rw [compileColumns_shift (.cons lower .nil), upper]
      rfl
    · rw [compileColumns_shift indented, compiled]
      rfl

/-- A custom gate that puts the flip under control under one more control. -/
def flipUnderControls : Json :=
  .object [("circuit", .object [("cols",
    .array [.array [.text "~cx", .integer 1, .text "◦"]])]), ("id", .text "~ccx")]

/-- The gate at row two is made of the operations of its column, two rows down. -/
theorem compileColumns_indented_flipUnderControls :
    ∃ custom, customGates (some (.array [flipUnderControl, flipUnderControls])) = .ok custom ∧
      compileColumns custom [[.integer 1, .integer 1, .text "~ccx"]] =
        .ok (nestedControlsOperations.map (Operation.mapRows (· + 2))) ∧
      compileColumns [nestedControlsGate]
        [[.integer 1, .integer 1, .text "~cx", .integer 1, .text "◦"]] =
          .ok (nestedControlsOperations.map (Operation.mapRows (· + 2))) := by
  have defined : defineGate [nestedControlsGate] flipUnderControls =
      .ok ⟨"~ccx", 3, .custom (.circuit nestedControlsOperations)⟩ :=
    defineGate_eq_ok.mpr ⟨"~ccx", rfl, .inr ⟨_, rfl, rfl, circuitCell_eq_ok.mpr
      ⟨_, _, _, rfl, rfl, compileColumns_nestedControls, by decide⟩⟩⟩
  have table : customGates (some (.array [flipUnderControl, flipUnderControls])) =
      .ok ([nestedControlsGate] ++ [⟨"~ccx", 3, .custom (.circuit nestedControlsOperations)⟩]) := by
    refine customGates_concat customGates_flipUnderControl (addGate_eq_ok.mpr ⟨_, defined, ?_, rfl⟩)
    simp [nestedControlsGate]
  have lower (column : List Json) :
      Column.Indented 2 column ([.integer 1, .integer 1] ++ column) := by
    refine ⟨_, rfl, fun entry h => ?_, rfl⟩
    simp only [List.mem_cons, List.not_mem_nil, or_false, or_self] at h
    exact h ▸ Column.ofJson?_one
  have alone : Column.StandsAlone "~ccx" 2 [.integer 1, .integer 1, .text "~ccx"] :=
    ⟨.text "~ccx", .bare "~ccx", [], rfl, rfl, fun _ none => absurd none List.not_mem_nil,
      lower _⟩
  obtain ⟨shifted, inlined⟩ :=
    compileColumns_indented (.cons (lower [.text "~cx", .integer 1, .text "◦"]) .nil)
  have moved := shifted [nestedControlsGate]
  rw [compileColumns_nestedControls] at moved
  obtain ⟨earlier, ops, before, gate, written⟩ :=
    inlined [flipUnderControl] [] flipUnderControls "~ccx" _ _ table ⟨rfl, _, _, rfl, rfl, rfl⟩
      alone
  cases customGates_flipUnderControl.symm.trans before
  cases written.symm.trans moved
  exact ⟨_, table, gate, moved⟩

end Board

end QuantumBoard

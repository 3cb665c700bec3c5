import QuantumBoard.Proofs.Board.Sound
import QuantumBoard.Proofs.Column.Placement
import QuantumBoard.Proofs.Matrix.Literal

/-! # Documents compile to operations that circuits accept

A custom gate is made of operations that circuits accept, each because the gates before it are, and
moved to other rows they still are. So no operation of a document is ever turned down by the
circuit it is added to, no matrix that was read is turned down by the gate made of it, and
no cell finds a register among its own rows. -/

namespace QuantumBoard

open Success

/-- Every custom gate of a table can be added to a circuit. -/
def CustomGates.Placeable (custom : CustomGates) : Prop := ∀ c ∈ custom, c.Placeable

theorem CustomGates.Placeable.find? {custom : CustomGates} (placeable : custom.Placeable)
    {id : String} {c : Cell} (h : custom.find? id = some c) : c.Placeable :=
  of_find? placeable (fun _ _ => Registry.standard_placeable) h

/-- An error that no document has: an operation or a matrix does not fit its gate, rows are
repeated in an operation, or a register has a row of the cell that reads it. -/
def BoardError.isInternal : BoardError → Bool
  | .placement _ | .dimension _ => true
  | .column e => e.isInputOverlap
  | _ => false

/-- Operations that are accepted extend any circuit. -/
theorem Circuit.extend_placed {ops : List Operation}
    (placed : ∀ op ∈ ops, op.placementError? = none) (c : Circuit) : (c.extend ops).2 = none := by
  rw [extend_of_wellPlaced fun op mem => Operation.placementError?_eq_none_iff.mp (placed op mem)]

namespace Board

/-! ## Columns -/

theorem compileColumns_placed {custom : CustomGates} (wellFormed : custom.WellFormed)
    (placeable : custom.Placeable) {columns : List (List Json)} {ops : List Operation}
    (h : compileColumns custom columns = .ok ops) : ∀ op ∈ ops, op.placementError? = none := by
  intro op hop
  obtain ⟨entries, cells, column, resolved, built, hop⟩ := mem_compileColumns h hop
  refine Column.build_placed (Column.apart_of_resolve resolved) (fun p hp => ?_)
    (Column.wellFormed_of_resolve wellFormed resolved) built op hop
  obtain ⟨id, found⟩ := Column.found_of_resolve resolved p hp
  exact placeable.find? found

theorem compileColumns_error {custom : CustomGates} {columns : List (List Json)} {e : BoardError}
    (h : compileColumns custom columns = .error e) : e.isInternal = false := by
  unfold compileColumns at h
  rw [mapError_eq_error] at h
  obtain ⟨e, h, rfl⟩ := h
  simp only [bind_eq_error, pure_ne_error, and_false, exists_false, or_false] at h
  rcases h with h | ⟨resolved, hresolved, h⟩
  · obtain ⟨entries, -, failed⟩ := exists_of_mapM_eq_error h
    exact Column.resolve_error failed
  · obtain ⟨cells, hcells, failed⟩ := exists_of_mapM_eq_error h
    obtain ⟨entries, -, hresolve⟩ := exists_of_mem_mapM hresolved hcells
    exact Column.build_error (Column.apart_of_resolve hresolve) failed

theorem columnEntries_error {value : Json} {e : BoardError} (h : columnEntries value = .error e) :
    e.isInternal = false := by
  unfold columnEntries at h
  split at h
  · obtain ⟨column, -, failed⟩ := exists_of_mapM_eq_error h
    split at failed <;> cases failed
    rfl
  · cases h
    rfl

/-! ## Custom gates -/

theorem matrixCell_matrix {id text : String} {cell : Cell} (h : matrixCell id text = .ok cell) :
    ∃ g, cell.kind = .custom (.matrix g) := by
  obtain ⟨m, -, -, -, -, -, rfl⟩ := matrixCell_eq_ok.mp h
  exact ⟨_, rfl⟩

/-- A custom gate is given by a matrix, or by columns that compile with the gates before it. -/
theorem kind_of_defineGate {earlier : CustomGates} {entry : Json} {cell : Cell}
    (h : defineGate earlier entry = .ok cell) : (∃ g, cell.kind = .custom (.matrix g)) ∨
      ∃ columns ops, compileColumns earlier columns = .ok ops ∧
        cell.kind = .custom (.circuit ops) := by
  obtain ⟨id, -, ⟨text, -, -, h⟩ | ⟨circuit, -, -, h⟩⟩ := defineGate_eq_ok.mp h
  · exact .inl (matrixCell_matrix h)
  · obtain ⟨value, columns, ops, -, -, compiled, rfl⟩ := circuitCell_eq_ok.mp h
    exact .inr ⟨columns, ops, compiled, rfl⟩

theorem defineGate_placeable {earlier : CustomGates} (wellFormed : earlier.WellFormed)
    (placeable : earlier.Placeable) {entry : Json} {cell : Cell}
    (h : defineGate earlier entry = .ok cell) : cell.Placeable := by
  rcases kind_of_defineGate h with ⟨g, kind⟩ | ⟨columns, ops, compiled, kind⟩
  · refine ⟨fun g single => ?_, fun ops definition => ?_⟩
    · simp [kind, CellKind.wireGate?] at single
    · simp [kind] at definition
  · refine ⟨fun g single => ?_, fun ops' definition => ?_⟩
    · simp [kind, CellKind.wireGate?] at single
    · cases kind.symm.trans definition
      exact compileColumns_placed wellFormed placeable compiled

/-- The custom gates of a document are made of operations that circuits accept. -/
theorem customGates_placeable {gates : Option Json} {custom : CustomGates}
    (h : customGates gates = .ok custom) : custom.Placeable := by
  have both : ∀ c ∈ custom, c.WellFormed ∧ c.Placeable := by
    refine forall_of_customGates (fun earlier entry cell kept defined => ?_) h
    have wellFormed : earlier.WellFormed := fun c hc => (kept c hc).1
    exact ⟨defineGate_wellFormed wellFormed defined,
      defineGate_placeable wellFormed (fun c hc => (kept c hc).2) defined⟩
  exact fun c hc => (both c hc).2

/-- A square matrix that was read has the entries that its gate needs. -/
theorem fits_of_whole {m : Matrix} {width : Nat} (whole : m.Whole) (square : m.isSquare = true)
    (size : m.rows = 2 ^ width) : MatrixGate.fits width m.entries.size = true := by
  have same : m.rows = m.columns := by simpa [Matrix.isSquare] using square
  have entries : m.entries.size = 2 ^ (2 * width) := by
    rw [whole, ← same, size, ← Nat.pow_add, Nat.two_mul]
  have product : 2 ^ width * 2 ^ width = 2 ^ (2 * width) := by
    rw [← Nat.pow_add, Nat.two_mul]
  simp [MatrixGate.fits, entries, product, Nat.log2_two_pow]

theorem matrixCell_error {id text : String} {e : BoardError}
    (h : matrixCell id text = .error e) : e.isInternal = false := by
  simp only [matrixCell, bind_eq_error, mapError_eq_error, mapError_eq_ok] at h
  rcases h with ⟨e, -, rfl⟩ | ⟨m, read, h⟩
  · rfl
  · split at h
    · rename_i square
      simp only [Bool.and_eq_true, beq_iff_eq] at square
      have fits := fits_of_whole (Matrix.whole_of_ofLiteral read) square.1.1 square.2
      simp [MatrixGate.ofEntries, fits] at h
    · cases throw_eq_error.mp h
      rfl

theorem defineGate_error {earlier : CustomGates} {entry : Json} {e : BoardError}
    (h : defineGate earlier entry = .error e) : e.isInternal = false := by
  unfold defineGate at h
  split at h
  · split at h
    · split at h
      · exact matrixCell_error h
      · unfold circuitCell at h
        split at h
        · cases throw_eq_error.mp h
          rfl
        · simp only [bind_eq_error, pure_ne_error, and_false, exists_false, or_false] at h
          rcases h with h | ⟨columns, -, h⟩
          · exact columnEntries_error h
          · exact compileColumns_error h
      all_goals
        cases h
        rfl
    · cases h
      rfl
  · cases h
    rfl

theorem customGates_error {gates : Option Json} {e : BoardError}
    (h : customGates gates = .error e) : e.isInternal = false := by
  unfold customGates at h
  split at h
  · cases h
  · cases h
  · obtain ⟨-, entry, -, earlier, -, -, failed⟩ := foldlM_eq_error.mp h
    rw [addGate, bind_eq_error] at failed
    rcases failed with failed | ⟨cell, -, failed⟩
    · exact defineGate_error failed
    · split at failed
      · cases throw_eq_error.mp failed
        rfl
      · exact absurd failed pure_ne_error
  · cases h
    rfl

/-! ## Documents -/

/-- The gates that prepare a state. -/
theorem mem_preparation {entry : Json} {gates : List WireGate}
    (h : preparation? entry = some gates) {g : WireGate} (hg : g ∈ gates) :
    g = .hadamard ∨ g = .pauli .x ∨ ∃ exponent, g = Axis.z.fixedPower exponent := by
  have turned : ∀ exponent, g ∈ [.hadamard, Axis.z.fixedPower exponent] →
      g = .hadamard ∨ g = .pauli .x ∨ ∃ exponent, g = Axis.z.fixedPower exponent := by
    intro exponent hg
    rcases List.mem_cons.mp hg with rfl | hg
    · exact .inl rfl
    · exact .inr (.inr ⟨exponent, List.mem_singleton.mp hg⟩)
  unfold preparation? at h
  split at h
  · cases h
    exact .inl (List.mem_singleton.mp hg)
  · cases h
    rcases List.mem_cons.mp hg with rfl | hg
    · exact .inr (.inl rfl)
    · exact .inl (List.mem_singleton.mp hg)
  · cases h
    exact turned _ hg
  · cases h
    exact turned _ hg
  · split at h
    · split at h
      · cases h
        cases hg
      · split at h <;> cases h
        exact .inr (.inl (List.mem_singleton.mp hg))
    · cases h

theorem preparation_single {entry : Json} {gates : List WireGate}
    (h : preparation? entry = some gates) : ∀ g ∈ gates, g.numQubits = 1 := by
  intro g hg
  rcases mem_preparation h hg with rfl | rfl | ⟨exponent, rfl⟩ <;> rfl

theorem prepareFrom_error {row : Nat} {entries : List Json} {e : BoardError}
    (h : prepareFrom row entries = .error e) : e.isInternal = false := by
  induction entries generalizing row with
  | nil => cases h
  | cons entry entries ih =>
    rw [prepareFrom] at h
    split at h
    · cases h
      rfl
    · simp only [bind_eq_error, pure_ne_error, and_false, exists_false, or_false] at h
      exact ih h

theorem initialOperations_placed {initial : Option Json} {ops : List Operation}
    (h : initialOperations initial = .ok ops) : ∀ op ∈ ops, op.placementError? = none := by
  intro op hop
  obtain ⟨entry, gates, g, row, prepared, hg, rfl⟩ := mem_initialOperations h hop
  exact Operation.wire_placed (preparation_single prepared g hg) row

theorem initialOperations_error {initial : Option Json} {e : BoardError}
    (h : initialOperations initial = .error e) : e.isInternal = false := by
  unfold initialOperations at h
  split at h
  · cases h
  · cases h
  · exact prepareFrom_error h
  · cases h
    rfl

theorem extend_ne_error {ops : List Operation} (placed : ∀ op ∈ ops, op.placementError? = none)
    (c : Circuit) (e : BoardError) : extend c ops ≠ .error e := by
  have accepted := Circuit.extend_placed placed c
  unfold extend
  split
  · exact nofun
  · simp_all

theorem compile_error {document : Json} {e : BoardError} (h : compile document = .error e) :
    e.isInternal = false := by
  unfold compile at h
  split at h
  · split at h
    · cases h
      rfl
    · simp only [bind_eq_error] at h
      rcases h with h | ⟨columns, -, h | ⟨custom, hcustom, h | ⟨initial, hinitial,
        h | ⟨ops, hops, h | ⟨d, -, h⟩⟩⟩⟩⟩
      · exact columnEntries_error h
      · exact customGates_error h
      · exact initialOperations_error h
      · exact compileColumns_error h
      · exact absurd h (extend_ne_error (initialOperations_placed hinitial) _ _)
      · exact absurd h (extend_ne_error (compileColumns_placed (customGates_wellFormed hcustom)
          (customGates_placeable hcustom) hops) _ _)
  · cases h
    rfl

/-- A document whose parts are accepted compiles to the preparations followed by the operations of
its columns. -/
theorem compile_of_parts (members : List (String × Json)) {value : Json}
    {columns : List (List Json)} {custom : CustomGates} {initial ops : List Operation}
    (present : (Json.object members).member? "cols" = some value)
    (listed : columnEntries value = .ok columns)
    (table : customGates ((Json.object members).member? "gates") = .ok custom)
    (prepared : initialOperations ((Json.object members).member? "init") = .ok initial)
    (compiled : compileColumns custom columns = .ok ops) :
    ∃ c, compile (.object members) = .ok c ∧ c.operations.toList = initial ++ ops := by
  obtain ⟨d, hd⟩ : ∃ d, Circuit.extend ⟨"", #[]⟩ initial = (d, none) :=
    ⟨_, Prod.ext rfl (Circuit.extend_placed (initialOperations_placed prepared) _)⟩
  obtain ⟨c, hc⟩ : ∃ c, d.extend ops = (c, none) :=
    ⟨_, Prod.ext rfl (Circuit.extend_placed (compileColumns_placed (customGates_wellFormed table)
      (customGates_placeable table) compiled) _)⟩
  refine ⟨c, ?_, ?_⟩
  · simp only [compile, present, bind_eq_ok]
    exact ⟨columns, listed, custom, table, initial, prepared, ops, compiled, d,
      extend_eq_ok.mpr hd, extend_eq_ok.mpr hc⟩
  · exact operations_of_parts hd hc

/-- The operations of the circuit of a document are well placed. -/
theorem wellPlaced_of_compile {document : Json} {c : Circuit}
    (compiled : compile document = .ok c) : ∀ op ∈ c.operations.toList, op.WellPlaced :=
  (built_of_compile compiled).wellPlaced

/-- No document fails because an operation is turned down by the circuit, a matrix by its gate or
a register by the cell that reads it; and in the circuit of a document every operation has as many
targets as its gate has qubits, and rows that are all different. -/
theorem compile_accepted (document : Json) :
    (∀ e, compile document ≠ .error (.placement e)) ∧
      (∀ e, compile document ≠ .error (.dimension e)) ∧
      (∀ register cell, compile document ≠ .error (.column (.inputOverlap register cell))) ∧
      ∀ c, compile document = .ok c → ∀ op ∈ c.operations.toList,
        (∀ n, op.arity? = some n → n = op.targets.length) ∧ op.rows.Nodup := by
  refine ⟨fun e h => ?_, fun e h => ?_, fun register cell h => ?_, fun c h op hop => ?_⟩
  · cases compile_error h
  · cases compile_error h
  · cases compile_error h
  · exact Operation.placementError?_eq_none.mp ((built_of_compile h).placed op hop)

/-- A flip under a control, as a custom gate. -/
def flipUnderControl : Json :=
  .object [("circuit", .object [("cols", .array [.array [.text "•", .text "X"]])]),
    ("id", .text "~cx")]

/-- The custom gate under a control of its own. -/
def nestedControls : List (String × Json) :=
  [("cols", .array [.array [.text "~cx", .integer 1, .text "◦"]]),
    ("gates", .array [flipUnderControl])]

def nestedControlsGate : Cell :=
  ⟨"~cx", 2, .custom (.circuit [.controlledFlip 0 1])⟩

def nestedControlsOperations : List Operation :=
  [.flip 2, (Operation.controlledFlip 0 1).controlledBy [2], .flip 2]

theorem compileColumns_flipUnderControl :
    compileColumns [] [[.text "•", .text "X"]] = .ok [.controlledFlip 0 1] := by
  have resolved : Column.resolve [] [.text "•", .text "X"] = .ok
      [⟨0, ⟨"•", 1, .control none⟩, none⟩, ⟨1, ⟨"X", 1, .gate (.pauli .x)⟩, none⟩] :=
    @Column.resolve_texts [] ["•", "X"] [⟨"•", 1, .control none⟩, ⟨"X", 1, .gate (.pauli .x)⟩]
      (by decide +kernel) (by decide)
  have built : Column.build
      [⟨0, ⟨"•", 1, .control none⟩, none⟩, ⟨1, ⟨"X", 1, .gate (.pauli .x)⟩, none⟩] =
      .ok [.controlledFlip 0 1] :=
    Column.build_eq_ok.mpr ⟨_, rfl, by decide⟩
  exact compileColumns_singleton.mpr ⟨_, resolved, built⟩

theorem compileColumns_nestedControls :
    compileColumns [nestedControlsGate] [[.text "~cx", .integer 1, .text "◦"]] =
      .ok nestedControlsOperations := by
  have control : CustomGates.find? [nestedControlsGate] "◦" =
      some ⟨"◦", 1, .control (some (.pauli .x))⟩ := by
    rw [CustomGates.find?_eq]
    decide +kernel
  have custom : CustomGates.find? [nestedControlsGate] "~cx" = some nestedControlsGate := by
    rw [CustomGates.find?_eq]
    decide +kernel
  have resolved : Column.resolve [nestedControlsGate] [.text "~cx", .integer 1, .text "◦"] = .ok
      [⟨0, nestedControlsGate, none⟩, ⟨2, ⟨"◦", 1, .control (some (.pauli .x))⟩, none⟩] := by
    refine Column.resolve_eq_ok.mpr ⟨[.bare "~cx", .blank, .bare "◦"], rfl, ?_⟩
    refine Column.placeFrom_cons rfl (Column.place_eq_ok.mpr ⟨_, custom, ?_, rfl⟩) ?_
    · simp [nestedControlsGate, Slot.isBlank]
    · rw [Column.placeFrom_blank]
      exact Column.placeFrom_cons rfl (Column.place_eq_ok.mpr ⟨_, control, by simp, rfl⟩) rfl
  have built : Column.build
      [⟨0, nestedControlsGate, none⟩, ⟨2, ⟨"◦", 1, .control (some (.pauli .x))⟩, none⟩] =
      .ok nestedControlsOperations :=
    Column.build_eq_ok.mpr ⟨_, rfl, by decide⟩
  exact compileColumns_singleton.mpr ⟨_, resolved, built⟩

theorem addGate_flipUnderControl : addGate [] flipUnderControl = .ok [nestedControlsGate] := by
  have defined : defineGate [] flipUnderControl = .ok nestedControlsGate :=
    defineGate_eq_ok.mpr ⟨"~cx", rfl, .inr ⟨_, rfl, rfl, circuitCell_eq_ok.mpr
      ⟨_, _, _, rfl, rfl, compileColumns_flipUnderControl, by decide⟩⟩⟩
  exact addGate_eq_ok.mpr ⟨_, defined, nofun, rfl⟩

theorem customGates_flipUnderControl :
    customGates (some (.array [flipUnderControl])) = .ok [nestedControlsGate] := by
  rw [customGates, List.foldlM_cons, addGate_flipUnderControl]
  rfl

/-- The flip of the custom gate is under its own control and under that of the column. -/
theorem compile_accepted_nestedControls :
    ∃ c, compile (.object nestedControls) = .ok c ∧
      c.operations.toList = nestedControlsOperations ∧
      ∀ op ∈ c.operations.toList,
        (∀ n, op.arity? = some n → n = op.targets.length) ∧ op.rows.Nodup := by
  obtain ⟨c, compiled, operations⟩ := compile_of_parts nestedControls rfl rfl
    customGates_flipUnderControl rfl compileColumns_nestedControls
  exact ⟨c, compiled, operations, (compile_accepted _).2.2.2 c compiled⟩

end Board

end QuantumBoard

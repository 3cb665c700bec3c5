import QuantumBoard.Proofs.Board.Order
import QuantumBoard.Proofs.Column.Display

/-! # Displays and padding of a document

A document compiles to the same circuit when displays are blanked out, when blanks are added behind
its columns and when columns of displays are put between them, in the document itself and in the
columns that define its gates. -/

namespace QuantumBoard

open Success

namespace Board

variable {custom earlier : CustomGates}

/-! ## Lists of columns -/

/-- Columns that are retouched, with columns of displays between them. -/
inductive Retouched (custom : CustomGates) : List (List Json) → List (List Json) → Prop
  | none : Retouched custom [] []
  | column {column column' : List Json} {columns columns' : List (List Json)} :
      Column.Retouched custom column column' → Retouched custom columns columns' →
      Retouched custom (column :: columns) (column' :: columns')
  | inserted {column : List Json} {columns columns' : List (List Json)} :
      Column.Idle custom column → Retouched custom columns columns' →
      Retouched custom columns (column :: columns')

/-- Retouched columns compile to the same operations. -/
theorem Retouched.compileColumns {columns columns' : List (List Json)}
    (retouched : Retouched custom columns columns') {ops : List Operation}
    (compiled : compileColumns custom columns = .ok ops) :
    Board.compileColumns custom columns' = .ok ops := by
  induction retouched generalizing ops with
  | none => exact compiled
  | column first _ ih =>
    obtain ⟨cells, front, rest, resolved, built, behind, rfl⟩ := compileColumns_cons.mp compiled
    obtain ⟨cells', resolved', built'⟩ := first.build resolved built
    exact compileColumns_cons.mpr ⟨cells', front, rest, resolved', built', ih behind, rfl⟩
  | inserted idle _ ih =>
    obtain ⟨cells, resolved, built⟩ := idle.build
    exact compileColumns_cons.mpr ⟨cells, [], ops, resolved, built, ih compiled, rfl⟩

/-- Two objects with lists of columns, the second one retouched. -/
def CircuitRetouched (custom : CustomGates) (circuit circuit' : Json) : Prop :=
  ∃ columns columns', circuit.member? "cols" = some (columnsValue columns) ∧
    circuit'.member? "cols" = some (columnsValue columns') ∧ Retouched custom columns columns'

/-! ## Custom gates -/

/-- The definition of a gate, retouched when it is given by columns. -/
inductive GateRetouched (earlier : CustomGates) : Json → Json → Prop
  | same (entry : Json) : GateRetouched earlier entry entry
  | circuit {entry entry' circuit circuit' : Json} :
      entry'.member? "id" = entry.member? "id" →
      entry'.member? "matrix" = entry.member? "matrix" →
      entry.member? "circuit" = some circuit → entry'.member? "circuit" = some circuit' →
      CircuitRetouched earlier circuit circuit' → GateRetouched earlier entry entry'

/-- A list of gates with definitions that are retouched, each as a circuit over the gates before
it. -/
inductive GatesRetouched : CustomGates → List Json → List Json → Prop
  | none {earlier : CustomGates} : GatesRetouched earlier [] []
  | gate {earlier later : CustomGates} {entry entry' : Json} {entries entries' : List Json} :
      GateRetouched earlier entry entry' → addGate earlier entry = .ok later →
      GatesRetouched later entries entries' →
      GatesRetouched earlier (entry :: entries) (entry' :: entries')

theorem CircuitRetouched.circuitCell {circuit circuit' : Json}
    (retouched : CircuitRetouched earlier circuit circuit') {id : String} {cell : Cell}
    (h : circuitCell earlier id circuit = .ok cell) :
    Board.circuitCell earlier id circuit' = .ok cell := by
  obtain ⟨columns, columns', present, present', retouched⟩ := retouched
  obtain ⟨value, listed, ops, cols, read, compiled, rfl⟩ := circuitCell_eq_ok.mp h
  cases present.symm.trans cols
  cases (columnEntries_columnsValue columns).symm.trans read
  exact circuitCell_eq_ok.mpr ⟨_, columns', ops, present', columnEntries_columnsValue columns',
    retouched.compileColumns compiled, rfl⟩

/-- A retouched definition defines the same gate. -/
theorem GateRetouched.defineGate {entry entry' : Json}
    (retouched : GateRetouched earlier entry entry') {cell : Cell}
    (h : defineGate earlier entry = .ok cell) : Board.defineGate earlier entry' = .ok cell := by
  cases retouched with
  | same => exact h
  | circuit id matrix present present' retouched =>
    obtain ⟨name, named, ⟨_, -, absent, -⟩ | ⟨other, plain, own, h⟩⟩ := defineGate_eq_ok.mp h
    · cases present.symm.trans absent
    · cases present.symm.trans own
      exact defineGate_eq_ok.mpr ⟨name, id.trans named,
        .inr ⟨_, matrix.trans plain, present', retouched.circuitCell h⟩⟩

theorem GateRetouched.addGate {entry entry' : Json}
    (retouched : GateRetouched earlier entry entry') {later : CustomGates}
    (h : addGate earlier entry = .ok later) : Board.addGate earlier entry' = .ok later := by
  obtain ⟨cell, defined, fresh, rfl⟩ := addGate_eq_ok.mp h
  exact addGate_eq_ok.mpr ⟨cell, retouched.defineGate defined, fresh, rfl⟩

/-- Retouched definitions define the same gates. -/
theorem GatesRetouched.foldlM {entries entries' : List Json}
    (retouched : GatesRetouched earlier entries entries')
    (h : entries.foldlM addGate earlier = .ok custom) :
    entries'.foldlM addGate earlier = .ok custom := by
  induction retouched with
  | none => exact h
  | gate first added _ ih =>
    rw [List.foldlM_cons, added] at h
    rw [List.foldlM_cons, first.addGate added]
    exact ih h

/-! ## Documents -/

/-- Two documents with the same initial states, the second one retouched in its gates and in its
columns. -/
structure DocumentRetouched (document document' : Json) : Prop where
  initial : document'.member? "init" = document.member? "init"
  gates : document'.member? "gates" = document.member? "gates" ∨
    ∃ entries entries', document.member? "gates" = some (.array entries) ∧
      document'.member? "gates" = some (.array entries') ∧ GatesRetouched [] entries entries'
  columns : ∃ custom, customGates (document.member? "gates") = .ok custom ∧
    CircuitRetouched custom document document'

theorem DocumentRetouched.customGates {document document' : Json}
    (retouched : DocumentRetouched document document')
    (table : customGates (document.member? "gates") = .ok custom) :
    Board.customGates (document'.member? "gates") = .ok custom := by
  rcases retouched.gates with same | ⟨entries, entries', listed, listed', retouched⟩
  · rw [same, table]
  · rw [listed] at table
    rw [listed']
    exact retouched.foldlM table

/-- Blanking out displays, adding blanks behind columns and putting columns of displays anywhere,
in a document that compiles and in the definitions of its gates, leaves its circuit as it is. -/
theorem compile_retouched {document document' : Json} {c : Circuit}
    (compiled : compile document = .ok c) (retouched : DocumentRetouched document document') :
    compile document' = .ok c := by
  obtain ⟨table, accepted, columns, columns', present, present', columnsRetouched⟩ :=
    retouched.columns
  obtain ⟨value, listed, custom, initial, ops, cols, read, gates, prepared, built, d, hd, hc⟩ :=
    compile_eq_ok compiled
  cases present.symm.trans cols
  cases accepted.symm.trans gates
  cases (columnEntries_columnsValue columns).symm.trans read
  rw [compile_eq present', columnEntries_columnsValue]
  simp only [bind_eq_ok]
  refine ⟨columns', rfl, table, retouched.customGates accepted, initial, ?_, ops,
    columnsRetouched.compileColumns built, d, extend_eq_ok.mpr hd, extend_eq_ok.mpr hc⟩
  rw [retouched.initial, prepared]

/-- A custom gate and a control, with a display that runs past the last slot. -/
def displayedControls : List Json :=
  [.text "~cx", .integer 1, .text "◦", .text "Chance2"]

/-- The column with blanks for the display, behind a column of another display. -/
def retouchedControls : List (List Json) :=
  [[.text "Amps2", .integer 1],
    [.text "~cx", .integer 1, .text "◦", .real 1, .integer 1]]

/-- The definition of the custom gate, with a blank and a display. -/
def retouchedFlipUnderControl : Json :=
  .object [("circuit", .object [("cols", columnsValue
    [[.text "•", .text "X", .integer 1], [.text "Bloch"]])]), ("id", .text "~cx")]

theorem compileColumns_displayedControls :
    compileColumns [nestedControlsGate] [displayedControls] = .ok nestedControlsOperations := by
  have gate : CustomGates.find? [nestedControlsGate] "~cx" = some nestedControlsGate := by
    rw [CustomGates.find?_eq]
    decide +kernel
  have control : CustomGates.find? [nestedControlsGate] "◦" =
      some ⟨"◦", 1, .control (some (.pauli .x))⟩ := by
    rw [CustomGates.find?_eq]
    decide +kernel
  have display : CustomGates.find? [nestedControlsGate] "Chance2" =
      some ⟨"Chance2", 2, .display⟩ := by
    rw [CustomGates.find?_eq]
    decide +kernel
  have resolved : Column.resolve [nestedControlsGate] displayedControls = .ok
      [⟨0, nestedControlsGate, none⟩, ⟨2, ⟨"◦", 1, .control (some (.pauli .x))⟩, none⟩,
        ⟨3, ⟨"Chance2", 2, .display⟩, none⟩] := by
    refine Column.resolve_eq_ok.mpr ⟨[.bare "~cx", .blank, .bare "◦", .bare "Chance2"], rfl, ?_⟩
    refine Column.placeFrom_cons rfl (Column.place_eq_ok.mpr ⟨_, gate, ?_, rfl⟩) ?_
    · simp [nestedControlsGate, Slot.isBlank]
    · rw [Column.placeFrom_blank]
      refine Column.placeFrom_cons rfl (Column.place_eq_ok.mpr ⟨_, control, by simp, rfl⟩) ?_
      exact Column.placeFrom_cons rfl (Column.place_eq_ok.mpr ⟨_, display, by simp, rfl⟩) rfl
  exact compileColumns_singleton.mpr ⟨_, resolved, Column.build_eq_ok.mpr ⟨_, rfl, by decide⟩⟩

/-- Both documents compile to the circuit of the custom gate under the control. -/
theorem compile_retouched_displayedControls :
    ∃ c, compile (.object [("cols", columnsValue [displayedControls]),
        ("gates", .array [flipUnderControl])]) = .ok c ∧
      compile (.object [("cols", columnsValue retouchedControls),
        ("gates", .array [retouchedFlipUnderControl])]) = .ok c ∧
      c.operations.toList = nestedControlsOperations := by
  obtain ⟨c, compiled, operations⟩ := compile_of_parts
    [("cols", columnsValue [displayedControls]), ("gates", .array [flipUnderControl])] rfl
    (columnEntries_columnsValue _) customGates_flipUnderControl rfl
    compileColumns_displayedControls
  have bloch : Column.foundCell? [] (.text "Bloch") = some ⟨"Bloch", 1, .display⟩ := by
    rw [Column.foundCell?_text, CustomGates.find?_nil]
    decide +kernel
  have amplitudes : Column.foundCell? [nestedControlsGate] (.text "Amps2") =
      some ⟨"Amps2", 2, .display⟩ := by
    rw [Column.foundCell?_text, CustomGates.find?_eq]
    decide +kernel
  have chance : Column.foundCell? [nestedControlsGate] (.text "Chance2") =
      some ⟨"Chance2", 2, .display⟩ := by
    rw [Column.foundCell?_text, CustomGates.find?_eq]
    decide +kernel
  have one (entry : Json) (mem : entry ∈ [Json.integer 1]) : Column.IsBlank entry := by
    rw [List.mem_singleton.mp mem]
    exact Column.ofJson?_one
  have gate : GateRetouched [] flipUnderControl retouchedFlipUnderControl :=
    .circuit rfl rfl rfl rfl ⟨[[.text "•", .text "X"]], _, rfl, rfl,
      .column (.kept _ (.kept _ (.padded one)))
        (.inserted (Column.idle_of_display bloch rfl nofun) .none)⟩
  have columns : Retouched [nestedControlsGate] [displayedControls] retouchedControls :=
    .inserted (Column.idle_of_display amplitudes rfl one)
      (.column (.kept _ (.kept _ (.kept _ (.blanked chance rfl (by rfl) (.padded one))))) .none)
  have retouched : DocumentRetouched
      (.object [("cols", columnsValue [displayedControls]), ("gates", .array [flipUnderControl])])
      (.object [("cols", columnsValue retouchedControls),
        ("gates", .array [retouchedFlipUnderControl])]) :=
    { initial := rfl
      gates := .inr ⟨_, _, rfl, rfl, .gate gate addGate_flipUnderControl .none⟩
      columns := ⟨_, customGates_flipUnderControl, _, _, rfl, rfl, columns⟩ }
  exact ⟨c, compiled, compile_retouched compiled retouched, operations⟩

end Board

end QuantumBoard

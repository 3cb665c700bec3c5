import QuantumBoard.Proofs.Board.Placement

/-! # Which error a document is refused with

A document is refused for the shape of its columns first, then for its gates, its initial states,
the first column with an entry that cannot be placed, and the first column that cannot be built.
When there is no such fault, its operations are those of its columns, each compiled alone. -/

namespace QuantumBoard

open Success

/-- Whether the error concerns an entry of a column that cannot be placed. -/
def ColumnError.isResolution : ColumnError → Bool
  | unrecognized _ | unknownCell _ | overlap _ _ _ => true
  | _ => false

namespace Column

theorem place_isResolution {custom : CustomGates} {row : Nat} {id : String}
    {argument : Option Json} {behind : List Slot} {e : ColumnError}
    (h : place custom row id argument behind = .error e) : e.isResolution = true := by
  unfold place at h
  split at h
  · cases h
    rfl
  · split at h <;> cases h
    rfl

theorem placeFrom_isResolution {custom : CustomGates} {slots : List Slot} {row : Nat}
    {e : ColumnError} (h : placeFrom custom row slots = .error e) : e.isResolution = true := by
  induction slots generalizing row with
  | nil => cases h
  | cons slot behind ih =>
    cases id : slot.id? with
    | none =>
      rw [placeFrom, id] at h
      exact ih h
    | some id' =>
      rw [placeFrom, id] at h
      simp only [bind_eq_error, pure_ne_error, and_false, exists_false, or_false] at h
      rcases h with h | ⟨p, -, h⟩
      · exact place_isResolution h
      · exact ih h

/-- A column that fails to resolve does so for an entry that is none, a cell that is unknown or
cells that overlap. -/
theorem resolve_isResolution {custom : CustomGates} {entries : List Json} {e : ColumnError}
    (h : resolve custom entries = .error e) : e.isResolution = true := by
  rw [resolve, bind_eq_error] at h
  rcases h with h | ⟨slots, -, h⟩
  · obtain ⟨entry, -, fails⟩ := exists_of_mapM_eq_error h
    split at fails <;> cases fails
    rfl
  · exact placeFrom_isResolution h

end Column

namespace Board

/-! ## Columns -/

/-- A column compiled alone is resolved and then built. -/
theorem compileColumns_alone (custom : CustomGates) (column : List Json) :
    compileColumns custom [column] =
      (Column.resolve custom column >>= Column.build).mapError .column := by
  simp only [compileColumns, List.mapM_cons, List.mapM_nil, bind_assoc, pure_bind,
    List.flatten_singleton, bind_pure]

/-- Columns that all resolve compile as each does alone. -/
theorem compileColumns_of_resolved {custom : CustomGates} {columns : List (List Json)}
    {resolved : List (List Placed)} (h : columns.mapM (Column.resolve custom) = .ok resolved) :
    compileColumns custom columns =
      (columns.mapM fun column => compileColumns custom [column]) >>= fun built =>
        .ok built.flatten := by
  have alone := funext (compileColumns_alone custom)
  rw [alone, mapM_mapError, mapM_bind h, compileColumns, h]
  exact mapError_bind BoardError.column (resolved.mapM Column.build) fun built => pure built.flatten

/-- Columns fail to compile as the first column that fails to resolve, wherever it stands. -/
theorem compileColumns_of_resolve_error {custom : CustomGates} {columns : List (List Json)}
    {e : ColumnError} (fault : FirstFault (Column.resolve custom) columns e) :
    compileColumns custom columns = .error (.column e) := by
  rw [compileColumns, mapM_eq_error.mpr fault]
  rfl

/-! ## The shape of the columns -/

/-- The list of columns, as a document writes it. -/
def columnsValue (columns : List (List Json)) : Json := .array (columns.map .array)

/-- What keeps a value from being a list of columns: that it is no list, or its first entry that is
none. -/
inductive Misshapen (value : Json) : ShapeError → Prop
  | columns : (∀ entries, value ≠ .array entries) → Misshapen value (.columns value)
  | column {before behind : List Json} {other : Json} : value = .array (before ++ other :: behind) →
      (∀ column ∈ before, ∃ entries, column = .array entries) →
      (∀ entries, other ≠ .array entries) → Misshapen value (.column other)

/-- The entries of one column. -/
def column? : Json → Except BoardError (List Json)
  | .array entries => .ok entries
  | other => .error (.shape (.column other))

theorem column?_eq_ok {value : Json} {entries : List Json} :
    column? value = .ok entries ↔ value = .array entries := by
  cases value <;> simp [column?]

theorem column?_eq_error {value : Json} {e : BoardError} (h : column? value = .error e) :
    (∀ entries, value ≠ .array entries) ∧ e = .shape (.column value) := by
  cases value <;> simp_all [column?]

theorem columnEntries_array (values : List Json) :
    columnEntries (.array values) = values.mapM column? := by
  refine congrArg values.mapM (funext fun value => ?_)
  cases value <;> rfl

theorem columnEntries_columnsValue (columns : List (List Json)) :
    columnEntries (columnsValue columns) = .ok columns := by
  rw [columnsValue, columnEntries_array, mapM_eq_ok, List.forall₂_map_left_iff, List.forall₂_same]
  exact fun column _ => rfl

/-- A value that is no list of columns is refused for its shape. -/
theorem columnEntries_misshapen {value : Json} (h : ∀ columns, value ≠ columnsValue columns) :
    ∃ e, Misshapen value e ∧ columnEntries value = .error (.shape e) := by
  cases value with
  | array values =>
    rw [columnEntries_array]
    cases read : values.mapM column? with
    | ok columns =>
      have same : values = columns.map .array := by
        rw [← List.forall₂_eq_eq_eq, List.forall₂_map_right_iff]
        exact (mapM_eq_ok.mp read).imp fun _ _ => column?_eq_ok.mp
      exact absurd (congrArg Json.array same) (h columns)
    | error e =>
      obtain ⟨before, other, behind, split, lists, fails⟩ := mapM_eq_error.mp read
      obtain ⟨notList, rfl⟩ := column?_eq_error fails
      refine ⟨_, .column (congrArg Json.array split) (fun column mem => ?_) notList, rfl⟩
      obtain ⟨entries, isList⟩ := lists column mem
      exact ⟨entries, column?_eq_ok.mp isList⟩
  | null | bool _ | integer _ | real _ | text _ | object _ =>
    exact ⟨_, .columns (fun entries same => by cases same), rfl⟩

/-! ## Documents -/

/-- How a document with accepted gates and initial states compiles: it fails as the first column
that fails to resolve, or else as the first that fails alone, or else has the operations of the
initial states and of each column alone. -/
structure CompilesInOrder (custom : CustomGates) (initial : List Operation)
    (columns : List (List Json)) (result : Except BoardError Circuit) : Prop where
  resolve : (∃ column ∈ columns, ∀ cells, Column.resolve custom column ≠ .ok cells) →
    ∃ e, FirstFault (Column.resolve custom) columns e ∧ e.isResolution = true ∧
      result = .error (.column e)
  build : (∀ column ∈ columns, ∃ cells, Column.resolve custom column = .ok cells) →
    (∃ column ∈ columns, ∀ ops, compileColumns custom [column] ≠ .ok ops) →
    ∃ e, FirstFault (fun column => compileColumns custom [column]) columns e ∧ result = .error e
  success : (∀ column ∈ columns, ∃ ops, compileColumns custom [column] = .ok ops) →
    ∃ built c, List.Forall₂ (fun column ops => compileColumns custom [column] = .ok ops)
        columns built ∧
      result = .ok c ∧ c.operations.toList = initial ++ built.flatten

section

variable {document value : Json} (present : document.member? "cols" = some value)

include present

theorem compile_eq : compile document = (do
    let columns ← columnEntries value
    let custom ← customGates (document.member? "gates")
    let initial ← initialOperations (document.member? "init")
    let ops ← compileColumns custom columns
    let prepared ← extend ⟨"", #[]⟩ initial
    extend prepared ops) := by
  cases document with
  | object members => rw [compile, present]
  | null | bool _ | integer _ | real _ | text _ | array _ => cases present

section

variable {columns : List (List Json)} (listed : columnEntries value = .ok columns)
  {custom : CustomGates} (table : customGates (document.member? "gates") = .ok custom)
  {initial : List Operation} (prepared : initialOperations (document.member? "init") = .ok initial)

include listed table prepared

theorem compile_of_columns_error {e : BoardError}
    (error : compileColumns custom columns = .error e) : compile document = .error e := by
  rw [compile_eq present, listed, bind_eq_error]
  exact .inr ⟨columns, rfl, bind_eq_error.mpr (.inr ⟨custom, table,
    bind_eq_error.mpr (.inr ⟨initial, prepared, bind_eq_error.mpr (.inl error)⟩)⟩)⟩

theorem compile_of_columns {ops : List Operation}
    (compiled : compileColumns custom columns = .ok ops) :
    ∃ c, compile document = .ok c ∧ c.operations.toList = initial ++ ops := by
  cases document with
  | object members => exact compile_of_parts members present listed table prepared compiled
  | null | bool _ | integer _ | real _ | text _ | array _ => cases present

theorem compilesInOrder : CompilesInOrder custom initial columns (compile document) where
  resolve some := by
    obtain ⟨e, fault⟩ := exists_firstFault some
    refine ⟨e, fault, ?_, compile_of_columns_error present listed table prepared
      (compileColumns_of_resolve_error fault)⟩
    obtain ⟨_, entries, _, -, -, failed⟩ := fault
    exact Column.resolve_isResolution failed
  build resolves some := by
    obtain ⟨resolved, resolves⟩ := exists_mapM_eq_ok resolves
    obtain ⟨e, fault⟩ := exists_firstFault some
    refine ⟨e, fault, compile_of_columns_error present listed table prepared ?_⟩
    rw [compileColumns_of_resolved resolves, mapM_eq_error.mpr fault]
    rfl
  success each := by
    obtain ⟨built, alone⟩ := exists_mapM_eq_ok each
    obtain ⟨resolved, resolves⟩ : ∃ resolved,
        columns.mapM (Column.resolve custom) = .ok resolved := by
      refine exists_mapM_eq_ok fun column mem => ?_
      obtain ⟨ops, compiled⟩ := each column mem
      obtain ⟨cells, resolves, -⟩ := compileColumns_singleton.mp compiled
      exact ⟨cells, resolves⟩
    have compiled : compileColumns custom columns = .ok built.flatten := by
      rw [compileColumns_of_resolved resolves, alone]
      rfl
    obtain ⟨c, accepted, operations⟩ :=
      compile_of_columns present listed table prepared compiled
    exact ⟨built, c, mapM_eq_ok.mp alone, accepted, operations⟩

end

/-- A document is refused for columns of the wrong shape before anything else, then for its gates,
then for its initial states, and compiles in the order of its columns when it has none of these
faults. -/
theorem compile_in_order :
    ((∀ columns, value ≠ columnsValue columns) →
      ∃ e, Misshapen value e ∧ compile document = .error (.shape e)) ∧
    ∀ columns, value = columnsValue columns →
      (∀ e, customGates (document.member? "gates") = .error e → compile document = .error e) ∧
      ∀ custom, customGates (document.member? "gates") = .ok custom →
        (∀ e, initialOperations (document.member? "init") = .error e →
          compile document = .error e) ∧
        ∀ initial, initialOperations (document.member? "init") = .ok initial →
          CompilesInOrder custom initial columns (compile document) := by
  refine ⟨fun shape => ?_, ?_⟩
  · obtain ⟨e, misshapen, refused⟩ := columnEntries_misshapen shape
    refine ⟨e, misshapen, ?_⟩
    rw [compile_eq present, bind_eq_error]
    exact .inl refused
  · rintro columns rfl
    have listed := columnEntries_columnsValue columns
    refine ⟨fun e error => ?_, fun custom table => ⟨fun e error => ?_, fun initial prepared =>
      compilesInOrder present listed table prepared⟩⟩
    · rw [compile_eq present, listed, error]
      rfl
    · rw [compile_eq present, listed, table, error]
      rfl

end

/-- A column with half a swap, and behind it one in which a cell covers another. -/
def halfSwapThenOverlap : List (List Json) := [[.text "Swap"], [.text "inc3", .text "H"]]

theorem resolve_halfSwap :
    Column.resolve [] [.text "Swap"] = .ok [⟨0, ⟨"Swap", 1, .swap⟩, none⟩] :=
  @Column.resolve_texts [] ["Swap"] [⟨"Swap", 1, .swap⟩] (by decide +kernel) (by decide)

theorem resolve_overlap :
    Column.resolve [] [.text "inc3", .text "H"] = .error (.overlap "inc3" 0 1) := by
  have increment : CustomGates.find? [] "inc3" = some ⟨"inc3", 3, .arithmetic .increment⟩ := by
    rw [CustomGates.find?_nil]
    decide +kernel
  have place : Column.place [] 0 "inc3" none [.bare "H"] = .error (.overlap "inc3" 0 1) := by
    rw [Column.place, increment]
    rfl
  rw [Column.resolve, bind_eq_error]
  refine .inr ⟨[.bare "inc3", .bare "H"], rfl, ?_⟩
  exact bind_eq_error.mpr (.inl place)

/-- The overlap is reported, although the column before it does not build. -/
theorem compile_in_order_halfSwapThenOverlap :
    compileColumns [] [[.text "Swap"]] = .error (.column (.oddSwaps 1)) ∧
      compile (.object [("cols", columnsValue halfSwapThenOverlap)]) =
        .error (.column (.overlap "inc3" 0 1)) := by
  constructor
  · rw [compileColumns_alone, resolve_halfSwap]
    rfl
  have present : (Json.object [("cols", columnsValue halfSwapThenOverlap)]).member? "cols" =
      some (columnsValue halfSwapThenOverlap) := rfl
  have order := ((compile_in_order present).2 halfSwapThenOverlap rfl).2 [] rfl
  have fails : ∃ column ∈ halfSwapThenOverlap, ∀ cells, Column.resolve [] column ≠ .ok cells := by
    refine ⟨[.text "inc3", .text "H"], by simp [halfSwapThenOverlap], fun cells resolves => ?_⟩
    cases resolve_overlap.symm.trans resolves
  obtain ⟨e, fault, -, refused⟩ := (order.2 [] rfl).resolve fails
  have first : FirstFault (Column.resolve []) halfSwapThenOverlap (.overlap "inc3" 0 1) := by
    refine ⟨[[.text "Swap"]], _, [], rfl, fun column mem => ?_, resolve_overlap⟩
    obtain rfl := List.mem_singleton.mp mem
    exact ⟨_, resolve_halfSwap⟩
  cases (mapM_eq_error.mpr fault).symm.trans (mapM_eq_error.mpr first)
  exact refused

end Board

end QuantumBoard

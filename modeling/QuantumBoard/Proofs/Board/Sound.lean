import QuantumBoard.Board.Document
import QuantumBoard.Proofs.Circuit.Frame
import QuantumBoard.Proofs.Column.Build
import QuantumBoard.Proofs.Column.Resolve

/-! # Documents compile to sound circuits

The custom gates of a document are well-formed, each because those before it are, and so the
circuit that the document compiles to is built from the empty one by adding sound operations. -/

namespace QuantumBoard.Board

open Success

theorem compileColumns_eq_ok {custom : CustomGates} {columns : List (List Json)}
    {ops : List Operation} : compileColumns custom columns = .ok ops ↔
      ∃ resolved built, columns.mapM (Column.resolve custom) = .ok resolved ∧
        resolved.mapM Column.build = .ok built ∧ ops = built.flatten := by
  unfold compileColumns
  rw [mapError_eq_ok, bind_eq_ok]
  refine exists_congr fun resolved => ?_
  simp only [bind_eq_ok, pure_eq_ok]
  grind

theorem compileColumns_cons {custom : CustomGates} {column : List Json}
    {columns : List (List Json)} {ops : List Operation} :
    compileColumns custom (column :: columns) = .ok ops ↔
      ∃ cells front rest, Column.resolve custom column = .ok cells ∧
        Column.build cells = .ok front ∧ compileColumns custom columns = .ok rest ∧
        ops = front ++ rest := by
  rw [compileColumns_eq_ok]
  constructor
  · rintro ⟨resolved, built, hresolved, hbuilt, rfl⟩
    rcases mapM_eq_ok.mp hresolved with _ | ⟨resolve, resolves⟩
    rcases mapM_eq_ok.mp hbuilt with _ | ⟨build, builds⟩
    exact ⟨_, _, _, resolve, build, compileColumns_eq_ok.mpr
      ⟨_, _, mapM_eq_ok.mpr resolves, mapM_eq_ok.mpr builds, rfl⟩, List.flatten_cons⟩
  · rintro ⟨cells, front, rest, resolve, build, behind, rfl⟩
    obtain ⟨resolved, built, hresolved, hbuilt, rfl⟩ := compileColumns_eq_ok.mp behind
    exact ⟨cells :: resolved, front :: built,
      mapM_eq_ok.mpr (.cons resolve (mapM_eq_ok.mp hresolved)),
      mapM_eq_ok.mpr (.cons build (mapM_eq_ok.mp hbuilt)), rfl⟩

theorem compileColumns_singleton {custom : CustomGates} {column : List Json}
    {ops : List Operation} : compileColumns custom [column] = .ok ops ↔
      ∃ cells, Column.resolve custom column = .ok cells ∧ Column.build cells = .ok ops := by
  have none : compileColumns custom [] = .ok [] := rfl
  rw [compileColumns_cons]
  constructor
  · rintro ⟨cells, front, rest, resolve, build, behind, rfl⟩
    cases none.symm.trans behind
    exact ⟨cells, resolve, by rwa [List.append_nil]⟩
  · rintro ⟨cells, resolve, build⟩
    exact ⟨cells, ops, [], resolve, build, none, (List.append_nil ops).symm⟩

/-- Every operation of columns is one of a column. -/
theorem mem_compileColumns {custom : CustomGates} {columns : List (List Json)}
    {ops : List Operation} (h : compileColumns custom columns = .ok ops) {op : Operation}
    (hop : op ∈ ops) : ∃ entries cells column, Column.resolve custom entries = .ok cells ∧
      Column.build cells = .ok column ∧ op ∈ column := by
  obtain ⟨resolved, built, hresolved, hbuilt, rfl⟩ := compileColumns_eq_ok.mp h
  obtain ⟨column, hcolumn, hop⟩ := List.mem_flatten.mp hop
  obtain ⟨cells, hcells, hbuild⟩ := exists_of_mem_mapM hbuilt hcolumn
  obtain ⟨entries, -, hresolve⟩ := exists_of_mem_mapM hresolved hcells
  exact ⟨entries, cells, column, hresolve, hbuild, hop⟩

theorem compileColumns_sound {custom : CustomGates} (wellFormed : custom.WellFormed)
    {columns : List (List Json)} {ops : List Operation}
    (h : compileColumns custom columns = .ok ops) : ∀ op ∈ ops, op.Sound := by
  intro op hop
  obtain ⟨entries, cells, column, resolved, built, hop⟩ := mem_compileColumns h hop
  exact Column.build_sound (Column.wellFormed_of_resolve wellFormed resolved) built op hop

/-! ## Custom gates -/

theorem lt_rowCount {ops : List Operation} {op : Operation} (hop : op ∈ ops) {r : Nat}
    (hr : r ∈ op.rows) : r < rowCount ops :=
  (foldl_max_bounds _ 1).2 r (List.mem_flatMap.mpr ⟨op, hop, hr⟩)

theorem one_le_rowCount (ops : List Operation) : 1 ≤ rowCount ops := (foldl_max_bounds _ 1).1

/-- A matrix defines a gate when it is square, with a row for each state of one row or more. -/
theorem matrixCell_eq_ok {id text : String} {cell : Cell} :
    matrixCell id text = .ok cell ↔ ∃ m, Matrix.ofLiteral text = .ok m ∧ m.isSquare = true ∧
      2 ≤ m.rows ∧ m.rows = 2 ^ m.rows.log2 ∧
      MatrixGate.fits m.rows.log2 m.entries.size = true ∧
      cell = ⟨id, m.rows.log2, .custom (.matrix ⟨id, m.rows.log2, m.entries⟩)⟩ := by
  unfold matrixCell
  simp only [bind_eq_ok, mapError_eq_ok]
  refine exists_congr fun m => and_congr_right fun _ => ?_
  by_cases size : (m.isSquare && decide (2 ≤ m.rows) && m.rows == Nat.pow 2 m.rows.log2) = true
  · rw [if_pos size]
    simp only [Bool.and_eq_true, decide_eq_true_eq, beq_iff_eq] at size
    obtain ⟨⟨square, rows⟩, power⟩ := size
    simp only [MatrixGate.ofEntries, bind_eq_ok, pure_eq_ok, mapError_eq_ok]
    by_cases fits : MatrixGate.fits m.rows.log2 m.entries.size = true
    · rw [if_pos fits]
      constructor
      · rintro ⟨g, made, rfl⟩
        cases made
        exact ⟨square, rows, power, fits, rfl⟩
      · rintro ⟨-, -, -, -, rfl⟩
        exact ⟨_, rfl, rfl⟩
    · rw [if_neg fits]
      constructor
      · rintro ⟨g, made, -⟩
        cases made
      · exact fun h => absurd h.2.2.2.1 fits
  · rw [if_neg size]
    constructor
    · exact fun h => absurd h throw_ne_ok
    · rintro ⟨square, rows, power, -⟩
      refine absurd ?_ size
      rw [square, decide_eq_true rows, Bool.true_and, Bool.true_and, beq_iff_eq]
      exact power

theorem matrixCell_wellFormed {id text : String} {cell : Cell}
    (h : matrixCell id text = .ok cell) : cell.WellFormed := by
  obtain ⟨m, -, -, rows, -, fits, rfl⟩ := matrixCell_eq_ok.mp h
  refine ⟨(Nat.le_log2 (by omega)).mpr rows, .inr ⟨_, rfl⟩, fun d hd => ?_⟩
  cases hd
  simp only [MatrixGate.fits, Bool.and_eq_true, beq_iff_eq] at fits
  exact ⟨rfl, fits.2⟩

theorem circuitCell_eq_ok {earlier : CustomGates} {id : String} {circuit : Json} {cell : Cell} :
    circuitCell earlier id circuit = .ok cell ↔
      ∃ value columns ops, circuit.member? "cols" = some value ∧
        columnEntries value = .ok columns ∧ compileColumns earlier columns = .ok ops ∧
        cell = ⟨id, rowCount ops, .custom (.circuit ops)⟩ := by
  unfold circuitCell
  match circuit.member? "cols" with
  | none => simp
  | some value =>
    simp only [bind_eq_ok, pure_eq_ok, Option.some.injEq]
    constructor
    · rintro ⟨columns, listed, ops, compiled, rfl⟩
      exact ⟨value, columns, ops, rfl, listed, compiled, rfl⟩
    · rintro ⟨_, columns, ops, rfl, listed, compiled, rfl⟩
      exact ⟨columns, listed, ops, compiled, rfl⟩

theorem circuitCell_wellFormed {earlier : CustomGates} (wellFormed : earlier.WellFormed)
    {id : String} {circuit : Json} {cell : Cell}
    (h : circuitCell earlier id circuit = .ok cell) : cell.WellFormed := by
  obtain ⟨value, columns, ops, -, -, compiled, rfl⟩ := circuitCell_eq_ok.mp h
  refine ⟨one_le_rowCount ops, .inr ⟨_, rfl⟩, fun d hd => ?_⟩
  cases hd
  intro op hop
  exact ⟨compileColumns_sound wellFormed compiled op hop, fun r hr => lt_rowCount hop hr⟩

/-- A gate has an identifier, and either a matrix or a circuit. -/
theorem defineGate_eq_ok {earlier : CustomGates} {entry : Json} {cell : Cell} :
    defineGate earlier entry = .ok cell ↔ ∃ id, entry.member? "id" = some (.text id) ∧
      ((∃ text, entry.member? "matrix" = some (.text text) ∧ entry.member? "circuit" = none ∧
          matrixCell id text = .ok cell) ∨
        ∃ circuit, entry.member? "matrix" = none ∧ entry.member? "circuit" = some circuit ∧
          circuitCell earlier id circuit = .ok cell) := by
  constructor
  · intro h
    unfold defineGate at h
    split at h
    · split at h
      · rename_i id named
        split at h
        · exact ⟨id, named, .inl ⟨_, ‹_›, ‹_›, h⟩⟩
        · exact ⟨id, named, .inr ⟨_, ‹_›, ‹_›, h⟩⟩
        · cases h
        · cases h
        · cases h
      · cases h
    · cases h
  · rintro ⟨id, named, ⟨text, hm, hc, h⟩ | ⟨circuit, hm, hc, h⟩⟩
    · cases entry with
      | object members => simp only [defineGate, named, hm, hc, h]
      | _ => cases named
    · cases entry with
      | object members => simp only [defineGate, named, hm, hc, h]
      | _ => cases named

theorem defineGate_wellFormed {earlier : CustomGates} (wellFormed : earlier.WellFormed)
    {entry : Json} {cell : Cell} (h : defineGate earlier entry = .ok cell) : cell.WellFormed := by
  obtain ⟨id, -, ⟨text, -, -, h⟩ | ⟨circuit, -, -, h⟩⟩ := defineGate_eq_ok.mp h
  · exact matrixCell_wellFormed h
  · exact circuitCell_wellFormed wellFormed h

theorem addGate_eq_ok {earlier custom : CustomGates} {entry : Json} :
    addGate earlier entry = .ok custom ↔ ∃ cell, defineGate earlier entry = .ok cell ∧
      (∀ c ∈ earlier, c.id ≠ cell.id) ∧ custom = earlier ++ [cell] := by
  unfold addGate
  rw [bind_eq_ok]
  refine exists_congr fun cell => and_congr_right fun _ => ?_
  by_cases repeated : earlier.any (·.id = cell.id)
  · rw [if_pos repeated]
    simp only [List.any_eq_true, decide_eq_true_eq] at repeated
    obtain ⟨c, hc, same⟩ := repeated
    exact ⟨fun h => absurd h throw_ne_ok, fun h => absurd same (h.1 c hc)⟩
  · rw [if_neg repeated]
    simp only [List.any_eq_true, decide_eq_true_eq, not_exists, not_and] at repeated
    rw [pure_eq_ok, eq_comm]
    exact ⟨fun same => ⟨repeated, same⟩, And.right⟩

/-- A property of all gates is kept by a gate that has it because those before it have it. -/
theorem forall_of_addGate {P : Cell → Prop}
    (defined : ∀ (earlier : CustomGates) (entry : Json) (cell : Cell), (∀ c ∈ earlier, P c) →
      defineGate earlier entry = .ok cell → P cell)
    {earlier custom : CustomGates} (kept : ∀ c ∈ earlier, P c) {entry : Json}
    (h : addGate earlier entry = .ok custom) : ∀ c ∈ custom, P c := by
  obtain ⟨cell, hcell, -, rfl⟩ := addGate_eq_ok.mp h
  intro c hc
  rcases List.mem_append.mp hc with hc | hc
  · exact kept c hc
  · obtain rfl := List.mem_singleton.mp hc
    exact defined earlier entry c kept hcell

/-- A property that each gate has because those before it have it is one of all gates. -/
theorem forall_of_customGates {P : Cell → Prop}
    (defined : ∀ (earlier : CustomGates) (entry : Json) (cell : Cell), (∀ c ∈ earlier, P c) →
      defineGate earlier entry = .ok cell → P cell)
    {gates : Option Json} {custom : CustomGates} (h : customGates gates = .ok custom) :
    ∀ c ∈ custom, P c := by
  unfold customGates at h
  split at h
  · cases h
    exact nofun
  · cases h
    exact nofun
  · exact foldlM_invariant (fun custom : CustomGates => ∀ c ∈ custom, P c)
      (fun entry _ earlier custom kept h => forall_of_addGate defined kept h)
      (fun _ none => absurd none List.not_mem_nil) h
  · cases h

/-- The custom gates of a document are well-formed. -/
theorem customGates_wellFormed {gates : Option Json} {custom : CustomGates}
    (h : customGates gates = .ok custom) : custom.WellFormed :=
  forall_of_customGates (fun _ _ _ wellFormed => defineGate_wellFormed wellFormed) h

/-! ## Circuits -/

theorem mem_prepareFrom {row : Nat} {entries : List Json} {ops : List Operation}
    (h : prepareFrom row entries = .ok ops) {op : Operation} (hop : op ∈ ops) :
    ∃ entry gates g row, preparation? entry = some gates ∧ g ∈ gates ∧ op = .wire g row := by
  induction entries generalizing row ops with
  | nil =>
    cases h
    cases hop
  | cons entry entries ih =>
    rw [prepareFrom] at h
    cases prepared : preparation? entry with
    | none =>
      rw [prepared] at h
      cases h
    | some gates =>
      rw [prepared] at h
      simp only [bind_eq_ok, pure_eq_ok] at h
      obtain ⟨rest, hrest, rfl⟩ := h
      rcases List.mem_append.mp hop with hop | hop
      · obtain ⟨g, hg, rfl⟩ := List.mem_map.mp hop
        exact ⟨entry, gates, g, row, prepared, hg, rfl⟩
      · exact ih hrest hop

/-- The operations in front of the columns are gates that prepare the state of a row. -/
theorem mem_initialOperations {initial : Option Json} {ops : List Operation}
    (h : initialOperations initial = .ok ops) {op : Operation} (hop : op ∈ ops) :
    ∃ entry gates g row, preparation? entry = some gates ∧ g ∈ gates ∧ op = .wire g row := by
  unfold initialOperations at h
  split at h
  · cases h
    cases hop
  · cases h
    cases hop
  · exact mem_prepareFrom h hop
  · cases h

theorem initialOperations_sound {initial : Option Json} {ops : List Operation}
    (h : initialOperations initial = .ok ops) : ∀ op ∈ ops, op.Sound := by
  intro op hop
  obtain ⟨_, _, g, row, -, -, rfl⟩ := mem_initialOperations h hop
  trivial

theorem extend_eq_ok {c c' : Circuit} {ops : List Operation} :
    extend c ops = .ok c' ↔ c.extend ops = (c', none) := by
  unfold extend
  split <;> rename_i h <;> simp [h]

theorem operations_of_extend {c c' : Circuit} {ops : List Operation}
    (h : c.extend ops = (c', none)) :
    c'.operations.toList = c.operations.toList ++ ops := by
  rcases Circuit.all_wellPlaced_or_first_rejected ops with
    placed | ⟨front, op, behind, e, rfl, placed, rejected⟩
  · rw [Circuit.extend_of_wellPlaced placed] at h
    cases h
    simp [Circuit.appended]
  · rw [Circuit.extend_of_rejected placed rejected] at h
    cases h

/-- A document that compiles has parts that are all accepted, and its circuit extends the
preparations by the operations of its columns. -/
theorem compile_eq_ok {document : Json} {c : Circuit} (h : compile document = .ok c) :
    ∃ value columns custom initial ops, document.member? "cols" = some value ∧
      columnEntries value = .ok columns ∧ customGates (document.member? "gates") = .ok custom ∧
      initialOperations (document.member? "init") = .ok initial ∧
      compileColumns custom columns = .ok ops ∧
      ∃ d, (Circuit.mk "" #[]).extend initial = (d, none) ∧ d.extend ops = (c, none) := by
  unfold compile at h
  split at h
  · split at h
    · cases h
    · rename_i value present
      simp only [bind_eq_ok, extend_eq_ok] at h
      obtain ⟨columns, listed, custom, table, initial, prepared, ops, compiled, d, hd, hc⟩ := h
      exact ⟨value, columns, custom, initial, ops, present, listed, table, prepared, compiled,
        d, hd, hc⟩
  · cases h

theorem operations_of_parts {initial ops : List Operation} {c d : Circuit}
    (prepared : (Circuit.mk "" #[]).extend initial = (d, none)) (rest : d.extend ops = (c, none)) :
    c.operations.toList = initial ++ ops := by
  rw [operations_of_extend rest, operations_of_extend prepared, List.nil_append]

/-- The circuit of a document is built by adding operations. -/
theorem built_of_compile {document : Json} {c : Circuit} (h : compile document = .ok c) :
    c.Built := by
  obtain ⟨-, -, -, initial, ops, -, -, -, -, -, d, hd, hc⟩ := compile_eq_ok h
  have prepared : d.Built := by
    have built := (Circuit.Built.empty "").extend initial
    rwa [hd] at built
  have built := prepared.extend ops
  rwa [hc] at built

/-- Every operation of the circuit of a document prepares a state or is one of its columns. -/
theorem mem_compile {document : Json} {c : Circuit} (h : compile document = .ok c)
    {op : Operation} (hop : op ∈ c.operations.toList) :
    (∃ initial, initialOperations (document.member? "init") = .ok initial ∧ op ∈ initial) ∨
    ∃ custom columns ops, customGates (document.member? "gates") = .ok custom ∧
      compileColumns custom columns = .ok ops ∧ op ∈ ops := by
  obtain ⟨-, columns, custom, initial, ops, -, -, table, prepared, compiled, d, hd, hc⟩ :=
    compile_eq_ok h
  rw [operations_of_parts hd hc] at hop
  rcases List.mem_append.mp hop with hop | hop
  · exact .inl ⟨initial, prepared, hop⟩
  · exact .inr ⟨custom, columns, ops, table, compiled, hop⟩

/-- The operations of the circuit of a document are sound. -/
theorem sound_of_compile {document : Json} {c : Circuit} (h : compile document = .ok c) :
    ∀ op ∈ c.operations.toList, op.Sound := by
  intro op hop
  rcases mem_compile h hop with
    ⟨initial, prepared, hop⟩ | ⟨custom, columns, ops, table, compiled, hop⟩
  · exact initialOperations_sound prepared op hop
  · exact compileColumns_sound (customGates_wellFormed table) compiled op hop

/-- Running the inverse of a circuit takes back what running the circuit did: for every circuit
that was built by adding operations whose gates are sound, and so for the circuits that documents
compile to. -/
theorem inverse_undoes_run :
    (∀ c : Circuit, c.Built → (∀ op ∈ c.operations.toList, op.Sound) →
      ∀ s s', c.run s = .ok s' →
        ∃ d, c.inverse = .ok d ∧
          d.operations.toList = (c.operations.toList.map Operation.inverse).reverse ∧
          d.run s' = .ok s) ∧
    ∀ document c, compile document = .ok c →
      c.Built ∧ ∀ op ∈ c.operations.toList, op.Sound := by
  refine ⟨fun c built sound s s' h => ⟨_, Circuit.inverse_eq_ok built sound, rfl, ?_⟩,
    fun document c h => ⟨built_of_compile h, sound_of_compile h⟩⟩
  exact runAll_inverse sound built.placed h

/-- An increment of two rows under a third, and a swap. -/
def steeredIncrement : List Operation :=
  [(Operation.ofKind (.arithmetic ⟨.increment, 2, []⟩) [0, 1]).controlledBy [2], .swap 0 3]

theorem inverse_undoes_steeredIncrement :
    (∃ d, ((Circuit.mk "" #[]).extend steeredIncrement).1.inverse = .ok d ∧
      d.operations.toList = (steeredIncrement.map Operation.inverse).reverse ∧
      d.run 14 = .ok 6) ∧
    ∃ c, compile (.object [("cols", .array []), ("init", .array [.text "-"])]) = .ok c ∧
      c.Built ∧ ∀ op ∈ c.operations.toList, op.Sound := by
  have sound : ∀ op ∈ steeredIncrement, op.Sound := by
    intro op hop
    simp only [steeredIncrement, List.mem_cons, List.not_mem_nil, or_false] at hop
    rcases hop with rfl | rfl
    · exact ⟨by decide, nofun, rfl⟩
    · trivial
  have compiled : compile (.object [("cols", .array []), ("init", .array [.text "-"])]) =
      .ok ⟨"", #[.wire (.pauli .x) 0, .wire .hadamard 0]⟩ := by rfl
  exact ⟨inverse_undoes_run.1 _ (.extend steeredIncrement (.empty "")) sound 6 14 (by rfl),
    _, compiled, inverse_undoes_run.2 _ _ compiled⟩

end QuantumBoard.Board

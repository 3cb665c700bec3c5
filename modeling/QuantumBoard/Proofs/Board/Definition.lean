import Mathlib.Order.Bounds.Basic
import QuantumBoard.Proofs.Board.Translation
import QuantumBoard.Proofs.Matrix.Table

/-! # Custom gates are defined front to back

The list of gates is read from its front, and each gate is defined by the table of those before
it. The table has one gate for each entry, under identifiers that are all different; a gate covers
as many rows as its matrix acts on or as its operations touch; and what stands behind a gate has no
part in it. -/

namespace QuantumBoard

open Success

/-- What a gate stands for takes the rows that its cell covers: the matrix has an entry for each
pair of states of these rows, and no smaller number of rows holds the operations. -/
def Definition.Exact (size : Nat) : Definition → Prop
  | .matrix g => g.width = size ∧ g.entries.size = (2 ^ size) ^ 2
  | .circuit ops => IsLeast {n | 0 < n ∧ ∀ op ∈ ops, ∀ r ∈ op.rows, r < n} size

/-- In a table with different identifiers a gate is found under its own. -/
theorem CustomGates.find?_of_mem {custom : CustomGates} (distinct : (custom.map Cell.id).Nodup)
    {cell : Cell} (mem : cell ∈ custom) : custom.find? cell.id = some cell := by
  have first : List.find? (fun c : Cell => c.id = cell.id) custom = some cell := by
    induction custom with
    | nil => cases mem
    | cons c custom ih =>
      rw [List.map_cons, List.nodup_cons] at distinct
      rcases List.mem_cons.mp mem with rfl | mem
      · exact List.find?_cons_of_pos (by simp)
      · have other : c.id ≠ cell.id := fun same =>
          distinct.1 (same ▸ List.mem_map_of_mem mem)
        rw [List.find?_cons_of_neg (by simpa using other)]
        exact ih distinct.2 mem
  rw [CustomGates.find?, first, Option.some_or]

namespace Board

/-! ## The rows of a gate -/

theorem isLeast_rowCount (ops : List Operation) :
    IsLeast {n | 0 < n ∧ ∀ op ∈ ops, ∀ r ∈ op.rows, r < n} (rowCount ops) := by
  refine ⟨⟨one_le_rowCount ops, fun op mem r touched => lt_rowCount mem touched⟩, ?_⟩
  rintro n ⟨positive, holds⟩
  refine foldl_max_le positive fun r touched => ?_
  obtain ⟨op, mem, inside⟩ := List.mem_flatMap.mp touched
  exact holds op mem r inside

theorem defineGate_exact {earlier : CustomGates} {entry : Json} {cell : Cell}
    (h : defineGate earlier entry = .ok cell) :
    1 ≤ cell.size ∧ ∃ d, cell.kind = .custom d ∧ d.Exact cell.size := by
  obtain ⟨id, -, ⟨text, -, -, h⟩ | ⟨circuit, -, -, h⟩⟩ := defineGate_eq_ok.mp h
  · have wellFormed := matrixCell_wellFormed h
    obtain ⟨g, kind⟩ := matrixCell_matrix h
    obtain ⟨width, entries⟩ := wellFormed.definition _ kind
    have entries : g.entries.size = 2 ^ g.width * 2 ^ g.width := entries
    refine ⟨wellFormed.covers, _, kind, width, ?_⟩
    rw [entries, width, Nat.pow_two]
  · obtain ⟨value, columns, ops, -, -, -, rfl⟩ := circuitCell_eq_ok.mp h
    exact ⟨one_le_rowCount ops, _, rfl, isLeast_rowCount ops⟩

theorem defineGate_named {earlier : CustomGates} {entry : Json} {cell : Cell}
    (h : defineGate earlier entry = .ok cell) : entry.member? "id" = some (.text cell.id) := by
  obtain ⟨id, named, ⟨text, -, -, h⟩ | ⟨circuit, -, -, h⟩⟩ := defineGate_eq_ok.mp h
  · obtain ⟨m, -, -, -, -, -, rfl⟩ := matrixCell_eq_ok.mp h
    exact named
  · obtain ⟨value, columns, ops, -, -, -, rfl⟩ := circuitCell_eq_ok.mp h
    exact named

/-! ## The table -/

/-- A table of gates, each defined by those in front of it and under a new identifier. -/
inductive Table : List Json → CustomGates → Prop
  | empty : Table [] []
  | add {entries : List Json} {earlier : CustomGates} {entry : Json} {cell : Cell} :
      Table entries earlier → defineGate earlier entry = .ok cell →
      (∀ c ∈ earlier, c.id ≠ cell.id) → Table (entries ++ [entry]) (earlier ++ [cell])

theorem table_of_foldlM {entries before : List Json} {earlier custom : CustomGates}
    (start : Table before earlier) (h : entries.foldlM addGate earlier = .ok custom) :
    Table (before ++ entries) custom := by
  induction entries generalizing before earlier with
  | nil =>
    cases h
    rwa [List.append_nil]
  | cons entry entries ih =>
    rw [List.foldlM_cons, bind_eq_ok] at h
    obtain ⟨next, added, rest⟩ := h
    obtain ⟨cell, defined, fresh, rfl⟩ := addGate_eq_ok.mp added
    rw [List.append_cons]
    exact ih (start.add defined fresh) rest

/-- The tables that lists of gates are accepted with. -/
theorem customGates_eq_ok {entries : List Json} {custom : CustomGates} :
    customGates (some (.array entries)) = .ok custom ↔ Table entries custom := by
  constructor
  · intro accepted
    rw [customGates] at accepted
    exact table_of_foldlM .empty accepted
  · intro table
    induction table with
    | empty => rfl
    | add _ defined fresh ih =>
      exact customGates_concat ih (addGate_eq_ok.mpr ⟨_, defined, fresh, rfl⟩)

variable {entries : List Json} {custom : CustomGates}

theorem Table.named (table : Table entries custom) :
    entries.map (Json.member? "id") = custom.map fun cell => some (.text cell.id) := by
  induction table with
  | empty => rfl
  | add _ defined _ ih =>
    rw [List.map_append, List.map_append, ih, List.map_singleton, List.map_singleton,
      defineGate_named defined]

theorem Table.distinct (table : Table entries custom) : (custom.map Cell.id).Nodup := by
  induction table with
  | empty => exact List.nodup_nil
  | add _ _ fresh ih =>
    rw [List.map_append, List.map_singleton, ← List.concat_eq_append, List.nodup_concat]
    refine ⟨fun repeated => ?_, ih⟩
    obtain ⟨c, mem, same⟩ := List.mem_map.mp repeated
    exact fresh c mem same

theorem Table.exact (table : Table entries custom) :
    ∀ cell ∈ custom, 1 ≤ cell.size ∧ ∃ d, cell.kind = .custom d ∧ d.Exact cell.size := by
  induction table with
  | empty => exact nofun
  | add _ defined _ ih =>
    intro c mem
    rcases List.mem_append.mp mem with mem | mem
    · exact ih c mem
    · obtain rfl := List.mem_singleton.mp mem
      exact defineGate_exact defined

/-- The table of a list starts with the table of each of its starts, and the gate that stands next
is defined by that table. -/
theorem split_of_customGates {xs ys : List Json} {custom : CustomGates}
    (accepted : customGates (some (.array (xs ++ ys))) = .ok custom) :
    ∃ earlier later, customGates (some (.array xs)) = .ok earlier ∧ custom = earlier ++ later ∧
      ∀ entry zs, ys = entry :: zs →
        ∃ cell, defineGate earlier entry = .ok cell ∧ later.head? = some cell := by
  simp only [customGates, List.foldlM_append, bind_eq_ok] at accepted ⊢
  obtain ⟨earlier, front, rest⟩ := accepted
  cases ys with
  | nil =>
    obtain ⟨later, rfl⟩ := prefix_of_foldlM rest
    refine ⟨earlier, later, front, rfl, ?_⟩
    intro _ _ same
    cases same
  | cons entry ys =>
    rw [List.foldlM_cons, bind_eq_ok] at rest
    obtain ⟨next, added, rest⟩ := rest
    obtain ⟨cell, defined, -, rfl⟩ := addGate_eq_ok.mp added
    obtain ⟨later, rfl⟩ := prefix_of_foldlM rest
    refine ⟨earlier, cell :: later, front, by rw [List.append_assoc, List.singleton_append], ?_⟩
    intro _ _ same
    cases same
    exact ⟨cell, defined, rfl⟩

/-- An accepted list gives a table with a gate for each entry, in their order and under the
identifiers of the entries, which are all different. Each gate covers a row or more and is exact.
The start of a list is accepted as well; its gates are the first ones of the table, and under each
of their identifiers both tables have the same gate. The gate of the entry that stands next
is defined by these alone. -/
theorem customGates_front_to_back (accepted : customGates (some (.array entries)) = .ok custom) :
    entries.map (Json.member? "id") = custom.map (fun cell => some (.text cell.id)) ∧
      (custom.map Cell.id).Nodup ∧
      (∀ cell ∈ custom, 1 ≤ cell.size ∧ ∃ d, cell.kind = .custom d ∧ d.Exact cell.size) ∧
      ∀ xs ys, entries = xs ++ ys → ∃ earlier later,
        customGates (some (.array xs)) = .ok earlier ∧ custom = earlier ++ later ∧
        earlier.length = xs.length ∧
        (∀ cell ∈ earlier, earlier.find? cell.id = some cell ∧
          custom.find? cell.id = some cell) ∧
        ∀ entry zs, ys = entry :: zs →
          ∃ cell, defineGate earlier entry = .ok cell ∧ later.head? = some cell := by
  have table := customGates_eq_ok.mp accepted
  refine ⟨table.named, table.distinct, table.exact, ?_⟩
  rintro xs ys rfl
  obtain ⟨earlier, later, front, rfl, next⟩ := split_of_customGates accepted
  have start := customGates_eq_ok.mp front
  have length := congrArg List.length start.named
  rw [List.length_map, List.length_map] at length
  refine ⟨earlier, later, front, rfl, length.symm, fun cell mem => ⟨?_, ?_⟩, next⟩
  · exact CustomGates.find?_of_mem start.distinct mem
  · exact CustomGates.find?_of_mem table.distinct (List.mem_append_left later mem)

/-- A gate given by a matrix of two rows and two columns. -/
def matrixGateEntry : Json :=
  .object [("id", .text "~half"), ("matrix", .text (Matrix.literal Matrix.evenTable))]

/-- A gate that has the gate of the matrix in its second row. -/
def loweredGateEntry : Json :=
  .object [("circuit", .object [("cols", .array [.array [.integer 1, .text "~half"]])]),
    ("id", .text "~low")]

def matrixGateCell (entries : Array Amplitude) : Cell :=
  ⟨"~half", 1, .custom (.matrix ⟨"~half", 1, entries⟩)⟩

def loweredGateCell (entries : Array Amplitude) : Cell :=
  ⟨"~low", 2, .custom (.circuit [.ofKind (.matrix ⟨"~half", 1, entries⟩) [1]])⟩

theorem customGates_matrixGateEntry :
    ∃ entries, customGates (some (.array [matrixGateEntry])) = .ok [matrixGateCell entries] := by
  obtain ⟨m, read, spelled⟩ := Matrix.ofLiteral_rectangular (by decide)
    (fun row mem => Matrix.readable_tables row (List.mem_append_left _ mem))
    (⟨2, by decide⟩ : Matrix.Rectangular Matrix.evenTable)
  obtain ⟨rows, columns, entries⟩ := m
  obtain rfl : rows = 2 := spelled.rows
  obtain rfl : 2 = columns := spelled.columns _ List.mem_cons_self
  have size : entries.size = 4 := spelled.size
  have width : Nat.log2 2 = 1 := by decide
  have fits : MatrixGate.fits 1 entries.size = true := by
    rw [size]
    decide
  have cell : matrixCell "~half" (Matrix.literal Matrix.evenTable) =
      .ok (matrixGateCell entries) := by
    refine matrixCell_eq_ok.mpr ⟨_, read, rfl, Nat.le_refl 2, ?_, ?_, ?_⟩
    · rw [width, Nat.pow_one]
    · rw [width, fits]
    · rw [width, matrixGateCell]
  have defined : defineGate [] matrixGateEntry = .ok (matrixGateCell entries) :=
    defineGate_eq_ok.mpr ⟨"~half", rfl, .inl ⟨_, rfl, rfl, cell⟩⟩
  exact ⟨entries, customGates_eq_ok.mpr (Table.empty.add defined nofun)⟩

theorem compileColumns_lowered (entries : Array Amplitude) :
    compileColumns [matrixGateCell entries] [[.integer 1, .text "~half"]] =
      .ok [.ofKind (.matrix ⟨"~half", 1, entries⟩) [1]] := by
  have found : CustomGates.find? [matrixGateCell entries] "~half" =
      some (matrixGateCell entries) :=
    @CustomGates.find?_of_mem [matrixGateCell entries] (List.nodup_singleton _) _
      List.mem_cons_self
  have upper : compileColumns [matrixGateCell entries] [[.text "~half"]] =
      .ok [.ofKind (.matrix ⟨"~half", 1, entries⟩) [0]] :=
    compileColumns_singleton.mpr ⟨_, resolve_alone found rfl rfl nofun, build_custom ..⟩
  have lower : Column.Indented 1 [.text "~half"] [.integer 1, .text "~half"] := by
    refine ⟨[.integer 1], rfl, fun entry mem => ?_, rfl⟩
    rw [List.mem_singleton.mp mem]
    exact Column.ofJson?_one
  rw [compileColumns_shift (.cons lower .nil), upper]
  rfl

/-- The gate of the list without the second entry is the first of the table, and with it the gate
of the second entry is defined, which covers one row more. -/
theorem customGates_front_to_back_lowered :
    ∃ first second, customGates (some (.array [matrixGateEntry, loweredGateEntry])) =
        .ok [first, second] ∧ first.size = 1 ∧ second.size = 2 ∧
      customGates (some (.array [matrixGateEntry])) = .ok [first] ∧
      defineGate [first] loweredGateEntry = .ok second := by
  obtain ⟨entries, first⟩ := customGates_matrixGateEntry
  have defined : defineGate [matrixGateCell entries] loweredGateEntry =
      .ok (loweredGateCell entries) :=
    defineGate_eq_ok.mpr ⟨"~low", rfl, .inr ⟨_, rfl, rfl, circuitCell_eq_ok.mpr
      ⟨_, _, _, rfl, rfl, compileColumns_lowered entries, rfl⟩⟩⟩
  have accepted : customGates (some (.array [matrixGateEntry, loweredGateEntry])) =
      .ok [matrixGateCell entries, loweredGateCell entries] := by
    refine customGates_concat first (addGate_eq_ok.mpr ⟨_, defined, ?_, rfl⟩)
    simp [matrixGateCell, loweredGateCell]
  obtain ⟨-, -, -, split⟩ := customGates_front_to_back accepted
  obtain ⟨earlier, later, front, table, -, -, next⟩ :=
    split [matrixGateEntry] [loweredGateEntry] rfl
  cases first.symm.trans front
  obtain ⟨cell, definition, head⟩ := next _ _ rfl
  cases table
  cases head
  exact ⟨_, _, accepted, rfl, rfl, front, definition⟩

end Board

end QuantumBoard

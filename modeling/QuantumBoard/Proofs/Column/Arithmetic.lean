import QuantumBoard.Proofs.Column.Placement
import QuantumBoard.Proofs.Gate.Operands

/-! # Columns that transform a register

A column with an arithmetic cell, whose other cells are inputs and displays, has one operation: the
gate of the cell, on the rows of the cell followed by the rows of the registers it reads. -/

namespace QuantumBoard

open Success

/-- The kinds of cells that have no operations and do not take part in those of others. -/
def CellKind.isPassive : CellKind → Bool
  | .display | .input _ _ => true
  | _ => false

namespace Column

/-! ## One cell with operations -/

/-- The column has an arithmetic cell. All other cells are passive, inputs of different registers
among them, and the registers that the cell reads are bound. -/
structure Transforms (cells : List Placed) (p : Placed) (t : Transform) : Prop where
  mem : p ∈ cells
  kind : p.cell.kind = .arithmetic t
  passive : ∀ q ∈ cells, q ≠ p → q.cell.kind.isPassive = true
  differ : InputsDiffer cells
  bound : ∀ register ∈ t.inputs, ∃ q ∈ cells, ∃ reversed, q.cell.kind = .input register reversed

/-- The operation of an arithmetic cell, given the registers. -/
def transformOperation (t : Transform) (p : Placed) (inputs : Inputs) : Operation :=
  .ofGate ⟨.arithmetic ⟨t, p.footprint.length, (t.inputs.map inputs.rows).map List.length⟩,
    some p.cell.id⟩ (p.footprint ++ (t.inputs.map inputs.rows).flatten)

variable {cells : List Placed} {p : Placed} {t : Transform}

theorem Transforms.not_isControl (h : Transforms cells p t) :
    ∀ q ∈ cells, q.cell.isControl = false := by
  intro q hq
  by_cases same : q = p
  · simp [Cell.isControl, same, h.kind]
  · have := h.passive q hq same
    unfold CellKind.isPassive at this
    split at this <;> simp_all [Cell.isControl]

theorem Transforms.swaps_eq (h : Transforms cells p t) : swaps cells = .ok [] := by
  have none : cells.filterMap swapRow? = [] := by
    refine List.filterMap_eq_nil_iff.mpr fun q hq => Option.eq_none_iff_forall_ne_some.mpr ?_
    intro r row
    obtain ⟨kind, -⟩ := swapRow?_eq_some.mp row
    by_cases same : q = p
    · have := h.kind
      rw [← same, kind] at this
      cases this
    · have := h.passive q hq same
      rw [kind] at this
      cases this
  exact swaps_eq_ok.mpr ⟨by rw [none]; rfl, by rw [none]; rfl⟩

theorem isIdle_of_isPassive {kind : CellKind} (passive : kind.isPassive = true) :
    kind.isIdle = true := by
  unfold CellKind.isPassive at passive
  split at passive
  · rfl
  · rfl
  · cases passive

/-- The column has one operation, that of the arithmetic cell. -/
theorem build_transforms (apart : Apart cells) (h : Transforms cells p t) :
    ∃ inputs, build cells = .ok [transformOperation t p inputs] ∧
      ∀ q ∈ cells, ∀ register reversed, q.cell.kind = .input register reversed →
        inputs register = some (inputRows reversed q) := by
  obtain ⟨inputs, bound, each⟩ := bindInputs_ok h.differ
  refine ⟨inputs, ?_, each⟩
  have readable : ∀ register ∈ t.inputs,
      ∃ rows, inputs register = some rows ∧ ∀ r ∈ rows, r ∉ p.footprint := by
    intro register hr
    obtain ⟨q, hq, reversed, kind⟩ := h.bound register hr
    have rows := each q hq register reversed kind
    refine ⟨_, rows, bindInputs_clear apart bound h.mem (fun other reversed' input => ?_) register _
      rows⟩
    rw [h.kind] at input
    cases input
  have own : cellOperations inputs p = .ok [transformOperation t p inputs] := by
    rw [cellOperations, h.kind]
    exact arithmetic_eq_ok.mpr ⟨readable, rfl⟩
  refine IsRegion.build ⟨inputs, [], ?_⟩ h.not_isControl
  -- the cell stands in the column once, so that all others are passive
  have once : cells.Nodup := apart.imp fun {q q'} front same => by
    rw [same] at front
    omega
  have passive := h.passive
  have swapped := h.swaps_eq
  obtain ⟨front, behind, rfl⟩ := List.append_of_mem h.mem
  have other : p ∉ front ++ behind := (List.nodup_cons.mp (List.nodup_middle.mp once)).1
  have none (those : List Placed) (sub : those ⊆ front ++ behind) :
      those.mapM (cellOperations inputs) = .ok (those.map fun _ => []) :=
    mapM_of_isIdle fun q hq => isIdle_of_isPassive
      (passive q (by have := sub hq; grind) fun same => other (same ▸ sub hq))
  refine ⟨(front.map fun _ => []) ++ [transformOperation t p inputs] :: behind.map fun _ => [],
    bound, swapped, ?_, by simp⟩
  simp only [List.mapM_append, List.mapM_cons, bind_eq_ok, pure_eq_ok]
  exact ⟨_, none front (by simp), _, ⟨_, own, _, none behind (by simp), rfl⟩, rfl⟩

/-! ## Columns as they are written -/

/-- The column has an arithmetic cell at a row. All other cells are displays, or inputs of
different registers, and every row that is covered is a row of a state. -/
structure TransformsAt (entries : List Json) (row : Nat) (cell : Cell) (t : Transform) : Prop
    extends LaidOut [] entries where
  range : ∀ i c, cellAt? [] entries i = some c → i + c.size ≤ 64
  target : cellAt? [] entries row = some cell
  kind : cell.kind = .arithmetic t
  passive : ∀ i c, i ≠ row → cellAt? [] entries i = some c → c.kind.isPassive = true
  differ : ∀ i j c d register reversed reversed', i < j → cellAt? [] entries i = some c →
    cellAt? [] entries j = some d → c.kind = .input register reversed →
      d.kind ≠ .input register reversed'

/-- An input of the column gives the rows to the register, the lowest digit first. -/
def GivesRows (entries : List Json) (register : Register) (rows : List Nat) : Prop :=
  ∃ i c reversed, cellAt? [] entries i = some c ∧ c.kind = .input register reversed ∧
    rows = if reversed then (List.range' i c.size).reverse else List.range' i c.size

/-- The cells that such a column resolves to have one arithmetic cell among passive ones. -/
theorem TransformsAt.transforms {entries : List Json} {cells : List Placed} {p : Placed}
    {t : Transform} (column : TransformsAt entries p.row p.cell t)
    (bound : ∀ register ∈ t.inputs, ∃ rows, GivesRows entries register rows) (apart : Apart cells)
    (hp : p ∈ cells) (source : ∀ q ∈ cells, cellAt? [] entries q.row = some q.cell)
    (placed : ∀ i c, cellAt? [] entries i = some c → ∃ q ∈ cells, q.row = i ∧ q.cell = c) :
    Transforms cells p t where
  mem := hp
  kind := column.kind
  passive q hq other :=
    column.passive q.row q.cell (fun same => other (apart.eq_of_row_eq hq hp same)) (source q hq)
  differ := apart.imp_of_mem fun {q q'} hq hq' front register reversed reversed' =>
    column.differ q.row q'.row q.cell q'.cell register reversed reversed' front.1 (source q hq)
      (source q' hq')
  bound register hr := by
    obtain ⟨_, i, c, reversed, stands, kind, -⟩ := bound register hr
    obtain ⟨q, hq, -, rfl⟩ := placed i c stands
    exact ⟨q, hq, reversed, kind⟩

/-- Such a column resolves and builds to one operation, on rows of a state. -/
theorem TransformsAt.build {entries : List Json} {row : Nat} {cell : Cell} {t : Transform}
    (column : TransformsAt entries row cell t) {rows : Register → List Nat}
    (given : ∀ register ∈ t.inputs, GivesRows entries register (rows register)) :
    ∃ cells p inputs, resolve [] entries = .ok cells ∧ p.row = row ∧ p.cell = cell ∧
      Column.build cells = .ok [transformOperation t p inputs] ∧
      (∀ register ∈ t.inputs, inputs.rows register = rows register) ∧
      ∀ r ∈ (transformOperation t p inputs).rows, r < 64 := by
  obtain ⟨cells, resolved, source, placed⟩ := column.toLaidOut.resolve
  have apart := apart_of_resolve resolved
  obtain ⟨p, hp, rfl, rfl⟩ := placed row cell column.target
  have transforms := column.transforms (fun register hr => ⟨_, given register hr⟩) apart hp source
    placed
  obtain ⟨inputs, built, each⟩ := build_transforms apart transforms
  have same : ∀ register ∈ t.inputs, ∃ q ∈ cells, ∃ reversed,
      inputs.rows register = inputRows reversed q ∧ rows register = inputRows reversed q := by
    intro register hr
    obtain ⟨i, c, reversed, stands, kind, rows⟩ := given register hr
    obtain ⟨q, hq, rfl, rfl⟩ := placed i c stands
    exact ⟨q, hq, reversed, Inputs.rows_eq (each q hq register reversed kind), rows⟩
  have inside : ∀ q ∈ cells, ∀ r ∈ q.footprint, r < 64 := by
    intro q hq r hr
    have := column.range q.row q.cell (source q hq)
    rw [Placed.mem_footprint] at hr
    omega
  refine ⟨cells, p, inputs, resolved, rfl, rfl, built, fun register hr => ?_, fun r hr => ?_⟩
  · obtain ⟨q, -, reversed, left, right⟩ := same register hr
    rw [left, right]
  · simp only [transformOperation, Operation.rows, Operation.ofGate, List.append_nil,
      List.mem_append, List.mem_flatten, List.mem_map] at hr
    rcases hr with hr | ⟨_, ⟨register, hregister, rfl⟩, hr⟩
    · exact inside p hp r hr
    · obtain ⟨q, hq, reversed, bound, -⟩ := same register hregister
      rw [bound] at hr
      exact inside q hq r (mem_inputRows.mp hr)

/-- The operation of an arithmetic cell transforms the number in the rows of the cell. -/
theorem run_transformOperation {t : Transform} {p : Placed} {inputs : Inputs}
    (nodup : (transformOperation t p inputs).rows.Nodup)
    (range : ∀ r ∈ (transformOperation t p inputs).rows, r < 64) (s : UInt64) :
    ∃ s', (transformOperation t p inputs).run s = .ok s' ∧
      Word.value s' p.footprint = (t.apply (.ofNat (Word.value s p.footprint))
        (t.inputs.map fun register => .ofNat (Word.value s (inputs.rows register)))
          p.cell.size).toNat ∧
      ∀ k < 64, k ∉ p.footprint → Word.testBit s' k = Word.testBit s k := by
  obtain ⟨s', after⟩ : ∃ s', onRegister (ArithmeticGate.applyToBits ⟨t, p.footprint.length,
      (t.inputs.map inputs.rows).map List.length⟩)
      (p.footprint ++ (t.inputs.map inputs.rows).flatten) s = s' := ⟨_, rfl⟩
  have run : (transformOperation t p inputs).run s = .ok s' := by
    rw [Operation.run_of_inRange range, ← after]
    rfl
  simp only [transformOperation, Operation.rows, Operation.ofGate, List.append_nil] at nodup range
  obtain ⟨number, others⟩ := ArithmeticGate.onRegister_applyToBits t nodup range after
  have target : ∀ r ∈ p.footprint, r < 64 := fun r hr => range r (List.mem_append_left _ hr)
  have registers : (t.inputs.map inputs.rows).map (Word.gather s) =
      t.inputs.map fun register => .ofNat (Word.value s (inputs.rows register)) := by
    rw [List.map_map]
    refine List.map_congr_left fun register hr => ?_
    have listed : inputs.rows register ∈ t.inputs.map inputs.rows := List.mem_map_of_mem hr
    have apart := (List.nodup_flatten.mp (List.nodup_append.mp nodup).2.1).1 _ listed
    exact Word.gather_eq_ofNat apart fun r hr => range r
      (List.mem_append_right _ (List.mem_flatten.mpr ⟨_, listed, hr⟩))
  refine ⟨s', run, ?_, others⟩
  rw [← Word.toNat_gather p.nodup_footprint target, number, registers,
    Word.gather_eq_ofNat p.nodup_footprint target, p.length_footprint]

end Column

end QuantumBoard

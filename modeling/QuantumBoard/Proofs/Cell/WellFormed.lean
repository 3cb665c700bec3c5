import QuantumBoard.Cell.Catalog
import QuantumBoard.Proofs.Cell.Registry
import QuantumBoard.Proofs.Circuit.Inverse

/-! Well-formed cells: a cell covers a row at least, and at most sixteen if it is no custom gate;
what a custom gate stands for is sound and stays within the rows that its cell covers. The cells
that the board knows are well-formed. Those that can be placed also have operations that a circuit
takes: the gate that a cell puts on its own row is a gate on one qubit, and the operations of a
custom gate are accepted as they are. -/

namespace QuantumBoard

/-- The definition of a gate is sound and fits a number of rows. -/
def Definition.WellFormed (size : Nat) : Definition → Prop
  | .matrix g => g.width = size ∧ (GateKind.matrix g).Sound
  | .circuit ops => ∀ op ∈ ops, op.Sound ∧ ∀ r ∈ op.rows, r < size

structure Cell.WellFormed (c : Cell) : Prop where
  covers : 1 ≤ c.size
  short : c.size ≤ 16 ∨ ∃ d, c.kind = .custom d
  definition : ∀ d, c.kind = .custom d → d.WellFormed c.size

theorem Cell.WellFormed.size_le {c : Cell} (wellFormed : c.WellFormed)
    (known : ∀ d, c.kind ≠ .custom d) : c.size ≤ 16 :=
  wellFormed.short.resolve_right fun ⟨d, custom⟩ => known d custom

namespace Registry

theorem mem_of_find? {r : Registry} {id : String} {c : Cell} (h : r.find? id = some c) :
    c ∈ r.cells := by
  unfold find? at h
  obtain ⟨place, -, h⟩ := Option.bind_eq_some_iff.mp h
  exact Array.mem_of_getElem? h

end Registry

/-- Cells that cover one to sixteen rows and are no custom gate. -/
def Cell.isPlain (c : Cell) : Bool :=
  decide (1 ≤ c.size) && decide (c.size ≤ 16) && !(c.kind matches .custom _)

theorem Cell.wellFormed_of_isPlain {c : Cell} (h : c.isPlain = true) : c.WellFormed := by
  simp only [isPlain, Bool.and_eq_true, decide_eq_true_eq] at h
  obtain ⟨⟨covers, short⟩, known⟩ := h
  refine ⟨covers, .inl short, fun d hd => ?_⟩
  rw [hd] at known
  cases known

theorem Catalog.all_isPlain : Catalog.all.all Cell.isPlain = true := by
  decide +kernel

theorem Registry.standard_wellFormed {id : String} {c : Cell}
    (h : Registry.standard.find? id = some c) : c.WellFormed :=
  Cell.wellFormed_of_isPlain
    (List.all_eq_true.mp Catalog.all_isPlain c (mem_ofList (mem_of_find? h)))

/-! ## Operations that can be added -/

/-- The gate on wires that a cell puts on its own row. -/
def CellKind.wireGate? : CellKind → Option WireGate
  | gate g => some g
  | control basis | parity basis | measurement basis => basis
  | _ => none

structure Cell.Placeable (c : Cell) : Prop where
  single : ∀ g, c.kind.wireGate? = some g → g.numQubits = 1
  definition : ∀ ops, c.kind = .custom (.circuit ops) → ∀ op ∈ ops, op.placementError? = none

/-- The gate that a cell puts on its own row, if there is one, is a gate on one qubit. -/
def Cell.isSingle (c : Cell) : Bool := c.kind.wireGate?.all fun g => g.numQubits == 1

theorem Cell.placeable_of_isSingle {c : Cell} (plain : c.isPlain = true)
    (single : c.isSingle = true) : c.Placeable where
  single g hg := by
    rw [isSingle, hg] at single
    simpa using single
  definition ops hops := by
    simp [isPlain, hops] at plain

theorem Catalog.all_isSingle : Catalog.all.all Cell.isSingle = true := by
  decide +kernel

theorem Registry.standard_placeable {id : String} {c : Cell}
    (h : Registry.standard.find? id = some c) : c.Placeable := by
  have known := mem_ofList (mem_of_find? h)
  exact Cell.placeable_of_isSingle (List.all_eq_true.mp Catalog.all_isPlain c known)
    (List.all_eq_true.mp Catalog.all_isSingle c known)

end QuantumBoard

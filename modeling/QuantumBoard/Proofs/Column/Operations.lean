import QuantumBoard.Column.Build
import QuantumBoard.Proofs.Cell.Rearrangement
import QuantumBoard.Proofs.Cell.WellFormed
import QuantumBoard.Proofs.Success

/-! The operations of a cell. There are those of its kind (`cellOperation_of_mem`), and from these
alone come the facts about all of them: they are sound, and stay on the rows that the cell covers
and the rows of the registers that it reads. -/

namespace QuantumBoard

open Success

theorem Placed.mem_footprint {p : Placed} {r : Nat} :
    r ∈ p.footprint ↔ p.row ≤ r ∧ r < p.row + p.cell.size := by
  rw [footprint, List.mem_range'_1]

theorem Placed.row_mem_footprint {p : Placed} (wellFormed : p.cell.WellFormed) :
    p.row ∈ p.footprint := by
  have covers := wellFormed.covers
  rw [mem_footprint]
  omega

theorem Placed.nodup_footprint (p : Placed) : p.footprint.Nodup := by
  simp [footprint, List.nodup_range']

theorem Placed.length_footprint (p : Placed) : p.footprint.length = p.cell.size := by
  simp [footprint]

namespace Inputs

/-- The rows of a register, none when it is not bound. -/
def rows (inputs : Inputs) (register : Register) : List Nat := (inputs register).getD []

/-- Each register that is bound has one to sixteen rows. -/
def Sized (inputs : Inputs) : Prop :=
  ∀ register rows, inputs register = some rows → 1 ≤ rows.length ∧ rows.length ≤ 16

/-- A row of some register. -/
def Holds (inputs : Inputs) (row : Nat) : Prop :=
  ∃ register rows, inputs register = some rows ∧ row ∈ rows

theorem require_eq_ok {inputs : Inputs} {register : Register} {cell : String}
    {target rows : List Nat} : inputs.require register cell target = .ok rows ↔
      inputs register = some rows ∧ ∀ r ∈ rows, r ∉ target := by
  unfold require
  match inputs register with
  | none => simp
  | some bound =>
    by_cases overlap : bound.any (target.contains ·)
    · simp only [overlap, if_true, Option.some.injEq]
      grind
    · simp only [overlap, Option.some.injEq]
      grind

theorem rows_eq {inputs : Inputs} {register : Register} {bound : List Nat}
    (h : inputs register = some bound) : inputs.rows register = bound := by
  rw [rows, h, Option.getD_some]

/-- Reading registers succeeds when each is bound to rows other than the target's. -/
theorem mapM_require_eq_ok {inputs : Inputs} {cell : String} {target : List Nat}
    {needed : List Register} {registers : List (List Nat)} :
    needed.mapM (fun register => inputs.require register cell target) = .ok registers ↔
      (∀ register ∈ needed, ∃ rows, inputs register = some rows ∧ ∀ r ∈ rows, r ∉ target) ∧
        registers = needed.map inputs.rows := by
  induction needed generalizing registers with
  | nil => simp [pure, Except.pure, eq_comm]
  | cons register needed ih =>
    simp only [List.mapM_cons, bind_eq_ok, pure_eq_ok, require_eq_ok, ih, List.forall_mem_cons,
      List.map_cons]
    constructor
    · rintro ⟨rows, ⟨bound, apart⟩, -, ⟨others, rfl⟩, rfl⟩
      exact ⟨⟨⟨rows, bound, apart⟩, others⟩, by rw [rows_eq bound]⟩
    · rintro ⟨⟨⟨rows, bound, apart⟩, others⟩, rfl⟩
      exact ⟨rows, ⟨bound, apart⟩, _, ⟨others, rfl⟩, by rw [rows_eq bound]⟩

theorem Sized.width {inputs : Inputs} (sized : inputs.Sized) {register : Register}
    (bound : ∃ rows, inputs register = some rows) :
    1 ≤ (inputs.rows register).length ∧ (inputs.rows register).length ≤ 16 := by
  obtain ⟨rows, bound⟩ := bound
  rw [rows_eq bound]
  exact sized register rows bound

end Inputs

theorem Transform.length_inputs_le (t : Transform) : t.inputs.length ≤ 2 := by
  cases t <;> simp [inputs]

theorem ArithmeticGate.totalWidth_le {widths : List Nat} {bound : Nat}
    (h : ∀ w ∈ widths, w ≤ bound) : totalWidth widths ≤ widths.length * bound :=
  List.sum_le_card_nsmul widths bound h

/-- The kinds of cells that have no operations of their own. -/
def CellKind.isIdle : CellKind → Bool
  | control _ | parity _ | swap | input _ _ | display => true
  | _ => false

namespace Column

variable {inputs : Inputs} {p : Placed}

theorem cellOperations_of_isIdle (idle : p.cell.kind.isIdle = true) :
    cellOperations inputs p = .ok [] := by
  unfold cellOperations
  cases kind : p.cell.kind <;> simp_all [CellKind.isIdle]

/-- Cells without operations of their own have none together. -/
theorem mapM_of_isIdle {cells : List Placed} (idle : ∀ p ∈ cells, p.cell.kind.isIdle = true) :
    cells.mapM (cellOperations inputs) = .ok (cells.map fun _ => []) := by
  rw [mapM_eq_ok, List.forall₂_map_right_iff, List.forall₂_same]
  exact fun p hp => cellOperations_of_isIdle (idle p hp)

/-- What the operations of a cell can be, by the kind of the cell. -/
inductive CellOperation (inputs : Inputs) (p : Placed) : Operation → Prop
  | gate {g} : p.cell.kind = .gate g → CellOperation inputs p (.wire g p.row)
  | formula {axis rotation default e} : p.cell.kind = .formula axis rotation default →
      Formula.ofArgument default p.argument = .ok e →
      CellOperation inputs p (.wire (if rotation then .rotation axis e else .power axis e) p.row)
  | identity : p.cell.kind = .identity → CellOperation inputs p (.wire .identity p.row)
  | phase {z} : p.cell.kind = .scalar z → CellOperation inputs p (.phase z)
  | measured {basis op} : p.cell.kind = .measurement basis → op ∈ measure basis p.row →
      CellOperation inputs p op
  | rotation {axis sign rows op} : p.cell.kind = .inputRotation axis sign →
      inputs.require .a p.cell.id [p.row] = .ok rows →
      op ∈ inputRotation axis sign p.row rows → CellOperation inputs p op
  | rearrangement {r op} : p.cell.kind = .rearrangement r →
      op ∈ labelled p.cell.id (.register (.permutation (r.mapping p.cell.size))) p.footprint →
      CellOperation inputs p op
  | spectrum {s op} : p.cell.kind = .spectrum s →
      op ∈ labelled p.cell.id (.register (spectrumGate p.cell.size s)) p.footprint →
      CellOperation inputs p op
  | arithmetic {t ops op} : p.cell.kind = .arithmetic t →
      arithmetic t p.cell.id p.footprint inputs = .ok ops → op ∈ ops → CellOperation inputs p op
  | custom {d op} : p.cell.kind = .custom d → op ∈ custom d p.row → CellOperation inputs p op

theorem cellOperation_of_mem {ops : List Operation} (h : cellOperations inputs p = .ok ops)
    {op : Operation} (hop : op ∈ ops) : CellOperation inputs p op := by
  unfold cellOperations at h
  cases kind : p.cell.kind with
  | control _ | parity _ | swap | input _ _ | display =>
    rw [kind] at h
    cases h
    cases hop
  | gate g =>
    rw [kind] at h
    cases h
    obtain rfl := List.mem_singleton.mp hop
    exact .gate kind
  | formula axis rotation default =>
    rw [kind] at h
    simp only at h
    split at h
    · cases h
    · cases h
      obtain rfl := List.mem_singleton.mp hop
      exact .formula kind ‹_›
  | identity =>
    rw [kind] at h
    cases h
    obtain rfl := List.mem_singleton.mp hop
    exact .identity kind
  | scalar z =>
    rw [kind] at h
    cases h
    obtain rfl := List.mem_singleton.mp hop
    exact .phase kind
  | measurement basis =>
    rw [kind] at h
    cases h
    exact .measured kind hop
  | inputRotation axis sign =>
    rw [kind] at h
    simp only [bind_eq_ok, pure_eq_ok] at h
    obtain ⟨rows, required, rfl⟩ := h
    exact .rotation kind required hop
  | rearrangement r =>
    rw [kind] at h
    cases h
    exact .rearrangement kind hop
  | spectrum s =>
    rw [kind] at h
    cases h
    exact .spectrum kind hop
  | arithmetic t =>
    rw [kind] at h
    exact .arithmetic kind h hop
  | custom d =>
    rw [kind] at h
    cases h
    exact .custom kind hop
  | unsupported _ =>
    rw [kind] at h
    cases h

/-- An operation that a cell may have: a sound one on rows that the cell covers or reads. -/
structure Fits (inputs : Inputs) (p : Placed) (op : Operation) : Prop where
  sound : op.Sound
  rows : ∀ r ∈ op.rows, r ∈ p.footprint ∨ inputs.Holds r

theorem Fits.wire (wellFormed : p.cell.WellFormed) (g : WireGate) :
    Fits inputs p (.wire g p.row) where
  sound := trivial
  rows r hr := by
    obtain rfl : r = p.row := List.mem_singleton.mp hr
    exact .inl (Placed.row_mem_footprint wellFormed)

theorem Fits.measure (wellFormed : p.cell.WellFormed) (basis : Option WireGate) :
    ∀ op ∈ measure basis p.row, Fits inputs p op := by
  have measured : Fits inputs p (.measure p.row) :=
    ⟨trivial, (Fits.wire wellFormed .identity).rows⟩
  intro op hop
  match basis with
  | none =>
    obtain rfl := List.mem_singleton.mp hop
    exact measured
  | some g =>
    simp only [Column.measure, List.mem_cons, List.not_mem_nil, or_false] at hop
    rcases hop with rfl | rfl | rfl
    · exact Fits.wire wellFormed _
    · exact measured
    · exact Fits.wire wellFormed _

theorem Fits.inputRotation (wellFormed : p.cell.WellFormed) (axis : Axis) (sign : Float)
    {rows : List Nat} (bound : inputs .a = some rows) :
    ∀ op ∈ inputRotation axis sign p.row rows, Fits inputs p op := by
  intro op hop
  obtain ⟨k, hk, rfl⟩ := List.mem_mapIdx.mp hop
  refine ⟨trivial, fun r hr => ?_⟩
  rcases List.mem_append.mp hr with hr | hr
  · exact (Fits.wire wellFormed .identity).rows r (List.mem_append_left _ hr)
  · obtain rfl : r = rows[k] := List.mem_singleton.mp hr
    exact .inr ⟨.a, rows, bound, List.getElem_mem hk⟩

/-- A gate on exactly the rows that its cell covers. -/
theorem Fits.labelled {kind : GateKind} (sound : kind.Sound) (id : String) :
    ∀ op ∈ labelled id kind p.footprint, Fits inputs p op := by
  intro op hop
  obtain rfl := List.mem_singleton.mp hop
  exact ⟨sound, fun r hr => .inl (by simpa [Operation.ofGate, Operation.rows] using hr)⟩

/-- An arithmetic gate is built when the registers that it reads are bound, and to other rows than
those of its target. -/
theorem arithmetic_eq_ok {t : Transform} {id : String} {target : List Nat} {ops : List Operation} :
    arithmetic t id target inputs = .ok ops ↔
      (∀ register ∈ t.inputs, ∃ rows, inputs register = some rows ∧ ∀ r ∈ rows, r ∉ target) ∧
        ops = labelled id
          (.arithmetic ⟨t, target.length, (t.inputs.map inputs.rows).map List.length⟩)
          (target ++ (t.inputs.map inputs.rows).flatten) := by
  simp only [arithmetic, bind_eq_ok, pure_eq_ok, Inputs.mapM_require_eq_ok]
  constructor
  · rintro ⟨_, ⟨bound, rfl⟩, rfl⟩
    exact ⟨bound, rfl⟩
  · rintro ⟨bound, rfl⟩
    exact ⟨_, ⟨bound, rfl⟩, rfl⟩

theorem Fits.arithmetic (wellFormed : p.cell.WellFormed) (sized : inputs.Sized)
    {t : Transform} (kind : p.cell.kind = .arithmetic t) (id : String) {ops : List Operation}
    (h : arithmetic t id p.footprint inputs = .ok ops) : ∀ op ∈ ops, Fits inputs p op := by
  obtain ⟨bound, rfl⟩ := arithmetic_eq_ok.mp h
  have bound (register) (read : register ∈ t.inputs) : ∃ rows, inputs register = some rows :=
    (bound register read).imp fun _ h => h.1
  have widths : ∀ w ∈ (t.inputs.map inputs.rows).map List.length, 1 ≤ w ∧ w ≤ 16 := by
    simpa using fun register read => sized.width (bound register read)
  have covers : 1 ≤ p.footprint.length ∧ p.footprint.length ≤ 16 := by
    rw [Placed.length_footprint]
    exact ⟨wellFormed.covers, wellFormed.size_le (by simp [kind])⟩
  -- a target and two registers at most, each of sixteen rows at most
  have total := ArithmeticGate.totalWidth_le fun w hw => (widths w hw).2
  have few := t.length_inputs_le
  rw [List.length_map, List.length_map] at total
  intro op hop
  obtain rfl := List.mem_singleton.mp hop
  refine ⟨⟨covers.1, fun w hw => (widths w hw).1, ArithmeticGate.numQubits_of_lt ?_⟩, ?_⟩
  · show p.footprint.length +
      ArithmeticGate.totalWidth ((t.inputs.map inputs.rows).map List.length) < 2 ^ 32
    omega
  · intro r hr
    simp only [Operation.rows, Operation.ofGate, List.append_nil, List.mem_append,
      List.mem_flatten, List.mem_map] at hr
    rcases hr with hr | ⟨_, ⟨register, read, rfl⟩, hr⟩
    · exact .inl hr
    · obtain ⟨rows, held⟩ := bound register read
      rw [Inputs.rows_eq held] at hr
      exact .inr ⟨register, rows, held, hr⟩

theorem Fits.custom (wellFormed : p.cell.WellFormed) {d : Definition}
    (kind : p.cell.kind = .custom d) : ∀ op ∈ custom d p.row, Fits inputs p op := by
  have defined := wellFormed.definition d kind
  intro op hop
  match d with
  | .matrix g =>
    obtain ⟨width, sound⟩ : g.width = p.cell.size ∧ (GateKind.matrix g).Sound := defined
    obtain rfl := List.mem_singleton.mp hop
    refine ⟨sound, fun r hr => .inl ?_⟩
    rw [Placed.footprint, ← width]
    simpa [Operation.ofKind, Operation.ofGate, Operation.rows] using hr
  | .circuit ops =>
    obtain ⟨inner, hinner, rfl⟩ := List.mem_map.mp hop
    obtain ⟨sound, within⟩ := defined inner hinner
    refine ⟨sound, fun r hr => .inl ?_⟩
    have shifted : r ∈ inner.rows.map (· + p.row) := by
      rw [Operation.rows, List.map_append]
      exact hr
    obtain ⟨r', hr', rfl⟩ := List.mem_map.mp shifted
    have below := within r' hr'
    rw [Placed.mem_footprint]
    omega

/-- The operations of a cell are sound, and stay on its rows and those of the registers. -/
theorem cellOperations_fits (wellFormed : p.cell.WellFormed) (sized : inputs.Sized)
    {ops : List Operation} (h : cellOperations inputs p = .ok ops) :
    ∀ op ∈ ops, Fits inputs p op := by
  intro op hop
  cases cellOperation_of_mem h hop with
  | gate _ | formula _ _ | identity _ => exact Fits.wire wellFormed _
  | phase _ => exact ⟨trivial, fun _ none => absurd none List.not_mem_nil⟩
  | measured _ hop => exact Fits.measure wellFormed _ op hop
  | rotation _ required hop =>
    exact Fits.inputRotation wellFormed _ _ (Inputs.require_eq_ok.mp required).1 op hop
  | @rearrangement r _ _ hop =>
    have sound : (GateKind.register (.permutation (r.mapping p.cell.size))).Sound :=
      r.mapping_isRearrangement _
    exact Fits.labelled sound _ op hop
  | @spectrum s _ _ hop =>
    have sound : (GateKind.register (spectrumGate p.cell.size s)).Sound := by
      cases s <;> trivial
    exact Fits.labelled sound _ op hop
  | arithmetic kind compiled hop => exact Fits.arithmetic wellFormed sized kind _ compiled op hop
  | custom kind hop => exact Fits.custom wellFormed kind op hop

end Column

end QuantumBoard

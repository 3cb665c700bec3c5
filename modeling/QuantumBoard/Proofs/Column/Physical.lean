import Mathlib.Algebra.Group.Even
import QuantumBoard.Proofs.Column.Bracket
import QuantumBoard.Proofs.Column.Measurement
import QuantumBoard.Proofs.Column.Registers

/-! # Columns that can be built

A column builds when it is physical: its registers are bound once, its swap cells come in pairs,
and nothing is wrong with a cell by itself. If it is not, the error is that of a repeated register,
of the number of swap cells, or of the first cell with which something is wrong, in this order. -/

namespace QuantumBoard

open Success

/-- The registers that a cell reads, in the order in which it asks for them. -/
def CellKind.reads : CellKind → List Register
  | .arithmetic t => t.inputs
  | .inputRotation _ _ => [.a]
  | _ => []

namespace Column

/-- The cell is an input of a register that has an input cell in front of it. -/
def Repeats (cells : List Placed) (p : Placed) (register : Register) : Prop :=
  p.cell.kind.register? = some register ∧
    ∃ q ∈ cells, q.row < p.row ∧ q.cell.kind.register? = some register

/-- No register has two input cells. -/
def BindsOnce (cells : List Placed) : Prop := ∀ p ∈ cells, ∀ register, ¬Repeats cells p register

def Controlled (cells : List Placed) : Prop := ∃ p ∈ cells, p.cell.isControl = true

/-- The number of swap cells. -/
def swapCount (cells : List Placed) : Nat := cells.countP fun p => p.cell.kind = .swap

/-- What the cells of a column ask of each other and of their arguments. -/
structure Physical (cells : List Placed) : Prop where
  once : ∀ p ∈ cells, ∀ q ∈ cells, ∀ register, p.cell.kind.register? = some register →
    q.cell.kind.register? = some register → p = q
  swaps : Even (swapCount cells)
  supported : ∀ p ∈ cells, ∀ reason, p.cell.kind ≠ .unsupported reason
  bound : ∀ p ∈ cells, ∀ register ∈ p.cell.kind.reads, Binds cells register
  formulas : ∀ p ∈ cells, ∀ axis rotation default,
    p.cell.kind = .formula axis rotation default → ∃ e, Formula.ofArgument default p.argument = .ok e
  unmeasured : Controlled cells → ∀ p ∈ cells, p.cell.kind.measures = false

/-- What is wrong with a cell of a column, and the error for it. -/
inductive Wrong (cells : List Placed) (p : Placed) : ColumnError → Prop
  | unsupported {reason} : p.cell.kind = .unsupported reason →
      Wrong cells p (.unphysical p.cell.id reason)
  | missing {front register behind} : p.cell.kind.reads = front ++ register :: behind →
      (∀ other ∈ front, Binds cells other) → ¬Binds cells register →
      Wrong cells p (.missingInput register p.cell.id)
  | formula {axis rotation default e} : p.cell.kind = .formula axis rotation default →
      Formula.ofArgument default p.argument = .error e → Wrong cells p (.formula e)
  | measured : Controlled cells → p.cell.kind.measures = true →
      Wrong cells p (.unphysical p.cell.id "controlled measurement")

/-- The cell with the smallest row among those with a property. -/
def IsFirst (cells : List Placed) (P : Placed → Prop) (p : Placed) : Prop :=
  p ∈ cells ∧ P p ∧ ∀ q ∈ cells, q.row < p.row → ¬P q

/-- What is wrong with a column in the first place, and the error for it. -/
inductive Refused (cells : List Placed) : ColumnError → Prop
  | register {p register} : IsFirst cells (fun q => ∃ other, Repeats cells q other) p →
      Repeats cells p register → Refused cells (.duplicateInput register)
  | swaps : BindsOnce cells → ¬Even (swapCount cells) →
      Refused cells (.oddSwaps (swapCount cells))
  | cell {p e} : BindsOnce cells → Even (swapCount cells) →
      IsFirst cells (fun q => ∃ other, Wrong cells q other) p → Wrong cells p e → Refused cells e

/-! ## Cells in front of a cell -/

section

variable {cells : List Placed} (apart : Apart cells)

include apart

/-- The cells in front of a cell are those on smaller rows. -/
theorem Apart.mem_front_iff {front behind : List Placed} {p q : Placed}
    (split : cells = front ++ p :: behind) : q ∈ front ↔ q ∈ cells ∧ q.row < p.row := by
  subst split
  obtain ⟨-, rest, across⟩ := List.pairwise_append.mp apart
  refine ⟨fun hq => ⟨List.mem_append_left _ hq, (across q hq p List.mem_cons_self).1⟩, ?_⟩
  rintro ⟨hq, lower⟩
  rcases List.mem_append.mp hq with hq | hq
  · exact hq
  rcases List.mem_cons.mp hq with rfl | hq
  · exact absurd lower (Nat.lt_irrefl _)
  · exact absurd ((List.pairwise_cons.mp rest).1 q hq).1 (by omega)

theorem Apart.isFirst_iff {P : Placed → Prop} {p : Placed} : IsFirst cells P p ↔
    ∃ front behind, cells = front ++ p :: behind ∧ P p ∧ ∀ q ∈ front, ¬P q := by
  constructor
  · rintro ⟨hp, holds, least⟩
    obtain ⟨front, behind, split⟩ := List.append_of_mem hp
    refine ⟨front, behind, split, holds, fun q hq => ?_⟩
    obtain ⟨hq, lower⟩ := (apart.mem_front_iff split).mp hq
    exact least q hq lower
  · rintro ⟨front, behind, split, holds, least⟩
    refine ⟨?_, holds, fun q hq lower => least q ((apart.mem_front_iff split).mpr ⟨hq, lower⟩)⟩
    rw [split]
    exact List.mem_append_right _ List.mem_cons_self

/-- A traversal of the cells fails as the first cell for which a step fails. -/
theorem Apart.firstFault_iff {f : Placed → Except ColumnError (List Operation)}
    {Fails : Placed → ColumnError → Prop} (fails : ∀ p ∈ cells, ∀ e, f p = .error e ↔ Fails p e)
    {e : ColumnError} : FirstFault f cells e ↔
      ∃ p, IsFirst cells (fun q => ∃ other, Fails q other) p ∧ Fails p e := by
  have succeeds : ∀ q ∈ cells, (∃ group, f q = .ok group) ↔ ¬∃ other, Fails q other := by
    intro q hq
    simp only [← fails q hq]
    cases f q <;> simp
  constructor
  · rintro ⟨front, p, behind, split, before, failed⟩
    have wrong := (fails p (by simp [split]) e).mp failed
    refine ⟨p, apart.isFirst_iff.mpr ⟨front, behind, split, ⟨e, wrong⟩, fun q hq => ?_⟩, wrong⟩
    exact (succeeds q (by simp [split, hq])).mp (before q hq)
  · rintro ⟨p, first, wrong⟩
    obtain ⟨front, behind, split, -, before⟩ := apart.isFirst_iff.mp first
    refine ⟨front, p, behind, split, fun q hq => ?_, (fails p first.1 e).mpr wrong⟩
    exact (succeeds q (by simp [split, hq])).mpr (before q hq)

end

/-! ## Registers -/

theorem inputsDiffer_iff {cells : List Placed} (apart : Apart cells) :
    InputsDiffer cells ↔ BindsOnce cells := by
  unfold BindsOnce Repeats
  simp only [CellKind.register?_eq_some]
  constructor
  · rintro differ p hp register ⟨⟨reversed, kind⟩, q, hq, lower, reversed', kind'⟩
    obtain ⟨front, behind, split⟩ := List.append_of_mem hp
    have before := (apart.mem_front_iff split).mpr ⟨hq, lower⟩
    rw [split] at differ
    exact (List.pairwise_append.mp differ).2.2 q before p List.mem_cons_self register reversed'
      reversed kind' kind
  · intro once
    refine apart.imp_of_mem fun {q p} hq hp order register reversed reversed' kind' kind => ?_
    exact once p hp register ⟨⟨reversed', kind⟩, q, hq, order.1, reversed, kind'⟩

section

variable {cells : List Placed} (apart : Apart cells)

include apart

theorem bindInputs_ok_iff : (∃ inputs, bindInputs cells = .ok inputs) ↔
    BindsOnce cells := by
  rw [← inputsDiffer_iff apart]
  refine ⟨fun ⟨_, bound⟩ => differ_of_bindInputs bound, fun differ => ?_⟩
  obtain ⟨inputs, bound, -⟩ := bindInputs_ok differ
  exact ⟨inputs, bound⟩

/-- A cell repeats a register that the cells in front of it bind. -/
theorem repeats_iff {front behind : List Placed} {p : Placed}
    (split : cells = front ++ p :: behind) {register : Register} : Repeats cells p register ↔
      p.cell.kind.register? = some register ∧ Binds front register := by
  unfold Repeats Binds
  simp only [apart.mem_front_iff split, and_assoc]

/-- In front of a cell, the column repeats what the cells there repeat. -/
theorem front_differs_iff {front behind : List Placed} {p : Placed}
    (split : cells = front ++ p :: behind) :
    InputsDiffer front ↔ ∀ q ∈ front, ¬∃ register, Repeats cells q register := by
  rw [inputsDiffer_iff (List.pairwise_append.mp (split ▸ apart)).1]
  refine forall₂_congr fun q hq => ?_
  have lower := ((apart.mem_front_iff split).mp hq).2
  rw [not_exists]
  refine forall_congr' fun register => not_congr (and_congr_right fun _ => exists_congr fun r => ?_)
  rw [apart.mem_front_iff split]
  constructor
  · rintro ⟨⟨hr, -⟩, order, input⟩
    exact ⟨hr, order, input⟩
  · rintro ⟨hr, order, input⟩
    exact ⟨⟨hr, Nat.lt_trans order lower⟩, order, input⟩

/-- Binding fails for the first cell whose register has an input cell in front of it. -/
theorem bindInputs_eq_error {e : ColumnError} : bindInputs cells = .error e ↔
    ∃ p register, IsFirst cells (fun q => ∃ other, Repeats cells q other) p ∧
      Repeats cells p register ∧ e = .duplicateInput register := by
  rw [bindInputs_eq, foldlM_eq_error]
  constructor
  · rintro ⟨front, p, behind, inputs, split, led, failed⟩
    obtain ⟨register, input, taken, rfl⟩ := bindInput_eq_error.mp failed
    have differ := differ_of_bindInputs led
    have again := (repeats_iff apart split).mpr ⟨input, (bound_iff_binds differ led).mp taken⟩
    refine ⟨p, register, apart.isFirst_iff.mpr ?_, again, rfl⟩
    exact ⟨front, behind, split, ⟨register, again⟩, (front_differs_iff apart split).mp differ⟩
  · rintro ⟨p, register, first, again, rfl⟩
    obtain ⟨front, behind, split, -, before⟩ := apart.isFirst_iff.mp first
    have differ := (front_differs_iff apart split).mpr before
    obtain ⟨inputs, led, -⟩ := bindInputs_ok differ
    obtain ⟨input, binds⟩ := (repeats_iff apart split).mp again
    refine ⟨front, p, behind, inputs, split, led, bindInput_eq_error.mpr ?_⟩
    exact ⟨register, input, (bound_iff_binds differ led).mpr binds, rfl⟩

end

/-! ## Swaps -/

theorem length_swapRows (cells : List Placed) :
    (cells.filterMap swapRow?).length = swapCount cells := by
  rw [List.length_filterMap_eq_countP, swapCount]
  refine List.countP_congr fun p _ => ?_
  rw [decide_eq_true_iff, Option.isSome_iff_exists]
  simp [swapRow?_eq_some]

theorem swaps_ok_iff {cells : List Placed} :
    (∃ exchanges, swaps cells = .ok exchanges) ↔ Even (swapCount cells) := by
  simp only [swaps_eq_ok, length_swapRows, exists_and_left, exists_eq, and_true, Nat.even_iff]

theorem swaps_eq_error {cells : List Placed} {e : ColumnError} : swaps cells = .error e ↔
    ¬Even (swapCount cells) ∧ e = .oddSwaps (swapCount cells) := by
  unfold swaps
  simp only [length_swapRows, Nat.even_iff]
  split <;> simp_all [eq_comm]

/-! ## Cells -/

theorem controlled_iff {cells : List Placed} :
    (bracket cells).controls ≠ [] ↔ Controlled cells := by
  constructor
  · intro some
    obtain ⟨r, hr⟩ := List.exists_mem_of_ne_nil _ some
    obtain ⟨p, hp, control, -⟩ := mem_bracketRows.mp (mem_bracketRows_of_controls hr)
    exact ⟨p, hp, control⟩
  · rintro ⟨p, hp, control⟩
    have row : p.row ∈ bracketRows cells := mem_bracketRows.mpr ⟨p, hp, control, rfl⟩
    rcases List.mem_append.mp row with row | row
    · exact List.ne_nil_of_mem (mem_bracket_controls.mpr (.inl row))
    · obtain ⟨first, others, parities⟩ := List.exists_cons_of_ne_nil (List.ne_nil_of_mem row)
      exact List.ne_nil_of_mem (mem_bracket_controls.mpr (.inr (by rw [parities]; rfl)))

/-- What can be wrong, case by case; for a given kind all but one of the cases fall away. -/
theorem wrong_iff {cells : List Placed} {p : Placed} {e : ColumnError} : Wrong cells p e ↔
    (∃ reason, p.cell.kind = .unsupported reason ∧ e = .unphysical p.cell.id reason) ∨
    (∃ front register behind, p.cell.kind.reads = front ++ register :: behind ∧
      (∀ other ∈ front, Binds cells other) ∧ ¬Binds cells register ∧
        e = .missingInput register p.cell.id) ∨
    (∃ axis rotation default fault, p.cell.kind = .formula axis rotation default ∧
      Formula.ofArgument default p.argument = .error fault ∧ e = .formula fault) ∨
    (Controlled cells ∧ p.cell.kind.measures = true ∧
      e = .unphysical p.cell.id "controlled measurement") := by
  constructor
  · rintro (kind | ⟨reads, front, missing⟩ | ⟨kind, failed⟩ | ⟨controlled, measures⟩)
    · exact .inl ⟨_, kind, rfl⟩
    · exact .inr (.inl ⟨_, _, _, reads, front, missing, rfl⟩)
    · exact .inr (.inr (.inl ⟨_, _, _, _, kind, failed, rfl⟩))
    · exact .inr (.inr (.inr ⟨controlled, measures, rfl⟩))
  · rintro (⟨_, kind, rfl⟩ | ⟨_, _, _, reads, front, missing, rfl⟩ |
      ⟨_, _, _, _, kind, failed, rfl⟩ | ⟨controlled, measures, rfl⟩)
    · exact .unsupported kind
    · exact .missing reads front missing
    · exact .formula kind failed
    · exact .measured controlled measures

/-- With a cell that measures, nothing can be wrong but that it is controlled. -/
theorem wrong_iff_controlled {cells : List Placed} {p : Placed} {e : ColumnError}
    (measures : p.cell.kind.measures = true) : Wrong cells p e ↔
      Controlled cells ∧ e = .unphysical p.cell.id "controlled measurement" := by
  rw [wrong_iff]
  cases kind : p.cell.kind <;> simp_all [CellKind.measures, CellKind.reads]

section

variable {cells : List Placed} (apart : Apart cells) {inputs : Inputs}
  (bound : bindInputs cells = .ok inputs) {p : Placed} (hp : p ∈ cells) {e : ColumnError}

include apart bound hp

/-- What fails with a cell that does not measure is what is wrong with it. -/
theorem cellOperations_eq_error (quiet : p.cell.kind.measures = false) :
    cellOperations inputs p = .error e ↔ Wrong cells p e := by
  have binds : ∀ register, inputs register ≠ none ↔ Binds cells register := fun _ =>
    bound_iff_binds (differ_of_bindInputs bound) bound
  simp only [wrong_iff, quiet, Bool.false_eq_true, false_and, and_false, or_false]
  unfold cellOperations
  cases kind : p.cell.kind with
  | formula axis rotation default =>
    cases formula : Formula.ofArgument default p.argument <;>
      simp [CellKind.reads, formula, eq_comm]
  -- a register that is bound is never among the rows of the cell, so it can only be missing
  | inputRotation axis sign =>
    have row : inputs.Clear [p.row] := by
      refine bindInputs_clear_row apart bound hp fun register reversed input => ?_
      cases kind.symm.trans input
    simp [CellKind.reads, Inputs.require_eq_error row, ← binds, List.cons_eq_append_iff]
  | arithmetic t =>
    have clear : inputs.Clear p.footprint := by
      refine bindInputs_clear apart bound hp fun register reversed input => ?_
      cases kind.symm.trans input
    simp only [arithmetic, bind_eq_error, pure_ne_error, mapM_require_eq_error clear binds]
    simp [CellKind.reads]
  | unsupported reason => simp [CellKind.reads, eq_comm]
  | _ => simp [CellKind.reads]

/-- Under the controls of the column, a cell fails as what is wrong with it. -/
theorem controlledOperations_eq_error_iff_wrong :
    controlledOperations inputs (bracket cells).controls p = .error e ↔ Wrong cells p e := by
  rw [controlledOperations_eq_error, controlled_iff]
  cases measures : p.cell.kind.measures with
  | false =>
    rw [cellOperations_eq_error apart bound hp measures]
    refine or_iff_left fun ⟨ops, own, ⟨_, found⟩, _⟩ => ?_
    rw [any_isMeasurement own, measures] at found
    cases found
  | true =>
    obtain ⟨ops, own, found⟩ := exists_measurement inputs measures
    rw [wrong_iff_controlled measures, own]
    simp only [reduceCtorEq, false_or, Except.ok.injEq, exists_eq_left', found, and_true]

end

/-! ## Columns -/

theorem exists_first_unbound {cells : List Placed} {needed : List Register} {register : Register}
    (asked : register ∈ needed) (unbound : ¬Binds cells register) :
    ∃ front first behind, needed = front ++ first :: behind ∧
      (∀ other ∈ front, Binds cells other) ∧ ¬Binds cells first := by
  classical
  obtain ⟨first, found⟩ : ∃ first, needed.find? (fun other => ¬Binds cells other) = some first :=
    Option.isSome_iff_exists.mp (List.find?_isSome.mpr ⟨register, asked, decide_eq_true unbound⟩)
  obtain ⟨missing, front, behind, split, before⟩ := List.find?_eq_some_iff_append.mp found
  refine ⟨front, first, behind, split, fun other ho => ?_, of_decide_eq_true missing⟩
  simpa using before other ho

section

variable {cells : List Placed} (apart : Apart cells)

include apart

theorem mapM_eq_error_iff_wrong {inputs : Inputs} (bound : bindInputs cells = .ok inputs)
    {e : ColumnError} :
    cells.mapM (controlledOperations inputs (bracket cells).controls) = .error e ↔
      ∃ p, IsFirst cells (fun q => ∃ other, Wrong cells q other) p ∧ Wrong cells p e := by
  rw [mapM_eq_error]
  exact apart.firstFault_iff fun p hp e => controlledOperations_eq_error_iff_wrong apart bound hp

/-- A column that does not build fails as the first thing that is wrong with it. -/
theorem build_eq_error {e : ColumnError} : build cells = .error e ↔ Refused cells e := by
  simp only [build, parts, bind_eq_error, pure_ne_error, and_false, exists_false, or_false,
    swaps_eq_error]
  constructor
  · rintro (repeated | ⟨inputs, bound, ⟨odd, rfl⟩ | ⟨exchanges, swapped, failed⟩⟩)
    · obtain ⟨p, register, first, again, rfl⟩ := (bindInputs_eq_error apart).mp repeated
      exact .register first again
    · exact .swaps ((bindInputs_ok_iff apart).mp ⟨inputs, bound⟩) odd
    · obtain ⟨p, first, wrong⟩ := (mapM_eq_error_iff_wrong apart bound).mp failed
      exact .cell ((bindInputs_ok_iff apart).mp ⟨inputs, bound⟩)
        (swaps_ok_iff.mp ⟨exchanges, swapped⟩) first wrong
  · intro refused
    cases refused with
    | register first again =>
      exact .inl ((bindInputs_eq_error apart).mpr ⟨_, _, first, again, rfl⟩)
    | swaps once odd =>
      obtain ⟨inputs, bound⟩ := (bindInputs_ok_iff apart).mpr once
      exact .inr ⟨inputs, bound, .inl ⟨odd, rfl⟩⟩
    | cell once even first wrong =>
      obtain ⟨inputs, bound⟩ := (bindInputs_ok_iff apart).mpr once
      obtain ⟨exchanges, swapped⟩ := swaps_ok_iff.mpr even
      exact .inr ⟨inputs, bound, .inr ⟨exchanges, swapped,
        (mapM_eq_error_iff_wrong apart bound).mpr ⟨_, first, wrong⟩⟩⟩

/-- A column builds when nothing is wrong with it. -/
theorem build_ok_iff : (∃ ops, build cells = .ok ops) ↔
    BindsOnce cells ∧ Even (swapCount cells) ∧ ∀ p ∈ cells, ∀ e, ¬Wrong cells p e := by
  constructor
  · rintro ⟨ops, built⟩
    obtain ⟨ps, split, -⟩ := build_eq_ok.mp built
    obtain ⟨inputs, exchanges, groups, bound, swapped, grouped, -⟩ := parts_eq_ok.mp split
    refine ⟨(bindInputs_ok_iff apart).mp ⟨inputs, bound⟩, swaps_ok_iff.mp ⟨exchanges, swapped⟩,
      fun p hp e wrong => ?_⟩
    obtain ⟨group, -, own⟩ := ok_of_mem_mapM grouped hp
    cases own.symm.trans ((controlledOperations_eq_error_iff_wrong apart bound hp).mpr wrong)
  · rintro ⟨once, even, right⟩
    obtain ⟨inputs, bound⟩ := (bindInputs_ok_iff apart).mpr once
    obtain ⟨exchanges, swapped⟩ := swaps_ok_iff.mpr even
    obtain ⟨groups, grouped⟩ : ∃ groups,
        cells.mapM (controlledOperations inputs (bracket cells).controls) = .ok groups := by
      refine exists_mapM_eq_ok fun p hp => ?_
      cases own : controlledOperations inputs (bracket cells).controls p with
      | ok group => exact ⟨group, rfl⟩
      | error e =>
        exact absurd ((controlledOperations_eq_error_iff_wrong apart bound hp).mp own)
          (right p hp e)
    exact ⟨_, build_eq_ok.mpr
      ⟨_, parts_eq_ok.mpr ⟨inputs, exchanges, groups, bound, swapped, grouped, rfl⟩, rfl⟩⟩

/-- A column is physical when nothing is wrong with it. -/
theorem physical_iff : Physical cells ↔
    BindsOnce cells ∧ Even (swapCount cells) ∧ ∀ p ∈ cells, ∀ e, ¬Wrong cells p e := by
  constructor
  · intro physical
    refine ⟨fun p hp register ⟨input, q, hq, order, input'⟩ => ?_, physical.swaps,
      fun p hp e wrong => ?_⟩
    · rw [physical.once p hp q hq register input input'] at order
      exact Nat.lt_irrefl _ order
    cases wrong with
    | unsupported kind => exact physical.supported p hp _ kind
    | missing reads _ unbound => exact unbound (physical.bound p hp _ (by simp [reads]))
    | formula kind failed =>
      obtain ⟨e, accepted⟩ := physical.formulas p hp _ _ _ kind
      cases accepted.symm.trans failed
    | measured controlled measures =>
      rw [physical.unmeasured controlled p hp] at measures
      cases measures
  · rintro ⟨once, even, right⟩
    refine ⟨fun p hp q hq register input input' => ?_, even,
      fun p hp reason kind => right p hp _ (.unsupported kind), fun p hp register hr => ?_,
      fun p hp axis rotation default kind => ?_, fun controlled p hp => ?_⟩
    · by_contra other
      rcases apart.front_or_behind hp hq other with ⟨order, -⟩ | ⟨order, -⟩
      · exact once q hq register ⟨input', p, hp, order, input⟩
      · exact once p hp register ⟨input, q, hq, order, input'⟩
    · by_contra unbound
      obtain ⟨front, first, behind, reads, before, missing⟩ := exists_first_unbound hr unbound
      exact right p hp _ (.missing reads before missing)
    · cases formula : Formula.ofArgument default p.argument with
      | ok e => exact ⟨e, rfl⟩
      | error e => exact absurd (.formula kind formula) (right p hp _)
    · rw [← Bool.not_eq_true]
      exact fun measures => right p hp _ (.measured controlled measures)

end

/-- A column builds just when it is physical, and measures when one of its cells does; if it does
not build, the error is for what is wrong with it in the first place. -/
theorem build_ok_iff_physical {custom : CustomGates} {entries : List Json} {cells : List Placed}
    (resolved : resolve custom entries = .ok cells) :
    ((∃ ops, build cells = .ok ops) ↔ Physical cells) ∧
      (∀ e, build cells = .error e ↔ Refused cells e) ∧
      ∀ ops, build cells = .ok ops →
        (ops.any Operation.isMeasurement = true ↔ ∃ p ∈ cells, p.cell.kind.measures = true) := by
  have apart := apart_of_resolve resolved
  exact ⟨(build_ok_iff apart).trans (physical_iff apart).symm, fun e => build_eq_error apart,
    fun ops built => build_isMeasurement built⟩

/-- A custom gate that measures inside. -/
def hiddenMeasurement : Cell :=
  ⟨"~m", 1, .custom (.circuit [.wire .hadamard 0, .measure 0])⟩

/-- The gate alone, which is physical, and under a control in front of a postselection. -/
def measuringCells : List Placed := [⟨0, hiddenMeasurement, none⟩]

def steeredMeasurementCells : List Placed :=
  [⟨0, hiddenMeasurement, none⟩, ⟨1, ⟨"•", 1, .control none⟩, none⟩,
    ⟨2, ⟨"|0⟩⟨0|", 1, .unsupported "post-selection is not supported"⟩, none⟩]

theorem resolve_measuring : resolve [hiddenMeasurement] [.text "~m"] = .ok measuringCells :=
  @resolve_texts [hiddenMeasurement] ["~m"] [hiddenMeasurement] (by decide +kernel) (by decide)

theorem resolve_steeredMeasurement :
    resolve [hiddenMeasurement] [.text "~m", .text "•", .text "|0⟩⟨0|"] =
      .ok steeredMeasurementCells :=
  @resolve_texts [hiddenMeasurement] ["~m", "•", "|0⟩⟨0|"]
    (steeredMeasurementCells.map Placed.cell) (by decide +kernel) (by decide)

/-- Of the two things wrong with the second column, the measurement stands first. -/
theorem build_steeredMeasurement :
    (∃ ops, build measuringCells = .ok ops) ∧ ¬Physical steeredMeasurementCells ∧
      build steeredMeasurementCells = .error (.unphysical "~m" "controlled measurement") := by
  obtain ⟨accepted, -, -⟩ := build_ok_iff_physical resolve_measuring
  obtain ⟨rejected, reported, -⟩ := build_ok_iff_physical resolve_steeredMeasurement
  have alone : Physical measuringCells := by
    constructor <;>
      simp [measuringCells, hiddenMeasurement, swapCount, CellKind.reads, Controlled,
        Cell.isControl, CellKind.register?]
  have wrong : Wrong steeredMeasurementCells ⟨0, hiddenMeasurement, none⟩
      (.unphysical "~m" "controlled measurement") :=
    .measured ⟨_, List.mem_cons_of_mem _ List.mem_cons_self, rfl⟩ rfl
  have failed : build steeredMeasurementCells =
      .error (.unphysical "~m" "controlled measurement") := by
    refine (reported _).mpr (.cell ?_ ?_ ⟨List.mem_cons_self, ⟨_, wrong⟩, ?_⟩ wrong)
    · simp [BindsOnce, Repeats, steeredMeasurementCells, hiddenMeasurement, CellKind.register?]
    · simp [swapCount, steeredMeasurementCells, hiddenMeasurement]
    · exact fun q _ lower => absurd lower (Nat.not_lt_zero _)
  refine ⟨accepted.mpr alone, fun physical => ?_, failed⟩
  obtain ⟨ops, built⟩ := rejected.mpr physical
  cases built.symm.trans failed

end Column

end QuantumBoard

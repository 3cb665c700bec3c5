import QuantumBoard.Proofs.Column.Resolve
import QuantumBoard.Proofs.Column.Build

/-! The registers of a column. Each holds the rows of an input cell of its own, so the rows of
registers are apart from each other and from the rows of all other cells. Binding them fails only
when two cells are inputs of the same register, and a register is bound just when it has one. -/

namespace QuantumBoard

open Success

/-- The register that a cell is an input of. -/
def CellKind.register? : CellKind → Option Register
  | .input register _ => some register
  | _ => none

theorem CellKind.register?_eq_some {kind : CellKind} {register : Register} :
    kind.register? = some register ↔ ∃ reversed, kind = .input register reversed := by
  cases kind <;> simp [register?]

namespace Inputs

/-- Registers with rows that are all different. -/
structure Separate (inputs : Inputs) : Prop where
  nodup : ∀ register rows, inputs register = some rows → rows.Nodup
  disjoint : ∀ register rows other rows', inputs register = some rows →
    inputs other = some rows' → register ≠ other → rows.Disjoint rows'

/-- No register has one of the rows. -/
def Clear (inputs : Inputs) (target : List Nat) : Prop :=
  ∀ register rows, inputs register = some rows → ∀ r ∈ rows, r ∉ target

/-- A cell that stands on other rows than the registers never finds one among its rows. -/
theorem require_eq_error {inputs : Inputs} {register : Register} {cell : String}
    {target : List Nat} {e : ColumnError} (clear : inputs.Clear target) :
    inputs.require register cell target = .error e ↔
      inputs register = none ∧ e = .missingInput register cell := by
  unfold require
  match hbound : inputs register with
  | none => simp [eq_comm]
  | some bound =>
    have apart : bound.any (target.contains ·) = false := by
      rw [List.any_eq_false]
      intro r hr
      simpa using clear register bound hbound r hr
    simp only [apart]
    exact ⟨nofun, nofun⟩

end Inputs

namespace Column

theorem mem_inputRows {reversed : Bool} {p : Placed} {r : Nat} :
    r ∈ inputRows reversed p ↔ r ∈ p.footprint := by
  unfold inputRows
  split <;> simp

theorem nodup_inputRows (reversed : Bool) (p : Placed) : (inputRows reversed p).Nodup := by
  unfold inputRows
  split
  · exact List.nodup_reverse.mpr p.nodup_footprint
  · exact p.nodup_footprint

section

variable {cells : List Placed} (apart : Apart cells) {inputs : Inputs}
  (bound : bindInputs cells = .ok inputs)

include apart bound

theorem bindInputs_separate : inputs.Separate where
  nodup register rows h := by
    obtain ⟨p, -, reversed, -, rfl⟩ := bindInputs_source bound register rows h
    exact nodup_inputRows reversed p
  disjoint register rows other rows' h h' different := by
    obtain ⟨p, hp, reversed, kind, rfl⟩ := bindInputs_source bound register rows h
    obtain ⟨q, hq, reversed', kind', rfl⟩ := bindInputs_source bound other rows' h'
    have pq : p ≠ q := by
      rintro rfl
      rw [kind] at kind'
      cases kind'
      exact different rfl
    intro r hr hr'
    exact apart.footprint_disjoint hp hq pq (mem_inputRows.mp hr) (mem_inputRows.mp hr')

/-- The rows of a cell that is no input are rows of no register. -/
theorem bindInputs_clear {p : Placed} (hp : p ∈ cells)
    (plain : ∀ register reversed, p.cell.kind ≠ .input register reversed) :
    inputs.Clear p.footprint := by
  intro register rows h r hr covered
  obtain ⟨q, hq, reversed, kind, rfl⟩ := bindInputs_source bound register rows h
  have other : p ≠ q := by
    rintro rfl
    exact plain register reversed kind
  exact apart.footprint_disjoint hp hq other covered (mem_inputRows.mp hr)

/-- The row of a cell that is no input is a row of no register. -/
theorem bindInputs_clear_row {p : Placed} (hp : p ∈ cells)
    (plain : ∀ register reversed, p.cell.kind ≠ .input register reversed) :
    inputs.Clear [p.row] := by
  intro register rows given r hr row
  obtain rfl := List.mem_singleton.mp row
  obtain ⟨q, hq, reversed, kind, rfl⟩ := bindInputs_source bound register rows given
  refine apart.row_not_mem_footprint hq hp (fun same => ?_) (mem_inputRows.mp hr)
  exact plain register reversed (same ▸ kind)

end

/-! ## Registers that are bound once -/

/-- No two of the cells are inputs of the same register. -/
def InputsDiffer (cells : List Placed) : Prop :=
  cells.Pairwise fun p q => ∀ register reversed reversed',
    p.cell.kind = .input register reversed → q.cell.kind ≠ .input register reversed'

/-- A cell is bound when its register has no rows yet; the other registers stay as they are. -/
theorem bindInput_ok (inputs : Inputs) (p : Placed) (fresh : ∀ register reversed,
    p.cell.kind = .input register reversed → inputs register = none) :
    ∃ inputs', bindInput inputs p = .ok inputs' ∧
      (∀ register reversed, p.cell.kind = .input register reversed →
        inputs' register = some (inputRows reversed p)) ∧
      ∀ other, (∀ reversed, p.cell.kind ≠ .input other reversed) →
        inputs' other = inputs other := by
  unfold bindInput
  split
  · rename_i register reversed kind
    refine ⟨_, Inputs.bind_eq_ok.mpr ⟨fresh register reversed kind, rfl⟩, ?_, ?_⟩
    · intro other reversed' kind'
      cases kind.symm.trans kind'
      exact if_pos rfl
    · intro other different
      refine if_neg fun same => ?_
      rw [same] at different
      exact different reversed kind
  · rename_i plain
    exact ⟨inputs, rfl, fun register reversed kind => absurd kind (plain register reversed),
      fun _ _ => rfl⟩

/-- Binding cells of different registers binds each to its own rows. -/
theorem foldlM_bindInput_ok {cells : List Placed} (differ : InputsDiffer cells) (inputs : Inputs)
    (fresh : ∀ p ∈ cells, ∀ register reversed,
      p.cell.kind = .input register reversed → inputs register = none) :
    ∃ inputs', cells.foldlM bindInput inputs = .ok inputs' ∧
      (∀ register rows, inputs register = some rows → inputs' register = some rows) ∧
      ∀ p ∈ cells, ∀ register reversed, p.cell.kind = .input register reversed →
        inputs' register = some (inputRows reversed p) := by
  induction cells generalizing inputs with
  | nil => exact ⟨inputs, rfl, fun _ _ h => h, nofun⟩
  | cons p cells ih =>
    obtain ⟨others, differ⟩ := List.pairwise_cons.mp differ
    obtain ⟨next, step, own, same⟩ := bindInput_ok inputs p (fresh p List.mem_cons_self)
    -- no later cell has the register that is bound now
    have fresh' : ∀ q ∈ cells, ∀ register reversed,
        q.cell.kind = .input register reversed → next register = none := by
      intro q hq register reversed kind
      rw [same register fun reversed' kind' => others q hq register reversed' reversed kind' kind]
      exact fresh q (List.mem_cons_of_mem _ hq) register reversed kind
    obtain ⟨inputs', rest, kept, bound⟩ := ih differ next fresh'
    refine ⟨inputs', ?_, fun register rows h => ?_, fun q hq register reversed kind => ?_⟩
    · rw [List.foldlM_cons, bind_eq_ok]
      exact ⟨next, step, rest⟩
    · refine kept register rows ((same register fun reversed kind => ?_).trans h)
      rw [fresh p List.mem_cons_self register reversed kind] at h
      cases h
    · rcases List.mem_cons.mp hq with rfl | hq
      · exact kept register _ (own register reversed kind)
      · exact bound q hq register reversed kind

/-- Inputs of different registers are all bound. -/
theorem bindInputs_ok {cells : List Placed} (differ : InputsDiffer cells) :
    ∃ inputs, bindInputs cells = .ok inputs ∧ ∀ p ∈ cells, ∀ register reversed,
      p.cell.kind = .input register reversed → inputs register = some (inputRows reversed p) := by
  obtain ⟨inputs, bound, -, each⟩ :=
    foldlM_bindInput_ok differ Inputs.empty fun _ _ _ _ _ => rfl
  exact ⟨inputs, bound, each⟩

/-! ## Registers that are bound -/

/-- The register has an input cell in the column. -/
def Binds (cells : List Placed) (register : Register) : Prop :=
  ∃ p ∈ cells, p.cell.kind.register? = some register

theorem bindInput_eq_error {inputs : Inputs} {p : Placed} {e : ColumnError} :
    bindInput inputs p = .error e ↔ ∃ register, p.cell.kind.register? = some register ∧
      inputs register ≠ none ∧ e = .duplicateInput register := by
  unfold bindInput
  split
  · rename_i register reversed kind
    unfold Inputs.bind
    rw [kind]
    cases bound : inputs register <;> simp [CellKind.register?, bound, eq_comm]
  · rename_i plain
    have none : p.cell.kind.register? = none := by
      rw [Option.eq_none_iff_forall_ne_some]
      intro register same
      obtain ⟨reversed, kind⟩ := CellKind.register?_eq_some.mp same
      exact plain register reversed kind
    simp [none]

/-- A register has rows just when it has an input cell. -/
theorem bound_iff_binds {cells : List Placed} {inputs : Inputs} (differ : InputsDiffer cells)
    (bound : bindInputs cells = .ok inputs) {register : Register} :
    inputs register ≠ none ↔ Binds cells register := by
  constructor
  · intro some
    obtain ⟨rows, given⟩ := Option.ne_none_iff_exists'.mp some
    obtain ⟨p, hp, reversed, kind, -⟩ := bindInputs_source bound register rows given
    exact ⟨p, hp, CellKind.register?_eq_some.mpr ⟨reversed, kind⟩⟩
  · rintro ⟨p, hp, input⟩
    obtain ⟨reversed, kind⟩ := CellKind.register?_eq_some.mp input
    obtain ⟨inputs', bound', each⟩ := bindInputs_ok differ
    cases bound.symm.trans bound'
    simp [each p hp register reversed kind]

/-- Registers can only be bound once. -/
theorem differ_of_bindInputs {cells : List Placed} {inputs : Inputs}
    (bound : bindInputs cells = .ok inputs) : InputsDiffer cells := by
  induction cells using List.reverseRecOn generalizing inputs with
  | nil => exact List.Pairwise.nil
  | append_singleton front p ih =>
    rw [bindInputs_eq, List.foldlM_append, bind_eq_ok] at bound
    obtain ⟨before, led, last⟩ := bound
    have differ := ih led
    refine List.pairwise_append.mpr ⟨differ, List.pairwise_singleton _ _, ?_⟩
    intro q hq p' hp' register reversed reversed' kind kind'
    obtain rfl := List.mem_singleton.mp hp'
    have taken : before register ≠ none := (bound_iff_binds differ led).mpr
      ⟨q, hq, CellKind.register?_eq_some.mpr ⟨reversed, kind⟩⟩
    have fails : bindInput before p' = .error (.duplicateInput register) :=
      bindInput_eq_error.mpr
        ⟨register, CellKind.register?_eq_some.mpr ⟨reversed', kind'⟩, taken, rfl⟩
    rw [List.foldlM_cons, fails] at last
    cases last

/-- Reading registers fails for the first that is not bound. -/
theorem mapM_require_eq_error {cells : List Placed} {inputs : Inputs} {cell : String}
    {target : List Nat} (clear : inputs.Clear target)
    (bound : ∀ register, inputs register ≠ none ↔ Binds cells register) {needed : List Register}
    {e : ColumnError} :
    needed.mapM (fun register => inputs.require register cell target) = .error e ↔
      ∃ front register behind, needed = front ++ register :: behind ∧
        (∀ other ∈ front, Binds cells other) ∧ ¬Binds cells register ∧
          e = .missingInput register cell := by
  have reads (register : Register) :
      (∃ rows, inputs.require register cell target = .ok rows) ↔ Binds cells register := by
    rw [← bound register, Option.ne_none_iff_exists']
    simp only [Inputs.require_eq_ok]
    exact exists_congr fun rows => and_iff_left_of_imp (clear register rows)
  simp only [mapM_eq_error, FirstFault, reads, Inputs.require_eq_error clear, ← bound, not_not]

end Column

end QuantumBoard

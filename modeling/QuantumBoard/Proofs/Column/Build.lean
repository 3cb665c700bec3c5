import QuantumBoard.Proofs.Column.Operations

/-! Columns that build: what their operations are made of. -/

namespace QuantumBoard

open Success

namespace Column

/-! ## What is picked from cells -/

theorem controlRow?_eq_some {p : Placed} {r : Nat} :
    controlRow? p = some r ↔ (∃ basis, p.cell.kind = .control basis) ∧ r = p.row := by
  unfold controlRow?
  split <;> simp_all [eq_comm]

theorem parityRow?_eq_some {p : Placed} {r : Nat} :
    parityRow? p = some r ↔ (∃ basis, p.cell.kind = .parity basis) ∧ r = p.row := by
  unfold parityRow?
  split <;> simp_all [eq_comm]

theorem swapRow?_eq_some {p : Placed} {r : Nat} :
    swapRow? p = some r ↔ p.cell.kind = .swap ∧ r = p.row := by
  unfold swapRow?
  split <;> simp_all [eq_comm]

theorem basisChange?_eq_some {p : Placed} {op : Operation} : basisChange? p = some op ↔
    ∃ g, (p.cell.kind = .control (some g) ∨ p.cell.kind = .parity (some g)) ∧
      op = .wire g p.row := by
  unfold basisChange?
  split <;> simp_all [eq_comm]

/-! ## Registers -/

/-- The rows that an input cell gives to its register. -/
def inputRows (reversed : Bool) (p : Placed) : List Nat :=
  if reversed then p.footprint.reverse else p.footprint

/-- Gives the rows of an input cell to its register. -/
def bindInput (inputs : Inputs) (p : Placed) : Except ColumnError Inputs :=
  match p.cell.kind with
  | .input register reversed => inputs.bind register (inputRows reversed p)
  | _ => .ok inputs

theorem bindInputs_eq (cells : List Placed) :
    bindInputs cells = cells.foldlM bindInput Inputs.empty := rfl

theorem Inputs.bind_eq_ok {inputs inputs' : Inputs} {register : Register} {rows : List Nat} :
    inputs.bind register rows = .ok inputs' ↔ inputs register = none ∧
      inputs' = fun other => if other = register then some rows else inputs other := by
  unfold Inputs.bind
  cases h : inputs register <;> simp [eq_comm]

/-- Every register that is bound has the rows of an input cell. -/
theorem bindInputs_source {cells : List Placed} {inputs : Inputs}
    (h : bindInputs cells = .ok inputs) : ∀ register rows, inputs register = some rows →
      ∃ p ∈ cells, ∃ reversed, p.cell.kind = .input register reversed ∧
        rows = inputRows reversed p := by
  rw [bindInputs_eq] at h
  refine foldlM_invariant (fun inputs : Inputs => ∀ register rows, inputs register = some rows →
    ∃ p ∈ cells, ∃ reversed, p.cell.kind = .input register reversed ∧ rows = inputRows reversed p)
    (fun p hp inputs inputs' source h => ?_) (fun _ _ (bound : none = some _) => nomatch bound) h
  unfold bindInput at h
  split at h
  · rename_i register reversed hkind
    obtain ⟨-, rfl⟩ := Inputs.bind_eq_ok.mp h
    intro other rows bound
    by_cases same : other = register
    · subst same
      simp only [if_true, Option.some.injEq] at bound
      exact ⟨p, hp, reversed, hkind, bound.symm⟩
    · simp only [if_neg same] at bound
      exact source other rows bound
  · cases h
    exact source

theorem bindInputs_sized {cells : List Placed} (wellFormed : ∀ p ∈ cells, p.cell.WellFormed)
    {inputs : Inputs} (h : bindInputs cells = .ok inputs) : inputs.Sized := by
  intro register rows bound
  obtain ⟨p, hp, reversed, kind, rfl⟩ := bindInputs_source h register rows bound
  have length : (inputRows reversed p).length = p.cell.size := by
    unfold inputRows
    split <;> simp [Placed.footprint]
  rw [length]
  exact ⟨(wellFormed p hp).covers, (wellFormed p hp).size_le (by simp [kind])⟩

/-! ## Stages of a build -/

theorem controlledOperations_eq_ok {inputs : Inputs} {controls : List Nat} {p : Placed}
    {group : List Operation} : controlledOperations inputs controls p = .ok group ↔
      ∃ ops, cellOperations inputs p = .ok ops ∧
        ¬(controls ≠ [] ∧ ops.any Operation.isMeasurement) ∧
        group = ops.map (Operation.controlledBy controls) := by
  unfold controlledOperations
  rw [bind_eq_ok]
  refine exists_congr fun ops => and_congr_right fun _ => ?_
  split
  · rename_i measured
    exact ⟨fun h => absurd h throw_ne_ok, fun h => absurd measured h.1⟩
  · rename_i clear
    rw [pure_eq_ok, eq_comm]
    exact ⟨fun same => ⟨clear, same⟩, And.right⟩

theorem controlledOperations_eq_error {inputs : Inputs} {controls : List Nat} {p : Placed}
    {e : ColumnError} : controlledOperations inputs controls p = .error e ↔
      cellOperations inputs p = .error e ∨ ∃ ops, cellOperations inputs p = .ok ops ∧
        (controls ≠ [] ∧ ops.any Operation.isMeasurement) ∧
        e = .unphysical p.cell.id "controlled measurement" := by
  unfold controlledOperations
  rw [bind_eq_error]
  refine or_congr_right (exists_congr fun ops => and_congr_right fun _ => ?_)
  split
  · rename_i measured
    exact throw_eq_error.trans ⟨fun same => ⟨measured, same.symm⟩, fun both => both.2.symm⟩
  · rename_i clear
    exact ⟨fun failed => absurd failed pure_ne_error, fun both => absurd both.1 clear⟩

/-- The swaps of a column, if their number is even. -/
theorem swaps_eq_ok {cells : List Placed} {ops : List Operation} :
    swaps cells = .ok ops ↔ (cells.filterMap swapRow?).length % 2 = 0 ∧
      ops = (pairs (cells.filterMap swapRow?)).map fun (a, b) => .swap a b := by
  unfold swaps
  by_cases even : (cells.filterMap swapRow?).length % 2 = 0
  · simp only [even, if_true, true_and, Except.ok.injEq]
    exact eq_comm
  · simp only [even, if_false, false_and, iff_false]
    exact nofun

theorem parts_eq_ok {cells : List Placed} {ps : Parts} : parts cells = .ok ps ↔
    ∃ inputs exchanges groups, bindInputs cells = .ok inputs ∧ swaps cells = .ok exchanges ∧
      cells.mapM (controlledOperations inputs (bracket cells).controls) = .ok groups ∧
      ps = ⟨bracket cells,
        exchanges.map (fun op => [op.controlledBy (bracket cells).controls]) ++ groups⟩ := by
  unfold parts
  simp only [bind_eq_ok, pure_eq_ok]
  grind

theorem build_eq_ok {cells : List Placed} {ops : List Operation} :
    build cells = .ok ops ↔ ∃ ps, parts cells = .ok ps ∧ ops = ps.assemble := by
  unfold build
  rw [bind_eq_ok]
  exact exists_congr fun ps => and_congr_right fun _ => pure_eq_ok.trans eq_comm

/-- What stands in front of the region: changes of basis at cells, and folds of parities. -/
theorem mem_before {cells : List Placed} {op : Operation} (h : op ∈ (bracket cells).before) :
    (∃ p ∈ cells, ∃ g, (p.cell.kind = .control (some g) ∨ p.cell.kind = .parity (some g)) ∧
      op = .wire g p.row) ∨ ∃ row first, op = .controlledFlip row first := by
  have bases : op ∈ cells.filterMap basisChange? → ∃ p ∈ cells, ∃ g,
      (p.cell.kind = .control (some g) ∨ p.cell.kind = .parity (some g)) ∧ op = .wire g p.row := by
    intro h
    obtain ⟨p, hp, changed⟩ := List.mem_filterMap.mp h
    exact ⟨p, hp, basisChange?_eq_some.mp changed⟩
  unfold bracket at h
  split at h
  · exact .inl (bases h)
  · rcases List.mem_append.mp h with h | h
    · exact .inl (bases h)
    · obtain ⟨row, -, rfl⟩ := List.mem_map.mp h
      exact .inr ⟨row, _, rfl⟩

/-- Where the operations of a column come from: the bracket and its inverse, a swap, or a cell. -/
theorem mem_build {cells : List Placed} {ops : List Operation} (h : build cells = .ok ops)
    {op : Operation} (hop : op ∈ ops) :
    (∃ front ∈ (bracket cells).before, op = front ∨ op = front.inverse) ∨
    (∃ a b, op = (Operation.swap a b).controlledBy (bracket cells).controls) ∨
    ∃ inputs p body bare, bindInputs cells = .ok inputs ∧ p ∈ cells ∧
      cellOperations inputs p = .ok body ∧ bare ∈ body ∧
      op = bare.controlledBy (bracket cells).controls := by
  obtain ⟨ps, hparts, rfl⟩ := build_eq_ok.mp h
  obtain ⟨inputs, exchanges, groups, bound, swapped, grouped, rfl⟩ := parts_eq_ok.mp hparts
  unfold Parts.assemble at hop
  simp only at hop
  split at hop
  · cases hop
  rcases List.mem_append.mp hop with hop | hop
  · rcases List.mem_append.mp hop with hop | hop
    · exact .inl ⟨op, hop, .inl rfl⟩
    obtain ⟨group, hgroup, hop⟩ := List.mem_flatten.mp hop
    rcases List.mem_append.mp hgroup with hgroup | hgroup
    · obtain ⟨exchange, hexchange, rfl⟩ := List.mem_map.mp hgroup
      obtain rfl := List.mem_singleton.mp hop
      obtain ⟨-, rfl⟩ := swaps_eq_ok.mp swapped
      obtain ⟨⟨a, b⟩, -, rfl⟩ := List.mem_map.mp hexchange
      exact .inr (.inl ⟨a, b, rfl⟩)
    · obtain ⟨p, hp, controlled⟩ := exists_of_mem_mapM grouped hgroup
      obtain ⟨body, own, -, rfl⟩ := controlledOperations_eq_ok.mp controlled
      obtain ⟨bare, hbare, rfl⟩ := List.mem_map.mp hop
      exact .inr (.inr ⟨inputs, p, body, bare, bound, hp, own, hbare, rfl⟩)
  · obtain ⟨front, hfront, rfl⟩ := List.mem_map.mp hop
    exact .inl ⟨front, List.mem_reverse.mp hfront, .inr rfl⟩

theorem before_sound (cells : List Placed) : ∀ op ∈ (bracket cells).before, op.Sound := by
  intro op hop
  rcases mem_before hop with ⟨_, _, _, _, rfl⟩ | ⟨_, _, rfl⟩
  · trivial
  · trivial

/-- The operations of a column of well-formed cells are sound. -/
theorem build_sound {cells : List Placed} (wellFormed : ∀ p ∈ cells, p.cell.WellFormed)
    {ops : List Operation} (h : build cells = .ok ops) : ∀ op ∈ ops, op.Sound := by
  intro op hop
  rcases mem_build h hop with ⟨front, hfront, rfl | rfl⟩ | ⟨a, b, rfl⟩ |
    ⟨inputs, p, body, bare, bound, hp, own, hbare, rfl⟩
  · exact before_sound cells op hfront
  · exact (before_sound cells front hfront).inverse
  · trivial
  · exact (cellOperations_fits (wellFormed p hp) (bindInputs_sized wellFormed bound) own
      bare hbare).sound

end Column

end QuantumBoard

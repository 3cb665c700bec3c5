import QuantumBoard.Proofs.Circuit.Independence
import QuantumBoard.Proofs.Circuit.Rejection
import QuantumBoard.Proofs.Gate.Operands

/-! # What a run may write

A gate writes its targets, an arithmetic gate only those of its target register, and an operation
that is no gate writes nothing. A run changes no other bit: neither those of input registers and of
controls, nor those behind the qubits of the circuit. -/

namespace QuantumBoard

open Word (testBit)

namespace Operation

/-- The rows that an operation may write. -/
def written (op : Operation) : List Nat :=
  match op.action with
  | .gate ⟨.arithmetic g, _⟩ => op.targets.take g.targetWidth
  | .gate _ => op.targets
  | .measure | .phase _ => []

variable {op : Operation} {s s' : UInt64} {k : Nat}

theorem written_subset_targets (op : Operation) : op.written ⊆ op.targets := by
  unfold written
  split
  · exact List.take_subset _ _
  · exact List.Subset.refl _
  · exact List.nil_subset _
  · exact List.nil_subset _

/-- What an operation does when its controls are set leaves all bits but those it may write. -/
theorem testBit_act (nodup : op.targets.Nodup) (range : ∀ r ∈ op.targets, r < 64)
    (acted : op.act s = .ok s') (hk : k < 64) (outside : k ∉ op.written) :
    testBit s' k = testBit s k := by
  by_cases target : k ∈ op.targets
  · match action : op.action with
    | .measure | .phase _ =>
      rw [act, action] at acted
      cases acted
      rfl
    | .gate ⟨.arithmetic g, _⟩ =>
      rw [act, action] at acted
      rw [written, action] at outside
      cases acted
      exact g.testBit_onRegister nodup range hk outside
    | .gate ⟨.wire _, _⟩ | .gate ⟨.register _, _⟩ | .gate ⟨.matrix _, _⟩ =>
      rw [written, action] at outside
      exact absurd target outside
  · exact testBit_act_of_not_mem_targets range acted hk target

/-- An operation that was accepted leaves all bits but those it may write. -/
theorem leaves_of_not_mem_written (placed : op.WellPlaced) (outside : k ∉ op.written) :
    Leaves [op] k := by
  rw [leaves_singleton]
  intro s s' ran
  by_cases hk : k < 64
  · have range := inRange_of_run ran
    rw [run_of_inRange range] at ran
    split at ran
    · exact testBit_act (List.nodup_append.mp placed.distinct).1 range.targets ran hk outside
    · cases ran
      rfl
  · rw [Word.testBit_of_le _ (by omega), Word.testBit_of_le _ (by omega)]

/-- What steers an operation is not written by it. -/
theorem not_mem_written_of_control (placed : op.WellPlaced) :
    ∀ r ∈ op.controls, r ∉ op.written := fun r steers writes =>
  (List.nodup_append.mp placed.distinct).2.2 r (op.written_subset_targets writes) r steers rfl

end Operation

/-! ## Qubits -/

/-- A fold to the number behind the highest row. -/
theorem foldl_max_bounds (rows : List Nat) (n : Nat) :
    n ≤ rows.foldl (fun n row => max n (row + 1)) n ∧
      ∀ r ∈ rows, r < rows.foldl (fun n row => max n (row + 1)) n := by
  induction rows generalizing n with
  | nil => simp
  | cons row rows ih =>
    obtain ⟨start, rest⟩ := ih (max n (row + 1))
    rw [List.foldl_cons]
    refine ⟨by omega, fun r hr => ?_⟩
    rcases List.mem_cons.mp hr with rfl | hr
    · omega
    · exact rest r hr

theorem foldl_max_le {rows : List Nat} {n bound : Nat} (start : n ≤ bound)
    (below : ∀ r ∈ rows, r < bound) : rows.foldl (fun n row => max n (row + 1)) n ≤ bound := by
  induction rows generalizing n with
  | nil => exact start
  | cons row rows ih =>
    have first : row < bound := below row List.mem_cons_self
    have next : max n (row + 1) ≤ bound := by omega
    exact ih next fun r mem => below r (List.mem_cons_of_mem row mem)

namespace Circuit

variable {c : Circuit} {s s' : UInt64}

/-- The rows of its operations are qubits of the circuit. -/
theorem lt_numQubits {op : Operation} (hop : op ∈ c.operations.toList) {r : Nat}
    (hr : r ∈ op.rows) : r < c.numQubits :=
  (foldl_max_bounds _ 0).2 r (List.mem_flatMap.mpr ⟨op, hop, hr⟩)

theorem mem_rows {r : Nat} : r ∈ c.rows ↔ ∃ op ∈ c.operations.toList, r ∈ op.rows := by
  rw [rows, List.mem_mergeSort, List.mem_eraseDups, List.mem_flatMap]

/-- The number of qubits is the one behind the last row, in ascending order, of an operation. -/
theorem numQubits_eq_last (c : Circuit) : c.numQubits = c.rows.getLast?.elim 0 (· + 1) := by
  have ascending : c.rows.Pairwise (· ≤ ·) := List.pairwise_mergeSort' _ _
  have listed {r : Nat} (hr : r ∈ c.operations.toList.flatMap Operation.rows) : r ∈ c.rows :=
    mem_rows.mpr (List.mem_flatMap.mp hr)
  cases last : c.rows.getLast? with
  | none =>
    have empty := List.getLast?_eq_none_iff.mp last
    refine Nat.le_zero.mp (foldl_max_le (Nat.le_refl 0) fun r hr => ?_)
    rw [empty] at listed
    exact absurd (listed hr) List.not_mem_nil
  | some row =>
    obtain ⟨front, split⟩ := List.getLast?_eq_some_iff.mp last
    rw [split] at ascending listed
    refine Nat.le_antisymm (foldl_max_le (Nat.zero_le _) fun r hr => ?_) ?_
    · rcases List.mem_append.mp (listed hr) with mem | mem
      · exact Nat.lt_succ_of_le ((List.pairwise_append.mp ascending).2.2 r mem row (by simp))
      · rw [List.mem_singleton.mp mem]
        exact Nat.lt_succ_self row
    · obtain ⟨op, hop, hr⟩ := mem_rows.mp (show row ∈ c.rows by simp [split])
      exact lt_numQubits hop hr

/-- A run changes no bit that no operation may write; controls are never written by the operations
they steer, and a state of the qubits of the circuit stays one. -/
theorem run_frame (built : c.Built) (ran : c.run s = .ok s') :
    (∀ op ∈ c.operations.toList, ∀ r ∈ op.controls, r ∉ op.written) ∧
      (∀ k, (∀ op ∈ c.operations.toList, k ∉ op.written) → testBit s' k = testBit s k) ∧
      (s.toNat < 2 ^ c.numQubits → s'.toNat < 2 ^ c.numQubits) := by
  have frame : ∀ k, (∀ op ∈ c.operations.toList, k ∉ op.written) → testBit s' k = testBit s k :=
    fun k outside => leaves_of_forall (fun op hop =>
      Operation.leaves_of_not_mem_written (built.wellPlaced op hop) (outside op hop)) s s' ran
  refine ⟨fun op hop => Operation.not_mem_written_of_control (built.wellPlaced op hop), frame,
    fun small => ?_⟩
  refine Nat.lt_pow_two_of_testBit _ fun k above => ?_
  have outside : ∀ op ∈ c.operations.toList, k ∉ op.written := by
    intro op hop writes
    have below := lt_numQubits hop (List.mem_append_left _ (op.written_subset_targets writes))
    omega
  exact (frame k outside).trans
    (Nat.testBit_lt_two_pow (Nat.lt_of_lt_of_le small (Nat.pow_le_pow_right (by decide) above)))

/-- An addition under a control, with its rows in no order, and a rearrangement behind it. -/
def scatteredOperations : List Operation :=
  [(Operation.ofKind (.arithmetic ⟨.addA, 2, [2]⟩) [9, 4, 1, 7]).controlledBy [3],
    .ofKind (.register (.permutation [2, 0, 1])) [6, 0, 9]]

def scattered : Circuit := (extend {} scatteredOperations).1

/-- State 586 ends in state 538: the input at rows 1 and 7, the control at row 3 and rows 2, 5 and 8,
which are not touched, are as before. -/
theorem run_frame_scattered : scattered.run 586 = .ok 538 ∧
    (∀ k ∈ [1, 7, 3, 2, 5, 8], testBit 538 k = testBit 586 k) ∧
      (538 : UInt64).toNat < 2 ^ scattered.numQubits := by
  have built : scattered.Built := .extend scatteredOperations (.empty "")
  have ran : scattered.run 586 = .ok 538 := by decide +kernel
  obtain ⟨-, frame, small⟩ := run_frame built ran
  exact ⟨ran, fun k hk => frame k (by revert k; decide), small (by decide)⟩

end Circuit

end QuantumBoard

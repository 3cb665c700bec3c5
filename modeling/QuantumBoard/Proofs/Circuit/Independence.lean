import QuantumBoard.Proofs.Circuit.Locality
import QuantumBoard.Proofs.Success

/-! # Operations in any order

A run depends on the bits that its operations touch and on no others. When neither of two groups of
operations writes a bit that the other touches, each finds the bits that it would find alone, so
the two may run in either order; and groups that are independent of each other may run in any
order at all. -/

namespace QuantumBoard

open Word (testBit)
open Success

/-- The rows that operations touch. -/
def touched (ops : List Operation) : List Nat := ops.flatMap Operation.rows

/-- No run of the operations changes the bit of the row. -/
def Leaves (ops : List Operation) (row : Nat) : Prop :=
  ∀ s s', runAll ops s = .ok s' → testBit s' row = testBit s row

/-- Neither of the two writes a bit that the other touches. -/
structure Independent (xs ys : List Operation) : Prop where
  left : ∀ r ∈ touched ys, Leaves xs r
  right : ∀ r ∈ touched xs, Leaves ys r

theorem Independent.symm {xs ys : List Operation} (h : Independent xs ys) : Independent ys xs :=
  ⟨h.right, h.left⟩

theorem mem_touched {ops : List Operation} {row : Nat} :
    row ∈ touched ops ↔ ∃ op ∈ ops, row ∈ op.rows :=
  List.mem_flatMap

/-! ## What a run leaves -/

theorem runAll_singleton (op : Operation) (s : UInt64) : runAll [op] s = op.run s := by
  rw [runAll_cons]
  cases op.run s <;> rfl

theorem leaves_singleton {op : Operation} {row : Nat} :
    Leaves [op] row ↔ ∀ s s', op.run s = .ok s' → testBit s' row = testBit s row := by
  simp only [Leaves, runAll_singleton]

theorem leaves_nil (row : Nat) : Leaves [] row := by
  intro s s' ran
  cases ran
  rfl

/-- Operations that each leave a bit leave it together. -/
theorem leaves_of_forall {ops : List Operation} {row : Nat} (each : ∀ op ∈ ops, Leaves [op] row) :
    Leaves ops row := by
  induction ops with
  | nil => exact leaves_nil row
  | cons op ops ih =>
    intro s s' ran
    obtain ⟨t, first, rest⟩ := runAll_cons_ok ran
    rw [ih (fun op h => each op (List.mem_cons_of_mem _ h)) t s' rest,
      leaves_singleton.mp (each op List.mem_cons_self) s t first]

theorem leaves_of_not_mem_targets {op : Operation} {row : Nat} (h : row ∉ op.targets) :
    Leaves [op] row := by
  rw [leaves_singleton]
  intro s s' ran
  by_cases hk : row < 64
  · exact Operation.testBit_run ran hk h
  · rw [Word.testBit_of_le _ (by omega), Word.testBit_of_le _ (by omega)]

theorem leaves_of_not_mem_touched {ops : List Operation} {row : Nat} (h : row ∉ touched ops) :
    Leaves ops row :=
  leaves_of_forall fun op hop => leaves_of_not_mem_targets fun target =>
    h (mem_touched.mpr ⟨op, hop, List.mem_append_left _ target⟩)

/-- Under more controls, an operation writes no other bits. -/
theorem Leaves.controlledBy {op : Operation} {row : Nat} (h : Leaves [op] row)
    (rows : List Nat) : Leaves [op.controlledBy rows] row := by
  rw [leaves_singleton] at h ⊢
  intro s s' ran
  rw [Operation.run_controlledBy (Operation.inRange_of_run ran)] at ran
  split at ran
  · exact h s s' ran
  · cases ran
    rfl

/-! ## What a run depends on -/

/-- An operation that runs in a state runs alike in every state with the same bits at its rows. -/
theorem Operation.run_congr {op : Operation} {s t s' : UInt64} (agree : Agree op.rows s t)
    (ran : op.run s = .ok s') : ∃ t', op.run t = .ok t' ∧ Agree op.rows s' t' := by
  have range := inRange_of_run ran
  have controls : op.controls.all (Word.isSet s) = op.controls.all (Word.isSet t) :=
    isSet_congr range fun r hr => agree r (List.mem_append_right _ hr)
  rw [run_of_inRange range] at ran
  rw [run_of_inRange range, ← controls]
  split at ran
  · rename_i set
    rcases op.act_cases range.targets with ⟨e, fails⟩ | ⟨f, localTo, acts⟩
    · rw [fails] at ran
      cases ran
    · rw [acts] at ran
      cases ran
      refine ⟨f t, by rw [if_pos set, acts], fun r hr => ?_⟩
      by_cases target : r ∈ op.targets
      · exact localTo.congr s t (fun r hr => agree r (List.mem_append_left _ hr)) r target
      · have hk := range r hr
        rw [localTo.frame s r hk target, localTo.frame t r hk target, agree r hr]
  · rename_i unset
    cases ran
    exact ⟨t, if_neg unset, agree⟩

/-- A run depends on the bits at rows that its operations touch. -/
theorem runAll_congr {ops : List Operation} {rows : List Nat} (within : touched ops ⊆ rows)
    {s t s' : UInt64} (agree : Agree rows s t) (ran : runAll ops s = .ok s') :
    ∃ t', runAll ops t = .ok t' ∧ Agree rows s' t' := by
  induction ops generalizing s t with
  | nil =>
    cases ran
    exact ⟨t, rfl, agree⟩
  | cons op ops ih =>
    obtain ⟨u, first, rest⟩ := runAll_cons_ok ran
    obtain ⟨own, later⟩ := List.append_subset.mp within
    obtain ⟨v, first', agree'⟩ := op.run_congr (fun r hr => agree r (own hr)) first
    -- rows that are not touched now are as they were
    have next : Agree rows u v := by
      intro r hr
      by_cases inside : r ∈ op.rows
      · exact agree' r inside
      · have left := leaves_singleton.mp (leaves_of_not_mem_targets fun target =>
          inside (List.mem_append_left _ target))
        rw [left s u first, left t v first', agree r hr]
    obtain ⟨t', rest', same⟩ := ih later next rest
    refine ⟨t', ?_, same⟩
    rw [runAll_cons, first']
    exact rest'

/-! ## Independent groups -/

/-- Groups of operations that are independent may change places. -/
theorem Independent.swap {xs ys : List Operation} (h : Independent xs ys) {s s' : UInt64}
    (ran : runAll (xs ++ ys) s = .ok s') : runAll (ys ++ xs) s = .ok s' := by
  rw [runAll_append, bind_eq_ok] at ran
  obtain ⟨t, ranX, ranY⟩ := ran
  -- the second group finds its bits in `s` as it did behind the first, and then so does the first
  obtain ⟨u, ranY', sameY⟩ :=
    runAll_congr (List.Subset.refl _) (fun r hr => h.left r hr s t ranX) ranY
  obtain ⟨v, ranX', sameX⟩ :=
    runAll_congr (List.Subset.refl _) (fun r hr => (h.right r hr s u ranY').symm) ranX
  have same : v = s' := by
    apply Word.eq_of_testBit
    intro k hk
    by_cases inX : k ∈ touched xs
    · rw [← sameX k inX, h.right k inX t s' ranY]
    · have outX := leaves_of_not_mem_touched inX
      rw [outX u v ranX']
      by_cases inY : k ∈ touched ys
      · exact (sameY k inY).symm
      · have outY := leaves_of_not_mem_touched inY
        rw [outY s u ranY', outY t s' ranY, outX s t ranX]
  rw [runAll_append, ranY', ← same]
  exact ranX'

/-- Groups of operations that are independent of each other may run in any order. -/
theorem runAll_perm {groups groups' : List (List Operation)} (perm : groups.Perm groups')
    (independent : groups.Pairwise Independent) {s s' : UInt64}
    (ran : runAll groups.flatten s = .ok s') : runAll groups'.flatten s = .ok s' := by
  induction perm generalizing s with
  | nil => exact ran
  | cons group _ ih =>
    rw [List.flatten_cons, runAll_append, bind_eq_ok] at ran ⊢
    obtain ⟨t, first, rest⟩ := ran
    exact ⟨t, first, ih (List.pairwise_cons.mp independent).2 rest⟩
  | swap second first groups =>
    simp only [List.flatten_cons, ← List.append_assoc] at ran ⊢
    rw [runAll_append, bind_eq_ok] at ran ⊢
    obtain ⟨t, both, rest⟩ := ran
    have apart := (List.pairwise_cons.mp independent).1 second List.mem_cons_self
    exact ⟨t, apart.swap both, rest⟩
  | trans perm _ ih ih' =>
    exact ih' (perm.pairwise independent Independent.symm) (ih independent ran)

end QuantumBoard

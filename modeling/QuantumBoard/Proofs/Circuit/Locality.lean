import QuantumBoard.Circuit.Run
import QuantumBoard.Proofs.Word.Register

/-! # Operations stay on their rows

What an operation does to a basis state depends only on the bits at its rows, and only the
bits at its targets change. An operation is therefore either no map of basis states at all,
or one and the same local map of every state; and flipping bits that it does not touch
commutes with it, also along a whole run. -/

namespace QuantumBoard

open Word (testBit)

/-- Two states with the same bits at the given rows. -/
def Agree (rows : List Nat) (s t : UInt64) : Prop := ∀ r ∈ rows, testBit s r = testBit t r

/-- A map of states that reads and writes the given rows only. -/
structure LocalTo (rows : List Nat) (f : UInt64 → UInt64) : Prop where
  frame : ∀ s, ∀ k < 64, k ∉ rows → testBit (f s) k = testBit s k
  congr : ∀ s t, Agree rows s t → Agree rows (f s) (f t)

/-- A mask with no bit at the given rows. -/
def Avoids (mask : UInt64) (rows : List Nat) : Prop := ∀ r ∈ rows, testBit mask r = false

theorem Agree.of_avoids {mask : UInt64} {rows : List Nat} (h : Avoids mask rows) (s : UInt64) :
    Agree rows (s ^^^ mask) s := by
  intro r hr
  rw [Word.testBit_xor, h r hr, Bool.xor_false]

namespace LocalTo

variable {rows : List Nat} {f : UInt64 → UInt64}

theorem identity (rows : List Nat) : LocalTo rows (fun s => s) :=
  ⟨fun _ _ _ _ => rfl, fun _ _ h => h⟩

/-- A local map may be applied before or after bits are flipped elsewhere. -/
theorem xor (h : LocalTo rows f) {mask : UInt64} (avoids : Avoids mask rows) (s : UInt64) :
    f (s ^^^ mask) = f s ^^^ mask := by
  apply Word.eq_of_testBit
  intro k hk
  by_cases hm : k ∈ rows
  · rw [h.congr _ _ (Agree.of_avoids avoids s) k hm, Word.testBit_xor, avoids k hm,
      Bool.xor_false]
  · rw [h.frame _ k hk hm, Word.testBit_xor, Word.testBit_xor, h.frame _ k hk hm]

theorem single {row : Nat} (hr : row < 64) (hm : row ∈ rows) :
    LocalTo rows (fun s => s ^^^ Word.single row) where
  frame s k _ hk := by
    have hne : k ≠ row := fun he => hk (he ▸ hm)
    rw [Word.testBit_xor, Word.testBit_single hr]
    simp [hne]
  congr s t h := by
    intro k hk
    rw [Word.testBit_xor, Word.testBit_xor, h k hk]

end LocalTo

theorem testBit_exchange (s : UInt64) {a b k : Nat} (ha : a < 64) (hb : b < 64) (hk : k < 64) :
    testBit (exchange s a b) k =
      if k = a then testBit s b else if k = b then testBit s a else testBit s k := by
  simp only [exchange, Word.testBit_or, Word.testBit_and, Word.testBit_not _ hk,
    Word.testBit_single ha, Word.testBit_single hb, Word.testBit_bit_shiftLeft s hb ha,
    Word.testBit_bit_shiftLeft s ha hb]
  by_cases hka : k = a <;> by_cases hkb : k = b <;> simp_all

namespace LocalTo

variable {rows : List Nat}

theorem exchange {a b : Nat} (ha : a < 64) (hb : b < 64) (hma : a ∈ rows) (hmb : b ∈ rows) :
    LocalTo rows (fun s => QuantumBoard.exchange s a b) where
  frame s k hk hm := by
    have hka : k ≠ a := fun he => hm (he ▸ hma)
    have hkb : k ≠ b := fun he => hm (he ▸ hmb)
    rw [testBit_exchange s ha hb hk, if_neg hka, if_neg hkb]
  congr s t h := by
    intro k hm
    by_cases hk : k < 64
    · rw [testBit_exchange s ha hb hk, testBit_exchange t ha hb hk, h a hma, h b hmb, h k hm]
    · rw [Word.testBit_of_le _ (by omega), Word.testBit_of_le _ (by omega)]

theorem onRegister (range : ∀ r ∈ rows, r < 64) (f : UInt64 → UInt64) :
    LocalTo rows (QuantumBoard.onRegister f rows) where
  frame _ _ hk hm := Word.testBit_scatterFrom_of_not_mem range hk hm 0
  congr s t h := by
    intro k hm
    have hg : Word.gather s rows = Word.gather t rows := Word.gatherFrom_congr range h 0
    rw [QuantumBoard.onRegister, QuantumBoard.onRegister, hg]
    exact Word.testBit_scatterFrom_of_mem range hm 0

end LocalTo

namespace Operation

/-- All rows that the operation touches are rows of a basis state. -/
def InRange (op : Operation) : Prop := ∀ r ∈ op.rows, r < 64

theorem InRange.targets {op : Operation} (h : op.InRange) : ∀ r ∈ op.targets, r < 64 :=
  fun r hr => h r (List.mem_append_left _ hr)

theorem InRange.controls {op : Operation} (h : op.InRange) : ∀ r ∈ op.controls, r < 64 :=
  fun r hr => h r (List.mem_append_right _ hr)

theorem runWire_swap (op : Operation) {a b : Nat} {rest : List Nat}
    (h : op.targets = a :: b :: rest) (s : UInt64) :
    op.runWire .swap s = .ok (exchange s a b) := by
  simp only [runWire, h]

/-- Every gate on one wire acts by whether it flips. -/
theorem runWire_of_ne_swap (op : Operation) {g : WireGate} (h : g ≠ .swap) (s : UInt64) :
    op.runWire g s =
      match g.flips?, op.targets with
      | none, _ => .error (.notClassical op.name)
      | some false, _ => .ok s
      | some true, row :: _ => .ok (s ^^^ Word.single row)
      | some true, [] => .error .missingTarget := by
  cases g with
  | swap => exact absurd rfl h
  | _ => rfl

/-- A gate on wires is an error for every state, or a local map of states. -/
theorem runWire_cases (op : Operation) (h : ∀ r ∈ op.targets, r < 64) (g : WireGate) :
    (∃ e, ∀ s, op.runWire g s = .error e) ∨
      ∃ f, LocalTo op.targets f ∧ ∀ s, op.runWire g s = .ok (f s) := by
  by_cases hg : g = .swap
  · subst hg
    match ht : op.targets with
    | [] | [_] => exact .inl ⟨_, fun s => by simp only [runWire, ht]; rfl⟩
    | a :: b :: rest =>
      have ha : a < 64 := h a (by simp [ht])
      have hb : b < 64 := h b (by simp [ht])
      exact .inr ⟨_, LocalTo.exchange ha hb (by simp) (by simp), runWire_swap op ht⟩
  · have hrun := runWire_of_ne_swap op hg
    match hflip : g.flips?, ht : op.targets with
    | none, _ => exact .inl ⟨_, fun s => by rw [hrun, hflip]⟩
    | some false, _ => exact .inr ⟨_, LocalTo.identity _, fun s => by rw [hrun, hflip]⟩
    | some true, [] => exact .inl ⟨_, fun s => by rw [hrun, hflip, ht]⟩
    | some true, row :: rows =>
      have hr : row < 64 := h row (ht ▸ List.mem_cons_self)
      exact .inr ⟨_, LocalTo.single hr List.mem_cons_self, fun s => by rw [hrun, hflip, ht]⟩

/-- What an operation can do to basis states: nothing that is one, or a local map. -/
theorem act_cases (op : Operation) (h : ∀ r ∈ op.targets, r < 64) :
    (∃ e, ∀ s, op.act s = .error e) ∨
      ∃ f, LocalTo op.targets f ∧ ∀ s, op.act s = .ok (f s) := by
  have same : ∀ (action : Action), op.action = action → (∀ s, op.act s = .ok s) →
      (∃ e, ∀ s, op.act s = .error e) ∨
        ∃ f, LocalTo op.targets f ∧ ∀ s, op.act s = .ok (f s) :=
    fun _ _ hs => .inr ⟨_, LocalTo.identity _, hs⟩
  match ha : op.action with
  | .measure => exact same _ ha fun s => by rw [act, ha]
  | .phase _ => exact same _ ha fun s => by rw [act, ha]
  | .gate ⟨.register (.gradient _ _), _⟩ => exact same _ ha fun s => by rw [act, ha]
  | .gate ⟨.wire g, _⟩ =>
    have hrun : op.act = op.runWire g := by
      funext s
      rw [act, ha]
    rw [hrun]
    exact runWire_cases op h g
  | .gate ⟨.register (.permutation mapping), _⟩ =>
    exact .inr ⟨_, LocalTo.onRegister h _, fun s => by rw [act, ha]⟩
  | .gate ⟨.arithmetic g, _⟩ =>
    exact .inr ⟨_, LocalTo.onRegister h _, fun s => by rw [act, ha]⟩
  | .gate ⟨.register (.fourier _ _), _⟩ => exact .inl ⟨_, fun s => by rw [act, ha]⟩
  | .gate ⟨.matrix _, _⟩ => exact .inl ⟨_, fun s => by rw [act, ha]⟩

theorem find?_eq_none_of_inRange {op : Operation} (h : op.InRange) :
    op.rows.find? (64 ≤ ·) = none := by
  rw [List.find?_eq_none]
  intro r hr
  have := h r hr
  simp
  omega

theorem run_of_inRange {op : Operation} (h : op.InRange) (s : UInt64) :
    op.run s = if op.controls.all (Word.isSet s) then op.act s else .ok s := by
  rw [run, find?_eq_none_of_inRange h]

/-- An operation with a row out of range fails on every state, and in the same way. -/
theorem run_of_not_inRange {op : Operation} (h : ¬op.InRange) :
    ∃ e, ∀ s, op.run s = .error e := by
  match hf : op.rows.find? (64 ≤ ·) with
  | some r => exact ⟨_, fun s => by rw [run, hf]⟩
  | none =>
    refine absurd (fun r hr => ?_) h
    have := List.find?_eq_none.mp hf r hr
    simpa using this

/-- A run that succeeds was in range. -/
theorem inRange_of_run {op : Operation} {s s' : UInt64} (h : op.run s = .ok s') :
    op.InRange := by
  by_cases hr : op.InRange
  · exact hr
  · obtain ⟨e, he⟩ := run_of_not_inRange hr
    rw [he] at h
    cases h

theorem isSet_congr {op : Operation} (h : op.InRange) {s t : UInt64}
    (agree : Agree op.controls s t) :
    op.controls.all (Word.isSet s) = op.controls.all (Word.isSet t) := by
  rw [Bool.eq_iff_iff, List.all_eq_true, List.all_eq_true]
  refine forall_congr' fun r => forall_congr' fun hr => ?_
  rw [Word.isSet_eq_testBit s (h.controls r hr), Word.isSet_eq_testBit t (h.controls r hr),
    agree r hr]

/-- An operation may run before or after bits are flipped that it does not touch. -/
theorem run_xor (op : Operation) {mask : UInt64} (avoids : Avoids mask op.rows) (s : UInt64) :
    op.run (s ^^^ mask) = (op.run s).map (· ^^^ mask) := by
  by_cases hr : op.InRange
  · have hc : op.controls.all (Word.isSet (s ^^^ mask)) = op.controls.all (Word.isSet s) :=
      isSet_congr hr (Agree.of_avoids (fun r h => avoids r (List.mem_append_right _ h)) s)
    rw [run_of_inRange hr, run_of_inRange hr, hc]
    split
    · rcases act_cases op hr.targets with ⟨e, he⟩ | ⟨f, hf, hact⟩
      · rw [he, he]
        rfl
      · rw [hact, hact, hf.xor (fun r h => avoids r (List.mem_append_left _ h))]
        rfl
    · rfl
  · obtain ⟨e, he⟩ := run_of_not_inRange hr
    rw [he, he]
    rfl

theorem testBit_act_of_not_mem_targets {op : Operation} (range : ∀ r ∈ op.targets, r < 64)
    {s s' : UInt64} (h : op.act s = .ok s') {k : Nat} (hk : k < 64) (hm : k ∉ op.targets) :
    testBit s' k = testBit s k := by
  rcases act_cases op range with ⟨e, he⟩ | ⟨f, hf, hact⟩
  · rw [he] at h
    cases h
  · rw [hact] at h
    cases h
    exact hf.frame s k hk hm

/-- Bits that are no targets stay. -/
theorem testBit_run {op : Operation} {s s' : UInt64} (h : op.run s = .ok s') {k : Nat}
    (hk : k < 64) (hm : k ∉ op.targets) : testBit s' k = testBit s k := by
  have hr := inRange_of_run h
  rw [run_of_inRange hr] at h
  split at h
  · exact testBit_act_of_not_mem_targets hr.targets h hk hm
  · cases h
    rfl

theorem run_controlledBy {op : Operation} {rows : List Nat}
    (h : (op.controlledBy rows).InRange) (s : UInt64) :
    (op.controlledBy rows).run s = if rows.all (Word.isSet s) then op.run s else .ok s := by
  have hop : op.InRange := fun r hr => h r (by
    rcases List.mem_append.mp hr with hr | hr
    · exact List.mem_append_left _ hr
    · exact List.mem_append_right _ (List.mem_append_left _ hr))
  have hall : (op.controlledBy rows).controls.all (Word.isSet s) =
      (op.controls.all (Word.isSet s) && rows.all (Word.isSet s)) := List.all_append
  have hact : (op.controlledBy rows).act s = op.act s := rfl
  rw [run_of_inRange h, run_of_inRange hop, hall, hact]
  cases op.controls.all (Word.isSet s) <;> cases rows.all (Word.isSet s) <;> rfl

end Operation

/-! ## Runs -/

theorem runAll_cons (op : Operation) (ops : List Operation) (s : UInt64) :
    runAll (op :: ops) s = op.run s >>= runAll ops := rfl

theorem runAll_append (ops ops' : List Operation) (s : UInt64) :
    runAll (ops ++ ops') s = runAll ops s >>= runAll ops' := List.foldlM_append

/-- The first step of a run that succeeds. -/
theorem runAll_cons_ok {op : Operation} {ops : List Operation} {s s' : UInt64}
    (h : runAll (op :: ops) s = .ok s') :
    ∃ t, op.run s = .ok t ∧ runAll ops t = .ok s' := by
  rw [runAll_cons] at h
  match ht : op.run s with
  | .error e => rw [ht] at h; cases h
  | .ok t => exact ⟨t, rfl, by rwa [ht] at h⟩

theorem runAll_xor (ops : List Operation) {mask : UInt64}
    (avoids : ∀ op ∈ ops, Avoids mask op.rows) (s : UInt64) :
    runAll ops (s ^^^ mask) = (runAll ops s).map (· ^^^ mask) := by
  induction ops generalizing s with
  | nil => rfl
  | cons op ops ih =>
    rw [runAll_cons, runAll_cons, op.run_xor (avoids op List.mem_cons_self)]
    match op.run s with
    | .error e => rfl
    | .ok t => exact ih (fun op h => avoids op (List.mem_cons_of_mem _ h)) t

theorem testBit_runAll {ops : List Operation} {s s' : UInt64} (h : runAll ops s = .ok s')
    {k : Nat} (hk : k < 64) (hm : ∀ op ∈ ops, k ∉ op.targets) : testBit s' k = testBit s k := by
  induction ops generalizing s with
  | nil => cases h; rfl
  | cons op ops ih =>
    obtain ⟨t, ht, h⟩ := runAll_cons_ok h
    rw [ih h (fun op h => hm op (List.mem_cons_of_mem _ h)),
      Operation.testBit_run ht hk (hm op List.mem_cons_self)]

/-- A region under controls that it does not write either runs as if there were none, or does
nothing. -/
theorem runAll_controlledBy (ops : List Operation) {rows : List Nat}
    (range : ∀ op ∈ ops, (op.controlledBy rows).InRange)
    (apart : ∀ op ∈ ops, ∀ r ∈ rows, r ∉ op.targets) (s : UInt64) :
    runAll (ops.map (Operation.controlledBy rows)) s =
      if rows.all (Word.isSet s) then runAll ops s else .ok s := by
  induction ops generalizing s with
  | nil => cases rows.all (Word.isSet s) <;> rfl
  | cons op ops ih =>
    have ih := ih (fun op h => range op (List.mem_cons_of_mem _ h))
      (fun op h => apart op (List.mem_cons_of_mem _ h))
    have hrange := range op List.mem_cons_self
    rw [List.map_cons, runAll_cons, Operation.run_controlledBy hrange, runAll_cons]
    by_cases hset : rows.all (Word.isSet s) = true
    · rw [if_pos hset, if_pos hset]
      match ht : op.run s with
      | .error e => rfl
      | .ok t =>
        have hkeep : rows.all (Word.isSet t) = true := by
          rw [List.all_eq_true] at hset ⊢
          intro r hr
          have h64 : r < 64 := hrange r (List.mem_append_right _ (List.mem_append_right _ hr))
          rw [Word.isSet_eq_testBit t h64,
            Operation.testBit_run ht h64 (apart op List.mem_cons_self r hr),
            ← Word.isSet_eq_testBit s h64]
          exact hset r hr
        exact (ih t).trans (if_pos hkeep)
    · rw [if_neg hset, if_neg hset]
      exact (ih s).trans (if_neg hset)

end QuantumBoard

import QuantumBoard.Proofs.Circuit.Frame

/-! # Operations on other rows

What an operation does depends on the places of its rows in its lists, not on the rows themselves.
So when the rows are exchanged for others, all different still, a run on the other rows does there
what it did on the first, fails for the same reason, and leaves everything else. -/

namespace QuantumBoard

open Word (testBit)

/-- An exchange of the rows of a state for other rows of a state, which are all different. -/
structure Relabels (f : Nat → Nat) (rows : List Nat) : Prop where
  injective : ∀ a ∈ rows, ∀ b ∈ rows, f a = f b → a = b
  source : ∀ r ∈ rows, r < 64
  target : ∀ r ∈ rows, f r < 64

/-- The second state has the bits of the first on the rows that they are exchanged for. -/
def Moved (f : Nat → Nat) (rows : List Nat) (s u : UInt64) : Prop :=
  ∀ r ∈ rows, testBit u (f r) = testBit s r

/-- Two outcomes of a run: both fail for a gate that is no map of basis states, the same one, or
both succeed, in states that have the same bits on their rows. -/
inductive Alike (f : Nat → Nat) (rows : List Nat) :
    Except RunError UInt64 → Except RunError UInt64 → Prop
  | error (name : String) : Alike f rows (.error (.notClassical name)) (.error (.notClassical name))
  | ok {s u : UInt64} : Moved f rows s u → Alike f rows (.ok s) (.ok u)

variable {f : Nat → Nat} {rows rows' : List Nat} {s u : UInt64}

theorem Relabels.mono (relabels : Relabels f rows) (sub : rows' ⊆ rows) : Relabels f rows' where
  injective a ha b hb := relabels.injective a (sub ha) b (sub hb)
  source r hr := relabels.source r (sub hr)
  target r hr := relabels.target r (sub hr)

theorem Moved.mono (moved : Moved f rows s u) (sub : rows' ⊆ rows) : Moved f rows' s u :=
  fun r hr => moved r (sub hr)

/-! ## Registers -/

namespace Relabels

variable (relabels : Relabels f rows) (nodup : rows.Nodup)

include relabels

theorem inRange : ∀ r ∈ rows.map f, r < 64 := by
  intro r hr
  obtain ⟨row, hrow, rfl⟩ := List.mem_map.mp hr
  exact relabels.target row hrow

theorem eq_iff {a b : Nat} (ha : a ∈ rows) (hb : b ∈ rows) : f a = f b ↔ a = b :=
  ⟨relabels.injective a ha b hb, congrArg f⟩

/-- The bits of the other rows are set when those of the rows are. -/
theorem all_isSet_map (moved : Moved f rows s u) :
    (rows.map f).all (Word.isSet u) = rows.all (Word.isSet s) := by
  rw [List.all_map, Bool.eq_iff_iff, List.all_eq_true, List.all_eq_true]
  refine forall₂_congr fun r hr => ?_
  rw [Function.comp_apply, Word.isSet_eq_testBit u (relabels.target r hr),
    Word.isSet_eq_testBit s (relabels.source r hr), moved r hr]

theorem exchange_map {a b : Nat} (ha : a ∈ rows) (hb : b ∈ rows) (moved : Moved f rows s u) :
    Moved f rows (exchange s a b) (exchange u (f a) (f b)) := by
  intro r hr
  rw [testBit_exchange u (relabels.target a ha) (relabels.target b hb) (relabels.target r hr),
    testBit_exchange s (relabels.source a ha) (relabels.source b hb) (relabels.source r hr),
    moved a ha, moved b hb, moved r hr]
  simp only [relabels.eq_iff hr ha, relabels.eq_iff hr hb]

theorem flip_map {a : Nat} (ha : a ∈ rows) (moved : Moved f rows s u) :
    Moved f rows (s ^^^ Word.single a) (u ^^^ Word.single (f a)) := by
  intro r hr
  rw [Word.testBit_xor, Word.testBit_xor, Word.testBit_single (relabels.target a ha),
    Word.testBit_single (relabels.source a ha), moved r hr]
  simp only [relabels.eq_iff hr ha]

include nodup

theorem nodup_map : (rows.map f).Nodup := nodup.map_on relabels.injective

/-- A row keeps its place. -/
theorem idxOf_map {r : Nat} (hr : r ∈ rows) : (rows.map f).idxOf (f r) = rows.idxOf r := by
  have place := List.idxOf_lt_length_of_mem hr
  have place' : rows.idxOf r < (rows.map f).length := by rwa [List.length_map]
  have same : (rows.map f)[rows.idxOf r] = f r := by rw [List.getElem_map, List.getElem_idxOf]
  rw [← same, (relabels.nodup_map nodup).idxOf_getElem]

/-- The other rows hold the same number. -/
theorem gather_map (moved : Moved f rows s u) :
    Word.gather u (rows.map f) = Word.gather s rows := by
  apply Word.eq_of_testBit
  intro k _
  rw [Word.testBit_gather (relabels.nodup_map nodup) relabels.inRange,
    Word.testBit_gather nodup relabels.source, List.getElem?_map]
  cases found : rows[k]? with
  | none => rfl
  | some r => exact moved r (List.mem_of_getElem? found)

/-- A map of a register is the same map of the other rows. -/
theorem onRegister_map (g : UInt64 → UInt64) (moved : Moved f rows s u) :
    Moved f rows (onRegister g rows s) (onRegister g (rows.map f) u) := by
  intro r hr
  rw [onRegister, onRegister, relabels.gather_map nodup moved,
    Word.testBit_scatter (relabels.nodup_map nodup) relabels.inRange (relabels.target r hr),
    Word.testBit_scatter nodup relabels.source (relabels.source r hr), if_pos hr,
    if_pos (List.mem_map_of_mem hr), relabels.idxOf_map nodup hr]

end Relabels

/-! ## Operations -/

namespace Operation

variable {op : Operation}

theorem rows_mapRows (op : Operation) (f : Nat → Nat) : (op.mapRows f).rows = op.rows.map f := by
  simp [rows, mapRows]

theorem mapRows_controlledBy (f : Nat → Nat) (rows : List Nat) (op : Operation) :
    (op.controlledBy rows).mapRows f = (op.mapRows f).controlledBy (rows.map f) := by
  simp [controlledBy, mapRows]

@[simp]
theorem mapRows_id : mapRows (fun row => row) = id := by
  funext op
  simp [mapRows]

theorem mapRows_inverse (f : Nat → Nat) (op : Operation) :
    op.inverse.mapRows f = (op.mapRows f).inverse := rfl

theorem mapRows_mapRows (f g : Nat → Nat) (op : Operation) :
    (op.mapRows f).mapRows g = op.mapRows (g ∘ f) := by
  simp [mapRows]

/-- An operation may be moved to other rows that are all different. -/
theorem WellPlaced.mapRows (placed : op.WellPlaced)
    (injective : ∀ a ∈ op.rows, ∀ b ∈ op.rows, f a = f b → a = b) : (op.mapRows f).WellPlaced where
  counted g action := by
    rw [Operation.mapRows, List.length_map]
    exact placed.counted g action
  distinct := by
    rw [rows_mapRows]
    exact placed.distinct.map_on injective

/-- A gate on wires does to the other rows what it does to its own. -/
theorem runWire_mapRows {g : WireGate} (counted : op.targets.length = g.numQubits)
    (relabels : Relabels f op.targets) (moved : Moved f op.targets s u) :
    Alike f op.targets (op.runWire g s) ((op.mapRows f).runWire g u) := by
  by_cases swap : g = .swap
  · subst swap
    obtain ⟨a, b, targets⟩ := List.length_eq_two.mp counted
    have targets' : (op.mapRows f).targets = [f a, f b] := by rw [mapRows, targets]; rfl
    rw [runWire_swap op targets, runWire_swap _ targets']
    exact .ok (relabels.exchange_map (by simp [targets]) (by simp [targets]) moved)
  · have single : g.numQubits = 1 := by
      cases g <;> first | rfl | exact absurd rfl swap
    obtain ⟨row, targets⟩ := List.length_eq_one_iff.mp (counted.trans single)
    have targets' : (op.mapRows f).targets = [f row] := by rw [mapRows, targets]; rfl
    rw [runWire_of_ne_swap op swap, runWire_of_ne_swap _ swap]
    match flips : g.flips? with
    | none => exact .error op.name
    | some false => exact .ok moved
    | some true =>
      have flipped : Moved f op.targets (s ^^^ Word.single row) (u ^^^ Word.single (f row)) :=
        relabels.flip_map (by simp [targets]) moved
      rw [targets']
      rw [targets] at flipped ⊢
      exact .ok flipped

theorem act_mapRows (placed : op.WellPlaced) (relabels : Relabels f op.targets)
    (moved : Moved f op.targets s u) :
    Alike f op.targets (op.act s) ((op.mapRows f).act u) := by
  have nodup := (List.nodup_append.mp placed.distinct).1
  have action : (op.mapRows f).action = op.action := rfl
  match kind : op.action with
  | .measure | .phase _ | .gate ⟨.register (.gradient _ _), _⟩ =>
    rw [act, act, action, kind]
    exact .ok moved
  | .gate ⟨.register (.fourier _ _), _⟩ | .gate ⟨.matrix _, _⟩ =>
    rw [act, act, action, kind]
    exact .error op.name
  | .gate ⟨.register (.permutation _), _⟩ | .gate ⟨.arithmetic _, _⟩ =>
    rw [act, act, action, kind]
    exact .ok (relabels.onRegister_map nodup _ moved)
  | .gate ⟨.wire g, _⟩ =>
    rw [act, act, action, kind]
    exact runWire_mapRows (placed.counted _ kind) relabels moved

/-- An operation that was accepted does to the other rows what it does to its own. -/
theorem run_mapRows (placed : op.WellPlaced) (within : op.rows ⊆ rows)
    (relabels : Relabels f rows) (moved : Moved f rows s u) :
    Alike f rows (op.run s) ((op.mapRows f).run u) := by
  obtain ⟨targets, controls⟩ := List.append_subset.mp within
  have range : op.InRange := (relabels.mono within).source
  have range' : (op.mapRows f).InRange := by
    rw [InRange, rows_mapRows]
    exact (relabels.mono within).inRange
  have steered : (op.mapRows f).controls.all (Word.isSet u) = op.controls.all (Word.isSet s) :=
    (relabels.mono controls).all_isSet_map (moved.mono controls)
  rw [run_of_inRange range, run_of_inRange range', steered]
  split
  · have acted := act_mapRows placed (relabels.mono targets) (moved.mono targets)
    generalize acts : op.act s = outcome at acted ⊢
    generalize acts' : (op.mapRows f).act u = outcome' at acted ⊢
    cases acted with
    | error name => exact .error name
    | ok kept =>
      refine .ok fun r hr => ?_
      by_cases target : r ∈ op.targets
      · exact kept r target
      -- no other row is exchanged for a target
      have target' : f r ∉ (op.mapRows f).targets := by
        intro mem
        obtain ⟨a, ha, same⟩ := List.mem_map.mp mem
        exact target (relabels.injective a (targets ha) r hr same ▸ ha)
      rw [testBit_act_of_not_mem_targets range.targets acts (relabels.source r hr) target,
        testBit_act_of_not_mem_targets range'.targets acts' (relabels.target r hr) target',
        moved r hr]
  · exact .ok moved

end Operation

/-! ## Circuits -/

theorem touched_map (f : Nat → Nat) (ops : List Operation) :
    touched (ops.map (Operation.mapRows f)) = (touched ops).map f := by
  simp only [touched, List.flatMap_map, List.map_flatMap, Operation.rows_mapRows]

/-- Operations that were accepted do to the other rows what they do to their own. -/
theorem runAll_mapRows {ops : List Operation} (placed : ∀ op ∈ ops, op.WellPlaced)
    (within : touched ops ⊆ rows) (relabels : Relabels f rows) (moved : Moved f rows s u) :
    Alike f rows (runAll ops s) (runAll (ops.map (Operation.mapRows f)) u) := by
  induction ops generalizing s u with
  | nil => exact .ok moved
  | cons op ops ih =>
    obtain ⟨own, later⟩ := List.append_subset.mp within
    have first := Operation.run_mapRows (placed op List.mem_cons_self) own relabels moved
    rw [List.map_cons, runAll_cons, runAll_cons]
    generalize op.run s = outcome at first ⊢
    generalize (op.mapRows f).run u = outcome' at first ⊢
    cases first with
    | error name => exact .error name
    | ok moved => exact ih (fun op hop => placed op (List.mem_cons_of_mem _ hop)) later moved

namespace Circuit

/-- The circuit with its operations on other rows. -/
def mapRows (f : Nat → Nat) (c : Circuit) : Circuit :=
  { c with operations := c.operations.map (Operation.mapRows f) }

variable {c : Circuit}

/-- Operations that can be added, on other rows that are all different, can be added still. -/
theorem Built.mapRows (built : c.Built)
    (relabels : Relabels f (touched c.operations.toList)) : (c.mapRows f).Built := by
  refine built_of_wellPlaced fun op hop => ?_
  obtain ⟨own, hown, rfl⟩ : ∃ own ∈ c.operations.toList, own.mapRows f = op := by
    simpa [Circuit.mapRows] using hop
  have within : own.rows ⊆ touched c.operations.toList :=
    fun r hr => mem_touched.mpr ⟨own, hown, hr⟩
  exact (built.wellPlaced own hown).mapRows (relabels.mono within).injective

/-- A circuit that is moved to other rows is built of operations as before, runs alike in states
that have the same bits on the rows, and changes no row but those that it was moved to. -/
theorem run_relabelled (built : c.Built) (relabels : Relabels f (touched c.operations.toList))
    (moved : Moved f (touched c.operations.toList) s u) :
    (c.mapRows f).Built ∧
      Alike f (touched c.operations.toList) (c.run s) ((c.mapRows f).run u) ∧
      ∀ u', (c.mapRows f).run u = .ok u' →
        ∀ k, (∀ r ∈ touched c.operations.toList, f r ≠ k) → testBit u' k = testBit u k := by
  have operations : (c.mapRows f).operations.toList =
      c.operations.toList.map (Operation.mapRows f) := Array.toList_map
  refine ⟨built.mapRows relabels, ?_, fun u' ran k outside => ?_⟩
  · rw [run, run, operations]
    exact runAll_mapRows built.wellPlaced (List.Subset.refl _) relabels moved
  · refine leaves_of_not_mem_touched (fun mem => ?_) u u' ran
    rw [operations, touched_map] at mem
    obtain ⟨r, hr, same⟩ := List.mem_map.mp mem
    exact outside r hr same

/-- Rows spread out over a state. -/
def spread (row : Nat) : Nat := (5 * row + 7) % 64

/-- A state with the bits of state 586 where they are spread to, and two more, at rows 0 and 63. -/
def spreadState : UInt64 :=
  Word.single 12 ||| Word.single 22 ||| Word.single 37 ||| Word.single 52 ||| Word.single 0 |||
    Word.single 63

/-- The bits that state 586 leads to end up where they are spread to, and the two more stay. -/
theorem run_relabelled_scattered : ∃ u', (scattered.mapRows spread).run spreadState = .ok u' ∧
    Moved spread [9, 4, 1, 7, 3, 6, 0] 538 u' ∧ testBit u' 0 = true ∧ testBit u' 63 = true := by
  have built : scattered.Built := .extend scatteredOperations (.empty "")
  have ran : scattered.run 586 = .ok 538 := by decide +kernel
  have relabels : Relabels spread (touched scattered.operations.toList) :=
    ⟨by decide, by decide, by decide⟩
  have moved : Moved spread (touched scattered.operations.toList) 586 spreadState := by
    unfold Moved
    decide +kernel
  obtain ⟨-, alike, others⟩ := run_relabelled built relabels moved
  rw [ran] at alike
  generalize (scattered.mapRows spread).run spreadState = outcome at alike others ⊢
  cases alike with
  | @ok _ u' kept =>
    have away : ∀ k ∈ [0, 63], ∀ r ∈ touched scattered.operations.toList, spread r ≠ k := by decide
    refine ⟨u', rfl, kept.mono (by decide), ?_, ?_⟩
    · exact (others u' rfl 0 (away 0 (by decide))).trans (by decide +kernel)
    · exact (others u' rfl 63 (away 63 (by decide))).trans (by decide +kernel)

end Circuit

end QuantumBoard

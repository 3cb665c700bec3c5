import QuantumBoard.Circuit.Basic
import QuantumBoard.Proofs.Circuit.Locality
import QuantumBoard.Proofs.Decimal.Sign
import QuantumBoard.Proofs.Gate.Permutation
import QuantumBoard.Proofs.Gate.Transform

/-! # Inverses undo basis states

Every gate that maps basis states to basis states is undone by its inverse, and the bits that
steer an operation are none of the bits that it writes. So the operation that an inverse
takes back is skipped exactly when it was skipped, and a whole circuit is undone by the
inverses of its operations in reverse order. -/

namespace QuantumBoard

open Word (testBit lowBits)

/-! ## Gates -/

/-- The parts of a gate fit together: a mapping is a rearrangement, a matrix has an entry for
every pair of basis states, and the registers of an arithmetic gate have at least a row each, and
together as many as the gate has qubits. -/
def GateKind.Sound : GateKind → Prop
  | .register (.permutation mapping) => IsRearrangement mapping
  | .matrix g => g.entries.size = 2 ^ g.width * 2 ^ g.width
  | .arithmetic g =>
    1 ≤ g.targetWidth ∧ (∀ w ∈ g.inputWidths, 1 ≤ w) ∧ g.numQubits = g.span
  | _ => True

/-- A mapping is a rearrangement, and a matrix has an entry for every pair of basis states. -/
def GateKind.Proper : GateKind → Prop
  | .register (.permutation mapping) => IsRearrangement mapping
  | .matrix g => g.entries.size = 2 ^ g.width * 2 ^ g.width
  | _ => True

theorem GateKind.Sound.proper {kind : GateKind} (h : kind.Sound) : kind.Proper := by
  match kind with
  | .wire _ | .register (.fourier _ _) | .register (.gradient _ _) | .arithmetic _ => trivial
  | .register (.permutation _) | .matrix _ => exact h

theorem GateKind.Proper.invertible {kind : GateKind} (h : kind.Proper) :
    kind.invertible = true := by
  match kind with
  | .wire _ | .arithmetic _ => rfl
  | .register (.fourier _ _) | .register (.gradient _ _) => rfl
  | .register (.permutation mapping) =>
    have places : ∀ p ∈ mapping, p < mapping.length := fun _ => (IsRearrangement.mem_iff h).mp
    simpa [GateKind.invertible, RegisterGate.invertible] using places
  | .matrix g =>
    have size : g.entries.size = 2 ^ (2 * g.width) := by
      rw [show g.entries.size = 2 ^ g.width * 2 ^ g.width from h, ← Nat.pow_add, Nat.two_mul]
    have log : (2 ^ (2 * g.width)).log2 = 2 * g.width := Nat.log2_two_pow
    have product : 2 ^ g.width * 2 ^ g.width = 2 ^ (2 * g.width) := by
      rw [← Nat.pow_add, Nat.two_mul]
    simp [GateKind.invertible, MatrixGate.invertible, size, log, product]

/-- The inverse of a sound gate is sound. -/
theorem GateKind.Sound.inverse {kind : GateKind} (h : kind.Sound) : kind.inverse.Sound := by
  match kind with
  | .wire _ | .register (.fourier _ _) | .register (.gradient _ _) => trivial
  | .arithmetic _ => exact h
  | .register (.permutation mapping) => exact RegisterGate.invertMapping_isRearrangement h
  | .matrix g => simp [GateKind.inverse, MatrixGate.adjoint, GateKind.Sound]

@[simp] theorem GateKind.numQubits_inverse (kind : GateKind) :
    kind.inverse.numQubits = kind.numQubits := by
  match kind with
  | .wire g => cases g <;> rfl
  | .arithmetic _ | .matrix _ => rfl
  | .register (.fourier _ _) | .register (.gradient _ _) => rfl
  | .register (.permutation mapping) => exact RegisterGate.length_invertMapping mapping

namespace WireGate

/-- The opposite power of a flip flips the same. -/
theorem powerFlips?_neg (x : Float) : powerFlips? (-x) = powerFlips? x := by
  unfold powerFlips?
  rw [Decimal.Magnitude.ofFloat_neg, Decimal.isFinite_neg]

theorem value?_negated (e : Expr) : e.negated.value? = e.value?.map fun v => -v := by
  unfold Expr.negated
  match h : e.value? with
  | some v => rfl
  | none => simp [Expr.value?, h]

theorem flips?_inverse (g : WireGate) : g.inverse.flips? = g.flips? := by
  match g with
  | identity | hadamard | pauli _ | swap | power .z _ => rfl
  | rotation axis _ => cases axis <;> rfl
  | power .x e | power .y e =>
    show e.negated.value?.bind powerFlips? = e.value?.bind powerFlips?
    rw [value?_negated]
    cases e.value? with
    | none => rfl
    | some v => exact powerFlips?_neg v

/-- No change of its parameter makes a gate a swap. -/
theorem mapParameter_eq_swap {f : Expr → Expr} {g : WireGate} :
    g.mapParameter f = swap ↔ g = swap := by
  cases g <;> simp [mapParameter]

end WireGate

/-! ## Registers -/

theorem Word.gather_and_lowBits {rows : List Nat} (nodup : rows.Nodup)
    (range : ∀ r ∈ rows, r < 64) (s : UInt64) :
    gather s rows &&& lowBits rows.length = gather s rows := by
  rw [← gather_scatter nodup range, scatter_gather nodup range]

/-- A map of a register that stays within its width is undone by what undoes it there. -/
theorem onRegister_inverse {f g : UInt64 → UInt64} {rows : List Nat} (nodup : rows.Nodup)
    (range : ∀ r ∈ rows, r < 64) {s : UInt64}
    (cut : f (Word.gather s rows) &&& lowBits rows.length = f (Word.gather s rows))
    (undo : g (f (Word.gather s rows)) = Word.gather s rows) :
    onRegister g rows (onRegister f rows s) = s := by
  unfold onRegister
  rw [Word.gather_scatter nodup range, cut, undo, Word.scatter_scatter nodup range,
    Word.scatter_gather nodup range]

theorem exchange_exchange (s : UInt64) {a b : Nat} (ha : a < 64) (hb : b < 64) :
    exchange (exchange s a b) a b = s := by
  apply Word.eq_of_testBit
  intro k hk
  rw [testBit_exchange _ ha hb hk, testBit_exchange _ ha hb ha, testBit_exchange _ ha hb hb,
    testBit_exchange _ ha hb hk]
  grind

theorem xor_single_xor_single (s : UInt64) (row : Nat) :
    s ^^^ Word.single row ^^^ Word.single row = s := by
  rw [UInt64.xor_assoc, UInt64.xor_self, UInt64.xor_zero]

/-! ## Operations -/

/-- The gate of the operation, if it is one, is sound. -/
def Operation.Sound (op : Operation) : Prop :=
  match op.action with
  | .gate g => g.kind.Sound
  | _ => True

/-- The gate of the operation, if it is one, is proper. -/
def Operation.Proper (op : Operation) : Prop :=
  match op.action with
  | .gate g => g.kind.Proper
  | _ => True

namespace Operation

variable {op : Operation}

theorem firstRepeat?_eq_none {seen rows : List Nat} :
    firstRepeat? seen rows = none ↔ rows.Nodup ∧ ∀ r ∈ rows, r ∉ seen := by
  induction rows generalizing seen with
  | nil => simp [firstRepeat?]
  | cons row rows ih =>
    rw [firstRepeat?]
    by_cases h : row ∈ seen
    · simp [h]
    · rw [if_neg h, ih]
      grind

/-- An operation is accepted when it has a target for each qubit of its gate and its rows are
all different. -/
theorem placementError?_eq_none : op.placementError? = none ↔
    (∀ n, op.arity? = some n → n = op.targets.length) ∧ op.rows.Nodup := by
  unfold placementError?
  match harity : op.arity? with
  | none =>
    rw [Option.filter_none]
    simp [firstRepeat?_eq_none]
  | some n =>
    by_cases hn : n = op.targets.length
    · simp [Option.filter_some, hn, firstRepeat?_eq_none]
    · simp [Option.filter_some, hn]

theorem arity?_inverse (op : Operation) : op.inverse.arity? = op.arity? := by
  match op with
  | ⟨.gate g, _, _⟩ => exact congrArg some g.kind.numQubits_inverse
  | ⟨.measure, _, _⟩ | ⟨.phase _, _, _⟩ => rfl

/-- The inverse of an operation goes where the operation went. -/
theorem placementError?_inverse (placed : op.placementError? = none) :
    op.inverse.placementError? = none := by
  rw [placementError?_eq_none] at placed ⊢
  rw [arity?_inverse]
  exact placed

theorem Sound.proper (sound : op.Sound) : op.Proper := by
  match op with
  | ⟨.gate g, _, _⟩ => exact GateKind.Sound.proper sound
  | ⟨.measure, _, _⟩ | ⟨.phase _, _, _⟩ => trivial

/-- A proper operation has an inverse. -/
theorem Proper.invertible (proper : op.Proper) : op.action.invertible = true := by
  match op with
  | ⟨.gate g, _, _⟩ => exact GateKind.Proper.invertible proper
  | ⟨.measure, _, _⟩ | ⟨.phase _, _, _⟩ => rfl

theorem Sound.inverse (sound : op.Sound) : op.inverse.Sound := by
  match op with
  | ⟨.gate g, _, _⟩ => exact GateKind.Sound.inverse sound
  | ⟨.measure, _, _⟩ | ⟨.phase _, _, _⟩ => trivial

/-- A gate on wires is undone by its inverse. -/
theorem runWire_inverse (op op' : Operation) (same : op'.targets = op.targets)
    (range : ∀ r ∈ op.targets, r < 64) {g : WireGate} {s s' : UInt64}
    (h : op.runWire g s = .ok s') : op'.runWire g.inverse s' = .ok s := by
  by_cases hg : g = .swap
  · subst hg
    rcases ht : op.targets with _ | ⟨a, _ | ⟨b, rest⟩⟩
    · simp only [runWire, ht] at h
      cases h
    · simp only [runWire, ht] at h
      cases h
    · have ha : a < 64 := range a (by simp [ht])
      have hb : b < 64 := range b (by simp [ht])
      rw [runWire_swap op ht] at h
      cases h
      exact (runWire_swap op' (same.trans ht) _).trans (congrArg _ (exchange_exchange s ha hb))
  · rw [runWire_of_ne_swap op hg] at h
    have other : g.inverse ≠ .swap := mt WireGate.mapParameter_eq_swap.mp hg
    rw [runWire_of_ne_swap op' other, g.flips?_inverse, same]
    rcases hflip : g.flips? with _ | _ | _
    · rw [hflip] at h
      cases h
    · rw [hflip] at h
      cases h
      rfl
    · cases ht : op.targets with
      | nil =>
        rw [hflip, ht] at h
        cases h
      | cons row rows =>
        rw [hflip, ht] at h
        cases h
        exact congrArg _ (xor_single_xor_single s row)

/-- What an action does to a basis state is undone by the inverse action. -/
theorem act_inverse (sound : op.Sound) (arity : ∀ n, op.arity? = some n → n = op.targets.length)
    (nodup : op.targets.Nodup) (range : ∀ r ∈ op.targets, r < 64) {s s' : UInt64}
    (h : op.act s = .ok s') : op.inverse.act s' = .ok s := by
  have fit := Word.length_le_of_nodup nodup range
  match op with
  | ⟨.measure, targets, controls⟩ | ⟨.phase _, targets, controls⟩
  | ⟨.gate ⟨.register (.gradient _ _), _⟩, targets, controls⟩ =>
    cases h
    rfl
  | ⟨.gate ⟨.register (.fourier _ _), _⟩, targets, controls⟩
  | ⟨.gate ⟨.matrix _, _⟩, targets, controls⟩ => cases h
  | ⟨.gate ⟨.wire g, label⟩, targets, controls⟩ =>
    let op : Operation := ⟨.gate ⟨.wire g, label⟩, targets, controls⟩
    exact runWire_inverse op op.inverse rfl range h
  | ⟨.gate ⟨.register (.permutation mapping), label⟩, targets, controls⟩ =>
    have rearrangement : IsRearrangement mapping := sound
    have length : mapping.length = targets.length := arity _ rfl
    have fit : targets.length ≤ 64 := fit
    cases h
    refine congrArg _ (onRegister_inverse nodup range ?_ ?_)
    · rw [← length]
      exact permute_and_lowBits rearrangement (by omega) _
    · apply permute_invertMapping rearrangement (by omega)
      rw [length]
      exact Word.gather_and_lowBits nodup range s
  | ⟨.gate ⟨.arithmetic g, label⟩, targets, controls⟩ =>
    obtain ⟨-, inputs, whole⟩ :
      1 ≤ g.targetWidth ∧ (∀ w ∈ g.inputWidths, 1 ≤ w) ∧ g.numQubits = g.span := sound
    have length : g.span = targets.length := whole.symm.trans (arity _ rfl)
    have fit : targets.length ≤ 64 := fit
    cases h
    refine congrArg _ (onRegister_inverse nodup range ?_ ?_)
    · rw [← length]
      apply g.applyToBits_and_lowBits
      rw [length]
      exact Word.gather_and_lowBits nodup range s
    · exact g.applyToBits_inverse inputs (by omega) _

/-- An operation is undone by its inverse: a skipped one is skipped, as the controls stay. -/
theorem run_inverse (sound : op.Sound) (placed : op.placementError? = none) {s s' : UInt64}
    (h : op.run s = .ok s') : op.inverse.run s' = .ok s := by
  obtain ⟨arity, nodup⟩ := placementError?_eq_none.mp placed
  obtain ⟨nodup, -, apart⟩ := List.nodup_append.mp nodup
  have inRange := inRange_of_run h
  have controls : op.controls.all (Word.isSet s') = op.controls.all (Word.isSet s) :=
    isSet_congr inRange fun r hr =>
      testBit_run h (inRange.controls r hr) fun ht => apart r ht r hr rfl
  have backwards : op.inverse.InRange := inRange
  rw [run_of_inRange inRange] at h
  rw [run_of_inRange backwards]
  show (if op.controls.all (Word.isSet s') then op.inverse.act s' else .ok s') = .ok s
  rw [controls]
  split at h
  · rename_i set
    rw [if_pos set]
    exact act_inverse sound arity nodup inRange.targets h
  · rename_i unset
    rw [if_neg unset]
    exact h.symm

end Operation

/-- A run is undone by the inverses in reverse order. -/
theorem runAll_inverse {ops : List Operation} (sound : ∀ op ∈ ops, op.Sound)
    (placed : ∀ op ∈ ops, op.placementError? = none) {s s' : UInt64}
    (h : runAll ops s = .ok s') : runAll (ops.map Operation.inverse).reverse s' = .ok s := by
  induction ops generalizing s with
  | nil =>
    cases h
    rfl
  | cons op ops ih =>
    obtain ⟨t, ht, h⟩ := runAll_cons_ok h
    have ih := ih (fun op h => sound op (List.mem_cons_of_mem _ h))
      (fun op h => placed op (List.mem_cons_of_mem _ h)) h
    have last := Operation.run_inverse (sound op List.mem_cons_self)
      (placed op List.mem_cons_self) ht
    rw [List.map_cons, List.reverse_cons, runAll_append, ih]
    show runAll [op.inverse] t = .ok s
    rw [runAll_cons, last]
    rfl

/-! ## Circuits -/

namespace Circuit

/-- The circuits that come from the empty one by adding operations. -/
inductive Built : Circuit → Prop
  | empty (name : String) : Built ⟨name, #[]⟩
  | push {c c' : Circuit} {op : Operation} : Built c → c.push op = .ok c' → Built c'
  | extend {c : Circuit} (ops : List Operation) : Built c → Built (c.extend ops).1

theorem push_eq_ok {c c' : Circuit} {op : Operation} : c.push op = .ok c' ↔
    op.placementError? = none ∧ c' = { c with operations := c.operations.push op } := by
  unfold push
  cases op.placementError? with
  | none => simp [eq_comm]
  | some e => simp

/-- Every operation is one that can be added. -/
def Placed (c : Circuit) : Prop := ∀ op ∈ c.operations.toList, op.placementError? = none

theorem Placed.push {c c' : Circuit} {op : Operation} (placed : c.Placed)
    (h : c.push op = .ok c') : c'.Placed := by
  obtain ⟨accepted, rfl⟩ := push_eq_ok.mp h
  intro op' hop
  rw [Array.toList_push, List.mem_append, List.mem_singleton] at hop
  rcases hop with hop | rfl
  · exact placed op' hop
  · exact accepted

theorem Placed.extend {c : Circuit} (placed : c.Placed) (ops : List Operation) :
    (c.extend ops).1.Placed := by
  induction ops generalizing c with
  | nil => exact placed
  | cons op ops ih =>
    rw [Circuit.extend]
    match h : c.push op with
    | .error e => exact placed
    | .ok c' => exact ih (placed.push h)

theorem Built.placed {c : Circuit} (built : c.Built) : c.Placed := by
  induction built with
  | empty name => exact nofun
  | push _ h ih => exact ih.push h
  | extend ops _ ih => exact ih.extend ops

theorem pushInverse_eq_ok {op : Operation} (sound : op.Sound) (placed : op.placementError? = none)
    (c : Circuit) :
    c.pushInverse op = .ok { c with operations := c.operations.push op.inverse } := by
  rw [pushInverse, if_pos sound.proper.invertible,
    push_eq_ok.mpr ⟨Operation.placementError?_inverse placed, rfl⟩]
  rfl

/-- The inverses are added one by one, and each is accepted. -/
theorem foldlM_pushInverse {ops : List Operation} (sound : ∀ op ∈ ops, op.Sound)
    (placed : ∀ op ∈ ops, op.placementError? = none) (c : Circuit) :
    ops.foldlM pushInverse c =
      .ok { c with operations := c.operations ++ (ops.map Operation.inverse).toArray } := by
  induction ops generalizing c with
  | nil => simp [pure, Except.pure]
  | cons op ops ih =>
    rw [List.foldlM_cons,
      pushInverse_eq_ok (sound op List.mem_cons_self) (placed op List.mem_cons_self)]
    refine (ih (fun op h => sound op (List.mem_cons_of_mem _ h))
      (fun op h => placed op (List.mem_cons_of_mem _ h)) _).trans ?_
    simp

theorem inverse_eq_ok {c : Circuit} (built : c.Built)
    (sound : ∀ op ∈ c.operations.toList, op.Sound) :
    c.inverse = .ok ⟨c.name, (c.operations.toList.map Operation.inverse).reverse.toArray⟩ := by
  rw [inverse, foldlM_pushInverse (fun op h => sound op (List.mem_reverse.mp h))
    (fun op h => built.placed op (List.mem_reverse.mp h)), List.map_reverse]
  simp

end Circuit

end QuantumBoard

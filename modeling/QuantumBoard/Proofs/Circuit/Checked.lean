import QuantumBoard.Proofs.Circuit.Rejection
import QuantumBoard.Proofs.Success
import QuantumBoard.Proofs.Word.Checked

/-! # Runs on a machine that checks each step

An operation that is well placed and sound runs on the checked machine as it does elsewhere: the
count of its targets covers the rows that its gate asks for, rows that are all different are at
most 64, a rearrangement of a register stays inside it, and no input register of an arithmetic
gate begins at the end of a word. -/

namespace QuantumBoard

open Success

namespace Checked

/-! ## Gates -/

/-- Moves bit `i` to place `mapping[i]`, for the places from `i` on. -/
def permuteFrom (bits : UInt64) (i : Nat) : List Nat → Except Fault UInt64
  | [] => .ok 0
  | place :: mapping => do
    let moved ← shiftLeft (← bit bits i) place
    return moved ||| (← permuteFrom bits (i + 1) mapping)

/-- Exchanges the bits of the first two rows. -/
def exchange (state : UInt64) (rows : List Nat) : Except Fault UInt64 := do
  let first ← rowAt rows 0
  let second ← rowAt rows 1
  let atFirst ← bit state first
  let atSecond ← bit state second
  let cleared := state &&& ~~~(← single first) &&& ~~~(← single second)
  return cleared ||| (← shiftLeft atSecond first) ||| (← shiftLeft atFirst second)

/-- The numbers in registers of the given widths that follow each other from a bit on. -/
def slices (bits : UInt64) (offset : Nat) : List Nat → Except Fault (List UInt64)
  | [] => .ok []
  | width :: widths => do
    let value := (← shiftRight bits offset) &&& (← lowBits width)
    return value :: (← slices bits (← advance offset width) widths)

/-- The number that replaces `x`, before it is cut. A reflection takes differences; all else wraps
around, or is done bit by bit. -/
def wide (x a b : UInt64) : Transform → Except Fault UInt64
  | .flipBelow => if x < a then do sub (← sub a x) 1 else .ok x
  | t => .ok (t.wide x a b)

def transform (t : Transform) (x : UInt64) (values : List UInt64) (width : Nat) :
    Except Fault UInt64 := do
  return (← wide x (values[0]?.getD 0) (values[1]?.getD 0) t) &&& (← lowBits width)

def applyToBits (g : ArithmeticGate) (bits : UInt64) : Except Fault UInt64 := do
  let low ← lowBits g.targetWidth
  let values ← slices bits g.targetWidth g.inputWidths
  return bits &&& ~~~low ||| (← transform g.transform (bits &&& low) values g.targetWidth)

def onRegister (f : UInt64 → Except Fault UInt64) (rows : List Nat) (state : UInt64) :
    Except Fault UInt64 := do
  scatter state rows (← f (← gather state rows))

variable {state bits : UInt64} {rows mapping widths : List Nat}

theorem permuteFrom_eq (range : ∀ p ∈ mapping, p < 64) {i : Nat}
    (fit : i + mapping.length ≤ 64) :
    permuteFrom bits i mapping = .ok (QuantumBoard.permuteFrom bits i mapping) := by
  induction mapping generalizing i with
  | nil => rfl
  | cons place mapping ih =>
    rw [List.length_cons] at fit
    rw [permuteFrom, bit_eq (by omega), ok_bind, shiftLeft_eq (range place List.mem_cons_self),
      ok_bind, ih (fun p hp => range p (List.mem_cons_of_mem _ hp)) (by omega)]
    rfl

theorem exchange_eq {first second : Nat} {rest : List Nat} (h : first < 64) (h' : second < 64) :
    exchange state (first :: second :: rest) =
      .ok (QuantumBoard.exchange state first second) := by
  rw [exchange, rowAt_eq rfl, ok_bind, rowAt_eq rfl, ok_bind, bit_eq h, ok_bind, bit_eq h',
    ok_bind, single_eq h, ok_bind, single_eq h', ok_bind, shiftLeft_eq h, ok_bind,
    shiftLeft_eq h']
  rfl

/-- Registers that are not empty begin before the end of the word in which they fit. -/
theorem slices_eq (pos : ∀ w ∈ widths, 1 ≤ w) {offset : Nat}
    (fit : offset + ArithmeticGate.totalWidth widths ≤ 64) :
    slices bits offset widths = .ok (ArithmeticGate.slices bits offset widths) := by
  induction widths generalizing offset with
  | nil => rfl
  | cons width widths ih =>
    have one := pos width List.mem_cons_self
    have total : ArithmeticGate.totalWidth (width :: widths) =
        width + ArithmeticGate.totalWidth widths := rfl
    rw [slices, shiftRight_eq (by omega), ok_bind, lowBits_eq, ok_bind, advance_eq (by omega),
      ok_bind, ih (fun w hw => pos w (List.mem_cons_of_mem _ hw)) (by omega)]
    rfl

theorem wide_eq (t : Transform) (x a b : UInt64) : wide x a b t = .ok (t.wide x a b) := by
  cases t with
  | flipBelow =>
    unfold wide Transform.wide
    by_cases below : x < a
    · have one : 1 ≤ a - x := by
        have below := UInt64.lt_iff_toNat_lt.mp below
        rw [UInt64.le_iff_toNat_le,
          UInt64.toNat_sub_of_le _ _ (UInt64.le_iff_toNat_le.mpr (Nat.le_of_lt below)),
          UInt64.toNat_one]
        omega
      rw [if_pos below, if_pos below, sub_eq (UInt64.le_of_lt below), ok_bind, sub_eq one]
    · rw [if_neg below, if_neg below]
  | _ => rfl

theorem transform_eq (t : Transform) (x : UInt64) (values : List UInt64) (width : Nat) :
    transform t x values width = .ok (t.apply x values width) := by
  rw [transform, wide_eq, ok_bind, lowBits_eq]
  rfl

theorem applyToBits_eq {g : ArithmeticGate} (pos : ∀ w ∈ g.inputWidths, 1 ≤ w)
    (fit : g.span ≤ 64) : applyToBits g bits = .ok (g.applyToBits bits) := by
  rw [applyToBits, lowBits_eq, ok_bind, slices_eq pos fit, ok_bind, transform_eq]
  rfl

theorem onRegister_eq {f : UInt64 → Except Fault UInt64} {g : UInt64 → UInt64}
    (same : ∀ bits, f bits = .ok (g bits)) (range : ∀ r ∈ rows, r < 64)
    (fit : rows.length ≤ 64) :
    onRegister f rows state = .ok (QuantumBoard.onRegister g rows state) := by
  rw [onRegister, gather, gatherFrom_eq range (by omega), ok_bind, same, ok_bind, scatter,
    scatterFrom_eq range (by omega)]
  rfl

/-! ## Operations -/

/-- What a gate on one or two wires does to a basis state. -/
def runWire (op : Operation) (state : UInt64) :
    WireGate → Except Fault (Except RunError UInt64)
  | .swap => do return .ok (← exchange state op.targets)
  | g =>
    match g.flips? with
    | none => .ok (.error (.notClassical op.name))
    | some false => .ok (.ok state)
    | some true => do return .ok (state ^^^ (← single (← rowAt op.targets 0)))

/-- What an operation does to a basis state in which its controls are set. -/
def act (op : Operation) (state : UInt64) : Except Fault (Except RunError UInt64) :=
  match op.action with
  | .measure | .phase _ => .ok (.ok state)
  | .gate ⟨.wire g, _⟩ => runWire op state g
  | .gate ⟨.register (.gradient _ _), _⟩ => .ok (.ok state)
  | .gate ⟨.register (.permutation mapping), _⟩ => do
    return .ok (← onRegister (permuteFrom · 0 mapping) op.targets state)
  | .gate ⟨.arithmetic g, _⟩ => do return .ok (← onRegister (applyToBits g) op.targets state)
  | .gate ⟨.register (.fourier _ _), _⟩ | .gate ⟨.matrix _, _⟩ =>
    .ok (.error (.notClassical op.name))

/-- What an operation does to a basis state; the rows are compared with 64 before anything is
shifted by them. -/
def run (op : Operation) (state : UInt64) : Except Fault (Except RunError UInt64) :=
  match op.rows.find? (64 ≤ ·) with
  | some row => .ok (.error (.outOfRange row))
  | none => do if ← allSet state op.controls then act op state else return .ok state

/-- Runs operations one after the other, up to the first that fails. -/
def runAll (state : UInt64) : List Operation → Except Fault (Except RunError UInt64)
  | [] => .ok (.ok state)
  | op :: ops => do
    match ← run op state with
    | .ok state => runAll state ops
    | .error e => return .error e

variable {op : Operation}

theorem runWire_eq {g : WireGate} (count : op.targets.length = g.numQubits)
    (range : ∀ r ∈ op.targets, r < 64) : runWire op state g = .ok (op.runWire g state) := by
  by_cases swap : g = .swap
  · subst swap
    obtain ⟨first, second, targets⟩ := List.length_eq_two.mp count
    have h : first < 64 := range first (by simp [targets])
    have h' : second < 64 := range second (by simp [targets])
    rw [Operation.runWire_swap op targets, runWire, targets, exchange_eq h h']
    rfl
  · have one : g.numQubits = 1 := by
      cases g with
      | swap => exact absurd rfl swap
      | _ => rfl
    obtain ⟨row, targets⟩ := List.length_eq_one_iff.mp (count.trans one)
    have h : row < 64 := range row (by simp [targets])
    rw [Operation.runWire_of_ne_swap op swap, runWire.eq_2 op state g swap]
    match g.flips? with
    | none | some false => rfl
    | some true =>
      simp only [targets]
      rw [rowAt_eq rfl, ok_bind, single_eq h]
      rfl

theorem act_eq (sound : op.Sound) (placed : op.WellPlaced) (range : ∀ r ∈ op.targets, r < 64) :
    act op state = .ok (op.act state) := by
  have fit := Word.length_le_of_nodup (List.nodup_append.mp placed.distinct).1 range
  match op, placed.counted with
  | ⟨.measure, _, _⟩, _ | ⟨.phase _, _, _⟩, _ | ⟨.gate ⟨.register (.gradient _ _), _⟩, _, _⟩, _
  | ⟨.gate ⟨.register (.fourier _ _), _⟩, _, _⟩, _ | ⟨.gate ⟨.matrix _, _⟩, _, _⟩, _ => rfl
  | ⟨.gate ⟨.wire g, _⟩, targets, _⟩, counted => exact runWire_eq (counted _ rfl) range
  | ⟨.gate ⟨.register (.permutation mapping), _⟩, targets, _⟩, counted =>
    have rearrangement : IsRearrangement mapping := sound
    have length : targets.length = mapping.length := counted _ rfl
    have fit : targets.length ≤ 64 := fit
    have places : ∀ p ∈ mapping, p < 64 := fun p hp => by
      have := (IsRearrangement.mem_iff rearrangement).mp hp
      omega
    have same (bits : UInt64) : permuteFrom bits 0 mapping = .ok (permute mapping bits) :=
      permuteFrom_eq places (by omega)
    show (onRegister _ targets state >>= fun state => pure (Except.ok state)) = _
    rw [onRegister_eq same range fit]
    rfl
  | ⟨.gate ⟨.arithmetic g, _⟩, targets, _⟩, counted =>
    obtain ⟨-, inputs, whole⟩ :
      1 ≤ g.targetWidth ∧ (∀ w ∈ g.inputWidths, 1 ≤ w) ∧ g.numQubits = g.span := sound
    have length : targets.length = g.span := (counted _ rfl).trans whole
    have fit : targets.length ≤ 64 := fit
    have same (bits : UInt64) : applyToBits g bits = .ok (g.applyToBits bits) :=
      applyToBits_eq inputs (by omega)
    show (onRegister _ targets state >>= fun state => pure (Except.ok state)) = _
    rw [onRegister_eq same range fit]
    rfl

theorem run_eq (sound : op.Sound) (placed : op.WellPlaced) :
    run op state = .ok (op.run state) := by
  match outside : op.rows.find? (64 ≤ ·) with
  | some row => rw [run, Operation.run, outside]
  | none =>
    have range : op.InRange := fun r hr => by
      simpa using List.find?_eq_none.mp outside r hr
    rw [run, outside, Operation.run_of_inRange range]
    simp only [allSet_eq range.controls, ok_bind]
    split
    · exact act_eq sound placed range.targets
    · rfl

/-- A swap of one row is no operation of a circuit; the machine stops where it looks for the
second. -/
example : run (.ofKind (.wire .swap) [0]) 0 = .error (.index 1 1) := by rfl

theorem runAll_eq {ops : List Operation} (sound : ∀ op ∈ ops, op.Sound)
    (placed : ∀ op ∈ ops, op.WellPlaced) :
    runAll state ops = .ok (QuantumBoard.runAll ops state) := by
  induction ops generalizing state with
  | nil => rfl
  | cons op ops ih =>
    rw [runAll, run_eq (sound op List.mem_cons_self) (placed op List.mem_cons_self), ok_bind,
      runAll_cons]
    match op.run state with
    | .error e => rfl
    | .ok next =>
      exact ih (fun op mem => sound op (List.mem_cons_of_mem _ mem))
        fun op mem => placed op (List.mem_cons_of_mem _ mem)

/-! ## Errors -/

theorem runWire_error {g : WireGate} {e : RunError} (h : runWire op state g = .ok (.error e)) :
    e = .notClassical op.name := by
  unfold runWire at h
  split at h
  · obtain ⟨_, -, impossible⟩ := bind_eq_ok.mp h
    cases impossible
  · split at h
    · cases h
      rfl
    · cases h
    · simp only [bind_eq_ok, pure_eq_ok, reduceCtorEq, and_false, exists_false] at h

theorem act_error {e : RunError} (h : act op state = .ok (.error e)) :
    e = .notClassical op.name := by
  unfold act at h
  split at h
  · cases h
  · cases h
  · exact runWire_error h
  · cases h
  · simp only [bind_eq_ok, pure_eq_ok, reduceCtorEq, and_false, exists_false] at h
  · simp only [bind_eq_ok, pure_eq_ok, reduceCtorEq, and_false, exists_false] at h
  · cases h
    rfl
  · cases h
    rfl

/-- An operation fails on a row that is out of range, or because it maps a basis state to a
superposition. -/
theorem run_error {e : RunError} (h : run op state = .ok (.error e)) :
    (∃ row ∈ op.rows, 64 ≤ row ∧ e = .outOfRange row) ∨ e = .notClassical op.name := by
  unfold run at h
  split at h
  · rename_i row outside
    cases h
    exact .inl ⟨row, List.mem_of_find?_eq_some outside,
      by simpa using List.find?_some outside, rfl⟩
  · obtain ⟨set, -, h⟩ := bind_eq_ok.mp h
    split at h
    · exact .inr (act_error h)
    · cases h

theorem runAll_error {ops : List Operation} {e : RunError}
    (h : runAll state ops = .ok (.error e)) : ∃ op ∈ ops,
      (∃ row ∈ op.rows, 64 ≤ row ∧ e = .outOfRange row) ∨ e = .notClassical op.name := by
  induction ops generalizing state with
  | nil => cases h
  | cons op ops ih =>
    obtain ⟨result, ran, h⟩ := bind_eq_ok.mp h
    match result with
    | .ok next =>
      obtain ⟨failed, mem, why⟩ := ih h
      exact ⟨failed, List.mem_cons_of_mem _ mem, why⟩
    | .error _ =>
      cases h
      exact ⟨op, List.mem_cons_self, run_error ran⟩

end Checked

end QuantumBoard

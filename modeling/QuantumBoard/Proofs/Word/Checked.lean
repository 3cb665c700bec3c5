import QuantumBoard.Proofs.Word.Register

/-! # Words on a machine that checks each step

The operations on words are total: a shift by 64 or more has a value like any other. Here they
are repeated for a machine that stops instead, at the first shift by the width of a word and at
the first difference that is below zero. For rows of a basis state, and for registers that fit a
word, nothing stops the machine, and it computes the same. -/

namespace QuantumBoard

/-- What stops the machine. -/
inductive Fault where
  | shift (amount : Nat)
  | index (place length : Nat)
  /-- A difference below zero. -/
  | borrow
  /-- A sum that takes more than 32 bits. -/
  | carry
deriving Repr, DecidableEq

namespace Checked

/-! ## Steps -/

def shiftLeft (x : UInt64) (amount : Nat) : Except Fault UInt64 :=
  if amount < 64 then .ok (x <<< Word.amount amount) else .error (.shift amount)

def shiftRight (x : UInt64) (amount : Nat) : Except Fault UInt64 :=
  if amount < 64 then .ok (x >>> Word.amount amount) else .error (.shift amount)

def sub (x y : UInt64) : Except Fault UInt64 :=
  if y ≤ x then .ok (x - y) else .error .borrow

/-- The place behind a register. -/
def advance (offset width : Nat) : Except Fault Nat :=
  if offset + width < 2 ^ 32 then .ok (offset + width) else .error .carry

/-- The row at a place of a list. -/
def rowAt (rows : List Nat) (place : Nat) : Except Fault Nat :=
  match rows[place]? with
  | some row => .ok row
  | none => .error (.index place rows.length)

variable {x y : UInt64} {amount : Nat}

theorem ok_bind {α β : Type} (a : α) (f : α → Except Fault β) : (Except.ok a >>= f) = f a := rfl

theorem shiftLeft_eq (h : amount < 64) : shiftLeft x amount = .ok (x <<< Word.amount amount) :=
  if_pos h

theorem shiftRight_eq (h : amount < 64) : shiftRight x amount = .ok (x >>> Word.amount amount) :=
  if_pos h

theorem sub_eq (h : y ≤ x) : sub x y = .ok (x - y) := if_pos h

theorem advance_eq {offset width : Nat} (h : offset + width < 2 ^ 32) :
    advance offset width = .ok (offset + width) := if_pos h

theorem rowAt_eq {rows : List Nat} {place row : Nat} (h : rows[place]? = some row) :
    rowAt rows place = .ok row := by
  rw [rowAt, h]

/-! ## Bits -/

def bit (state : UInt64) (row : Nat) : Except Fault UInt64 := do
  return (← shiftRight state row) &&& 1

def single (row : Nat) : Except Fault UInt64 := shiftLeft 1 row

def isSet (state : UInt64) (row : Nat) : Except Fault Bool := do
  return (← bit state row) == 1

/-- Whether all of the rows are set; those behind one that is not are not looked at. -/
def allSet (state : UInt64) : List Nat → Except Fault Bool
  | [] => .ok true
  | row :: rows => do if ← isSet state row then allSet state rows else return false

def lowBits (width : Nat) : Except Fault UInt64 :=
  if 64 ≤ width then .ok 0xFFFFFFFFFFFFFFFF else do sub (← single width) 1

variable {state value : UInt64} {row width : Nat} {rows : List Nat}

theorem bit_eq (h : row < 64) : bit state row = .ok (Word.bit state row) := by
  rw [bit, shiftRight_eq h]
  rfl

theorem single_eq (h : row < 64) : single row = .ok (Word.single row) := shiftLeft_eq h

theorem isSet_eq (h : row < 64) : isSet state row = .ok (Word.isSet state row) := by
  rw [isSet, bit_eq h]
  rfl

theorem allSet_eq (range : ∀ r ∈ rows, r < 64) :
    allSet state rows = .ok (rows.all (Word.isSet state)) := by
  induction rows with
  | nil => rfl
  | cons row rows ih =>
    rw [allSet, isSet_eq (range row List.mem_cons_self), ok_bind, List.all_cons,
      ih fun r hr => range r (List.mem_cons_of_mem _ hr)]
    cases Word.isSet state row <;> rfl

/-- No width is too large, as a mask of 64 bits or more is not shifted for. -/
theorem lowBits_eq (width : Nat) : lowBits width = .ok (Word.lowBits width) := by
  unfold lowBits Word.lowBits
  split
  · rfl
  · have h : width < 64 := by omega
    rw [single_eq h, ok_bind, sub_eq (Word.one_le_single h)]

/-! ## Registers -/

/-- Reads the register at the given rows, from bit `index` of the answer on. -/
def gatherFrom (state : UInt64) (index : Nat) : List Nat → Except Fault UInt64
  | [] => .ok 0
  | row :: rows => do
    let placed ← shiftLeft (← bit state row) index
    return placed ||| (← gatherFrom state (index + 1) rows)

def gather (state : UInt64) (rows : List Nat) : Except Fault UInt64 := gatherFrom state 0 rows

/-- Writes one bit of a number. -/
def write (state : UInt64) (row : Nat) (value : UInt64) (index : Nat) : Except Fault UInt64 := do
  let cleared := state &&& ~~~(← single row)
  return cleared ||| (← shiftLeft (← bit value index) row)

/-- Writes the bits of a number from bit `index` on into the register at the given rows. -/
def scatterFrom (state : UInt64) (value : UInt64) (index : Nat) : List Nat → Except Fault UInt64
  | [] => .ok state
  | row :: rows => do scatterFrom (← write state row value index) value (index + 1) rows

def scatter (state : UInt64) (rows : List Nat) (value : UInt64) : Except Fault UInt64 :=
  scatterFrom state value 0 rows

theorem gatherFrom_eq (range : ∀ r ∈ rows, r < 64) {index : Nat}
    (fit : index + rows.length ≤ 64) :
    gatherFrom state index rows = .ok (Word.gatherFrom state index rows) := by
  induction rows generalizing index with
  | nil => rfl
  | cons row rows ih =>
    rw [List.length_cons] at fit
    rw [gatherFrom, bit_eq (range row List.mem_cons_self), ok_bind, shiftLeft_eq (by omega),
      ok_bind, ih (fun r hr => range r (List.mem_cons_of_mem _ hr)) (by omega)]
    rfl

theorem write_eq (h : row < 64) {index : Nat} (fit : index < 64) :
    write state row value index = .ok (Word.write state row (Word.bit value index)) := by
  rw [write, single_eq h, ok_bind, bit_eq fit, ok_bind, shiftLeft_eq h]
  rfl

theorem scatterFrom_eq (range : ∀ r ∈ rows, r < 64) {index : Nat}
    (fit : index + rows.length ≤ 64) :
    scatterFrom state value index rows = .ok (Word.scatterFrom state value index rows) := by
  induction rows generalizing state index with
  | nil => rfl
  | cons row rows ih =>
    rw [List.length_cons] at fit
    rw [scatterFrom, write_eq (range row List.mem_cons_self) (by omega), ok_bind,
      ih (fun r hr => range r (List.mem_cons_of_mem _ hr)) (by omega)]
    rfl

end Checked

end QuantumBoard

import QuantumBoard.Proofs.Board.Order
import QuantumBoard.Proofs.Column.Control

/-! # Initial bits

A document whose initial states are all zero or one runs like the document without them from the
state in which the rows with a one are flipped: the flips stand before every column, one for each
of these rows, and nothing else of the circuit depends on the initial states. -/

namespace QuantumBoard

open Success

namespace Json

/-- An object without its members of a key. -/
def without (key : String) : Json → Json
  | object members => object (members.filter fun member => member.1 ≠ key)
  | value => value

theorem lookup_filter_ne {key other : String} (h : other ≠ key) (members : List (String × Json)) :
    (members.filter fun member => member.1 ≠ key).lookup other = members.lookup other := by
  induction members with
  | nil => rfl
  | cons member members ih =>
    by_cases dropped : member.1 = key
    · have different : (other == member.1) = false := by
        rw [dropped]
        exact beq_false_of_ne h
      rw [List.filter_cons_of_neg (by simpa using dropped), ih, List.lookup_cons, different]
    · rw [List.filter_cons_of_pos (by simpa using dropped), List.lookup_cons, List.lookup_cons, ih]

theorem lookup_filter_self (key : String) (members : List (String × Json)) :
    (members.filter fun member => member.1 ≠ key).lookup key = none := by
  rw [List.lookup_eq_none_iff]
  intro member mem
  have kept : member.1 ≠ key := by simpa using (List.mem_filter.mp mem).2
  exact bne_iff_ne.mpr kept.symm

theorem member?_without_of_ne {key other : String} (h : other ≠ key) (value : Json) :
    (value.without key).member? other = value.member? other := by
  cases value with
  | object members => exact lookup_filter_ne h members
  | _ => rfl

theorem member?_without_self (key : String) (value : Json) :
    (value.without key).member? key = none := by
  cases value with
  | object members => exact lookup_filter_self key members
  | _ => rfl

end Json

namespace Board

/-! ## The flips of initial bits -/

/-- The bit that an initial state names, if it is the number zero or one. -/
def bit? (entry : Json) : Option Bool :=
  match entry.number? with
  | some x => if x == 0 then some false else if x == 1 then some true else none
  | none => none

/-- The rows whose bits are set, when the bits stand from a row on. -/
def setRows (row : Nat) : List Bool → List Nat
  | [] => []
  | true :: bits => row :: setRows (row + 1) bits
  | false :: bits => setRows (row + 1) bits

theorem mem_setRows {row k : Nat} {bits : List Bool} :
    k ∈ setRows row bits ↔ row ≤ k ∧ bits.getD (k - row) false = true := by
  induction bits generalizing row with
  | nil => simp [setRows]
  | cons b bits ih =>
    rcases Nat.lt_trichotomy k row with before | rfl | behind
    · cases b <;> simp [setRows, ih] <;> omega
    · cases b <;> simp [setRows, ih]
    · have place : k - row = k - (row + 1) + 1 := by omega
      have later : k ≠ row := by omega
      cases b <;> simp [setRows, ih, place, later, Nat.le_of_lt behind, Nat.succ_le_of_lt behind]

theorem nodup_setRows (row : Nat) (bits : List Bool) : (setRows row bits).Nodup := by
  induction bits generalizing row with
  | nil => exact List.nodup_nil
  | cons b bits ih =>
    cases b with
    | false => exact ih (row + 1)
    | true =>
      refine List.nodup_cons.mpr ⟨fun mem => ?_, ih (row + 1)⟩
      have := (mem_setRows.mp mem).1
      omega

theorem preparation?_of_number {entry : Json} {x : Float} (h : entry.number? = some x) :
    preparation? entry =
      if x == 0 then some [] else if x == 1 then some [.pauli .x] else none := by
  cases entry with
  | integer n => rw [preparation?, h] <;> exact nofun
  | real y => rw [preparation?, h] <;> exact nofun
  | null | bool _ | text _ | array _ | object _ => cases h

theorem preparation?_of_bit {entry : Json} {b : Bool} (h : bit? entry = some b) :
    preparation? entry = some (if b then [.pauli .x] else []) := by
  unfold bit? at h
  split at h
  · rename_i x number
    rw [preparation?_of_number number]
    split at h
    · cases h
      rw [if_pos ‹_›]
      rfl
    · split at h <;> cases h
      rw [if_neg ‹_›, if_pos ‹_›]
      rfl
  · cases h

/-- Initial bits are prepared by flips of the rows whose bits are set. -/
theorem prepareFrom_of_bits {row : Nat} {entries : List Json} {bits : List Bool}
    (named : entries.map bit? = bits.map some) :
    prepareFrom row entries = .ok ((setRows row bits).map Operation.flip) := by
  induction entries generalizing row bits with
  | nil =>
    cases bits with
    | nil => rfl
    | cons b bits => cases named
  | cons entry entries ih =>
    cases bits with
    | nil => cases named
    | cons b bits =>
      obtain ⟨first, rest⟩ := List.cons.inj named
      rw [prepareFrom, preparation?_of_bit first]
      simp only [ih rest]
      cases b <;> rfl

/-! ## Documents with and without initial bits -/

/-- Without its initial states a document has the operations of its columns only. -/
theorem compile_without_initial {document : Json} {c : Circuit}
    (compiled : compile document = .ok c) :
    ∃ initial d, initialOperations (document.member? "init") = .ok initial ∧
      compile (document.without "init") = .ok d ∧
      c.operations.toList = initial ++ d.operations.toList := by
  obtain ⟨value, columns, custom, initial, ops, present, listed, table, prepared, built, e, he,
    hc⟩ := compile_eq_ok compiled
  have kept : ∀ key ≠ "init", (document.without "init").member? key = document.member? key :=
    fun key other => Json.member?_without_of_ne other document
  rw [← kept "cols" (by decide)] at present
  rw [← kept "gates" (by decide)] at table
  have nothing : initialOperations ((document.without "init").member? "init") = .ok [] := by
    rw [Json.member?_without_self]
    rfl
  obtain ⟨d, accepted, rest⟩ := compile_of_columns present listed table nothing built
  refine ⟨initial, d, prepared, accepted, ?_⟩
  rw [operations_of_parts he hc, rest, List.nil_append]

/-- Initial bits act as flips of the state that the rest of the document starts from: the run is
that of the document without them on the state with these bits flipped, be it a state or an
error. -/
theorem run_from_initial_bits {document : Json} {entries : List Json} {bits : List Bool}
    (listed : document.member? "init" = some (.array entries))
    (named : entries.map bit? = bits.map some) (fit : entries.length ≤ 64) {c : Circuit}
    (compiled : compile document = .ok c) :
    ∃ d b, compile (document.without "init") = .ok d ∧
      (∀ k < 64, Word.testBit b k = bits.getD k false) ∧ ∀ s, c.run s = d.run (s ^^^ b) := by
  obtain ⟨initial, d, prepared, accepted, operations⟩ := compile_without_initial compiled
  have length : bits.length = entries.length := by
    simpa using (congrArg List.length named).symm
  have range : ∀ r ∈ setRows 0 bits, r < 64 := by
    intro r mem
    have set := (mem_setRows.mp mem).2
    by_contra outside
    rw [List.getD_eq_default _ _ (by omega)] at set
    cases set
  rw [listed, initialOperations, prepareFrom_of_bits named] at prepared
  cases prepared
  refine ⟨d, flipMask (setRows 0 bits), accepted, fun k _ => ?_, fun s => ?_⟩
  · rw [testBit_flipMask (nodup_setRows 0 bits) range]
    simp [mem_setRows]
  · rw [Circuit.run, operations, runAll_append, runAll_flips range]
    rfl

/-- A flip under a control, from initial bits of which the first and the third are set. -/
def flipFromBits : List (String × Json) :=
  [("cols", .array [.array [.text "•", .text "X"]]),
    ("init", .array [.integer 1, .real 0, .real 1])]

/-- The control is set by its initial bit, and the third row keeps its own. -/
theorem run_from_initial_bits_flip :
    ∃ c d, compile (.object flipFromBits) = .ok c ∧
      compile ((Json.object flipFromBits).without "init") = .ok d ∧
      (∀ s, c.run s = d.run (s ^^^ 5)) ∧ c.run 0 = .ok 7 := by
  have prepared : initialOperations ((Json.object flipFromBits).member? "init") =
      .ok ((setRows 0 [true, false, true]).map Operation.flip) :=
    prepareFrom_of_bits (by decide +kernel)
  obtain ⟨c, compiled, operations⟩ :=
    compile_of_parts flipFromBits rfl rfl rfl prepared compileColumns_flipUnderControl
  obtain ⟨d, b, bare, bits, runs⟩ := @run_from_initial_bits _ _ [true, false, true] rfl
    (by decide +kernel) (by decide) _ compiled
  have five : b = 5 := Word.eq_of_testBit fun k hk => by
    rw [bits k hk]
    revert k
    decide
  subst five
  refine ⟨c, d, compiled, bare, runs, ?_⟩
  rw [Circuit.run, operations]
  decide

end Board

end QuantumBoard

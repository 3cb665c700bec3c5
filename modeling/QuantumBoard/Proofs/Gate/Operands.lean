import QuantumBoard.Circuit.Run
import QuantumBoard.Proofs.Gate.Transform
import QuantumBoard.Proofs.Word.Register

/-! # Arithmetic gates on the rows of a state

The rows of an arithmetic gate are those of its target followed by those of the registers it
reads. So the bits that the gate sees are the numbers in these registers, one behind the other, and
what it writes back changes the number in the target and nothing else. -/

namespace QuantumBoard.ArithmeticGate

open Word (testBit gather lowBits)

variable {s : UInt64}

/-- The gate reads the numbers in its input registers. -/
theorem slices_gather {front : List Nat} {registers : List (List Nat)}
    (nodup : (front ++ registers.flatten).Nodup)
    (range : ∀ r ∈ front ++ registers.flatten, r < 64) :
    slices (gather s (front ++ registers.flatten)) front.length (registers.map List.length) =
      registers.map (gather s) := by
  induction registers generalizing front with
  | nil => rfl
  | cons rows registers ih =>
    have assoc : front ++ (rows :: registers).flatten = front ++ rows ++ registers.flatten := by
      rw [List.flatten_cons, List.append_assoc]
    rw [assoc] at nodup range ⊢
    have rest := ih nodup range
    rw [List.length_append] at rest
    rw [List.map_cons, List.map_cons, slices, rest, Word.gather_append_shiftRight nodup range]

/-- On the rows of a gate, none but those of its target change. -/
theorem testBit_onRegister (g : ArithmeticGate) {rows : List Nat} (nodup : rows.Nodup)
    (range : ∀ r ∈ rows, r < 64) {k : Nat} (hk : k < 64) (outside : k ∉ rows.take g.targetWidth) :
    testBit (onRegister g.applyToBits rows s) k = testBit s k := by
  rw [onRegister, Word.testBit_scatter nodup range hk]
  by_cases inside : k ∈ rows
  · -- a row of an input is written with the bit that was read there
    have place := List.idxOf_lt_length_of_mem inside
    have behind : g.targetWidth ≤ rows.idxOf k := by
      refine Nat.not_lt.mp fun first => outside ?_
      exact List.mem_take_iff_getElem.mpr
        ⟨rows.idxOf k, Nat.lt_min.mpr ⟨first, place⟩, List.getElem_idxOf place⟩
    rw [if_pos inside, testBit_applyToBits_of_le _ _ behind, Word.testBit_gather nodup range,
      List.getElem?_eq_getElem place, Option.any_some, List.getElem_idxOf]
  · rw [if_neg inside]

/-- The number in the target becomes the transformed number, and no other row changes. -/
theorem onRegister_applyToBits (t : Transform) {target : List Nat} {registers : List (List Nat)}
    (nodup : (target ++ registers.flatten).Nodup)
    (range : ∀ r ∈ target ++ registers.flatten, r < 64) {s' : UInt64}
    (h : onRegister (applyToBits ⟨t, target.length, registers.map List.length⟩)
      (target ++ registers.flatten) s = s') :
    gather s' target = t.apply (gather s target) (registers.map (gather s)) target.length ∧
      ∀ k < 64, k ∉ target → testBit s' k = testBit s k := by
  subst h
  constructor
  · have nodup' := (List.nodup_append.mp nodup).1
    have range' : ∀ r ∈ target, r < 64 := fun r hr => range r (List.mem_append_left _ hr)
    have fit := Word.length_le_of_nodup nodup' range'
    rw [← Transform.apply_and_lowBits]
    apply Word.eq_of_testBit
    intro k hk
    rw [Word.testBit_gather nodup' range', Word.testBit_and, Word.testBit_lowBits _ k hk]
    by_cases h : k < target.length
    · have hm := List.getElem_mem h
      have first : (target ++ registers.flatten).idxOf target[k] = k := by
        rw [List.idxOf_append, if_pos hm, nodup'.idxOf_getElem k h]
      rw [List.getElem?_eq_getElem h, Option.any_some, onRegister,
        Word.testBit_scatter nodup range (range' _ hm), if_pos (List.mem_append_left _ hm), first,
        testBit_applyToBits _ _ hk, Word.gather_append_and_lowBits nodup range,
        slices_gather nodup range]
      simp [h]
    · simp [h]
  · intro k hk outside
    refine testBit_onRegister _ nodup range hk ?_
    rwa [List.take_left]

end QuantumBoard.ArithmeticGate

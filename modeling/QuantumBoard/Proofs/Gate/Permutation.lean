import QuantumBoard.Circuit.Run
import QuantumBoard.Proofs.Word.Register

/-! Rearrangements of a register and the mappings that undo them. A mapping that lists every place
of the register once is inverted by listing where each place stands in it, and moving the
bits along the mapping and then along its inverse restores the register. -/

namespace QuantumBoard

open Word (testBit lowBits)

/-- A mapping lists every place of its register once. -/
def IsRearrangement (mapping : List Nat) : Prop := mapping.Perm (List.range mapping.length)

namespace IsRearrangement

variable {mapping : List Nat}

theorem nodup (h : IsRearrangement mapping) : mapping.Nodup :=
  (List.Perm.nodup_iff h).mpr List.nodup_range

theorem mem_iff (h : IsRearrangement mapping) {k : Nat} : k ∈ mapping ↔ k < mapping.length :=
  (List.Perm.mem_iff h).trans List.mem_range

end IsRearrangement

namespace RegisterGate

variable {mapping : List Nat}

@[simp] theorem length_invertFrom (i : Nat) (inverted mapping : List Nat) :
    (invertFrom i inverted mapping).length = inverted.length := by
  induction mapping generalizing i inverted with
  | nil => rfl
  | cons place mapping ih => rw [invertFrom, ih, List.length_set]

/-- Inverting writes at each listed place the position at which it is listed. -/
theorem getElem?_invertFrom (nodup : mapping.Nodup) {i j : Nat} {inverted : List Nat}
    (hj : j < inverted.length) : (invertFrom i inverted mapping)[j]? =
      if j ∈ mapping then some (i + mapping.idxOf j) else inverted[j]? := by
  induction mapping generalizing i inverted with
  | nil => rfl
  | cons place mapping ih =>
    obtain ⟨hplace, nodup⟩ := List.nodup_cons.mp nodup
    rw [invertFrom, ih nodup (by rwa [List.length_set])]
    by_cases he : place = j
    · subst he
      simp [hplace, hj]
    · have hne : (place == j) = false := beq_eq_false_iff_ne.mpr he
      have hmem : j ∈ place :: mapping ↔ j ∈ mapping := by
        simp [Ne.symm he]
      rw [List.getElem?_set_ne he, List.idxOf_cons, hne, cond_false]
      by_cases hm : j ∈ mapping
      · rw [if_pos hm, if_pos (hmem.mpr hm)]
        congr 1
        omega
      · rw [if_neg hm, if_neg (fun h => hm (hmem.mp h))]

theorem invertMapping_eq (h : IsRearrangement mapping) :
    invertMapping mapping = (List.range mapping.length).map mapping.idxOf := by
  apply List.ext_getElem?
  intro j
  by_cases hj : j < mapping.length
  · rw [invertMapping, getElem?_invertFrom h.nodup (by rwa [List.length_replicate]),
      if_pos (h.mem_iff.mpr hj)]
    simp [hj]
  · simp [invertMapping, Nat.le_of_not_lt hj]

theorem length_invertMapping (mapping : List Nat) :
    (invertMapping mapping).length = mapping.length := by
  simp [invertMapping]

theorem invertMapping_isRearrangement (h : IsRearrangement mapping) :
    IsRearrangement (invertMapping mapping) := by
  have hself : mapping.map mapping.idxOf = List.range mapping.length := by
    apply List.ext_getElem (by simp)
    intro i hi _
    have hi' : i < mapping.length := by simpa using hi
    simp [h.nodup.idxOf_getElem i hi']
  have hperm : ((List.range mapping.length).map mapping.idxOf).Perm (mapping.map mapping.idxOf) :=
    (List.Perm.symm h).map _
  rw [hself] at hperm
  rwa [IsRearrangement, length_invertMapping, invertMapping_eq h]

/-- The inverse mapping lists each place where the mapping sends it. -/
theorem idxOf_invertMapping (h : IsRearrangement mapping) {k : Nat} (hk : k < mapping.length) :
    (invertMapping mapping).idxOf k = mapping[k] := by
  have hlt : mapping[k] < (invertMapping mapping).length := by
    rw [length_invertMapping]
    exact h.mem_iff.mp (List.getElem_mem hk)
  have hget : (invertMapping mapping)[mapping[k]] = k := by
    simp only [invertMapping_eq h, List.getElem_map, List.getElem_range]
    exact h.nodup.idxOf_getElem k hk
  have hself := (invertMapping_isRearrangement h).nodup.idxOf_getElem _ hlt
  rwa [hget] at hself

theorem invertMapping_invertMapping (h : IsRearrangement mapping) :
    invertMapping (invertMapping mapping) = mapping := by
  rw [invertMapping_eq (invertMapping_isRearrangement h), length_invertMapping]
  apply List.ext_getElem (by simp)
  intro k _ hk
  rw [List.getElem_map, List.getElem_range, idxOf_invertMapping h hk]

end RegisterGate

theorem testBit_permuteFrom {mapping : List Nat} (nodup : mapping.Nodup)
    (range : ∀ p ∈ mapping, p < 64) (bits : UInt64) {i : Nat} (fit : i + mapping.length ≤ 64)
    (k : Nat) : testBit (permuteFrom bits i mapping) k =
      (decide (k ∈ mapping) && testBit bits (i + mapping.idxOf k)) := by
  induction mapping generalizing i with
  | nil => simp [permuteFrom]
  | cons place mapping ih =>
    obtain ⟨hplace, nodup⟩ := List.nodup_cons.mp nodup
    rw [List.length_cons] at fit
    rw [permuteFrom, Word.testBit_or,
      Word.testBit_bit_shiftLeft bits (by omega) (range place List.mem_cons_self),
      ih nodup (fun p hp => range p (List.mem_cons_of_mem _ hp)) (by omega)]
    by_cases he : place = k
    · subst he
      simp [hplace]
    · have hne : (place == k) = false := beq_eq_false_iff_ne.mpr he
      rw [List.idxOf_cons, hne, cond_false]
      simp [Ne.symm he, Nat.add_assoc, Nat.add_comm 1]

/-- The bit at each place goes to the place that it is mapped to. -/
theorem testBit_permute {mapping : List Nat} (h : IsRearrangement mapping)
    (fit : mapping.length ≤ 64) (bits : UInt64) {i j : Nat} (sent : mapping[i]? = some j) :
    testBit (permute mapping bits) j = testBit bits i := by
  obtain ⟨hi, rfl⟩ := List.getElem?_eq_some_iff.mp sent
  rw [permute, testBit_permuteFrom h.nodup (fun p hp => by have := h.mem_iff.mp hp; omega) _
    (by omega), h.nodup.idxOf_getElem i hi]
  simp

/-- On the rows of a register, the bit at a place goes to the place that it is mapped to. -/
theorem testBit_onRegister_permute {mapping rows : List Nat} (h : IsRearrangement mapping)
    (length : rows.length = mapping.length) (nodup : rows.Nodup) (range : ∀ row ∈ rows, row < 64)
    (s : UInt64) {i j row place : Nat} (sent : mapping[i]? = some j) (source : rows[i]? = some row)
    (target : rows[j]? = some place) :
    testBit (onRegister (permute mapping) rows s) place = testBit s row := by
  have fit := Word.length_le_of_nodup nodup range
  obtain ⟨inside, rfl⟩ := List.getElem?_eq_some_iff.mp target
  rw [onRegister, Word.testBit_scatter nodup range (range _ (List.getElem_mem inside)),
    if_pos (List.getElem_mem inside), nodup.idxOf_getElem _ inside,
    testBit_permute h (by omega) _ sent, Word.testBit_gather nodup range, source, Option.any_some]

theorem permute_and_lowBits {mapping : List Nat} (h : IsRearrangement mapping)
    (fit : mapping.length ≤ 64) (bits : UInt64) :
    permute mapping bits &&& lowBits mapping.length = permute mapping bits := by
  apply Word.eq_of_testBit
  intro k hk
  rw [Word.testBit_and, Word.testBit_lowBits _ k hk, permute, testBit_permuteFrom h.nodup
    (fun p hp => by have := h.mem_iff.mp hp; omega) _ (by omega)]
  by_cases hkn : k < mapping.length <;> simp [h.mem_iff, hkn]

/-- Bits moved along a mapping and back are where they were. -/
theorem permute_invertMapping {mapping : List Nat} (h : IsRearrangement mapping)
    (fit : mapping.length ≤ 64) {bits : UInt64} (hb : bits &&& lowBits mapping.length = bits) :
    permute (RegisterGate.invertMapping mapping) (permute mapping bits) = bits := by
  have hinv := RegisterGate.invertMapping_isRearrangement h
  have hlen := RegisterGate.length_invertMapping mapping
  apply Word.eq_of_testBit
  intro k hk
  rw [permute, testBit_permuteFrom hinv.nodup
    (fun p hp => by have := hinv.mem_iff.mp hp; omega) _ (by omega)]
  by_cases hkn : k < mapping.length
  · rw [RegisterGate.idxOf_invertMapping h hkn, Nat.zero_add, permute, testBit_permuteFrom h.nodup
      (fun p hp => by have := h.mem_iff.mp hp; omega) _ (by omega), h.nodup.idxOf_getElem k hkn]
    simp [hinv.mem_iff, hlen, hkn]
  · have hout : testBit bits k = false := by
      rw [← hb, Word.testBit_and, Word.testBit_lowBits _ k hk]
      simp [hkn]
    rw [hout]
    simp [hinv.mem_iff, hlen, hkn]

end QuantumBoard

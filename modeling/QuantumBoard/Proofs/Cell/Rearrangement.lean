import Mathlib.Data.List.Nodup
import Mathlib.Data.List.Perm.Subperm
import QuantumBoard.Cell.Basic
import QuantumBoard.Proofs.Gate.Permutation

/-! The rearrangement cells send every place of a register of any size to a place of its own, and
for each kind there is one that sends the places back. -/

namespace QuantumBoard.Rearrangement

variable {n i j : Nat}

theorem div_half (hi : i < n) : i / half n = if i < half n then 0 else 1 := by
  split
  · exact Nat.div_eq_of_lt ‹_›
  · unfold half at *
    exact Nat.div_eq_of_lt_le (by omega) (by omega)

theorem mod_half (hi : i < n) : i % half n = if i < half n then i else i - half n := by
  split
  · exact Nat.mod_eq_of_lt ‹_›
  · rw [Nat.mod_eq_sub_mod (by omega), Nat.mod_eq_of_lt (by unfold half at *; omega)]

theorem rotateLeft_eq (hi : i < n) : (i + 1) % n = if i + 1 = n then 0 else i + 1 := by
  split
  · rw [‹i + 1 = n›, Nat.mod_self]
  · exact Nat.mod_eq_of_lt (by omega)

theorem rotateRight_eq (hi : i < n) : (i + n - 1) % n = if i = 0 then n - 1 else i - 1 := by
  split
  · exact (congrArg (· % n) (by omega)).trans (Nat.mod_eq_of_lt (by omega : n - 1 < n))
  · rw [show i + n - 1 = i - 1 + n by omega, Nat.add_mod_right, Nat.mod_eq_of_lt (by omega)]

theorem destination_lt (r : Rearrangement) (hi : i < n) : r.destination n i < n := by
  cases r with
  | rotateLeft | rotateRight => exact Nat.mod_lt _ (by omega)
  | reverse =>
    show n - 1 - i < n
    omega
  | interleave =>
    rw [destination, div_half hi, mod_half hi]
    unfold half
    split <;> omega
  | deinterleave =>
    show i / 2 + i % 2 * half n < n
    unfold half
    rcases Nat.mod_two_eq_zero_or_one i with h | h <;> rw [h] <;> omega

theorem destination_injective (r : Rearrangement) (hi : i < n) (hj : j < n)
    (h : r.destination n i = r.destination n j) : i = j := by
  cases r with
  | rotateLeft =>
    rw [destination, destination, rotateLeft_eq hi, rotateLeft_eq hj] at h
    split at h <;> split at h <;> omega
  | rotateRight =>
    rw [destination, destination, rotateRight_eq hi, rotateRight_eq hj] at h
    split at h <;> split at h <;> omega
  | reverse =>
    have h : n - 1 - i = n - 1 - j := h
    omega
  | interleave =>
    rw [destination, destination, div_half hi, mod_half hi, div_half hj, mod_half hj] at h
    split at h <;> split at h <;> omega
  | deinterleave =>
    have h : i / 2 + i % 2 * half n = j / 2 + j % 2 * half n := h
    unfold half at h
    rcases Nat.mod_two_eq_zero_or_one i with hi' | hi' <;>
      rcases Nat.mod_two_eq_zero_or_one j with hj' | hj' <;> rw [hi', hj'] at h <;> omega

@[simp] theorem length_mapping (n : Nat) (r : Rearrangement) : (r.mapping n).length = n := by
  rw [mapping, List.length_map, List.length_range]

/-- The mapping of a rearrangement lists every place once, for registers of any size. -/
theorem mapping_isRearrangement (n : Nat) (r : Rearrangement) : IsRearrangement (r.mapping n) := by
  have nodup : (r.mapping n).Nodup := by
    refine List.Nodup.map_on (fun i hi j hj h => ?_) List.nodup_range
    exact r.destination_injective (List.mem_range.mp hi) (List.mem_range.mp hj) h
  have places : r.mapping n ⊆ List.range n := by
    intro p hp
    obtain ⟨i, hi, rfl⟩ := List.mem_map.mp hp
    exact List.mem_range.mpr (r.destination_lt (List.mem_range.mp hi))
  unfold IsRearrangement
  rw [length_mapping]
  exact (List.subperm_of_subset nodup places).perm_of_length_le (by simp)

/-! ## Places sent back -/

/-- The rearrangement that takes back another one. -/
def inverse : Rearrangement → Rearrangement
  | rotateLeft => rotateRight
  | rotateRight => rotateLeft
  | reverse => reverse
  | interleave => deinterleave
  | deinterleave => interleave

@[simp] theorem inverse_inverse (r : Rearrangement) : r.inverse.inverse = r := by
  cases r <;> rfl

/-- The first half goes to the even places, the second to the odd ones. -/
theorem interleave_eq (hi : i < n) :
    destination n i interleave = if i < half n then 2 * i else 2 * (i - half n) + 1 := by
  rw [destination, div_half hi, mod_half hi]
  split <;> omega

/-- The even places go to the first half, the odd ones to the second. -/
theorem deinterleave_eq (n i : Nat) :
    destination n i deinterleave = if i % 2 = 0 then i / 2 else i / 2 + half n := by
  rw [destination]
  rcases Nat.mod_two_eq_zero_or_one i with h | h <;> simp [h]

/-- Every place is sent back, whether the register has an odd or an even number of them. -/
theorem destination_inverse (r : Rearrangement) (hi : i < n) :
    r.inverse.destination n (r.destination n i) = i := by
  cases r with
  | rotateLeft =>
    show ((i + 1) % n + n - 1) % n = i
    rw [rotateRight_eq (Nat.mod_lt _ (by omega)), rotateLeft_eq hi]
    split <;> split <;> omega
  | rotateRight =>
    show ((i + n - 1) % n + 1) % n = i
    rw [rotateLeft_eq (Nat.mod_lt _ (by omega)), rotateRight_eq hi]
    split <;> split <;> omega
  | reverse =>
    show n - 1 - (n - 1 - i) = i
    omega
  | interleave =>
    rw [inverse, deinterleave_eq, interleave_eq hi]
    split <;> split <;> omega
  | deinterleave =>
    rw [inverse, interleave_eq (destination_lt deinterleave hi), deinterleave_eq]
    unfold half
    split <;> split <;> omega

/-- The mapping that undoes a rearrangement is that of its inverse. -/
theorem invertMapping_mapping (n : Nat) (r : Rearrangement) :
    RegisterGate.invertMapping (r.mapping n) = r.inverse.mapping n := by
  have rearrangement := mapping_isRearrangement n r
  rw [RegisterGate.invertMapping_eq rearrangement, length_mapping, mapping]
  refine List.map_congr_left fun place hplace => ?_
  have source := r.inverse.destination_lt (List.mem_range.mp hplace)
  have listed : r.inverse.destination n place < (r.mapping n).length := by rwa [length_mapping]
  have sent : (r.mapping n)[r.inverse.destination n place] = place := by
    have back := r.inverse.destination_inverse (List.mem_range.mp hplace)
    rw [inverse_inverse] at back
    simpa [mapping] using back
  have position := rearrangement.nodup.idxOf_getElem _ listed
  rwa [sent] at position

end QuantumBoard.Rearrangement

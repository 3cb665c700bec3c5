import QuantumBoard.Proofs.Cell.Rearrangement
import QuantumBoard.Proofs.Circuit.Inverse

/-! # Rearrangements of registers

A rearrangement gate moves the bit at each place of its register to the place that the kind of the
gate sends it to, and touches no other bit. The gate of the inverse kind moves the bits back: it is
the inverse of the gate, for registers of any size and on any rows. -/

namespace QuantumBoard

open Word (testBit)

/-- The gate of a rearrangement on a register. -/
def Operation.rearrange (r : Rearrangement) (label : Option String) (rows : List Nat) : Operation :=
  .ofGate ⟨.register (.permutation (r.mapping rows.length)), label⟩ rows

namespace Rearrangement

theorem getElem?_mapping {n i : Nat} (r : Rearrangement) (hi : i < n) :
    (r.mapping n)[i]? = some (r.destination n i) := by
  simp [mapping, hi]

/-- The mapping of a rearrangement lists every place once, and the inverse kind sends every place
back, for registers of any size. On a register of rows that are all different, the gate moves the
bits along the mapping and leaves all others, and the gate of the inverse kind, which is its
inverse, restores the state. -/
theorem undone_by_inverse (r : Rearrangement) (n : Nat) :
    (r.mapping n).Perm (List.range n) ∧
    (∀ i < n, r.inverse.destination n (r.destination n i) = i) ∧
    RegisterGate.inverse (.permutation (r.mapping n)) = .permutation (r.inverse.mapping n) ∧
    ∀ rows : List Nat, rows.length = n → rows.Nodup → (∀ row ∈ rows, row < 64) →
      ∀ (label label' : Option String) (s : UInt64),
        ∃ s', (Operation.rearrange r label rows).run s = .ok s' ∧
          (∀ i row place, rows[i]? = some row → rows[r.destination n i]? = some place →
            testBit s' place = testBit s row) ∧
          (∀ k < 64, k ∉ rows → testBit s' k = testBit s k) ∧
          (Operation.rearrange r.inverse label' rows).run s' = .ok s := by
  have rearrangement := mapping_isRearrangement n r
  have inverse := congrArg RegisterGate.permutation (invertMapping_mapping n r)
  have every : (r.mapping n).Perm (List.range n) := by
    rwa [IsRearrangement, length_mapping] at rearrangement
  refine ⟨every, fun i => r.destination_inverse, inverse, ?_⟩
  rintro rows rfl nodup range label label' s
  have inRange : (Operation.rearrange r label rows).InRange := by
    simpa [Operation.InRange, Operation.rearrange, Operation.ofGate, Operation.rows] using range
  have ran : (Operation.rearrange r label rows).run s =
      .ok (onRegister (permute (r.mapping rows.length)) rows s) := by
    rw [Operation.run_of_inRange inRange]
    rfl
  have placed : (Operation.rearrange r label rows).placementError? = none := by
    refine Operation.placementError?_eq_none.mpr ⟨fun m arity => ?_, ?_⟩
    · cases arity
      exact length_mapping _ r
    · simpa [Operation.rearrange, Operation.ofGate, Operation.rows] using nodup
  have opposite : (Operation.rearrange r label rows).inverse =
      Operation.rearrange r.inverse label rows :=
    congrArg (fun gate => Operation.ofGate ⟨.register gate, label⟩ rows) inverse
  refine ⟨_, ran, fun i row place source target => ?_, fun k hk outside => ?_, ?_⟩
  · have sent := r.getElem?_mapping (List.getElem?_eq_some_iff.mp source).1
    exact testBit_onRegister_permute rearrangement (length_mapping _ r).symm nodup range s sent
      source target
  · exact Operation.testBit_run ran hk outside
  · have sound : (Operation.rearrange r label rows).Sound := rearrangement
    have back := Operation.run_inverse sound placed ran
    rw [opposite] at back
    exact back

/-- Five rows, in no order. -/
def scatteredRows : List Nat := [4, 0, 2, 9, 7]

/-- Interleaving sends the two lowest places of five to the first and the third, so that the bits at
rows 4 and 0 go to rows 4 and 2, from where the inverse takes them back. -/
theorem undone_by_inverse_scatteredRows :
    (Operation.rearrange .interleave (some "weave5") scatteredRows).run 17 = .ok 20 ∧
      (Operation.rearrange .deinterleave none scatteredRows).run 20 = .ok 17 := by
  obtain ⟨-, -, -, register⟩ := undone_by_inverse .interleave 5
  obtain ⟨s', ran, -, -, back⟩ :=
    register scatteredRows rfl (by decide) (by decide) (some "weave5") none 17
  have woven : (Operation.rearrange .interleave (some "weave5") scatteredRows).run 17 = .ok 20 := by
    decide +kernel
  cases ran.symm.trans woven
  exact ⟨woven, back⟩

end Rearrangement

end QuantumBoard

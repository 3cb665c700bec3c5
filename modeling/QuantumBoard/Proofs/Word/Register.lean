import QuantumBoard.Proofs.Word.Modular

/-! Registers of words. Gathering reads the bits at the listed rows, scattering writes them and
nothing else. On rows that are all different the two undo each other, up to the bits of the
written number that the register has room for. -/

namespace QuantumBoard.Word

variable {s t v w : UInt64} {rows : List Nat}

/-! ## What is written where -/

theorem testBit_bit_of_pos (x : UInt64) (i : Nat) {k : Nat} (h : 0 < k) :
    testBit (bit x i) k = false := by
  rw [bit, testBit_and, testBit_one]
  simp [Nat.ne_of_gt h]

theorem testBit_write_of_ne {r k : Nat} (h : r < 64) (hk : k < 64) (hne : k ≠ r) (i : Nat) :
    testBit (write s r (bit v i)) k = testBit s k := by
  rw [write, testBit_or, testBit_and, testBit_not _ hk, testBit_single h, testBit_shiftLeft _ h]
  by_cases hle : r ≤ k
  · rw [testBit_bit_of_pos v i (by omega)]
    simp [hne]
  · simp [hne, hle]

/-- A written bit does not depend on what was there. -/
theorem testBit_write_self {r : Nat} (h : r < 64) (b : UInt64) :
    testBit (write s r b) r = testBit (write t r b) r := by
  simp only [write, testBit_or, testBit_and, testBit_not _ h, testBit_single h]
  simp

theorem testBit_scatterFrom_of_not_mem (range : ∀ r ∈ rows, r < 64) {k : Nat} (hk : k < 64)
    (hm : k ∉ rows) (i : Nat) : testBit (scatterFrom s v i rows) k = testBit s k := by
  induction rows generalizing s i with
  | nil => rfl
  | cons r rows ih =>
    have hne : k ≠ r := List.ne_of_not_mem_cons hm
    have hm : k ∉ rows := List.not_mem_of_not_mem_cons hm
    rw [scatterFrom, ih (fun r hr => range r (List.mem_cons_of_mem _ hr)) hm]
    exact testBit_write_of_ne (range r List.mem_cons_self) hk hne i

/-- The written rows do not depend on what was there. -/
theorem testBit_scatterFrom_of_mem (range : ∀ r ∈ rows, r < 64) {k : Nat} (hm : k ∈ rows)
    (i : Nat) : testBit (scatterFrom s v i rows) k = testBit (scatterFrom t v i rows) k := by
  induction rows generalizing s t i with
  | nil => cases hm
  | cons r rows ih =>
    have range' : ∀ r ∈ rows, r < 64 := fun r hr => range r (List.mem_cons_of_mem _ hr)
    rw [scatterFrom, scatterFrom]
    by_cases hk : k ∈ rows
    · exact ih range' hk _
    · have he : k = r := (List.mem_cons.mp hm).resolve_right hk
      subst he
      have hr := range k List.mem_cons_self
      rw [testBit_scatterFrom_of_not_mem range' hr hk, testBit_scatterFrom_of_not_mem range' hr hk]
      exact testBit_write_self hr _

/-! ## What is read -/

theorem bit_congr {r : Nat} (h : r < 64) (he : testBit s r = testBit t r) : bit s r = bit t r := by
  apply eq_of_testBit
  intro k _
  rw [testBit_bit s h, testBit_bit t h, he]

theorem gatherFrom_congr (range : ∀ r ∈ rows, r < 64)
    (agree : ∀ r ∈ rows, testBit s r = testBit t r) (i : Nat) :
    gatherFrom s i rows = gatherFrom t i rows := by
  induction rows generalizing i with
  | nil => rfl
  | cons r rows ih =>
    have hr : bit s r = bit t r :=
      bit_congr (range r List.mem_cons_self) (agree r List.mem_cons_self)
    have ht := ih (fun r hr => range r (List.mem_cons_of_mem _ hr))
      (fun r hr => agree r (List.mem_cons_of_mem _ hr)) (i + 1)
    rw [gatherFrom, gatherFrom, hr, ht]

theorem testBit_gatherFrom (range : ∀ r ∈ rows, r < 64) {i : Nat} (fit : i + rows.length ≤ 64)
    (k : Nat) : testBit (gatherFrom s i rows) k =
      (decide (i ≤ k) && rows[k - i]?.any (testBit s)) := by
  induction rows generalizing i with
  | nil => simp [gatherFrom]
  | cons r rows ih =>
    have hlen : i + 1 + rows.length ≤ 64 := by
      rw [List.length_cons] at fit
      omega
    rw [gatherFrom, testBit_or, testBit_bit_shiftLeft s (range r List.mem_cons_self) (by omega),
      ih (fun r hr => range r (List.mem_cons_of_mem _ hr)) hlen]
    rcases Nat.lt_trichotomy k i with h | h | h
    · simp [show k ≠ i by omega, show ¬i + 1 ≤ k by omega, show ¬i ≤ k by omega]
    · subst h
      simp [show ¬k + 1 ≤ k by omega]
    · have hs : k - i = k - (i + 1) + 1 := by omega
      simp [hs, show k ≠ i by omega, show i + 1 ≤ k by omega, show i ≤ k by omega]

/-! ## Registers on rows that are all different -/

/-- No more than 64 rows are different from each other. -/
theorem length_le_of_nodup (nodup : rows.Nodup) (range : ∀ r ∈ rows, r < 64) :
    rows.length ≤ 64 := by
  have hsub : rows ⊆ List.range 64 := fun r hr => List.mem_range.mpr (range r hr)
  have hle := nodup.length_le_of_subset hsub
  rwa [List.length_range] at hle

theorem testBit_gather (nodup : rows.Nodup) (range : ∀ r ∈ rows, r < 64) (k : Nat) :
    testBit (gather s rows) k = rows[k]?.any (testBit s) := by
  have hlen := length_le_of_nodup nodup range
  rw [gather, testBit_gatherFrom range (by omega)]
  simp

theorem testBit_scatterFrom (nodup : rows.Nodup) (range : ∀ r ∈ rows, r < 64) {i : Nat}
    (fit : i + rows.length ≤ 64) {k : Nat} (hk : k < 64) :
    testBit (scatterFrom s v i rows) k =
      if k ∈ rows then testBit v (i + rows.idxOf k) else testBit s k := by
  induction rows generalizing s i with
  | nil => rfl
  | cons r rows ih =>
    obtain ⟨hr, nodup⟩ := List.nodup_cons.mp nodup
    have range' : ∀ r ∈ rows, r < 64 := fun r hr => range r (List.mem_cons_of_mem _ hr)
    have hlen : i + 1 + rows.length ≤ 64 := by
      rw [List.length_cons] at fit
      omega
    rw [scatterFrom, ih nodup range' hlen,
      testBit_write s v (by omega) (range r List.mem_cons_self) k hk]
    by_cases he : k = r
    · subst he
      simp [hr]
    · by_cases hm : k ∈ rows
      · have hrk : (r == k) = false := beq_eq_false_iff_ne.mpr (Ne.symm he)
        have hi : (r :: rows).idxOf k = rows.idxOf k + 1 := by
          rw [List.idxOf_cons, hrk, cond_false]
        rw [if_pos hm, if_pos (List.mem_cons_of_mem _ hm), hi, Nat.add_right_comm, Nat.add_assoc]
      · simp [he, hm]

theorem testBit_scatter (nodup : rows.Nodup) (range : ∀ r ∈ rows, r < 64) {k : Nat}
    (hk : k < 64) : testBit (scatter s rows v) k =
      if k ∈ rows then testBit v (rows.idxOf k) else testBit s k := by
  have hlen := length_le_of_nodup nodup range
  rw [scatter, testBit_scatterFrom nodup range (by omega) hk, Nat.zero_add]

theorem gather_scatter (nodup : rows.Nodup) (range : ∀ r ∈ rows, r < 64) :
    gather (scatter s rows v) rows = v &&& lowBits rows.length := by
  apply eq_of_testBit
  intro k hk
  rw [testBit_gather nodup range, testBit_and, testBit_lowBits _ k hk]
  by_cases hlt : k < rows.length
  · have hmem : rows[k] ∈ rows := List.getElem_mem hlt
    rw [List.getElem?_eq_getElem hlt, Option.any_some,
      testBit_scatter nodup range (range _ hmem), if_pos hmem, nodup.idxOf_getElem k hlt]
    simp [hlt]
  · simp [hlt]

theorem scatter_gather (nodup : rows.Nodup) (range : ∀ r ∈ rows, r < 64) :
    scatter s rows (gather s rows) = s := by
  apply eq_of_testBit
  intro k hk
  rw [testBit_scatter nodup range hk]
  by_cases hm : k ∈ rows
  · rw [if_pos hm, testBit_gather nodup range,
      List.getElem?_eq_getElem (List.idxOf_lt_length_of_mem hm), Option.any_some,
      List.getElem_idxOf]
  · rw [if_neg hm]

theorem scatter_scatter (nodup : rows.Nodup) (range : ∀ r ∈ rows, r < 64) :
    scatter (scatter s rows v) rows w = scatter s rows w := by
  apply eq_of_testBit
  intro k hk
  rw [testBit_scatter nodup range hk, testBit_scatter nodup range hk,
    testBit_scatter nodup range hk]
  by_cases hm : k ∈ rows <;> simp [hm]

/-- On rows that are all different, writing back what was read changes nothing; what is read after
writing is the number written, as far as the register has room for it; no other row is written;
and of two numbers written the second stays. -/
theorem gather_scatter_laws (nodup : rows.Nodup) (range : ∀ r ∈ rows, r < 64)
    (s v w : UInt64) :
    scatter s rows (gather s rows) = s ∧
      (gather (scatter s rows v) rows).toNat = v.toNat % 2 ^ rows.length ∧
      (∀ k < 64, k ∉ rows → testBit (scatter s rows v) k = testBit s k) ∧
      scatter (scatter s rows v) rows w = scatter s rows w := by
  have fit := length_le_of_nodup nodup range
  refine ⟨scatter_gather nodup range, ?_, ?_, scatter_scatter nodup range⟩
  · rw [gather_scatter nodup range, toNat_and_lowBits v fit]
  · intro k hk outside
    rw [testBit_scatter nodup range hk, if_neg outside]

/-- Rows 63, 0 and 5 have room for the three low bits of 13, which read as 5 again. -/
theorem gather_scatter_laws_threeRows :
    scatter 0x8000000000000012 [63, 0, 5] 13 = 0x8000000000000032 ∧
      (gather (scatter 0x8000000000000012 [63, 0, 5] 13) [63, 0, 5]).toNat = 5 ∧
      scatter 0x8000000000000032 [63, 0, 5] (gather 0x8000000000000012 [63, 0, 5]) =
        0x8000000000000012 := by
  have written : scatter 0x8000000000000012 [63, 0, 5] 13 = 0x8000000000000032 := by
    decide +kernel
  obtain ⟨same, read, -, later⟩ := @gather_scatter_laws [63, 0, 5] (by decide) (by decide)
    0x8000000000000012 13 (gather 0x8000000000000012 [63, 0, 5])
  rw [same, written] at later
  exact ⟨written, read, later⟩

/-! ## The number in a register -/

/-- The number that the bits at the rows are the digits of, the lowest digit first. -/
def value (s : UInt64) : List Nat → Nat
  | [] => 0
  | row :: rows => (testBit s row).toNat + 2 * value s rows

theorem testBit_value (s : UInt64) (rows : List Nat) (k : Nat) :
    (value s rows).testBit k = rows[k]?.any (testBit s) := by
  induction rows generalizing k with
  | nil => simp [value]
  | cons row rows ih =>
    cases k with
    | zero => cases h : testBit s row <;> simp [value, h, Nat.testBit_zero]
    | succ k =>
      have half : ((testBit s row).toNat + 2 * value s rows) / 2 = value s rows := by
        have := (testBit s row).toNat_lt
        omega
      rw [value, Nat.testBit_succ, half, ih, List.getElem?_cons_succ]

/-- On rows that are all different, the number gathered is the number in the register. -/
theorem toNat_gather (nodup : rows.Nodup) (range : ∀ r ∈ rows, r < 64) :
    (gather s rows).toNat = value s rows :=
  Nat.eq_of_testBit_eq fun k =>
    (testBit_gather nodup range k).trans (testBit_value s rows k).symm

theorem gather_eq_ofNat (nodup : rows.Nodup) (range : ∀ r ∈ rows, r < 64) :
    gather s rows = UInt64.ofNat (value s rows) := by
  rw [← toNat_gather nodup range, UInt64.ofNat_toNat]

/-! ## Registers that follow each other -/

/-- The first of the registers holds the lowest bits. -/
theorem gather_append_and_lowBits {front behind : List Nat} (nodup : (front ++ behind).Nodup)
    (range : ∀ r ∈ front ++ behind, r < 64) :
    gather s (front ++ behind) &&& lowBits front.length = gather s front := by
  have nodup' := (List.nodup_append.mp nodup).1
  have range' : ∀ r ∈ front, r < 64 := fun r hr => range r (List.mem_append_left _ hr)
  apply eq_of_testBit
  intro k hk
  rw [testBit_and, testBit_lowBits _ k hk, testBit_gather nodup range,
    testBit_gather nodup' range']
  by_cases h : k < front.length
  · rw [List.getElem?_append_left h]
    simp [h]
  · simp [h]

/-- Any other register holds the bits behind those before it. -/
theorem gather_append_shiftRight {front rows behind : List Nat}
    (nodup : (front ++ rows ++ behind).Nodup) (range : ∀ r ∈ front ++ rows ++ behind, r < 64) :
    gather s (front ++ rows ++ behind) >>> amount front.length &&& lowBits rows.length =
      gather s rows := by
  have fit := length_le_of_nodup nodup range
  have range' : ∀ r ∈ rows, r < 64 := fun r hr => range r (by simp [hr])
  have nodup' : rows.Nodup :=
    (List.nodup_append.mp (List.nodup_append.mp nodup).1).2.1
  apply eq_of_testBit
  intro k hk
  rw [testBit_and, testBit_lowBits _ k hk, testBit_gather nodup' range']
  by_cases h : k < rows.length
  · have first : front.length < 64 := by
      simp only [List.length_append] at fit
      omega
    rw [testBit_shiftRight _ first, testBit_gather nodup range, List.append_assoc,
      List.getElem?_append_right (Nat.le_add_right _ _), Nat.add_sub_cancel_left,
      List.getElem?_append_left h]
    simp [h]
  · simp [h]

end QuantumBoard.Word

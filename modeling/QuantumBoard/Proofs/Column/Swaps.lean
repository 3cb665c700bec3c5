import Mathlib.Algebra.Group.Nat.Even
import Mathlib.Data.List.Sort
import QuantumBoard.Proofs.Column.Independence

/-! # Swap cells

The swap cells of a column are paired in row order: the first with the second, the third with the
fourth, and so on. The pairs have no row in common, so the swaps of a column exchange the bits of
every pair at once, and exchange them back when they are run again. -/

namespace QuantumBoard

open Word (testBit isSet)
open Success

namespace Operation

theorem mem_rows_swap {a b r : Nat} : r ∈ (swap a b).rows ↔ r = a ∨ r = b := by
  simp [swap, ofKind, ofGate, rows]

theorem run_swap {a b : Nat} (ha : a < 64) (hb : b < 64) (s : UInt64) :
    (swap a b).run s = .ok (exchange s a b) := by
  have range : (swap a b).InRange := by
    intro r hr
    rcases mem_rows_swap.mp hr with rfl | rfl
    · exact ha
    · exact hb
  rw [run_of_inRange range]
  rfl

end Operation

namespace Column

/-! ## Pairs of rows -/

/-- The other row of the pair that a row is in; a row that is in no pair stays alone. -/
def partner : List Nat → Nat → Nat
  | first :: second :: rows, k =>
    if k = first then second else if k = second then first else partner rows k
  | _, k => k

/-- Rows that start with no pair are one at most. -/
theorem length_le_one_of_no_pair {rows : List Nat}
    (short : ∀ first second rest, rows = first :: second :: rest → False) : rows.length ≤ 1 := by
  rcases rows with - | ⟨first, - | ⟨second, rest⟩⟩
  · exact Nat.zero_le 1
  · exact Nat.le_refl 1
  · exact (short first second rest rfl).elim

theorem length_pairs (rows : List Nat) : (pairs rows).length = rows.length / 2 := by
  induction rows using pairs.induct with
  | case1 first second rows ih =>
    rw [pairs, List.length_cons, ih, List.length_cons, List.length_cons]
    omega
  | case2 rows short =>
    have few := length_le_one_of_no_pair short
    rw [pairs, List.length_nil]
    · omega
    · exact short

theorem partner_of_not_mem {rows : List Nat} {k : Nat} (outside : k ∉ rows) :
    partner rows k = k := by
  induction rows using pairs.induct with
  | case1 first second rows ih =>
    simp only [List.mem_cons, not_or] at outside
    rw [partner, if_neg outside.1, if_neg outside.2.1, ih outside.2.2]
  | case2 rows short =>
    rw [partner]
    exact short

theorem partner_mem {rows : List Nat} {k : Nat} (hk : k ∈ rows) : partner rows k ∈ rows := by
  induction rows using pairs.induct with
  | case1 first second rows ih =>
    rw [partner]
    split
    · simp
    split
    · simp
    · have rest : k ∈ rows := by simp_all
      exact List.mem_cons_of_mem _ (List.mem_cons_of_mem _ (ih rest))
  | case2 rows short =>
    rwa [partner]
    exact short

theorem partner_lt {rows : List Nat} (range : ∀ r ∈ rows, r < 64) {k : Nat} (hk : k < 64) :
    partner rows k < 64 := by
  by_cases inside : k ∈ rows
  · exact range _ (partner_mem inside)
  · rwa [partner_of_not_mem inside]

/-- The pairs behind the first one leave its rows alone, and no row gets one of them as partner. -/
theorem partner_ne {rows : List Nat} {row k : Nat} (outside : row ∉ rows) (other : k ≠ row) :
    partner rows k ≠ row := by
  by_cases inside : k ∈ rows
  · exact fun same => outside (same ▸ partner_mem inside)
  · rwa [partner_of_not_mem inside]

theorem partner_partner {rows : List Nat} (nodup : rows.Nodup) (k : Nat) :
    partner rows (partner rows k) = k := by
  induction rows using pairs.induct with
  | case1 first second rows ih =>
    obtain ⟨apart, fresh, fresh', nodup⟩ := nodup_pair.mp nodup
    by_cases hf : k = first
    · subst hf
      simp [partner, Ne.symm apart]
    by_cases hs : k = second
    · subst hs
      simp [partner, hf]
    · simp [partner, hf, hs, partner_ne fresh hf, partner_ne fresh' hs, ih nodup]
  | case2 rows short =>
    rw [partner, partner] <;> exact short

/-- The rows at places `2 * j` and `2 * j + 1` are partners. -/
theorem partner_of_getElem? {rows : List Nat} (nodup : rows.Nodup) {j a b : Nat}
    (ha : rows[2 * j]? = some a) (hb : rows[2 * j + 1]? = some b) :
    partner rows a = b ∧ partner rows b = a := by
  suffices first : partner rows a = b from ⟨first, first ▸ partner_partner nodup a⟩
  induction rows using pairs.induct generalizing j with
  | case1 first second rows ih =>
    cases j with
    | zero =>
      cases ha
      cases hb
      exact if_pos rfl
    | succ j =>
      have ha : rows[2 * j]? = some a := ha
      have hb : rows[2 * j + 1]? = some b := hb
      obtain ⟨-, fresh, fresh', nodup⟩ := nodup_pair.mp nodup
      have inside := List.mem_of_getElem? ha
      have notFirst : a ≠ first := fun same => fresh (same ▸ inside)
      have notSecond : a ≠ second := fun same => fresh' (same ▸ inside)
      rw [partner, if_neg notFirst, if_neg notSecond, ih nodup ha hb]
  | case2 rows short =>
    have inside := (List.getElem?_eq_some_iff.mp hb).1
    have few := length_le_one_of_no_pair short
    omega

/-! ## Runs of swaps -/

/-- The swaps of rows in pairs. -/
def pairSwaps (rows : List Nat) : List Operation := (pairs rows).map fun (a, b) => .swap a b

section

variable {rows : List Nat} (nodup : rows.Nodup) (range : ∀ r ∈ rows, r < 64)

include nodup range

/-- A run of swaps gives every row the bit of its partner. -/
theorem runAll_pairSwaps (s : UInt64) : ∃ s', runAll (pairSwaps rows) s = .ok s' ∧
    ∀ k < 64, testBit s' k = testBit s (partner rows k) := by
  induction rows using pairs.induct generalizing s with
  | case1 first second rows ih =>
    obtain ⟨-, fresh, fresh', nodup⟩ := nodup_pair.mp nodup
    have hf : first < 64 := range first (by simp)
    have hs : second < 64 := range second (by simp)
    have rest : ∀ r ∈ rows, r < 64 := fun r hr => range r (by simp [hr])
    -- the other pairs run on the state behind the first exchange, and take no bit from its rows
    obtain ⟨s', ran, bits⟩ := ih nodup rest (exchange s first second)
    refine ⟨s', ?_, fun k hk => ?_⟩
    · rw [pairSwaps, pairs, List.map_cons, runAll_cons, Operation.run_swap hf hs]
      exact ran
    · rw [bits k hk, testBit_exchange s hf hs (partner_lt rest hk), partner]
      by_cases atFirst : k = first
      · subst atFirst
        simp [partner_of_not_mem fresh]
      by_cases atSecond : k = second
      · subst atSecond
        simp [partner_of_not_mem fresh', atFirst]
      · simp [atFirst, atSecond, partner_ne fresh atFirst, partner_ne fresh' atSecond]
  | case2 rows short =>
    have none : pairSwaps rows = [] := by
      rw [pairSwaps, pairs]
      · rfl
      · exact short
    refine ⟨s, by rw [none]; rfl, fun k _ => ?_⟩
    rw [partner]
    exact short

variable {controls : List Nat} (steering : ∀ r ∈ controls, r < 64)
  (apart : ∀ r ∈ controls, r ∉ rows)

include steering apart

omit nodup in
/-- Under controls on other rows, the swaps happen when all of these are set. -/
theorem runAll_steered (s : UInt64) :
    runAll ((pairSwaps rows).map (Operation.controlledBy controls)) s =
      if controls.all (isSet s) then runAll (pairSwaps rows) s else .ok s := by
  have swapped : ∀ op ∈ pairSwaps rows, op.controls = [] ∧ ∀ r ∈ op.targets, r ∈ rows := by
    intro op hop
    obtain ⟨⟨a, b⟩, hab, rfl⟩ := List.mem_map.mp hop
    obtain ⟨ha, hb⟩ := mem_of_mem_pairs hab
    refine ⟨rfl, fun r hr => ?_⟩
    rcases Operation.mem_rows_swap.mp (List.mem_append_left _ hr) with rfl | rfl
    · exact ha
    · exact hb
  refine runAll_controlledBy _ (fun op hop r hr => ?_)
    (fun op hop r steers target => apart r steers ((swapped op hop).2 r target)) s
  obtain ⟨alone, targets⟩ := swapped op hop
  rcases List.mem_append.mp hr with hr | hr
  · exact range r (targets r hr)
  · rw [Operation.controlledBy, alone, List.nil_append] at hr
    exact steering r hr

/-- The controls stay set, so that a second run exchanges all pairs again. -/
theorem runAll_steered_twice {s : UInt64} (set : ∀ r ∈ controls, isSet s r = true) :
    ∃ s', runAll ((pairSwaps rows).map (Operation.controlledBy controls)) s = .ok s' ∧
      (∀ j a b, rows[2 * j]? = some a → rows[2 * j + 1]? = some b →
        testBit s' a = testBit s b ∧ testBit s' b = testBit s a) ∧
      (∀ k < 64, k ∉ rows → testBit s' k = testBit s k) ∧
      runAll ((pairSwaps rows).map (Operation.controlledBy controls)) s' = .ok s := by
  obtain ⟨s', ran, bits⟩ := runAll_pairSwaps nodup range s
  obtain ⟨t, again, bits'⟩ := runAll_pairSwaps nodup range s'
  have others : ∀ k < 64, k ∉ rows → testBit s' k = testBit s k := by
    intro k hk outside
    rw [bits k hk, partner_of_not_mem outside]
  have restored : t = s := Word.eq_of_testBit fun k hk => by
    rw [bits' k hk, bits _ (partner_lt range hk), partner_partner nodup]
  have stillSet : ∀ r ∈ controls, isSet s' r = true := by
    intro r hr
    have hr64 := steering r hr
    rw [Word.isSet_eq_testBit s' hr64, others r hr64 (apart r hr),
      ← Word.isSet_eq_testBit s hr64, set r hr]
  refine ⟨s', ?_, fun j a b ha hb => ?_, others, ?_⟩
  · rw [runAll_steered range steering apart, if_pos (List.all_eq_true.mpr set), ran]
  · obtain ⟨first, second⟩ := partner_of_getElem? nodup ha hb
    rw [bits a (range a (List.mem_of_getElem? ha)), bits b (range b (List.mem_of_getElem? hb)),
      first, second]
    exact ⟨rfl, rfl⟩
  · rw [runAll_steered range steering apart, if_pos (List.all_eq_true.mpr stillSet), again,
      restored]

end

/-! ## Columns of swap cells -/

/-- There are only swap cells, displays and controls on set bits. -/
def OnlySwaps (cells : List Placed) : Prop :=
  ∀ p ∈ cells, p.cell.kind = .swap ∨ p.cell.kind = .display ∨ p.cell.kind = .control none

namespace OnlySwaps

variable {cells : List Placed} (only : OnlySwaps cells)

include only

theorem bracket_eq : bracket cells = ⟨cells.filterMap controlRow?, []⟩ := by
  have parities : cells.filterMap parityRow? = [] := List.filterMap_eq_nil_iff.mpr fun p hp => by
    rcases only p hp with kind | kind | kind <;> simp [parityRow?, kind]
  have bases : cells.filterMap basisChange? = [] := List.filterMap_eq_nil_iff.mpr fun p hp => by
    rcases only p hp with kind | kind | kind <;> simp [basisChange?, kind]
  rw [bracket, parities, bases]

theorem bindInputs_eq_empty : bindInputs cells = .ok Inputs.empty := by
  rw [bindInputs_eq]
  induction cells with
  | nil => rfl
  | cons p cells ih =>
    have unbound : bindInput Inputs.empty p = .ok Inputs.empty := by
      rcases only p List.mem_cons_self with kind | kind | kind <;> simp [bindInput, kind]
    rw [List.foldlM_cons, unbound]
    exact ih fun q hq => only q (List.mem_cons_of_mem _ hq)

theorem isRegion {region : List Operation} (swapped : swaps cells = .ok region) :
    IsRegion cells region := by
  have idle : ∀ p ∈ cells, p.cell.kind.isIdle = true := by
    intro p hp
    rcases only p hp with kind | kind | kind <;> rw [kind] <;> rfl
  refine ⟨_, region, _, only.bindInputs_eq_empty, swapped, mapM_of_isIdle idle, ?_⟩
  simp

/-- A column of swap cells builds the swaps of its pairs, each under the controls. -/
theorem build_ok (even : (cells.filterMap swapRow?).length % 2 = 0) :
    build cells = .ok ((pairSwaps (cells.filterMap swapRow?)).map
      (Operation.controlledBy (cells.filterMap controlRow?))) := by
  have swapped : swaps cells = .ok (pairSwaps (cells.filterMap swapRow?)) :=
    swaps_eq_ok.mpr ⟨even, rfl⟩
  refine build_eq_ok_iff_region.mpr ⟨_, only.isRegion swapped, ?_, ?_⟩
  · rw [not_measured_of_swaps swapped]
    exact fun measured => Bool.false_ne_true measured.2
  · rw [only.bracket_eq, surround]
    split
    · simp_all
    · simp

theorem build_error (odd : (cells.filterMap swapRow?).length % 2 ≠ 0) :
    build cells = .error (.oddSwaps (cells.filterMap swapRow?).length) := by
  have refused : swaps cells = .error (.oddSwaps (cells.filterMap swapRow?).length) := if_neg odd
  rw [build, parts, only.bindInputs_eq_empty, refused]
  rfl

theorem mem_controlRows {r : Nat} : r ∈ cells.filterMap controlRow? ↔
    ∃ p ∈ cells, p.cell.kind = .control none ∧ r = p.row := by
  simp only [List.mem_filterMap, controlRow?_eq_some]
  refine exists_congr fun p => and_congr_right fun hp => and_congr_left fun _ => ?_
  refine ⟨fun ⟨basis, kind⟩ => ?_, fun kind => ⟨none, kind⟩⟩
  rcases only p hp with other | other | other <;> simp_all

end OnlySwaps

/-- Control cells and swap cells stand on different rows. -/
theorem controlRow_ne_swapRow {cells : List Placed} (apart : Apart cells) {r : Nat}
    (control : r ∈ cells.filterMap controlRow?) : r ∉ cells.filterMap swapRow? := by
  refine apart.rows_disjoint (fun _ _ h => (controlRow?_eq_some.mp h).2)
    (fun _ _ h => (swapRow?_eq_some.mp h).2) (fun p r r' h h' => ?_) control
  obtain ⟨⟨basis, kind⟩, -⟩ := controlRow?_eq_some.mp h
  cases kind.symm.trans (swapRow?_eq_some.mp h').1

/-- A column of swap cells, displays and controls is refused when the number of its swap cells is
odd. Otherwise it has a swap for each pair of its swap rows in ascending order. When the controls
are set, a run exchanges the bits of every pair and leaves all others, and a second run restores the
state; when one of them is not, a run changes nothing. -/
theorem build_swaps_in_row_order {custom : CustomGates} {entries : List Json} {cells : List Placed}
    (resolved : resolve custom entries = .ok cells) (only : OnlySwaps cells)
    (range : ∀ p ∈ cells, p.cell.kind ≠ .display → p.row < 64) {rows : List Nat}
    (ascending : rows.Pairwise (· < ·))
    (swapRows : ∀ r, r ∈ rows ↔ ∃ p ∈ cells, p.cell.kind = .swap ∧ r = p.row) :
    (build cells = .error (.oddSwaps rows.length) ↔ Odd rows.length) ∧
    (Even rows.length → ∃ ops, build cells = .ok ops ∧ ops.length = rows.length / 2 ∧ ∀ s,
      ((∀ p ∈ cells, p.cell.kind = .control none → isSet s p.row = true) →
        ∃ s', runAll ops s = .ok s' ∧
          (∀ j a b, rows[2 * j]? = some a → rows[2 * j + 1]? = some b →
            testBit s' a = testBit s b ∧ testBit s' b = testBit s a) ∧
          (∀ k < 64, k ∉ rows → testBit s' k = testBit s k) ∧ runAll ops s' = .ok s) ∧
      ((∃ p ∈ cells, p.cell.kind = .control none ∧ isSet s p.row = false) →
        runAll ops s = .ok s)) := by
  have apart := apart_of_resolve resolved
  have listed : rows = cells.filterMap swapRow? := by
    refine List.Pairwise.eq_of_mem_iff ascending
      (apart.ascending_rows fun _ _ h => (swapRow?_eq_some.mp h).2) fun {r} => ?_
    simp only [List.mem_filterMap, swapRow?_eq_some, swapRows]
  subst listed
  have nodup := ascending.imp Nat.ne_of_lt
  have targets : ∀ r ∈ cells.filterMap swapRow?, r < 64 := by
    intro r hr
    obtain ⟨p, hp, kind, rfl⟩ := (swapRows r).mp hr
    exact range p hp (by rw [kind]; exact nofun)
  have steering : ∀ r ∈ cells.filterMap controlRow?, r < 64 := by
    intro r hr
    obtain ⟨p, hp, kind, rfl⟩ := only.mem_controlRows.mp hr
    exact range p hp (by rw [kind]; exact nofun)
  have separate := fun r => controlRow_ne_swapRow apart (r := r)
  refine ⟨⟨fun failed => ?_, fun odd => only.build_error ?_⟩, fun even => ?_⟩
  · rw [← Nat.not_even_iff_odd, Nat.even_iff]
    intro even
    cases (only.build_ok even).symm.trans failed
  · rw [Nat.odd_iff.mp odd]
    decide
  refine ⟨_, only.build_ok (Nat.even_iff.mp even), ?_, fun s => ⟨fun set => ?_, ?_⟩⟩
  · rw [List.length_map, pairSwaps, List.length_map, length_pairs]
  · refine runAll_steered_twice nodup targets steering separate fun r hr => ?_
    obtain ⟨p, hp, kind, rfl⟩ := only.mem_controlRows.mp hr
    exact set p hp kind
  · rintro ⟨p, hp, kind, unset⟩
    rw [runAll_steered targets steering separate, if_neg]
    intro all
    have set := List.all_eq_true.mp all p.row (only.mem_controlRows.mpr ⟨p, hp, kind, rfl⟩)
    rw [unset] at set
    cases set

/-- The entries of four swap cells, with a control and a display between them. -/
def fourSwaps : List String := ["Swap", "•", "Swap", "Bloch", "Swap", "Swap"]

def fourSwapCells : List Placed :=
  [⟨0, ⟨"Swap", 1, .swap⟩, none⟩, ⟨1, ⟨"•", 1, .control none⟩, none⟩,
    ⟨2, ⟨"Swap", 1, .swap⟩, none⟩, ⟨3, ⟨"Bloch", 1, .display⟩, none⟩,
    ⟨4, ⟨"Swap", 1, .swap⟩, none⟩, ⟨5, ⟨"Swap", 1, .swap⟩, none⟩]

def fourSwapOperations : List Operation :=
  [(Operation.swap 0 2).controlledBy [1], (Operation.swap 4 5).controlledBy [1]]

/-- In state 19 the control is set: the bits of rows 0 and 4 go to rows 2 and 5, and come back. In
state 17 it is not. -/
theorem build_swaps_in_row_order_fourSwaps :
    resolve [] (fourSwaps.map .text) = .ok fourSwapCells ∧
    build fourSwapCells = .ok fourSwapOperations ∧
    runAll fourSwapOperations 19 = .ok 38 ∧ runAll fourSwapOperations 38 = .ok 19 ∧
    runAll fourSwapOperations 17 = .ok 17 := by
  have resolved : resolve [] (fourSwaps.map .text) = .ok fourSwapCells :=
    @resolve_texts [] fourSwaps (fourSwapCells.map Placed.cell) (by decide +kernel) (by decide)
  have only : OnlySwaps fourSwapCells := by
    unfold OnlySwaps
    decide
  have built : build fourSwapCells = .ok fourSwapOperations := build_eq_ok.mpr ⟨_, rfl, by decide⟩
  have swapRows : ∀ r, r ∈ [0, 2, 4, 5] ↔
      ∃ p ∈ fourSwapCells, p.cell.kind = .swap ∧ r = p.row := by
    simp [fourSwapCells]
  obtain ⟨-, even⟩ := build_swaps_in_row_order resolved only (by decide) (by decide) swapRows
  obtain ⟨ops, same, -, run⟩ := even (by decide)
  cases built.symm.trans same
  obtain ⟨s', ran, -, -, back⟩ := (run 19).1 (by decide)
  have exchanged : runAll fourSwapOperations 19 = .ok 38 := by decide +kernel
  cases ran.symm.trans exchanged
  exact ⟨resolved, built, ran, back, (run 17).2 ⟨_, .tail _ (.head _), rfl, by decide⟩⟩

end Column

end QuantumBoard

import QuantumBoard.Proofs.Board.Sound
import QuantumBoard.Proofs.Cell.Registry
import QuantumBoard.Proofs.Column.Region
import QuantumBoard.Proofs.Column.Resolve

/-! # Controls of a column

The bracket of a column flips the rows of its white controls and folds the parity of its parity
cells into the first of them. Both are flips of bits that the controlled region does not touch, so
they are taken back whatever the region does, and the region runs just when the controls
of the column are met. -/

namespace QuantumBoard

open Word (testBit isSet)
open Success

/-- The parity of the bits at the given rows. -/
def parity (s : UInt64) (rows : List Nat) : Bool := rows.foldr (fun r odd => isSet s r ^^ odd) false

/-- The word with the bits of the given rows, each flipped as often as it is listed. -/
def flipMask (rows : List Nat) : UInt64 := rows.foldr (fun r mask => Word.single r ^^^ mask) 0

theorem parity_congr {rows : List Nat} (range : ∀ r ∈ rows, r < 64) {s t : UInt64}
    (agree : Agree rows s t) : parity s rows = parity t rows := by
  induction rows with
  | nil => rfl
  | cons r rows ih =>
    have hr := range r List.mem_cons_self
    have rest := ih (fun r h => range r (List.mem_cons_of_mem _ h))
      (fun r h => agree r (List.mem_cons_of_mem _ h))
    unfold parity at *
    rw [List.foldr_cons, List.foldr_cons, rest, Word.isSet_eq_testBit s hr,
      Word.isSet_eq_testBit t hr, agree r List.mem_cons_self]

theorem testBit_flipMask {rows : List Nat} (nodup : rows.Nodup) (range : ∀ r ∈ rows, r < 64)
    (k : Nat) : testBit (flipMask rows) k = decide (k ∈ rows) := by
  induction rows with
  | nil => simp [flipMask]
  | cons r rows ih =>
    obtain ⟨fresh, nodup⟩ := List.nodup_cons.mp nodup
    have rest := ih nodup (fun r h => range r (List.mem_cons_of_mem _ h))
    unfold flipMask at *
    rw [List.foldr_cons, Word.testBit_xor, rest, Word.testBit_single (range r List.mem_cons_self)]
    by_cases hk : k = r
    · subst hk
      simp [fresh]
    · simp [hk]

/-! ## The bracket -/

namespace Operation

theorem run_flip {row : Nat} (hr : row < 64) (s : UInt64) :
    (flip row).run s = .ok (s ^^^ Word.single row) := by
  have range : (flip row).InRange := by
    intro r h
    obtain rfl : r = row := List.mem_singleton.mp h
    exact hr
  rw [run_of_inRange range]
  rfl

theorem run_controlledFlip {control target : Nat} (hc : control < 64) (ht : target < 64)
    (s : UInt64) : (controlledFlip control target).run s =
      .ok (if isSet s control then s ^^^ Word.single target else s) := by
  have range : ((flip target).controlledBy [control]).InRange := by
    intro r h
    rcases List.mem_append.mp h with h | h
    · obtain rfl : r = target := List.mem_singleton.mp h
      exact ht
    · obtain rfl : r = control := List.mem_singleton.mp h
      exact hc
  rw [controlledFlip, run_controlledBy range, run_flip ht]
  cases h : isSet s control <;> simp [h]

end Operation

theorem runAll_flips {rows : List Nat} (range : ∀ r ∈ rows, r < 64) (s : UInt64) :
    runAll (rows.map Operation.flip) s = .ok (s ^^^ flipMask rows) := by
  induction rows generalizing s with
  | nil =>
    rw [flipMask, List.foldr_nil, UInt64.xor_zero]
    rfl
  | cons r rows ih =>
    rw [List.map_cons, runAll_cons, Operation.run_flip (range r List.mem_cons_self)]
    refine (ih (fun r h => range r (List.mem_cons_of_mem _ h)) _).trans ?_
    rw [UInt64.xor_assoc]
    rfl

/-- A ladder of controlled flips adds the parity of its controls to its target. -/
theorem runAll_ladder {others : List Nat} {first : Nat} (range : ∀ r ∈ others, r < 64)
    (hf : first < 64) (apart : first ∉ others) (s : UInt64) :
    runAll (others.map fun row => Operation.controlledFlip row first) s =
      .ok (s ^^^ if parity s others then Word.single first else 0) := by
  induction others generalizing s with
  | nil =>
    simp only [parity, List.foldr_nil, Bool.false_eq_true, if_false, UInt64.xor_zero]
    rfl
  | cons r others ih =>
    have hr := range r List.mem_cons_self
    have range := fun r h => range r (List.mem_cons_of_mem _ h)
    have away : first ∉ others := fun h => apart (List.mem_cons_of_mem _ h)
    have kept : parity (s ^^^ Word.single first) others = parity s others := by
      refine parity_congr range (Agree.of_avoids (fun r h => ?_) s)
      rw [Word.testBit_single hf]
      exact decide_eq_false fun same => away (same ▸ h)
    rw [List.map_cons, runAll_cons, Operation.run_controlledFlip hr hf]
    refine (ih range away _).trans (congrArg _ ?_)
    have step : parity s (r :: others) = (isSet s r ^^ parity s others) := rfl
    rw [step]
    cases set : isSet s r
    · simp
    · simp only [if_true, kept, Bool.true_xor]
      cases parity s others
      · simp
      · have twice := xor_single_xor_single s first
        rw [Bool.not_true, if_pos rfl, if_neg Bool.false_ne_true, twice]
        exact UInt64.xor_zero.symm

namespace Column

/-- A bracket that flips bits which the region does not touch leaves the region as it is when its
controls are set, and otherwise leaves nothing. -/
theorem runAll_surround {b : Bracket} {region : List Operation} {rows : List Nat} {s mask : UInt64}
    (sound : ∀ op ∈ b.before, op.Sound) (placed : ∀ op ∈ b.before, op.placementError? = none)
    (enter : ∀ t, Agree rows t s → runAll b.before t = .ok (t ^^^ mask))
    (inside : ∀ k < 64, testBit mask k = true → k ∈ rows)
    (untouched : ∀ op ∈ region, ∀ r ∈ op.rows, r ∉ rows) (steered : ∀ r ∈ b.controls, r ∈ rows)
    (range : ∀ op ∈ region, (op.controlledBy b.controls).InRange) :
    runAll (surround b region) s =
      if b.controls.all (isSet (s ^^^ mask)) then runAll region s else .ok s := by
  have leave : ∀ t, Agree rows t s →
      runAll (b.before.reverse.map Operation.inverse) (t ^^^ mask) = .ok t := by
    intro t agree
    rw [List.map_reverse]
    exact runAll_inverse sound placed (enter t agree)
  have avoids : ∀ op ∈ region, Avoids mask op.rows := by
    intro op hop r hr
    by_cases hk : r < 64
    · rw [← Bool.not_eq_true]
      exact fun set => untouched op hop r hr (inside r hk set)
    · exact Word.testBit_of_le _ (by omega)
  have apart : ∀ op ∈ region, ∀ r ∈ b.controls, r ∉ op.targets := fun op hop r hr target =>
    untouched op hop r (List.mem_append_left _ target) (steered r hr)
  unfold surround
  by_cases empty : region = []
  · subst empty
    simp only [if_true]
    split <;> rfl
  rw [if_neg empty, runAll_append, runAll_append, enter s (fun r _ => rfl)]
  show (runAll (region.map _) (s ^^^ mask) >>= _) = _
  rw [runAll_controlledBy region range apart]
  by_cases set : b.controls.all (isSet (s ^^^ mask)) = true
  · rw [if_pos set, if_pos set, runAll_xor region avoids]
    match ran : runAll region s with
    | .error e => rfl
    | .ok t =>
      refine leave t fun r hr => ?_
      by_cases hk : r < 64
      · exact testBit_runAll ran hk fun op hop target =>
          untouched op hop r (List.mem_append_left _ target) hr
      · rw [Word.testBit_of_le _ (by omega), Word.testBit_of_le _ (by omega)]
  · rw [if_neg set, if_neg set]
    exact leave s fun r _ => rfl

/-! ## Columns under value controls -/

/-- The only controls are on set bits, on bits that are not set, and on parities of bits. -/
def ValueControls (cells : List Placed) : Prop :=
  ∀ p ∈ cells, (∀ basis, p.cell.kind = .control basis → basis = none ∨ basis = some (.pauli .x)) ∧
    ∀ basis, p.cell.kind = .parity basis → basis = none

/-- What the controls of a column ask of a state. -/
structure Met (cells : List Placed) (s : UInt64) : Prop where
  set : ∀ p ∈ cells, p.cell.kind = .control none → isSet s p.row = true
  unset : ∀ p ∈ cells, p.cell.kind = .control (some (.pauli .x)) → isSet s p.row = false
  odd : (∃ p ∈ cells, p.cell.kind = .parity none) →
    parity s (cells.filterMap parityRow?) = true

/-- The row of a control on a bit that is not set. -/
def openRow? (p : Placed) : Option Nat :=
  match p.cell.kind with
  | .control (some _) => some p.row
  | _ => none

theorem openRow?_eq_some {p : Placed} {r : Nat} :
    openRow? p = some r ↔ (∃ g, p.cell.kind = .control (some g)) ∧ r = p.row := by
  unfold openRow?
  split <;> simp_all [eq_comm]

/-- The rows of the controls of a column. -/
def bracketRows (cells : List Placed) : List Nat :=
  cells.filterMap controlRow? ++ cells.filterMap parityRow?

/-- The bits that the bracket of a column flips in a state. -/
def bracketMask (cells : List Placed) (s : UInt64) : UInt64 :=
  flipMask (cells.filterMap openRow?) ^^^
    match cells.filterMap parityRow? with
    | [] => 0
    | first :: others => if parity s others then Word.single first else 0

theorem mem_insertRow {row r : Nat} {rows : List Nat} :
    r ∈ insertRow row rows ↔ r = row ∨ r ∈ rows := by
  induction rows with
  | nil => simp [insertRow]
  | cons first rows ih =>
    rw [insertRow]
    split
    · simp
    · simp only [List.mem_cons, ih]
      tauto

/-- The controls of the region: the control cells, and the first parity cell. -/
theorem mem_bracket_controls {cells : List Placed} {r : Nat} :
    r ∈ (bracket cells).controls ↔
      r ∈ cells.filterMap controlRow? ∨ (cells.filterMap parityRow?).head? = some r := by
  unfold bracket
  match cells.filterMap parityRow? with
  | [] => simp
  | first :: others =>
    show r ∈ insertRow first (cells.filterMap controlRow?) ↔ _
    rw [mem_insertRow, List.head?_cons, Option.some.injEq]
    tauto

theorem basisChanges_eq {cells : List Placed} (controls : ValueControls cells) :
    cells.filterMap basisChange? = (cells.filterMap openRow?).map Operation.flip := by
  rw [List.map_filterMap]
  refine List.filterMap_congr fun p hp => ?_
  obtain ⟨value, even⟩ := controls p hp
  unfold basisChange? openRow?
  split
  · rename_i basis kind
    rcases value basis kind with rfl | rfl <;> simp [kind, Operation.flip]
  · rename_i basis kind
    rw [even basis kind]
    simp [kind]
  · split
    · simp_all
    · rfl

theorem before_eq {cells : List Placed} (controls : ValueControls cells) :
    (bracket cells).before = (cells.filterMap openRow?).map Operation.flip ++
      match cells.filterMap parityRow? with
      | [] => []
      | first :: others => others.map fun row => .controlledFlip row first := by
  rw [← basisChanges_eq controls]
  unfold bracket
  split <;> simp_all

section

variable {cells : List Placed} (apart : Apart cells)

include apart

theorem nodup_openRows : (cells.filterMap openRow?).Nodup :=
  apart.nodup_rows fun _ _ h => (openRow?_eq_some.mp h).2

theorem nodup_parityRows : (cells.filterMap parityRow?).Nodup :=
  apart.nodup_rows fun _ _ h => (parityRow?_eq_some.mp h).2

/-- Control cells and parity cells stand on different rows. -/
theorem controlRow_ne_parityRow {r : Nat} (control : r ∈ cells.filterMap controlRow?) :
    r ∉ cells.filterMap parityRow? := by
  refine apart.rows_disjoint (fun _ _ h => (controlRow?_eq_some.mp h).2)
    (fun _ _ h => (parityRow?_eq_some.mp h).2) (fun p r r' h h' => ?_) control
  obtain ⟨⟨basis, kind⟩, -⟩ := controlRow?_eq_some.mp h
  obtain ⟨⟨basis', kind'⟩, -⟩ := parityRow?_eq_some.mp h'
  cases kind.symm.trans kind'

end

theorem openRows_subset (cells : List Placed) :
    cells.filterMap openRow? ⊆ cells.filterMap controlRow? := by
  intro r hr
  obtain ⟨p, hp, row⟩ := List.mem_filterMap.mp hr
  obtain ⟨⟨g, kind⟩, rfl⟩ := openRow?_eq_some.mp row
  exact List.mem_filterMap.mpr ⟨p, hp, controlRow?_eq_some.mpr ⟨⟨_, kind⟩, rfl⟩⟩

section

variable {cells : List Placed} (apart : Apart cells) (range : ∀ r ∈ bracketRows cells, r < 64)

include apart range

theorem testBit_bracketMask (s : UInt64) (k : Nat) : testBit (bracketMask cells s) k =
    (decide (k ∈ cells.filterMap openRow?) ^^
      match cells.filterMap parityRow? with
      | [] => false
      | first :: others => decide (k = first) && parity s others) := by
  have opens : ∀ r ∈ cells.filterMap openRow?, r < 64 := fun r hr =>
    range r (List.mem_append_left _ (openRows_subset cells hr))
  rw [bracketMask, Word.testBit_xor, testBit_flipMask (nodup_openRows apart) opens]
  congr 1
  match hparities : cells.filterMap parityRow? with
  | [] => exact Word.testBit_zero k
  | first :: others =>
    have hf : first < 64 := range first (List.mem_append_right _ (by simp [hparities]))
    cases odd : parity s others <;> simp [odd, Word.testBit_single hf]

/-- The bracket flips the bits of its mask, which depends on the rows of the bracket only. -/
theorem runAll_before (controls : ValueControls cells) {s t : UInt64}
    (agree : Agree (bracketRows cells) t s) :
    runAll (bracket cells).before t = .ok (t ^^^ bracketMask cells s) := by
  have opens : ∀ r ∈ cells.filterMap openRow?, r < 64 := fun r hr =>
    range r (List.mem_append_left _ (openRows_subset cells hr))
  have nodup := nodup_parityRows apart
  have away : ∀ r ∈ cells.filterMap parityRow?, r ∉ cells.filterMap openRow? := fun r hr open_ =>
    controlRow_ne_parityRow apart (openRows_subset cells open_) hr
  rw [before_eq controls, runAll_append, runAll_flips opens, bracketMask, ← UInt64.xor_assoc]
  show runAll _ (t ^^^ flipMask (cells.filterMap openRow?)) = _
  match hparities : cells.filterMap parityRow? with
  | [] =>
    simp only [UInt64.xor_zero]
    rfl
  | first :: others =>
    rw [hparities] at nodup away
    have rows : ∀ r ∈ first :: others, r < 64 := fun r hr =>
      range r (List.mem_append_right _ (hparities ▸ hr))
    have otherRows : ∀ r ∈ others, r < 64 := fun r hr => rows r (List.mem_cons_of_mem _ hr)
    have same : parity (t ^^^ flipMask (cells.filterMap openRow?)) others = parity s others := by
      refine parity_congr otherRows fun r hr => ?_
      have parityRow : r ∈ first :: others := List.mem_cons_of_mem _ hr
      rw [Word.testBit_xor, testBit_flipMask (nodup_openRows apart) opens,
        agree r (List.mem_append_right _ (hparities ▸ parityRow)),
        decide_eq_false (away r parityRow), Bool.xor_false]
    simp only [← same]
    exact runAll_ladder otherRows (rows first List.mem_cons_self) (List.nodup_cons.mp nodup).1 _

theorem mem_bracketRows_of_bracketMask {s : UInt64} {k : Nat}
    (set : testBit (bracketMask cells s) k = true) : k ∈ bracketRows cells := by
  rw [testBit_bracketMask apart range] at set
  unfold bracketRows
  by_cases hk : k ∈ cells.filterMap openRow?
  · exact List.mem_append_left _ (openRows_subset cells hk)
  · refine List.mem_append_right _ ?_
    match hparities : cells.filterMap parityRow? with
    | [] => simp [hk, hparities] at set
    | first :: others =>
      simp only [hk, hparities, decide_false, Bool.false_xor, Bool.and_eq_true,
        decide_eq_true_eq] at set
      rw [set.1]
      exact List.mem_cons_self

omit apart in
theorem isSet_bracket (s : UInt64) {r : Nat} (hr : r ∈ bracketRows cells) :
    isSet (s ^^^ bracketMask cells s) r = (isSet s r ^^ testBit (bracketMask cells s) r) := by
  rw [Word.isSet_eq_testBit _ (range r hr), Word.testBit_xor, Word.isSet_eq_testBit _ (range r hr)]

/-- Behind the bracket, the bit of a control cell is flipped when the cell is white. -/
theorem isSet_controlRow (s : UInt64) {p : Placed} (hp : p ∈ cells) {basis : Option WireGate}
    (kind : p.cell.kind = .control basis) :
    isSet (s ^^^ bracketMask cells s) p.row = (isSet s p.row ^^ basis.isSome) := by
  have row : p.row ∈ cells.filterMap controlRow? :=
    List.mem_filterMap.mpr ⟨p, hp, controlRow?_eq_some.mpr ⟨⟨basis, kind⟩, rfl⟩⟩
  have white : decide (p.row ∈ cells.filterMap openRow?) = basis.isSome := by
    rw [Bool.eq_iff_iff, decide_eq_true_iff, Option.isSome_iff_exists]
    constructor
    · intro hrow
      obtain ⟨q, hq, qrow⟩ := List.mem_filterMap.mp hrow
      obtain ⟨⟨g, qkind⟩, same⟩ := openRow?_eq_some.mp qrow
      rw [← apart.eq_of_row_eq hp hq same, kind] at qkind
      cases qkind
      exact ⟨g, rfl⟩
    · rintro ⟨g, rfl⟩
      exact List.mem_filterMap.mpr ⟨p, hp, openRow?_eq_some.mpr ⟨⟨g, kind⟩, rfl⟩⟩
  rw [isSet_bracket range s (List.mem_append_left _ row), testBit_bracketMask apart range,
    white]
  match hparities : cells.filterMap parityRow? with
  | [] => simp
  | first :: others =>
    have other : p.row ≠ first := fun same =>
      controlRow_ne_parityRow apart row (by rw [hparities, same]; exact List.mem_cons_self)
    simp [other]

/-- Behind the bracket, the bit of the first parity cell is the parity of all of them. -/
theorem isSet_firstParityRow (s : UInt64) {first : Nat} {others : List Nat}
    (parities : cells.filterMap parityRow? = first :: others) :
    isSet (s ^^^ bracketMask cells s) first = parity s (first :: others) := by
  have row : first ∈ cells.filterMap parityRow? := by
    rw [parities]
    exact List.mem_cons_self
  have black : first ∉ cells.filterMap openRow? := fun hrow =>
    controlRow_ne_parityRow apart (openRows_subset cells hrow) row
  rw [isSet_bracket range s (List.mem_append_right _ row), testBit_bracketMask apart range,
    parities]
  simp [black, parity]

/-- The controls of the region are set behind the bracket just when the state meets the
controls of the column. -/
theorem controls_set_iff (controls : ValueControls cells) (s : UInt64) :
    (bracket cells).controls.all (isSet (s ^^^ bracketMask cells s)) = true ↔ Met cells s := by
  rw [List.all_eq_true]
  constructor
  · intro all
    have value : ∀ p ∈ cells, ∀ basis, p.cell.kind = .control basis →
        (isSet s p.row ^^ basis.isSome) = true := by
      intro p hp basis kind
      rw [← isSet_controlRow apart range s hp kind]
      exact all p.row (mem_bracket_controls.mpr (.inl
        (List.mem_filterMap.mpr ⟨p, hp, controlRow?_eq_some.mpr ⟨⟨basis, kind⟩, rfl⟩⟩)))
    refine ⟨fun p hp kind => ?_, fun p hp kind => ?_, ?_⟩
    · simpa using value p hp _ kind
    · simpa using value p hp _ kind
    · rintro ⟨p, hp, kind⟩
      have row : p.row ∈ cells.filterMap parityRow? :=
        List.mem_filterMap.mpr ⟨p, hp, parityRow?_eq_some.mpr ⟨⟨_, kind⟩, rfl⟩⟩
      obtain ⟨first, others, parities⟩ := List.exists_cons_of_ne_nil (List.ne_nil_of_mem row)
      rw [parities, ← isSet_firstParityRow apart range s parities]
      exact all first (mem_bracket_controls.mpr (.inr (by rw [parities]; rfl)))
  · intro met r hr
    rcases mem_bracket_controls.mp hr with hr | hr
    · obtain ⟨p, hp, row⟩ := List.mem_filterMap.mp hr
      obtain ⟨⟨basis, kind⟩, rfl⟩ := controlRow?_eq_some.mp row
      rw [isSet_controlRow apart range s hp kind]
      rcases (controls p hp).1 basis kind with rfl | rfl
      · simp [met.set p hp kind]
      · simp [met.unset p hp kind]
    · obtain ⟨others, parities⟩ := List.head?_eq_some_iff.mp hr
      have row : r ∈ cells.filterMap parityRow? := List.mem_of_mem_head? hr
      obtain ⟨p, hp, prow⟩ := List.mem_filterMap.mp row
      obtain ⟨⟨basis, kind⟩, -⟩ := parityRow?_eq_some.mp prow
      obtain rfl := (controls p hp).2 basis kind
      rw [isSet_firstParityRow apart range s parities, ← parities]
      exact met.odd ⟨p, hp, kind⟩

end

theorem mem_bracketRows {cells : List Placed} {r : Nat} :
    r ∈ bracketRows cells ↔ ∃ p ∈ cells, p.cell.isControl = true ∧ r = p.row := by
  simp only [bracketRows, List.mem_append, List.mem_filterMap, controlRow?_eq_some,
    parityRow?_eq_some, isControl_iff]
  grind

/-- The operations in front of a region are accepted if the changes of basis are: a parity cell
is never folded into itself. -/
theorem bracket_placed {cells : List Placed} (apart : Apart cells)
    (bases : ∀ op ∈ cells.filterMap basisChange?, op.placementError? = none) :
    ∀ op ∈ (bracket cells).before, op.placementError? = none := by
  have nodup := nodup_parityRows apart
  unfold bracket
  match hparities : cells.filterMap parityRow? with
  | [] => exact bases
  | first :: others =>
    intro op hop
    rcases List.mem_append.mp hop with hop | hop
    · exact bases op hop
    · rw [hparities] at nodup
      obtain ⟨row, hrow, rfl⟩ := List.mem_map.mp hop
      refine Operation.placementError?_eq_none.mpr ⟨fun n arity => ?_, ?_⟩
      · cases arity
        rfl
      · have other : first ≠ row := fun same => (List.nodup_cons.mp nodup).1 (same ▸ hrow)
        show [first, row].Nodup
        simp [other]

theorem before_placed {cells : List Placed} (apart : Apart cells) (controls : ValueControls cells) :
    ∀ op ∈ (bracket cells).before, op.placementError? = none := by
  refine bracket_placed apart fun op hop => ?_
  rw [basisChanges_eq controls] at hop
  obtain ⟨row, -, rfl⟩ := List.mem_map.mp hop
  rfl

/-- The rows of the bracket are rows of the operations, unless the region is empty. -/
theorem bracketRows_inRange {cells : List Placed} {region : List Operation} (some : region ≠ [])
    (controls : ValueControls cells)
    (range : ∀ op ∈ surround (bracket cells) region, op.InRange) :
    ∀ r ∈ bracketRows cells, r < 64 := by
  rw [surround, if_neg some] at range
  have steering : ∀ r ∈ (bracket cells).controls, r < 64 := by
    intro r hr
    obtain ⟨op, ops, rfl⟩ := List.exists_cons_of_ne_nil some
    refine range (op.controlledBy (bracket cells).controls) (by simp) r ?_
    exact List.mem_append_right _ (List.mem_append_right _ hr)
  intro r hr
  rcases List.mem_append.mp hr with hr | hr
  · exact steering r (mem_bracket_controls.mpr (.inl hr))
  · obtain ⟨first, others, parities⟩ := List.exists_cons_of_ne_nil (List.ne_nil_of_mem hr)
    rw [parities] at hr
    rcases List.mem_cons.mp hr with rfl | hr
    · exact steering r (mem_bracket_controls.mpr (.inr (by rw [parities]; rfl)))
    · have folded : Operation.controlledFlip r first ∈ (bracket cells).before := by
        rw [before_eq controls, parities]
        exact List.mem_append_right _ (List.mem_map.mpr ⟨r, hr, rfl⟩)
      exact range _ (List.mem_append_left _ (List.mem_append_left _ folded)) r
        (List.mem_append_right _ (List.mem_singleton.mpr rfl))

/-- A column whose controls are on values and parities runs as the column without them in the
states that meet its controls, and does nothing in all others. -/
theorem run_under_controls {gates : Option Json} {custom : CustomGates}
    (table : Board.customGates gates = .ok custom) {entries : List Json} {cells : List Placed}
    (resolved : resolve custom entries = .ok cells) (controls : ValueControls cells)
    {ops : List Operation} (built : build cells = .ok ops) (range : ∀ op ∈ ops, op.InRange)
    (s : UInt64) :
    ∃ cells' ops', resolve custom (blankOut custom Cell.isControl entries) = .ok cells' ∧
      build cells' = .ok ops' ∧ (Met cells s → runAll ops s = runAll ops' s) ∧
      (¬Met cells s → runAll ops s = .ok s) := by
  have wellFormed := wellFormed_of_resolve (Board.customGates_wellFormed table) resolved
  have apart := apart_of_resolve resolved
  obtain ⟨region, isRegion, -, rfl⟩ := build_eq_ok_iff_region.mp built
  refine ⟨_, region, resolve_blankOut resolved, build_uncontrolled isRegion, ?_⟩
  by_cases empty : region = []
  · subst empty
    exact ⟨fun _ => rfl, fun _ => rfl⟩
  have rows := bracketRows_inRange empty controls range
  have untouched : ∀ op ∈ region, ∀ r ∈ op.rows, r ∉ bracketRows cells := by
    intro op hop r hr hrow
    obtain ⟨p, hp, plain, covered⟩ := isRegion.rows wellFormed op hop r hr
    obtain ⟨q, hq, control, rfl⟩ := mem_bracketRows.mp hrow
    refine apart.row_not_mem_footprint hp hq (fun same => ?_) covered
    rw [same, control] at plain
    cases plain
  have steered : ∀ r ∈ (bracket cells).controls, r ∈ bracketRows cells := by
    intro r hr
    rcases mem_bracket_controls.mp hr with hr | hr
    · exact List.mem_append_left _ hr
    · exact List.mem_append_right _ (List.mem_of_mem_head? hr)
  have inRange : ∀ op ∈ region, (op.controlledBy (bracket cells).controls).InRange := by
    intro op hop
    refine range _ ?_
    rw [surround, if_neg empty]
    exact List.mem_append_left _ (List.mem_append_right _ (List.mem_map_of_mem hop))
  rw [runAll_surround (before_sound cells) (before_placed apart controls)
    (fun t agree => runAll_before apart rows controls agree)
    (fun k _ set => mem_bracketRows_of_bracketMask apart rows set) untouched steered inRange]
  exact ⟨fun met => if_pos ((controls_set_iff apart rows controls s).mpr met),
    fun unmet => if_neg (mt (controls_set_iff apart rows controls s).mp unmet)⟩

/-- The entries of a swap under a black and a white control and two parity cells. -/
def steeredSwap : List Json :=
  [.text "•", .text "◦", .text "zpar", .text "zpar", .text "Swap", .text "Swap"]

def steeredSwapCells : List Placed :=
  [⟨0, ⟨"•", 1, .control none⟩, none⟩, ⟨1, ⟨"◦", 1, .control (some (.pauli .x))⟩, none⟩,
    ⟨2, ⟨"zpar", 1, .parity none⟩, none⟩, ⟨3, ⟨"zpar", 1, .parity none⟩, none⟩,
    ⟨4, ⟨"Swap", 1, .swap⟩, none⟩, ⟨5, ⟨"Swap", 1, .swap⟩, none⟩]

def steeredSwapOperations : List Operation :=
  [.flip 1, .controlledFlip 3 2, (Operation.swap 4 5).controlledBy [0, 1, 2],
    .controlledFlip 3 2, .flip 1]

theorem resolve_steeredSwap : resolve [] steeredSwap = .ok steeredSwapCells :=
  @resolve_texts [] ["•", "◦", "zpar", "zpar", "Swap", "Swap"] (steeredSwapCells.map Placed.cell)
    (by decide +kernel) (by decide)

theorem build_steeredSwap : build steeredSwapCells = .ok steeredSwapOperations :=
  build_eq_ok.mpr ⟨_, rfl, by decide⟩

/-- The swap happens in state 21, which meets its controls and becomes state 37, and not in
state 20. -/
theorem run_steeredSwap :
    ∃ cells' ops', resolve [] (blankOut [] Cell.isControl steeredSwap) = .ok cells' ∧
      build cells' = .ok ops' ∧
      runAll steeredSwapOperations 21 = .ok 37 ∧ runAll ops' 21 = .ok 37 ∧
      runAll steeredSwapOperations 20 = .ok 20 := by
  have controls : ValueControls steeredSwapCells := by
    unfold ValueControls steeredSwapCells
    simp
  have range : ∀ op ∈ steeredSwapOperations, op.InRange := by
    unfold Operation.InRange
    decide
  have met : Met steeredSwapCells 21 := ⟨by decide, by decide, fun _ => by decide⟩
  have unmet : ¬Met steeredSwapCells 20 := fun met =>
    absurd (met.set _ List.mem_cons_self rfl) (by decide)
  have table : Board.customGates none = .ok [] := rfl
  obtain ⟨_, _, -, -, -, idle⟩ :=
    run_under_controls table resolve_steeredSwap controls build_steeredSwap range 20
  obtain ⟨cells', ops', resolved, built, active, -⟩ :=
    run_under_controls table resolve_steeredSwap controls build_steeredSwap range 21
  have swapped : runAll steeredSwapOperations 21 = .ok 37 := by rfl
  exact ⟨cells', ops', resolved, built, swapped, (active met).symm.trans swapped, idle unmet⟩

end Column

end QuantumBoard

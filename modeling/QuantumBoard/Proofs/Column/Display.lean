import QuantumBoard.Proofs.Column.Region
import QuantumBoard.Proofs.Column.Resolve

/-! # Displays and blanks in a column

A display shows the state and does nothing. A column resolves and builds the same operations when
displays of it are blanked out and blanks are added behind it; and a column of displays alone
builds nothing. -/

namespace QuantumBoard

open Success

/-- Whether the cell shows the state and does nothing. -/
def Cell.isDisplay (c : Cell) : Bool := c.kind matches .display

namespace Column

variable {custom : CustomGates}

theorem isDisplay_iff {c : Cell} : c.isDisplay = true ↔ c.kind = .display := by
  unfold Cell.isDisplay
  split <;> simp_all

/-! ## Building without displays -/

/-- The cells of a column that are no displays. -/
def withoutDisplays (cells : List Placed) : List Placed := cells.filter fun p => !p.cell.isDisplay

/-- Displays have no part in the bracket of a column, and none in its region. -/
theorem build_withoutDisplays {cells : List Placed} {ops : List Operation} :
    build (withoutDisplays cells) = .ok ops ↔ build cells = .ok ops := by
  have left (p : Placed) (out : (!p.cell.isDisplay) = false) : p.cell.kind = .display :=
    isDisplay_iff.mp (by simpa using out)
  have sameBracket : bracket (withoutDisplays cells) = bracket cells :=
    bracket_filter (fun p out => by rw [Cell.isControl, left p out]) cells
  have sameRegion (region : List Operation) :
      IsRegion (withoutDisplays cells) region ↔ IsRegion cells region :=
    isRegion_filter fun p out => by rw [left p out]; rfl
  simp only [build_eq_ok_iff_region, sameBracket, sameRegion]

/-! ## Columns retouched -/

/-- A column of which some displays are blanked out, with blanks behind it. -/
inductive Retouched (custom : CustomGates) : List Json → List Json → Prop
  | padded {blanks : List Json} : (∀ entry ∈ blanks, IsBlank entry) → Retouched custom [] blanks
  | kept {column column' : List Json} (entry : Json) :
      Retouched custom column column' → Retouched custom (entry :: column) (entry :: column')
  | blanked {column column' : List Json} {entry blank : Json} {cell : Cell} :
      foundCell? custom entry = some cell → cell.kind = .display → IsBlank blank →
      Retouched custom column column' → Retouched custom (entry :: column) (blank :: column')

theorem readSlots_blanks {blanks : List Json} (blank : ∀ entry ∈ blanks, IsBlank entry) :
    readSlots blanks = .ok (List.replicate blanks.length .blank) := by
  rw [readSlots_eq_ok, ← List.map_const', List.forall₂_map_right_iff, List.forall₂_same]
  exact blank

/-- The slots of a retouched column are those of the column, with displays cleared. -/
theorem Retouched.readSlots {column column' : List Json}
    (retouched : Retouched custom column column') {slots : List Slot}
    (read : readSlots column = .ok slots) :
    ∃ slots', Column.readSlots column' = .ok slots' ∧
      Cleared custom Cell.isDisplay slots slots' := by
  induction retouched generalizing slots with
  | padded blank =>
    cases read
    exact ⟨_, readSlots_blanks blank, .behind _⟩
  | kept entry _ ih =>
    rcases readSlots_eq_ok.mp read with _ | ⟨first, rest⟩
    obtain ⟨slots', read', cleared⟩ := ih (readSlots_eq_ok.mpr rest)
    exact ⟨_, readSlots_eq_ok.mpr (.cons first (readSlots_eq_ok.mp read')), .kept _ cleared⟩
  | blanked found display blank _ ih =>
    rcases readSlots_eq_ok.mp read with _ | ⟨first, rest⟩
    obtain ⟨slots', read', cleared⟩ := ih (readSlots_eq_ok.mpr rest)
    rw [foundCell?, first, Option.bind_some] at found
    exact ⟨_, readSlots_eq_ok.mpr (.cons blank (readSlots_eq_ok.mp read')),
      .blanked found (isDisplay_iff.mpr display) cleared⟩

/-- A retouched column resolves, and builds what the column builds. -/
theorem Retouched.build {column column' : List Json} (retouched : Retouched custom column column')
    {cells : List Placed} (resolved : resolve custom column = .ok cells) {ops : List Operation}
    (built : build cells = .ok ops) :
    ∃ cells', resolve custom column' = .ok cells' ∧ Column.build cells' = .ok ops := by
  obtain ⟨slots, read, placed⟩ := resolve_eq_ok.mp resolved
  obtain ⟨slots', read', cleared⟩ := retouched.readSlots read
  obtain ⟨cells', placed', same⟩ := placeFrom_cleared cleared placed
  refine ⟨cells', resolve_eq_ok.mpr ⟨slots', read', placed'⟩, ?_⟩
  rw [← build_withoutDisplays, withoutDisplays, same]
  exact build_withoutDisplays.mpr built

/-! ## Columns of displays -/

/-- A column of blanks and displays, of which none covers another. -/
structure Idle (custom : CustomGates) (column : List Json) : Prop
    extends LaidOut custom column where
  displays : ∀ entry ∈ column, ∀ c, foundCell? custom entry = some c → c.kind = .display

/-- A column of displays resolves, and builds nothing. -/
theorem Idle.build {column : List Json} (idle : Idle custom column) :
    ∃ cells, resolve custom column = .ok cells ∧ Column.build cells = .ok [] := by
  obtain ⟨cells, resolved, source, -⟩ := idle.toLaidOut.resolve
  refine ⟨cells, resolved, build_withoutDisplays.mp ?_⟩
  have none : withoutDisplays cells = [] := by
    refine List.filter_eq_nil_iff.mpr fun p hp => ?_
    obtain ⟨entry, present, found⟩ := Option.bind_eq_some_iff.mp (source p hp)
    have display := idle.displays entry (List.mem_of_getElem? present) p.cell found
    simp [isDisplay_iff.mpr display]
  rw [none]
  rfl

/-- A display with blanks behind it is a column of displays. -/
theorem idle_of_display {entry : Json} {cell : Cell} {blanks : List Json}
    (found : foundCell? custom entry = some cell) (display : cell.kind = .display)
    (blank : ∀ other ∈ blanks, IsBlank other) : Idle custom (entry :: blanks) where
  known := List.forall_mem_cons.mpr ⟨.inr ⟨cell, found⟩, fun other mem => .inl (blank other mem)⟩
  apart i j c d front _ second := by
    cases j with
    | zero => exact absurd front (Nat.not_lt_zero i)
    | succ j =>
      obtain ⟨other, present, other_found⟩ := Option.bind_eq_some_iff.mp second
      rw [foundCell?_of_isBlank (blank other (List.mem_of_getElem? present))] at other_found
      cases other_found
  displays := by
    refine List.forall_mem_cons.mpr ⟨fun c same => ?_, fun other mem c second => ?_⟩
    · cases found.symm.trans same
      exact display
    · cases (foundCell?_of_isBlank (blank other mem)).symm.trans second

end Column

end QuantumBoard

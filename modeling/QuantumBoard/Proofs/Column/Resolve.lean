import Mathlib.Data.List.Pairwise
import QuantumBoard.Proofs.Cell.Registry
import QuantumBoard.Proofs.Cell.WellFormed
import QuantumBoard.Proofs.Column.Operations

/-! Columns that resolve. Their cells are well-formed and apart from each other. Blanking out the
slots of some cells, and adding blanks behind the last slot, leaves out just these cells. -/

namespace QuantumBoard

open Success

/-- Every custom gate of a table is well-formed. -/
def CustomGates.WellFormed (custom : CustomGates) : Prop := ∀ c ∈ custom, c.WellFormed

/-- The first cell with the identifier is found, the custom gates standing before the catalog. -/
theorem CustomGates.find?_eq (custom : CustomGates) (id : String) :
    custom.find? id = List.find? (fun c => c.id = id) (custom ++ Catalog.all) := by
  rw [CustomGates.find?, List.find?_append, Registry.standard, Registry.find?_ofList]

theorem CustomGates.find?_nil (id : String) :
    CustomGates.find? [] id = Catalog.all.find? fun c => c.id = id :=
  find?_eq [] id

/-- A property of all custom gates and of all cells of the registry is one of what is found. -/
theorem CustomGates.of_find? {P : Cell → Prop} {custom : CustomGates} (gates : ∀ c ∈ custom, P c)
    (known : ∀ id c, Registry.standard.find? id = some c → P c) {id : String} {c : Cell}
    (h : custom.find? id = some c) : P c := by
  unfold CustomGates.find? at h
  rw [Option.or_eq_some_iff] at h
  rcases h with h | ⟨-, h⟩
  · exact gates c (List.mem_of_find?_eq_some h)
  · exact known id c h

theorem CustomGates.WellFormed.find? {custom : CustomGates} (wellFormed : custom.WellFormed)
    {id : String} {c : Cell} (h : custom.find? id = some c) : c.WellFormed :=
  of_find? wellFormed (fun _ _ => Registry.standard_wellFormed) h

namespace Column

variable {custom : CustomGates}

theorem place_eq_ok {row : Nat} {id : String} {argument : Option Json} {behind : List Slot}
    {p : Placed} : place custom row id argument behind = .ok p ↔
      ∃ cell, custom.find? id = some cell ∧
        (∀ slot ∈ behind.take (cell.size - 1), slot.isBlank = true) ∧
          p = ⟨row, cell, argument⟩ := by
  unfold place
  match custom.find? id with
  | none => simp
  | some cell =>
    simp only [Option.some.injEq, exists_eq_left']
    split
    · rename_i i h
      obtain ⟨hi, occupied, -⟩ := List.findIdx?_eq_some_iff_getElem.mp h
      refine ⟨nofun, fun ⟨blank, _⟩ => ?_⟩
      rw [blank _ (List.getElem_mem hi)] at occupied
      cases occupied
    · rename_i h
      have blank : ∀ slot ∈ behind.take (cell.size - 1), slot.isBlank = true :=
        fun slot hs => by simpa using List.findIdx?_eq_none_iff.mp h slot hs
      rw [Except.ok.injEq, eq_comm]
      exact ⟨fun same => ⟨blank, same⟩, fun ⟨_, same⟩ => same⟩

theorem placeFrom_cons {row : Nat} {slot : Slot} {id : String} {behind : List Slot} {p : Placed}
    {ps : List Placed} (named : slot.id? = some id)
    (placed : place custom row id slot.argument? behind = .ok p)
    (rest : placeFrom custom (row + 1) behind = .ok ps) :
    placeFrom custom row (slot :: behind) = .ok (p :: ps) := by
  rw [placeFrom, named]
  simp only [bind_eq_ok, pure_eq_ok]
  exact ⟨p, placed, ps, rest, rfl⟩

@[simp]
theorem placeFrom_blank (row : Nat) (behind : List Slot) :
    placeFrom custom row (.blank :: behind) = placeFrom custom (row + 1) behind := rfl

theorem placeFrom_replicate_blank (row n : Nat) :
    placeFrom custom row (List.replicate n .blank) = .ok [] := by
  induction n generalizing row with
  | zero => rfl
  | succ n ih => exact ih (row + 1)

/-- Every cell that is placed was found under the identifier in a slot. -/
theorem found_of_placeFrom {row : Nat} {slots : List Slot} {cells : List Placed}
    (h : placeFrom custom row slots = .ok cells) :
    ∀ p ∈ cells, ∃ slot ∈ slots, slot.id?.bind custom.find? = some p.cell := by
  induction slots generalizing row cells with
  | nil =>
    cases h
    exact nofun
  | cons slot behind ih =>
    rw [placeFrom] at h
    match hid : slot.id? with
    | none =>
      rw [hid] at h
      intro p hp
      obtain ⟨other, mem, found⟩ := ih h p hp
      exact ⟨other, List.mem_cons_of_mem _ mem, found⟩
    | some id =>
      rw [hid] at h
      simp only [bind_eq_ok, pure_eq_ok] at h
      obtain ⟨p, placed, ps, rest, rfl⟩ := h
      obtain ⟨cell, found, -, rfl⟩ := place_eq_ok.mp placed
      intro q hq
      rcases List.mem_cons.mp hq with rfl | hq
      · exact ⟨slot, List.mem_cons_self, by rw [hid, Option.bind_some, found]⟩
      · obtain ⟨other, mem, found⟩ := ih rest q hq
        exact ⟨other, List.mem_cons_of_mem _ mem, found⟩

theorem resolve_eq_ok {entries : List Json} {cells : List Placed} :
    resolve custom entries = .ok cells ↔
      ∃ slots, readSlots entries = .ok slots ∧ placeFrom custom 0 slots = .ok cells := by
  rw [resolve, bind_eq_ok]

theorem found_of_resolve {entries : List Json} {cells : List Placed}
    (h : resolve custom entries = .ok cells) :
    ∀ p ∈ cells, ∃ id, custom.find? id = some p.cell := by
  obtain ⟨slots, -, placed⟩ := resolve_eq_ok.mp h
  intro p hp
  obtain ⟨slot, -, found⟩ := found_of_placeFrom placed p hp
  obtain ⟨id, -, found⟩ := Option.bind_eq_some_iff.mp found
  exact ⟨id, found⟩

/-- Resolved cells are well-formed. -/
theorem wellFormed_of_resolve (wellFormed : custom.WellFormed) {entries : List Json}
    {cells : List Placed} (h : resolve custom entries = .ok cells) :
    ∀ p ∈ cells, p.cell.WellFormed := by
  intro p hp
  obtain ⟨id, found⟩ := found_of_resolve h p hp
  exact wellFormed.find? found

/-! ## Cells are apart -/

/-- The cells follow each other, each behind the rows that the one before covers. -/
def Apart (cells : List Placed) : Prop :=
  cells.Pairwise fun p q => p.row < q.row ∧ p.row + p.cell.size ≤ q.row

theorem le_row_of_placeFrom {row k : Nat} {slots : List Slot} {cells : List Placed}
    (h : placeFrom custom row slots = .ok cells)
    (blank : ∀ slot ∈ slots.take k, slot.isBlank = true) : ∀ p ∈ cells, row + k ≤ p.row := by
  induction slots generalizing row k cells with
  | nil =>
    cases h
    exact nofun
  | cons slot behind ih =>
    rw [placeFrom] at h
    match hid : slot.id? with
    | none =>
      rw [hid] at h
      intro p hp
      match k with
      | 0 => exact Nat.le_of_succ_le (ih h (k := 0) nofun p hp)
      | k + 1 =>
        have := ih h (fun s hs => blank s (List.mem_cons_of_mem _ hs)) p hp
        omega
    | some id =>
      have first : k = 0 := by
        match k with
        | 0 => rfl
        | k + 1 =>
          have := blank slot List.mem_cons_self
          cases slot <;> cases hid <;> cases this
      subst first
      rw [hid] at h
      simp only [bind_eq_ok, pure_eq_ok] at h
      obtain ⟨p, placed, ps, rest, rfl⟩ := h
      obtain ⟨cell, -, -, rfl⟩ := place_eq_ok.mp placed
      intro q hq
      rcases List.mem_cons.mp hq with rfl | hq
      · exact Nat.le_refl _
      · exact Nat.le_of_succ_le (ih rest (k := 0) nofun q hq)

theorem apart_of_placeFrom {row : Nat} {slots : List Slot} {cells : List Placed}
    (h : placeFrom custom row slots = .ok cells) : Apart cells := by
  induction slots generalizing row cells with
  | nil =>
    cases h
    exact List.Pairwise.nil
  | cons slot behind ih =>
    rw [placeFrom] at h
    match hid : slot.id? with
    | none =>
      rw [hid] at h
      exact ih h
    | some id =>
      rw [hid] at h
      simp only [bind_eq_ok, pure_eq_ok] at h
      obtain ⟨p, placed, ps, rest, rfl⟩ := h
      obtain ⟨cell, -, blank, rfl⟩ := place_eq_ok.mp placed
      refine List.pairwise_cons.mpr ⟨fun q hq => ?_, ih rest⟩
      have behind := le_row_of_placeFrom rest blank q hq
      show row < q.row ∧ row + cell.size ≤ q.row
      omega

/-- Of two cells, one stands in front of the other. -/
theorem Apart.front_or_behind {cells : List Placed} (apart : Apart cells) {p q : Placed}
    (hp : p ∈ cells) (hq : q ∈ cells) (other : p ≠ q) :
    (p.row < q.row ∧ p.row + p.cell.size ≤ q.row) ∨
      (q.row < p.row ∧ q.row + q.cell.size ≤ p.row) := by
  let Front (p q : Placed) : Prop := p.row < q.row ∧ p.row + p.cell.size ≤ q.row
  have either : cells.Pairwise fun p q => Front p q ∨ Front q p := apart.imp Or.inl
  have : Std.Symm fun p q : Placed => Front p q ∨ Front q p := ⟨fun _ _ h => h.symm⟩
  exact either.forall hp hq other

/-- The row of a cell is covered by no other cell. -/
theorem Apart.row_not_mem_footprint {cells : List Placed} (apart : Apart cells) {p q : Placed}
    (hp : p ∈ cells) (hq : q ∈ cells) (other : p ≠ q) : q.row ∉ p.footprint := by
  have := apart.front_or_behind hp hq other
  rw [Placed.mem_footprint]
  omega

theorem Apart.footprint_disjoint {cells : List Placed} (apart : Apart cells) {p q : Placed}
    (hp : p ∈ cells) (hq : q ∈ cells) (other : p ≠ q) : p.footprint.Disjoint q.footprint := by
  have := apart.front_or_behind hp hq other
  intro r hr hr'
  rw [Placed.mem_footprint] at hr hr'
  omega

theorem apart_of_resolve {entries : List Json} {cells : List Placed}
    (h : resolve custom entries = .ok cells) : Apart cells := by
  obtain ⟨slots, -, placed⟩ := resolve_eq_ok.mp h
  exact apart_of_placeFrom placed

theorem Apart.eq_of_row_eq {cells : List Placed} (apart : Apart cells) {p q : Placed}
    (hp : p ∈ cells) (hq : q ∈ cells) (same : p.row = q.row) : p = q := by
  by_contra other
  have := apart.front_or_behind hp hq other
  omega

/-- Rows of cells are in ascending order. -/
theorem Apart.ascending_rows {cells : List Placed} (apart : Apart cells)
    {f : Placed → Option Nat} (row : ∀ p r, f p = some r → r = p.row) :
    (cells.filterMap f).Pairwise (· < ·) := by
  rw [List.pairwise_filterMap]
  refine apart.imp fun {p q} h r hr r' hr' => ?_
  rw [row p r hr, row q r' hr']
  exact h.1

theorem Apart.nodup_rows {cells : List Placed} (apart : Apart cells) {f : Placed → Option Nat}
    (row : ∀ p r, f p = some r → r = p.row) : (cells.filterMap f).Nodup :=
  (apart.ascending_rows row).imp fun h => Nat.ne_of_lt h

/-- Rows of different cells are different. -/
theorem Apart.rows_disjoint {cells : List Placed} (apart : Apart cells)
    {f g : Placed → Option Nat} (row : ∀ p r, f p = some r → r = p.row)
    (row' : ∀ p r, g p = some r → r = p.row) (never : ∀ p r r', f p = some r → g p ≠ some r') :
    (cells.filterMap f).Disjoint (cells.filterMap g) := by
  intro r hr hr'
  obtain ⟨p, hp, picked⟩ := List.mem_filterMap.mp hr
  obtain ⟨q, hq, picked'⟩ := List.mem_filterMap.mp hr'
  have same := apart.eq_of_row_eq hp hq ((row p r picked).symm.trans (row' q r picked'))
  exact never p r r picked (same ▸ picked')

/-! ## Cells laid out without overlap -/

/-- The entry stands for a slot where nothing is. -/
def IsBlank (entry : Json) : Prop := Slot.ofJson? entry = some .blank

/-- The cell that an entry of a column stands for. -/
def foundCell? (custom : CustomGates) (entry : Json) : Option Cell :=
  ((Slot.ofJson? entry).bind Slot.id?).bind custom.find?

theorem foundCell?_text (id : String) : foundCell? custom (.text id) = custom.find? id := by
  rw [foundCell?]
  exact Option.bind_some id custom.find?

theorem foundCell?_of_isBlank {entry : Json} (blank : IsBlank entry) :
    foundCell? custom entry = none := by
  rw [foundCell?, blank]
  rfl

/-- The cell that stands at a row of a column. -/
def cellAt? (custom : CustomGates) (entries : List Json) (row : Nat) : Option Cell :=
  entries[row]?.bind (foundCell? custom)

theorem cellAt?_of_getElem? {entries : List Json} {row : Nat} {entry : Json}
    (h : entries[row]? = some entry) :
    cellAt? custom entries row = foundCell? custom entry := by
  rw [cellAt?, h, Option.bind_some]

theorem cellAt?_eq_map (entries : List Json) (row : Nat) :
    cellAt? custom entries row = (entries.map (foundCell? custom))[row]?.join := by
  rw [cellAt?, List.getElem?_map]
  cases entries[row]? <;> rfl

theorem cellAt?_cons_succ (entry : Json) (entries : List Json) (row : Nat) :
    cellAt? custom (entry :: entries) (row + 1) = cellAt? custom entries row := rfl

/-- Every entry is blank or stands for a cell, and the cells cover different rows. -/
structure LaidOut (custom : CustomGates) (entries : List Json) : Prop where
  known : ∀ entry ∈ entries, IsBlank entry ∨ ∃ c, foundCell? custom entry = some c
  apart : ∀ i j c d, i < j → cellAt? custom entries i = some c →
    cellAt? custom entries j = some d → i + c.size ≤ j

theorem readSlots_eq_ok {entries : List Json} {slots : List Slot} :
    readSlots entries = .ok slots ↔
      List.Forall₂ (fun entry slot => Slot.ofJson? entry = some slot) entries slots := by
  rw [readSlots, mapM_eq_ok]
  refine ⟨fun h => h.imp fun entry slot read => ?_, fun h => h.imp fun entry slot read => ?_⟩
  · cases found : Slot.ofJson? entry with
    | none =>
      rw [found] at read
      cases read
    | some other =>
      rw [found] at read
      exact congrArg some (Except.ok.inj read)
  · rw [read]

theorem placeFrom_bare {ids : List String} {cells : List Cell}
    (found : ids.map custom.find? = cells.map some) (single : ∀ c ∈ cells, c.size = 1) (row : Nat) :
    placeFrom custom row (ids.map .bare) = .ok (cells.mapIdx fun i c => ⟨row + i, c, none⟩) := by
  induction cells generalizing ids row with
  | nil =>
    rw [List.map_eq_nil_iff.mp found]
    rfl
  | cons c cells ih =>
    obtain ⟨id, ids, rfl, hid, rest⟩ := List.map_eq_cons_iff.mp found
    have size := single c List.mem_cons_self
    have behind := ih rest (fun c hc => single c (List.mem_cons_of_mem _ hc)) (row + 1)
    rw [List.mapIdx_cons, Nat.add_zero]
    refine placeFrom_cons rfl (place_eq_ok.mpr ⟨c, hid, by simp [size], rfl⟩) ?_
    rw [behind]
    simp only [Nat.add_assoc, Nat.add_comm 1]

/-- Texts that name cells on one row resolve to these cells, each at the row of its text. -/
theorem resolve_texts {ids : List String} {cells : List Cell}
    (found : ids.map (fun id => List.find? (fun c => c.id = id) (custom ++ Catalog.all)) =
      cells.map some) (single : ∀ c ∈ cells, c.size = 1) :
    resolve custom (ids.map .text) = .ok (cells.mapIdx fun i c => ⟨i, c, none⟩) := by
  have read : readSlots (ids.map .text) = .ok (ids.map .bare) := by
    rw [readSlots_eq_ok, List.forall₂_map_left_iff, List.forall₂_map_right_iff, List.forall₂_same]
    exact fun id _ => rfl
  have placed := placeFrom_bare
    ((List.map_congr_left fun id _ => custom.find?_eq id).trans found) single 0
  simp only [Nat.zero_add] at placed
  exact resolve_eq_ok.mpr ⟨_, read, placed⟩

theorem LaidOut.tail {entry : Json} {entries : List Json}
    (h : LaidOut custom (entry :: entries)) : LaidOut custom entries where
  known entry h' := h.known entry (List.mem_cons_of_mem _ h')
  apart i j c d lt hc hd := by
    have := h.apart (i + 1) (j + 1) c d (by omega) hc hd
    omega

/-- The slots that the first cell covers are blank. -/
theorem LaidOut.blank_of_covered {entry : Json} {entries : List Json}
    (h : LaidOut custom (entry :: entries)) {cell : Cell}
    (found : foundCell? custom entry = some cell) {slots : List Slot}
    (read : readSlots entries = .ok slots) :
    ∀ slot ∈ slots.take (cell.size - 1), slot.isBlank = true := by
  intro slot hslot
  obtain ⟨k, hk, rfl⟩ := List.mem_take_iff_getElem.mp hslot
  have each := readSlots_eq_ok.mp read
  have hk' : k < entries.length := by
    rw [each.length_eq]
    omega
  have same : Slot.ofJson? entries[k] = some slots[k] := each.get hk' (by omega)
  rcases h.known entries[k] (List.mem_cons_of_mem _ (List.getElem_mem hk')) with blank | ⟨d, hd⟩
  · exact Option.some.inj (blank.symm.trans same) ▸ rfl
  -- a cell there would stand on a row of the first
  · have second : cellAt? custom (entry :: entries) (k + 1) = some d := by
      rw [cellAt?_cons_succ, cellAt?, List.getElem?_eq_getElem hk']
      exact hd
    have := h.apart 0 (k + 1) cell d (by omega) found second
    omega

/-- Cells that are laid out without overlap are placed, each at its row. -/
theorem LaidOut.placeFrom {entries : List Json} (h : LaidOut custom entries) (row : Nat) :
    ∃ slots cells, readSlots entries = .ok slots ∧ Column.placeFrom custom row slots = .ok cells ∧
      (∀ p ∈ cells, ∃ i, p.row = row + i ∧ cellAt? custom entries i = some p.cell) ∧
      ∀ i c, cellAt? custom entries i = some c → ∃ p ∈ cells, p.row = row + i ∧ p.cell = c := by
  induction entries generalizing row with
  | nil => exact ⟨[], [], rfl, rfl, nofun, nofun⟩
  | cons entry entries ih =>
    obtain ⟨slots, cells, read, placed, source, target⟩ := ih h.tail (row + 1)
    have later : ∀ p ∈ cells, ∃ i, p.row = row + i ∧
        cellAt? custom (entry :: entries) i = some p.cell := by
      intro p hp
      obtain ⟨i, atRow, found⟩ := source p hp
      exact ⟨i + 1, by omega, found⟩
    rcases h.known entry List.mem_cons_self with blank | ⟨cell, found⟩
    · refine ⟨.blank :: slots, cells, readSlots_eq_ok.mpr (.cons blank (readSlots_eq_ok.mp read)),
        placed, later, fun i c hc => ?_⟩
      cases i with
      | zero =>
        rw [cellAt?, List.getElem?_cons_zero, Option.bind_some, foundCell?_of_isBlank blank] at hc
        cases hc
      | succ i =>
        obtain ⟨p, hp, atRow, same⟩ := target i c hc
        exact ⟨p, hp, by omega, same⟩
    · obtain ⟨id, named, known⟩ := Option.bind_eq_some_iff.mp found
      obtain ⟨slot, first, named⟩ := Option.bind_eq_some_iff.mp named
      have here : place custom row id slot.argument? slots = .ok ⟨row, cell, slot.argument?⟩ :=
        place_eq_ok.mpr ⟨cell, known, h.blank_of_covered found read, rfl⟩
      refine ⟨slot :: slots, ⟨row, cell, slot.argument?⟩ :: cells,
        readSlots_eq_ok.mpr (.cons first (readSlots_eq_ok.mp read)),
        placeFrom_cons named here placed, fun p hp => ?_, fun i c hc => ?_⟩
      · rcases List.mem_cons.mp hp with rfl | hp
        · exact ⟨0, rfl, found⟩
        · exact later p hp
      · cases i with
        | zero => exact ⟨_, List.mem_cons_self, rfl, Option.some.inj (found.symm.trans hc)⟩
        | succ i =>
          obtain ⟨p, hp, atRow, same⟩ := target i c hc
          exact ⟨p, List.mem_cons_of_mem _ hp, by omega, same⟩

/-- Cells that are laid out without overlap resolve, each to itself at its row. -/
theorem LaidOut.resolve {entries : List Json} (h : LaidOut custom entries) :
    ∃ cells, Column.resolve custom entries = .ok cells ∧
      (∀ p ∈ cells, cellAt? custom entries p.row = some p.cell) ∧
      ∀ i c, cellAt? custom entries i = some c → ∃ p ∈ cells, p.row = i ∧ p.cell = c := by
  obtain ⟨slots, cells, read, placed, source, target⟩ := h.placeFrom 0
  refine ⟨cells, resolve_eq_ok.mpr ⟨slots, read, placed⟩, fun p hp => ?_, fun i c hc => ?_⟩
  · obtain ⟨i, row, found⟩ := source p hp
    rwa [row, Nat.zero_add]
  · obtain ⟨p, hp, row, same⟩ := target i c hc
    exact ⟨p, hp, by rw [row, Nat.zero_add], same⟩

/-! ## Slots blanked out -/

/-- Slots of which some that hold a cell of some sort are blanked out, with blanks behind. -/
inductive Cleared (custom : CustomGates) (drop : Cell → Bool) : List Slot → List Slot → Prop
  | behind (n : Nat) : Cleared custom drop [] (List.replicate n .blank)
  | kept {slots slots' : List Slot} (slot : Slot) :
      Cleared custom drop slots slots' → Cleared custom drop (slot :: slots) (slot :: slots')
  | blanked {slots slots' : List Slot} {slot : Slot} {cell : Cell} :
      slot.id?.bind custom.find? = some cell → drop cell = true →
      Cleared custom drop slots slots' → Cleared custom drop (slot :: slots) (.blank :: slots')

/-- Where there were blanks only, there still are. -/
theorem Cleared.isBlank {drop : Cell → Bool} {slots slots' : List Slot}
    (cleared : Cleared custom drop slots slots') {k : Nat}
    (blank : ∀ slot ∈ slots.take k, slot.isBlank = true) :
    ∀ slot ∈ slots'.take k, slot.isBlank = true := by
  induction cleared generalizing k with
  | behind n =>
    intro slot mem
    rw [List.eq_of_mem_replicate (List.mem_of_mem_take mem)]
    rfl
  | kept slot _ ih =>
    cases k with
    | zero => exact nofun
    | succ k =>
      obtain ⟨first, rest⟩ := List.forall_mem_cons.mp blank
      exact List.forall_mem_cons.mpr ⟨first, ih rest⟩
  | blanked _ _ _ ih =>
    cases k with
    | zero => exact nofun
    | succ k =>
      obtain ⟨-, rest⟩ := List.forall_mem_cons.mp blank
      exact List.forall_mem_cons.mpr ⟨rfl, ih rest⟩

/-- Blanking out cells of some sort, and adding blanks, does not change the other cells. -/
theorem placeFrom_cleared {drop : Cell → Bool} {slots slots' : List Slot}
    (cleared : Cleared custom drop slots slots') {row : Nat} {cells : List Placed}
    (h : placeFrom custom row slots = .ok cells) :
    ∃ cells', placeFrom custom row slots' = .ok cells' ∧
      (cells'.filter fun p => !drop p.cell) = cells.filter fun p => !drop p.cell := by
  induction cleared generalizing row cells with
  | behind n =>
    cases h
    exact ⟨[], placeFrom_replicate_blank row n, rfl⟩
  | kept slot cleared ih =>
    rw [placeFrom] at h
    match hid : slot.id? with
    | none =>
      rw [hid] at h
      rw [placeFrom, hid]
      exact ih h
    | some id =>
      rw [hid] at h
      simp only [bind_eq_ok, pure_eq_ok] at h
      obtain ⟨p, placed, ps, rest, rfl⟩ := h
      obtain ⟨cell, found, blank, rfl⟩ := place_eq_ok.mp placed
      obtain ⟨ps', rest', same⟩ := ih rest
      have again : place custom row id slot.argument? _ = .ok ⟨row, cell, slot.argument?⟩ :=
        place_eq_ok.mpr ⟨cell, found, cleared.isBlank blank, rfl⟩
      refine ⟨_, placeFrom_cons hid again rest', ?_⟩
      rw [List.filter_cons, List.filter_cons, same]
  | @blanked slots slots' slot cell found dropped cleared ih =>
    obtain ⟨id, hid, found⟩ := Option.bind_eq_some_iff.mp found
    rw [placeFrom, hid] at h
    simp only [bind_eq_ok, pure_eq_ok] at h
    obtain ⟨p, placed, ps, rest, rfl⟩ := h
    obtain ⟨other, found', -, rfl⟩ := place_eq_ok.mp placed
    cases found.symm.trans found'
    obtain ⟨ps', rest', same⟩ := ih rest
    refine ⟨ps', rest', ?_⟩
    rw [List.filter_cons_of_neg (by simp [dropped]), same]

/-- The entries with a one in place of each that stands for a cell of some sort. -/
def blankOut (custom : CustomGates) (drop : Cell → Bool) (entries : List Json) : List Json :=
  entries.map fun entry => if (foundCell? custom entry).any drop then .integer 1 else entry

/-- A slot, or a blank when the cell in it is of some sort. -/
def blankSlot (custom : CustomGates) (drop : Cell → Bool) (slot : Slot) : Slot :=
  if (slot.id?.bind custom.find?).any drop then .blank else slot

theorem ofJson?_one : Slot.ofJson? (.integer 1) = some .blank := by
  rfl

theorem readSlots_blankOut {drop : Cell → Bool} {entries : List Json} {slots : List Slot}
    (h : readSlots entries = .ok slots) :
    readSlots (blankOut custom drop entries) = .ok (slots.map (blankSlot custom drop)) := by
  rw [readSlots_eq_ok] at h ⊢
  rw [blankOut, List.forall₂_map_left_iff, List.forall₂_map_right_iff]
  refine h.imp fun entry slot read => ?_
  rw [foundCell?, read, Option.bind_some, blankSlot]
  split
  · exact ofJson?_one
  · exact read

theorem cleared_blankSlot (drop : Cell → Bool) (slots : List Slot) :
    Cleared custom drop slots (slots.map (blankSlot custom drop)) := by
  induction slots with
  | nil => exact .behind 0
  | cons slot slots ih =>
    rw [List.map_cons, blankSlot]
    split
    · obtain ⟨cell, found, dropped⟩ := (Option.any_eq_true _ _).mp ‹_›
      exact .blanked found dropped ih
    · exact .kept slot ih

theorem placeFrom_blankSlot {drop : Cell → Bool} {row : Nat} {slots : List Slot}
    {cells : List Placed} (h : placeFrom custom row slots = .ok cells) :
    placeFrom custom row (slots.map (blankSlot custom drop)) =
      .ok (cells.filter fun p => !drop p.cell) := by
  obtain ⟨cells', placed, same⟩ := placeFrom_cleared (cleared_blankSlot drop slots) h
  have none : ∀ p ∈ cells', drop p.cell = false := by
    intro p hp
    obtain ⟨slot, mem, found⟩ := found_of_placeFrom placed p hp
    obtain ⟨original, -, rfl⟩ := List.mem_map.mp mem
    unfold blankSlot at found
    split at found
    · cases found
    · rename_i left
      rw [found] at left
      simpa using left
  rw [placed, ← same, List.filter_eq_self.mpr fun p hp => by simp [none p hp]]

/-- Blanking out the slots of some cells leaves out these cells. -/
theorem resolve_blankOut {drop : Cell → Bool} {entries : List Json} {cells : List Placed}
    (h : resolve custom entries = .ok cells) :
    resolve custom (blankOut custom drop entries) = .ok (cells.filter fun p => !drop p.cell) := by
  obtain ⟨slots, read, placed⟩ := resolve_eq_ok.mp h
  exact resolve_eq_ok.mpr ⟨_, readSlots_blankOut read, placeFrom_blankSlot placed⟩

end Column

end QuantumBoard

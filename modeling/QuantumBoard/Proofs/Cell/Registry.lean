import Mathlib.Data.Finset.Card
import Mathlib.Data.List.Induction
import QuantumBoard.Cell.Registry

/-! Registries answer with the first cell of an identifier: the hash index holds the place of
that cell among the registered ones, which are the first cells of their identifiers in the order
of the list that the registry was made from. -/

namespace QuantumBoard.Registry

/-! ## The index -/

/-- The index holds the place of the first cell with each identifier. -/
def Indexed (r : Registry) : Prop :=
  ∀ id, r.index[id]? = r.cells.toList.findIdx? fun c => c.id = id

theorem empty_indexed : empty.Indexed := by
  intro id
  simp [empty]

theorem Indexed.contains_iff {r : Registry} (h : r.Indexed) (id : String) :
    r.contains id = true ↔ ∃ c ∈ r.cells.toList, c.id = id := by
  rw [contains, Std.HashMap.contains_eq_isSome_getElem?, h, List.findIdx?_isSome,
    List.any_eq_true]
  simp only [decide_eq_true_eq]

theorem Indexed.insert {r : Registry} (h : r.Indexed) (cell : Cell) : (r.insert cell).Indexed := by
  unfold Registry.insert
  split
  · exact h
  · rename_i fresh
    have absent : ∀ c ∈ r.cells.toList, c.id ≠ cell.id := fun c hc same =>
      fresh ((h.contains_iff cell.id).mpr ⟨c, hc, same⟩)
    intro id
    rw [Std.HashMap.getElem?_insert, h, Array.toList_push, List.findIdx?_append]
    by_cases same : cell.id = id
    · subst same
      have none : r.cells.toList.findIdx? (fun c => c.id = cell.id) = none := by
        rw [List.findIdx?_eq_none_iff]
        exact fun c hc => decide_eq_false (absent c hc)
      simp [none]
    · simp [same]

theorem Indexed.find?_eq {r : Registry} (h : r.Indexed) (id : String) :
    r.find? id = r.cells.toList.find? fun c => c.id = id := by
  rw [List.find?_eq_bind_findIdx?_getElem?, ← h]
  unfold find?
  simp

/-- An identifier is known when a cell is found under it: the index points at no other place. -/
theorem Indexed.contains_eq {r : Registry} (h : r.Indexed) (id : String) :
    r.contains id = (r.find? id).isSome := by
  rw [h.find?_eq, Bool.eq_iff_iff, h.contains_iff, List.find?_isSome]
  simp only [decide_eq_true_eq]

theorem toList_insert (r : Registry) (cell : Cell) : (r.insert cell).cells.toList =
    if r.contains cell.id then r.cells.toList else r.cells.toList ++ [cell] := by
  unfold insert
  split
  · rfl
  · exact Array.toList_push

/-! ## The first cells of their identifiers -/

/-- The cells of a list whose identifiers no cell before them has, in order. -/
def firsts (cells : List Cell) : List Cell :=
  (cells.zipIdx.filter fun p => (cells.take p.2).all fun d => d.id ≠ p.1.id).map Prod.fst

/-- One more cell behind the others is a first one when its identifier is new. -/
theorem firsts_concat (cells : List Cell) (cell : Cell) : firsts (cells ++ [cell]) =
    if cells.any fun c => c.id = cell.id then firsts cells else firsts cells ++ [cell] := by
  have before : (cells.zipIdx.filter fun p => ((cells ++ [cell]).take p.2).all fun d =>
      d.id ≠ p.1.id) = cells.zipIdx.filter fun p => (cells.take p.2).all fun d => d.id ≠ p.1.id := by
    refine List.filter_congr fun p mem => ?_
    have place : p.2 < cells.length := List.snd_lt_of_mem_zipIdx mem
    rw [List.take_append_of_le_length (Nat.le_of_lt place)]
  have last : (([cell].zipIdx (0 + cells.length)).filter fun p =>
      ((cells ++ [cell]).take p.2).all fun d => d.id ≠ p.1.id) =
      if cells.any fun c => c.id = cell.id then [] else [(cell, cells.length)] := by
    rw [Nat.zero_add, List.zipIdx_singleton, List.filter_singleton, List.take_left]
    simp [List.all_eq_not_any_not]
  rw [firsts, List.zipIdx_append, List.filter_append, before, last, List.map_append]
  split
  · exact List.append_nil _
  · rfl

theorem mem_of_mem_firsts {cells : List Cell} {c : Cell} (h : c ∈ firsts cells) : c ∈ cells := by
  obtain ⟨p, kept, rfl⟩ := List.mem_map.mp h
  exact List.fst_mem_of_mem_zipIdx (List.mem_filter.mp kept).1

/-- The first cell with an identifier is among the first cells. -/
theorem find?_firsts (cells : List Cell) (id : String) :
    ((firsts cells).find? fun c => c.id = id) = cells.find? fun c => c.id = id := by
  induction cells using List.reverseRecOn with
  | nil => rfl
  | append_singleton cells cell ih =>
    rw [firsts_concat, List.find?_append]
    split
    · rename_i taken
      rw [ih]
      by_cases same : cell.id = id
      · subst same
        have found : (cells.find? fun c => c.id = cell.id).isSome = true := by
          rw [List.find?_isSome]
          simpa using taken
        rw [Option.or_of_isSome found]
      · simp [same]
    · rw [List.find?_append, ih]

theorem mem_ids_firsts {cells : List Cell} {id : String} :
    id ∈ (firsts cells).map Cell.id ↔ id ∈ cells.map Cell.id := by
  have found := congrArg Option.isSome (find?_firsts cells id)
  rw [Bool.eq_iff_iff, List.find?_isSome, List.find?_isSome] at found
  simpa using found

theorem nodup_ids_firsts (cells : List Cell) : ((firsts cells).map Cell.id).Nodup := by
  induction cells using List.reverseRecOn with
  | nil => exact List.nodup_nil
  | append_singleton cells cell ih =>
    rw [firsts_concat]
    split
    · exact ih
    · rename_i fresh
      rw [List.map_append, List.map_singleton, ← List.concat_eq_append, List.nodup_concat]
      refine ⟨fun repeated => fresh ?_, ih⟩
      simpa using mem_ids_firsts.mp repeated

/-! ## Registries made from lists -/

theorem ofList_concat (cells : List Cell) (cell : Cell) :
    ofList (cells ++ [cell]) = (ofList cells).insert cell :=
  List.foldl_concat ..

theorem ofList_indexed (cells : List Cell) : (ofList cells).Indexed := by
  induction cells using List.reverseRecOn with
  | nil => exact empty_indexed
  | append_singleton cells cell ih =>
    rw [ofList_concat]
    exact ih.insert cell

/-- A registry holds the first cells of the list that it was made from. -/
theorem toList_ofList (cells : List Cell) : (ofList cells).cells.toList = firsts cells := by
  induction cells using List.reverseRecOn with
  | nil => rfl
  | append_singleton cells cell ih =>
    have taken : (ofList cells).contains cell.id = cells.any fun c => c.id = cell.id := by
      rw [Bool.eq_iff_iff, (ofList_indexed cells).contains_iff, ih]
      have held : cell.id ∈ (firsts cells).map Cell.id ↔ cell.id ∈ cells.map Cell.id :=
        mem_ids_firsts
      simpa using held
    rw [ofList_concat, toList_insert, taken, ih, firsts_concat]

/-- A registry holds cells of the list that it was made from. -/
theorem mem_ofList {cells : List Cell} {c : Cell} (h : c ∈ (ofList cells).cells) : c ∈ cells := by
  rw [← Array.mem_toList_iff, toList_ofList] at h
  exact mem_of_mem_firsts h

/-- The first cell of the list with an identifier is the one that is found. -/
theorem find?_ofList (cells : List Cell) (id : String) :
    (ofList cells).find? id = cells.find? fun c => c.id = id := by
  rw [(ofList_indexed cells).find?_eq, toList_ofList, find?_firsts]

/-- A registry made from a list has the first cell of each identifier, in the order of the list.
Under an identifier it finds the first cell of the list that has it, and knows the identifier just
when it finds a cell. It has as many cells as the list has identifiers that are different. -/
theorem ofList_first_wins (cells : List Cell) :
    (ofList cells).cells.toList = firsts cells ∧
      (∀ id, (ofList cells).find? id = cells.find? fun c => c.id = id) ∧
      (∀ id, (ofList cells).contains id = ((ofList cells).find? id).isSome) ∧
      (ofList cells).size = (cells.map Cell.id).toFinset.card := by
  have order := toList_ofList cells
  refine ⟨order, find?_ofList cells, (ofList_indexed cells).contains_eq, ?_⟩
  have ids : ((firsts cells).map Cell.id).toFinset = (cells.map Cell.id).toFinset := by
    ext id
    rw [List.mem_toFinset, List.mem_toFinset, mem_ids_firsts]
  calc (ofList cells).size = ((firsts cells).map Cell.id).length := by
        rw [List.length_map, ← order, Array.length_toList, size]
    _ = ((firsts cells).map Cell.id).toFinset.card :=
        (List.toFinset_card_of_nodup (nodup_ids_firsts cells)).symm
    _ = (cells.map Cell.id).toFinset.card := by rw [ids]

example : (ofList [⟨"a", 1, .identity⟩, ⟨"b", 2, .display⟩, ⟨"a", 1, .display⟩]).cells.toList =
    [⟨"a", 1, .identity⟩, ⟨"b", 2, .display⟩] := by
  rw [toList_ofList]
  decide

end QuantumBoard.Registry

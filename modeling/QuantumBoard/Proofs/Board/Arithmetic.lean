import QuantumBoard.Proofs.Board.Placement
import QuantumBoard.Proofs.Column.Arithmetic

/-! # What arithmetic cells compute

From the column down to the bits of a state: the cell stands for a gate on its own rows and on those
of its registers, in whatever order the inputs stand in the column, and the gate does to the numbers
in these rows what the transform of the cell does to numbers. -/

namespace QuantumBoard

open Success

namespace Board

/-- A document with one column, in which an arithmetic cell stands among inputs and displays,
compiles. From any state, the number in the rows of the cell becomes what the transform makes of it
and of the numbers in the registers; no other row changes. -/
theorem compile_transformsAt {entries : List Json} {row : Nat} {cell : Cell} {t : Transform}
    (column : Column.TransformsAt entries row cell t) {rows : Register → List Nat}
    (given : ∀ register ∈ t.inputs, Column.GivesRows entries register (rows register))
    (s : UInt64) :
    ∃ c s', compile (.object [("cols", .array [.array entries])]) = .ok c ∧ c.run s = .ok s' ∧
      Word.value s' (List.range' row cell.size) =
        (t.apply (.ofNat (Word.value s (List.range' row cell.size)))
          (t.inputs.map fun register => .ofNat (Word.value s (rows register))) cell.size).toNat ∧
      ∀ k < 64, k ∉ List.range' row cell.size → Word.testBit s' k = Word.testBit s k := by
  obtain ⟨cells, p, inputs, resolved, rfl, rfl, built, same, range⟩ := column.build given
  have compiled : compileColumns [] [entries] = .ok [Column.transformOperation t p inputs] :=
    compileColumns_singleton.mpr ⟨cells, resolved, built⟩
  have table : customGates none = .ok [] := rfl
  obtain ⟨c, hc, operations⟩ :=
    compile_of_parts [("cols", .array [.array entries])] rfl rfl table rfl compiled
  have placed := compileColumns_placed (customGates_wellFormed table) (customGates_placeable table)
    compiled _ List.mem_cons_self
  have nodup := (Operation.placementError?_eq_none.mp placed).2
  obtain ⟨s', run, number, others⟩ := Column.run_transformOperation nodup range s
  refine ⟨c, s', hc, ?_, ?_, others⟩
  · rw [Circuit.run, operations, List.nil_append, runAll_cons, run]
    rfl
  · rw [← List.map_congr_left fun register hr => by rw [← same register hr]]
    exact number

/-- A product is added to a number that stands between its factors; one factor is upside down. -/
def productColumn : List Json :=
  [.text "revinputA2", .integer 1, .text "+=AB2", .integer 1, .integer 1, .text "inputB3",
    .integer 1, .integer 1, .text "Chance"]

def productCells : List (Option Cell) :=
  [some ⟨"revinputA2", 2, .input .a true⟩, none, some ⟨"+=AB2", 2, .arithmetic .addProduct⟩, none,
    none, some ⟨"inputB3", 3, .input .b false⟩, none, none, some ⟨"Chance", 1, .display⟩]

theorem cellAt?_productColumn (i : Nat) :
    Column.cellAt? [] productColumn i = productCells[i]?.join := by
  have first : CustomGates.find? [] "revinputA2" = some ⟨"revinputA2", 2, .input .a true⟩ := by
    rw [CustomGates.find?_nil]
    decide +kernel
  have sum : CustomGates.find? [] "+=AB2" = some ⟨"+=AB2", 2, .arithmetic .addProduct⟩ := by
    rw [CustomGates.find?_nil]
    decide +kernel
  have second : CustomGates.find? [] "inputB3" = some ⟨"inputB3", 3, .input .b false⟩ := by
    rw [CustomGates.find?_nil]
    decide +kernel
  have display : CustomGates.find? [] "Chance" = some ⟨"Chance", 1, .display⟩ := by
    rw [CustomGates.find?_nil]
    decide +kernel
  have blank : Column.foundCell? [] (.integer 1) = none := rfl
  rw [Column.cellAt?_eq_map]
  simp only [productColumn, productCells, List.map_cons, List.map_nil, Column.foundCell?_text,
    blank, first, sum, second, display]

/-- The cells of the column, with their rows. -/
theorem productColumn_cells {i : Nat} {c : Cell}
    (h : Column.cellAt? [] productColumn i = some c) :
    (i = 0 ∧ c = ⟨"revinputA2", 2, .input .a true⟩) ∨
      (i = 2 ∧ c = ⟨"+=AB2", 2, .arithmetic .addProduct⟩) ∨
      (i = 5 ∧ c = ⟨"inputB3", 3, .input .b false⟩) ∨ (i = 8 ∧ c = ⟨"Chance", 1, .display⟩) := by
  rw [cellAt?_productColumn] at h
  match i with
  | 0 | 2 | 5 | 8 =>
    cases h
    simp
  | 1 | 3 | 4 | 6 | 7 => cases h
  | i + 9 => cases h

theorem transformsAt_productColumn :
    Column.TransformsAt productColumn 2 ⟨"+=AB2", 2, .arithmetic .addProduct⟩ .addProduct where
  known entry h := by
    simp only [productColumn, List.mem_cons, List.not_mem_nil, or_false] at h
    rcases h with rfl | rfl | rfl | rfl | rfl | rfl | rfl | rfl | rfl
    · exact .inr ⟨_, (Column.cellAt?_of_getElem? rfl).symm.trans (cellAt?_productColumn 0)⟩
    · exact .inl Column.ofJson?_one
    · exact .inr ⟨_, (Column.cellAt?_of_getElem? rfl).symm.trans (cellAt?_productColumn 2)⟩
    · exact .inl Column.ofJson?_one
    · exact .inl Column.ofJson?_one
    · exact .inr ⟨_, (Column.cellAt?_of_getElem? rfl).symm.trans (cellAt?_productColumn 5)⟩
    · exact .inl Column.ofJson?_one
    · exact .inl Column.ofJson?_one
    · exact .inr ⟨_, (Column.cellAt?_of_getElem? rfl).symm.trans (cellAt?_productColumn 8)⟩
  apart i j c d front hc hd := by
    rcases productColumn_cells hc with ⟨rfl, rfl⟩ | ⟨rfl, rfl⟩ | ⟨rfl, rfl⟩ | ⟨rfl, rfl⟩ <;>
      rcases productColumn_cells hd with ⟨rfl, rfl⟩ | ⟨rfl, rfl⟩ | ⟨rfl, rfl⟩ | ⟨rfl, rfl⟩ <;>
      simp_all
  range i c hc := by
    rcases productColumn_cells hc with ⟨rfl, rfl⟩ | ⟨rfl, rfl⟩ | ⟨rfl, rfl⟩ | ⟨rfl, rfl⟩ <;> simp
  target := cellAt?_productColumn 2
  kind := rfl
  passive i c other hc := by
    rcases productColumn_cells hc with ⟨rfl, rfl⟩ | ⟨rfl, rfl⟩ | ⟨rfl, rfl⟩ | ⟨rfl, rfl⟩ <;>
      first | rfl | exact absurd rfl other
  differ i j c d register reversed reversed' front hc hd first second := by
    rcases productColumn_cells hc with ⟨rfl, rfl⟩ | ⟨rfl, rfl⟩ | ⟨rfl, rfl⟩ | ⟨rfl, rfl⟩ <;>
      cases first <;>
      rcases productColumn_cells hd with ⟨rfl, rfl⟩ | ⟨rfl, rfl⟩ | ⟨rfl, rfl⟩ | ⟨rfl, rfl⟩ <;>
      cases second
    all_goals exact absurd front (Nat.lt_irrefl _)

/-- The rows of the factors; the first is upside down. -/
def productRows : Register → List Nat
  | .a => [1, 0]
  | .b => [5, 6, 7]
  | .r => []

/-- Two and three are multiplied, and added to one in a register of two bits. -/
theorem compile_transformsAt_productColumn :
    ∃ c s', compile (.object [("cols", .array [.array productColumn])]) = .ok c ∧
      c.run 0b1100101 = .ok s' ∧ Word.value s' [2, 3] = 3 ∧
      ∀ k < 64, k ∉ [2, 3] → Word.testBit s' k = Word.testBit 0b1100101 k := by
  have given : ∀ register ∈ Transform.addProduct.inputs,
      Column.GivesRows productColumn register (productRows register) := by
    intro register hr
    cases register with
    | a => exact ⟨0, _, true, cellAt?_productColumn 0, rfl, rfl⟩
    | b => exact ⟨5, _, false, cellAt?_productColumn 5, rfl, rfl⟩
    | r => simp [Transform.inputs] at hr
  obtain ⟨c, s', compiled, run, number, others⟩ :=
    compile_transformsAt transformsAt_productColumn given 0b1100101
  exact ⟨c, s', compiled, run, number.trans (by decide), others⟩

end Board

end QuantumBoard

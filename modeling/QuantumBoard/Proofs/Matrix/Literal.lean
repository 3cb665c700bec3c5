import QuantumBoard.Matrix.Literal
import QuantumBoard.Proofs.Success

/-! Matrix literals spell whole matrices: every row has an entry in every column. -/

namespace QuantumBoard.Matrix

open Success

/-- There is an entry for every row and column. -/
def Whole (m : Matrix) : Prop := m.entries.size = m.rows * m.columns

theorem whole_of_readRows {m m' : Matrix} {rows : List (List Char)} (whole : m.Whole)
    (h : readRows m rows = .ok m') : m'.Whole := by
  induction rows generalizing m with
  | nil =>
    cases h
    exact whole
  | cons row rows ih =>
    rw [readRows] at h
    obtain ⟨entries, -, h⟩ := bind_eq_ok.mp h
    split at h
    · rename_i length
      refine ih ?_ h
      simp only [Whole, Array.size_append, List.size_toArray, length, Nat.succ_mul] at whole ⊢
      omega
    · exact absurd h throw_ne_ok

theorem whole_of_ofLiteral {text : String} {m : Matrix} (h : ofLiteral text = .ok m) :
    m.Whole := by
  unfold ofLiteral at h
  split at h
  · cases h
  · split at h
    · cases h
      rfl
    · obtain ⟨entries, -, h⟩ := bind_eq_ok.mp h
      refine whole_of_readRows ?_ h
      simp [Whole]

end QuantumBoard.Matrix

import QuantumBoard.Proofs.Circuit.Inverse
import QuantumBoard.Proofs.Circuit.Time

/-! # The inverse of the inverse

Taking the inverse twice gives back what the gate does. Mappings, directions and transforms come
back as they were, and the entries of a matrix too, for they are transposed and conjugated twice. A
formula may come back folded, or below two signs, and has the same values; a matrix comes back under
a longer name. -/

namespace QuantumBoard

/-! ## Formulas -/

namespace Expr

/-- The expression with symbols bound one after the other. -/
def bindAll (bindings : List (String × Float)) (e : Expr) : Expr :=
  bindings.foldl (fun e (name, v) => e.bind name v) e

/-- The two expressions have the same value, or both none, whatever symbols are bound. -/
def SameValues (e e' : Expr) : Prop :=
  ∀ bindings, (e'.bindAll bindings).value? = (e.bindAll bindings).value?

theorem bindAll_neg (bindings : List (String × Float)) (e : Expr) :
    (neg e).bindAll bindings = neg (e.bindAll bindings) := by
  induction bindings generalizing e with
  | nil => rfl
  | cons binding bindings ih => exact ih (e.bind binding.1 binding.2)

theorem bindAll_of_value {e : Expr} {v : Float} (known : e.value? = some v)
    (bindings : List (String × Float)) : e.bindAll bindings = e := by
  induction bindings with
  | nil => rfl
  | cons binding bindings ih =>
    have kept : e.bind binding.1 binding.2 = e := bind_of_value known
    show (e.bind binding.1 binding.2).bindAll bindings = e
    rw [kept, ih]

/-- The opposite expression has the opposite value, whether it is folded or not. -/
theorem value?_bindAll_negated (bindings : List (String × Float)) (e : Expr) :
    (e.negated.bindAll bindings).value? = (e.bindAll bindings).value?.map fun v => -v := by
  cases known : e.value? with
  | none =>
    have kept : e.negated = neg e := by rw [negated, known]
    rw [kept, bindAll_neg, value?]
  | some v =>
    have folded : e.negated = constant (-v) := by rw [negated, known]
    have constant : (Expr.constant (-v)).value? = some (-v) := rfl
    rw [folded, bindAll_of_value constant, bindAll_of_value known, known, constant]
    rfl

theorem sameValues_negated_negated (e : Expr) : e.SameValues e.negated.negated := by
  intro bindings
  rw [value?_bindAll_negated, value?_bindAll_negated, Option.map_map]
  cases (e.bindAll bindings).value? with
  | none => rfl
  | some v => exact congrArg some (Decimal.neg_neg v)

end Expr

/-! ## Matrices -/

theorem Amplitude.conj_conj (z : Amplitude) : z.conj.conj = z := by
  rw [conj, conj, Decimal.neg_neg]

namespace MatrixGate

variable {g : MatrixGate} {row column : Nat}

theorem place_lt (hr : row < 2 ^ g.width) (hc : column < 2 ^ g.width) :
    row * 2 ^ g.width + column < 2 ^ g.width * 2 ^ g.width := by
  have rows := Nat.mul_le_mul_right (2 ^ g.width) (Nat.succ_le_of_lt hr)
  rw [Nat.succ_mul] at rows
  omega

/-- The entries in row order. -/
theorem getElem?_entries (g : MatrixGate) (i : Nat) :
    g.entries[i]? = g.entry? (i / 2 ^ g.width) (i % 2 ^ g.width) := by
  have place : i / 2 ^ g.width * 2 ^ g.width + i % 2 ^ g.width = i := Nat.div_add_mod' i _
  exact congrArg (g.entries[·]?) place.symm

theorem exists_entry (fits : g.entries.size = 2 ^ g.width * 2 ^ g.width)
    (hr : row < 2 ^ g.width) (hc : column < 2 ^ g.width) : ∃ z, g.entry? row column = some z :=
  ⟨_, Array.getElem?_eq_getElem (by rw [fits]; exact place_lt hr hc)⟩

/-- Rows are read as columns. -/
theorem entry?_adjoint (hr : row < 2 ^ g.width) (hc : column < 2 ^ g.width) :
    g.adjoint.entry? row column = some ((g.entry? column row).getD ⟨0, 0⟩).conj := by
  have quotient : (row * 2 ^ g.width + column) / 2 ^ g.width = row := by
    rw [Nat.add_comm, Nat.add_mul_div_right _ _ (Nat.two_pow_pos _), Nat.div_eq_of_lt hc,
      Nat.zero_add]
  have remainder : (row * 2 ^ g.width + column) % 2 ^ g.width = column := by
    rw [Nat.add_comm, Nat.add_mul_mod_self_right, Nat.mod_eq_of_lt hc]
  show (Array.map _ (Array.range (2 ^ g.width * 2 ^ g.width)))[row * 2 ^ g.width + column]? = _
  rw [Array.getElem?_map, Array.getElem?_eq_getElem (by simpa using place_lt hr hc),
    Array.getElem_range, Option.map_some]
  show some ((g.entry? ((row * 2 ^ g.width + column) % 2 ^ g.width)
    ((row * 2 ^ g.width + column) / 2 ^ g.width)).getD ⟨0, 0⟩).conj = _
  rw [quotient, remainder]

/-- The entry of the conjugate transpose is the conjugate of the entry across the diagonal. -/
theorem entries_adjoint (fits : g.entries.size = 2 ^ g.width * 2 ^ g.width)
    (hr : row < 2 ^ g.width) (hc : column < 2 ^ g.width) :
    ∃ z, g.entry? column row = some z ∧ g.adjoint.entry? row column = some z.conj := by
  obtain ⟨z, entry⟩ := exists_entry fits hc hr
  refine ⟨z, entry, ?_⟩
  rw [entry?_adjoint hr hc, entry, Option.getD_some]

theorem size_adjoint (g : MatrixGate) : g.adjoint.entries.size = 2 ^ g.width * 2 ^ g.width := by
  simp [adjoint]

theorem entries_adjoint_adjoint (fits : g.entries.size = 2 ^ g.width * 2 ^ g.width) :
    g.adjoint.adjoint.entries = g.entries := by
  apply Array.ext_getElem?
  intro i
  by_cases inside : i < 2 ^ g.width * 2 ^ g.width
  · have hc : i % 2 ^ g.width < 2 ^ g.width := Nat.mod_lt _ (Nat.two_pow_pos _)
    have hr : i / 2 ^ g.width < 2 ^ g.width := Nat.div_lt_of_lt_mul inside
    obtain ⟨z, entry, once⟩ := entries_adjoint fits hc hr
    obtain ⟨w, entry', twice⟩ := entries_adjoint g.size_adjoint hr hc
    cases once.symm.trans entry'
    rw [getElem?_entries, getElem?_entries, entry]
    exact twice.trans (congrArg some z.conj_conj)
  · have outside : 2 ^ g.width * 2 ^ g.width ≤ i := Nat.le_of_not_lt inside
    rw [Array.getElem?_eq_none (by rwa [size_adjoint]), Array.getElem?_eq_none (by rwa [fits])]

/-- Each time the matrix gets a dagger to its name. -/
theorem adjoint_adjoint (fits : g.entries.size = 2 ^ g.width * 2 ^ g.width) :
    g.adjoint.adjoint = ⟨g.name ++ "†" ++ "†", g.width, g.entries⟩ := by
  rw [← entries_adjoint_adjoint fits]
  rfl

end MatrixGate

/-! ## Gates -/

/-- The same gate, with a formula of the same values, and with a matrix under any name. -/
inductive GateKind.Equivalent : GateKind → GateKind → Prop
  | fixed {g : WireGate} : g.parameter? = none → Equivalent (.wire g) (.wire g)
  | power (axis : Axis) {e e' : Expr} : e.SameValues e' →
      Equivalent (.wire (.power axis e)) (.wire (.power axis e'))
  | rotation (axis : Axis) {e e' : Expr} : e.SameValues e' →
      Equivalent (.wire (.rotation axis e)) (.wire (.rotation axis e'))
  | fourier (width : Nat) (inverse : Bool) :
      Equivalent (.register (.fourier width inverse)) (.register (.fourier width inverse))
  | gradient (width : Nat) {e e' : Expr} : e.SameValues e' →
      Equivalent (.register (.gradient width e)) (.register (.gradient width e'))
  | permutation (mapping : List Nat) :
      Equivalent (.register (.permutation mapping)) (.register (.permutation mapping))
  | arithmetic (g : ArithmeticGate) : Equivalent (.arithmetic g) (.arithmetic g)
  | matrix (name name' : String) (width : Nat) (entries : Array Amplitude) :
      Equivalent (.matrix ⟨name, width, entries⟩) (.matrix ⟨name', width, entries⟩)

/-- The same action, with gates that are equivalent and have the same label. -/
inductive Action.Equivalent : Action → Action → Prop
  | gate {kind kind' : GateKind} (label : Option String) : kind.Equivalent kind' →
      Equivalent (.gate ⟨kind, label⟩) (.gate ⟨kind', label⟩)
  | measure : Equivalent .measure .measure
  | phase (z : Amplitude) : Equivalent (.phase z) (.phase z)

/-- The same action on the same rows. -/
structure Operation.Equivalent (op op' : Operation) : Prop where
  action : op.action.Equivalent op'.action
  targets : op'.targets = op.targets
  controls : op'.controls = op.controls

theorem GateKind.Proper.inverse {kind : GateKind} (h : kind.Proper) : kind.inverse.Proper := by
  match kind with
  | .wire _ | .register (.fourier _ _) | .register (.gradient _ _) | .arithmetic _ => trivial
  | .register (.permutation _) => exact RegisterGate.invertMapping_isRearrangement h
  | .matrix g => exact g.size_adjoint

theorem GateKind.Proper.equivalent {kind : GateKind} (proper : kind.Proper) :
    kind.Equivalent kind.inverse.inverse := by
  match kind with
  | .wire .identity | .wire .hadamard | .wire (.pauli _) | .wire .swap => exact .fixed rfl
  | .wire (.power axis e) => exact .power axis e.sameValues_negated_negated
  | .wire (.rotation axis e) => exact .rotation axis e.sameValues_negated_negated
  | .register (.fourier width inverse) =>
    rw [GateKind.inverse, GateKind.inverse, RegisterGate.inverse, RegisterGate.inverse,
      Bool.not_not]
    exact .fourier width inverse
  | .register (.gradient width e) => exact .gradient width e.sameValues_negated_negated
  | .register (.permutation mapping) =>
    rw [GateKind.inverse, GateKind.inverse, RegisterGate.inverse, RegisterGate.inverse,
      RegisterGate.invertMapping_invertMapping proper]
    exact .permutation mapping
  | .arithmetic ⟨t, width, inputs⟩ =>
    rw [GateKind.inverse, GateKind.inverse, ArithmeticGate.inverse, ArithmeticGate.inverse,
      Transform.inverse_inverse]
    exact .arithmetic _
  | .matrix g =>
    rw [GateKind.inverse, GateKind.inverse, MatrixGate.adjoint_adjoint proper]
    exact .matrix g.name _ g.width g.entries

/-! ## Operations -/

namespace Operation

variable {op : Operation}

theorem Proper.inverse (proper : op.Proper) : op.inverse.Proper := by
  match op with
  | ⟨.gate g, _, _⟩ => exact GateKind.Proper.inverse proper
  | ⟨.measure, _, _⟩ | ⟨.phase _, _, _⟩ => trivial

/-- The inverse of the inverse is the operation, but for the form of a formula and the name of a
matrix. The matrix of one inverse is the conjugate transpose of the matrix. -/
theorem equivalent_inverse_inverse (proper : op.Proper) :
    op.action.invertible = true ∧ op.inverse.action.invertible = true ∧
    op.Equivalent op.inverse.inverse ∧
    ∀ g label, op.action = .gate ⟨.matrix g, label⟩ →
      ∃ g', op.inverse.action = .gate ⟨.matrix g', label⟩ ∧ g'.width = g.width ∧
        ∀ row < 2 ^ g.width, ∀ column < 2 ^ g.width,
          ∃ z, g.entry? column row = some z ∧ g'.entry? row column = some z.conj := by
  refine ⟨proper.invertible, proper.inverse.invertible, ⟨?_, rfl, rfl⟩, ?_⟩
  · match op with
    | ⟨.gate g, _, _⟩ => exact .gate g.label (GateKind.Proper.equivalent proper)
    | ⟨.measure, _, _⟩ => exact .measure
    | ⟨.phase z, _, _⟩ =>
      show Action.Equivalent (.phase z) (.phase z.conj.conj)
      rw [z.conj_conj]
      exact .phase z
  · intro g label matrix
    obtain ⟨action, targets, controls⟩ := op
    cases matrix
    exact ⟨g.adjoint, rfl, rfl, fun row hr column hc => MatrixGate.entries_adjoint proper hr hc⟩

/-- A matrix whose entries are all different, on row 4 and under a control at row 0. -/
def steeredMatrix : Operation :=
  (ofGate ⟨.matrix ⟨"U", 1, #[⟨1, 2⟩, ⟨3, 4⟩, ⟨5, 6⟩, ⟨7, 8⟩]⟩, some "U"⟩ [4]).controlledBy [0]

/-- In row 0 and column 1, the matrix of the inverse has the conjugate of the third entry. -/
theorem equivalent_inverse_inverse_steeredMatrix : steeredMatrix.Proper ∧
    steeredMatrix.Equivalent steeredMatrix.inverse.inverse ∧
    ∃ g, steeredMatrix.inverse.action = .gate ⟨.matrix g, some "U"⟩ ∧
      g.entry? 0 1 = some ⟨5, -6⟩ := by
  have proper : steeredMatrix.Proper := rfl
  obtain ⟨-, -, equivalent, matrix⟩ := equivalent_inverse_inverse proper
  obtain ⟨g, gate, -, entries⟩ := matrix _ _ rfl
  obtain ⟨z, entry, conjugate⟩ := entries 0 (by decide) 1 (by decide)
  cases entry
  exact ⟨proper, equivalent, g, gate, conjugate⟩

end Operation

end QuantumBoard

import Mathlib.Data.List.Forall2
import QuantumBoard.Circuit.Basic
import QuantumBoard.Proofs.Formula.Binding

/-! # Circuits at a time

The formulas of the gates of a circuit depend on the time at most. Binding the time gives every
formula its value there, and leaves all else in the circuit as it is. -/

namespace QuantumBoard

/-! ## The formula of a gate -/

def RegisterGate.formula? : RegisterGate → Option Expr
  | gradient _ e => some e
  | _ => none

def RegisterGate.withFormula (e : Expr) : RegisterGate → RegisterGate
  | gradient width _ => gradient width e
  | g => g

namespace GateKind

/-- The exponent or the angle of a gate on a wire or on a register. -/
def formula? : GateKind → Option Expr
  | wire g => g.parameter?
  | register g => g.formula?
  | _ => none

/-- The gate with another exponent or angle, when it has one. -/
def withFormula (e : Expr) : GateKind → GateKind
  | wire g => wire (g.mapParameter fun _ => e)
  | register g => register (g.withFormula e)
  | kind => kind

theorem isParameterized_eq (kind : GateKind) :
    kind.isParameterized = kind.formula?.any Expr.isSymbolic := by
  cases kind with
  | register g => cases g <;> rfl
  | wire _ | arithmetic _ | matrix _ => rfl

theorem bind_of_formula (name : String) (v : Float) {kind : GateKind} {e : Expr}
    (h : kind.formula? = some e) :
    kind.bind name v = kind.withFormula (e.bind name v).simplify := by
  cases kind with
  | wire g => cases g <;> cases h <;> rfl
  | register g => cases g <;> cases h; rfl
  | arithmetic _ | matrix _ => cases h

theorem bind_of_no_formula (name : String) (v : Float) {kind : GateKind}
    (h : kind.formula? = none) : kind.bind name v = kind := by
  cases kind with
  | wire g => cases g <;> first | rfl | cases h
  | register g => cases g <;> first | rfl | cases h
  | arithmetic _ | matrix _ => rfl

theorem formula?_withFormula (e : Expr) (kind : GateKind) :
    (kind.withFormula e).formula? = kind.formula?.map fun _ => e := by
  cases kind with
  | wire g => cases g <;> rfl
  | register g => cases g <;> rfl
  | arithmetic _ | matrix _ => rfl

/-- A later formula takes the place of an earlier one. -/
theorem withFormula_withFormula (e e' : Expr) (kind : GateKind) :
    (kind.withFormula e).withFormula e' = kind.withFormula e' := by
  cases kind with
  | wire g => cases g <;> rfl
  | register g => cases g <;> rfl
  | arithmetic _ | matrix _ => rfl

theorem formula?_inverse (kind : GateKind) :
    kind.inverse.formula? = kind.formula?.map Expr.negated := by
  cases kind with
  | wire g => cases g <;> rfl
  | register g => cases g <;> rfl
  | arithmetic _ | matrix _ => rfl

theorem inverse_withFormula (e : Expr) (kind : GateKind) :
    (kind.withFormula e).inverse = kind.inverse.withFormula e.negated := by
  cases kind with
  | wire g => cases g <;> rfl
  | register g => cases g <;> rfl
  | arithmetic _ | matrix _ => rfl

end GateKind

namespace Action

def formula? : Action → Option Expr
  | gate g => g.kind.formula?
  | _ => none

def label? : Action → Option String
  | gate g => g.label
  | _ => none

def withFormula (e : Expr) : Action → Action
  | gate g => gate { g with kind := g.kind.withFormula e }
  | action => action

end Action

namespace Operation

/-- The exponent or the angle of the gate of an operation. -/
def formula? (op : Operation) : Option Expr := op.action.formula?

/-- The label of the gate of an operation. -/
def label? (op : Operation) : Option String := op.action.label?

/-- The operation with another exponent or angle, when its gate has one. -/
def withFormula (e : Expr) (op : Operation) : Operation :=
  { op with action := op.action.withFormula e }

/-- The operation depends on the time at most. -/
def Timed (op : Operation) : Prop := ∀ e, op.formula? = some e → e.OnlyTime

theorem isParameterized_eq (op : Operation) :
    op.isParameterized = op.formula?.any Expr.isSymbolic := by
  rcases op with ⟨g | _ | _, targets, controls⟩
  · exact g.kind.isParameterized_eq
  · rfl
  · rfl

theorem bind_of_formula (name : String) (v : Float) {op : Operation} {e : Expr}
    (h : op.formula? = some e) : op.bind name v = op.withFormula (e.bind name v).simplify := by
  rcases op with ⟨g | _ | _, targets, controls⟩
  · have kind : g.kind.bind name v = g.kind.withFormula (e.bind name v).simplify :=
      GateKind.bind_of_formula name v h
    simp only [bind, Action.bind, Gate.bind, withFormula, Action.withFormula, kind]
  · cases h
  · cases h

theorem bind_of_no_formula (name : String) (v : Float) {op : Operation}
    (h : op.formula? = none) : op.bind name v = op := by
  rcases op with ⟨g | _ | _, targets, controls⟩
  · have kind : g.kind.bind name v = g.kind := GateKind.bind_of_no_formula name v h
    simp only [bind, Action.bind, Gate.bind, kind]
  · rfl
  · rfl

theorem formula?_withFormula (e : Expr) (op : Operation) :
    (op.withFormula e).formula? = op.formula?.map fun _ => e := by
  rcases op with ⟨g | _ | _, targets, controls⟩
  · exact g.kind.formula?_withFormula e
  · rfl
  · rfl

theorem withFormula_withFormula (e e' : Expr) (op : Operation) :
    (op.withFormula e).withFormula e' = op.withFormula e' := by
  rcases op with ⟨g | _ | _, targets, controls⟩
  · simp only [withFormula, Action.withFormula, GateKind.withFormula_withFormula]
  · rfl
  · rfl

theorem formula?_inverse (op : Operation) :
    op.inverse.formula? = op.formula?.map Expr.negated := by
  rcases op with ⟨g | _ | _, targets, controls⟩
  · exact g.kind.formula?_inverse
  · rfl
  · rfl

theorem inverse_withFormula (e : Expr) (op : Operation) :
    (op.withFormula e).inverse = op.inverse.withFormula e.negated := by
  rcases op with ⟨g | _ | _, targets, controls⟩
  · simp only [inverse, withFormula, Action.inverse, Action.withFormula, Gate.inverse,
      GateKind.inverse_withFormula]
  · rfl
  · rfl

theorem label?_bind (name : String) (v : Float) (op : Operation) :
    (op.bind name v).label? = op.label? := by
  rcases op with ⟨g | _ | _, targets, controls⟩ <;> rfl

/-! ## Operations that depend on the time at most -/

theorem timed_of_no_formula {op : Operation} (h : op.formula? = none) : op.Timed := by
  intro e formula
  rw [h] at formula
  cases formula

theorem Timed.controlledBy {op : Operation} (h : op.Timed) (rows : List Nat) :
    (op.controlledBy rows).Timed := h

theorem Timed.mapRows {op : Operation} (h : op.Timed) (f : Nat → Nat) : (op.mapRows f).Timed := h

theorem Timed.inverse {op : Operation} (h : op.Timed) : op.inverse.Timed := by
  intro e formula
  rw [formula?_inverse] at formula
  obtain ⟨own, mem, rfl⟩ := Option.map_eq_some_iff.mp formula
  exact (h own mem).negated

end Operation

/-! ## Binding the time -/

/-- What binding the time to a value makes of an expression: its value, or, when it divides by a
zero there, an expression that has no symbol and no value. -/
structure Expr.ResolvesTo (v : Float) (e e' : Expr) : Prop where
  value : ∀ w, e.valueAt? Formula.timeName v = some w → e' = .constant w
  undefined : e.valueAt? Formula.timeName v = none → e'.SymbolFree ∧ e'.value? = none ∧
    ∃ a b y, (binary .div a b).Part e ∧ b.valueAt? Formula.timeName v = some y ∧ (y == 0) = true

theorem Expr.OnlyTime.resolvesTo {e : Expr} (time : e.OnlyTime) (v : Float) :
    e.ResolvesTo v (e.bind Formula.timeName v).simplify where
  value _ known := simplify_of_value known
  undefined none :=
    ⟨(symbolFree_bind (onlyTime_iff.mp time)).simplify, (value?_simplify _).trans none,
      (valueAt?_eq_none_iff (onlyTime_iff.mp time)).mp none⟩

theorem Expr.ResolvesTo.symbolFree {v : Float} {e e' : Expr} (h : e.ResolvesTo v e') :
    e'.SymbolFree := by
  cases known : e.valueAt? Formula.timeName v with
  | some w =>
    rw [h.value w known]
    exact symbolFree_iff.mpr rfl
  | none => exact (h.undefined known).1

/-- What binding the time to a value makes of an operation: the same operation on the same rows,
with the value of its formula. -/
structure Operation.Bound (v : Float) (op op' : Operation) : Prop where
  targets : op'.targets = op.targets
  controls : op'.controls = op.controls
  label : op'.label? = op.label?
  fixed : op.formula? = none → op' = op
  formula : ∀ e, op.formula? = some e →
    ∃ e', op' = op.withFormula e' ∧ op'.formula? = some e' ∧ e.ResolvesTo v e'

theorem Operation.Timed.bound {op : Operation} (timed : op.Timed) (v : Float) :
    op.Bound v (op.bind Formula.timeName v) where
  targets := rfl
  controls := rfl
  label := op.label?_bind _ v
  fixed := bind_of_no_formula _ v
  formula e h := by
    have bound := bind_of_formula Formula.timeName v h
    refine ⟨_, bound, ?_, (timed e h).resolvesTo v⟩
    rw [bound, formula?_withFormula, h]
    rfl

theorem Operation.Bound.isParameterized {v : Float} {op op' : Operation} (h : op.Bound v op') :
    op'.isParameterized = false := by
  rw [isParameterized_eq]
  cases formula : op.formula? with
  | none =>
    rw [h.fixed formula, formula]
    rfl
  | some e =>
    obtain ⟨e', -, changed, resolves⟩ := h.formula e formula
    rw [changed]
    exact Expr.symbolFree_iff.mp resolves.symbolFree

namespace Circuit

/-- Every operation of a circuit is bound as it stands. -/
theorem forall₂_bind {c : Circuit} (timed : ∀ op ∈ c.operations.toList, op.Timed) (v : Float) :
    List.Forall₂ (Operation.Bound v) c.operations.toList
      (c.bind Formula.timeName v).operations.toList := by
  rw [bind, Array.toList_map, List.forall₂_map_right_iff, List.forall₂_same]
  exact fun op hop => (timed op hop).bound v

theorem isParameterized_bind {c : Circuit} (timed : ∀ op ∈ c.operations.toList, op.Timed)
    (v : Float) : (c.bind Formula.timeName v).isParameterized = false := by
  rw [isParameterized, bind, ← Array.any_toList, Array.toList_map, List.any_map, List.any_eq_false]
  intro op hop
  rw [Bool.not_eq_true]
  exact ((timed op hop).bound v).isParameterized

end Circuit

end QuantumBoard

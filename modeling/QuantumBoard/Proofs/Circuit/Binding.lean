import QuantumBoard.Proofs.Circuit.Inverse
import QuantumBoard.Proofs.Circuit.Time
import QuantumBoard.Proofs.Formula.Normal

/-! # Circuits with symbols bound

Binding a symbol folds every formula at once, so that one order of bindings may fold early what
another folds late, and meet a zero divisor that the other does not meet yet. The circuits come out
the same all the same, and so do the inverses. A run that succeeds has asked for the value of no
formula in which a symbol is left: the gate was skipped, or changes the phase only. Binding the
symbol then leaves the run as it is. -/

namespace QuantumBoard

variable {name : String} {v : Float}

/-! ## The order of bindings -/

namespace Operation

variable {op : Operation}

/-- Of two bindings, the second acts on the formula that the first has folded. -/
theorem bind_bound {e : Expr} (formula : op.formula? = some e) (other : String) (w : Float) :
    (op.bind name v).bind other w =
      op.withFormula ((e.bind name v).simplify.bind other w).simplify := by
  have bound : (op.withFormula (e.bind name v).simplify).formula? =
      some (e.bind name v).simplify := by
    rw [formula?_withFormula, formula]
    rfl
  rw [bind_of_formula name v formula, bind_of_formula other w bound, withFormula_withFormula]

theorem bind_bind (w : Float) (op : Operation) : (op.bind name v).bind name w = op.bind name v := by
  cases formula : op.formula? with
  | none => rw [bind_of_no_formula name v formula, bind_of_no_formula name w formula]
  | some e => rw [bind_bound formula, Expr.simplify_bind_bind, bind_of_formula name v formula]

theorem bind_comm {other : String} (differ : name ≠ other) (w : Float) (op : Operation) :
    (op.bind name v).bind other w = (op.bind other w).bind name v := by
  cases formula : op.formula? with
  | none =>
    rw [bind_of_no_formula name v formula, bind_of_no_formula other w formula,
      bind_of_no_formula name v formula]
  | some e => rw [bind_bound formula, Expr.simplify_bind_comm differ, bind_bound formula]

end Operation

namespace Circuit

theorem bind_bind (w : Float) (c : Circuit) : (c.bind name v).bind name w = c.bind name v := by
  have each : Operation.bind name w ∘ Operation.bind name v = Operation.bind name v :=
    funext (Operation.bind_bind w)
  rw [bind, bind, Array.map_map, each]

theorem bind_comm {other : String} (differ : name ≠ other) (w : Float) (c : Circuit) :
    (c.bind name v).bind other w = (c.bind other w).bind name v := by
  have each : Operation.bind other w ∘ Operation.bind name v =
      Operation.bind name v ∘ Operation.bind other w := funext (Operation.bind_comm differ w)
  rw [bind, bind, Array.map_map, each, ← Array.map_map]
  rfl

/-- A symbol keeps the value that it was bound to first, and two symbols may be bound in either
order. -/
theorem bindings_final_in_any_order (c : Circuit) (m n : String) (v w : Float) :
    (c.bind n v).bind n w = c.bind n v ∧
    (m ≠ n → (c.bind m v).bind n w = (c.bind n w).bind m v) :=
  ⟨bind_bind w c, fun differ => bind_comm differ w c⟩

/-- A turn by the time over `u`, and a phase gradient of the time times the square of `u`. -/
def twoSymbols : Circuit := ⟨"", #[
  .wire (.rotation .x (.binary .div .time (.symbol "u"))) 0,
  .ofKind (.register (.gradient 2
    (.binary .mul .time (.binary .pow (.symbol "u") (.constant 2))))) [1, 2]]⟩

/-- With `u` zero the quotient has a zero divisor before the time is bound. -/
theorem bindings_final_in_any_order_zeroDivisor : "t" ≠ "u" ∧
    (twoSymbols.bind "t" 3).bind "u" 0 = (twoSymbols.bind "u" 0).bind "t" 3 ∧
    (twoSymbols.bind "u" 0).bind "u" 2 = twoSymbols.bind "u" 0 ∧
    ((twoSymbols.bind "u" 0).bind "t" 3).operations[0]? =
      some (.wire (.rotation .x (.binary .div (.constant 3) (.constant 0))) 0) :=
  ⟨by decide, (bindings_final_in_any_order twoSymbols "t" "u" 3 0).2 (by decide),
    (bindings_final_in_any_order twoSymbols "t" "u" 0 2).1, by decide +kernel⟩

end Circuit

/-! ## Inverses -/

@[simp] theorem GateKind.invertible_bind (name : String) (v : Float) (kind : GateKind) :
    (kind.bind name v).invertible = kind.invertible := by
  match kind with
  | .wire _ | .arithmetic _ | .matrix _ => rfl
  | .register g => cases g <;> rfl

namespace Operation

theorem invertible_bind (op : Operation) :
    (op.bind name v).action.invertible = op.action.invertible := by
  match op with
  | ⟨.gate g, _, _⟩ => exact g.kind.invertible_bind name v
  | ⟨.measure, _, _⟩ | ⟨.phase _, _, _⟩ => rfl

theorem bind_inverse (op : Operation) :
    (op.bind name v).inverse = op.inverse.bind name v := by
  cases formula : op.formula? with
  | none =>
    have opposite : op.inverse.formula? = none := by rw [formula?_inverse, formula]; rfl
    rw [bind_of_no_formula name v formula, bind_of_no_formula name v opposite]
  | some e =>
    have opposite : op.inverse.formula? = some e.negated := by rw [formula?_inverse, formula]; rfl
    rw [bind_of_formula name v formula, bind_of_formula name v opposite, inverse_withFormula,
      Expr.negated_simplify_bind]

/-- An operation that has an inverse has one when a symbol is bound, and it is the inverse with
the symbol bound. -/
theorem inverse_before_or_after_binding {op : Operation} (proper : op.Proper) (name : String)
    (v : Float) :
    op.action.invertible = true ∧ (op.bind name v).action.invertible = true ∧
      (op.bind name v).inverse = op.inverse.bind name v :=
  ⟨proper.invertible, (invertible_bind op).trans proper.invertible, bind_inverse op⟩

/-- A labelled phase gradient under a control, by the reciprocal of the time less one. -/
def steeredGradient : Operation :=
  ⟨.gate ⟨.register (.gradient 2 (.binary .div (.constant 1) (.binary .sub .time (.constant 1)))),
    some "slope"⟩, [0, 1], [5]⟩

/-- At time 3 the exponent of the inverse is a number. At time 1 it has none, and the divisor that
has become zero stands below a sign. -/
theorem inverse_before_or_after_binding_steeredGradient :
    (steeredGradient.bind "t" 3).inverse = steeredGradient.inverse.bind "t" 3 ∧
    (steeredGradient.bind "t" 3).inverse = steeredGradient.withFormula (.constant (-0.5)) ∧
    (steeredGradient.bind "t" 1).inverse = steeredGradient.inverse.bind "t" 1 ∧
    (steeredGradient.bind "t" 1).inverse =
      steeredGradient.withFormula (.neg (.binary .div (.constant 1) (.constant 0))) := by
  have proper : steeredGradient.Proper := trivial
  obtain ⟨-, -, atThree⟩ := inverse_before_or_after_binding proper "t" 3
  obtain ⟨-, -, atOne⟩ := inverse_before_or_after_binding proper "t" 1
  exact ⟨atThree, by decide +kernel, atOne, by decide +kernel⟩

end Operation

/-! ## Runs -/

theorem WireGate.flips?_bind (name : String) (v : Float) (g : WireGate) :
    (g.bind name v).flips? = g.flips? ∨
      g.flips? = none ∧ ∃ e, g.parameter? = some e ∧ name ∈ e.symbols := by
  match g with
  | identity | hadamard | pauli _ | swap | power .z _ => exact .inl rfl
  | rotation axis _ => cases axis <;> exact .inl rfl
  | power .x e | power .y e =>
    by_cases occurs : name ∈ e.symbols
    · refine .inr ⟨?_, e, rfl, occurs⟩
      show e.value?.bind powerFlips? = none
      rw [Expr.value?_of_mem_symbols occurs]
      rfl
    · left
      show (e.bind name v).simplify.value?.bind powerFlips? = e.value?.bind powerFlips?
      rw [Expr.value?_simplify, Expr.bind_of_not_mem occurs]

theorem GateKind.name_bind (name : String) (v : Float) (kind : GateKind) :
    (kind.bind name v).name = kind.name := by
  match kind with
  | .wire g => cases g <;> rfl
  | .register g => cases g <;> rfl
  | .arithmetic _ | .matrix _ => rfl

namespace Operation

/-- The symbol occurs in the formula of the operation. -/
def DependsOn (name : String) (op : Operation) : Prop :=
  ∃ e, op.formula? = some e ∧ name ∈ e.symbols

theorem name_bind (name : String) (v : Float) (op : Operation) :
    (op.bind name v).name = op.name := by
  match op with
  | ⟨.gate g, _, _⟩ => exact congrArg g.label.getD (g.kind.name_bind name v)
  | ⟨.measure, _, _⟩ | ⟨.phase _, _, _⟩ => rfl

/-- A gate acts as it did, unless it could not act because the symbol was not bound. -/
theorem runWire_bind (name : String) (v : Float) (op : Operation) (g : WireGate) (s : UInt64) :
    (op.bind name v).runWire (g.bind name v) s = op.runWire g s ∨
      (∃ e, g.parameter? = some e ∧ name ∈ e.symbols) ∧
        op.runWire g s = .error (.notClassical op.name) := by
  by_cases swap : g = .swap
  · subst swap
    have targets : (op.bind name v).targets = op.targets := rfl
    have kept : WireGate.swap.bind name v = .swap := rfl
    left
    simp only [kept, runWire, targets, name_bind]
  · have other : g.bind name v ≠ .swap := mt WireGate.mapParameter_eq_swap.mp swap
    rw [runWire_of_ne_swap _ other, runWire_of_ne_swap op swap, name_bind]
    rcases g.flips?_bind name v with same | ⟨unknown, occurs⟩
    · exact .inl (by rw [same]; rfl)
    · exact .inr ⟨occurs, by rw [unknown]⟩

theorem act_bind (name : String) (v : Float) (op : Operation) (s : UInt64) :
    (op.bind name v).act s = op.act s ∨
      op.DependsOn name ∧ op.act s = .error (.notClassical op.name) := by
  match op with
  | ⟨.gate ⟨.wire g, label⟩, targets, controls⟩ =>
    exact runWire_bind name v ⟨.gate ⟨.wire g, label⟩, targets, controls⟩ g s
  | ⟨.gate ⟨.register (.gradient _ _), _⟩, _, _⟩ | ⟨.gate ⟨.register (.permutation _), _⟩, _, _⟩
  | ⟨.gate ⟨.register (.fourier _ _), _⟩, _, _⟩ | ⟨.gate ⟨.arithmetic _, _⟩, _, _⟩
  | ⟨.gate ⟨.matrix _, _⟩, _, _⟩ | ⟨.measure, _, _⟩ | ⟨.phase _, _, _⟩ => exact .inl rfl

theorem run_bind (name : String) (v : Float) (op : Operation) (s : UInt64) :
    (op.bind name v).run s = op.run s ∨
      op.DependsOn name ∧ op.run s = .error (.notClassical op.name) := by
  have rows : (op.bind name v).rows = op.rows := rfl
  have controls : (op.bind name v).controls = op.controls := rfl
  rw [run, run, rows, controls]
  cases op.rows.find? (64 ≤ ·) with
  | some row => exact .inl rfl
  | none =>
    cases op.controls.all (Word.isSet s) with
    | true => exact op.act_bind name v s
    | false => exact .inl rfl

end Operation

/-- A run is the same with a symbol bound, unless it stopped at a gate that depends on the
symbol. -/
theorem runAll_bind (name : String) (v : Float) (ops : List Operation) (s : UInt64) :
    runAll (ops.map (Operation.bind name v)) s = runAll ops s ∨
      ∃ op ∈ ops, op.DependsOn name ∧ runAll ops s = .error (.notClassical op.name) := by
  induction ops generalizing s with
  | nil => exact .inl rfl
  | cons op ops ih =>
    rw [List.map_cons, runAll_cons, runAll_cons]
    rcases op.run_bind name v s with same | ⟨depends, stuck⟩
    · rw [same]
      match op.run s with
      | .error e => exact .inl rfl
      | .ok t =>
        rcases ih t with same | ⟨op', mem, depends, stuck⟩
        · exact .inl same
        · exact .inr ⟨op', List.mem_cons_of_mem _ mem, depends, stuck⟩
    · refine .inr ⟨op, List.mem_cons_self, depends, ?_⟩
      rw [stuck]
      rfl

namespace Circuit

/-- A run that succeeds gives the same state whatever value a symbol is bound to. -/
theorem run_kept_by_binding {c : Circuit} {s s' : UInt64} (ran : c.run s = .ok s') (name : String)
    (v : Float) : (c.bind name v).run s = .ok s' := by
  have bound : (c.bind name v).operations.toList =
      c.operations.toList.map (Operation.bind name v) := Array.toList_map
  rw [run] at ran ⊢
  rw [bound]
  rcases runAll_bind name v c.operations.toList s with same | ⟨op, -, -, stuck⟩
  · exact same.trans ran
  · cases stuck.symm.trans ran

/-- A power with a number for its exponent, a power by the time under a control, and a phase by the
time. -/
def partlyTimed : Circuit := ⟨"", #[
  .wire (.power .x (.binary .div (.constant 6) (.constant 2))) 0,
  (Operation.wire (.power .x .time) 2).controlledBy [1],
  .wire (.power .z .time) 0]⟩

/-- With the control unset the run succeeds, at time one half as well, where the power by the time
is no map of basis states. With the control set only the bound circuit can run. -/
theorem run_kept_by_binding_partlyTimed :
    partlyTimed.run 0 = .ok 1 ∧ (partlyTimed.bind "t" 0.5).run 0 = .ok 1 ∧
      partlyTimed.run 2 = .error (.notClassical "xpow") ∧
      (partlyTimed.bind "t" 1).run 2 = .ok 7 := by
  have ran : partlyTimed.run 0 = .ok 1 := by decide +kernel
  exact ⟨ran, run_kept_by_binding ran "t" 0.5, by decide +kernel, by decide +kernel⟩

end Circuit

end QuantumBoard

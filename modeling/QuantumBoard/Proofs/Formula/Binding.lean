import QuantumBoard.Proofs.Formula.Folded

/-! # Parts of expressions, and expressions with a symbol bound

An expression lacks a value exactly where a symbol occurs in it or one of its parts divides by zero.
Binding the one symbol of an expression leaves none, so what has no value then has a divisor that is
zero at the value bound. -/

namespace QuantumBoard.Expr

/-! ## Parts -/

/-- An expression occurs in another one, or is it. -/
inductive Part (p : Expr) : Expr → Prop
  | whole : Part p p
  | neg {e : Expr} : Part p e → Part p (neg e)
  | call {f : Elementary} {e : Expr} : Part p e → Part p (call f e)
  | left {op : BinaryOp} {a b : Expr} : Part p a → Part p (binary op a b)
  | right {op : BinaryOp} {a b : Expr} : Part p b → Part p (binary op a b)

theorem Part.trans {q p e : Expr} (inner : Part q p) (part : Part p e) : Part q e := by
  induction part with
  | whole => exact inner
  | neg _ ih => exact .neg ih
  | call _ ih => exact .call ih
  | left _ ih => exact .left ih
  | right _ ih => exact .right ih

/-- No symbol occurs in the expression. -/
def SymbolFree (e : Expr) : Prop := ∀ name, ¬Part (symbol name) e

theorem part_neg {p e : Expr} : Part p (neg e) ↔ p = neg e ∨ Part p e := by
  constructor
  · intro h
    cases h with
    | whole => exact .inl rfl
    | neg h => exact .inr h
  · rintro (rfl | h)
    · exact .whole
    · exact .neg h

theorem part_call {p e : Expr} {f : Elementary} :
    Part p (call f e) ↔ p = call f e ∨ Part p e := by
  constructor
  · intro h
    cases h with
    | whole => exact .inl rfl
    | call h => exact .inr h
  · rintro (rfl | h)
    · exact .whole
    · exact .call h

theorem part_binary {p a b : Expr} {op : BinaryOp} :
    Part p (binary op a b) ↔ p = binary op a b ∨ Part p a ∨ Part p b := by
  constructor
  · intro h
    cases h with
    | whole => exact .inl rfl
    | left h => exact .inr (.inl h)
    | right h => exact .inr (.inr h)
  · rintro (rfl | h | h)
    · exact .whole
    · exact .left h
    · exact .right h

theorem mem_symbols {name : String} {e : Expr} : name ∈ e.symbols ↔ Part (symbol name) e := by
  induction e with
  | constant v | pi | euler =>
    refine ⟨fun mem => absurd mem List.not_mem_nil, fun part => ?_⟩
    cases part
  | symbol other =>
    rw [symbols, List.mem_singleton]
    constructor
    · rintro rfl
      exact .whole
    · intro part
      cases part
      rfl
  | neg e ih => simp only [symbols, part_neg, ih, reduceCtorEq, false_or]
  | call f e ih => simp only [symbols, part_call, ih, reduceCtorEq, false_or]
  | binary op a b iha ihb =>
    simp only [symbols, part_binary, List.mem_append, iha, ihb, reduceCtorEq, false_or]

theorem symbolFree_iff {e : Expr} : e.SymbolFree ↔ e.isSymbolic = false := by
  rw [isSymbolic_eq_symbols, Bool.not_eq_false', List.isEmpty_iff, List.eq_nil_iff_forall_not_mem]
  exact forall_congr' fun name => not_congr mem_symbols.symm

theorem symbolFree_of_value {e : Expr} {v : Float} (known : e.value? = some v) :
    e.SymbolFree := by
  rw [symbolFree_iff, Bool.eq_false_iff]
  intro symbolic
  rw [value?_of_isSymbolic symbolic] at known
  cases known

theorem symbols_of_value {e : Expr} {v : Float} (known : e.value? = some v) : e.symbols = [] :=
  List.eq_nil_iff_forall_not_mem.mpr fun _ mem => symbolFree_of_value known _ (mem_symbols.mp mem)

theorem value?_of_mem_symbols {name : String} {e : Expr} (occurs : name ∈ e.symbols) :
    e.value? = none := by
  cases known : e.value? with
  | none => rfl
  | some v => exact absurd occurs (by rw [symbols_of_value known]; exact List.not_mem_nil)

theorem Folds.symbols {e e' : Expr} (folds : Folds e e') : e'.symbols = e.symbols := by
  induction folds with
  | constant known => exact (symbols_of_value known).symm
  | symbol name => rfl
  | neg _ _ ih => exact ih
  | call _ _ ih => exact ih
  | binary _ _ _ iha ihb => rw [Expr.symbols, Expr.symbols, iha, ihb]

/-- Folding leaves the symbols where they are. -/
theorem symbols_simplify (e : Expr) : e.simplify.symbols = e.symbols := (folds_simplify e).symbols

theorem isSymbolic_simplify (e : Expr) : e.simplify.isSymbolic = e.isSymbolic := by
  rw [isSymbolic_eq_symbols, isSymbolic_eq_symbols, symbols_simplify]

theorem SymbolFree.simplify {e : Expr} (h : e.SymbolFree) : e.simplify.SymbolFree := by
  rw [symbolFree_iff, isSymbolic_simplify, symbolFree_iff.mp h]

/-! ## Expressions without a value -/

/-- All parts of an expression that has a value have values. -/
theorem value?_of_part {p e : Expr} (part : Part p e) {v : Float} (known : e.value? = some v) :
    ∃ w, p.value? = some w := by
  induction part generalizing v with
  | whole => exact ⟨v, known⟩
  | neg _ ih =>
    obtain ⟨w, inner, -⟩ := Option.map_eq_some_iff.mp known
    exact ih inner
  | call _ ih =>
    obtain ⟨w, inner, -⟩ := Option.map_eq_some_iff.mp known
    exact ih inner
  | left _ ih =>
    obtain ⟨x, left, -⟩ := Option.bind_eq_some_iff.mp known
    exact ih left
  | right _ ih =>
    obtain ⟨x, -, rest⟩ := Option.bind_eq_some_iff.mp known
    obtain ⟨y, right, -⟩ := Option.bind_eq_some_iff.mp rest
    exact ih right

theorem divisor_of_value {a b : Expr} {v y : Float} (known : (binary .div a b).value? = some v)
    (divisor : b.value? = some y) : (y == 0) = false := by
  obtain ⟨x, -, rest⟩ := Option.bind_eq_some_iff.mp known
  obtain ⟨z, right, quotient⟩ := Option.bind_eq_some_iff.mp rest
  cases divisor.symm.trans right
  rw [Bool.eq_false_iff]
  intro zero
  rw [BinaryOp.result?, if_pos zero] at quotient
  cases quotient

/-- A symbol occurs in the expression, or a division by a zero of either sign. -/
def Unevaluable (e : Expr) : Prop :=
  (∃ name, Part (symbol name) e) ∨
    ∃ a b y, Part (binary .div a b) e ∧ b.value? = some y ∧ (y == 0) = true

theorem Unevaluable.whole {p e : Expr} (h : p.Unevaluable) (part : Part p e) : e.Unevaluable := by
  rcases h with ⟨name, occurs⟩ | ⟨a, b, y, division, zero⟩
  · exact .inl ⟨name, occurs.trans part⟩
  · exact .inr ⟨a, b, y, division.trans part, zero⟩

/-- Evaluation looks at every part, and only symbols and divisions by zero stop it. -/
theorem value?_eq_none_iff {e : Expr} : e.value? = none ↔ e.Unevaluable := by
  constructor
  · intro none
    induction e with
    | constant _ | pi | euler => cases none
    | symbol name => exact .inl ⟨name, .whole⟩
    | neg e ih => exact (ih (Option.map_eq_none_iff.mp none)).whole (.neg .whole)
    | call f e ih => exact (ih (Option.map_eq_none_iff.mp none)).whole (.call .whole)
    | binary op a b iha ihb =>
      cases left : a.value? with
      | none => exact (iha left).whole (.left .whole)
      | some x =>
        cases right : b.value? with
        | none => exact (ihb right).whole (.right .whole)
        | some y =>
          rw [value?, left, right] at none
          obtain ⟨rfl, zero⟩ := result?_eq_none none
          exact .inr ⟨a, b, y, .whole, right, zero⟩
  · intro unevaluable
    cases known : e.value? with
    | none => rfl
    | some v =>
      rcases unevaluable with ⟨name, occurs⟩ | ⟨a, b, y, part, divisor, zero⟩
      · exact absurd occurs (symbolFree_of_value known name)
      · obtain ⟨w, quotient⟩ := value?_of_part part known
        rw [divisor_of_value quotient divisor] at zero
        cases zero

/-! ## Expressions in the time -/

/-- The time is the only symbol that occurs in the expression. -/
def OnlyTime (e : Expr) : Prop := ∀ name, Part (symbol name) e → name = Formula.timeName

theorem onlyTime_iff {e : Expr} : e.OnlyTime ↔ ∀ name ∈ e.symbols, name = Formula.timeName :=
  forall_congr' fun _ => imp_congr_left mem_symbols.symm

theorem onlyTime_constant (v : Float) : (constant v).OnlyTime := by
  intro name part
  cases part

theorem OnlyTime.negated {e : Expr} (h : e.OnlyTime) : e.negated.OnlyTime := by
  intro name part
  unfold Expr.negated at part
  split at part
  · cases part
  · rcases part_neg.mp part with same | part
    · cases same
    · exact h name part

/-! ## Binding a symbol -/

section

variable {name : String} {v : Float}

/-- Binding changes nothing where the symbol does not occur. -/
theorem bind_of_not_mem {e : Expr} (absent : name ∉ e.symbols) : e.bind name v = e := by
  induction e with
  | constant _ | pi | euler => rfl
  | symbol other => exact if_neg fun same => absent (List.mem_singleton.mpr same.symm)
  | neg e ih => rw [bind, ih absent]
  | call f e ih => rw [bind, ih absent]
  | binary op a b iha ihb =>
    rw [bind, iha fun mem => absent (List.mem_append_left _ mem),
      ihb fun mem => absent (List.mem_append_right _ mem)]

theorem bind_of_value {e : Expr} {w : Float} (known : e.value? = some w) : e.bind name v = e :=
  bind_of_not_mem (by rw [symbols_of_value known]; exact List.not_mem_nil)

theorem symbols_bind (e : Expr) : (e.bind name v).symbols = e.symbols.filter (· ≠ name) := by
  induction e with
  | constant _ | pi | euler => rfl
  | symbol other =>
    rw [bind]
    by_cases same : other = name
    · rw [if_pos same, same]
      simp [symbols]
    · rw [if_neg same]
      simp [symbols, same]
  | neg e ih => exact ih
  | call f e ih => exact ih
  | binary op a b iha ihb => rw [bind, symbols, symbols, iha, ihb, List.filter_append]

/-- The only symbol of an expression is gone once it is bound. -/
theorem symbolFree_bind {e : Expr} (only : ∀ other ∈ e.symbols, other = name) :
    (e.bind name v).SymbolFree := by
  intro other part
  rw [← mem_symbols, symbols_bind, List.mem_filter] at part
  exact absurd (only other part.1) (of_decide_eq_true part.2)

/-- What is bound stays as it was bound first. -/
theorem bind_bind (w : Float) (e : Expr) : (e.bind name v).bind name w = e.bind name v :=
  bind_of_not_mem (by simp [symbols_bind])

theorem bind_comm {other : String} (differ : name ≠ other) (w : Float) (e : Expr) :
    (e.bind name v).bind other w = (e.bind other w).bind name v := by
  induction e with
  | constant _ | pi | euler => rfl
  | symbol own =>
    by_cases first : own = name
    · have second : own ≠ other := fun second => differ (first.symm.trans second)
      simp only [bind, if_pos first, if_neg second]
    · by_cases second : own = other
      · simp only [bind, if_neg first, if_pos second]
      · simp only [bind, if_neg first, if_neg second]
  | neg e ih => exact congrArg neg ih
  | call f e ih => exact congrArg (call f) ih
  | binary op a b iha ihb => rw [bind, bind, iha, ihb, bind, bind]

theorem valueAt?_binary (op : BinaryOp) (a b : Expr) :
    (binary op a b).valueAt? name v =
      (a.valueAt? name v).bind fun x => (b.valueAt? name v).bind fun y => op.result? x y := rfl

theorem Folds.valueAt? {e e' : Expr} (folds : Folds e e') :
    e'.valueAt? name v = e.valueAt? name v := by
  induction folds with
  | constant known => rw [Expr.valueAt?, Expr.valueAt?, bind_of_value known, known]; rfl
  | symbol other => rfl
  | neg _ _ ih => exact congrArg (Option.map _) ih
  | call _ _ ih => exact congrArg (Option.map _) ih
  | binary _ _ _ iha ihb => rw [valueAt?_binary, valueAt?_binary, iha, ihb]

/-- Folding does not change the value that binding a symbol gives. -/
theorem valueAt?_simplify (e : Expr) : e.simplify.valueAt? name v = e.valueAt? name v :=
  (folds_simplify e).valueAt?

/-! ## Divisors that are zero -/

theorem Part.bind {p e : Expr} (part : Part p e) : Part (p.bind name v) (e.bind name v) := by
  induction part with
  | whole => exact .whole
  | neg _ ih => exact .neg ih
  | call _ ih => exact .call ih
  | left _ ih => exact .left ih
  | right _ ih => exact .right ih

/-- The operations of a bound expression are those of the expression, with the symbol bound in
their operands. -/
theorem operation_of_part_bind {op : BinaryOp} {a b e : Expr}
    (part : Part (binary op a b) (e.bind name v)) :
    ∃ a' b', Part (binary op a' b') e ∧ a'.bind name v = a ∧ b'.bind name v = b := by
  induction e with
  | constant _ | pi | euler => cases part
  | symbol other =>
    rw [bind] at part
    split at part <;> cases part
  | neg e ih =>
    rw [bind, part_neg] at part
    obtain ⟨a', b', inner, operands⟩ := ih (part.resolve_left nofun)
    exact ⟨a', b', .neg inner, operands⟩
  | call f e ih =>
    rw [bind, part_call] at part
    obtain ⟨a', b', inner, operands⟩ := ih (part.resolve_left nofun)
    exact ⟨a', b', .call inner, operands⟩
  | binary other c d ihc ihd =>
    rcases part_binary.mp part with same | inner | inner
    · cases same
      exact ⟨c, d, .whole, rfl, rfl⟩
    · obtain ⟨a', b', inner, operands⟩ := ihc inner
      exact ⟨a', b', .left inner, operands⟩
    · obtain ⟨a', b', inner, operands⟩ := ihd inner
      exact ⟨a', b', .right inner, operands⟩

/-- With its one symbol bound, an expression has a value unless it divides by a zero. -/
theorem valueAt?_eq_none_iff {e : Expr} (only : ∀ other ∈ e.symbols, other = name) :
    e.valueAt? name v = none ↔
      ∃ a b y, Part (binary .div a b) e ∧ b.valueAt? name v = some y ∧ (y == 0) = true := by
  rw [valueAt?, value?_eq_none_iff]
  constructor
  · rintro (⟨other, occurs⟩ | ⟨a, b, y, part, divisor, zero⟩)
    · exact absurd occurs (symbolFree_bind only other)
    · obtain ⟨a', b', inner, rfl, rfl⟩ := operation_of_part_bind part
      exact ⟨a', b', y, inner, divisor, zero⟩
  · rintro ⟨a, b, y, part, divisor, zero⟩
    exact .inr ⟨_, _, y, part.bind, divisor, zero⟩

end

end QuantumBoard.Expr

namespace QuantumBoard.Formula

/-- The formula that a cell accepts depends on the time at most. -/
theorem ofArgument_onlyTime {default : String} {argument : Option Json} {e : Expr}
    (h : ofArgument default argument = .ok e) : e.OnlyTime := by
  have accepted : ∃ text, ofText text = .ok e := by
    unfold ofArgument at h
    split at h
    · exact ⟨_, h⟩
    · exact ⟨_, h⟩
    · exact ⟨_, h⟩
    · cases h
  obtain ⟨text, accepted⟩ := accepted
  exact Expr.onlyTime_iff.mpr (folded_of_ofText accepted).symbols

end QuantumBoard.Formula

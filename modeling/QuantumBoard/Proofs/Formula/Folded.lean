import QuantumBoard.Formula.Argument

/-! # Accepted formulas

A formula is accepted folded: each of its parts either is a finite constant or depends on the
time. Folding an expression does not change its value, and what depends on a symbol has none. -/

namespace QuantumBoard.Expr

theorem value?_of_isSymbolic {e : Expr} (h : e.isSymbolic = true) : e.value? = none := by
  induction e with
  | constant v => cases h
  | pi => cases h
  | euler => cases h
  | symbol name => rfl
  | neg e ih => rw [value?, ih h, Option.map_none]
  | call f e ih => rw [value?, ih h, Option.map_none]
  | binary op a b iha ihb =>
    rw [isSymbolic, Bool.or_eq_true] at h
    rcases h with h | h
    · rw [value?, iha h]
      rfl
    · rw [value?, ihb h]
      cases a.value? <;> rfl

theorem isSymbolic_eq_symbols (e : Expr) : e.isSymbolic = !e.symbols.isEmpty := by
  induction e with
  | constant v | symbol name | pi | euler => rfl
  | neg e ih => exact ih
  | call f e ih => exact ih
  | binary op a b iha ihb =>
    rw [isSymbolic, iha, ihb, symbols]
    cases a.symbols <;> rfl

theorem simplify_of_value {e : Expr} {v : Float} (h : e.value? = some v) :
    e.simplify = constant v := by
  unfold simplify
  rw [h]

theorem simplify_neg {e : Expr} (h : e.value? = none) : (neg e).simplify = neg e.simplify := by
  rw [simplify, value?, h]
  rfl

theorem simplify_call {f : Elementary} {e : Expr} (h : e.value? = none) :
    (call f e).simplify = call f e.simplify := by
  rw [simplify, value?, h]
  rfl

theorem simplify_binary {op : BinaryOp} {a b : Expr} (h : (binary op a b).value? = none) :
    (binary op a b).simplify = binary op a.simplify b.simplify := by
  rw [simplify, h]

/-- What folding makes of an expression: the constant of its value, or the expression with its parts
folded, where it has none. -/
inductive Folds : Expr → Expr → Prop
  | constant {e : Expr} {v : Float} : e.value? = some v → Folds e (constant v)
  | symbol (name : String) : Folds (symbol name) (symbol name)
  | neg {e e' : Expr} : e.value? = none → Folds e e' → Folds (neg e) (neg e')
  | call {f : Elementary} {e e' : Expr} : e.value? = none → Folds e e' →
      Folds (call f e) (call f e')
  | binary {op : BinaryOp} {a a' b b' : Expr} : (binary op a b).value? = none → Folds a a' →
      Folds b b' → Folds (binary op a b) (binary op a' b')

theorem folds_of_value {e : Expr} {v : Float} (known : e.value? = some v) : Folds e e.simplify := by
  rw [simplify_of_value known]
  exact .constant known

theorem folds_simplify (e : Expr) : Folds e e.simplify := by
  induction e with
  | constant v | pi | euler => exact .constant rfl
  | symbol name => exact .symbol name
  | neg e ih =>
    cases known : e.value? with
    | some v => exact folds_of_value (v := -v) (by rw [value?, known]; rfl)
    | none =>
      rw [simplify_neg known]
      exact .neg known ih
  | call f e ih =>
    cases known : e.value? with
    | some v => exact folds_of_value (v := f.apply v) (by rw [value?, known]; rfl)
    | none =>
      rw [simplify_call known]
      exact .call known ih
  | binary op a b iha ihb =>
    cases known : (binary op a b).value? with
    | some v => exact folds_of_value known
    | none =>
      rw [simplify_binary known]
      exact .binary known iha ihb

theorem Folds.value? {e e' : Expr} (folds : Folds e e') : e'.value? = e.value? := by
  induction folds with
  | constant known => exact known.symm
  | symbol name => rfl
  | neg _ _ ih => rw [Expr.value?, Expr.value?, ih]
  | call _ _ ih => rw [Expr.value?, Expr.value?, ih]
  | binary _ _ _ iha ihb => rw [Expr.value?, Expr.value?, iha, ihb]

/-- Folding keeps the value. -/
theorem value?_simplify (e : Expr) : e.simplify.value? = e.value? := (folds_simplify e).value?

/-- Every part is a finite constant or depends on the time, and no divisor is zero. -/
inductive Folded : Expr → Prop
  | constant {v : Float} : v.isFinite = true → Folded (constant v)
  | time : Folded (symbol Formula.timeName)
  | neg {e : Expr} : Folded e → e.isSymbolic = true → Folded (neg e)
  | binary {op : BinaryOp} {a b : Expr} : Folded a → Folded b →
      (a.isSymbolic || b.isSymbolic) = true →
      (op = .div → b.value?.any (· == 0) = false) → Folded (binary op a b)
  | call {f : Elementary} {e : Expr} : Folded e → e.isSymbolic = true → Folded (call f e)

theorem Folded.symbols {e : Expr} (h : Folded e) : ∀ name ∈ e.symbols, name = Formula.timeName := by
  induction h with
  | constant _ => exact nofun
  | time => exact fun name mem => List.mem_singleton.mp mem
  | neg _ _ ih => exact ih
  | call _ _ ih => exact ih
  | binary _ _ _ _ iha ihb =>
    exact fun name mem => (List.mem_append.mp mem).elim (iha name) (ihb name)

theorem Folded.constant_or_symbolic {e : Expr} (h : Folded e) :
    (∃ v, e = .constant v ∧ v.isFinite = true) ∨ e.isSymbolic = true := by
  cases h with
  | @constant v finite => exact .inl ⟨v, rfl, finite⟩
  | time => exact .inr rfl
  | neg _ symbolic => exact .inr symbolic
  | binary _ _ symbolic _ => exact .inr symbolic
  | call _ symbolic => exact .inr symbolic

theorem Folded.isSymbolic_of_no_value {e : Expr} (h : Folded e) (none : e.value? = none) :
    e.isSymbolic = true := by
  rcases h.constant_or_symbolic with ⟨v, rfl, -⟩ | symbolic
  · cases none
  · exact symbolic

theorem constantsFinite_binary {op : BinaryOp} {a b : Expr} :
    Formula.constantsFinite (binary op a b) = true ↔
      Formula.constantsFinite a = true ∧ Formula.constantsFinite b = true ∧
        (op = .div → b.value?.any (· == 0) = false) := by
  cases op with
  | div =>
    simp only [Formula.constantsFinite, Bool.and_eq_true, Bool.not_eq_true', forall_const]
    exact ⟨fun h => ⟨h.1.2, h.2, h.1.1⟩, fun h => ⟨⟨h.2.2, h.1⟩, h.2.1⟩⟩
  | add | sub | mul | pow =>
    simp only [Formula.constantsFinite, Bool.and_eq_true]
    exact ⟨fun h => ⟨h.1, h.2, nofun⟩, fun h => ⟨h.1, h.2.1⟩⟩

/-- Only a division by zero takes the value from an operation on two values. -/
theorem result?_eq_none {op : BinaryOp} {x y : Float} (none : op.result? x y = .none) :
    op = .div ∧ (y == 0) = true := by
  cases op with
  | div =>
    by_cases zero : (y == 0) = true
    · exact ⟨rfl, zero⟩
    · rw [BinaryOp.result?, if_neg zero] at none
      cases none
  | add | sub | mul | pow => cases none

/-- An operation on folded parts that has no value depends on a symbol. -/
theorem isSymbolic_of_no_result {op : BinaryOp} {a b : Expr} (ha : Folded a) (hb : Folded b)
    (divisor : op = .div → b.value?.any (· == 0) = false)
    (none : (binary op a b).value? = none) : (a.isSymbolic || b.isSymbolic) = true := by
  rw [Bool.or_eq_true]
  cases left : a.value? with
  | none => exact .inl (ha.isSymbolic_of_no_value left)
  | some x =>
    cases right : b.value? with
    | none => exact .inr (hb.isSymbolic_of_no_value right)
    | some y =>
      rw [value?, left, right] at none
      obtain ⟨div, zero⟩ := result?_eq_none none
      have nonzero : (y == 0) = false := by
        rw [← divisor div, right, Option.any_some]
      rw [zero] at nonzero
      cases nonzero

theorem Folds.folded {e e' : Expr} (folds : Folds e e')
    (time : ∀ name ∈ e.symbols, name = Formula.timeName)
    (finite : Formula.constantsFinite e' = true) : Folded e' := by
  induction folds with
  | constant _ => exact .constant finite
  | symbol name =>
    rw [time name (List.mem_singleton_self name)]
    exact .time
  | neg none part ih =>
    have folded := ih time finite
    exact .neg folded (folded.isSymbolic_of_no_value (part.value?.trans none))
  | call none part ih =>
    have folded := ih time finite
    exact .call folded (folded.isSymbolic_of_no_value (part.value?.trans none))
  | binary none left right iha ihb =>
    have whole := (Folds.binary none left right).value?.trans none
    obtain ⟨finiteA, finiteB, divisor⟩ := constantsFinite_binary.mp finite
    have foldedA := iha (fun name mem => time name (List.mem_append_left _ mem)) finiteA
    have foldedB := ihb (fun name mem => time name (List.mem_append_right _ mem)) finiteB
    exact .binary foldedA foldedB (isSymbolic_of_no_result foldedA foldedB divisor whole) divisor

/-- Folding gives a folded expression, when no constant part is infinite or undefined. -/
theorem folded_simplify {e : Expr} (time : ∀ name ∈ e.symbols, name = Formula.timeName)
    (finite : Formula.constantsFinite e.simplify = true) : Folded e.simplify :=
  (folds_simplify e).folded time finite

end QuantumBoard.Expr

namespace QuantumBoard.Formula

theorem ofText_eq_ok {text : String} {e : Expr} :
    ofText text = .ok e ↔ ∃ read, parse (expandFractions text.toList) = .ok read ∧
      (∀ name ∈ read.symbols, name = timeName) ∧ constantsFinite read.simplify = true ∧
      read.simplify = e := by
  unfold ofText
  cases parse (expandFractions text.toList) with
  | error e => simp
  | ok read =>
    have other : read.symbols.any (· ≠ timeName) = true ↔
        ¬∀ name ∈ read.symbols, name = timeName := by simp
    simp only [other, Except.ok.injEq, exists_eq_left']
    by_cases time : ∀ name ∈ read.symbols, name = timeName
    · rw [if_neg (not_not_intro time)]
      by_cases finite : constantsFinite read.simplify = true
      · rw [if_pos finite, Except.ok.injEq]
        exact ⟨fun same => ⟨time, finite, same⟩, fun h => h.2.2⟩
      · rw [if_neg finite]
        exact ⟨nofun, fun h => absurd h.2.1 finite⟩
    · rw [if_pos time]
      exact ⟨nofun, fun h => absurd h.1 time⟩

/-- What is accepted is folded. -/
theorem folded_of_ofText {text : String} {e : Expr} (h : ofText text = .ok e) : e.Folded := by
  obtain ⟨read, -, time, finite, rfl⟩ := ofText_eq_ok.mp h
  exact Expr.folded_simplify time finite

end QuantumBoard.Formula

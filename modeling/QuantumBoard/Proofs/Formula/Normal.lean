import QuantumBoard.Proofs.Formula.Binding

/-! # Normal forms of expressions

Folding leads to a normal form: every part that has a value is a constant. Folding further changes
nothing there. Folding before a symbol is bound changes neither the value that binding gives nor
what folding makes of the bound expression, for a part folded early folds to the same constant late,
and a part that has no value yet is kept, with the zero divisors in it. -/

namespace QuantumBoard.Expr

/-! ## Normal forms -/

/-- Every part that has a value is a constant. -/
def Normal (e : Expr) : Prop := ∀ p v, Part p e → p.value? = some v → p = constant v

theorem Normal.part {p e : Expr} (part : Part p e) (normal : e.Normal) : p.Normal :=
  fun q v inner => normal q v (inner.trans part)

/-- What has a value in a normal form is a constant itself. -/
theorem Normal.value?_eq_none {e : Expr} (normal : e.Normal) (compound : ∀ v, e ≠ constant v) :
    e.value? = none := by
  cases known : e.value? with
  | none => rfl
  | some v => exact absurd (normal e v .whole known) (compound v)

theorem Folds.normal {e e' : Expr} (folds : Folds e e') : e'.Normal := by
  induction folds with
  | constant _ =>
    intro p v part known
    cases part with
    | whole => rw [Option.some.inj known]
  | symbol name =>
    intro p v part known
    cases part with
    | whole => cases known
  | neg none part ih =>
    intro p v inside known
    rcases part_neg.mp inside with rfl | inside
    · rw [Folds.value? (.neg none part), Expr.value?, none] at known
      cases known
    · exact ih p v inside known
  | call none part ih =>
    intro p v inside known
    rcases part_call.mp inside with rfl | inside
    · rw [Folds.value? (.call none part), Expr.value?, none] at known
      cases known
    · exact ih p v inside known
  | binary none left right iha ihb =>
    intro p v inside known
    rcases part_binary.mp inside with rfl | inside | inside
    · rw [Folds.value? (.binary none left right), none] at known
      cases known
    · exact iha p v inside known
    · exact ihb p v inside known

theorem normal_simplify (e : Expr) : e.simplify.Normal := (folds_simplify e).normal

/-- A normal form is folded no further. -/
theorem Normal.simplify_eq {e : Expr} (normal : e.Normal) : e.simplify = e := by
  induction e with
  | constant v => rfl
  | symbol name => rfl
  | pi => cases normal pi piValue .whole rfl
  | euler => cases normal euler eulerValue .whole rfl
  | neg e ih =>
    have none := normal.value?_eq_none nofun
    rw [simplify_neg (Option.map_eq_none_iff.mp none), ih (normal.part (.neg .whole))]
  | call f e ih =>
    have none := normal.value?_eq_none nofun
    rw [simplify_call (Option.map_eq_none_iff.mp none), ih (normal.part (.call .whole))]
  | binary op a b iha ihb =>
    rw [simplify_binary (normal.value?_eq_none nofun), iha (normal.part (.left .whole)),
      ihb (normal.part (.right .whole))]

theorem simplify_simplify (e : Expr) : e.simplify.simplify = e.simplify :=
  (normal_simplify e).simplify_eq

/-! ## Folding parts first -/

theorem value?_congr {a b : Expr} (same : a.simplify = b.simplify) : a.value? = b.value? := by
  rw [← value?_simplify a, same, value?_simplify]

/-- Folding a sign is taking the opposite of what is folded. -/
theorem simplify_neg_eq_negated (e : Expr) : (neg e).simplify = e.simplify.negated := by
  rw [negated, value?_simplify]
  cases known : e.value? with
  | none => exact simplify_neg known
  | some v => exact simplify_of_value (by rw [value?, known]; rfl)

theorem simplify_neg_congr {a b : Expr} (same : a.simplify = b.simplify) :
    (neg a).simplify = (neg b).simplify := by
  rw [simplify_neg_eq_negated, simplify_neg_eq_negated, same]

theorem simplify_call_congr {f : Elementary} {a b : Expr} (same : a.simplify = b.simplify) :
    (call f a).simplify = (call f b).simplify := by
  have values := value?_congr same
  cases known : a.value? with
  | none => rw [simplify_call known, simplify_call (values ▸ known), same]
  | some v =>
    rw [simplify_of_value (by rw [value?, known]; rfl),
      simplify_of_value (by rw [value?, ← values, known]; rfl)]

theorem simplify_binary_congr {op : BinaryOp} {a a' b b' : Expr} (left : a.simplify = a'.simplify)
    (right : b.simplify = b'.simplify) : (binary op a b).simplify = (binary op a' b').simplify := by
  have values : (binary op a b).value? = (binary op a' b').value? := by
    rw [value?, value?, value?_congr left, value?_congr right]
  cases known : (binary op a b).value? with
  | none => rw [simplify_binary known, simplify_binary (values ▸ known), left, right]
  | some v => rw [simplify_of_value known, simplify_of_value (values ▸ known)]

/-! ## Binding -/

section

variable {name : String} {v : Float}

theorem Folds.simplify_bind {e e' : Expr} (folds : Folds e e') :
    (e'.bind name v).simplify = (e.bind name v).simplify := by
  induction folds with
  | constant known =>
    rw [bind_of_value known, simplify_of_value known]
    rfl
  | symbol other => rfl
  | neg _ _ ih => exact simplify_neg_congr ih
  | call _ _ ih => exact simplify_call_congr ih
  | binary _ _ _ iha ihb => exact simplify_binary_congr iha ihb

/-- Folding before a symbol is bound does not show once the bound expression is folded. -/
theorem simplify_bind_simplify (e : Expr) :
    (e.simplify.bind name v).simplify = (e.bind name v).simplify :=
  (folds_simplify e).simplify_bind

theorem simplify_bind_bind (w : Float) (e : Expr) :
    ((e.bind name v).simplify.bind name w).simplify = (e.bind name v).simplify := by
  rw [simplify_bind_simplify, bind_bind]

theorem simplify_bind_comm {other : String} (differ : name ≠ other) (w : Float) (e : Expr) :
    ((e.bind name v).simplify.bind other w).simplify =
      ((e.bind other w).simplify.bind name v).simplify := by
  rw [simplify_bind_simplify, bind_comm differ, simplify_bind_simplify]

/-- The opposite may be taken before a symbol is bound or after. -/
theorem negated_simplify_bind (e : Expr) :
    (e.bind name v).simplify.negated = (e.negated.bind name v).simplify := by
  rw [← simplify_neg_eq_negated]
  cases known : e.value? with
  | none =>
    have kept : e.negated = neg e := by rw [negated, known]
    rw [kept, bind]
  | some w =>
    have folded : e.negated = constant (-w) := by rw [negated, known]
    rw [folded, bind_of_value known, simplify_of_value (by rw [value?, known]; rfl)]
    rfl

end

/-- Folding keeps the value under every binding of a symbol, and the symbols, and gives a normal
form; folding again changes nothing, and neither does it matter whether the expression is folded
before a symbol is bound when it is folded after. -/
theorem simplify_reaches_normal_form (e : Expr) (name : String) (v : Float) :
    e.simplify.valueAt? name v = e.valueAt? name v ∧
    e.simplify.symbols = e.symbols ∧
    e.simplify.Normal ∧
    e.simplify.simplify = e.simplify ∧
    (e.simplify.bind name v).simplify = (e.bind name v).simplify :=
  ⟨valueAt?_simplify e, symbols_simplify e, normal_simplify e, simplify_simplify e,
    simplify_bind_simplify e⟩

-- One part is folded at once, and a divisor becomes zero once the symbol is bound.
example :
    let e : Expr := .binary .div .time
      (.binary .sub (.symbol "u") (.binary .mul (.constant 2) (.constant 2)))
    e.simplify = .binary .div .time (.binary .sub (.symbol "u") (.constant 4)) ∧
      (e.bind "u" 4).simplify = .binary .div .time (.constant 0) := by
  decide +kernel

end QuantumBoard.Expr

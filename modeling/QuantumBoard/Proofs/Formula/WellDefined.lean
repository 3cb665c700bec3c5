import QuantumBoard.Proofs.Formula.Binding
import QuantumBoard.Proofs.Formula.Reread

/-! # Which formulas are accepted

A formula is accepted exactly when it is well-defined: it has no symbol besides the time, its
largest parts without symbols have finite values, and no divisor without symbols is zero. What is
accepted has finite constants for all parts without symbols, and at every time the value of the
formula as it was written. -/

namespace QuantumBoard.Expr

/-- A part without symbols that lies in no larger part without symbols. -/
inductive Exposed (p : Expr) : Expr → Prop
  | whole : p.SymbolFree → Exposed p p
  | neg {e : Expr} : ¬(neg e).SymbolFree → Exposed p e → Exposed p (neg e)
  | call {f : Elementary} {e : Expr} : ¬(call f e).SymbolFree → Exposed p e → Exposed p (call f e)
  | left {op : BinaryOp} {a b : Expr} : ¬(binary op a b).SymbolFree → Exposed p a →
      Exposed p (binary op a b)
  | right {op : BinaryOp} {a b : Expr} : ¬(binary op a b).SymbolFree → Exposed p b →
      Exposed p (binary op a b)

/-- The largest parts without symbols have finite values, and no divisor without symbols is
zero. -/
structure WellDefined (e : Expr) : Prop where
  finite : ∀ p, Exposed p e → ∃ v, p.value? = some v ∧ v.isFinite = true
  divisors : ∀ a b y, Part (binary .div a b) e → b.SymbolFree → b.value? = some y → (y == 0) = false

theorem exposed_of_symbolFree {p e : Expr} (free : e.SymbolFree) : Exposed p e ↔ p = e := by
  constructor
  · intro h
    cases h with
    | whole _ => rfl
    | neg symbolic _ | call symbolic _ | left symbolic _ | right symbolic _ =>
      exact absurd free symbolic
  · rintro rfl
    exact .whole free

theorem exposed_neg {p e : Expr} (symbolic : ¬(neg e).SymbolFree) :
    Exposed p (neg e) ↔ Exposed p e := by
  constructor
  · intro h
    cases h with
    | whole free => exact absurd free symbolic
    | neg _ h => exact h
  · exact .neg symbolic

theorem exposed_call {p e : Expr} {f : Elementary} (symbolic : ¬(call f e).SymbolFree) :
    Exposed p (call f e) ↔ Exposed p e := by
  constructor
  · intro h
    cases h with
    | whole free => exact absurd free symbolic
    | call _ h => exact h
  · exact .call symbolic

theorem exposed_binary {p a b : Expr} {op : BinaryOp} (symbolic : ¬(binary op a b).SymbolFree) :
    Exposed p (binary op a b) ↔ Exposed p a ∨ Exposed p b := by
  constructor
  · intro h
    cases h with
    | whole free => exact absurd free symbolic
    | left _ h => exact .inl h
    | right _ h => exact .inr h
  · exact fun h => h.elim (.left symbolic) (.right symbolic)

/-! ## Expressions without symbols -/

theorem wellDefined_of_value {e : Expr} {v : Float} (known : e.value? = some v) :
    WellDefined e ↔ v.isFinite = true := by
  have exposed := fun p => exposed_of_symbolFree (p := p) (symbolFree_of_value known)
  constructor
  · intro h
    obtain ⟨w, value, finite⟩ := h.finite e ((exposed e).mpr rfl)
    cases known.symm.trans value
    exact finite
  · intro finite
    refine ⟨fun p hp => ?_, fun a b y part _ divisor => ?_⟩
    · obtain rfl := (exposed p).mp hp
      exact ⟨v, known, finite⟩
    · obtain ⟨w, quotient⟩ := value?_of_part part known
      exact divisor_of_value quotient divisor

theorem constantsFinite_of_symbolFree {e : Expr} (free : e.SymbolFree) :
    Formula.constantsFinite e.simplify = true ↔ WellDefined e := by
  cases known : e.value? with
  | some v =>
    rw [simplify_of_value known, wellDefined_of_value known]
    rfl
  | none =>
    -- without a value there is a zero divisor, which folding leaves in place
    refine ⟨fun finite => ?_, fun h => ?_⟩
    · have folded := folded_simplify
        (fun name mem => absurd (mem_symbols.mp mem) (free name)) finite
      have symbolic := folded.isSymbolic_of_no_value (by rw [value?_simplify, known])
      rw [isSymbolic_simplify, symbolFree_iff.mp free] at symbolic
      cases symbolic
    · obtain ⟨v, value, -⟩ := h.finite e (.whole free)
      rw [known] at value
      cases value

/-! ## Expressions with symbols -/

theorem wellDefined_symbol (name : String) : WellDefined (symbol name) := by
  refine ⟨fun p h => ?_, fun a b y part => ?_⟩
  · cases h with
    | whole free => exact absurd Part.whole (free name)
  · cases part

/-- What stands in front of a single part leaves it as well-defined as it is. -/
theorem wellDefined_around {e whole : Expr} (exposed : ∀ p, Exposed p whole ↔ Exposed p e)
    (parts : ∀ a b, Part (binary .div a b) whole ↔ Part (binary .div a b) e) :
    WellDefined whole ↔ WellDefined e :=
  ⟨fun h => ⟨fun p hp => h.finite p ((exposed p).mpr hp),
    fun a b y part => h.divisors a b y ((parts a b).mpr part)⟩,
  fun h => ⟨fun p hp => h.finite p ((exposed p).mp hp),
    fun a b y part => h.divisors a b y ((parts a b).mp part)⟩⟩

theorem wellDefined_neg {e : Expr} (symbolic : ¬(neg e).SymbolFree) :
    WellDefined (neg e) ↔ WellDefined e :=
  wellDefined_around (fun _ => exposed_neg symbolic) fun a b => by
    rw [part_neg, or_iff_right (by simp)]

theorem wellDefined_call {f : Elementary} {e : Expr} (symbolic : ¬(call f e).SymbolFree) :
    WellDefined (call f e) ↔ WellDefined e :=
  wellDefined_around (fun _ => exposed_call symbolic) fun a b => by
    rw [part_call, or_iff_right (by simp)]

theorem any_zero_eq_false {value : Option Float} :
    value.any (· == 0) = false ↔ ∀ y, value = some y → (y == 0) = false := by
  cases value <;> simp

theorem wellDefined_binary {op : BinaryOp} {a b : Expr} (symbolic : ¬(binary op a b).SymbolFree) :
    WellDefined (binary op a b) ↔ WellDefined a ∧ WellDefined b ∧
      (op = .div → b.value?.any (· == 0) = false) := by
  constructor
  · intro h
    refine ⟨⟨fun p hp => h.finite p (.left symbolic hp),
      fun _ _ y part => h.divisors _ _ y (.left part)⟩,
      ⟨fun p hp => h.finite p (.right symbolic hp),
      fun _ _ y part => h.divisors _ _ y (.right part)⟩, ?_⟩
    rintro rfl
    exact any_zero_eq_false.mpr fun y value =>
      h.divisors a b y .whole (symbolFree_of_value value) value
  · rintro ⟨left, right, divisor⟩
    refine ⟨fun p hp => ?_, fun c d y part => ?_⟩
    · exact ((exposed_binary symbolic).mp hp).elim (left.finite p) (right.finite p)
    · rcases part_binary.mp part with same | part | part
      · cases same
        exact fun _ => any_zero_eq_false.mp (divisor rfl) y
      · exact left.divisors c d y part
      · exact right.divisors c d y part

theorem value?_of_not_symbolFree {e : Expr} (symbolic : ¬e.SymbolFree) : e.value? = none := by
  rw [symbolFree_iff, Bool.not_eq_false] at symbolic
  exact value?_of_isSymbolic symbolic

/-- The check of the folded expression tells whether the expression is well-defined. -/
theorem constantsFinite_simplify (e : Expr) :
    Formula.constantsFinite e.simplify = true ↔ WellDefined e := by
  induction e with
  | constant _ | pi | euler => exact constantsFinite_of_symbolFree (symbolFree_iff.mpr rfl)
  | symbol name => exact ⟨fun _ => wellDefined_symbol name, fun _ => rfl⟩
  | neg e ih =>
    by_cases free : (neg e).SymbolFree
    · exact constantsFinite_of_symbolFree free
    · rw [wellDefined_neg free, ← ih,
        simplify_neg (Option.map_eq_none_iff.mp (value?_of_not_symbolFree free))]
      rfl
  | call f e ih =>
    by_cases free : (call f e).SymbolFree
    · exact constantsFinite_of_symbolFree free
    · rw [wellDefined_call free, ← ih,
        simplify_call (Option.map_eq_none_iff.mp (value?_of_not_symbolFree free))]
      rfl
  | binary op a b iha ihb =>
    by_cases free : (binary op a b).SymbolFree
    · exact constantsFinite_of_symbolFree free
    · rw [wellDefined_binary free, ← iha, ← ihb, simplify_binary (value?_of_not_symbolFree free),
        constantsFinite_binary, value?_simplify]

/-! ## Accepted formulas -/

theorem Folded.part {p e : Expr} (part : Part p e) (h : Folded e) : Folded p := by
  induction part with
  | whole => exact h
  | neg _ ih =>
    cases h with
    | neg h _ => exact ih h
  | call _ ih =>
    cases h with
    | call h _ => exact ih h
  | left _ ih =>
    cases h with
    | binary h _ _ _ => exact ih h
  | right _ ih =>
    cases h with
    | binary _ h _ _ => exact ih h

theorem Folded.constant_of_symbolFree {e : Expr} (h : Folded e) (free : e.SymbolFree) :
    ∃ v, e = .constant v ∧ v.isFinite = true := by
  rcases h.constant_or_symbolic with constant | symbolic
  · exact constant
  · rw [symbolFree_iff.mp free] at symbolic
    cases symbolic

end QuantumBoard.Expr

namespace QuantumBoard.Formula

section

variable {text : String} {e : Expr} (parsed : parse (expandFractions text.toList) = .ok e)

include parsed

theorem ofText_of_other (other : ¬e.OnlyTime) : ofText text = .error (.otherVariable text) := by
  have any : e.symbols.any (· ≠ timeName) = true := by
    rw [Expr.onlyTime_iff] at other
    simpa using other
  unfold ofText
  rw [parsed]
  exact if_pos any

theorem ofText_of_onlyTime (time : e.OnlyTime) :
    ofText text = if constantsFinite e.simplify then .ok e.simplify
      else .error (.malformed text .notFinite) := by
  have none : ¬e.symbols.any (· ≠ timeName) = true := by
    rw [Expr.onlyTime_iff] at time
    simpa using time
  unfold ofText
  rw [parsed]
  exact if_neg none

theorem ofText_of_wellDefined (time : e.OnlyTime) (h : e.WellDefined) :
    ofText text = .ok e.simplify := by
  rw [ofText_of_onlyTime parsed time, if_pos ((Expr.constantsFinite_simplify e).mpr h)]

theorem ofText_of_not_wellDefined (time : e.OnlyTime) (h : ¬e.WellDefined) :
    ofText text = .error (.malformed text .notFinite) := by
  rw [ofText_of_onlyTime parsed time, if_neg (mt (Expr.constantsFinite_simplify e).mp h)]

/-- A formula is refused for a symbol besides the time, and else accepted exactly when it is
well-defined. What is accepted has finite constants for all parts without symbols, and the value of
the formula at every time. -/
theorem ofText_iff_wellDefined :
    (ofText text = .error (.otherVariable text) ↔
      ∃ name, (Expr.symbol name).Part e ∧ name ≠ timeName) ∧
    ((∃ e', ofText text = .ok e') ↔ e.OnlyTime ∧ e.WellDefined) ∧
    (ofText text = .error (.malformed text .notFinite) ↔ e.OnlyTime ∧ ¬e.WellDefined) ∧
    ∀ e', ofText text = .ok e' →
      (∀ p : Expr, p.Part e' → p.SymbolFree → ∃ v, p = .constant v ∧ v.isFinite = true) ∧
      (e.SymbolFree → ∃ v, e' = .constant v ∧ v.isFinite = true) ∧
      ∀ v, e'.valueAt? timeName v = e.valueAt? timeName v := by
  have other : (∃ name, (Expr.symbol name).Part e ∧ name ≠ timeName) ↔ ¬e.OnlyTime := by
    simp only [Expr.OnlyTime, not_forall, exists_prop, ne_eq]
  rw [other]
  refine ⟨?_, ?_, ?_, fun e' accepted => ?_⟩
  · refine ⟨fun refused time => ?_, ofText_of_other parsed⟩
    rw [ofText_of_onlyTime parsed time] at refused
    split at refused <;> cases refused
  · refine ⟨fun h => ?_, fun h => ⟨_, ofText_of_wellDefined parsed h.1 h.2⟩⟩
    obtain ⟨e', accepted⟩ := h
    have time : e.OnlyTime := by
      by_contra other
      cases (ofText_of_other parsed other).symm.trans accepted
    refine ⟨time, ?_⟩
    by_contra undefined
    cases (ofText_of_not_wellDefined parsed time undefined).symm.trans accepted
  · refine ⟨fun refused => ?_, fun h => ofText_of_not_wellDefined parsed h.1 h.2⟩
    have time : e.OnlyTime := by
      by_contra other
      cases (ofText_of_other parsed other).symm.trans refused
    refine ⟨time, fun h => ?_⟩
    cases (ofText_of_wellDefined parsed time h).symm.trans refused
  · have folded := folded_of_ofText accepted
    obtain ⟨read, again, -, -, rfl⟩ := ofText_eq_ok.mp accepted
    cases parsed.symm.trans again
    refine ⟨fun p part free => (folded.part part).constant_of_symbolFree free,
      fun free => folded.constant_of_symbolFree free.simplify, fun v => Expr.valueAt?_simplify e⟩

end

/-- `t/(3-1)` is accepted and has value 2 at time 4, and `t/(1-1)` is refused. -/
theorem ofText_iff_wellDefined_quotients :
    (∃ e', ofText "t/(3-1)" = .ok e' ∧ e'.valueAt? timeName 4 = some 2) ∧
      ofText "t/(1-1)" = .error (.malformed "t/(1-1)" .notFinite) := by
  have quotient (x y : Float) : Derives .sum
      [.name "t", .slash, .openParen, .number x, .minus, .number y, .closeParen]
      (.binary .div .time (.binary .sub (.constant x) (.constant y))) :=
    .product (.div (.signed (.primary (.symbol (by decide))))
      (.primary (.bracket (.sub (.product (.signed (.primary (.number x))))
        (.signed (.primary (.number y)))))))
  have two : parse (expandFractions "t/(3-1)".toList) = .ok _ := Expr.parse_of_derives (by decide)
    (Success.toOption_eq_some.mp (by decide +kernel)) (quotient 3 1)
  have zero : parse (expandFractions "t/(1-1)".toList) = .ok _ := Expr.parse_of_derives (by decide)
    (Success.toOption_eq_some.mp (by decide +kernel)) (quotient 1 1)
  constructor
  · obtain ⟨-, accepts, -, meaning⟩ := ofText_iff_wellDefined two
    obtain ⟨e', accepted⟩ := accepts.mpr
      ⟨Expr.onlyTime_iff.mpr (by decide), (Expr.constantsFinite_simplify _).mp (by decide +kernel)⟩
    refine ⟨e', accepted, ?_⟩
    rw [(meaning e' accepted).2.2 4]
    decide +kernel
  · obtain ⟨-, -, refuses, -⟩ := ofText_iff_wellDefined zero
    refine refuses.mpr ⟨Expr.onlyTime_iff.mpr (by decide), fun h => ?_⟩
    have divisor := h.divisors _ _ 0 .whole (Expr.symbolFree_iff.mpr rfl) (by decide +kernel)
    exact absurd divisor (by decide +kernel)

/-! ## Times at which a formula has no value -/

/-- An expression has no value exactly when a symbol occurs in it or a division by zero. It is
symbolic exactly when it has symbols, which are those that occur in it, and binding one leaves the
others. So an accepted formula, folded or as it was written, has no value at a time exactly when a
divisor in it is zero at that time. -/
theorem undefined_iff_zero_divisor (e : Expr) (name : String) (v : Float) :
    (e.value? = none ↔ (∃ s, (Expr.symbol s).Part e) ∨
      ∃ a b y, (Expr.binary .div a b).Part e ∧ b.value? = some y ∧ (y == 0) = true) ∧
    (e.isSymbolic = true ↔ e.symbols ≠ []) ∧
    (∀ s, s ∈ e.symbols ↔ (Expr.symbol s).Part e) ∧
    (∀ s, s ∈ (e.bind name v).symbols ↔ s ∈ e.symbols ∧ s ≠ name) ∧
    ∀ text, ofText text = .ok e →
      ∃ read, parse (expandFractions text.toList) = .ok read ∧ ∀ f ∈ [e, read],
        (e.valueAt? timeName v = none ↔ ∃ a b y, (Expr.binary .div a b).Part f ∧
          b.valueAt? timeName v = some y ∧ (y == 0) = true) := by
  refine ⟨Expr.value?_eq_none_iff, ?_, fun s => Expr.mem_symbols, fun s => ?_, ?_⟩
  · rw [Expr.isSymbolic_eq_symbols, Bool.not_eq_true', List.isEmpty_eq_false_iff]
  · rw [Expr.symbols_bind, List.mem_filter, decide_eq_true_iff]
  · intro text accepted
    have folded := folded_of_ofText accepted
    obtain ⟨read, parsed, time, -, rfl⟩ := ofText_eq_ok.mp accepted
    refine ⟨read, parsed, fun f hf => ?_⟩
    rcases List.mem_pair.mp hf with rfl | rfl
    · exact Expr.valueAt?_eq_none_iff folded.symbols
    · rw [Expr.valueAt?_simplify]
      exact Expr.valueAt?_eq_none_iff time

/-- `(3-1)/(2-t)` has no value at time 2, where its divisor is zero, and the value 2 at time 1. -/
theorem undefined_iff_zero_divisor_quotient :
    ∃ e, ofText "(3-1)/(2-t)" = .ok e ∧ e.valueAt? timeName 2 = none ∧
      e.valueAt? timeName 1 = some 2 := by
  have derived : Derives .sum
      [.openParen, .number 3, .minus, .number 1, .closeParen, .slash,
        .openParen, .number 2, .minus, .name "t", .closeParen]
      (.binary .div (.binary .sub (.constant 3) (.constant 1))
        (.binary .sub (.constant 2) .time)) :=
    .product (.div
      (.signed (.primary (.bracket (.sub (.product (.signed (.primary (.number 3))))
        (.signed (.primary (.number 1)))))))
      (.primary (.bracket (.sub (.product (.signed (.primary (.number 2))))
        (.signed (.primary (.symbol (by decide))))))))
  have parsed : parse (expandFractions "(3-1)/(2-t)".toList) = .ok _ :=
    Expr.parse_of_derives (by decide) (Success.toOption_eq_some.mp (by decide +kernel)) derived
  have accepted := ofText_of_wellDefined parsed (Expr.onlyTime_iff.mpr (by decide))
    ((Expr.constantsFinite_simplify _).mp (by decide +kernel))
  refine ⟨_, accepted, ?_, by rw [Expr.valueAt?_simplify]; decide +kernel⟩
  obtain ⟨-, -, -, -, formulas⟩ := undefined_iff_zero_divisor _ timeName 2
  obtain ⟨read, again, undefined⟩ := formulas _ accepted
  cases parsed.symm.trans again
  exact (undefined _ (List.mem_pair.mpr (.inr rfl))).mpr
    ⟨_, _, 0, .whole, by decide +kernel, by decide +kernel⟩

end QuantumBoard.Formula

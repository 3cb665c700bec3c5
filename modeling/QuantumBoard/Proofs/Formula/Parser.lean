import QuantumBoard.Proofs.Formula.Grammar
import QuantumBoard.Proofs.Formula.Reading

/-! # The parser reads the grammar

The parser climbs precedences. A derivation of a category is read back whenever no operator
follows that the category could take along, and what the parser has read on its left is always
of a category that the next operator can follow. So parser and grammar agree on every list
of tokens. -/

namespace QuantumBoard.Formula

open Success

/-! ## Derivations are read -/

/-- No operator of the precedence or of a higher one comes next. -/
def NoOperator (level : Nat) (ts : List Token) : Prop :=
  ∀ token ∈ ts.head?, ∀ op ∈ operator? token, precedence op < level

/-- What comes next neither continues a category nor makes a call of a name. -/
def Stops (level : Nat) (ts : List Token) : Prop :=
  NoOperator level ts ∧ ts.head? ≠ some .openParen

theorem NoOperator.mono {level level' : Nat} {ts : List Token} (h : NoOperator level ts)
    (le : level ≤ level') : NoOperator level' ts :=
  fun token ht op hop => Nat.lt_of_lt_of_le (h token ht op hop) le

theorem Stops.mono {level level' : Nat} {ts : List Token} (h : Stops level ts)
    (le : level ≤ level') : Stops level' ts := ⟨h.1.mono le, h.2⟩

/-- No operator has the precedence of a sign. -/
theorem NoOperator.below_sign {ts : List Token} (h : NoOperator 4 ts) : NoOperator 3 ts := by
  intro token ht op hop
  have := h token ht op hop
  cases op <;> simp_all [precedence]

theorem stops_operator {token : Token} {op : BinaryOp} (h : operator? token = some op)
    {level : Nat} (lt : precedence op < level) (ts : List Token) : Stops level (token :: ts) := by
  refine ⟨fun t ht op' hop => ?_, fun bracket => ?_⟩
  · obtain rfl := Option.some.inj ht
    rw [Option.mem_def, h, Option.some.injEq] at hop
    exact hop ▸ lt
  · obtain rfl := Option.some.inj bracket
    cases h

theorem stops_closeParen (level : Nat) (ts : List Token) : Stops level (.closeParen :: ts) := by
  refine ⟨fun token ht op hop => ?_, by simp⟩
  obtain rfl := Option.some.inj ht
  cases hop

theorem stops_nil (level : Nat) : Stops level [] := ⟨nofun, nofun⟩

/-- The parser leaves operators of lower precedence alone. -/
theorem readOperators_of_noOperator {minimum : Nat} {ts : List Token}
    (h : NoOperator minimum ts) (left : Expr) : readOperators minimum left ts = .ok (left, ts) := by
  match ts with
  | [] => exact readOperators_nil minimum left
  | token :: ts =>
    rw [readOperators_cons]
    match hop : operator? token with
    | none => rfl
    | some op => exact if_pos (h token rfl op hop)

/-- An operator that the parser takes along, and the operand on its right. -/
theorem readOperators_step {minimum : Nat} {token : Token} {op : BinaryOp}
    (h : operator? token = some op) (le : minimum ≤ precedence op) {left right : Expr}
    {ts rest : List Token} (read : readFrom (rightMinimum op) ts = .ok (right, rest)) :
    readOperators minimum left (token :: ts) =
      readOperators minimum (.binary op left right) rest := by
  rw [readOperators_cons, h]
  simp only
  rw [if_neg (by omega), read]
  rfl

theorem readFrom_of_readOperand {minimum : Nat} {e : Expr} {ts rest : List Token}
    (h : readOperand ts = .ok (e, rest)) : readFrom minimum ts = readOperators minimum e rest := by
  rw [readFrom_eq, h]
  rfl

/-- An operator makes a result of operands of these categories: it is taken along under every
minimum of the result, can follow the left operand, and is not taken along by the right one. -/
def Joins (op : BinaryOp) (result left right : Category) : Prop :=
  result.ceiling ≤ left.ceiling ∧ result.ceiling ≤ precedence op ∧ precedence op < left.stop ∧
    rightMinimum op ≤ right.ceiling ∧ result.stop ≤ right.stop ∧ result.stop ≤ rightMinimum op

instance (op : BinaryOp) (result left right : Category) : Decidable (Joins op result left right) :=
  inferInstanceAs (Decidable (_ ∧ _))

/-- Tokens that the parser reads as an expression of the category, whatever stops it behind. -/
def ReadBack (category : Category) (ts : List Token) (e : Expr) : Prop :=
  ∀ minimum ≤ category.ceiling, ∀ rest, Stops category.stop rest →
    readFrom minimum (ts ++ rest) = readOperators minimum e rest

namespace ReadBack

variable {ts us : List Token} {a b e : Expr}

theorem weaken {category other : Category} (h : ReadBack category ts e)
    (low : other.ceiling ≤ category.ceiling) (stop : other.stop ≤ category.stop) :
    ReadBack other ts e :=
  fun minimum le rest stops => h minimum (Nat.le_trans le low) rest (stops.mono stop)

theorem operand (h : ReadBack .signed ts e) {rest : List Token} (stops : Stops 4 rest) :
    readFrom unaryPrecedence (ts ++ rest) = .ok (e, rest) := by
  rw [h unaryPrecedence (by decide) rest stops]
  exact readOperators_of_noOperator stops.1.below_sign e

theorem enclosed (h : ReadBack .sum ts e) (rest : List Token) :
    readFrom 0 (ts ++ [.closeParen] ++ rest) = .ok (e, .closeParen :: rest) := by
  rw [List.append_assoc]
  show readFrom 0 (ts ++ .closeParen :: rest) = _
  rw [h 0 (by decide) _ (stops_closeParen 2 rest)]
  exact readOperators_of_noOperator (stops_closeParen 0 rest).1 e

theorem of_readOperand {category : Category}
    (h : ∀ rest, Stops category.stop rest → readOperand (ts ++ rest) = .ok (e, rest)) :
    ReadBack category ts e := fun _ _ rest stops => readFrom_of_readOperand (h rest stops)

theorem infixed {result left right : Category} {token : Token} {op : BinaryOp}
    (hop : operator? token = some op) (joins : Joins op result left right)
    (ha : ReadBack left ts a) (hb : ReadBack right us b) :
    ReadBack result (ts ++ token :: us) (.binary op a b) := by
  obtain ⟨low, taken, follows, fit, stop, behind⟩ := joins
  intro minimum le rest stops
  rw [List.append_assoc, List.cons_append,
    ha minimum (Nat.le_trans le low) _ (stops_operator hop follows _)]
  refine readOperators_step hop (Nat.le_trans le taken) ?_
  rw [hb (rightMinimum op) fit rest (stops.mono stop)]
  exact readOperators_of_noOperator (stops.1.mono behind) b

end ReadBack

/-- What derives from a category is read back. -/
theorem readBack_of_derives {category : Category} {ts : List Token} {e : Expr}
    (h : Derives category ts e) : ReadBack category ts e := by
  induction h with
  | product _ ih => exact ih.weaken (by decide) (by decide)
  | signed _ ih => exact ih.weaken (by decide) (by decide)
  | primary _ ih => exact ih.weaken (by decide) (by decide)
  | add _ _ left right => exact .infixed rfl (by decide) left right
  | sub _ _ left right => exact .infixed rfl (by decide) left right
  | mul _ _ left right => exact .infixed rfl (by decide) left right
  | div _ _ left right => exact .infixed rfl (by decide) left right
  | caret _ _ left right => exact .infixed rfl (by decide) left right
  | power _ _ left right => exact .infixed rfl (by decide) left right
  | neg _ ih =>
    refine .of_readOperand fun rest stops => ?_
    rw [List.cons_append, readOperand_minus, ih.operand stops]
    rfl
  | plus _ ih =>
    refine .of_readOperand fun rest stops => ?_
    rw [List.cons_append, readOperand_plus, ih.operand stops]
    rfl
  | root _ ih =>
    refine .of_readOperand fun rest stops => ?_
    rw [List.cons_append, readOperand_root, ih.operand stops]
    rfl
  | number v => exact .of_readOperand fun rest _ => readOperand_number v rest
  | pi => exact .of_readOperand fun rest _ => readOperand_pi rest
  | bracket _ ih =>
    refine .of_readOperand fun rest _ => ?_
    rw [List.cons_append, List.cons_append, readOperand_openParen, ih.enclosed]
    rfl
  | call known _ ih =>
    refine .of_readOperand fun rest _ => ?_
    rw [List.cons_append, List.cons_append, List.cons_append, List.cons_append, readOperand_call,
      known]
    simp only
    rw [ih.enclosed]
    rfl
  | namedPi => exact .of_readOperand fun rest stops => readOperand_name stops.2
  | namedEuler => exact .of_readOperand fun rest stops => readOperand_name stops.2
  | namedTau => exact .of_readOperand fun rest stops => readOperand_name stops.2
  | @symbol name other =>
    refine .of_readOperand fun rest stops => (readOperand_name stops.2).trans ?_
    rw [named_of_not_mem other]

/-! ## What is read derives -/

/-- The category that the parser reads under a minimum. -/
def categoryFrom (minimum : Nat) : Category :=
  if minimum ≤ 1 then .sum else if minimum = 2 then .product else .signed

theorem categoryFrom_stop_le (minimum : Nat) : (categoryFrom minimum).stop ≤ 4 := by
  unfold categoryFrom
  split
  · decide
  · split <;> decide

/-- An operator between what it can follow and what is read on its right. -/
theorem Derives.infixed {left : Category} {token : Token} {op : BinaryOp} {ts us : List Token}
    {a b : Expr} (hop : operator? token = some op) (ha : Derives left ts a)
    (follows : precedence op < left.stop) (hb : Derives (categoryFrom (rightMinimum op)) us b) :
    ∃ result, Derives result (ts ++ token :: us) (.binary op a b) ∧
      result.stop = rightMinimum op ∧
      ∀ minimum ≤ precedence op, (categoryFrom minimum).stop ≤ result.stop := by
  have sums : ∀ minimum ≤ 1, (categoryFrom minimum).stop ≤ 2 := by
    intro minimum le
    rw [categoryFrom, if_pos le]
    decide
  have products : ∀ minimum ≤ 2, (categoryFrom minimum).stop ≤ 3 := by
    intro minimum le
    by_cases low : minimum ≤ 1
    · exact Nat.le_succ_of_le (sums minimum low)
    · rw [categoryFrom, if_neg low, if_pos (by omega)]
      decide
  cases token <;> cases hop
  case plus => exact ⟨.sum, .add (ha.weaken follows) hb, rfl, sums⟩
  case minus => exact ⟨.sum, .sub (ha.weaken follows) hb, rfl, sums⟩
  case star => exact ⟨.product, .mul (ha.weaken follows) hb, rfl, products⟩
  case slash => exact ⟨.product, .div (ha.weaken follows) hb, rfl, products⟩
  case caret =>
    exact ⟨.signed, .caret (ha.weaken follows) hb, rfl,
      fun minimum _ => categoryFrom_stop_le minimum⟩
  case power =>
    exact ⟨.signed, .power (ha.weaken follows) hb, rfl,
      fun minimum _ => categoryFrom_stop_le minimum⟩

/-- A result of the parser is a derivation in front of the rest, which no operator begins that
the parser would have taken along. -/
def FromGrammar (ts : List Token) : Prop :=
  ∀ minimum e rest, readFrom minimum ts = .ok (e, rest) →
    ∃ used, ts = used ++ rest ∧ Derives (categoryFrom minimum) used e ∧ NoOperator minimum rest

/-- The operators of an expression, with what was read on their left as the invariant: it is of
a category that the next operator can follow. -/
theorem derives_of_readOperators {bound : Nat} (ih : ∀ ts, ts.length < bound → FromGrammar ts)
    {minimum : Nat} {left e : Expr} {read ts rest : List Token} {category : Category}
    (fit : ts.length ≤ bound) (h : readOperators minimum left ts = .ok (e, rest))
    (derives : Derives category read left) (follows : NoOperator category.stop ts)
    (strong : (categoryFrom minimum).stop ≤ category.stop) :
    ∃ used, read ++ ts = used ++ rest ∧ Derives (categoryFrom minimum) used e ∧
      NoOperator minimum rest := by
  match ts with
  | [] =>
    rw [readOperators_nil] at h
    cases h
    exact ⟨read, rfl, derives.weaken strong, nofun⟩
  | token :: ts =>
    rw [readOperators_cons] at h
    match hop : operator? token with
    | none =>
      rw [hop] at h
      cases h
      refine ⟨read, rfl, derives.weaken strong, fun t ht op hop' => ?_⟩
      obtain rfl := Option.some.inj ht
      rw [hop] at hop'
      cases hop'
    | some op =>
      rw [hop] at h
      simp only at h
      split at h
      · rename_i low
        cases h
        refine ⟨read, rfl, derives.weaken strong, fun t ht op' hop' => ?_⟩
        obtain rfl := Option.some.inj ht
        rw [Option.mem_def, hop, Option.some.injEq] at hop'
        exact hop' ▸ low
      · rename_i high
        obtain ⟨⟨right, rest'⟩, hright, h⟩ := bind_eq_ok.mp h
        have continued : readOperators minimum (.binary op left right) rest' = .ok (e, rest) := h
        rw [List.length_cons] at fit
        obtain ⟨us, rfl, hus, none⟩ := ih ts (by omega) _ _ _ hright
        obtain ⟨result, joined, stop, reach⟩ :=
          Derives.infixed hop derives (follows token rfl op hop) hus
        rw [List.length_append] at fit
        obtain ⟨used, split, hused, done⟩ := derives_of_readOperators ih (by omega) continued joined
          (stop ▸ none) (reach minimum (by omega))
        exact ⟨used, by rw [← split]; simp, hused, done⟩
termination_by ts.length

theorem noOperator_five (ts : List Token) : NoOperator 5 ts := by
  intro token _ op _
  cases op <;> decide

section

variable {bound : Nat} (ih : ∀ ts, ts.length < bound → FromGrammar ts)

include ih

theorem derives_of_sign {ts rest : List Token} {e : Expr} (shorter : ts.length < bound)
    (h : readFrom unaryPrecedence ts = .ok (e, rest)) :
    ∃ used, ts = used ++ rest ∧ Derives .signed used e ∧ NoOperator 4 rest := by
  obtain ⟨used, split, derives, none⟩ := ih ts shorter _ _ _ h
  exact ⟨used, split, derives, none.mono (by decide)⟩

theorem derives_of_enclosed {ts rest after : List Token} {e : Expr} (shorter : ts.length < bound)
    (h : readFrom 0 ts = .ok (e, rest)) (closed : readClose rest = .ok after) :
    ∃ used, ts = used ++ .closeParen :: after ∧ Derives .sum used e := by
  obtain ⟨used, split, derives, -⟩ := ih ts shorter _ _ _ h
  rw [readClose_eq_ok.mp closed] at split
  exact ⟨used, split, derives⟩

end

/-- One operand is a primary, or a signed operand that has taken every power along. -/
theorem derives_of_readOperand {ts : List Token} (ih : ∀ us, us.length < ts.length → FromGrammar us)
    {e : Expr} {rest : List Token} (h : readOperand ts = .ok (e, rest)) :
    ∃ category used, ts = used ++ rest ∧ Derives category used e ∧ 4 ≤ category.stop ∧
      NoOperator category.stop rest := by
  cases ts with
  | nil =>
    rw [readOperand_nil] at h
    cases h
  | cons token us =>
    cases token with
    | minus =>
      rw [readOperand_minus] at h
      obtain ⟨⟨a, after⟩, ha, h⟩ := bind_eq_ok.mp h
      cases h
      obtain ⟨used, rfl, derives, none⟩ := derives_of_sign ih (Nat.lt_succ_self _) ha
      exact ⟨.signed, .minus :: used, rfl, .neg derives, by decide, none⟩
    | plus =>
      rw [readOperand_plus] at h
      obtain ⟨⟨a, after⟩, ha, h⟩ := bind_eq_ok.mp h
      cases h
      obtain ⟨used, rfl, derives, none⟩ := derives_of_sign ih (Nat.lt_succ_self _) ha
      exact ⟨.signed, .plus :: used, rfl, .plus derives, by decide, none⟩
    | root =>
      rw [readOperand_root] at h
      obtain ⟨⟨a, after⟩, ha, h⟩ := bind_eq_ok.mp h
      cases h
      obtain ⟨used, rfl, derives, none⟩ := derives_of_sign ih (Nat.lt_succ_self _) ha
      exact ⟨.signed, .root :: used, rfl, .root derives, by decide, none⟩
    | number v =>
      rw [readOperand_number] at h
      cases h
      exact ⟨.primary, _, rfl, .number v, by decide, noOperator_five _⟩
    | pi =>
      rw [readOperand_pi] at h
      cases h
      exact ⟨.primary, _, rfl, .pi, by decide, noOperator_five _⟩
    | openParen =>
      rw [readOperand_openParen] at h
      obtain ⟨⟨a, rest'⟩, ha, h⟩ := bind_eq_ok.mp h
      obtain ⟨after, closed, h⟩ := bind_eq_ok.mp h
      cases h
      obtain ⟨used, rfl, derives⟩ := derives_of_enclosed ih (Nat.lt_succ_self _) ha closed
      exact ⟨.primary, .openParen :: used ++ [.closeParen], by simp, .bracket derives,
        by decide, noOperator_five _⟩
    | name name =>
      by_cases bare : us.head? = some .openParen
      · obtain ⟨us, rfl⟩ := List.head?_eq_some_iff.mp bare
        rw [readOperand_call] at h
        match known : Elementary.ofName? name with
        | none =>
          rw [known] at h
          cases h
        | some f =>
          rw [known] at h
          obtain ⟨⟨a, rest'⟩, ha, h⟩ := bind_eq_ok.mp h
          obtain ⟨after, closed, h⟩ := bind_eq_ok.mp h
          cases h
          obtain ⟨used, rfl, derives⟩ :=
            derives_of_enclosed ih (Nat.lt_succ_of_lt (Nat.lt_succ_self _)) ha closed
          exact ⟨.primary, .name name :: .openParen :: used ++ [.closeParen], by simp,
            .call known derives, by decide, noOperator_five _⟩
      · rw [readOperand_name bare] at h
        cases h
        exact ⟨.primary, _, rfl, derives_named name, by decide, noOperator_five _⟩
    | star | slash | caret | power | closeParen =>
      rw [readOperand_unexpected (by simp)] at h
      cases h

/-- Whatever the parser reads derives from the grammar. -/
theorem fromGrammar (ts : List Token) : FromGrammar ts := by
  intro minimum e rest h
  have ih : ∀ us, us.length < ts.length → FromGrammar us := fun us _ => fromGrammar us
  rw [readFrom_eq] at h
  obtain ⟨⟨left, after⟩, operand, h⟩ := bind_eq_ok.mp h
  have continued : readOperators minimum left after = .ok (e, rest) := h
  obtain ⟨category, read, rfl, derives, strong, follows⟩ := derives_of_readOperand ih operand
  exact derives_of_readOperators ih (by simp) continued derives follows
    (Nat.le_trans (categoryFrom_stop_le minimum) strong)
termination_by ts.length

theorem parseTokens_eq_ok {ts : List Token} {e : Expr} :
    parseTokens ts = .ok e ↔ readFrom 0 ts = .ok (e, []) := by
  rw [parseTokens, readFrom]
  rcases parseFrom 0 ts with _ | ⟨e', _ | ⟨token, rest⟩, h⟩
  · simp
  · simp [bind, Except.bind, pure, Except.pure, Functor.map, Except.map]
  · simp [bind, Except.bind, throw, throwThe, MonadExceptOf.throw, Functor.map, Except.map]

theorem parseTokens_of_derives {ts : List Token} {e : Expr} (h : Derives .sum ts e) :
    parseTokens ts = .ok e := by
  have read := readBack_of_derives h 0 (by decide) [] (stops_nil _)
  rw [List.append_nil] at read
  rw [parseTokens_eq_ok, read, readOperators_nil]

theorem derives_of_parseTokens {ts : List Token} {e : Expr} (h : parseTokens ts = .ok e) :
    Derives .sum ts e := by
  obtain ⟨used, rfl, derives, -⟩ := fromGrammar ts 0 e [] (parseTokens_eq_ok.mp h)
  rw [List.append_nil]
  exact derives

/-- The parser accepts exactly the grammar: with an expression what derives to it, and nothing
else. Operands never stand side by side; powers group to the right, take the operand of
a sign in front of them, and have room for a sign in the exponent. -/
theorem parseTokens_iff_derives :
    (∀ ts e, parseTokens ts = .ok e ↔ Derives .sum ts e) ∧
    (∀ ts, (∀ e, ¬Derives .sum ts e) → ∃ error, parseTokens ts = .error error) ∧
    (∀ ts e, parseTokens ts = .ok e → ts.IsChain MayFollow) ∧
    ∀ ps qs rs a b c, Derives .primary ps a → Derives .primary qs b → Derives .signed rs c →
      parseTokens (ps ++ .caret :: (qs ++ .caret :: rs)) =
        .ok (.binary .pow a (.binary .pow b c)) ∧
      parseTokens (.minus :: (ps ++ .caret :: rs)) = .ok (.neg (.binary .pow a c)) ∧
      parseTokens (ps ++ .caret :: .minus :: rs) = .ok (.binary .pow a (.neg c)) := by
  refine ⟨fun ts e => ⟨derives_of_parseTokens, parseTokens_of_derives⟩, fun ts none => ?_,
    fun ts e h => (derives_of_parseTokens h).isChain, fun ps qs rs a b c ha hb hc => ⟨?_, ?_, ?_⟩⟩
  · match h : parseTokens ts with
    | .error error => exact ⟨error, rfl⟩
    | .ok e => exact absurd (derives_of_parseTokens h) (none e)
  · exact parseTokens_of_derives (.product (.signed (.caret ha (.caret hb hc))))
  · exact parseTokens_of_derives (.product (.signed (.neg (.caret ha hc))))
  · exact parseTokens_of_derives (.product (.signed (.caret ha (.neg hc))))

/-- The minus sign in front takes the whole tower of powers, the one in the exponent its own. -/
theorem parseTokens_signedPowers :
    parseTokens [.minus, .name "t", .caret, .number 2] =
        .ok (.neg (.binary .pow (.symbol "t") (.constant 2))) ∧
      parseTokens [.name "t", .caret, .minus, .number 2] =
        .ok (.binary .pow (.symbol "t") (.neg (.constant 2))) ∧
      ∃ error, parseTokens [.number 2, .pi] = .error error := by
  have time : Derives .primary [.name "t"] (.symbol "t") := .symbol (by decide)
  have powers := parseTokens_iff_derives.2.2.2 _ _ _ _ _ _ time .pi (.primary (.number 2))
  refine ⟨powers.2.1, powers.2.2, parseTokens_iff_derives.2.1 _ fun e derives => ?_⟩
  have chain := parseTokens_iff_derives.2.2.1 _ e ((parseTokens_iff_derives.1 _ e).mpr derives)
  have follows : MayFollow (.number 2) .pi := (List.isChain_cons.mp chain).1 _ rfl
  cases (follows rfl rfl).1

end QuantumBoard.Formula

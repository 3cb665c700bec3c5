import QuantumBoard.Proofs.Decimal.ReadBack
import QuantumBoard.Proofs.Formula.Folded
import QuantumBoard.Proofs.Formula.Parser
import QuantumBoard.Proofs.Formula.Scan

/-! # Reading listings back

A listing has brackets around every operation, but none around a sign: that of a negative constant
or that of an opposite. The parser gives such a sign more than the operand behind it when a power
follows. So the listing of an accepted formula is always accepted, and gives the formula
back exactly when no power has a base with a sign. -/

namespace QuantumBoard.Expr

open Decimal (isNegative withoutSign digitsOf)
open Formula (Token Derives Scans EndsToken isAscii operatorToken scans_minus scans_openParen
  scans_closeParen scans_operator scans_name scans_number endsToken_nil endsToken_cons)

/-! ## What a listing spells -/

/-- The listing starts with a sign. -/
def isSigned : Expr → Bool
  | constant v => isNegative v
  | neg _ => true
  | symbol _ | pi | euler | binary _ _ _ | call _ _ => false

def withSign (signed : Bool) (e : Expr) : Expr := if signed then neg e else e

/-- What the listing spells behind its sign; the sign of a base stands in front of its power. -/
def unsigned : Expr → Expr
  | constant v => constant (withoutSign v)
  | symbol name => symbol name
  | pi => pi
  | euler => euler
  | neg e => withSign e.isSigned e.unsigned
  | binary op a b =>
    if op = .pow then
      withSign a.isSigned (binary op a.unsigned (withSign b.isSigned b.unsigned))
    else binary op (withSign a.isSigned a.unsigned) (withSign b.isSigned b.unsigned)
  | call f e => call f (withSign e.isSigned e.unsigned)

/-- What the listing spells. -/
def reread (e : Expr) : Expr := withSign e.isSigned e.unsigned

/-- No power has a base with a sign. -/
def BasesUnsigned : Expr → Prop
  | constant _ | symbol _ | pi | euler => True
  | neg e | call _ e => e.BasesUnsigned
  | binary op a b => (op = .pow → a.isSigned = false) ∧ a.BasesUnsigned ∧ b.BasesUnsigned

variable {e : Expr}

theorem unsigned_eq_reread (h : e.isSigned = false) : e.unsigned = e.reread := by
  rw [reread, withSign, h]
  rfl

theorem unsigned_binary {op : BinaryOp} {a b : Expr} (h : op = .pow → a.isSigned = false) :
    (binary op a b).unsigned = binary op a.reread b.reread := by
  rw [unsigned]
  split
  · rename_i power
    rw [h power, unsigned_eq_reread (h power)]
    rfl
  · rfl

theorem unsigned_signedBase {a b : Expr} (h : a.isSigned = true) :
    (binary .pow a b).unsigned = neg (binary .pow a.unsigned b.reread) := by
  rw [unsigned, if_pos rfl, h]
  rfl

/-! ## Tokens of a listing -/

def signTokens (signed : Bool) : List Token := if signed then [.minus] else []

def listingTokens : Expr → List Token
  | constant v => signTokens (isNegative v) ++ [.number (withoutSign v)]
  | symbol name => [.name name]
  | pi => [.pi]
  | euler => [.name "e"]
  | neg e => [.minus] ++ [.openParen] ++ e.listingTokens ++ [.closeParen]
  | binary op a b =>
    [.openParen] ++ a.listingTokens ++ [operatorToken op] ++ b.listingTokens ++ [.closeParen]
  | call f e => [.name f.name] ++ [.openParen] ++ e.listingTokens ++ [.closeParen]

theorem scans_plain {v : Float} (finite : v.isFinite = true) {rest : List Char}
    (ends : EndsToken rest) :
    Scans (Decimal.plain v).toList (signTokens (isNegative v) ++ [.number (withoutSign v)])
      rest := by
  have digits : Scans (digitsOf v) [.number (withoutSign v)] rest :=
    scans_number (Decimal.positional_digitsOf v) (Decimal.unsigned?_digits finite) ends
  rw [Decimal.plain_of_finite finite, String.toList_ofList, Decimal.signOf]
  cases isNegative v
  · exact digits
  · exact (scans_minus _).append digits

theorem isName_name (f : Elementary) : Formula.isName f.name = true := by
  cases f <;> decide

/-- The tokens of a listing are read whatever ends it. -/
theorem scans_listing (h : Folded e) {rest : List Char} (ends : EndsToken rest) :
    Scans e.listing.toList e.listingTokens rest := by
  have closed : ∀ rest, EndsToken ([')'] ++ rest) := endsToken_cons rfl (by decide)
  have opened : ∀ rest, EndsToken (['('] ++ rest) := endsToken_cons rfl (by decide)
  induction h generalizing rest with
  | constant finite => exact scans_plain finite ends
  | time => exact scans_name (by decide) ends
  | neg _ _ ih =>
    rw [listing, String.toList_append, String.toList_append]
    exact (((scans_minus _).append (scans_openParen _)).append (ih (closed _))).append
      (scans_closeParen rest)
  | @binary op a b _ _ _ _ iha ihb =>
    have text : (binary op a b).listing.toList =
        ['('] ++ a.listing.toList ++ ([' '] ++ op.sign.toList ++ [' ']) ++ b.listing.toList ++
          [')'] := by
      simp [listing]
    rw [text]
    exact ((((scans_openParen _).append (iha (endsToken_cons rfl (by decide) _))).append
      (scans_operator op _)).append (ihb (closed _))).append (scans_closeParen rest)
  | @call f e _ _ ih =>
    rw [listing, String.toList_append, String.toList_append, String.toList_append]
    exact (((scans_name (isName_name f) (opened _)).append (scans_openParen _)).append
      (ih (closed _))).append (scans_closeParen rest)

theorem derives_withSign {ts : List Token} (h : Derives .signed ts e) (signed : Bool) :
    Derives .signed (signTokens signed ++ ts) (withSign signed e) := by
  cases signed
  · exact h
  · exact .neg h

/-- A listing is a primary behind its sign. -/
theorem derives_unsigned (h : Folded e) :
    ∃ ts, e.listingTokens = signTokens e.isSigned ++ ts ∧ Derives .primary ts e.unsigned := by
  induction h with
  | constant finite => exact ⟨_, rfl, .number _⟩
  | time => exact ⟨_, rfl, .symbol (by decide)⟩
  | @neg e _ _ ih =>
    obtain ⟨ts, split, derives⟩ := ih
    refine ⟨.openParen :: e.listingTokens ++ [.closeParen], rfl, ?_⟩
    rw [split]
    exact .bracket (.product (.signed (derives_withSign (.primary derives) _)))
  | @call f e _ _ ih =>
    obtain ⟨ts, split, derives⟩ := ih
    refine ⟨.name f.name :: .openParen :: e.listingTokens ++ [.closeParen], by
      simp [listingTokens, signTokens, isSigned], ?_⟩
    rw [split]
    exact .call f.ofName?_name (.product (.signed (derives_withSign (.primary derives) _)))
  | @binary op a b _ _ _ _ iha ihb =>
    obtain ⟨ts, splitA, derivesA⟩ := iha
    obtain ⟨us, splitB, derivesB⟩ := ihb
    have left := derives_withSign (.primary derivesA) a.isSigned
    have right := derives_withSign (.primary derivesB) b.isSigned
    refine ⟨.openParen :: ((signTokens a.isSigned ++ ts) ++
      operatorToken op :: (signTokens b.isSigned ++ us)) ++ [.closeParen], by
        simp [listingTokens, signTokens, isSigned, splitA, splitB], .bracket ?_⟩
    cases op with
    | add => exact .add (.product (.signed left)) (.signed right)
    | sub => exact .sub (.product (.signed left)) (.signed right)
    | mul => exact .product (.mul (.signed left) right)
    | div => exact .product (.div (.signed left) right)
    | pow =>
      -- Only what stands behind the sign is a base, so the sign goes in front of the power.
      rw [List.append_assoc]
      exact .product (.signed (derives_withSign (.caret derivesA right) _))

theorem derives_listing (h : Folded e) : Derives .sum e.listingTokens e.reread := by
  obtain ⟨ts, split, derives⟩ := derives_unsigned h
  rw [split]
  exact .product (.signed (derives_withSign (.primary derives) _))

/-! ## The text of a listing -/

theorem isAscii_of_isDigit {c : Char} (digit : c.isDigit = true) : isAscii c = true := by
  simp only [Char.isDigit, Bool.and_eq_true, decide_eq_true_eq, UInt32.le_iff_toNat_le] at digit
  have nine : '9'.val.toNat = 57 := rfl
  have below : c.val.toNat < 128 := by omega
  exact decide_eq_true below

theorem ascii_plain {v : Float} (finite : v.isFinite = true) :
    (Decimal.plain v).toList.all isAscii = true := by
  rw [Decimal.plain_of_finite finite, String.toList_ofList, List.all_append, Bool.and_eq_true]
  constructor
  · unfold Decimal.signOf
    split <;> rfl
  · refine List.all_eq_true.mpr fun c hc => ?_
    rcases (Decimal.positional_digitsOf v).isDigit_or_point hc with digit | rfl
    · exact isAscii_of_isDigit digit
    · rfl

theorem ascii_name (f : Elementary) : f.name.toList.all isAscii = true := by
  cases f <;> decide

theorem ascii_sign (op : BinaryOp) : op.sign.toList.all isAscii = true := by
  cases op <;> decide

/-- No glyph is written in a listing. -/
theorem ascii_listing (h : Folded e) : e.listing.toList.all isAscii = true := by
  induction h with
  | constant finite => exact ascii_plain finite
  | time => decide
  | neg _ _ ih =>
    simp only [listing, String.toList_append, List.all_append, ih]
    decide
  | @binary op a b _ _ _ _ iha ihb =>
    simp only [listing, String.toList_append, List.all_append, iha, ihb, ascii_sign op]
    decide
  | @call f e _ _ ih =>
    simp only [listing, String.toList_append, List.all_append, ih, ascii_name f]
    decide

theorem parse_of_derives {text : List Char} {ts : List Token} (ascii : text.all isAscii = true)
    (scanned : Formula.scan text = .ok ts) (derives : Derives .sum ts e) :
    Formula.parse (Formula.expandFractions text) = .ok e := by
  rw [Formula.expandFractions_of_ascii ascii, Formula.parse, Formula.tokens, scanned]
  exact Formula.parseTokens_of_derives derives

/-- The parser reads what the listing spells. -/
theorem parse_listing (h : Folded e) :
    Formula.parse (Formula.expandFractions e.listing.toList) = .ok e.reread :=
  parse_of_derives (ascii_listing h) (Formula.scan_of_scans (scans_listing h endsToken_nil))
    (derives_listing h)

/-! ## Folding what a listing spells -/

-- A sign moves, but no symbol comes or goes, so what depends on the time still has no value.
theorem symbols_withSign (signed : Bool) (e : Expr) : (withSign signed e).symbols = e.symbols := by
  cases signed <;> rfl

theorem symbols_unsigned (e : Expr) : e.unsigned.symbols = e.symbols := by
  induction e with
  | constant v | symbol name | pi | euler => rfl
  | neg e ih => rw [unsigned, symbols_withSign, ih, symbols]
  | call f e ih => rw [unsigned, symbols, symbols_withSign, ih, symbols]
  | binary op a b iha ihb =>
    rw [unsigned]
    split
    · rw [symbols_withSign, symbols, symbols_withSign, iha, ihb, symbols]
    · rw [symbols, symbols_withSign, symbols_withSign, iha, ihb, symbols]

theorem symbols_reread (e : Expr) : e.reread.symbols = e.symbols := by
  rw [reread, symbols_withSign, symbols_unsigned]

theorem isSymbolic_unsigned (e : Expr) : e.unsigned.isSymbolic = e.isSymbolic := by
  rw [isSymbolic_eq_symbols, symbols_unsigned, ← isSymbolic_eq_symbols]

theorem isSymbolic_reread (e : Expr) : e.reread.isSymbolic = e.isSymbolic := by
  rw [isSymbolic_eq_symbols, symbols_reread, ← isSymbolic_eq_symbols]

theorem value?_reread_of_isSymbolic (h : e.isSymbolic = true) : e.reread.value? = none :=
  value?_of_isSymbolic (by rw [isSymbolic_reread, h])

theorem value?_unsigned_of_isSymbolic (h : e.isSymbolic = true) : e.unsigned.value? = none :=
  value?_of_isSymbolic (by rw [isSymbolic_unsigned, h])

theorem simplify_withSign (signed : Bool) (h : e.value? = none) :
    (withSign signed e).simplify = withSign signed e.simplify := by
  cases signed
  · rfl
  · exact simplify_neg h

/-- A negative constant is folded back. -/
theorem simplify_reread_constant (v : Float) : (constant v).reread.simplify = constant v := by
  rw [reread, isSigned, unsigned, withoutSign]
  cases isNegative v with
  | false => rfl
  | true =>
    show constant (- -v) = constant v
    rw [Decimal.neg_neg]

/-- An operation whose listing has no sign of a base. -/
theorem simplify_unsigned_binary {op : BinaryOp} {a b : Expr}
    (symbolic : (a.isSymbolic || b.isSymbolic) = true) (bare : op = .pow → a.isSigned = false) :
    (binary op a b).unsigned.simplify = binary op a.reread.simplify b.reread.simplify := by
  rw [unsigned_binary bare, simplify_binary]
  apply value?_of_isSymbolic
  rw [isSymbolic, isSymbolic_reread, isSymbolic_reread, symbolic]

/-- A power whose base has a sign is the opposite of a power. -/
theorem simplify_unsigned_signedBase {a b : Expr}
    (symbolic : (a.isSymbolic || b.isSymbolic) = true) (signed : a.isSigned = true) :
    (binary .pow a b).unsigned.simplify =
      neg (binary .pow a.unsigned.simplify b.reread.simplify) := by
  have none : (binary .pow a.unsigned b.reread).value? = none := by
    apply value?_of_isSymbolic
    rw [isSymbolic, isSymbolic_unsigned, isSymbolic_reread, symbolic]
  rw [unsigned_signedBase signed, simplify_neg none, simplify_binary none]

theorem value?_reread (h : Folded e) : e.reread.value? = e.value? := by
  rcases h.constant_or_symbolic with ⟨v, rfl, -⟩ | symbolic
  · rw [← value?_simplify, simplify_reread_constant]
  · rw [value?_reread_of_isSymbolic symbolic, value?_of_isSymbolic symbolic]

theorem constantsFinite_withSign (signed : Bool) (e : Expr) :
    Formula.constantsFinite (withSign signed e) = Formula.constantsFinite e := by
  cases signed <;> rfl

theorem constantsFinite_reread_of_unsigned (h : Folded e)
    (part : Formula.constantsFinite e.unsigned.simplify = true) :
    Formula.constantsFinite e.reread.simplify = true := by
  rcases h.constant_or_symbolic with ⟨v, rfl, finite⟩ | symbolic
  · rw [simplify_reread_constant]
    exact finite
  · rw [reread, simplify_withSign _ (value?_unsigned_of_isSymbolic symbolic),
      constantsFinite_withSign, part]

theorem constantsFinite_unsigned (h : Folded e) :
    Formula.constantsFinite e.unsigned.simplify = true := by
  induction h with
  | constant finite => exact Decimal.isFinite_withoutSign finite
  | time => rfl
  | neg part _ ih => exact constantsFinite_reread_of_unsigned part ih
  | @call f e part symbolic ih =>
    have none := value?_reread_of_isSymbolic symbolic
    show Formula.constantsFinite (call f e.reread).simplify = true
    rw [simplify_call none]
    exact constantsFinite_reread_of_unsigned part ih
  | @binary op a b partA partB symbolic divisor iha ihb =>
    have finiteA := constantsFinite_reread_of_unsigned partA iha
    have finiteB := constantsFinite_reread_of_unsigned partB ihb
    by_cases bare : op = .pow → a.isSigned = false
    · rw [simplify_unsigned_binary symbolic bare]
      refine constantsFinite_binary.mpr ⟨finiteA, finiteB, fun div => ?_⟩
      rw [value?_simplify, value?_reread partB, divisor div]
    · obtain ⟨rfl, signed⟩ : op = .pow ∧ a.isSigned = true := by simpa using bare
      rw [simplify_unsigned_signedBase symbolic signed]
      exact constantsFinite_binary.mpr ⟨iha, finiteB, nofun⟩

/-- Exactly without the sign of a base, what the listing spells folds to the expression. -/
theorem simplify_reread_eq_self (h : Folded e) : e.reread.simplify = e ↔ e.BasesUnsigned := by
  induction h with
  | constant _ => exact iff_of_true (simplify_reread_constant _) trivial
  | time => exact iff_of_true rfl trivial
  | @neg e _ symbolic ih =>
    show (neg e.reread).simplify = neg e ↔ _
    rw [simplify_neg (value?_reread_of_isSymbolic symbolic), neg.injEq]
    exact ih
  | @call f e _ symbolic ih =>
    show (call f e.reread).simplify = call f e ↔ _
    rw [simplify_call (value?_reread_of_isSymbolic symbolic), call.injEq]
    exact ⟨fun h => ih.mp h.2, fun h => ⟨rfl, ih.mpr h⟩⟩
  | @binary op a b _ _ symbolic _ iha ihb =>
    show (binary op a b).unsigned.simplify = binary op a b ↔ _
    by_cases bare : op = .pow → a.isSigned = false
    · rw [simplify_unsigned_binary symbolic bare, binary.injEq, iha, ihb]
      exact ⟨fun h => ⟨bare, h.2⟩, fun h => ⟨rfl, h.2⟩⟩
    · obtain ⟨rfl, signed⟩ : op = .pow ∧ a.isSigned = true := by simpa using bare
      rw [simplify_unsigned_signedBase symbolic signed]
      exact iff_of_false nofun fun h => bare h.1

/-- The listing is accepted as what it spells. -/
theorem ofText_listing (h : Folded e) :
    Formula.ofText e.listing = .ok e.reread.simplify := by
  refine Formula.ofText_eq_ok.mpr ⟨e.reread, parse_listing h, ?_, ?_, rfl⟩
  · rw [symbols_reread]
    exact h.symbols
  · exact constantsFinite_reread_of_unsigned h (constantsFinite_unsigned h)

/-- The listing of an accepted formula is always accepted, and gives the formula back exactly when
no power in it has a base with a sign. -/
theorem listing_reads_back_iff {text : String} (accepted : Formula.ofText text = .ok e) :
    (∃ other, Formula.ofText e.listing = .ok other) ∧
      (Formula.ofText e.listing = .ok e ↔ e.BasesUnsigned) := by
  have folded := Formula.folded_of_ofText accepted
  rw [ofText_listing folded, Except.ok.injEq]
  exact ⟨⟨_, rfl⟩, simplify_reread_eq_self folded⟩

/-- `2^t` is listed with a base that it can be read from, `(-2)^t` is not. -/
theorem listing_reads_back_powers :
    (∃ e, Formula.ofText "2^t" = .ok e ∧ Formula.ofText e.listing = .ok e) ∧
      ∃ e, Formula.ofText "(-2)^t" = .ok e ∧ Formula.ofText e.listing ≠ .ok e ∧
        ∃ other, Formula.ofText e.listing = .ok other := by
  have exponent : Derives .signed [.name "t"] time := .primary (.symbol (by decide))
  have positive : Formula.scan "2^t".toList = .ok [.number 2, .caret, .name "t"] :=
    Success.toOption_eq_some.mp (by decide +kernel)
  have negative : Formula.scan "(-2)^t".toList =
      .ok [.openParen, .minus, .number 2, .closeParen, .caret, .name "t"] :=
    Success.toOption_eq_some.mp (by decide +kernel)
  have bare : Formula.ofText "2^t" = .ok (binary .pow (constant 2) time) :=
    Formula.ofText_eq_ok.mpr ⟨_, parse_of_derives (by decide) positive
      (.product (.signed (.caret (.number 2) exponent))), by decide, by decide +kernel, rfl⟩
  have base : Derives .sum [.minus, .number 2] (neg (constant 2)) :=
    .product (.signed (.neg (.primary (.number 2))))
  have signed : Formula.ofText "(-2)^t" = .ok (binary .pow (constant (-2)) time) :=
    Formula.ofText_eq_ok.mpr ⟨_, parse_of_derives (by decide) negative
      (.product (.signed (.caret (.bracket base) exponent))), by decide, by decide +kernel, rfl⟩
  refine ⟨⟨_, bare, ?_⟩, _, signed, fun same => ?_, ?_⟩
  · refine (listing_reads_back_iff bare).2.mpr ⟨fun _ => ?_, trivial, trivial⟩
    decide +kernel
  · have unsigned := ((listing_reads_back_iff signed).2.mp same).1 rfl
    exact absurd unsigned (by decide +kernel)
  · exact (listing_reads_back_iff signed).1

end QuantumBoard.Expr

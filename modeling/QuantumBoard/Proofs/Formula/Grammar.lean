import Mathlib.Data.List.Chain
import QuantumBoard.Formula.Parser

/-! The grammar of formulas: sums of products of signed operands, with a category for each strength
of binding. Two operands never stand side by side in what it derives. -/

namespace QuantumBoard.Formula

/-- What a list of tokens can be, from the weakest binding to the strongest. -/
inductive Category where
  | sum
  | product
  | signed
  | primary

/-- The list of tokens is of the category, and the expression is what it spells. -/
inductive Derives : Category → List Token → Expr → Prop
  | product {ts e} : Derives .product ts e → Derives .sum ts e
  | add {ts us a b} : Derives .sum ts a → Derives .product us b →
      Derives .sum (ts ++ .plus :: us) (.binary .add a b)
  | sub {ts us a b} : Derives .sum ts a → Derives .product us b →
      Derives .sum (ts ++ .minus :: us) (.binary .sub a b)
  | signed {ts e} : Derives .signed ts e → Derives .product ts e
  | mul {ts us a b} : Derives .product ts a → Derives .signed us b →
      Derives .product (ts ++ .star :: us) (.binary .mul a b)
  | div {ts us a b} : Derives .product ts a → Derives .signed us b →
      Derives .product (ts ++ .slash :: us) (.binary .div a b)
  | neg {ts e} : Derives .signed ts e → Derives .signed (.minus :: ts) (.neg e)
  | plus {ts e} : Derives .signed ts e → Derives .signed (.plus :: ts) e
  | root {ts e} : Derives .signed ts e → Derives .signed (.root :: ts) (.call .sqrt e)
  | primary {ts e} : Derives .primary ts e → Derives .signed ts e
  | caret {ts us a b} : Derives .primary ts a → Derives .signed us b →
      Derives .signed (ts ++ .caret :: us) (.binary .pow a b)
  | power {ts us a b} : Derives .primary ts a → Derives .signed us b →
      Derives .signed (ts ++ .power :: us) (.binary .pow a b)
  | number (v) : Derives .primary [.number v] (.constant v)
  | pi : Derives .primary [.pi] .pi
  | bracket {ts e} : Derives .sum ts e → Derives .primary (.openParen :: ts ++ [.closeParen]) e
  | call {name f ts e} : Elementary.ofName? name = some f → Derives .sum ts e →
      Derives .primary (.name name :: .openParen :: ts ++ [.closeParen]) (.call f e)
  | namedPi : Derives .primary [.name "pi"] .pi
  | namedEuler : Derives .primary [.name "e"] .euler
  | namedTau : Derives .primary [.name "tau"] (.constant 6.283185307179586)
  | symbol {name} : name ∉ ["pi", "e", "tau"] → Derives .primary [.name name] (.symbol name)

/-- The highest minimum under which the parser still reads all of a category. -/
def Category.ceiling : Category → Nat
  | sum => 1
  | product => 2
  | signed | primary => 4

/-- The least precedence of the operators that a derivation of the category cannot be extended
by on its right. -/
def Category.stop : Category → Nat
  | sum => 2
  | product => 3
  | signed => 4
  | primary => 5

/-- What binds strongly is also of every weaker category. -/
theorem Derives.weaken {category other : Category} {ts : List Token} {e : Expr}
    (h : Derives category ts e) (le : other.stop ≤ category.stop) : Derives other ts e := by
  cases category <;> cases other <;> first
    | exact h
    | exact absurd le (by decide)
    | exact .product h
    | exact .signed h
    | exact .primary h
    | exact .product (.signed h)
    | exact .signed (.primary h)
    | exact .product (.signed (.primary h))

theorem named_of_not_mem {name : String} (h : name ∉ ["pi", "e", "tau"]) :
    named name = .symbol name := by
  simp only [List.mem_cons, List.not_mem_nil, or_false, not_or] at h
  unfold named
  split <;> simp_all

theorem derives_named (name : String) : Derives .primary [.name name] (named name) := by
  by_cases constant : name ∈ ["pi", "e", "tau"]
  · simp only [List.mem_cons, List.not_mem_nil, or_false] at constant
    rcases constant with rfl | rfl | rfl
    · exact .namedPi
    · exact .namedEuler
    · exact .namedTau
  · rw [named_of_not_mem constant]
    exact .symbol constant

/-! ## No product without a sign -/

def Token.endsOperand : Token → Bool
  | number _ | name _ | pi | closeParen => true
  | _ => false

def Token.startsOperand : Token → Bool
  | number _ | name _ | pi | root | openParen => true
  | _ => false

/-- No operand begins right behind another; only a known name and a bracket make a call. -/
def MayFollow (a b : Token) : Prop :=
  a.endsOperand = true → b.startsOperand = true →
    b = .openParen ∧ ∃ name f, a = .name name ∧ Elementary.ofName? name = some f

theorem isChain_cons_of_not_ends {token : Token} (h : token.endsOperand = false) {ts : List Token}
    (chain : ts.IsChain MayFollow) : (token :: ts).IsChain MayFollow := by
  refine List.isChain_cons.mpr ⟨fun b _ ends => ?_, chain⟩
  rw [h] at ends
  cases ends

theorem isChain_append_of_not_starts {token : Token} (h : token.startsOperand = false)
    {ts us : List Token} (left : ts.IsChain MayFollow) (right : (token :: us).IsChain MayFollow) :
    (ts ++ token :: us).IsChain MayFollow := by
  refine left.append right fun a _ b hb _ starts => ?_
  obtain rfl := Option.some.inj hb
  rw [h] at starts
  cases starts

theorem Derives.isChain {category : Category} {ts : List Token} {e : Expr}
    (h : Derives category ts e) : ts.IsChain MayFollow := by
  induction h with
  | product _ ih | signed _ ih | primary _ ih => exact ih
  | add _ _ left right | sub _ _ left right | mul _ _ left right | div _ _ left right
  | caret _ _ left right | power _ _ left right =>
    exact isChain_append_of_not_starts rfl left (isChain_cons_of_not_ends rfl right)
  | neg _ ih | plus _ ih | root _ ih => exact isChain_cons_of_not_ends rfl ih
  | number _ | pi | namedPi | namedEuler | namedTau | symbol _ => exact .singleton _
  | bracket _ ih =>
    exact isChain_cons_of_not_ends rfl (isChain_append_of_not_starts rfl ih (.singleton _))
  | @call name f ts e known _ ih =>
    refine List.isChain_cons.mpr ⟨fun b hb _ _ => ?_,
      isChain_cons_of_not_ends rfl (isChain_append_of_not_starts rfl ih (.singleton _))⟩
    obtain rfl := Option.some.inj hb
    exact ⟨rfl, name, f, rfl, known⟩

end QuantumBoard.Formula

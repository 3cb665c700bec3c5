import QuantumBoard.Word

/-! Reversible arithmetic on registers. A transform replaces the number in a target register
by one that depends on it and on the numbers in input registers, modulo the width of
the target; for fixed inputs it is a bijection. -/

namespace QuantumBoard

/-- The registers that cells can name as inputs. -/
inductive Register where
  | a
  | b
  | r
deriving Repr, DecidableEq

def Register.letter : Register → String
  | a => "A"
  | b => "B"
  | r => "R"

inductive Comparison where
  | less
  | greater
  | lessOrEqual
  | greaterOrEqual
  | equal
  | notEqual
deriving Repr, DecidableEq

namespace Comparison

def holds (x y : UInt64) : Comparison → Bool
  | less => decide (x < y)
  | greater => decide (y < x)
  | lessOrEqual => decide (x ≤ y)
  | greaterOrEqual => decide (y ≤ x)
  | equal => x == y
  | notEqual => x != y

end Comparison

inductive Transform where
  | increment
  | decrement
  | addA
  | subA
  | addSquare
  | subSquare
  | addProduct
  | subProduct
  | xorA
  | addCount
  | subCount
  | flipBelow
  | mulA
  | divA
  | compare (relation : Comparison)
deriving Repr, DecidableEq

namespace Transform

/-- The registers a transform reads, in the order of its operands. -/
def inputs : Transform → List Register
  | increment | decrement => []
  | addProduct | subProduct | compare _ => [.a, .b]
  | _ => [.a]

/-- The number that replaces `x` in a register of any width, before it is cut to the width. -/
def wide (x a b : UInt64) : Transform → UInt64
  | increment => x + 1
  | decrement => x - 1
  | addA => x + a
  | subA => x - a
  | addSquare => x + a * a
  | subSquare => x - a * a
  | addProduct => x + a * b
  | subProduct => x - a * b
  | xorA => x ^^^ a
  | addCount => x + Word.count a
  | subCount => x - Word.count a
  | flipBelow => if x < a then a - x - 1 else x
  | mulA => if Word.isSet a 0 then x * a else x
  | divA => if Word.isSet a 0 then x * Word.oddInverse a else x
  | compare relation => if relation.holds a b then x ^^^ 1 else x

/-- The number that replaces `x` in a register of the given width; an input that is not there
reads as zero. -/
def apply (t : Transform) (x : UInt64) (values : List UInt64) (width : Nat) : UInt64 :=
  t.wide x (values[0]?.getD 0) (values[1]?.getD 0) &&& Word.lowBits width

/-- The transform that undoes this one. -/
def inverse : Transform → Transform
  | increment => decrement
  | decrement => increment
  | addA => subA
  | subA => addA
  | addSquare => subSquare
  | subSquare => addSquare
  | addProduct => subProduct
  | subProduct => addProduct
  | addCount => subCount
  | subCount => addCount
  | mulA => divA
  | divA => mulA
  | xorA => xorA
  | flipBelow => flipBelow
  | compare relation => compare relation

@[simp] theorem inverse_inverse (t : Transform) : t.inverse.inverse = t := by
  cases t <;> rfl

end Transform

end QuantumBoard

/-! The elementary functions of formulas, by name and on doubles. -/

namespace QuantumBoard

inductive Elementary where
  | sin
  | cos
  | tan
  | asin
  | acos
  | atan
  | sinh
  | cosh
  | tanh
  | exp
  | ln
  | sqrt
  | abs
deriving Repr, DecidableEq

namespace Elementary

/-- The function that a name in a formula means; some have two names. -/
def ofName? : String → Option Elementary
  | "sin" => some sin
  | "cos" => some cos
  | "tan" => some tan
  | "asin" => some asin
  | "arcsin" => some asin
  | "acos" => some acos
  | "arccos" => some acos
  | "atan" => some atan
  | "arctan" => some atan
  | "sinh" => some sinh
  | "cosh" => some cosh
  | "tanh" => some tanh
  | "exp" => some exp
  | "ln" => some ln
  | "log" => some ln
  | "sqrt" => some sqrt
  | "abs" => some abs
  | _ => none

/-- The name a formula is written with. -/
def name : Elementary → String
  | sin => "sin"
  | cos => "cos"
  | tan => "tan"
  | asin => "asin"
  | acos => "acos"
  | atan => "atan"
  | sinh => "sinh"
  | cosh => "cosh"
  | tanh => "tanh"
  | exp => "exp"
  | ln => "ln"
  | sqrt => "sqrt"
  | abs => "abs"

def apply (x : Float) : Elementary → Float
  | sin => x.sin
  | cos => x.cos
  | tan => x.tan
  | asin => x.asin
  | acos => x.acos
  | atan => x.atan
  | sinh => x.sinh
  | cosh => x.cosh
  | tanh => x.tanh
  | exp => x.exp
  | ln => x.log
  | sqrt => x.sqrt
  | abs => x.abs

theorem ofName?_name (f : Elementary) : ofName? f.name = some f := by
  cases f <;> rfl

end Elementary

end QuantumBoard

import QuantumBoard.Gate.Basic
import QuantumBoard.Json.Basic

/-! The tags of saved circuits. A choice is saved as its tag, or as an object whose one key is
the tag when it holds something. -/

namespace QuantumBoard

/-- The object of a choice that holds something. -/
def Json.tagged (tag : String) (value : Json) : Json := .object [(tag, value)]

/-- The tag of a choice that holds nothing; the object with the tag and no value is read too. -/
def Json.tag? : Json → Option String
  | .text tag => some tag
  | .object [(tag, .null)] => some tag
  | _ => none

def Elementary.tag : Elementary → String
  | sin => "Sin"
  | cos => "Cos"
  | tan => "Tan"
  | asin => "Asin"
  | acos => "Acos"
  | atan => "Atan"
  | sinh => "Sinh"
  | cosh => "Cosh"
  | tanh => "Tanh"
  | exp => "Exp"
  | ln => "Ln"
  | sqrt => "Sqrt"
  | abs => "Abs"

def Elementary.ofTag? : String → Option Elementary
  | "Sin" => some sin
  | "Cos" => some cos
  | "Tan" => some tan
  | "Asin" => some asin
  | "Acos" => some acos
  | "Atan" => some atan
  | "Sinh" => some sinh
  | "Cosh" => some cosh
  | "Tanh" => some tanh
  | "Exp" => some exp
  | "Ln" => some ln
  | "Sqrt" => some sqrt
  | "Abs" => some abs
  | _ => none

theorem Elementary.ofTag?_tag (f : Elementary) : ofTag? f.tag = some f := by
  cases f <;> rfl

def BinaryOp.tag : BinaryOp → String
  | add => "Add"
  | sub => "Sub"
  | mul => "Mul"
  | div => "Div"
  | pow => "Pow"

def BinaryOp.ofTag? : String → Option BinaryOp
  | "Add" => some add
  | "Sub" => some sub
  | "Mul" => some mul
  | "Div" => some div
  | "Pow" => some pow
  | _ => none

theorem BinaryOp.ofTag?_tag (op : BinaryOp) : ofTag? op.tag = some op := by
  cases op <;> rfl

namespace Axis

def tag : Axis → String
  | x => "X"
  | y => "Y"
  | z => "Z"

def powerTag : Axis → String
  | x => "XPow"
  | y => "YPow"
  | z => "ZPow"

def rotationTag : Axis → String
  | x => "Rx"
  | y => "Ry"
  | z => "Rz"

end Axis

/-- The gates on wires that have no parameter. -/
def WireGate.ofTag? : String → Option WireGate
  | "I" => some identity
  | "H" => some hadamard
  | "X" => some (pauli .x)
  | "Y" => some (pauli .y)
  | "Z" => some (pauli .z)
  | "Swap" => some swap
  | _ => none

/-- The gates on wires that have a parameter. -/
def WireGate.ofParameterTag? : String → Option (Expr → WireGate)
  | "XPow" => some (power .x)
  | "YPow" => some (power .y)
  | "ZPow" => some (power .z)
  | "Rx" => some (rotation .x)
  | "Ry" => some (rotation .y)
  | "Rz" => some (rotation .z)
  | _ => none

def Comparison.tag : Comparison → String
  | less => "Less"
  | greater => "Greater"
  | lessOrEqual => "LessOrEqual"
  | greaterOrEqual => "GreaterOrEqual"
  | equal => "Equal"
  | notEqual => "NotEqual"

def Comparison.ofTag? : String → Option Comparison
  | "Less" => some less
  | "Greater" => some greater
  | "LessOrEqual" => some lessOrEqual
  | "GreaterOrEqual" => some greaterOrEqual
  | "Equal" => some equal
  | "NotEqual" => some notEqual
  | _ => none

theorem Comparison.ofTag?_tag (c : Comparison) : ofTag? c.tag = some c := by
  cases c <;> rfl

/-- The transforms that hold no comparison. -/
def Transform.ofTag? : String → Option Transform
  | "Increment" => some increment
  | "Decrement" => some decrement
  | "AddA" => some addA
  | "SubA" => some subA
  | "AddASquared" => some addSquare
  | "SubASquared" => some subSquare
  | "AddAB" => some addProduct
  | "SubAB" => some subProduct
  | "XorA" => some xorA
  | "AddPopcountA" => some addCount
  | "SubPopcountA" => some subCount
  | "FlipBelowA" => some flipBelow
  | "MulA" => some mulA
  | "DivA" => some divA
  | _ => none

end QuantumBoard

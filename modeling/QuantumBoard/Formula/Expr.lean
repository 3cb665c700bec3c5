import QuantumBoard.Decimal.Notation
import QuantumBoard.Formula.Elementary

/-! Expressions in the exponents and angles of gates. An expression has a value when
it has no free symbol and divides nowhere by zero; binding gives a symbol a value,
and simplifying folds every part that has one. The text of an expression has every
operation in brackets of its own, so that nothing depends on precedence. -/

namespace QuantumBoard

inductive BinaryOp where
  | add
  | sub
  | mul
  | div
  | pow
deriving Repr, DecidableEq

namespace BinaryOp

/-- The result on two values; there is none for a division by zero of either sign. -/
def result? (x y : Float) : BinaryOp → Option Float
  | add => some (x + y)
  | sub => some (x - y)
  | mul => some (x * y)
  | div => if y == 0 then none else some (x / y)
  | pow => some (x.pow y)

def sign : BinaryOp → String
  | add => "+"
  | sub => "-"
  | mul => "*"
  | div => "/"
  | pow => "^"

end BinaryOp

inductive Expr where
  | constant (value : Float)
  | symbol (name : String)
  | pi
  | euler
  | neg (e : Expr)
  | binary (op : BinaryOp) (a b : Expr)
  | call (f : Elementary) (e : Expr)
deriving DecidableEq

namespace Expr

def piValue : Float := 3.141592653589793

def eulerValue : Float := 2.718281828459045

/-- The time variable of the board. -/
def time : Expr := symbol "t"

def isSymbolic : Expr → Bool
  | symbol _ => true
  | constant _ | pi | euler => false
  | neg e | call _ e => e.isSymbolic
  | binary _ a b => a.isSymbolic || b.isSymbolic

/-- The value of an expression without free symbols and zero divisors. -/
def value? : Expr → Option Float
  | constant v => some v
  | symbol _ => none
  | pi => some piValue
  | euler => some eulerValue
  | neg e => e.value?.map fun v => -v
  | binary op a b => do
    let x ← a.value?
    let y ← b.value?
    op.result? x y
  | call f e => e.value?.map f.apply

/-- The symbols in the order in which they occur, one entry an occurrence. -/
def symbols : Expr → List String
  | symbol name => [name]
  | constant _ | pi | euler => []
  | neg e | call _ e => e.symbols
  | binary _ a b => a.symbols ++ b.symbols

/-- The expression with a value in place of a symbol. -/
def bind (name : String) (v : Float) : Expr → Expr
  | symbol n => if n = name then constant v else symbol n
  | constant c => constant c
  | pi => pi
  | euler => euler
  | neg e => neg (e.bind name v)
  | binary op a b => binary op (a.bind name v) (b.bind name v)
  | call f e => call f (e.bind name v)

/-- The value with a symbol bound. -/
def valueAt? (e : Expr) (name : String) (v : Float) : Option Float :=
  (e.bind name v).value?

/-- Folds every part that has a value. -/
def simplify (e : Expr) : Expr :=
  match e.value? with
  | some v => constant v
  | none =>
    match e with
    | neg e => neg e.simplify
    | binary op a b => binary op a.simplify b.simplify
    | call f e => call f e.simplify
    | e => e

/-- The opposite expression, folded when it has a value. -/
def negated (e : Expr) : Expr :=
  match e.value? with
  | some v => constant (-v)
  | none => neg e

/-- The text of an expression. -/
def listing : Expr → String
  | constant v => Decimal.plain v
  | symbol name => name
  | pi => "π"
  | euler => "e"
  | neg e => "-(" ++ e.listing ++ ")"
  | binary op a b => "(" ++ a.listing ++ " " ++ op.sign ++ " " ++ b.listing ++ ")"
  | call f e => f.name ++ "(" ++ e.listing ++ ")"

end Expr

end QuantumBoard

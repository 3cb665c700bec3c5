import QuantumBoard.Decimal.Notation

/-! Complex numbers of doubles. Signed zeros are kept: a negated zero is `-0`, so that the
side of a branch cut that a number lies on is not lost. -/

namespace QuantumBoard

structure Amplitude where
  re : Float
  im : Float
deriving DecidableEq

namespace Amplitude

def ofReal (x : Float) : Amplitude := ⟨x, 0⟩

def one : Amplitude := ofReal 1

/-- The imaginary unit. -/
def unit : Amplitude := ⟨0, 1⟩

def add (z w : Amplitude) : Amplitude := ⟨z.re + w.re, z.im + w.im⟩

def sub (z w : Amplitude) : Amplitude := ⟨z.re - w.re, z.im - w.im⟩

def neg (z : Amplitude) : Amplitude := ⟨-z.re, -z.im⟩

def mul (z w : Amplitude) : Amplitude := ⟨z.re * w.re - z.im * w.im, z.re * w.im + z.im * w.re⟩

/-- The square of the absolute value. -/
def normSquare (z : Amplitude) : Float := z.re * z.re + z.im * z.im

def div (z w : Amplitude) : Amplitude :=
  let d := w.normSquare
  ⟨(z.re * w.re + z.im * w.im) / d, (z.im * w.re - z.re * w.im) / d⟩

instance : Add Amplitude := ⟨add⟩
instance : Sub Amplitude := ⟨sub⟩
instance : Neg Amplitude := ⟨neg⟩
instance : Mul Amplitude := ⟨mul⟩
instance : Div Amplitude := ⟨div⟩

/-- The complex conjugate. -/
def conj (z : Amplitude) : Amplitude := ⟨z.re, -z.im⟩

def isFinite (z : Amplitude) : Bool := z.re.isFinite && z.im.isFinite

def isZero (z : Amplitude) : Bool := z.re == 0 && z.im == 0

/-- A part after a sign that is written for negative values; a zero keeps its own sign. -/
def part (x : Float) : String := Decimal.plain (if x < 0 then -x else x)

/-- Real part, sign and imaginary part. -/
def listing (z : Amplitude) : String :=
  (if z.re < 0 then "-" else "") ++ part z.re ++ (if z.im < 0 then "-" else "+") ++
    part z.im ++ "i"

end Amplitude

end QuantumBoard

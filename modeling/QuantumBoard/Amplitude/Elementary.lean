import QuantumBoard.Amplitude.Basic
import QuantumBoard.Decimal.Hypotenuse
import QuantumBoard.Formula.Elementary

/-! The elementary functions on complex numbers, by their formulas in sines, exponentials
and logarithms of the parts. -/

namespace QuantumBoard.Amplitude

def norm (z : Amplitude) : Float := Decimal.hypotenuse z.re z.im

/-- The angle of a number, from minus pi to pi. -/
def arg (z : Amplitude) : Float := Float.atan2 z.im z.re

/-- The number with the given absolute value and angle. -/
def ofPolar (r angle : Float) : Amplitude := ⟨r * angle.cos, r * angle.sin⟩

/-- Both parts divided by a real number. -/
def scaleDown (z : Amplitude) (x : Float) : Amplitude := ⟨z.re / x, z.im / x⟩

def exp (z : Amplitude) : Amplitude :=
  if z.re.isInf then
    if z.re < 0 then
      if z.im.isFinite then ofPolar z.re.exp z.im else ⟨0, 0⟩
    else if z.im == 0 || !z.im.isFinite then
      ⟨z.re, if z.im.isInf then Decimal.undefined else z.im⟩
    else ofPolar z.re.exp z.im
  else if z.re.isNaN && z.im == 0 then z
  else ofPolar z.re.exp z.im

def ln (z : Amplitude) : Amplitude := ⟨z.norm.log, z.arg⟩

/-- A power; the power with exponent zero is one. -/
def pow (z w : Amplitude) : Amplitude :=
  if w.isZero then one else exp (w * z.ln)

/-- The root on the right half plane. On the axes it is exact, and the sign of a zero
imaginary part tells the side of the cut. -/
def sqrt (z : Amplitude) : Amplitude :=
  if z.im == 0 then
    if !Decimal.isNegative z.re then ⟨z.re.sqrt, z.im⟩
    else
      let im := (-z.re).sqrt
      if Decimal.isNegative z.im then ⟨0, -im⟩ else ⟨0, im⟩
  else if z.re == 0 then
    let x := (z.im.abs / 2).sqrt
    if Decimal.isNegative z.im then ⟨x, -x⟩ else ⟨x, x⟩
  else ofPolar z.norm.sqrt (z.arg / 2)

def sin (z : Amplitude) : Amplitude := ⟨z.re.sin * z.im.cosh, z.re.cos * z.im.sinh⟩

def cos (z : Amplitude) : Amplitude := ⟨z.re.cos * z.im.cosh, -z.re.sin * z.im.sinh⟩

def tan (z : Amplitude) : Amplitude :=
  let a := z.re + z.re
  let b := z.im + z.im
  scaleDown ⟨a.sin, b.sinh⟩ (a.cos + b.cosh)

def sinh (z : Amplitude) : Amplitude := ⟨z.re.sinh * z.im.cos, z.re.cosh * z.im.sin⟩

def cosh (z : Amplitude) : Amplitude := ⟨z.re.cosh * z.im.cos, z.re.sinh * z.im.sin⟩

def tanh (z : Amplitude) : Amplitude :=
  let a := z.re + z.re
  let b := z.im + z.im
  scaleDown ⟨a.sinh, b.sin⟩ (a.cosh + b.cos)

def asin (z : Amplitude) : Amplitude := -unit * ((one - z * z).sqrt + unit * z).ln

def acos (z : Amplitude) : Amplitude := -unit * (unit * (one - z * z).sqrt + z).ln

/-- The two poles on the imaginary axis give an infinite imaginary part. -/
def atan (z : Amplitude) : Amplitude :=
  if z.re == 0 && z.im == 1 then ⟨0, Decimal.infinity⟩
  else if z.re == 0 && z.im == -1 then ⟨0, -Decimal.infinity⟩
  else ((one + unit * z).ln - (one - unit * z).ln) / (unit + unit)

def apply (z : Amplitude) : Elementary → Amplitude
  | .sin => z.sin
  | .cos => z.cos
  | .tan => z.tan
  | .asin => z.asin
  | .acos => z.acos
  | .atan => z.atan
  | .sinh => z.sinh
  | .cosh => z.cosh
  | .tanh => z.tanh
  | .exp => z.exp
  | .ln => z.ln
  | .sqrt => z.sqrt
  | .abs => ofReal z.norm

end QuantumBoard.Amplitude

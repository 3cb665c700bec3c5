/-! Fraction glyphs. Before a formula or matrix is read, every glyph becomes its division in
brackets, and a root sign right before a glyph takes the whole fraction. -/

namespace QuantumBoard.Formula

structure Fraction where
  glyph : Char
  numerator : Nat
  denominator : Nat
deriving Repr, DecidableEq

namespace Fraction

def all : List Fraction :=
  [⟨'½', 1, 2⟩, ⟨'¼', 1, 4⟩, ⟨'¾', 3, 4⟩, ⟨'⅓', 1, 3⟩, ⟨'⅔', 2, 3⟩, ⟨'⅕', 1, 5⟩,
    ⟨'⅖', 2, 5⟩, ⟨'⅗', 3, 5⟩, ⟨'⅘', 4, 5⟩, ⟨'⅙', 1, 6⟩, ⟨'⅚', 5, 6⟩, ⟨'⅐', 1, 7⟩,
    ⟨'⅛', 1, 8⟩, ⟨'⅜', 3, 8⟩, ⟨'⅝', 5, 8⟩, ⟨'⅞', 7, 8⟩, ⟨'⅑', 1, 9⟩, ⟨'⅒', 1, 10⟩]

/-- The division in brackets. -/
def spelled (f : Fraction) : List Char :=
  '(' :: Nat.toDigits 10 f.numerator ++ '/' :: Nat.toDigits 10 f.denominator ++ [')']

/-- The root of the division. -/
def rooted (f : Fraction) : List Char := ['(', 's', 'q', 'r', 't'] ++ f.spelled ++ [')']

end Fraction

/-- Writes a text for each `a` that is followed by `b`, and for that `b`. -/
def replacePair (a b : Char) (text : List Char) : List Char → List Char
  | [] => []
  | [c] => [c]
  | c :: d :: rest =>
    if c = a ∧ d = b then text ++ replacePair a b text rest
    else c :: replacePair a b text (d :: rest)

/-- Writes a text for each `a`. -/
def replaceEach (a : Char) (text cs : List Char) : List Char :=
  cs.flatMap fun c => if c = a then text else [c]

/-- Writes out every place of one glyph, those under a root sign first. -/
def Fraction.expand (f : Fraction) (cs : List Char) : List Char :=
  replaceEach f.glyph f.spelled (replacePair '√' f.glyph f.rooted cs)

/-- Writes out every fraction glyph, one glyph after the other. -/
def expandFractions (cs : List Char) : List Char :=
  Fraction.all.foldl (fun cs f => f.expand cs) cs

end QuantumBoard.Formula

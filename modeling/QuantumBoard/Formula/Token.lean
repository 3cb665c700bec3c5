import QuantumBoard.Decimal.Notation
import QuantumBoard.Decimal.Numeral
import QuantumBoard.Text.Basic

/-! The tokens of formulas and matrix entries. Scanning takes the longest token at each
place; a number takes a point and an exponent along when digits follow the mark, and
the only blanks are space, tab and the two line ends. -/

namespace QuantumBoard.Formula

open Text (Rest)

inductive Token where
  | number (value : Float)
  | name (text : String)
  | pi
  | root
  | plus
  | minus
  | star
  | slash
  | caret
  | power
  | openParen
  | closeParen
deriving DecidableEq

/-- The token as messages show it. -/
def Token.listing : Token → String
  | number v => Decimal.plain v
  | name text => text
  | pi => "π"
  | root => "√"
  | plus => "+"
  | minus => "-"
  | star => "*"
  | slash => "/"
  | caret => "^"
  | power => "**"
  | openParen => "("
  | closeParen => ")"

def isBlank (c : Char) : Bool := c == ' ' || c == '\t' || c == '\r' || c == '\n'

def isNameStart (c : Char) : Bool := c.isAlpha || c == '_'

def isNamePart (c : Char) : Bool := c.isAlphanum || c == '_'

/-- A sign in front of the digits of an exponent. -/
def splitSign : (cs : List Char) → Bool × Rest cs
  | '-' :: rest => (true, (Rest.whole rest).behind '-')
  | '+' :: rest => (false, (Rest.whole rest).behind '+')
  | cs => (false, .whole cs)

/-- An exponent, when its mark and at least one digit come next. -/
def splitExponent : (cs : List Char) → Int × Rest cs
  | [] => (0, .whole [])
  | c :: rest =>
    if c = 'e' ∨ c = 'E' then
      let (negative, afterSign) := splitSign rest
      match Text.splitWhile Char.isDigit afterSign.1 with
      | ([], _) => (0, .whole (c :: rest))
      | (ds, afterDigits) =>
        (if negative then -(Decimal.ofDigits ds : Int) else Decimal.ofDigits ds,
          (afterSign.after afterDigits).behind c)
    else (0, .whole (c :: rest))

/-- A point and the digits after it, when a point comes next. -/
def splitFraction : (cs : List Char) → List Char × Rest cs
  | '.' :: rest =>
    let (ds, after) := Text.splitWhile Char.isDigit rest
    (ds, after.behind '.')
  | cs => ([], .whole cs)

/-- The number at the front of a text that starts with a digit, or with a point and a digit. -/
def scanNumber (cs : List Char) : Float × Rest cs :=
  let (whole, afterWhole) := Text.splitWhile Char.isDigit cs
  let (fraction, afterFraction) := splitFraction afterWhole.1
  let (exponent, afterExponent) := splitExponent afterFraction.1
  (Decimal.ofParts whole fraction exponent, (afterWhole.after afterFraction).after afterExponent)

/-- The number that starts with `c`. -/
def numberFrom (c : Char) (rest : List Char) : Option (Token × Rest rest) :=
  let (value, after) := scanNumber (c :: rest)
  if h : after.1.length ≤ rest.length then some (.number value, ⟨after.1, h⟩) else none

/-- The token that starts with `c`. -/
def scanToken (c : Char) (rest : List Char) : Option (Token × Rest rest) :=
  if c.isDigit then numberFrom c rest
  else if isNameStart c then
    let (part, after) := Text.splitWhile isNamePart rest
    some (.name (String.ofList (c :: part)), after)
  else
    match c, rest with
    | '.', d :: rest => if d.isDigit then numberFrom c (d :: rest) else none
    | '*', '*' :: rest => some (.power, (Rest.whole rest).behind '*')
    | 'π', rest => some (.pi, .whole rest)
    | '√', rest => some (.root, .whole rest)
    | '+', rest => some (.plus, .whole rest)
    | '-', rest => some (.minus, .whole rest)
    | '*', rest => some (.star, .whole rest)
    | '/', rest => some (.slash, .whole rest)
    | '^', rest => some (.caret, .whole rest)
    | '(', rest => some (.openParen, .whole rest)
    | ')', rest => some (.closeParen, .whole rest)
    | _, _ => none

/-- The tokens of a text, or the rest that starts with no token. -/
def scan (cs : List Char) : Except (List Char) (List Token) :=
  match cs with
  | [] => .ok []
  | c :: rest =>
    if isBlank c then scan rest
    else
      match scanToken c rest with
      | none => .error (c :: rest)
      | some (token, ⟨after, _⟩) => (token :: ·) <$> scan after
termination_by cs.length

/-- A character that starts no token, and its distance in bytes from the start of the text. -/
structure BadCharacter where
  char : List Char
  position : Nat
deriving DecidableEq

def utf8Length (cs : List Char) : Nat := cs.foldr (fun c n => c.utf8Size + n) 0

/-- The tokens of a text, or its first character that starts no token. -/
def tokens (cs : List Char) : Except BadCharacter (List Token) :=
  (scan cs).mapError fun rest => ⟨rest.take 1, utf8Length cs - utf8Length rest⟩

end QuantumBoard.Formula

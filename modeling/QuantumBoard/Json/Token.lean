import QuantumBoard.Json.Basic
import QuantumBoard.Decimal.Numeral
import QuantumBoard.Text.Basic

/-! The tokens of JSON text: punctuation, strings, and the literals and numbers that
are values on their own. -/

namespace QuantumBoard.Json

open Text (Rest)

inductive Token where
  | openArray
  | closeArray
  | openObject
  | closeObject
  | comma
  | colon
  | text (value : String)
  | literal (value : Json)

/-! ## Strings -/

/-- The characters up to the closing quote, escapes still in place. -/
def scanBody : (cs : List Char) → Option (List Char × Rest cs)
  | [] => none
  | '"' :: rest => some ([], ⟨rest, Nat.le_succ _⟩)
  | '\\' :: c :: rest =>
    (scanBody rest).map fun (body, after) => ('\\' :: c :: body, (after.behind c).behind '\\')
  | c :: rest =>
    if c.toNat < 0x20 then none
    else (scanBody rest).map fun (body, after) => (c :: body, after.behind c)

/-- A piece of a string: a character, or a 16-bit unit given by its number. -/
inductive Piece where
  | char (c : Char)
  | unit (n : Nat)

/-- The character that an escape letter stands for. -/
def escapeLetter? : Char → Option Char
  | '"' => some '"'
  | '\\' => some '\\'
  | '/' => some '/'
  | 'b' => some '\x08'
  | 'f' => some '\x0c'
  | 'n' => some '\n'
  | 'r' => some '\r'
  | 't' => some '\t'
  | _ => none

/-- Resolves the escapes of a string body. -/
def pieces : List Char → Option (List Piece)
  | [] => some []
  | '\\' :: 'u' :: a :: b :: c :: d :: rest => do
    let digits ← [a, b, c, d].mapM Text.hexDigit?
    let after ← pieces rest
    return .unit (digits.foldl (fun n digit => 16 * n + digit) 0) :: after
  | '\\' :: e :: rest => do
    let c ← escapeLetter? e
    let after ← pieces rest
    return .char c :: after
  | c :: rest => (pieces rest).map (.char c :: ·)

/-- Joins the units of surrogate pairs; a surrogate that stands alone is no character. -/
def joinUnits : List Piece → Option (List Char)
  | [] => some []
  | .char c :: rest => (joinUnits rest).map (c :: ·)
  | .unit high :: .unit low :: rest =>
    if 0xD800 ≤ high ∧ high < 0xDC00 then
      if 0xDC00 ≤ low ∧ low < 0xE000 then
        let c := Char.ofNat (0x10000 + (high - 0xD800) * 0x400 + (low - 0xDC00))
        (joinUnits rest).map (c :: ·)
      else none
    else if 0xDC00 ≤ high ∧ high < 0xE000 then none
    else (joinUnits (.unit low :: rest)).map (Char.ofNat high :: ·)
  | .unit n :: rest =>
    if 0xD800 ≤ n ∧ n < 0xE000 then none
    else (joinUnits rest).map (Char.ofNat n :: ·)

/-! ## Numbers -/

/-- The value of a number that is no integer of 64 bits: the leading digits that fit 64
bits, as a double, times or over powers of ten, one rounding for each step. A value
beyond the doubles is refused. -/
def scale (significand : Nat) (exponent : Int) : Option Float :=
  let start := significand.toUInt64.toFloat
  if 0 ≤ exponent then
    if exponent ≤ 308 then
      let x := start * Float.ofScientific 1 false exponent.toNat
      if x.isInf then none else some x
    else if significand = 0 then some 0
    else none
  else some (down 4 start (-exponent).toNat)
where
  /-- Divides by `1e308` while the exponent is larger; after two such steps zero is left. -/
  down : Nat → Float → Nat → Float
    | 0, _, _ => 0
    | steps + 1, x, exponent =>
      if exponent ≤ 308 then x / Float.ofScientific 1 false exponent
      else down steps (x / 1e308) (exponent - 308)

/-- Appends digits to a significand while it fits 64 bits, and counts them. -/
def appendDigits (significand : Nat) (count : Nat) : List Char → Nat × Nat
  | [] => (significand, count)
  | c :: rest =>
    let next := 10 * significand + (c.toNat - 48)
    if next < Nat.pow 2 64 then appendDigits next (count + 1) rest else (significand, count)

/-- A number by its parts; `fraction` and `exponent` are `none` where there is none. -/
def numberOf (negative : Bool) (whole : List Char) (fraction : Option (List Char))
    (exponent : Option Int) : Option Json :=
  let signed (x : Float) := if negative then -x else x
  let (kept, count) := appendDigits 0 0 whole
  if fraction.isNone && exponent.isNone && count == whole.length
      && (!negative || (decide (0 < kept) && decide (kept ≤ Nat.pow 2 63))) then
    some (.integer (if negative then -(kept : Int) else kept))
  else
    let (significand, places) := appendDigits kept 0 (fraction.getD [])
    let power := exponent.getD 0 + ((whole.length - count : Nat) : Int) - places
    (scale significand power).map fun x => .real (signed x)

/-- A fraction, when a point comes next; it has at least one digit. -/
def scanFraction : (cs : List Char) → Option (Option (List Char) × Rest cs)
  | '.' :: rest =>
    match Text.splitWhile Char.isDigit rest with
    | ([], _) => none
    | (ds, after) => some (some ds, after.behind '.')
  | cs => some (none, .whole cs)

/-- An exponent, when its mark comes next; it has at least one digit. -/
def scanExponent : (cs : List Char) → Option (Option Int × Rest cs)
  | [] => some (none, .whole [])
  | c :: rest =>
    if c = 'e' ∨ c = 'E' then
      match rest with
      | '-' :: ds => (unsigned ds).map fun (n, after) =>
        (some (-(n : Int)), (after.behind '-').behind c)
      | '+' :: ds => (unsigned ds).map fun (n, after) => (some n, (after.behind '+').behind c)
      | ds => (unsigned ds).map fun (n, after) => (some n, after.behind c)
    else some (none, .whole (c :: rest))
where
  unsigned (cs : List Char) : Option (Nat × Rest cs) :=
    match Text.splitWhile Char.isDigit cs with
    | ([], _) => none
    | (ds, after) => some (Decimal.ofDigits ds, after)

/-- An unsigned number; a zero in front of another digit is refused. -/
def scanUnsigned (negative : Bool) (cs : List Char) : Option (Json × Rest cs) := do
  let (whole, rest) := Text.splitWhile Char.isDigit cs
  if whole = [] ∨ (whole.head? = some '0' ∧ 1 < whole.length) then none
  else
    let (fraction, afterFraction) ← scanFraction rest.1
    let (exponent, afterExponent) ← scanExponent afterFraction.1
    let value ← numberOf negative whole fraction exponent
    return (value, (rest.after afterFraction).after afterExponent)

/-! ## Tokens -/

/-- The blanks between tokens. -/
def isBlank (c : Char) : Bool := c == ' ' || c == '\n' || c == '\t' || c == '\r'

/-- The token that starts with `c`, for a `c` that is no blank. -/
def scanToken (c : Char) (cs : List Char) : Option (Token × Rest cs) :=
  match c with
  | '[' => some (.openArray, Rest.whole cs)
  | ']' => some (.closeArray, Rest.whole cs)
  | '\x7b' => some (.openObject, Rest.whole cs)
  | '\x7d' => some (.closeObject, Rest.whole cs)
  | ',' => some (.comma, Rest.whole cs)
  | ':' => some (.colon, Rest.whole cs)
  | '"' => do
    let (body, after) ← scanBody cs
    let cs ← pieces body >>= joinUnits
    return (.text (String.ofList cs), after)
  | 't' => word "rue" (.bool true)
  | 'f' => word "alse" (.bool false)
  | 'n' => word "ull" .null
  | '-' => (scanUnsigned true cs).map fun (value, after) => (.literal value, after)
  | c =>
    if c.isDigit then
      match scanUnsigned false (c :: cs) with
      | some (value, after) =>
        if h : after.1.length ≤ cs.length then some (.literal value, ⟨after.1, h⟩) else none
      | none => none
    else none
where
  word (letters : String) (value : Json) : Option (Token × Rest cs) :=
    if letters.toList.isPrefixOf cs then
      some (.literal value, ⟨cs.drop letters.length, by simp [List.length_drop]⟩)
    else none

/-- The tokens of a text, or `none` where some part of it is no token. -/
def tokens (cs : List Char) : Option (List Token) :=
  match cs with
  | [] => some []
  | c :: rest =>
    if isBlank c then tokens rest
    else
      match scanToken c rest with
      | none => none
      | some (token, ⟨after, _⟩) => (tokens after).map (token :: ·)
termination_by cs.length

end QuantumBoard.Json

/-! Texts as lists of characters: what a scanner leaves, white space, and the bytes that a text
stands for. -/

namespace QuantumBoard.Text

/-! ## Rests

The rest that a scanner leaves comes with a proof that it is no longer than the text the scanner
was given, so that scanning a whole text ends. -/

/-- What is left of a text after a scanner. -/
abbrev Rest (cs : List Char) := { rest : List Char // rest.length ≤ cs.length }

namespace Rest

/-- Nothing was taken. -/
def whole (cs : List Char) : Rest cs := ⟨cs, Nat.le_refl _⟩

/-- The rest, for a text with one more character in front. -/
def behind {cs : List Char} (c : Char) (rest : Rest cs) : Rest (c :: cs) :=
  ⟨rest.1, Nat.le_trans rest.2 (Nat.le_succ _)⟩

/-- The rest, when the scanner ran on the rest of another. -/
def after {cs : List Char} (first : Rest cs) (second : Rest first.1) : Rest cs :=
  ⟨second.1, Nat.le_trans second.2 first.2⟩

end Rest

/-- The longest run of characters of a class, and what follows it. -/
def splitWhile (p : Char → Bool) (cs : List Char) : List Char × Rest cs :=
  (cs.takeWhile p, ⟨cs.dropWhile p, (List.dropWhile_suffix _).length_le⟩)

/-! ## White space

The characters with that property in Unicode, and trimming them from the ends of a text. -/

def isBlank (c : Char) : Bool :=
  let n := c.toNat
  (decide (0x9 ≤ n) && decide (n ≤ 0xD)) || n == 0x20 || n == 0x85 || n == 0xA0 ||
    n == 0x1680 || (decide (0x2000 ≤ n) && decide (n ≤ 0x200A)) || n == 0x2028 ||
    n == 0x2029 || n == 0x202F || n == 0x205F || n == 0x3000

/-- The text without the white space at its end. -/
def trimEnd (cs : List Char) : List Char := (cs.reverse.dropWhile isBlank).reverse

/-- The text without the white space at its two ends. -/
def trim (cs : List Char) : List Char := trimEnd (cs.dropWhile isBlank)

/-! ## Percent escapes

A percent sign before two hexadecimal digits stands for a byte; every other character, a percent
sign included, stands for its own bytes. -/

/-- The value of a hexadecimal digit of either case. -/
def hexDigit? (c : Char) : Option Nat :=
  if c.isDigit then some (c.toNat - 48)
  else if 'a' ≤ c ∧ c ≤ 'f' then some (c.toNat - 87)
  else if 'A' ≤ c ∧ c ≤ 'F' then some (c.toNat - 55)
  else none

/-- The byte that two hexadecimal digits spell. -/
def hexByte? (high low : Char) : Option UInt8 := do
  let h ← hexDigit? high
  let l ← hexDigit? low
  return UInt8.ofNat (16 * h + l)

/-- The bytes of a text after percent decoding. -/
def percentDecode : List Char → List UInt8
  | '%' :: high :: low :: rest =>
    match hexByte? high low with
    | some b => b :: percentDecode rest
    | none => '%'.toUInt8 :: percentDecode (high :: low :: rest)
  | c :: rest => String.utf8EncodeChar c ++ percentDecode rest
  | [] => []

/-! ## UTF-8

Bytes that do not decode are reported with the index of the first bad sequence and its length, or
as cut short when the bytes end inside a sequence. -/

/-- Why bytes are no UTF-8 text: `length` bytes from `index` begin no character, or the
text ends inside the sequence that starts there. -/
inductive Utf8Error where
  | invalid (length index : Nat)
  | incomplete (index : Nat)
deriving Repr, DecidableEq

def Utf8Error.message : Utf8Error → String
  | .invalid length index =>
    "invalid utf-8 sequence of " ++ toString length ++ " bytes from index " ++ toString index
  | .incomplete index => "incomplete utf-8 byte sequence from index " ++ toString index

def isContinuation (b : UInt8) : Bool := 0x80 ≤ b && b < 0xC0

/-- The six low bits of a continuation byte below the bits already read. -/
def extend (high : Nat) (b : UInt8) : Nat := high * 64 + (b &&& 0x3F).toNat

/-- Whether the second byte of a sequence of three keeps it shortest and no surrogate. -/
def fitsThree (first second : UInt8) : Bool :=
  isContinuation second &&
    !(first == 0xE0 && second < 0xA0) && !(first == 0xED && 0xA0 ≤ second)

/-- Whether the second byte of a sequence of four keeps it shortest and in range. -/
def fitsFour (first second : UInt8) : Bool :=
  isContinuation second &&
    !(first == 0xF0 && second < 0x90) && !(first == 0xF4 && 0x90 ≤ second)

/-- The characters of the bytes that start at `index`. -/
def decodeFrom (index : Nat) : List UInt8 → Except Utf8Error (List Char)
  | [] => .ok []
  | a :: rest =>
    if a < 0x80 then
      (Char.ofNat a.toNat :: ·) <$> decodeFrom (index + 1) rest
    else if 0xC2 ≤ a && a < 0xE0 then
      match rest with
      | [] => .error (.incomplete index)
      | b :: rest =>
        if !isContinuation b then .error (.invalid 1 index)
        else (Char.ofNat (extend (a &&& 0x1F).toNat b) :: ·) <$> decodeFrom (index + 2) rest
    else if 0xE0 ≤ a && a < 0xF0 then
      match rest with
      | [] => .error (.incomplete index)
      | [b] => .error (if fitsThree a b then .incomplete index else .invalid 1 index)
      | b :: c :: rest =>
        if !fitsThree a b then .error (.invalid 1 index)
        else if !isContinuation c then .error (.invalid 2 index)
        else
          (Char.ofNat (extend (extend (a &&& 0x0F).toNat b) c) :: ·) <$>
            decodeFrom (index + 3) rest
    else if 0xF0 ≤ a && a < 0xF5 then
      match rest with
      | [] => .error (.incomplete index)
      | [b] => .error (if fitsFour a b then .incomplete index else .invalid 1 index)
      | [b, c] =>
        .error (if !fitsFour a b then .invalid 1 index
          else if isContinuation c then .incomplete index else .invalid 2 index)
      | b :: c :: d :: rest =>
        if !fitsFour a b then .error (.invalid 1 index)
        else if !isContinuation c then .error (.invalid 2 index)
        else if !isContinuation d then .error (.invalid 3 index)
        else
          (Char.ofNat (extend (extend (extend (a &&& 0x07).toNat b) c) d) :: ·) <$>
            decodeFrom (index + 4) rest
    else .error (.invalid 1 index)

/-- The text that the bytes encode. -/
def decodeUtf8 (bytes : List UInt8) : Except Utf8Error String :=
  String.ofList <$> decodeFrom 0 bytes

end QuantumBoard.Text

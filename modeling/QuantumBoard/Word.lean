/-! Basis states as 64-bit words: the bit of a qubit is the bit at its row. A register is a
list of rows, lowest bit first; gathering reads it as a number, scattering writes it. -/

namespace QuantumBoard.Word

/-- The amount of a shift by a row. -/
def amount (row : Nat) : UInt64 := UInt64.ofNat row

/-- The bit of a row, `0` or `1`. -/
def bit (state : UInt64) (row : Nat) : UInt64 := state >>> amount row &&& 1

/-- The word with one bit set. -/
def single (row : Nat) : UInt64 := 1 <<< amount row

def isSet (state : UInt64) (row : Nat) : Bool := bit state row == 1

/-- The lowest bits of a word, all of them when the width is 64 or more. -/
def lowBits (width : Nat) : UInt64 := if 64 ≤ width then 0xFFFFFFFFFFFFFFFF else single width - 1

/-- The number of bits that are set. -/
def count (x : UInt64) : UInt64 := (List.range 64).foldl (fun n row => n + bit x row) 0

/-- Reads the register at the given rows, from bit `index` of the answer on. -/
def gatherFrom (state : UInt64) (index : Nat) : List Nat → UInt64
  | [] => 0
  | row :: rows => bit state row <<< amount index ||| gatherFrom state (index + 1) rows

/-- The number in the register at the given rows. -/
def gather (state : UInt64) (rows : List Nat) : UInt64 := gatherFrom state 0 rows

/-- Writes one bit, `0` or `1`. -/
def write (state : UInt64) (row : Nat) (b : UInt64) : UInt64 :=
  state &&& ~~~(single row) ||| b <<< amount row

/-- Writes the bits of a number from bit `index` on into the register at the given rows. -/
def scatterFrom (state : UInt64) (value : UInt64) (index : Nat) : List Nat → UInt64
  | [] => state
  | row :: rows => scatterFrom (write state row (bit value index)) value (index + 1) rows

/-- The state with a number written into the register at the given rows. -/
def scatter (state : UInt64) (rows : List Nat) (value : UInt64) : UInt64 :=
  scatterFrom state value 0 rows

/-- One step of Newton's iteration for the inverse of an odd number; it doubles the
number of low bits that are right. -/
def newtonStep (a inverse : UInt64) : UInt64 := inverse * (2 - a * inverse)

/-- The inverse of an odd number modulo `2 ^ 64`; three bits of the number itself are right. -/
def oddInverse (a : UInt64) : UInt64 := Nat.repeat (newtonStep a) 6 a

end QuantumBoard.Word

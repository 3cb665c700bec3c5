import QuantumBoard.Gate.Transform

/-! Arithmetic gates: a transform on a target register followed by its input registers. -/

namespace QuantumBoard

structure ArithmeticGate where
  transform : Transform
  targetWidth : Nat
  inputWidths : List Nat
deriving Repr, DecidableEq

namespace ArithmeticGate

/-- The bits of registers that follow each other. -/
def totalWidth (widths : List Nat) : Nat := widths.foldr (· + ·) 0

/-- The bits of the target and of the inputs behind it. -/
def span (g : ArithmeticGate) : Nat := g.targetWidth + totalWidth g.inputWidths

/-- The number of qubits. Widths are added up in 32 bits, and a sum that does not fit wraps. -/
def numQubits (g : ArithmeticGate) : Nat := g.span % 4294967296

/-- The numbers in registers of the given widths that follow each other from a bit on. -/
def slices (bits : UInt64) (offset : Nat) : List Nat → List UInt64
  | [] => []
  | width :: widths =>
    (bits >>> Word.amount offset &&& Word.lowBits width) :: slices bits (offset + width) widths

/-- The bits of the gate's qubits after the gate; those of the inputs stay. -/
def applyToBits (g : ArithmeticGate) (bits : UInt64) : UInt64 :=
  let low := Word.lowBits g.targetWidth
  let values := slices bits g.targetWidth g.inputWidths
  bits &&& ~~~low ||| g.transform.apply (bits &&& low) values g.targetWidth

def inverse (g : ArithmeticGate) : ArithmeticGate := { g with transform := g.transform.inverse }

end ArithmeticGate

end QuantumBoard

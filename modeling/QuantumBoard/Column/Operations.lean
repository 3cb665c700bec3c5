import QuantumBoard.Column.Resolved

/-! The input registers of a column, which are the rows that input cells give to the registers,
and the operations of single cells, as they stand in the controlled region of a column. -/

namespace QuantumBoard

abbrev Inputs := Register → Option (List Nat)

namespace Inputs

def empty : Inputs := fun _ => none

/-- Gives rows to a register that has none yet. -/
def bind (inputs : Inputs) (register : Register) (rows : List Nat) : Except ColumnError Inputs :=
  if (inputs register).isSome then .error (.duplicateInput register)
  else .ok fun other => if other = register then some rows else inputs other

/-- The rows of a register that a cell reads; they must not be among its target rows. -/
def require (inputs : Inputs) (register : Register) (cell : String) (target : List Nat) :
    Except ColumnError (List Nat) :=
  match inputs register with
  | none => .error (.missingInput register cell)
  | some rows =>
    if rows.any (target.contains ·) then .error (.inputOverlap register cell) else .ok rows

end Inputs

namespace Column

def measure (basis : Option WireGate) (row : Nat) : List Operation :=
  match basis with
  | none => [.measure row]
  | some g => [.wire g row, .measure row, .wire g.inverse row]

/-- A power of the axis for each bit of register `a`: a half for the highest bit, half as much for
each bit below. -/
def inputRotation (axis : Axis) (sign : Float) (row : Nat) (bits : List Nat) : List Operation :=
  let scale := sign / Float.ofNat (Nat.pow 2 bits.length)
  bits.mapIdx fun k bit =>
    (Operation.wire (axis.fixedPower (scale * Float.ofNat (Nat.pow 2 k))) row).controlledBy [bit]

/-- A labelled gate on the rows. -/
def labelled (id : String) (kind : GateKind) (rows : List Nat) : List Operation :=
  [.ofGate ⟨kind, some id⟩ rows]

def spectrumGate (width : Nat) : Spectrum → RegisterGate
  | .fourier inverse => .fourier width inverse
  | .gradient exponent => .gradient width (.constant exponent)
  | .timedGradient sign =>
    .gradient width
      (.binary .mul (.constant (sign * Float.ofNat (Nat.pow 2 (width - 1)))) .time)

/-- An arithmetic gate on the target rows followed by the rows of the registers it reads. -/
def arithmetic (t : Transform) (id : String) (target : List Nat) (inputs : Inputs) :
    Except ColumnError (List Operation) := do
  let registers ← t.inputs.mapM fun register => inputs.require register id target
  let gate : ArithmeticGate := ⟨t, target.length, registers.map List.length⟩
  return labelled id (.arithmetic gate) (target ++ registers.flatten)

/-- The operations of a custom gate, from its row on. -/
def custom (definition : Definition) (row : Nat) : List Operation :=
  match definition with
  | .matrix g => [.ofKind (.matrix g) (List.range' row g.width)]
  | .circuit ops => ops.map (Operation.mapRows (· + row))

/-- The operations of one cell in the controlled region, without the controls. -/
def cellOperations (inputs : Inputs) (p : Placed) : Except ColumnError (List Operation) :=
  let id := p.cell.id
  match p.cell.kind with
  | .control _ | .parity _ | .swap | .input _ _ | .display => .ok []
  | .gate g => .ok [.wire g p.row]
  | .formula axis rotation default =>
    match Formula.ofArgument default p.argument with
    | .error e => .error (.formula e)
    | .ok e => .ok [.wire (if rotation then .rotation axis e else .power axis e) p.row]
  | .identity => .ok [.wire .identity p.row]
  | .scalar z => .ok [.phase z]
  | .measurement basis => .ok (measure basis p.row)
  | .inputRotation axis sign => do
    return inputRotation axis sign p.row (← inputs.require .a id [p.row])
  | .rearrangement r =>
    .ok (labelled id (.register (.permutation (r.mapping p.cell.size))) p.footprint)
  | .spectrum s => .ok (labelled id (.register (spectrumGate p.cell.size s)) p.footprint)
  | .arithmetic t => arithmetic t id p.footprint inputs
  | .custom definition => .ok (custom definition p.row)
  | .unsupported reason => .error (.unphysical id reason)

end Column

end QuantumBoard

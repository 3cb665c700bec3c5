import QuantumBoard.CommandLine.Run
import QuantumBoard.Proofs.Board.Placement
import QuantumBoard.Proofs.Circuit.Checked

/-! # Circuits of documents on a machine that checks each step

What a document compiles to runs on every basis state and at every time without a step that the
checked machine stops at: the operations were added one by one, so each has its targets and no row
twice, and the cells that made them lay out registers of a bounded width. Custom gates and a bound
time keep both. -/

namespace QuantumBoard.Board

variable {document : Json} {c : Circuit}

/-- What holds of the operations of a circuit and is kept by binding holds at every time. -/
theorem forall_mem_atTime {P : Operation → Prop}
    (keeps : ∀ name v op, P op → P (Operation.bind name v op))
    (holds : ∀ op ∈ c.operations.toList, P op) (time : Option Float) :
    ∀ op ∈ (CommandLine.atTime time c).operations.toList, P op := by
  cases time with
  | none => exact holds
  | some v => exact Circuit.forall_mem_bind (keeps _ v) holds

/-- The circuit of a document runs on the checked machine, at every time and on every state: no
shift is by 64 or more, no list is read behind its end, no difference is below zero and no sum too
large. It gives a state, or it fails on a row that is no row of a basis state, or on an operation
that maps a basis state to a superposition. -/
theorem compile_runs_checked (compiled : compile document = .ok c) (time : Option Float)
    (state : UInt64) :
    let timed := CommandLine.atTime time c
    Checked.runAll state timed.operations.toList = .ok (timed.run state) ∧
      ((∃ state', timed.run state = .ok state') ∨ ∃ op ∈ timed.operations.toList,
        (∃ row ∈ op.rows, 64 ≤ row ∧ timed.run state = .error (.outOfRange row)) ∨
          timed.run state = .error (.notClassical op.name)) := by
  intro timed
  have sound : ∀ op ∈ timed.operations.toList, op.Sound :=
    forall_mem_atTime (fun name v op sound => sound.bind name v) (sound_of_compile compiled) time
  have placed : ∀ op ∈ timed.operations.toList, op.WellPlaced :=
    forall_mem_atTime (fun name v op placed => placed.bind name v)
      (wellPlaced_of_compile compiled) time
  have checked : Checked.runAll state timed.operations.toList = .ok (timed.run state) :=
    Checked.runAll_eq sound placed
  refine ⟨checked, ?_⟩
  match result : timed.run state with
  | .ok state' => exact .inl ⟨state', rfl⟩
  | .error e =>
    rw [result] at checked
    obtain ⟨op, mem, why⟩ := Checked.runAll_error checked
    refine .inr ⟨op, mem, why.imp ?_ (congrArg _)⟩
    rintro ⟨row, mem, outside, rfl⟩
    exact ⟨row, mem, outside, rfl⟩

/-- A rotation of three rows and a turn in time, both under a control. -/
def steeredColumn : List Json := [.text "•", .text "X^t", .text "<<3"]

def steeredOperations : List Operation :=
  [(Operation.wire (.power .x .time) 1).controlledBy [0],
    (Operation.ofGate ⟨.register (.permutation [1, 2, 0]), some "<<3"⟩ [2, 3, 4]).controlledBy [0]]

theorem compileColumns_steeredColumn :
    compileColumns [] [steeredColumn] = .ok steeredOperations := by
  have control : CustomGates.find? [] "•" = some ⟨"•", 1, .control none⟩ := by
    rw [CustomGates.find?_nil]
    decide +kernel
  have turn : CustomGates.find? [] "X^t" = some ⟨"X^t", 1, .gate (.power .x .time)⟩ := by
    rw [CustomGates.find?_nil]
    decide +kernel
  have rotation : CustomGates.find? [] "<<3" = some ⟨"<<3", 3, .rearrangement .rotateLeft⟩ := by
    rw [CustomGates.find?_nil]
    decide +kernel
  have resolved : Column.resolve [] steeredColumn = .ok [⟨0, ⟨"•", 1, .control none⟩, none⟩,
      ⟨1, ⟨"X^t", 1, .gate (.power .x .time)⟩, none⟩,
      ⟨2, ⟨"<<3", 3, .rearrangement .rotateLeft⟩, none⟩] := by
    refine Column.resolve_eq_ok.mpr ⟨[.bare "•", .bare "X^t", .bare "<<3"], rfl, ?_⟩
    refine Column.placeFrom_cons rfl (Column.place_eq_ok.mpr ⟨_, control, by simp, rfl⟩) ?_
    refine Column.placeFrom_cons rfl (Column.place_eq_ok.mpr ⟨_, turn, by simp, rfl⟩) ?_
    exact Column.placeFrom_cons rfl (Column.place_eq_ok.mpr ⟨_, rotation, by simp, rfl⟩) rfl
  exact compileColumns_singleton.mpr ⟨_, resolved, Column.build_eq_ok.mpr ⟨_, rfl, by decide⟩⟩

/-- At time 1 the control is set, its neighbour is flipped and the three rows are rotated. -/
theorem compile_runs_checked_steeredColumn :
    ∃ c, compile (.object [("cols", .array [.array steeredColumn])]) = .ok c ∧
      Checked.runAll 0b00101 (CommandLine.atTime (some 1) c).operations.toList =
        .ok (.ok 0b01011) := by
  obtain ⟨c, compiled, operations⟩ :=
    compile_of_parts [("cols", .array [.array steeredColumn])] rfl rfl rfl rfl
      compileColumns_steeredColumn
  obtain ⟨checked, -⟩ := compile_runs_checked compiled (some 1) 0b00101
  refine ⟨c, compiled, checked.trans (congrArg _ ?_)⟩
  have bound : (CommandLine.atTime (some 1) c).operations.toList =
      steeredOperations.map (Operation.bind Formula.timeName 1) := by
    simp [CommandLine.atTime, Circuit.bind, operations]
  rw [Circuit.run, bound]
  decide +kernel

end QuantumBoard.Board

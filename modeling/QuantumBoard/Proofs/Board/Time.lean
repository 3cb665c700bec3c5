import QuantumBoard.Proofs.Board.Placement
import QuantumBoard.Proofs.Column.Time
import QuantumBoard.Proofs.Formula.Reread

/-! # Circuits of documents at a time

The time is the only symbol in the circuit of a document, whatever custom gates the document
defines. Binding the time leaves a circuit of the same operations, with values for formulas. -/

namespace QuantumBoard.Board

open Success

theorem compileColumns_timed {custom : CustomGates} (timed : custom.Timed)
    {columns : List (List Json)} {ops : List Operation}
    (h : compileColumns custom columns = .ok ops) : ∀ op ∈ ops, op.Timed := by
  intro op hop
  obtain ⟨entries, cells, column, resolved, built, hop⟩ := mem_compileColumns h hop
  refine Column.build_timed (fun p hp => ?_) built op hop
  obtain ⟨id, found⟩ := Column.found_of_resolve resolved p hp
  exact timed.find? found

theorem defineGate_timed {earlier : CustomGates} (timed : earlier.Timed) {entry : Json}
    {cell : Cell} (h : defineGate earlier entry = .ok cell) : cell.Timed := by
  rcases kind_of_defineGate h with ⟨g, kind⟩ | ⟨columns, ops, compiled, kind⟩
  · refine ⟨fun g wire => ?_, fun ops definition => ?_⟩
    · simp [kind, CellKind.wireGate?] at wire
    · simp [kind] at definition
  · refine ⟨fun g wire => ?_, fun ops' definition => ?_⟩
    · simp [kind, CellKind.wireGate?] at wire
    · cases kind.symm.trans definition
      exact compileColumns_timed timed compiled

/-- The custom gates of a document depend on the time at most. -/
theorem customGates_timed {gates : Option Json} {custom : CustomGates}
    (h : customGates gates = .ok custom) : custom.Timed :=
  forall_of_customGates (fun _ _ _ timed => defineGate_timed timed) h

theorem preparation_onlyTime {entry : Json} {gates : List WireGate}
    (h : preparation? entry = some gates) :
    ∀ g ∈ gates, ∀ e, g.parameter? = some e → e.OnlyTime := by
  intro g hg e parameter
  rcases mem_preparation h hg with rfl | rfl | ⟨exponent, rfl⟩
  · cases parameter
  · cases parameter
  · cases parameter
    exact Expr.onlyTime_constant exponent

theorem initialOperations_timed {initial : Option Json} {ops : List Operation}
    (h : initialOperations initial = .ok ops) : ∀ op ∈ ops, op.Timed := by
  intro op hop
  obtain ⟨entry, gates, g, row, prepared, hg, rfl⟩ := mem_initialOperations h hop
  exact preparation_onlyTime prepared g hg

/-- The operations of the circuit of a document depend on the time at most. -/
theorem timed_of_compile {document : Json} {c : Circuit} (h : compile document = .ok c) :
    ∀ op ∈ c.operations.toList, op.Timed := by
  intro op hop
  rcases mem_compile h hop with
    ⟨initial, prepared, hop⟩ | ⟨custom, columns, ops, table, compiled, hop⟩
  · exact initialOperations_timed prepared op hop
  · exact compileColumns_timed (customGates_timed table) compiled op hop

/-- The time is the only symbol in the circuit of a document. Binding it to a value leaves no
formula with a symbol, and the same operations in the same order, with the value of each formula or
with a formula that has none because it divides by zero. -/
theorem compile_bound_in_time {document : Json} {c : Circuit}
    (compiled : compile document = .ok c) :
    (∀ op ∈ c.operations.toList, ∀ e, op.formula? = some e → e.OnlyTime) ∧
    ∀ v, (c.bind Formula.timeName v).name = c.name ∧
      (c.bind Formula.timeName v).isParameterized = false ∧
      List.Forall₂ (Operation.Bound v) c.operations.toList
        (c.bind Formula.timeName v).operations.toList := by
  have timed := timed_of_compile compiled
  exact ⟨timed, fun v => ⟨rfl, Circuit.isParameterized_bind timed v, Circuit.forall₂_bind timed v⟩⟩

/-- A custom gate that turns with the time. -/
def turningGate : Json :=
  .object [("circuit", .object [("cols", .array [.array [.text "X^t"]])]), ("id", .text "~turn")]

def turningGateCell : Cell := ⟨"~turn", 1, .custom (.circuit [.wire (.power .x .time) 0])⟩

/-- The custom gate above a power whose exponent is the reciprocal of the time. -/
def turningColumn : List Json :=
  [.text "~turn", .object [("arg", .text "1/t"), ("id", .text "Z^ft")]]

def reciprocal : Expr := .binary .div (.constant 1) .time

theorem customGates_turningGate :
    customGates (some (.array [turningGate])) = .ok [turningGateCell] := by
  have resolved : Column.resolve [] [.text "X^t"] =
      .ok [⟨0, ⟨"X^t", 1, .gate (.power .x .time)⟩, none⟩] :=
    @Column.resolve_texts [] ["X^t"] [⟨"X^t", 1, .gate (.power .x .time)⟩] (by decide +kernel)
      (by decide)
  have built : Column.build [⟨0, ⟨"X^t", 1, .gate (.power .x .time)⟩, none⟩] =
      .ok [.wire (.power .x .time) 0] :=
    Column.build_eq_ok.mpr ⟨_, rfl, by decide⟩
  have defined : defineGate [] turningGate = .ok turningGateCell :=
    defineGate_eq_ok.mpr ⟨"~turn", rfl, .inr ⟨_, rfl, rfl, circuitCell_eq_ok.mpr
      ⟨_, _, _, rfl, rfl, compileColumns_singleton.mpr ⟨_, resolved, built⟩, by decide⟩⟩⟩
  rw [customGates, List.foldlM_cons, addGate_eq_ok.mpr
    ⟨_, defined, fun _ none => absurd none List.not_mem_nil, rfl⟩]
  rfl

theorem ofText_reciprocal : Formula.ofText "1/t" = .ok reciprocal := by
  have scanned : Formula.scan "1/t".toList = .ok [.number 1, .slash, .name "t"] :=
    toOption_eq_some.mp (by decide +kernel)
  have derived : Formula.Derives .sum [.number 1, .slash, .name "t"] reciprocal :=
    .product (.div (.signed (.primary (.number 1))) (.primary (.symbol (by decide))))
  exact Formula.ofText_eq_ok.mpr ⟨_, Expr.parse_of_derives (by decide) scanned derived,
    by decide, by decide +kernel, rfl⟩

theorem compileColumns_turningColumn : compileColumns [turningGateCell] [turningColumn] =
    .ok [.wire (.power .x .time) 0, .wire (.power .z reciprocal) 1] := by
  have turning : CustomGates.find? [turningGateCell] "~turn" = some turningGateCell := by
    rw [CustomGates.find?_eq]
    decide +kernel
  have power : CustomGates.find? [turningGateCell] "Z^ft" =
      some ⟨"Z^ft", 1, .formula .z false "sin(pi*t)"⟩ := by
    rw [CustomGates.find?_eq]
    decide +kernel
  have resolved : Column.resolve [turningGateCell] turningColumn = .ok
      [⟨0, turningGateCell, none⟩,
        ⟨1, ⟨"Z^ft", 1, .formula .z false "sin(pi*t)"⟩, some (.text "1/t")⟩] := by
    refine Column.resolve_eq_ok.mpr
      ⟨[.bare "~turn", .withArgument "Z^ft" (some (.text "1/t"))], rfl, ?_⟩
    exact Column.placeFrom_cons rfl
      (Column.place_eq_ok.mpr ⟨_, turning, by simp [turningGateCell], rfl⟩)
      (Column.placeFrom_cons rfl (Column.place_eq_ok.mpr ⟨_, power, by simp, rfl⟩) rfl)
  have gate : Column.controlledOperations Inputs.empty [] ⟨0, turningGateCell, none⟩ =
      .ok [.wire (.power .x .time) 0] := rfl
  have formula : Column.controlledOperations Inputs.empty []
      ⟨1, ⟨"Z^ft", 1, .formula .z false "sin(pi*t)"⟩, some (.text "1/t")⟩ =
      .ok [.wire (.power .z reciprocal) 1] := by
    refine Column.controlledOperations_eq_ok.mpr ⟨[.wire (.power .z reciprocal) 1], ?_, ?_, rfl⟩
    · simp only [Column.cellOperations, Formula.ofArgument, ofText_reciprocal]
      rfl
    · exact fun controlled => controlled.1 rfl
  exact compileColumns_singleton.mpr ⟨_, resolved, Column.build_eq_ok.mpr ⟨_, Column.parts_eq_ok.mpr
    ⟨_, _, _, rfl, rfl, mapM_eq_ok.mpr (.cons gate (.cons formula .nil)), rfl⟩, rfl⟩⟩

/-- At time 2 both exponents have values; at time 0 the reciprocal has none, and no symbol
either. -/
theorem compile_bound_in_time_turningColumn :
    ∃ c, compile (.object [("cols", .array [.array turningColumn]),
        ("gates", .array [turningGate])]) = .ok c ∧
      c.operations.toList = [.wire (.power .x .time) 0, .wire (.power .z reciprocal) 1] ∧
      (c.bind Formula.timeName 2).operations.toList =
        [.wire (.power .x (.constant 2)) 0, .wire (.power .z (.constant 0.5)) 1] ∧
      (c.bind Formula.timeName 0).isParameterized = false := by
  obtain ⟨c, compiled, operations⟩ := compile_of_parts
    [("cols", .array [.array turningColumn]), ("gates", .array [turningGate])] rfl rfl
    customGates_turningGate rfl compileColumns_turningColumn
  obtain ⟨-, atTime⟩ := compile_bound_in_time compiled
  refine ⟨c, compiled, operations, ?_, (atTime 0).2.1⟩
  obtain ⟨-, -, bound⟩ := atTime 2
  rw [operations] at bound
  obtain ⟨turn, rest, turned, bound, split⟩ := List.forall₂_cons_left_iff.mp bound
  obtain ⟨power, rest, powered, none, rfl⟩ := List.forall₂_cons_left_iff.mp bound
  obtain rfl := List.forall₂_nil_left_iff.mp none
  obtain ⟨exponent, rfl, -, resolved⟩ := turned.formula .time rfl
  obtain ⟨exponent', rfl, -, resolved'⟩ := powered.formula reciprocal rfl
  rw [split, resolved.value 2 (by decide +kernel), resolved'.value 0.5 (by decide +kernel)]
  rfl

end QuantumBoard.Board

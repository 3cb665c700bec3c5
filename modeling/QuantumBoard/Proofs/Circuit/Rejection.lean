import QuantumBoard.Proofs.Circuit.Inverse

/-! # What a circuit takes

An operation is taken when it has a target for each qubit of its gate and no row twice. The count
is looked at first, then the rows in order, targets before controls, and the first row that was
there before is reported. Operations that are added together are added up to the first that is
turned down. Binding a symbol changes nothing of this. -/

namespace QuantumBoard

namespace Operation

variable {op : Operation} {e : PlacementError}

/-- The operation has as many targets as its gate has qubits. -/
def Counted (op : Operation) : Prop :=
  ∀ g, op.action = .gate g → op.targets.length = g.kind.numQubits

structure WellPlaced (op : Operation) : Prop where
  counted : op.Counted
  distinct : op.rows.Nodup

/-- Why an operation is turned down. -/
inductive Rejected (op : Operation) : PlacementError → Prop
  | count {g : Gate} (action : op.action = .gate g)
      (wrong : op.targets.length ≠ g.kind.numQubits) :
      Rejected op (.count g.displayName g.kind.numQubits op.targets.length)
  | duplicate {front behind : List Nat} {row : Nat} (counted : op.Counted)
      (rows : op.rows = front ++ row :: behind) (distinct : front.Nodup) (again : row ∈ front) :
      Rejected op (.duplicate row op.name)

theorem counted_iff :
    op.Counted ↔ ∀ n, op.arity? = some n → n = op.targets.length := by
  match op with
  | ⟨.gate g, targets, _⟩ => simp [Counted, arity?, eq_comm]
  | ⟨.measure, _, _⟩ | ⟨.phase _, _, _⟩ => simp [Counted, arity?]

theorem placementError?_eq_none_iff : op.placementError? = none ↔ op.WellPlaced := by
  rw [placementError?_eq_none, ← counted_iff]
  exact ⟨fun ⟨counted, distinct⟩ => ⟨counted, distinct⟩, fun h => ⟨h.counted, h.distinct⟩⟩

/-- The row reported is the first of those that were there before. -/
theorem firstRepeat?_eq_some {seen rows : List Nat} {row : Nat} :
    firstRepeat? seen rows = some row ↔ ∃ front behind, rows = front ++ row :: behind ∧
      front.Nodup ∧ (∀ r ∈ front, r ∉ seen) ∧ (row ∈ seen ∨ row ∈ front) := by
  induction rows generalizing seen with
  | nil => simp [firstRepeat?]
  | cons first rows ih =>
    rw [firstRepeat?]
    by_cases known : first ∈ seen
    · rw [if_pos known, Option.some.injEq]
      constructor
      · rintro rfl
        exact ⟨[], rows, rfl, .nil, List.forall_mem_nil _, .inl known⟩
      · rintro ⟨_ | ⟨_, front⟩, behind, split, -, fresh, -⟩
        · exact (List.cons.inj split).1
        · cases split
          exact absurd known (fresh first List.mem_cons_self)
    · rw [if_neg known, ih]
      constructor
      · rintro ⟨front, behind, rfl, distinct, fresh, again⟩
        refine ⟨first :: front, behind, rfl, ?_, ?_, ?_⟩ <;> grind
      · rintro ⟨_ | ⟨_, front⟩, behind, split, distinct, fresh, again⟩
        · cases split
          simp [known] at again
        · cases split
          refine ⟨front, behind, rfl, ?_, ?_, ?_⟩ <;> grind

theorem placementError?_eq_some_iff : op.placementError? = some e ↔ op.Rejected e := by
  by_cases counted : op.Counted
  · have noCount : op.arity?.filter (· ≠ op.targets.length) = none := by
      rw [Option.filter_eq_none_iff]
      intro n hn
      simpa using counted_iff.mp counted n hn
    rw [placementError?, noCount, Option.map_eq_some_iff]
    constructor
    · rintro ⟨row, repeated, rfl⟩
      obtain ⟨front, behind, rows, distinct, -, again⟩ := firstRepeat?_eq_some.mp repeated
      exact .duplicate counted rows distinct (again.resolve_left List.not_mem_nil)
    · rintro (⟨action, wrong⟩ | ⟨-, rows, distinct, again⟩)
      · exact absurd (counted _ action) wrong
      · exact ⟨_, firstRepeat?_eq_some.mpr ⟨_, _, rows, distinct, nofun, .inr again⟩, rfl⟩
  · obtain ⟨g, action, wrong⟩ : ∃ g, op.action = .gate g ∧
        op.targets.length ≠ g.kind.numQubits := by
      simpa [Counted] using counted
    have name : op.name = g.displayName := by rw [Operation.name, action]; rfl
    have wrongCount : op.arity?.filter (· ≠ op.targets.length) = some g.kind.numQubits := by
      rw [arity?, action, Option.filter_some_pos (by simpa using Ne.symm wrong)]
    rw [placementError?, wrongCount, Option.some.injEq, name]
    constructor
    · rintro rfl
      exact .count action wrong
    · rintro (⟨action', -⟩ | ⟨counted', -, -, -⟩)
      · cases action.symm.trans action'
        rfl
      · exact absurd counted' counted

/-- An operation is taken, or there is a reason that it is not. -/
theorem wellPlaced_or_rejected (op : Operation) : op.WellPlaced ∨ ∃ e, op.Rejected e := by
  match h : op.placementError? with
  | none => exact .inl (placementError?_eq_none_iff.mp h)
  | some e => exact .inr ⟨e, placementError?_eq_some_iff.mp h⟩

end Operation

/-! ## Adding operations -/

namespace Circuit

variable {c : Circuit} {op : Operation} {ops : List Operation} {e : PlacementError}

/-- The circuit with operations behind its own. -/
def appended (c : Circuit) (ops : List Operation) : Circuit :=
  { c with operations := c.operations ++ ops.toArray }

@[simp] theorem appended_nil (c : Circuit) : c.appended [] = c := by
  simp [appended]

theorem appended_appended (c : Circuit) (front behind : List Operation) :
    (c.appended front).appended behind = c.appended (front ++ behind) := by
  simp [appended]

theorem mem_appended {op : Operation} : op ∈ (c.appended ops).operations.toList ↔
    op ∈ c.operations.toList ∨ op ∈ ops := by
  simp [appended]

theorem push_of_wellPlaced (placed : op.WellPlaced) (c : Circuit) :
    c.push op = .ok (c.appended [op]) := by
  refine push_eq_ok.mpr ⟨Operation.placementError?_eq_none_iff.mpr placed, ?_⟩
  simp [appended]

theorem push_of_rejected (rejected : op.Rejected e) (c : Circuit) : c.push op = .error e := by
  rw [push, Operation.placementError?_eq_some_iff.mpr rejected]

/-- Operations in front that are taken stand in the circuit before the others are looked at. -/
theorem extend_append {front : List Operation} (placed : ∀ op ∈ front, op.WellPlaced)
    (c : Circuit) (behind : List Operation) :
    c.extend (front ++ behind) = (c.appended front).extend behind := by
  induction front generalizing c with
  | nil => rw [List.nil_append, appended_nil]
  | cons op front ih =>
    rw [List.cons_append, extend, push_of_wellPlaced (placed op List.mem_cons_self)]
    show (c.appended [op]).extend (front ++ behind) = _
    rw [ih (fun op mem => placed op (List.mem_cons_of_mem _ mem)), appended_appended]
    rfl

theorem extend_of_wellPlaced (placed : ∀ op ∈ ops, op.WellPlaced) (c : Circuit) :
    c.extend ops = (c.appended ops, none) := by
  have whole := extend_append placed c []
  rwa [List.append_nil] at whole

/-- Operations are added up to the first that is turned down, and its error is reported. -/
theorem extend_of_rejected {front : List Operation} (placed : ∀ op ∈ front, op.WellPlaced)
    (rejected : op.Rejected e) (c : Circuit) (behind : List Operation) :
    c.extend (front ++ op :: behind) = (c.appended front, some e) := by
  rw [extend_append placed, extend, push_of_rejected rejected]

theorem Built.wellPlaced (built : c.Built) : ∀ op ∈ c.operations.toList, op.WellPlaced :=
  fun op hop => Operation.placementError?_eq_none_iff.mp (built.placed op hop)

/-- A circuit of operations that are taken can be built. -/
theorem built_of_wellPlaced (placed : ∀ op ∈ c.operations.toList, op.WellPlaced) : c.Built := by
  have whole := Built.extend c.operations.toList (Built.empty c.name)
  rw [extend_of_wellPlaced placed] at whole
  simpa [appended] using whole

/-- All of a list of operations is taken, or one of them is the first that is not. -/
theorem all_wellPlaced_or_first_rejected (ops : List Operation) :
    (∀ op ∈ ops, op.WellPlaced) ∨ ∃ front op behind e, ops = front ++ op :: behind ∧
      (∀ op ∈ front, op.WellPlaced) ∧ op.Rejected e := by
  induction ops with
  | nil => exact .inl nofun
  | cons first ops ih =>
    rcases first.wellPlaced_or_rejected with placed | ⟨e, rejected⟩
    · rcases ih with all | ⟨front, op, behind, e, rfl, before, rejected⟩
      · exact .inl (List.forall_mem_cons.mpr ⟨placed, all⟩)
      · exact .inr ⟨first :: front, op, behind, e, rfl,
          List.forall_mem_cons.mpr ⟨placed, before⟩, rejected⟩
    · exact .inr ⟨[], first, ops, e, rfl, nofun, rejected⟩

end Circuit

/-! ## Binding -/

@[simp] theorem GateKind.numQubits_bind (name : String) (v : Float) (kind : GateKind) :
    (kind.bind name v).numQubits = kind.numQubits := by
  match kind with
  | .wire g => cases g <;> rfl
  | .register g => cases g <;> rfl
  | .arithmetic _ | .matrix _ => rfl

/-- A gate is as sound with a value as with the symbol. -/
theorem GateKind.Sound.bind {kind : GateKind} (sound : kind.Sound) (name : String) (v : Float) :
    (kind.bind name v).Sound := by
  match kind with
  | .wire _ | .register (.fourier _ _) | .register (.gradient _ _) => trivial
  | .register (.permutation _) | .arithmetic _ | .matrix _ => exact sound

namespace Operation

variable {op : Operation}

theorem Sound.bind (sound : op.Sound) (name : String) (v : Float) : (op.bind name v).Sound := by
  match op with
  | ⟨.gate g, _, _⟩ => exact GateKind.Sound.bind sound name v
  | ⟨.measure, _, _⟩ | ⟨.phase _, _, _⟩ => trivial

/-- Binding a symbol leaves an operation where it is. -/
theorem WellPlaced.bind (placed : op.WellPlaced) (name : String) (v : Float) :
    (op.bind name v).WellPlaced where
  counted := by
    match op, placed.counted with
    | ⟨.gate g, targets, _⟩, counted =>
      rintro _ ⟨⟩
      exact (counted g rfl).trans (g.kind.numQubits_bind name v).symm
    | ⟨.measure, _, _⟩, _ | ⟨.phase _, _, _⟩, _ => exact nofun
  distinct := placed.distinct

end Operation

/-- What binding keeps of every operation, it keeps of the circuit. -/
theorem Circuit.forall_mem_bind {P : Operation → Prop} {name : String} {v : Float}
    (keeps : ∀ op, P op → P (op.bind name v)) {c : Circuit}
    (holds : ∀ op ∈ c.operations.toList, P op) :
    ∀ op ∈ (c.bind name v).operations.toList, P op := by
  intro op mem
  obtain ⟨unbound, before, rfl⟩ : ∃ unbound ∈ c.operations.toList, unbound.bind name v = op := by
    simpa [Circuit.bind] using mem
  exact keeps unbound (holds unbound before)

end QuantumBoard

import Mathlib.Data.List.Forall2

/-! Computations that can fail, seen from a result: which steps must have succeeded, and with
what. -/

namespace QuantumBoard.Success

variable {α β ε ε' : Type}

@[simp] theorem bind_eq_ok {x : Except ε α} {f : α → Except ε β} {b : β} :
    (x >>= f) = .ok b ↔ ∃ a, x = .ok a ∧ f a = .ok b := by
  cases x <;> simp [bind, Except.bind]

@[simp] theorem map_eq_ok {x : Except ε α} {f : α → β} {b : β} :
    f <$> x = .ok b ↔ ∃ a, x = .ok a ∧ f a = b := by
  cases x <;> simp [Functor.map, Except.map]

@[simp] theorem pure_eq_ok {a b : α} : (pure a : Except ε α) = .ok b ↔ a = b := by
  simp [pure, Except.pure]

@[simp] theorem throw_ne_ok {e : ε} {a : α} : (throw e : Except ε α) ≠ .ok a := by
  simp [throw, throwThe, MonadExceptOf.throw]

@[simp] theorem mapError_eq_ok {f : ε → ε'} {x : Except ε α} {a : α} :
    x.mapError f = .ok a ↔ x = .ok a := by
  cases x <;> simp [Except.mapError]

@[simp] theorem bind_eq_error {x : Except ε α} {f : α → Except ε β} {e : ε} :
    (x >>= f) = .error e ↔ x = .error e ∨ ∃ a, x = .ok a ∧ f a = .error e := by
  cases x <;> simp [bind, Except.bind]

@[simp] theorem map_eq_error {x : Except ε α} {f : α → β} {e : ε} :
    f <$> x = .error e ↔ x = .error e := by
  cases x <;> simp [Functor.map, Except.map]

@[simp] theorem pure_ne_error {a : α} {e : ε} : (pure a : Except ε α) ≠ .error e := by
  simp [pure, Except.pure]

@[simp] theorem throw_eq_error {e e' : ε} : (throw e : Except ε α) = .error e' ↔ e = e' := by
  simp [throw, throwThe, MonadExceptOf.throw]

@[simp] theorem mapError_eq_error {f : ε → ε'} {x : Except ε α} {e' : ε'} :
    x.mapError f = .error e' ↔ ∃ e, x = .error e ∧ f e = e' := by
  cases x <;> simp [Except.mapError]

theorem toOption_eq_some {x : Except ε α} {a : α} : x.toOption = some a ↔ x = .ok a := by
  cases x <;> simp [Except.toOption]

theorem toOption_mapError {f : ε → ε'} {x : Except ε α} :
    (x.mapError f).toOption = x.toOption := by
  cases x <;> rfl

/-- A traversal succeeds when every step does. -/
theorem mapM_eq_ok {f : α → Except ε β} {xs : List α} {ys : List β} :
    xs.mapM f = .ok ys ↔ List.Forall₂ (fun x y => f x = .ok y) xs ys := by
  induction xs generalizing ys with
  | nil => rw [List.mapM_nil, pure_eq_ok, List.forall₂_nil_left_iff, eq_comm]
  | cons x xs ih =>
    rw [List.mapM_cons]
    cases ys with
    | nil => simp
    | cons y ys =>
      rw [List.forall₂_cons, ← ih]
      simp

/-- Every result of a traversal comes from one of the values traversed. -/
theorem exists_of_mem_mapM {f : α → Except ε β} {xs : List α} {ys : List β}
    (h : xs.mapM f = .ok ys) {y : β} (hy : y ∈ ys) : ∃ x ∈ xs, f x = .ok y := by
  have steps := mapM_eq_ok.mp h
  induction steps with
  | nil => cases hy
  | cons step _ ih =>
    rcases List.mem_cons.mp hy with rfl | hy
    · exact ⟨_, List.mem_cons_self, step⟩
    · obtain ⟨x, hx, hxy⟩ := ih (mapM_eq_ok.mpr ‹_›) hy
      exact ⟨x, List.mem_cons_of_mem _ hx, hxy⟩

/-- The error is that of the first value of a list for which a step fails. -/
def FirstFault (f : α → Except ε β) (xs : List α) (e : ε) : Prop :=
  ∃ before x behind, xs = before ++ x :: behind ∧ (∀ y ∈ before, ∃ z, f y = .ok z) ∧
    f x = .error e

theorem FirstFault.cons {f : α → Except ε β} {x : α} {xs : List α} {e : ε} {z : β}
    (first : f x = .ok z) (h : FirstFault f xs e) : FirstFault f (x :: xs) e := by
  obtain ⟨before, y, behind, rfl, succeed, fails⟩ := h
  refine ⟨x :: before, y, behind, rfl, fun other mem => ?_, fails⟩
  rcases List.mem_cons.mp mem with rfl | mem
  · exact ⟨z, first⟩
  · exact succeed other mem

/-- A traversal fails as the first step that fails. -/
theorem mapM_eq_error {f : α → Except ε β} {xs : List α} {e : ε} :
    xs.mapM f = .error e ↔ FirstFault f xs e := by
  constructor
  · intro h
    induction xs with
    | nil => cases h
    | cons x xs ih =>
      simp only [List.mapM_cons, bind_eq_error, pure_ne_error, and_false, exists_false,
        or_false] at h
      rcases h with fails | ⟨z, first, rest⟩
      · exact ⟨[], x, xs, rfl, fun y mem => absurd mem List.not_mem_nil, fails⟩
      · exact (ih rest).cons first
  · rintro ⟨before, x, behind, rfl, succeed, fails⟩
    induction before with
    | nil => rw [List.nil_append, List.mapM_cons, fails]; rfl
    | cons y before ih =>
      obtain ⟨z, first⟩ := succeed y List.mem_cons_self
      rw [List.cons_append, List.mapM_cons, first,
        ih fun other mem => succeed other (List.mem_cons_of_mem _ mem)]
      rfl

/-- A traversal fails as one of its steps does. -/
theorem exists_of_mapM_eq_error {f : α → Except ε β} {xs : List α} {e : ε}
    (h : xs.mapM f = .error e) : ∃ x ∈ xs, f x = .error e := by
  obtain ⟨before, x, behind, rfl, -, fails⟩ := mapM_eq_error.mp h
  exact ⟨x, List.mem_append_right _ List.mem_cons_self, fails⟩

/-- A traversal that succeeds has a result for each value. -/
theorem ok_of_mem_mapM {f : α → Except ε β} {xs : List α} {ys : List β}
    (h : xs.mapM f = .ok ys) {x : α} (hx : x ∈ xs) : ∃ y ∈ ys, f x = .ok y := by
  induction mapM_eq_ok.mp h with
  | nil => cases hx
  | cons first rest ih =>
    rcases List.mem_cons.mp hx with rfl | hx
    · exact ⟨_, List.mem_cons_self, first⟩
    · obtain ⟨y, hy, succeeds⟩ := ih (mapM_eq_ok.mpr rest) hx
      exact ⟨y, List.mem_cons_of_mem _ hy, succeeds⟩

/-- The results of a traversal stand where the values stood. -/
theorem getElem?_of_mapM {f : α → Except ε β} {xs : List α} {ys : List β}
    (h : xs.mapM f = .ok ys) (i : Nat) : ys[i]? = xs[i]?.bind fun x => (f x).toOption := by
  induction mapM_eq_ok.mp h generalizing i with
  | nil => rfl
  | cons first rest ih =>
    cases i with
    | zero => simp [first, Except.toOption]
    | succ i => exact ih (mapM_eq_ok.mpr rest) i

theorem exists_mapM_eq_ok {f : α → Except ε β} {xs : List α} (h : ∀ x ∈ xs, ∃ y, f x = .ok y) :
    ∃ ys, xs.mapM f = .ok ys := by
  cases result : xs.mapM f with
  | ok ys => exact ⟨ys, rfl⟩
  | error e =>
    obtain ⟨x, hx, fails⟩ := exists_of_mapM_eq_error result
    obtain ⟨y, succeeds⟩ := h x hx
    cases fails.symm.trans succeeds

theorem exists_firstFault {f : α → Except ε β} {xs : List α} (h : ∃ x ∈ xs, ∀ y, f x ≠ .ok y) :
    ∃ e, FirstFault f xs e := by
  cases result : xs.mapM f with
  | error e => exact ⟨e, mapM_eq_error.mp result⟩
  | ok ys =>
    obtain ⟨x, hx, fails⟩ := h
    obtain ⟨y, -, succeeds⟩ := ok_of_mem_mapM result hx
    exact absurd succeeds (fails y)

/-- Two traversals, one after the other, act on each value as the two steps. -/
theorem mapM_bind {γ : Type} {f : α → Except ε β} {g : β → Except ε γ} {xs : List α}
    {ys : List β} (h : xs.mapM f = .ok ys) : xs.mapM (fun x => f x >>= g) = ys.mapM g := by
  induction mapM_eq_ok.mp h with
  | nil => rfl
  | cons first rest ih =>
    rw [List.mapM_cons, List.mapM_cons, first, ih (mapM_eq_ok.mpr rest)]
    rfl

/-- What every step of a fold keeps holds of its result. -/
theorem foldlM_invariant (P : β → Prop) {f : β → α → Except ε β} {xs : List α}
    (step : ∀ x ∈ xs, ∀ b b', P b → f b x = .ok b' → P b') {b b' : β} (start : P b)
    (h : xs.foldlM f b = .ok b') : P b' := by
  induction xs generalizing b with
  | nil =>
    rw [List.foldlM_nil, pure_eq_ok] at h
    exact h ▸ start
  | cons x xs ih =>
    rw [List.foldlM_cons, bind_eq_ok] at h
    obtain ⟨c, first, rest⟩ := h
    exact ih (fun y hy => step y (List.mem_cons_of_mem _ hy))
      (step x List.mem_cons_self b c start first) rest

/-- A fold fails as the first step that does, from the value that the steps before it led to. -/
theorem foldlM_eq_error {f : β → α → Except ε β} {xs : List α} {b : β} {e : ε} :
    xs.foldlM f b = .error e ↔ ∃ before x behind c, xs = before ++ x :: behind ∧
      before.foldlM f b = .ok c ∧ f c x = .error e := by
  constructor
  · intro h
    induction xs generalizing b with
    | nil => cases h
    | cons x xs ih =>
      rw [List.foldlM_cons, bind_eq_error] at h
      rcases h with fails | ⟨c, first, rest⟩
      · exact ⟨[], x, xs, b, rfl, rfl, fails⟩
      · obtain ⟨before, y, behind, d, rfl, led, fails⟩ := ih rest
        refine ⟨x :: before, y, behind, d, rfl, ?_, fails⟩
        rw [List.foldlM_cons, bind_eq_ok]
        exact ⟨c, first, led⟩
  · rintro ⟨before, x, behind, c, rfl, led, fails⟩
    rw [List.foldlM_append, bind_eq_error]
    refine .inr ⟨c, led, ?_⟩
    rw [List.foldlM_cons, bind_eq_error]
    exact .inl fails

theorem mapError_bind {γ : Type} (k : ε → ε') (x : Except ε α) (f : α → Except ε γ) :
    (x >>= f).mapError k = x.mapError k >>= fun a => (f a).mapError k := by
  cases x <;> rfl

theorem mapM_mapError (k : ε → ε') (f : α → Except ε β) (xs : List α) :
    xs.mapM (fun x => (f x).mapError k) = (xs.mapM f).mapError k := by
  induction xs with
  | nil => rfl
  | cons x xs ih => simp only [List.mapM_cons, mapError_bind, ih]; rfl

/-! ## Computations carried over -/

section

variable {α' β' : Type} {k : ε → ε'}

/-- A computation with its result and its error carried over to others. -/
def carry (k : ε → ε') (f : α → α') : Except ε α → Except ε' α'
  | .ok a => .ok (f a)
  | .error e => .error (k e)

@[simp] theorem carry_ok (f : α → α') (a : α) : carry k f (.ok a) = .ok (f a) := rfl

@[simp] theorem carry_pure (f : α → α') (a : α) : carry k f (pure a) = pure (f a) := rfl

@[simp] theorem carry_error (f : α → α') (e : ε) : carry k f (.error e) = .error (k e) := rfl

theorem mapError_carry {δ δ' : Type} {l : ε → δ} {l' : ε' → δ'} {k' : δ → δ'} {f : α → α'}
    (same : ∀ e, l' (k e) = k' (l e)) (x : Except ε α) :
    (carry k f x).mapError l' = carry k' f (x.mapError l) := by
  cases x with
  | ok a => rfl
  | error e => exact congrArg Except.error (same e)

/-- Two steps carried over are the steps that carry over each. -/
theorem carry_bind {f : α → α'} {f' : β → β'} {g : α → Except ε β} {g' : α' → Except ε' β'}
    (x : Except ε α) (each : ∀ a, g' (f a) = carry k f' (g a)) :
    (carry k f x >>= g') = carry k f' (x >>= g) := by
  cases x with
  | ok a => exact each a
  | error e => rfl

theorem carry_mapM {f' : β → β'} {g : α → Except ε β} {g' : α' → Except ε' β'} {xs : List α}
    {xs' : List α'} (each : List.Forall₂ (fun x x' => g' x' = carry k f' (g x)) xs xs') :
    xs'.mapM g' = carry k (List.map f') (xs.mapM g) := by
  induction each with
  | nil => rfl
  | cons first _ ih =>
    rw [List.mapM_cons, List.mapM_cons, first, ih]
    exact carry_bind _ fun y => carry_bind _ fun ys => rfl

theorem carry_foldlM {f : β → β'} {g : β → α → Except ε β} {g' : β' → α' → Except ε' β'}
    {xs : List α} {xs' : List α'}
    (each : List.Forall₂ (fun x x' => ∀ b, g' (f b) x' = carry k f (g b x)) xs xs') (b : β) :
    xs'.foldlM g' (f b) = carry k f (xs.foldlM g b) := by
  induction each generalizing b with
  | nil => rfl
  | cons first _ ih =>
    rw [List.foldlM_cons, List.foldlM_cons, first]
    exact carry_bind _ ih

end

end QuantumBoard.Success

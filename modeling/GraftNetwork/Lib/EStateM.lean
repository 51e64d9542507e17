import Mathlib

/-!
# Running `EStateM` programs

The results of `EStateM` programs, which keep the state an exception leaves (the default,
non-backtracking `tryCatch`), as a C++ method leaves its object when it throws.

* `Result.state`: the state a run ends in, whether it returned or threw.
* `run_bind_of_ok`, `run_bind_of_error`, `run_tryCatch_of_ok`, `run_tryCatch_of_error`: a run
  of a sequence from the run of its first part.
* `run_bind_ok`: the inversion of a sequence that returned.
* `ThrowsOnly`: what a program may throw, with one rule for each operation.
* `Preserves`: an invariant of the runs that return, with the rules `preserves_pure`,
  `preserves_modify` and `Preserves.bind`.
* `run_throw_of_type` and `restore_nonBacktrackable`: the simp lemmas that, with those of the
  core library and of `Batteries` (`run_map`, `run_tryCatch`), run a program symbolically.
-/

namespace EStateM

variable {ε σ α β : Type}

/-- The state a result ends in, whether it returned or threw. -/
def Result.state : Result ε σ α → σ
  | .ok _ s => s
  | .error _ s => s

/-- `EStateM.run_throw` of the core library at any value type. -/
@[simp] theorem run_throw_of_type (e : ε) (s : σ) : (throw e : EStateM ε σ α).run s = .error e s :=
  rfl

variable {x : EStateM ε σ α} {f : α → EStateM ε σ β} {s s' : σ}

theorem run_bind_of_ok {a : α} (first : x.run s = .ok a s') : (x >>= f).run s = (f a).run s' := by
  change EStateM.bind x f s = _
  unfold EStateM.bind
  rw [show x s = _ from first]
  rfl

theorem run_bind_of_error {e : ε} (first : x.run s = .error e s') :
    (x >>= f).run s = .error e s' := by
  change EStateM.bind x f s = _
  unfold EStateM.bind
  rw [show x s = _ from first]

/-- A sequence that returned ran its first part to a value. -/
theorem run_bind_ok {b : β} {s'' : σ} (ran : (x >>= f).run s = .ok b s'') :
    ∃ a s', x.run s = .ok a s' ∧ (f a).run s' = .ok b s'' := by
  cases first : x.run s with
  | ok a s' => exact ⟨a, s', rfl, by rwa [run_bind_of_ok first] at ran⟩
  | error e s' => rw [run_bind_of_error first] at ran; cases ran

variable {handle : ε → EStateM ε σ α}

theorem run_tryCatch_of_ok {a : α} (first : x.run s = .ok a s') :
    (tryCatch x handle).run s = .ok a s' := by
  change EStateM.tryCatch x handle s = _
  unfold EStateM.tryCatch
  rw [show x s = _ from first]

/-- The handler runs from the state that the exception left. -/
theorem run_tryCatch_of_error {e : ε} (first : x.run s = .error e s') :
    (tryCatch x handle).run s = (handle e).run s' := by
  change EStateM.tryCatch x handle s = _
  unfold EStateM.tryCatch
  rw [show x s = _ from first]
  rfl

/-- The non-backtracking `tryCatch` runs its handler from the state the exception left. -/
@[simp] theorem restore_nonBacktrackable (s : σ) (saved : PUnit) :
    (Backtrackable.restore s saved : σ) = s :=
  rfl

/-! ## Exception specifications -/

/-- Every exception that `x` throws satisfies `P`. -/
def ThrowsOnly (P : ε → Prop) (x : EStateM ε σ α) : Prop :=
  ∀ s e s', x.run s = .error e s' → P e

variable {P : ε → Prop}

theorem throwsOnly_pure (a : α) : ThrowsOnly P (pure a : EStateM ε σ α) :=
  fun _ _ _ ran => nomatch ran

theorem throwsOnly_get : ThrowsOnly P (get : EStateM ε σ σ) := fun _ _ _ ran => nomatch ran

theorem throwsOnly_set (s : σ) : ThrowsOnly P (set s : EStateM ε σ PUnit) :=
  fun _ _ _ ran => nomatch ran

theorem throwsOnly_modify (g : σ → σ) : ThrowsOnly P (modify g : EStateM ε σ PUnit) :=
  fun _ _ _ ran => nomatch ran

theorem throwsOnly_throw {e : ε} (holds : P e) : ThrowsOnly P (throw e : EStateM ε σ α) := by
  intro s e' s' ran
  cases ran
  exact holds

theorem ThrowsOnly.bind (first : ThrowsOnly P x) (rest : ∀ a, ThrowsOnly P (f a)) :
    ThrowsOnly P (x >>= f) := by
  intro s e s'' ran
  cases ranFirst : x.run s with
  | ok a s' =>
    rw [run_bind_of_ok ranFirst] at ran
    exact rest a s' e s'' ran
  | error e' s' =>
    rw [run_bind_of_error ranFirst] at ran
    cases ran
    exact first s _ _ ranFirst

theorem ThrowsOnly.map (g : α → β) (first : ThrowsOnly P x) : ThrowsOnly P (g <$> x) := by
  intro s e s' ran
  rw [run_map] at ran
  cases ranFirst : x.run s with
  | ok a s'' =>
    rw [ranFirst] at ran
    cases ran
  | error e' s'' =>
    rw [ranFirst] at ran
    cases ran
    exact first s _ _ ranFirst

theorem throwsOnly_ite {c : Prop} [Decidable c] {y : EStateM ε σ α} (ifTrue : ThrowsOnly P x)
    (ifFalse : ThrowsOnly P y) : ThrowsOnly P (if c then x else y) := by
  split
  · exact ifTrue
  · exact ifFalse

/-! ## Invariants of the runs that return -/

/-- Every run of `x` that returns, from a state where `inv` holds, ends in a state where it holds.
A run that throws is not constrained: the exception ends the operation. -/
def Preserves (inv : σ → Prop) (x : EStateM ε σ α) : Prop :=
  ∀ s a s', inv s → x.run s = .ok a s' → inv s'

variable {inv : σ → Prop}

theorem preserves_pure (a : α) : Preserves inv (pure a : EStateM ε σ α) := by
  intro s b s' holds ran
  rw [run_pure] at ran
  cases ran
  exact holds

theorem preserves_modify {g : σ → σ} (keeps : ∀ s, inv s → inv (g s)) :
    Preserves inv (modify g : EStateM ε σ PUnit) := by
  intro s _ s' holds ran
  rw [run_modify] at ran
  cases ran
  exact keeps s holds

theorem Preserves.bind (first : Preserves inv x) (rest : ∀ a, Preserves inv (f a)) :
    Preserves inv (x >>= f) := by
  intro s b s'' holds ran
  obtain ⟨a, s', ranFirst, ranRest⟩ := run_bind_ok ran
  exact rest a s' b s'' (first s a s' holds ranFirst) ranRest

end EStateM

import Mathlib.Data.List.Basic

/-!
# Machines driven by a list of actions

A deterministic step function `step : α → σ → σ` turns a list of actions into a run.
The choices of the environment (which block arrives, whether a read fails) are carried
by the actions, so every interleaving of a nondeterministic system is one list of them.

* `run_append`: the run of `as ++ bs` continues the run of `as`.
* `run_invariant`: a property that every step keeps holds along every run;
  `run_invariant_of_forall` for the runs of the actions that a condition allows.
* `run_trace_invariant`: the same for a property of the state and of the actions performed.
* `run_simulation`: the runs of two machines on the same actions stay related.
* `run_filter_simulation`: a run is related to the run of the actions that a filter keeps.
* `runBreaking`: a loop over the actions whose body can `break` (Lean's `for ... in`, by
  `runBreaking_eq_forIn`), with `runBreaking_trace_invariant` for the actions it visits.
-/

namespace Machine

variable {σ α : Type*} (step : α → σ → σ)

/-- The state after performing the actions in order. -/
def run (s : σ) : List α → σ
  | [] => s
  | a :: as => run (step a s) as

@[simp] theorem run_nil (s : σ) : run step s [] = s := rfl

@[simp] theorem run_cons (s : σ) (a : α) (as : List α) :
    run step s (a :: as) = run step (step a s) as := rfl

theorem run_append (s : σ) (as bs : List α) :
    run step s (as ++ bs) = run step (run step s as) bs := by
  induction as generalizing s with
  | nil => rfl
  | cons a as ih => exact ih (step a s)

theorem run_concat (s : σ) (as : List α) (a : α) :
    run step s (as ++ [a]) = step a (run step s as) := by
  rw [run_append]
  rfl

theorem run_invariant {P : σ → Prop} (preserved : ∀ a s, P s → P (step a s)) :
    ∀ (as : List α) {s : σ}, P s → P (run step s as)
  | [], _, holds => holds
  | a :: as, s, holds => run_invariant preserved as (preserved a s holds)

/-- A property that every step of an allowed action keeps holds along every run of allowed
actions. -/
theorem run_invariant_of_forall {P : σ → Prop} {allowed : α → Prop}
    (preserved : ∀ a s, allowed a → P s → P (step a s)) :
    ∀ (as : List α) {s : σ}, (∀ a ∈ as, allowed a) → P s → P (run step s as)
  | [], _, _, holds => holds
  | a :: as, s, all, holds =>
    run_invariant_of_forall preserved as (fun b mem => all b (List.mem_cons_of_mem a mem))
      (preserved a s (all a List.mem_cons_self) holds)

/-- A property of the actions performed so far and of the state, kept by every step, holds
along every run. -/
theorem run_trace_invariant {P : List α → σ → Prop}
    (preserved : ∀ done a s, P done s → P (done ++ [a]) (step a s)) :
    ∀ (as : List α) {done : List α} {s : σ}, P done s → P (done ++ as) (run step s as)
  | [], done, _, holds => by simpa using holds
  | a :: as, done, s, holds => by
    have later := run_trace_invariant preserved as (preserved done a s holds)
    simpa using later

/-- Two machines driven by the same actions: a relation that each pair of steps keeps relates
the two runs. This is how a model refines an abstract machine of the same interface. -/
theorem run_simulation {τ : Type*} {step' : α → τ → τ} {R : σ → τ → Prop}
    (kept : ∀ a s t, R s t → R (step a s) (step' a t)) :
    ∀ (as : List α) {s : σ} {t : τ}, R s t → R (run step s as) (run step' t as)
  | [], _, _, related => related
  | a :: as, s, t, related => run_simulation kept as (kept a s t related)

/-- A simulation of a run by the run of its kept actions: a relation that the kept actions keep
when both sides take them, and that the other actions keep when the left side alone takes
them, relates the two runs. -/
theorem run_filter_simulation {R : σ → σ → Prop} {keep : α → Bool}
    (kept : ∀ a s t, keep a = true → R s t → R (step a s) (step a t))
    (dropped : ∀ a s t, keep a = false → R s t → R (step a s) t) :
    ∀ (as : List α) {s t : σ}, R s t → R (run step s as) (run step t (as.filter keep))
  | [], _, _, related => related
  | a :: as, s, t, related => by
    cases k : keep a
    · rw [List.filter_cons_of_neg (by simp [k]), run_cons]
      exact run_filter_simulation kept dropped as (dropped a s t k related)
    · rw [List.filter_cons_of_pos k, run_cons, run_cons]
      exact run_filter_simulation kept dropped as (kept a s t k related)

/-! ## Loops that can stop -/

section Breaking

variable (body : α → σ → ForInStep σ)

/-- A loop over the actions whose body can `break`: `yield` goes on to the next action and
`done` ends the loop. -/
def runBreaking (s : σ) : List α → σ
  | [] => s
  | a :: as =>
    match body a s with
    | .done s => s
    | .yield s => runBreaking s as

/-- `runBreaking` is Lean's `for ... in` over a list. -/
theorem runBreaking_eq_forIn (s : σ) (as : List α) :
    runBreaking body s as = Id.run (forIn as s fun a s => pure (body a s)) := by
  induction as generalizing s with
  | nil => rfl
  | cons a as ih =>
    rw [List.forIn_cons]
    cases h : body a s <;> simp [runBreaking, h, ih]

/-- A property of the actions visited so far and of the state, kept by every round of the body,
holds when the loop ends, of the actions it visited: a prefix of them, all of them unless the
body stopped. -/
theorem runBreaking_trace_invariant {P : List α → σ → Prop}
    (preserved : ∀ done a s, P done s → P (done ++ [a]) (body a s).value) :
    ∀ (as : List α) {done : List α} {s : σ}, P done s →
      ∃ visited, visited <+: as ∧ P (done ++ visited) (runBreaking body s as)
  | [], done, _, holds => ⟨[], List.prefix_refl _, by simpa [runBreaking] using holds⟩
  | a :: as, done, s, holds => by
    have round := preserved done a s holds
    cases h : body a s with
    | done s' =>
      rw [h, ForInStep.value_done] at round
      exact ⟨[a], List.prefix_append [a] as, by simpa [runBreaking, h] using round⟩
    | yield s' =>
      rw [h, ForInStep.value_yield] at round
      obtain ⟨visited, before, later⟩ := runBreaking_trace_invariant preserved as round
      refine ⟨a :: visited, List.cons_prefix_cons.mpr ⟨rfl, before⟩, ?_⟩
      simpa [runBreaking, h] using later

end Breaking

end Machine

import GraftNetwork.Lib.EStateM

/-!
# Two runs of an `EStateM` program

Two computations are related, for a relation `V` on their values and a relation `R` on their
states, when from `R`-related states both return `V`-related values or both throw the same
error, in `R`-related states. The rules below compose along `bind`, so a program built from
related pieces is related to itself; this is the relational form of a Hoare triple, one
program run twice.

* `Related.bind`, `related_pure`, `related_get`, `related_set`, `related_throw`,
  `related_throw_bind`: the rules for the operations of the monad.
* `Related.run`: the states after two related runs from related states are related, whichever
  way they end.
* `Except.Related`: the same for two `Except` values, and `Except.Related.cases` to take one
  apart.
-/

namespace EStateM

variable {ε σ α β γ δ : Type} (R : σ → σ → Prop)

/-- Both results return `V`-related values or both throw the same error, in `R`-related
states. -/
def Result.Related (V : α → β → Prop) : Result ε σ α → Result ε σ β → Prop
  | .ok a s, .ok b t => V a b ∧ R s t
  | .error e s, .error e' t => e = e' ∧ R s t
  | _, _ => False

/-- From `R`-related states, `x` and `y` end alike in `R`-related states. -/
def Related (V : α → β → Prop) (x : EStateM ε σ α) (y : EStateM ε σ β) : Prop :=
  ∀ s t, R s t → Result.Related R V (x.run s) (y.run t)

variable {R}

theorem Result.Related.state {V : α → β → Prop} :
    ∀ {r : Result ε σ α} {r' : Result ε σ β}, Result.Related R V r r' → R r.state r'.state
  | .ok _ _, .ok _ _, related => related.2
  | .error _ _, .error _ _, related => related.2

theorem Related.run {V : α → β → Prop} {x : EStateM ε σ α} {y : EStateM ε σ β}
    (related : Related R V x y) {s t : σ} (states : R s t) :
    R (x.run s).state (y.run t).state :=
  (related s t states).state

theorem related_pure {V : α → β → Prop} {a : α} {b : β} (values : V a b) :
    Related R V (pure a : EStateM ε σ α) (pure b) :=
  fun _ _ states => ⟨values, states⟩

theorem related_get : Related R R (get : EStateM ε σ σ) get :=
  fun _ _ states => ⟨states, states⟩

theorem related_set {s t : σ} (states : R s t) :
    Related R Eq (set s : EStateM ε σ PUnit) (set t) :=
  fun _ _ _ => ⟨rfl, states⟩

theorem related_throw {V : α → β → Prop} (e : ε) :
    Related R V (throw e : EStateM ε σ α) (throw e) :=
  fun _ _ states => ⟨rfl, states⟩

/-- What follows a `throw` never runs. -/
theorem related_throw_bind {W : γ → δ → Prop} (e : ε) (f : α → EStateM ε σ γ)
    (g : β → EStateM ε σ δ) : Related R W (throw e >>= f) (throw e >>= g) :=
  fun _ _ states => ⟨rfl, states⟩

/-- Sequencing: related first parts, and continuations related on related values. -/
theorem Related.bind {V : α → β → Prop} {W : γ → δ → Prop} {x : EStateM ε σ α}
    {y : EStateM ε σ β} {f : α → EStateM ε σ γ} {g : β → EStateM ε σ δ}
    (first : Related R V x y) (rest : ∀ a b, V a b → Related R W (f a) (g b)) :
    Related R W (x >>= f) (y >>= g) := by
  intro s t states
  have related := first s t states
  change Result.Related R W (EStateM.bind x f s) (EStateM.bind y g t)
  unfold EStateM.bind
  revert related
  change Result.Related R V (x s) (y t) → _
  cases x s with
  | ok a s' =>
    cases y t with
    | ok b t' => exact fun ⟨values, states'⟩ => rest a b values s' t' states'
    | error e t' => exact False.elim
  | error e s' =>
    cases y t with
    | ok b t' => exact False.elim
    | error e' t' =>
      rintro ⟨rfl, states'⟩
      exact ⟨rfl, states'⟩

end EStateM

namespace Except

variable {ε α β γ : Type}

/-- Both fail with the same error, or both return `V`-related values. -/
def Related (V : α → β → Prop) : Except ε α → Except ε β → Prop
  | .error e, .error e' => e = e'
  | .ok a, .ok b => V a b
  | _, _ => False

theorem Related.cases {V : α → β → Prop} :
    ∀ {x : Except ε α} {y : Except ε β}, Related V x y →
      (∃ e, x = .error e ∧ y = .error e) ∨ ∃ a b, x = .ok a ∧ y = .ok b ∧ V a b
  | .error e, .error _, rfl => .inl ⟨e, rfl, rfl⟩
  | .ok a, .ok b, values => .inr ⟨a, b, rfl, rfl, values⟩

/-- Two values with the same image are related by having the same image. -/
theorem related_of_map_eq {f : α → γ} :
    ∀ {x y : Except ε α}, x.map f = y.map f → Related (fun a b => f a = f b) x y
  | .error _, .error _, same => Except.error.inj same
  | .ok _, .ok _, same => Except.ok.inj same
  | .error _, .ok _, same => nomatch same
  | .ok _, .error _, same => nomatch same

theorem Related.imp {V W : α → β → Prop} (imp : ∀ a b, V a b → W a b) :
    ∀ {x : Except ε α} {y : Except ε β}, Related V x y → Related W x y
  | .error _, .error _, same => same
  | .ok a, .ok b, values => imp a b values

end Except

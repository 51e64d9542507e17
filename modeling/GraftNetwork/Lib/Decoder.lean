import Mathlib.Data.List.Basic

/-!
# Decoders over a token stream

A decoder reads a value from the front of a list of tokens and returns it with the tokens it left,
or fails: `StateT (List τ) Option`. A binary format is read by a decoder built from a few reads
(a fixed number of tokens, the number left, a read repeated a given number of times), and written
by a function that returns the tokens; that the reader undoes the writer is `ReadsBack`.

* `run_bind_of_run`, `run_bind_of_none`: a sequence runs its second part from where the first
  stopped, or fails with it; `exists_run_of_run_bind` and `exists_run_of_run_map` take a read
  apart, and `length_of_run_count` counts what a repeated read read.
* `ReadsBack`: a decoder reads a value back from given tokens, whatever tokens follow them, with
  the rules `ReadsBack.bind`, `ReadsBack.bind_nil`, `ReadsBack.bind_pure`, `ReadsBack.map`,
  `ReadsBack.take`, `ReadsBack.count`, `ReadsBack.mapM`, `ReadsBack.exists_mapM` and
  `ReadsBack.mapM_zip` that assemble the round trip of a format from those of its parts; a writer
  that is read back is injective (`ReadsBack.injective`).
* `exists_mapM_eq_some`, `exists_mapM_eq_some_map`: a writer that can refuse an element writes a
  list when it writes each element, and what it writes follows the elements.
* `length_le_length_flatMap`: when every element is written with at least one token, a list of
  them is written with at least as many tokens as it has elements, which is what a reader that
  checks a count against the tokens left needs.
-/

/-- A decoder: it reads from the front of a token list and returns the value and the rest. -/
abbrev Decoder (τ α : Type) := StateT (List τ) Option α

namespace Decoder

variable {τ α β : Type}

/-- The number of tokens left to read. -/
def remaining : Decoder τ Nat := fun s => some (s.length, s)

/-- The next `n` tokens; fails when fewer are left. -/
def take (n : Nat) : Decoder τ (List τ) := fun s =>
  if s.length < n then none else some (s.take n, s.drop n)

/-- The read `p` repeated `n` times, its values in order. -/
def count : Nat → Decoder τ α → Decoder τ (List α)
  | 0, _ => pure []
  | n + 1, p => do
    let a ← p
    let as ← count n p
    pure (a :: as)

variable {p : Decoder τ α} {f : α → Decoder τ β} {s s' : List τ}

theorem run_bind_of_run {a : α} (first : p.run s = some (a, s')) :
    (p >>= f).run s = (f a).run s' := by
  simp [StateT.run_bind, first]

theorem run_bind_of_none (first : p.run s = none) : (p >>= f).run s = none := by
  simp [StateT.run_bind, first]

@[simp] theorem run_pure (a : α) (s : List τ) : (pure a : Decoder τ α).run s = some (a, s) := rfl

@[simp] theorem run_failure (s : List τ) : (failure : Decoder τ α).run s = none := rfl

@[simp] theorem run_remaining (s : List τ) : (remaining : Decoder τ Nat).run s = some (s.length, s) :=
  rfl

theorem run_take_of_lt {n : Nat} (short : s.length < n) : (take n : Decoder τ _).run s = none := by
  simp [take, StateT.run, short]

/-- A sequence that read a value ran its first part to a value and its second part from there. -/
theorem exists_run_of_run_bind {b : β} (read : (p >>= f).run s = some (b, s')) :
    ∃ a s'', p.run s = some (a, s'') ∧ (f a).run s'' = some (b, s') := by
  rw [StateT.run_bind] at read
  cases first : p.run s with
  | none => rw [first] at read; cases read
  | some result =>
    rw [first] at read
    exact ⟨result.1, result.2, rfl, read⟩

/-- A read whose value was rebuilt read the value it was rebuilt from. -/
theorem exists_run_of_run_map {g : α → β} {b : β} (read : (g <$> p).run s = some (b, s')) :
    ∃ a, p.run s = some (a, s') ∧ g a = b := by
  rw [StateT.run_map] at read
  cases first : p.run s with
  | none => rw [first] at read; cases read
  | some result =>
    rw [first] at read
    cases read
    exact ⟨result.1, rfl, rfl⟩

/-- A read repeated `n` times reads `n` values. -/
theorem length_of_run_count : ∀ {n : Nat} {s s' : List τ} {xs : List α},
    (count n p).run s = some (xs, s') → xs.length = n
  | 0, _, _, _, read => by
    rw [count, run_pure] at read
    cases read
    rfl
  | n + 1, _, _, _, read => by
    rw [count] at read
    obtain ⟨a, _, _, read⟩ := exists_run_of_run_bind read
    obtain ⟨as, _, readTail, built⟩ := exists_run_of_run_bind read
    rw [run_pure] at built
    cases built
    rw [List.length_cons, length_of_run_count readTail]

end Decoder

open Decoder

variable {τ α β : Type}

/-- `p` reads `a` back from the tokens `w`, whatever tokens follow them. -/
def ReadsBack (p : Decoder τ α) (w : List τ) (a : α) : Prop :=
  ∀ rest, p.run (w ++ rest) = some (a, rest)

namespace ReadsBack

variable {p : Decoder τ α} {f : α → Decoder τ β} {w w₁ w₂ : List τ} {a : α} {b : β}

theorem bind (first : ReadsBack p w₁ a) (second : ReadsBack (f a) w₂ b) :
    ReadsBack (p >>= f) (w₁ ++ w₂) b := by
  intro rest
  rw [List.append_assoc, run_bind_of_run (first _), second]

theorem pure (a : α) : ReadsBack (Pure.pure a : Decoder τ α) [] a := fun _ => rfl

/-- The last read of a sequence: what follows reads nothing. -/
theorem bind_nil (first : ReadsBack p w a) (second : ReadsBack (f a) [] b) :
    ReadsBack (p >>= f) w b := by
  have read := first.bind second
  rwa [List.append_nil] at read

/-- A read whose value is built from the one read by the last line of a `do` block. -/
theorem bind_pure {g : α → β} (read : ReadsBack p w a) :
    ReadsBack (p >>= fun x => Pure.pure (g x)) w (g a) :=
  read.bind_nil (ReadsBack.pure (g a))

/-- A read whose value is rebuilt from the one read. -/
theorem map {g : α → β} (read : ReadsBack p w a) : ReadsBack (g <$> p) w (g a) := by
  intro rest
  simp [StateT.run_map, read rest]

theorem take (w : List τ) : ReadsBack (Decoder.take w.length) w w := by
  intro rest
  simp [Decoder.take, StateT.run]

theorem take_of_length {n : Nat} (h : w.length = n) : ReadsBack (Decoder.take n) w w :=
  h ▸ take w

/-- A writer whose every output one decoder reads back writes different values differently. -/
theorem injective {enc : α → List τ} (read : ∀ a, ReadsBack p (enc a) a) :
    Function.Injective enc := by
  intro a a' same
  have back := read a []
  rw [same, read a' []] at back
  exact (Prod.mk.inj (Option.some.inj back)).1.symm

/-- A read repeated once for each element reads back the elements written one after another. -/
theorem count {enc : α → List τ} :
    ∀ {xs : List α}, (∀ x ∈ xs, ReadsBack p (enc x) x) →
      ReadsBack (Decoder.count xs.length p) (xs.flatMap enc) xs
  | [], _ => ReadsBack.pure []
  | x :: xs, each => by
    have head := each x List.mem_cons_self
    have tail := count fun y hy => each y (List.mem_cons_of_mem x hy)
    rw [List.length_cons, Decoder.count, List.flatMap_cons, ← List.append_nil (List.flatMap enc xs)]
    exact head.bind (tail.bind (ReadsBack.pure _))

/-- The same for a writer that can refuse an element: when it writes every element, the repeated
read reads them back. -/
theorem mapM {enc : α → Option (List τ)} :
    ∀ {xs : List α} {ws : List (List τ)}, xs.mapM enc = some ws →
      (∀ x ∈ xs, ∀ w, enc x = some w → ReadsBack p w x) →
      ReadsBack (Decoder.count xs.length p) ws.flatten xs
  | [], ws, wrote, _ => by
    rw [List.mapM_nil] at wrote
    cases wrote
    exact ReadsBack.pure []
  | x :: xs, ws, wrote, each => by
    rw [List.mapM_cons] at wrote
    obtain ⟨w, wroteHead, wrote⟩ := Option.bind_eq_some_iff.mp wrote
    obtain ⟨ws', wroteTail, built⟩ := Option.bind_eq_some_iff.mp wrote
    cases Option.some.inj built
    have head := each x List.mem_cons_self w wroteHead
    have tail := mapM wroteTail fun y hy => each y (List.mem_cons_of_mem x hy)
    rw [List.length_cons, Decoder.count, List.flatten_cons,
      ← List.append_nil (List.flatten ws')]
    exact head.bind (tail.bind (ReadsBack.pure _))

/-- A read for each element of `xs` reads back the list `ys` of the same length, each element of
`ys` from the tokens a writer of the pairs wrote for it. -/
theorem mapM_zip {γ : Type} {g : γ → Decoder τ β} {enc : γ × β → Option (List τ)} :
    ∀ {xs : List γ} {ys : List β} {ws : List (List τ)}, xs.length = ys.length →
      (xs.zip ys).mapM enc = some ws →
      (∀ x y w, (x, y) ∈ xs.zip ys → enc (x, y) = some w → ReadsBack (g x) w y) →
      ReadsBack (xs.mapM g) ws.flatten ys
  | [], [], ws, _, wrote, _ => by
    rw [List.zip_nil_left, List.mapM_nil] at wrote
    cases wrote
    exact ReadsBack.pure []
  | x :: xs, y :: ys, ws, sameLength, wrote, each => by
    rw [List.zip_cons_cons, List.mapM_cons] at wrote
    obtain ⟨w, wroteHead, wrote⟩ := Option.bind_eq_some_iff.mp wrote
    obtain ⟨ws', wroteTail, built⟩ := Option.bind_eq_some_iff.mp wrote
    cases Option.some.inj built
    have head := each x y w (List.mem_cons_self) wroteHead
    have tail := mapM_zip (Nat.succ.inj sameLength) wroteTail
      fun x' y' w' mem => each x' y' w' (List.mem_cons_of_mem _ mem)
    rw [List.mapM_cons, List.flatten_cons, ← List.append_nil (List.flatten ws')]
    exact head.bind (tail.bind (ReadsBack.pure _))
  | [], _ :: _, _, sameLength, _, _ => absurd sameLength (by simp)
  | _ :: _, [], _, sameLength, _, _ => absurd sameLength (by simp)

end ReadsBack

/-- A writer that writes every element of a list writes the list. -/
theorem exists_mapM_eq_some {enc : α → Option β} :
    ∀ {xs : List α}, (∀ x ∈ xs, ∃ w, enc x = some w) → ∃ ws, xs.mapM enc = some ws
  | [], _ => ⟨[], rfl⟩
  | x :: xs, each => by
    obtain ⟨w, wroteHead⟩ := each x List.mem_cons_self
    obtain ⟨ws, wroteTail⟩ := exists_mapM_eq_some fun y hy => each y (List.mem_cons_of_mem x hy)
    exact ⟨w :: ws, by rw [List.mapM_cons, wroteHead, wroteTail]; rfl⟩

/-- The same, keeping what `g` sees of each value written: it is what `h` sees of its element. -/
theorem exists_mapM_eq_some_map {γ : Type} {enc : α → Option β} {g : β → γ} {h : α → γ} :
    ∀ {xs : List α}, (∀ x ∈ xs, ∃ w, enc x = some w ∧ g w = h x) →
      ∃ ws, xs.mapM enc = some ws ∧ ws.map g = xs.map h
  | [], _ => ⟨[], rfl, rfl⟩
  | x :: xs, each => by
    obtain ⟨w, wroteHead, seen⟩ := each x List.mem_cons_self
    obtain ⟨ws, wroteTail, seenTail⟩ :=
      exists_mapM_eq_some_map fun y hy => each y (List.mem_cons_of_mem x hy)
    refine ⟨w :: ws, by rw [List.mapM_cons, wroteHead, wroteTail]; rfl, ?_⟩
    rw [List.map_cons, List.map_cons, seen, seenTail]

/-- When a writer writes each element of a list and the read reads each back, the list is written
and the repeated read reads it back. -/
theorem ReadsBack.exists_mapM {p : Decoder τ α} {enc : α → Option (List τ)} {xs : List α}
    (each : ∀ x ∈ xs, ∃ w, enc x = some w ∧ ReadsBack p w x) :
    ∃ ws, xs.mapM enc = some ws ∧ ReadsBack (Decoder.count xs.length p) ws.flatten xs := by
  obtain ⟨ws, wrote⟩ := exists_mapM_eq_some fun x hx => (each x hx).imp fun _ => And.left
  refine ⟨ws, wrote, ReadsBack.mapM wrote fun x hx w wroteX => ?_⟩
  obtain ⟨w', wroteX', read⟩ := each x hx
  rw [wroteX] at wroteX'
  cases wroteX'
  exact read

theorem length_le_length_flatMap {enc : α → List τ} (nonempty : ∀ x, 1 ≤ (enc x).length) :
    ∀ xs : List α, xs.length ≤ (xs.flatMap enc).length
  | [] => Nat.le_refl 0
  | x :: xs => by
    rw [List.length_cons, List.flatMap_cons, List.length_append]
    have := length_le_length_flatMap nonempty xs
    have := nonempty x
    omega

import GraftNetwork.Lib.Decoder

/-!
# Reads that refuse

A reader can refuse what a writer wrote: a length above a limit, a nesting deeper than it allows,
a kind of value it does not read. `ReadsBackIf p w a ok` says that `p` reads `a` back from the
tokens `w` when `ok` holds and fails when it does not, whatever tokens follow. Its rules assemble,
from those of the parts, the exact condition under which a whole format is read back, in the way
`ReadsBack` assembles a round trip. `Yields p P` says that every value `p` returns, from any
tokens, satisfies `P`: what a reader accepts is well formed.

* `Decoder.peek`: the next token, left to be read.
* `ReadsBackIf.intro`, `ReadsBackIf.run_of_ok`, `ReadsBackIf.run_of_not`: what the condition
  says of a run, so that no proof looks at how it is written.
* `ReadsBackIf.bind`, `ReadsBackIf.bind_pure`, `ReadsBackIf.map`, `ReadsBackIf.pure`,
  `ReadsBackIf.failure`, `ReadsBackIf.ite`, `ReadsBackIf.count_zero`, `ReadsBackIf.count_succ`,
  `ReadsBackIf.count_flatMap`: the condition of a sequence is that of each part; `ReadsBackIf.of_readsBack` for a read that
  never refuses, `ReadsBackIf.of_iff` to restate a condition and `ReadsBackIf.of_run_eq` for a
  read that runs as another.
* `Yields.bind`, `Yields.map`, `Yields.pure`, `Yields.failure`, `Yields.ite`, `Yields.take`,
  `Yields.count`, `Yields.count_length`, `Yields.mono`, `Yields.always`, `Yields.both`.
-/

namespace Decoder

variable {τ : Type}

/-- The next token, which stays to be read; fails at the end of the tokens. -/
def peek : Decoder τ τ := fun s =>
  match s with
  | [] => none
  | t :: _ => some (t, s)

@[simp] theorem run_peek_cons (t : τ) (s : List τ) :
    (peek : Decoder τ τ).run (t :: s) = some (t, t :: s) := rfl

@[simp] theorem run_peek_nil : (peek : Decoder τ τ).run [] = none := rfl

end Decoder

open Decoder

variable {τ α β : Type}

open Classical in
/-- `p` reads `a` back from the tokens `w` when `ok` holds and fails when it does not, whatever
tokens follow them. -/
def ReadsBackIf (p : Decoder τ α) (w : List τ) (a : α) (ok : Prop) : Prop :=
  ∀ rest, p.run (w ++ rest) = if ok then some (a, rest) else none

namespace ReadsBackIf

open Classical

variable {p q : Decoder τ α} {f : α → Decoder τ β} {w w₁ w₂ : List τ} {a : α} {b : β}
  {ok ok' ok₁ ok₂ : Prop}

/-- A read back under `ok` is one that reads the value back when `ok` holds and fails when it
does not. -/
theorem intro (yes : ok → ∀ rest, p.run (w ++ rest) = some (a, rest))
    (no : ¬ok → ∀ rest, p.run (w ++ rest) = none) : ReadsBackIf p w a ok := by
  intro rest
  by_cases holds : ok
  · rw [if_pos holds]
    exact yes holds rest
  · rw [if_neg holds]
    exact no holds rest

theorem run_of_ok (read : ReadsBackIf p w a ok) (holds : ok) (rest : List τ) :
    p.run (w ++ rest) = some (a, rest) := by
  rw [read rest, if_pos holds]

theorem run_of_not (read : ReadsBackIf p w a ok) (fails : ¬ok) (rest : List τ) :
    p.run (w ++ rest) = none := by
  rw [read rest, if_neg fails]

theorem of_readsBack (read : ReadsBack p w a) : ReadsBackIf p w a True :=
  intro (fun _ => read) (fun fails => absurd trivial fails)

theorem of_iff (read : ReadsBackIf p w a ok) (same : ok ↔ ok') : ReadsBackIf p w a ok' :=
  intro (fun holds => read.run_of_ok (same.mpr holds))
    (fun fails => read.run_of_not (mt same.mp fails))

/-- Two reads that run alike on the tokens and whatever follows them. -/
theorem of_run_eq (same : ∀ rest, p.run (w ++ rest) = q.run (w ++ rest))
    (read : ReadsBackIf q w a ok) : ReadsBackIf p w a ok :=
  intro (fun holds rest => (same rest).trans (read.run_of_ok holds rest))
    (fun fails rest => (same rest).trans (read.run_of_not fails rest))

theorem pure (a : α) : ReadsBackIf (Pure.pure a : Decoder τ α) [] a True :=
  of_readsBack (ReadsBack.pure a)

theorem failure (w : List τ) (a : α) :
    ReadsBackIf (Alternative.failure : Decoder τ α) w a False :=
  intro (fun holds => holds.elim) (fun _ _ => run_failure _)

theorem bind (first : ReadsBackIf p w₁ a ok₁) (second : ReadsBackIf (f a) w₂ b ok₂) :
    ReadsBackIf (p >>= f) (w₁ ++ w₂) b (ok₁ ∧ ok₂) := by
  refine intro (fun both rest => ?_) (fun fails rest => ?_) <;> rw [List.append_assoc]
  · rw [run_bind_of_run (first.run_of_ok both.1 _), second.run_of_ok both.2]
  · by_cases read : ok₁
    · rw [run_bind_of_run (first.run_of_ok read _),
        second.run_of_not (fun holds => fails ⟨read, holds⟩)]
    · rw [run_bind_of_none (first.run_of_not read _)]

/-- The last read of a sequence, whose value is built from the one read. -/
theorem bind_pure {g : α → β} (read : ReadsBackIf p w a ok) :
    ReadsBackIf (p >>= fun x => Pure.pure (g x)) w (g a) ok := by
  have both := read.bind (f := fun x => Pure.pure (g x)) (ReadsBackIf.pure (g a))
  rw [List.append_nil] at both
  exact both.of_iff (and_iff_left trivial)

theorem map {g : α → β} (read : ReadsBackIf p w a ok) : ReadsBackIf (g <$> p) w (g a) ok :=
  intro (fun holds rest => by rw [StateT.run_map, read.run_of_ok holds]; rfl)
    (fun fails rest => by rw [StateT.run_map, read.run_of_not fails]; rfl)

/-- A check between two reads: what follows it runs only when the check passes. -/
theorem ite {c : Prop} [Decidable c] (read : ReadsBackIf p w a ok) :
    ReadsBackIf (if c then p else Alternative.failure) w a (c ∧ ok) := by
  refine intro (fun both rest => ?_) (fun fails rest => ?_)
  · rw [if_pos both.1]
    exact read.run_of_ok both.2 rest
  · by_cases passes : c
    · rw [if_pos passes]
      exact read.run_of_not (fun holds => fails ⟨passes, holds⟩) rest
    · rw [if_neg passes]
      rfl

theorem count_zero : ReadsBackIf (Decoder.count 0 p) [] [] True :=
  ReadsBackIf.pure []

theorem count_succ {n : Nat} {xs : List α} (head : ReadsBackIf p w₁ a ok₁)
    (tail : ReadsBackIf (Decoder.count n p) w₂ xs ok₂) :
    ReadsBackIf (Decoder.count (n + 1) p) (w₁ ++ w₂) (a :: xs) (ok₁ ∧ ok₂) := by
  rw [Decoder.count]
  exact head.bind (f := fun x => Decoder.count n p >>= fun as => Pure.pure (x :: as))
    (tail.bind_pure (g := fun as => a :: as))

/-- A read repeated once for each element reads back the elements written one after another
when it reads back each of them. -/
theorem count_flatMap {enc : α → List τ} {ok : α → Prop} :
    ∀ {xs : List α}, (∀ x ∈ xs, ReadsBackIf p (enc x) x (ok x)) →
      ReadsBackIf (Decoder.count xs.length p) (xs.flatMap enc) xs (∀ x ∈ xs, ok x)
  | [], _ => count_zero.of_iff (iff_of_true trivial fun _ mem => absurd mem List.not_mem_nil)
  | x :: xs, each => by
    have head := each x List.mem_cons_self
    have tail := count_flatMap fun y mem => each y (List.mem_cons_of_mem x mem)
    rw [List.length_cons, List.flatMap_cons]
    exact (head.count_succ tail).of_iff List.forall_mem_cons.symm

end ReadsBackIf

/-- Every value that `p` returns, from whatever tokens, satisfies `P`. -/
def Yields (p : Decoder τ α) (P : α → Prop) : Prop :=
  ∀ s a s', p.run s = some (a, s') → P a

namespace Yields

variable {p : Decoder τ α} {f : α → Decoder τ β} {P Q : α → Prop} {R : β → Prop}

theorem mono (read : Yields p Q) (weaker : ∀ a, Q a → P a) : Yields p P :=
  fun s a s' ran => weaker a (read s a s' ran)

theorem always : Yields p fun _ => True :=
  fun _ _ _ _ => True.intro

theorem both (left : Yields p P) (right : Yields p Q) : Yields p fun a => P a ∧ Q a :=
  fun s a s' ran => ⟨left s a s' ran, right s a s' ran⟩

theorem pure {a : α} (holds : P a) : Yields (Pure.pure a : Decoder τ α) P := by
  intro s a' s' ran
  rw [run_pure] at ran
  cases ran
  exact holds

theorem failure : Yields (Alternative.failure : Decoder τ α) P := by
  intro s a s' ran
  rw [run_failure] at ran
  cases ran

theorem bind (first : Yields p Q) (second : ∀ a, Q a → Yields (f a) R) :
    Yields (p >>= f) R := by
  intro s b s' ran
  obtain ⟨a, s'', ranFirst, ranSecond⟩ := exists_run_of_run_bind ran
  exact second a (first s a s'' ranFirst) s'' b s' ranSecond

theorem map {g : α → β} (read : Yields p Q) (built : ∀ a, Q a → R (g a)) :
    Yields (g <$> p) R := by
  intro s b s' ran
  obtain ⟨a, ranRead, rebuilt⟩ := exists_run_of_run_map ran
  exact rebuilt ▸ built a (read s a s' ranRead)

theorem ite {c : Prop} [Decidable c] (read : c → Yields p P) :
    Yields (if c then p else Alternative.failure) P := by
  by_cases passes : c
  · rw [if_pos passes]
    exact read passes
  · rw [if_neg passes]
    exact failure

theorem take (n : Nat) : Yields (Decoder.take n : Decoder τ (List τ)) fun xs => xs.length = n := by
  intro s xs s' ran
  by_cases short : s.length < n
  · rw [Decoder.run_take_of_lt short] at ran
    cases ran
  · have taken : (Decoder.take n : Decoder τ (List τ)).run s = some (s.take n, s.drop n) :=
      if_neg short
    rw [taken] at ran
    cases ran
    rw [List.length_take]
    omega

theorem count_length (n : Nat) : Yields (Decoder.count n p) fun xs => xs.length = n :=
  fun _ _ _ ran => Decoder.length_of_run_count ran

/-- Each value that a repeated read returns is one the read returned. -/
theorem count (read : Yields p P) : ∀ n, Yields (Decoder.count n p) fun xs => ∀ x ∈ xs, P x
  | 0 => pure fun _ mem => absurd mem List.not_mem_nil
  | n + 1 => by
    rw [Decoder.count]
    refine read.bind fun a head => (count read n).bind fun as tail => pure ?_
    intro x mem
    rcases List.mem_cons.mp mem with first | later
    · exact first ▸ head
    · exact tail x later

end Yields

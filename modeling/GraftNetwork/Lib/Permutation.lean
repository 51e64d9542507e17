import Mathlib.Data.Fintype.EquivFin
import Mathlib.GroupTheory.Perm.Support

/-!
# Applying a permutation in place by following its cycles

`applyPermutation swap permutation s` is the in-place algorithm that walks the cycle of each
index in turn: it swaps the element it carries into place, marks the position done by pointing it
at itself, and moves on to the position the element came from. The state `s` is anything that
`swap a b` acts on, so one run can permute several vectors at once.

The proof follows a ghost permutation `ρ` of `Fin n` that the list denotes once the cycle being
walked is closed at `current`. Each round multiplies it by a transposition on the left, which fixes
one more index and so bounds the rounds by the size of its support.

* `followCycle_spec`: following the cycle of `i` fixes every index up to `i`.
* `applyPermutation_view`: when `swap a b` acts on a view of the state as the transposition of
  `a` and `b`, the run passes the sanity check and the view after it is the view before composed
  with the permutation.
* `transposes_swap` for one list, and `Transposes.prod` for several swapped side by side.
* `denotes_of_perm`: a list that is a permutation of `0, ..., n - 1` denotes a permutation of
  `Fin n`.
-/

namespace Permute

variable {σ : Type*} (swap : Nat → Nat → σ → σ)

/-- The inner loop `while (i != permutation[current])`, with at most `fuel` rounds; a round swaps
the elements at `current` and `next := permutation[current]`, marks `current` done and moves to
`next`. After the loop the last position is marked done too. -/
def followCycle (i : Nat) : Nat → Nat → List Nat → σ → List Nat × σ
  | 0, current, permutation, s => (permutation.set current current, s)
  | fuel + 1, current, permutation, s =>
    let next := permutation.getD current 0
    if i ≠ next then
      followCycle i fuel next (permutation.set current current) (swap current next s)
    else (permutation.set current current, s)

/-- The outer loop over every index `i < n`, each following its cycle for at most `n` rounds. -/
def applyCycles (n : Nat) (permutation : List Nat) (s : σ) : List Nat × σ :=
  (List.range n).foldl (fun (state : List Nat × σ) i => followCycle swap i n i state.1 state.2)
    (permutation, s)

/-- `apply_permutation(permutation, swap)`: `none` where the sanity check throws "Bad
permutation", at a number below the size that the list does not hold. -/
def applyPermutation (permutation : List Nat) (s : σ) : Option σ :=
  if (List.range permutation.length).all (· ∈ permutation) then
    some (applyCycles swap permutation.length permutation s).2
  else none

/-! ## The ghost permutation -/

variable {n : Nat}

/-- The list holds the permutation `ρ` of `Fin n`, one image at each index. -/
def Denotes (p : List Nat) (ρ : Equiv.Perm (Fin n)) : Prop :=
  p.length = n ∧ ∀ j : Fin n, p.getD j 0 = ρ j

theorem getD_set_of_lt {α : Type*} {p : List α} {a : Nat} (bound : a < p.length) (x : α)
    (j : Nat) (d : α) : (p.set a x).getD j d = if a = j then x else p.getD j d := by
  simp only [List.getD_eq_getElem?_getD, List.getElem?_set, if_pos bound]
  split <;> rfl

theorem Denotes.apply_eq {p : List Nat} {ρ : Equiv.Perm (Fin n)} (denotes : Denotes p ρ)
    (j : Fin n) : p.getD j 0 = ρ j := denotes.2 j

/-- A list that is a permutation of `0, ..., n - 1` denotes the permutation of `Fin n` it lists. -/
theorem denotes_of_perm {p : List Nat} {n : Nat} (perm : p.Perm (List.range n)) :
    ∃ ρ : Equiv.Perm (Fin n), Denotes p ρ := by
  have length : p.length = n := by rw [perm.length_eq, List.length_range]
  have bound : ∀ j : Fin n, p.getD j 0 < n := fun j => by
    rw [List.getD_eq_getElem?_getD, List.getElem?_eq_getElem (length ▸ j.isLt), Option.getD_some]
    exact List.mem_range.mp (perm.subset (List.getElem_mem _))
  let f : Fin n → Fin n := fun j => ⟨p.getD j 0, bound j⟩
  have injective : Function.Injective f := by
    intro j k same
    have inJ : j.val < p.length := length ▸ j.isLt
    have inK : k.val < p.length := length ▸ k.isLt
    have values : p[j.val] = p[k.val] := by
      have entries := congrArg Fin.val same
      simp only [f, List.getD_eq_getElem?_getD, List.getElem?_eq_getElem inJ,
        List.getElem?_eq_getElem inK, Option.getD_some] at entries
      exact entries
    exact Fin.ext ((perm.nodup_iff.mpr List.nodup_range).getElem_inj_iff.mp values)
  exact ⟨Equiv.ofBijective f (Finite.injective_iff_bijective.mp injective), length, fun _ => rfl⟩

/-- One round on the lists: with the cycle closed at `current` it denotes `ρ`; marking `current`
done and closing the cycle at `ρ current` denotes `swap current (ρ current) * ρ`. -/
theorem denotes_step {p : List Nat} {ρ : Equiv.Perm (Fin n)} {L current : Fin n}
    (denotes : Denotes (p.set L current) ρ) (length : L.val < p.length) (closed : ρ L = current)
    (notL : current ≠ L) :
    Denotes ((p.set current current).set L (ρ current)) (Equiv.swap current (ρ current) * ρ) := by
  have lengthP : p.length = n := by simpa using denotes.1
  have lengthC : current.val < p.length := lengthP ▸ current.isLt
  refine ⟨by simpa using denotes.1, fun j => ?_⟩
  rw [getD_set_of_lt (by simpa using length), getD_set_of_lt lengthC, Equiv.Perm.mul_apply]
  by_cases atL : L = j
  · -- `L` now points where `current` pointed
    subst atL
    rw [if_pos rfl, closed, Equiv.swap_apply_left]
  · by_cases atCurrent : current = j
    · subst atCurrent
      rw [if_neg (Fin.val_ne_of_ne atL), if_pos rfl, Equiv.swap_apply_right]
    · -- elsewhere nothing changed, and `ρ j` is neither `current` nor its image
      have before := denotes.apply_eq j
      rw [getD_set_of_lt length, if_neg (Fin.val_ne_of_ne atL)] at before
      have notCurrent : ρ j ≠ current := fun same => atL (ρ.injective (closed.trans same.symm))
      have notImage : ρ j ≠ ρ current := fun same => atCurrent (ρ.injective same).symm
      rw [if_neg (Fin.val_ne_of_ne atL), if_neg (Fin.val_ne_of_ne atCurrent), before,
        Equiv.swap_apply_of_ne_of_ne notCurrent notImage]

/-! ## One cycle -/

section Cycle

variable {β : Type*} (view : σ → Fin n → β) (good : σ → Prop)

/-- On the states that are `good`, `swap a b` keeps them good and exchanges the elements at `a`
and `b` of the view. -/
def Transposes : Prop :=
  ∀ (a b : Fin n) (s : σ), good s → good (swap a b s) ∧ view (swap a b s) = view s ∘ Equiv.swap a b

variable {swap view good} (transposes : Transposes swap view good) (target : Fin n → β)

include transposes in
/-- Following the cycle of `i` from `current`: while the list, closed at `current`, denotes `ρ`,
whose view is the target and which fixes the indices below `i`, the loop ends with a permutation
that also fixes `i`, as long as the fuel covers the support of `ρ`. `L` is the index that points
to `i`, unchanged until the last round. -/
theorem followCycle_spec (i L : Fin n) :
    ∀ (fuel : Nat) (current : Fin n) (p : List Nat) (s : σ) (ρ : Equiv.Perm (Fin n)),
      Denotes (p.set L current) ρ → p.getD L 0 = i → good s → (∀ j, view s (ρ j) = target j) →
      (∀ j < i, ρ j = j) → (current = i ∨ ρ i = i) → ρ.support.card ≤ fuel →
      ∃ ρ', Denotes (followCycle swap i fuel current p s).1 ρ' ∧
        good (followCycle swap i fuel current p s).2 ∧
        (∀ j, view (followCycle swap i fuel current p s).2 (ρ' j) = target j) ∧
        ∀ j ≤ i, ρ' j = j := by
  intro fuel
  induction fuel with
  | zero =>
    intro current p s ρ denotes _ goodS viewed below _ small
    -- no fuel left: `ρ` is the identity, so the cycle is already closed at `current`
    have identity : ρ = 1 := Equiv.Perm.card_support_eq_zero.mp (Nat.le_zero.mp small)
    have lengthP : p.length = n := by simpa using denotes.1
    have length : L.val < p.length := lengthP ▸ L.isLt
    have closed : ρ L = current := by
      apply Fin.ext
      rw [← denotes.apply_eq L, getD_set_of_lt length, if_pos rfl]
    have same : current = L := by simpa [identity] using closed.symm
    subst same
    exact ⟨ρ, denotes, goodS, viewed, fun j _ => by simp [identity]⟩
  | succ fuel ih =>
    intro current p s ρ denotes pointsToI goodS viewed below started small
    have lengthP : p.length = n := by simpa using denotes.1
    have length : L.val < p.length := lengthP ▸ L.isLt
    have closed : ρ L = current := by
      apply Fin.ext
      rw [← denotes.apply_eq L, getD_set_of_lt length, if_pos rfl]
    -- the image of `current` under `ρ` is `permutation[current]` unless `current` is `L`
    have image : current ≠ L → (ρ current).val = p.getD current 0 := fun other => by
      rw [← denotes.apply_eq current, getD_set_of_lt length, if_neg (Fin.val_ne_of_ne other).symm]
    -- `permutation[current] = i` only at `L`
    have atL : p.getD current 0 = i → current = L := by
      intro pointing
      by_contra other
      have toI : ρ current = i := Fin.ext ((image other).trans pointing)
      have atI : current = i := by
        rcases started with first | fixed
        · exact first
        · exact ρ.injective (toI.trans fixed.symm)
      exact other (ρ.injective (toI.trans (closed.trans atI).symm))
    simp only [followCycle]
    split
    · next stepping =>
      have notL : current ≠ L := fun same => stepping (same ▸ pointsToI).symm
      have moved : ρ current ≠ current := fun fixed =>
        notL (ρ.injective (fixed.trans closed.symm))
      have off : ∀ j, ρ j = j → j ≠ current ∧ j ≠ ρ current := fun j fixed =>
        ⟨fun same => moved (same ▸ fixed),
          fun same => moved (same.symm.trans (ρ.injective (fixed.trans same)))⟩
      rw [(image notL).symm]
      -- one round: the ghost permutation takes one transposition on the left
      refine ih (ρ current) (p.set current current) (swap current (ρ current) s)
        (Equiv.swap current (ρ current) * ρ) ?_ ?_ (transposes _ _ s goodS).1 ?_ ?_ (Or.inr ?_) ?_
      · exact denotes_step denotes length closed notL
      · rw [getD_set_of_lt (lengthP ▸ current.isLt), if_neg (Fin.val_ne_of_ne notL)]
        exact pointsToI
      · intro j
        rw [(transposes _ _ s goodS).2, Function.comp_apply, Equiv.Perm.mul_apply,
          Equiv.swap_apply_self]
        exact viewed j
      · intro j lt
        have fixed := below j lt
        rw [Equiv.Perm.mul_apply, fixed,
          Equiv.swap_apply_of_ne_of_ne (off j fixed).1 (off j fixed).2]
      · rcases started with first | fixed
        · subst first
          rw [Equiv.Perm.mul_apply, Equiv.swap_apply_right]
        · rw [Equiv.Perm.mul_apply, fixed,
            Equiv.swap_apply_of_ne_of_ne (off i fixed).1 (off i fixed).2]
      · exact Nat.le_of_lt_succ
          (Nat.lt_of_lt_of_le (Equiv.Perm.card_support_swap_mul moved) small)
    · next closing =>
      have same : current = L := atL (Decidable.of_not_not closing).symm
      subst same
      refine ⟨ρ, denotes, goodS, viewed, fun j le => ?_⟩
      rcases lt_or_eq_of_le le with lt | equal
      · exact below j lt
      · subst equal
        rcases started with first | fixed
        · exact first ▸ closed
        · exact fixed

include transposes in
/-- The outer loop after the indices below `k`: the list denotes a permutation that fixes them and
whose view is the target. -/
theorem foldl_followCycle_spec (p : List Nat) (s : σ) (ρ : Equiv.Perm (Fin n))
    (denotes : Denotes p ρ) (goodS : good s) (viewed : ∀ j, view s (ρ j) = target j) :
    ∀ k ≤ n, ∃ ρ',
      Denotes ((List.range k).foldl
        (fun (state : List Nat × σ) i => followCycle swap i n i state.1 state.2) (p, s)).1 ρ' ∧
      good ((List.range k).foldl
        (fun (state : List Nat × σ) i => followCycle swap i n i state.1 state.2) (p, s)).2 ∧
      (∀ j, view ((List.range k).foldl
        (fun (state : List Nat × σ) i => followCycle swap i n i state.1 state.2) (p, s)).2 (ρ' j) =
          target j) ∧
      ∀ j : Fin n, j.val < k → ρ' j = j
  | 0, _ => ⟨ρ, denotes, goodS, viewed, fun _ lt => absurd lt (Nat.not_lt_zero _)⟩
  | k + 1, le => by
    obtain ⟨ρ, denotes, goodS, viewed, below⟩ :=
      foldl_followCycle_spec p s ρ denotes goodS viewed k (Nat.le_of_succ_le le)
    rw [List.range_succ, List.foldl_append, List.foldl_cons, List.foldl_nil]
    generalize (List.range k).foldl
      (fun (state : List Nat × σ) i => followCycle swap i n i state.1 state.2) (p, s) = state
      at denotes goodS viewed ⊢
    -- the cycle of `k` starts closed: the index `L` that points to `k` already does
    let i : Fin n := ⟨k, le⟩
    have closedAtI : state.1.getD (ρ.symm i) 0 = i := by
      rw [denotes.apply_eq, Equiv.apply_symm_apply]
    have opened : state.1.set (ρ.symm i) i = state.1 := by
      rw [← closedAtI, List.getD_eq_getElem?_getD, List.getElem?_eq_getElem
        (by rw [denotes.1]; exact (ρ.symm i).isLt), Option.getD_some, List.set_getElem_self]
    obtain ⟨ρ', denotes', goodS', viewed', fixed⟩ := followCycle_spec transposes target i (ρ.symm i)
      n i state.1 state.2 ρ (by rw [opened]; exact denotes) closedAtI goodS viewed
      (fun j lt => below j lt) (Or.inl rfl) ((Finset.card_le_univ _).trans (Fintype.card_fin n).le)
    exact ⟨ρ', denotes', goodS', viewed', fun j lt => fixed j (Nat.le_of_lt_succ lt)⟩

include transposes in
/-- After the whole loop the view is the view before composed with the permutation. -/
theorem applyCycles_view {p : List Nat} {ρ : Equiv.Perm (Fin n)} (denotes : Denotes p ρ)
    {s : σ} (goodS : good s) :
    good (applyCycles swap n p s).2 ∧ view (applyCycles swap n p s).2 = view s ∘ ρ := by
  obtain ⟨ρ', -, goodS', viewed, fixed⟩ :=
    foldl_followCycle_spec transposes (view s ∘ ρ) p s ρ denotes goodS (fun _ => rfl) n le_rfl
  -- every index is fixed, so the final permutation is the identity
  have identity : ρ' = 1 := Equiv.ext fun j => fixed j j.isLt
  refine ⟨goodS', funext fun j => ?_⟩
  simpa [applyCycles, identity] using viewed j

end Cycle

/-! ## The whole run -/

section Run

variable {β : Type*} {view : σ → Fin n → β} {good : σ → Prop} {swap}

/-- The views of two states that two swaps act on side by side transpose together. -/
theorem Transposes.prod {τ γ : Type*} {swap' : Nat → Nat → τ → τ} {view' : τ → Fin n → γ}
    {good' : τ → Prop} (transposes : Transposes swap view good)
    (transposes' : Transposes swap' view' good') :
    Transposes (fun a b (state : σ × τ) => (swap a b state.1, swap' a b state.2))
      (fun state j => (view state.1 j, view' state.2 j)) (fun state => good state.1 ∧ good' state.2) := by
  intro a b state goodState
  have first := transposes a b state.1 goodState.1
  have second := transposes' a b state.2 goodState.2
  refine ⟨⟨first.1, second.1⟩, funext fun j => ?_⟩
  dsimp only
  rw [first.2, second.2]
  rfl

/-- Swapping two entries of a list of length `n` transposes them, viewing the list by index. -/
theorem transposes_swap {α : Type*} :
    Transposes (fun a b (v : List α) => v.swap a b) (fun v (j : Fin n) => v[j.val]?)
      (fun v => v.length = n) := by
  intro a b v length
  refine ⟨by simpa using length, funext fun j => ?_⟩
  have bound : (Equiv.swap a b j).val < v.length := length ▸ (Equiv.swap a b j).isLt
  dsimp only
  rw [Function.comp_apply, List.getElem?_eq_getElem (by simp [length]),
    List.getElem?_eq_getElem bound, List.getElem_swap]
  by_cases atA : j = a
  · subst atA
    simp [length, Equiv.swap_apply_left]
  · by_cases atB : j = b
    · subst atB
      simp [length, Fin.val_ne_of_ne atA, Equiv.swap_apply_right]
    · simp [Fin.val_ne_of_ne atA, Fin.val_ne_of_ne atB, Equiv.swap_apply_of_ne_of_ne atA atB]

variable (transposes : Transposes swap view good)

include transposes in
/-- `apply_permutation` with a list that denotes `ρ`: the sanity check passes, and the view
after the run is the view before composed with `ρ`. -/
theorem applyPermutation_view {p : List Nat} {ρ : Equiv.Perm (Fin n)} (denotes : Denotes p ρ)
    {s : σ} (goodS : good s) :
    ∃ s', applyPermutation swap p s = some s' ∧ good s' ∧ view s' = view s ∘ ρ := by
  -- every number below the size is in the list, at the index its inverse gives
  have holds : (List.range p.length).all (· ∈ p) = true := by
    rw [List.all_eq_true]
    intro m mem
    have bound : m < n := denotes.1 ▸ List.mem_range.mp mem
    have image := denotes.apply_eq (ρ.symm ⟨m, bound⟩)
    rw [Equiv.apply_symm_apply, List.getD_eq_getElem?_getD, List.getElem?_eq_getElem
      (by rw [denotes.1]; exact (ρ.symm _).isLt), Option.getD_some] at image
    have present : m ∈ p := by
      rw [← show (⟨m, bound⟩ : Fin n).val = m from rfl, ← image]
      exact List.getElem_mem _
    exact decide_eq_true present
  rw [applyPermutation, if_pos holds, denotes.1]
  exact ⟨_, rfl, applyCycles_view transposes denotes goodS⟩

end Run

end Permute

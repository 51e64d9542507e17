import Mathlib.Data.List.Nodup

/-!
# Maps from keys to positions in a list

A program that keeps records in a vector and a map from a key of each record to its position
keeps the two in step by hand. `Indexes m l key q` states that they are in step: `m` maps the key
of each element of `l` that passes `q` to its position, and maps nothing else.

* `Indexes.nodup`: the keys of the elements the map indexes are distinct.
* `Indexes.append`: appending an element whose key is new and indexing it at the end.
* `Indexes.congr`, `Indexes.map`, `Indexes.set`, `Indexes.modify`: rewriting elements in place
  without changing their keys or their test.
* `Indexes.take`: cutting the list, with the keys of the elements cut off erased from the map.
* `take_findIdx_eq_filter`: on a list ordered by a key, the cut before the first element whose
  key reaches a bound keeps exactly the elements below it.
* `forall_mem_modify`: a property of every element that the rewrite keeps holds after it.
-/

namespace ListIndex

variable {α β : Type} [DecidableEq β]

/-- A map with the keys of `ks` erased. -/
def eraseAll (m : β → Option Nat) (ks : List β) : β → Option Nat :=
  fun k => if k ∈ ks then none else m k

@[simp] theorem eraseAll_nil (m : β → Option Nat) : eraseAll m [] = m := by
  funext k
  simp [eraseAll]

theorem eraseAll_cons (m : β → Option Nat) (k : β) (ks : List β) :
    eraseAll m (k :: ks) = eraseAll (Function.update m k none) ks := by
  funext k'
  by_cases same : k' = k
  · subst same
    simp [eraseAll]
  · simp [eraseAll, same]

omit [DecidableEq β] in
/-- `m` maps the key of each element of `l` that passes `q` to its position, and nothing else. -/
def Indexes (m : β → Option Nat) (l : List α) (key : α → β) (q : α → Bool) : Prop :=
  ∀ x i, m x = some i ↔ ∃ a, l[i]? = some a ∧ key a = x ∧ q a = true

variable {m : β → Option Nat} {l : List α} {key : α → β} {q : α → Bool}

namespace Indexes

omit [DecidableEq β] in
theorem nil : Indexes (fun _ => none) ([] : List α) key q := by
  intro x i
  simp

omit [DecidableEq β] in
theorem position (index : Indexes m l key q) {i : Nat} {a : α} (at_i : l[i]? = some a)
    (passes : q a = true) : m (key a) = some i :=
  (index (key a) i).mpr ⟨a, at_i, rfl, passes⟩

omit [DecidableEq β] in
theorem isSome_of_mem (index : Indexes m l key q) {a : α} (mem : a ∈ l) (passes : q a = true) :
    (m (key a)).isSome := by
  obtain ⟨i, at_i⟩ := List.mem_iff_getElem?.mp mem
  rw [index.position at_i passes]
  rfl

omit [DecidableEq β] in
/-- Two indexed elements of the same key are at the same position. -/
theorem position_eq (index : Indexes m l key q) {i j : Nat} {a b : α} (at_i : l[i]? = some a)
    (at_j : l[j]? = some b) (passesA : q a = true) (passesB : q b = true) (same : key a = key b) :
    i = j := by
  have first := index.position at_i passesA
  rw [same, index.position at_j passesB] at first
  exact (Option.some.inj first).symm

omit [DecidableEq β] in
theorem nodup (index : Indexes m l key q) : ((l.filter q).map key).Nodup := by
  rw [List.Nodup, List.pairwise_map, List.pairwise_filter, List.pairwise_iff_getElem]
  intro i j hi hj lt passesI passesJ same
  have := index.position_eq (List.getElem?_eq_getElem hi) (List.getElem?_eq_getElem hj) passesI
    passesJ same
  omega

/-- An element whose key is new, at the end: the map indexes it there when it passes the test. -/
theorem append (index : Indexes m l key q) {a : α} (fresh : q a = true → m (key a) = none) :
    Indexes (if q a then Function.update m (key a) (some l.length) else m) (l ++ [a]) key q := by
  intro x i
  by_cases last : i = l.length
  · subst last
    simp only [List.getElem?_append_right (Nat.le_refl _), Nat.sub_self, List.getElem?_cons_zero,
      Option.some.injEq, exists_eq_left']
    -- the new position holds the new element only
    have unused : ∀ y, m y ≠ some l.length := fun y indexed => by
      obtain ⟨b, at_end, _⟩ := (index y l.length).mp indexed
      simp at at_end
    by_cases passes : q a = true
    · by_cases same : x = key a
      · subst same
        simp [passes]
      · simp [passes, Function.update_of_ne same, unused, Ne.symm same]
    · simp [passes, unused]
  · have before : ∀ b, (l ++ [a])[i]? = some b ↔ l[i]? = some b := by
      intro b
      by_cases inside : i < l.length
      · rw [List.getElem?_append_left inside]
      · rw [List.getElem?_append_right (Nat.not_lt.mp inside)]
        have beyond : l[i]? = none := List.getElem?_eq_none (Nat.not_lt.mp inside)
        have past : i - l.length ≠ 0 := by omega
        simp [beyond, past]
    simp only [before]
    by_cases passes : q a = true
    · by_cases same : x = key a
      · subst same
        rw [if_pos passes, Function.update_self]
        constructor
        · intro moved
          exact absurd (Option.some.inj moved).symm last
        · rintro ⟨b, at_i, sameKey, passesB⟩
          have indexed := index.position at_i passesB
          rw [sameKey, fresh passes] at indexed
          cases indexed
      · rw [if_pos passes, Function.update_of_ne same]
        exact index x i
    · rw [if_neg passes]
      exact index x i

omit [DecidableEq β] in
/-- Elements rewritten in place with the same keys and the same test are indexed alike. -/
theorem congr (index : Indexes m l key q) {l' : List α} (length : l'.length = l.length)
    (same : ∀ i (hi : i < l.length) (hi' : i < l'.length),
      key l'[i] = key l[i] ∧ q l'[i] = q l[i]) :
    Indexes m l' key q := by
  intro x i
  rw [index x i]
  by_cases inside : i < l.length
  · have inside' : i < l'.length := length ▸ inside
    obtain ⟨sameKey, sameTest⟩ := same i inside inside'
    simp only [List.getElem?_eq_getElem inside, List.getElem?_eq_getElem inside',
      Option.some.injEq, exists_eq_left', sameKey, sameTest]
  · have outside' : ¬i < l'.length := length ▸ inside
    simp [List.getElem?_eq_none (Nat.not_lt.mp inside),
      List.getElem?_eq_none (Nat.not_lt.mp outside')]

omit [DecidableEq β] in
theorem map (index : Indexes m l key q) {f : α → α} (sameKey : ∀ a, key (f a) = key a)
    (sameTest : ∀ a, q (f a) = q a) : Indexes m (l.map f) key q :=
  index.congr (List.length_map f) fun i _ _ => by
    rw [List.getElem_map, sameKey, sameTest]
    exact ⟨rfl, rfl⟩

omit [DecidableEq β] in
theorem set (index : Indexes m l key q) {i : Nat} {a b : α} (at_i : l[i]? = some a)
    (sameKey : key b = key a) (sameTest : q b = q a) : Indexes m (l.set i b) key q := by
  obtain ⟨_, replaced⟩ := List.getElem?_eq_some_iff.mp at_i
  refine index.congr (List.length_set ..) fun j hj _ => ?_
  rw [List.getElem_set]
  by_cases same : i = j
  · subst same
    rw [if_pos rfl, sameKey, sameTest, replaced]
    exact ⟨rfl, rfl⟩
  · rw [if_neg same]
    exact ⟨rfl, rfl⟩

omit [DecidableEq β] in
theorem modify (index : Indexes m l key q) (i : Nat) {f : α → α}
    (sameKey : ∀ a, key (f a) = key a) (sameTest : ∀ a, q (f a) = q a) :
    Indexes m (l.modify i f) key q := by
  refine index.congr (List.length_modify ..) fun j hj _ => ?_
  rw [List.getElem_modify]
  split
  · exact ⟨sameKey _, sameTest _⟩
  · exact ⟨rfl, rfl⟩

/-- Cutting the list at `k`: the map without the keys of the indexed elements cut off indexes
what is left. -/
theorem take (index : Indexes m l key q) (k : Nat) :
    Indexes (eraseAll m (((l.drop k).filter q).map key)) (l.take k) key q := by
  intro x i
  simp only [eraseAll, List.getElem?_take]
  -- a key of an element cut off is at a position from `k` on
  have cutOff : x ∈ ((l.drop k).filter q).map key ↔
      ∃ j a, k ≤ j ∧ l[j]? = some a ∧ key a = x ∧ q a = true := by
    simp only [List.mem_map, List.mem_filter]
    simp only [List.mem_iff_getElem?, List.getElem?_drop]
    constructor
    · rintro ⟨a, ⟨⟨j, at_j⟩, passes⟩, rfl⟩
      exact ⟨k + j, a, Nat.le_add_right _ _, at_j, rfl, passes⟩
    · rintro ⟨j, a, le, at_j, rfl, passes⟩
      refine ⟨a, ⟨⟨j - k, ?_⟩, passes⟩, rfl⟩
      rwa [Nat.add_sub_cancel' le]
  constructor
  · intro indexed
    split at indexed
    · cases indexed
    · rename_i notCut
      obtain ⟨a, at_i, rfl, passes⟩ := (index x i).mp indexed
      have early : i < k := by
        by_contra late
        exact notCut (cutOff.mpr ⟨i, a, Nat.not_lt.mp late, at_i, rfl, passes⟩)
      exact ⟨a, by rw [if_pos early, at_i], rfl, passes⟩
  · rintro ⟨a, at_i, rfl, passes⟩
    split at at_i
    · rename_i early
      have notCut : key a ∉ ((l.drop k).filter q).map key := fun cut => by
        obtain ⟨j, b, le, at_j, sameKey, passesB⟩ := cutOff.mp cut
        have := index.position_eq at_i at_j passes passesB sameKey.symm
        omega
      rw [if_neg notCut]
      exact index.position at_i passes
    · cases at_i

end Indexes

omit [DecidableEq β] in
/-- A property of every element that `f` keeps holds of every element after `f` rewrites one. -/
theorem forall_mem_modify {p : α → Prop} {f : α → α} (keeps : ∀ a, p a → p (f a)) :
    ∀ {l : List α} (i : Nat), (∀ a ∈ l, p a) → ∀ a ∈ l.modify i f, p a
  | [], i, _ => by simp
  | b :: l, 0, all => by
    rw [List.modify_zero_cons]
    intro a mem
    rcases List.mem_cons.mp mem with rewritten | rest
    · rw [rewritten]
      exact keeps b (all b List.mem_cons_self)
    · exact all a (List.mem_cons_of_mem b rest)
  | b :: l, i + 1, all => by
    rw [List.modify_succ_cons]
    intro a mem
    rcases List.mem_cons.mp mem with head | rest
    · rw [head]
      exact all b List.mem_cons_self
    · exact forall_mem_modify keeps i (fun c mem => all c (List.mem_cons_of_mem b mem)) a rest

/-! ## Cutting a list ordered by a key -/

omit [DecidableEq β] in
/-- In a list ordered by `f`, the elements before the first one whose `f` reaches `h` are the
elements whose `f` is below `h`. -/
theorem take_findIdx_eq_filter {f : α → Nat} {h : Nat} :
    ∀ {l : List α}, (l.map f).Pairwise (· ≤ ·) →
      l.take (l.findIdx fun a => h ≤ f a) = l.filter fun a => f a < h
  | [], _ => rfl
  | a :: l, sorted => by
    rw [List.map_cons, List.pairwise_cons] at sorted
    obtain ⟨first, sorted⟩ := sorted
    by_cases reached : h ≤ f a
    · -- the cut is at the head, and every later element is at least as high
      have above : ∀ b ∈ l, ¬f b < h := fun b mem =>
        Nat.not_lt.mpr (Nat.le_trans reached (first (f b) (List.mem_map_of_mem mem)))
      rw [List.findIdx_cons, decide_eq_true reached, cond_true, List.take_zero,
        List.filter_cons_of_neg (by simpa using reached)]
      exact (List.filter_eq_nil_iff.mpr fun b mem => by simpa using above b mem).symm
    · rw [List.findIdx_cons, decide_eq_false reached, cond_false, List.take_succ_cons,
        List.filter_cons_of_pos (by simpa using Nat.not_le.mp reached), take_findIdx_eq_filter sorted]

end ListIndex

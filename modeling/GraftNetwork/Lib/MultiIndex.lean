import Mathlib.Data.List.Sort

/-!
# Containers with a unique key and an order (boost::multi_index)

A `boost::multi_index_container` with an `ordered_unique` index by a key and an
`ordered_non_unique` index by an order is modelled by its elements in the order of the second
index: `MultiIndex key order`, whose fields say that this order holds and that no two elements
share a key, so no operation can build a container without them.

* `insert` refuses an element whose key is taken, and otherwise links it at the upper bound of
  its order, after the elements it ties with (`linkUpper`).
* `replace` keeps the element of its key where it stands when the new value still fits between
  its neighbours, and otherwise relinks it at the upper bound, as the ordered index's `replace_`
  does (`replaceList`).
* `erase` by key, `eraseFirst` (the first element of the ordered index), and what each operation
  keeps: every element comes from the old container or is the new one (`mem_insert`,
  `mem_replace`, `mem_erase`, `mem_eraseFirst`), and how the size moves.
-/

/-- The elements in the order of the second index, no two with one key. -/
structure MultiIndex {α κ τ : Type} [LE τ] (key : α → κ) (order : α → τ) where
  elements : List α
  sorted : elements.Pairwise fun a b => order a ≤ order b
  unique : (elements.map key).Nodup

namespace MultiIndex

variable {α κ τ : Type} [LinearOrder τ]

/-! ## Linking at the upper bound -/

/-- An ordered_non_unique index links a new element after every element that is not later. -/
def linkUpper (order : α → τ) (v : α) (l : List α) : List α :=
  l.orderedInsert (fun a b => order a < order b) v

section Lists

variable {order : α → τ}

theorem perm_linkUpper (v : α) (l : List α) : (linkUpper order v l).Perm (v :: l) :=
  List.perm_orderedInsert _ v l

theorem mem_linkUpper {v a : α} {l : List α} : a ∈ linkUpper order v l ↔ a = v ∨ a ∈ l :=
  List.mem_orderedInsert _

theorem pairwise_linkUpper (v : α) :
    ∀ {l : List α}, l.Pairwise (fun a b => order a ≤ order b) →
      (linkUpper order v l).Pairwise fun a b => order a ≤ order b
  | [], _ => List.pairwise_singleton _ v
  | b :: l, sorted => by
    obtain ⟨after, rest⟩ := List.pairwise_cons.mp sorted
    by_cases before : order v < order b
    · rw [linkUpper, List.orderedInsert_cons_of_le (fun a b => order a < order b) _ before]
      refine List.pairwise_cons.mpr ⟨fun c mem => ?_, sorted⟩
      rcases List.mem_cons.mp mem with rfl | mem
      · exact le_of_lt before
      · exact (le_of_lt before).trans (after c mem)
    · rw [linkUpper, List.orderedInsert_of_not_le (fun a b => order a < order b) _ before]
      refine List.pairwise_cons.mpr ⟨fun c mem => ?_, pairwise_linkUpper v rest⟩
      rcases mem_linkUpper.mp mem with rfl | mem
      · exact le_of_not_gt before
      · exact after c mem

/-- Every element of a sorted list is at least its head. -/
theorem le_of_head? {v : α} {l : List α} (sorted : l.Pairwise fun a b => order a ≤ order b)
    (fits : l.head?.all fun a => order v ≤ order a) : ∀ a ∈ l, order v ≤ order a := by
  cases l with
  | nil => exact fun a mem => absurd mem List.not_mem_nil
  | cons h t =>
    have first : order v ≤ order h := by simpa using fits
    intro a mem
    rcases List.mem_cons.mp mem with rfl | later
    · exact first
    · exact first.trans (List.rel_of_pairwise_cons sorted later)

/-- Every element of a sorted list is at most its last one. -/
theorem le_of_getLast? {v : α} {l : List α} (sorted : l.Pairwise fun a b => order a ≤ order b)
    (fits : l.getLast?.all fun a => order a ≤ order v) : ∀ a ∈ l, order a ≤ order v := by
  rcases List.eq_nil_or_concat l with rfl | ⟨init, z, rfl⟩
  · exact fun a mem => absurd mem List.not_mem_nil
  · have last : order z ≤ order v := by simpa using fits
    rw [List.concat_eq_append, List.pairwise_append] at sorted
    intro a mem
    rcases List.mem_append.mp (List.concat_eq_append ▸ mem) with earlier | single
    · exact (sorted.2.2 a earlier z List.mem_cons_self).trans last
    · rw [List.mem_singleton.mp single]
      exact last

/-- A list where `dropWhile` stops at `x` is what `takeWhile` took, then `x` and the rest. -/
theorem eq_takeWhile_append_of_dropWhile {p : α → Bool} {l after : List α} {x : α}
    (dropped : l.dropWhile p = x :: after) : l = l.takeWhile p ++ x :: after ∧ p x = false := by
  refine ⟨by rw [← dropped, List.takeWhile_append_dropWhile], ?_⟩
  have stops := List.head_dropWhile_not p (l := l) (by rw [dropped]; exact List.cons_ne_nil x after)
  simpa [dropped] using stops

end Lists

/-! ## Replacing in place or relinking -/

/-- The ordered index's replace: the element with `v`'s key, if there is one, gives way to `v`,
in its place when the order still holds there, else at the upper bound of `v`'s order. -/
def replaceList [DecidableEq κ] (key : α → κ) (order : α → τ) (v : α) (l : List α) : List α :=
  match l.dropWhile (key · != key v) with
  | [] => l
  | _ :: after =>
    let before := l.takeWhile (key · != key v)
    if (before.getLast?.all fun b => order b ≤ order v) && (after.head?.all fun a => order v ≤ order a)
    then before ++ v :: after
    else linkUpper order v (before ++ after)

section Replace

variable [DecidableEq κ] {key : α → κ} {order : α → τ}

/-- replace leaves the list alone, or swaps the element of `v`'s key for `v`: the other elements
are a sublist of the old ones. -/
theorem replaceList_cases (v : α) (l : List α) :
    replaceList key order v l = l ∨
      ∃ x rest, key x = key v ∧ l.Perm (x :: rest) ∧ rest.Sublist l ∧
        (replaceList key order v l).Perm (v :: rest) := by
  unfold replaceList
  split
  · exact .inl rfl
  · next x after dropped =>
    obtain ⟨split, stops⟩ := eq_takeWhile_append_of_dropWhile dropped
    have sameKey : key x = key v := by simpa using stops
    refine .inr ⟨x, l.takeWhile (key · != key v) ++ after, sameKey, ?_, ?_, ?_⟩
    · exact (List.Perm.of_eq split).trans List.perm_middle
    · have kept := (List.sublist_cons_self x after).append_left (l.takeWhile (key · != key v))
      rw [← split] at kept
      exact kept
    · dsimp only
      split_ifs
      · exact List.perm_middle
      · exact perm_linkUpper v _

theorem pairwise_replaceList (v : α) {l : List α}
    (sorted : l.Pairwise fun a b => order a ≤ order b) :
    (replaceList key order v l).Pairwise fun a b => order a ≤ order b := by
  unfold replaceList
  split
  · exact sorted
  · next x after dropped =>
    obtain ⟨split, -⟩ := eq_takeWhile_append_of_dropWhile dropped
    have parts := sorted
    rw [split, List.pairwise_append, List.pairwise_cons] at parts
    obtain ⟨sortedBefore, ⟨-, sortedAfter⟩, across⟩ := parts
    dsimp only
    split_ifs with fits
    · -- in place: `v` is after everything before it and before everything after it
      rw [Bool.and_eq_true] at fits
      have fromBefore := le_of_getLast? sortedBefore fits.1
      have toAfter := le_of_head? sortedAfter fits.2
      refine List.pairwise_append.mpr ⟨sortedBefore, List.pairwise_cons.mpr ⟨toAfter, sortedAfter⟩,
        fun b bMem y yMem => ?_⟩
      rcases List.mem_cons.mp yMem with rfl | later
      · exact fromBefore b bMem
      · exact across b bMem y (List.mem_cons_of_mem x later)
    · -- relinked: the others keep their order, and `v` goes in at its upper bound
      have kept := (List.sublist_cons_self x after).append_left (l.takeWhile (key · != key v))
      rw [← split] at kept
      exact pairwise_linkUpper v (sorted.sublist kept)

end Replace

/-! ## The operations -/

variable [DecidableEq κ] {key : α → κ} {order : α → τ}

def empty : MultiIndex key order := ⟨[], List.Pairwise.nil, List.nodup_nil⟩

def size (c : MultiIndex key order) : Nat := c.elements.length

/-- find on the key's index. -/
def find (k : κ) (c : MultiIndex key order) : Option α := c.elements.find? (key · == k)

/-- insert: refused when the key is taken, else linked at the upper bound of the order. -/
def insert (v : α) (c : MultiIndex key order) : MultiIndex key order :=
  if taken : key v ∈ c.elements.map key then c
  else
    ⟨linkUpper order v c.elements, pairwise_linkUpper v c.sorted,
      ((perm_linkUpper v c.elements).map key).nodup_iff.mpr (List.nodup_cons.mpr ⟨taken, c.unique⟩)⟩

/-- replace, at the element with `v`'s key. -/
def replace (v : α) (c : MultiIndex key order) : MultiIndex key order :=
  ⟨replaceList key order v c.elements, pairwise_replaceList v c.sorted, by
    rcases @replaceList_cases _ _ _ _ _ key order v c.elements with same | ⟨x, rest, sameKey, old, -, new⟩
    · rw [same]
      exact c.unique
    · -- the keys are those of the old elements, with `v`'s key for the one it replaced
      have swap : (v :: rest).map key = (x :: rest).map key := by
        rw [List.map_cons, List.map_cons, sameKey]
      have keys := ((new.map key).trans (List.Perm.of_eq swap)).trans (old.map key).symm
      exact keys.nodup_iff.mpr c.unique⟩

/-- erase, at the element of key `k`. -/
def erase (k : κ) (c : MultiIndex key order) : MultiIndex key order :=
  ⟨c.elements.filter (key · != k), c.sorted.filter _,
    c.unique.sublist (List.filter_sublist.map key)⟩

/-- erase at the begin of the ordered index: an element of the least order. -/
def eraseFirst (c : MultiIndex key order) : MultiIndex key order :=
  ⟨c.elements.tail, c.sorted.sublist (List.tail_sublist _),
    c.unique.sublist ((List.tail_sublist _).map key)⟩

/-! ## What the operations keep -/

variable {c : MultiIndex key order}

theorem find_eq_none {k : κ} : c.find k = none ↔ ∀ e ∈ c.elements, key e ≠ k := by
  simp [find, List.find?_eq_none]

theorem mem_insert {v e : α} (mem : e ∈ (c.insert v).elements) : e = v ∨ e ∈ c.elements := by
  unfold insert at mem
  split_ifs at mem
  · exact .inr mem
  · exact mem_linkUpper.mp mem

theorem size_insert_le (v : α) : (c.insert v).size ≤ c.size + 1 := by
  unfold insert size
  split_ifs
  · exact Nat.le_succ _
  · exact ((perm_linkUpper v c.elements).length_eq).le

theorem mem_replace {v e : α} (mem : e ∈ (c.replace v).elements) : e = v ∨ e ∈ c.elements := by
  rcases @replaceList_cases _ _ _ _ _ key order v c.elements with same | ⟨x, rest, -, -, sub, new⟩
  · exact .inr (same ▸ mem)
  · rcases List.mem_cons.mp (new.subset mem) with rfl | kept
    · exact .inl rfl
    · exact .inr (sub.subset kept)

theorem size_replace (v : α) : (c.replace v).size = c.size := by
  rcases @replaceList_cases _ _ _ _ _ key order v c.elements with same | ⟨x, rest, -, old, -, new⟩
  · exact congrArg List.length same
  · exact new.length_eq.trans old.length_eq.symm

theorem mem_erase {k : κ} {e : α} : e ∈ (c.erase k).elements ↔ e ∈ c.elements ∧ key e ≠ k := by
  simp [erase, List.mem_filter]

theorem size_erase_le (k : κ) : (c.erase k).size ≤ c.size :=
  List.filter_sublist.length_le

omit [DecidableEq κ] in
theorem mem_eraseFirst {e : α} (mem : e ∈ c.eraseFirst.elements) : e ∈ c.elements :=
  (List.tail_sublist _).subset mem

omit [DecidableEq κ] in
theorem size_eraseFirst : c.eraseFirst.size = c.size - 1 := List.length_tail

end MultiIndex

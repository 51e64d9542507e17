import Mathlib.Data.List.Pairwise

/-!
# Ordered maps as sorted lists

A `std::map` holds at most one value for each key and visits its entries in increasing order of
its keys. It is modelled by the list of its entries in that order: `Increasing m` says that the
keys go up strictly, and `insert` is `std::map::insert`, which puts a new key at its place and
leaves the map as it is when the key is already there. The keys may be of any type with a strict
total order.

* `mem_insert`, `mem_ofList`: the entries of a map built by insertion are among those inserted.
* `length_insert_le`, `length_ofList_le`: a map built by insertion has at most as many entries as
  were inserted.
* `insert_of_lt`: a key above every key of the map goes at the end.
* `ofList_of_increasing`: inserting the entries of a map, in order, into an empty map rebuilds
  it, which is what a reader that inserts the entries it reads gets back from a writer that wrote
  a map in order.
* `increasing_insert`, `increasing_ofList`: insertion keeps the keys increasing, so whatever is
  inserted, in whatever order, the result is a map.
-/

namespace OrderedMap

variable {κ ν : Type} [LT κ] [DecidableLT κ] [DecidableEq κ]

/-- `std::map::insert`: a new key at its place; a key that is already there keeps its value. -/
def insert (k : κ) (v : ν) : List (κ × ν) → List (κ × ν)
  | [] => [(k, v)]
  | (k', v') :: rest =>
    if k = k' then (k', v') :: rest
    else if k < k' then (k, v) :: (k', v') :: rest
    else (k', v') :: insert k v rest

/-- The entries inserted one after another into an empty map. -/
def ofList (entries : List (κ × ν)) : List (κ × ν) :=
  entries.foldl (fun m entry => insert entry.1 entry.2 m) []

/-- The keys of the entries go up strictly. -/
def Increasing (m : List (κ × ν)) : Prop :=
  m.Pairwise fun a b => a.1 < b.1

instance (m : List (κ × ν)) : Decidable (Increasing m) :=
  inferInstanceAs (Decidable (m.Pairwise _))

theorem mem_insert {k : κ} {v : ν} {entry : κ × ν} :
    ∀ {m : List (κ × ν)}, entry ∈ insert k v m → entry = (k, v) ∨ entry ∈ m
  | [], mem => .inl (List.mem_singleton.mp mem)
  | (k', v') :: rest, mem => by
    rw [insert] at mem
    by_cases same : k = k'
    · rw [if_pos same] at mem
      exact .inr mem
    by_cases below : k < k'
    · rw [if_neg same, if_pos below] at mem
      rcases List.mem_cons.mp mem with new | old
      · exact .inl new
      · exact .inr old
    rw [if_neg same, if_neg below] at mem
    rcases List.mem_cons.mp mem with first | later
    · exact .inr (first ▸ List.mem_cons_self)
    · rcases mem_insert later with new | old
      · exact .inl new
      · exact .inr (List.mem_cons_of_mem _ old)

/-- Entries inserted into `m` one after another end up among those of `m` and those inserted. -/
theorem mem_foldl_insert {entry : κ × ν} :
    ∀ {entries m : List (κ × ν)},
      entry ∈ entries.foldl (fun m e => insert e.1 e.2 m) m → entry ∈ m ∨ entry ∈ entries
  | [], _, mem => .inl mem
  | e :: entries, m, mem => by
    rw [List.foldl_cons] at mem
    rcases mem_foldl_insert mem with inserted | later
    · rcases mem_insert inserted with new | old
      · exact .inr (new ▸ List.mem_cons_self)
      · exact .inl old
    · exact .inr (List.mem_cons_of_mem e later)

theorem mem_ofList {entry : κ × ν} {entries : List (κ × ν)} (mem : entry ∈ ofList entries) :
    entry ∈ entries :=
  (mem_foldl_insert mem).resolve_left List.not_mem_nil

/-- An insertion adds at most one entry. -/
theorem length_insert_le (k : κ) (v : ν) :
    ∀ m : List (κ × ν), (insert k v m).length ≤ m.length + 1
  | [] => Nat.le_refl 1
  | (k', v') :: rest => by
    rw [insert]
    by_cases same : k = k'
    · rw [if_pos same]
      exact Nat.le_succ _
    by_cases below : k < k'
    · rw [if_neg same, if_pos below]
      exact Nat.le_refl _
    rw [if_neg same, if_neg below, List.length_cons, List.length_cons]
    exact Nat.succ_le_succ (length_insert_le k v rest)

theorem length_foldl_insert_le :
    ∀ entries m : List (κ × ν),
      (entries.foldl (fun m e => insert e.1 e.2 m) m).length ≤ m.length + entries.length
  | [], m => Nat.le_refl _
  | e :: entries, m => by
    have added := length_insert_le e.1 e.2 m
    have rest := length_foldl_insert_le entries (insert e.1 e.2 m)
    rw [List.foldl_cons, List.length_cons]
    omega

/-- A map built from entries has at most as many entries. -/
theorem length_ofList_le (entries : List (κ × ν)) : (ofList entries).length ≤ entries.length := by
  have built := length_foldl_insert_le entries []
  rwa [List.length_nil, Nat.zero_add] at built

section Order

variable [Std.Asymm fun a b : κ => a < b]

/-- A key above every key of the map is new and goes at the end. -/
theorem insert_of_lt {k : κ} (v : ν) :
    ∀ {m : List (κ × ν)}, (∀ entry ∈ m, entry.1 < k) → insert k v m = m ++ [(k, v)]
  | [], _ => rfl
  | (k', v') :: rest, below => by
    have above : k' < k := below (k', v') List.mem_cons_self
    have differ : k ≠ k' := fun same => Std.Asymm.asymm k' k above (same ▸ above)
    have notBelow : ¬k < k' := Std.Asymm.asymm k' k above
    rw [insert, if_neg differ, if_neg notBelow,
      insert_of_lt v fun entry mem => below entry (List.mem_cons_of_mem _ mem)]
    rfl

/-- Inserting the entries of a map in order after a map whose keys are all below theirs
appends them. -/
theorem foldl_insert_of_increasing :
    ∀ {entries m : List (κ × ν)}, Increasing entries →
      (∀ a ∈ m, ∀ b ∈ entries, a.1 < b.1) →
      entries.foldl (fun m e => insert e.1 e.2 m) m = m ++ entries
  | [], m, _, _ => (List.append_nil m).symm
  | e :: entries, m, increasing, below => by
    rw [Increasing, List.pairwise_cons] at increasing
    have appended : insert e.1 e.2 m = m ++ [e] :=
      insert_of_lt e.2 fun a mem => below a mem e List.mem_cons_self
    -- the entry inserted is below the entries still to come, as the map it joins is
    have stillBelow : ∀ a ∈ m ++ [e], ∀ b ∈ entries, a.1 < b.1 := by
      intro a mem b later
      rcases List.mem_append.mp mem with old | new
      · exact below a old b (List.mem_cons_of_mem e later)
      · exact (List.mem_singleton.mp new) ▸ increasing.1 b later
    rw [List.foldl_cons, appended, foldl_insert_of_increasing increasing.2 stillBelow,
      List.append_assoc, List.singleton_append]

/-- A map rebuilt by inserting its entries in order is the map. -/
theorem ofList_of_increasing {m : List (κ × ν)} (increasing : Increasing m) : ofList m = m :=
  foldl_insert_of_increasing increasing (fun _ mem => absurd mem List.not_mem_nil)

end Order

section Total

variable [Std.Trichotomous fun a b : κ => a < b]
  [Trans (fun a b : κ => a < b) (fun a b : κ => a < b) (fun a b : κ => a < b)]

theorem increasing_insert (k : κ) (v : ν) :
    ∀ {m : List (κ × ν)}, Increasing m → Increasing (insert k v m)
  | [], _ => List.pairwise_singleton _ _
  | (k', v') :: rest, increasing => by
    rw [Increasing, List.pairwise_cons] at increasing
    rw [insert]
    by_cases same : k = k'
    · rw [if_pos same]
      exact List.pairwise_cons.mpr increasing
    by_cases below : k < k'
    · -- the new key goes first: it is below `k'`, and so below every key after `k'`
      rw [if_neg same, if_pos below]
      refine List.pairwise_cons.mpr ⟨fun b mem => ?_, List.pairwise_cons.mpr increasing⟩
      rcases List.mem_cons.mp mem with first | later
      · exact first ▸ below
      · exact Trans.trans below (increasing.1 b later)
    -- the new key goes after `k'`, which is below it
    rw [if_neg same, if_neg below]
    have above : k' < k :=
      Classical.byContradiction fun notAbove =>
        same (Std.Trichotomous.trichotomous k k' below notAbove)
    refine List.pairwise_cons.mpr ⟨fun b mem => ?_, increasing_insert k v increasing.2⟩
    rcases mem_insert mem with new | old
    · exact new ▸ above
    · exact increasing.1 b old

theorem increasing_foldl_insert :
    ∀ {entries m : List (κ × ν)}, Increasing m →
      Increasing (entries.foldl (fun m e => insert e.1 e.2 m) m)
  | [], _, increasing => increasing
  | e :: _, _, increasing => by
    rw [List.foldl_cons]
    exact increasing_foldl_insert (increasing_insert e.1 e.2 increasing)

/-- Whatever is inserted, the result is a map. -/
theorem increasing_ofList (entries : List (κ × ν)) : Increasing (ofList entries) :=
  increasing_foldl_insert List.Pairwise.nil

end Total

end OrderedMap

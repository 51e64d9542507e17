import Mathlib.Data.List.Perm.Basic

/-!
# Aggregates over lists

A loop that keeps one running entry per key and folds each new element into its key's entry
computes, at the end, an aggregate of each key's elements: a sum, a maximum, a minimum. This
module has the facts about those aggregates and about the entry list that such proofs use.

* `Perm.max?_eq`, `Perm.min?_eq`: the maximum and the minimum do not depend on the order.
* `max?_concat`, `min?_concat`: appending an element folds it into the maximum and minimum.
* `modify_map_eq_map`: updating one entry of a list of per-key values gives the list of the
  updated values when the update is right at that entry and nothing changes at the others.
* `findIdx?_beq_eq_some_iff`: in a list without duplicates, the first position of a key is
  its only position.
-/

namespace List

variable {α : Type*}

section Order

variable [LE α] [Std.IsLinearOrder α]

theorem Perm.max?_eq [Max α] [Std.LawfulOrderMax α] {l₁ l₂ : List α} (p : l₁.Perm l₂) :
    l₁.max? = l₂.max? := by
  cases h : l₂.max? with
  | none =>
    rw [max?_eq_none_iff] at h ⊢
    subst h
    exact p.eq_nil
  | some m =>
    rw [max?_eq_some_iff] at h ⊢
    exact ⟨p.mem_iff.mpr h.1, fun b hb => h.2 b (p.mem_iff.mp hb)⟩

theorem Perm.min?_eq [Min α] [Std.LawfulOrderMin α] {l₁ l₂ : List α} (p : l₁.Perm l₂) :
    l₁.min? = l₂.min? := by
  cases h : l₂.min? with
  | none =>
    rw [min?_eq_none_iff] at h ⊢
    subst h
    exact p.eq_nil
  | some m =>
    rw [min?_eq_some_iff] at h ⊢
    exact ⟨p.mem_iff.mpr h.1, fun b hb => h.2 b (p.mem_iff.mp hb)⟩

end Order

theorem max?_concat [Max α] {l : List α} {m : α} (h : l.max? = some m) (x : α) :
    (l ++ [x]).max? = some (max m x) := by
  cases l with
  | nil => cases h
  | cons a l =>
    rw [max?_cons'] at h
    rw [cons_append, max?_cons', foldl_append, Option.some.inj h]
    rfl

theorem min?_concat [Min α] {l : List α} {m : α} (h : l.min? = some m) (x : α) :
    (l ++ [x]).min? = some (min m x) := by
  cases l with
  | nil => cases h
  | cons a l =>
    rw [min?_cons'] at h
    rw [cons_append, min?_cons', foldl_append, Option.some.inj h]
    rfl

/-- Updating entry `k` of the list of values `f a` gives the list of values `g a` when the update
turns `f` into `g` at `k` and `f` and `g` agree elsewhere. -/
theorem modify_map_eq_map {β : Type*} {f g : α → β} {h : β → β} {l : List α} {k : Nat}
    (at_k : ∀ hk : k < l.length, h (f l[k]) = g l[k])
    (off_k : ∀ j (hj : j < l.length), j ≠ k → f l[j] = g l[j]) :
    (l.map f).modify k h = l.map g := by
  apply ext_getElem (by simp)
  intro j hj hj'
  rw [length_modify, length_map] at hj
  rw [getElem_modify, getElem_map, getElem_map]
  by_cases same : k = j
  · subst same
    rw [if_pos rfl]
    exact at_k hj
  · rw [if_neg same]
    exact off_k j hj (Ne.symm same)

theorem findIdx?_beq_eq_some_iff [BEq α] [LawfulBEq α] {l : List α} (nodup : l.Nodup) (a : α)
    (k : Nat) : l.findIdx? (· == a) = some k ↔ l[k]? = some a := by
  rw [findIdx?_eq_some_iff_getElem, getElem?_eq_some_iff]
  constructor
  · rintro ⟨hk, found, -⟩
    exact ⟨hk, beq_iff_eq.mp found⟩
  · rintro ⟨hk, found⟩
    refine ⟨hk, beq_iff_eq.mpr found, fun j hj same => ?_⟩
    -- an earlier position with the same key would be a duplicate
    have distinct := pairwise_iff_getElem.mp nodup j k (Nat.lt_trans hj hk) hk hj
    exact distinct ((beq_iff_eq.mp same).trans found.symm)

end List

import Mathlib.Data.List.Basic
import Mathlib.Data.List.GetD

/-!
# Strings cut into blocks

A block codec walks a string in blocks of a fixed size `n`, block `i` starting at `i * n`, with a
shorter block after the last full one. This module peels the first block off such a walk, so that
a codec's round trip goes by induction on the number of full blocks.

* `block_zero`, `block_succ`: the first block is the first `n` elements, and block `i + 1` is block
  `i` of the string after them.
* `map_range_block_succ`: the blocks of a walk over `k + 1` blocks are its first block, then the
  `k` blocks of the rest.
* `map_range_block_flatten`: a string made of blocks of size `n` is cut into those blocks, and
  `flatMap_range_block_append_drop` is the other way round: the blocks of a string and what
  follows them make the string.
* `getD_flatMap_range`: entry `t` of block `p` of blocks of `w` entries laid end to end is entry
  `w * p + t`.
* `mapM_map_eq_some`, `map_of_mapM_eq_some`: a block-wise decoding inverts a block-wise encoding,
  and what it accepts is an encoding, when each block does and is.
-/

namespace Blocks

variable {α β : Type}

/-- Block `i` of size `n`: the `n` elements from `i * n` on. -/
def block (n i : Nat) (l : List α) : List α := (l.drop (i * n)).take n

theorem block_zero (n : Nat) (l : List α) : block n 0 l = l.take n := by
  rw [block, Nat.zero_mul, List.drop_zero]

theorem block_succ (n i : Nat) (l : List α) : block n (i + 1) l = block n i (l.drop n) := by
  rw [block, block, List.drop_drop, Nat.succ_mul, Nat.add_comm]

theorem map_range_block_succ (n k : Nat) (l : List α) :
    (List.range (k + 1)).map (fun i => block n i l) =
      l.take n :: (List.range k).map fun i => block n i (l.drop n) := by
  rw [List.range_succ_eq_map, List.map_cons, List.map_map, block_zero]
  simp only [Function.comp_def, Nat.succ_eq_add_one, block_succ]

/-- A block that ends within the string is full. -/
theorem length_block {n i : Nat} {l : List α} (inside : (i + 1) * n ≤ l.length) :
    (block n i l).length = n := by
  rw [block, List.length_take, List.length_drop]
  rw [Nat.succ_mul] at inside
  omega

theorem length_flatten_of_length {n : Nat} :
    ∀ {xs : List (List α)}, (∀ x ∈ xs, x.length = n) → xs.flatten.length = xs.length * n
  | [], _ => by rw [List.flatten_nil, List.length_nil, List.length_nil, Nat.zero_mul]
  | x :: xs, sized => by
    rw [List.flatten_cons, List.length_append, sized x List.mem_cons_self,
      length_flatten_of_length fun y mem => sized y (List.mem_cons_of_mem x mem), List.length_cons,
      Nat.succ_mul, Nat.add_comm]

/-- A string made of blocks of size `n`, then anything shorter or longer, is cut into those
blocks. -/
theorem map_range_block_flatten {n : Nat} (rest : List α) :
    ∀ {xs : List (List α)}, (∀ x ∈ xs, x.length = n) →
      (List.range xs.length).map (fun i => block n i (xs.flatten ++ rest)) = xs
  | [], _ => rfl
  | x :: xs, sized => by
    have first := sized x List.mem_cons_self
    have others : ∀ y ∈ xs, y.length = n := fun y mem => sized y (List.mem_cons_of_mem x mem)
    rw [List.length_cons, map_range_block_succ, List.flatten_cons, List.append_assoc,
      List.take_left' first, List.drop_left' first, map_range_block_flatten rest others]

/-- The blocks of a string, then what follows them, make the string. -/
theorem flatMap_range_block_append_drop (n : Nat) :
    ∀ (k : Nat) (l : List α), (List.range k).flatMap (fun i => block n i l) ++ l.drop (k * n) = l
  | 0, l => by simp
  | k + 1, l => by
    rw [List.range_succ_eq_map, List.flatMap_cons, List.flatMap_map, block_zero, List.append_assoc]
    simp only [Nat.succ_eq_add_one, block_succ]
    rw [Nat.succ_mul, Nat.add_comm, ← List.drop_drop, flatMap_range_block_append_drop n k (l.drop n),
      List.take_append_drop]

/-- Blocks of `w` entries laid end to end: entry `t` of block `p` is entry `w * p + t`. -/
theorem length_flatMap_range {f : Nat → List α} {w : Nat} (sized : ∀ p, (f p).length = w) :
    ∀ k, ((List.range k).flatMap f).length = w * k
  | 0 => by rw [List.range_zero, List.flatMap_nil, List.length_nil, Nat.mul_zero]
  | k + 1 => by
    rw [List.range_succ, List.flatMap_append, List.length_append, length_flatMap_range sized k,
      List.flatMap_singleton, sized, Nat.mul_succ]

theorem getD_flatMap_range {f : Nat → List α} {w : Nat} (sized : ∀ p, (f p).length = w) (d : α)
    {t : Nat} (inside : t < w) : ∀ {k p : Nat}, p < k →
      ((List.range k).flatMap f).getD (w * p + t) d = (f p).getD t d
  | 0, _, outside => absurd outside (Nat.not_lt_zero _)
  | k + 1, p, below => by
    have before := length_flatMap_range sized k
    rw [List.range_succ, List.flatMap_append, List.flatMap_singleton]
    by_cases earlier : p < k
    · -- the entry lies in a block before the last
      have within : w * p + t < ((List.range k).flatMap f).length := by
        rw [before]
        calc w * p + t < w * p + w := by omega
          _ = w * (p + 1) := by rw [Nat.mul_succ]
          _ ≤ w * k := Nat.mul_le_mul_left w earlier
      rw [List.getD_append _ _ _ _ within, getD_flatMap_range sized d inside earlier]
    · have last : p = k := by omega
      rw [last, List.getD_append_right _ _ _ _ (by rw [before]; omega), before,
        Nat.add_sub_cancel_left]

/-! ## Decoding block by block -/

/-- Decoding encoded blocks gives the blocks back when each block does. -/
theorem mapM_map_eq_some {f : α → Option β} {g : β → α} :
    ∀ {l : List β}, (∀ b ∈ l, f (g b) = some b) → (l.map g).mapM f = some l
  | [], _ => rfl
  | b :: l, inverse => by
    rw [List.map_cons, List.mapM_cons, inverse b List.mem_cons_self,
      mapM_map_eq_some fun c mem => inverse c (List.mem_cons_of_mem b mem)]
    rfl

/-- What a block-wise decoding accepts encodes back to its input when each block does. -/
theorem map_of_mapM_eq_some {f : α → Option β} {g : β → α} :
    ∀ {l : List α} {l' : List β}, (∀ a ∈ l, ∀ b, f a = some b → g b = a) → l.mapM f = some l' →
      l'.map g = l
  | [], l', _, walk => by
    rw [List.mapM_nil] at walk
    rw [← Option.some.inj walk]
    rfl
  | a :: l, l', inverse, walk => by
    rw [List.mapM_cons] at walk
    cases first : f a with
    | none => rw [first] at walk; cases walk
    | some b =>
      cases rest : l.mapM f with
      | none => rw [first, rest] at walk; cases walk
      | some bs =>
        rw [first, rest] at walk
        rw [← Option.some.inj walk, List.map_cons, inverse a List.mem_cons_self b first,
          map_of_mapM_eq_some (fun c mem => inverse c (List.mem_cons_of_mem a mem)) rest]

end Blocks

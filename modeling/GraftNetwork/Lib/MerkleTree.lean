import Mathlib

/-!
# Binary hash trees

A hash tree combines digests two at a time with a node function, level by level. This module
builds such trees over any type of digests: `Tree.root` is the hash of a tree, `Tree.leaves` its
leaves from left to right and `Tree.depths` their depths. `join` puts adjacent trees under one
node and `pairs` combines adjacent digests, so a computation that goes level by level over
digests is the root of the tree that `join` builds.

* `map_root_join`, `flatMap_leaves_join`, `flatMap_depths_join`, `length_join`: one level up.
* `joinTimes`: `k` levels up. `length_joinTimes`: `2 ^ k` trees become one;
  `map_root_joinTimes`, `flatMap_leaves_joinTimes`, `flatMap_depths_joinTimes`: its root is the
  `k`-fold pairing of their roots, its leaves are theirs in order, and each leaf is `k` deeper.
* `take_set_succ`, `pairs_cons_cons`: how a loop that writes one pair at a time into a list
  builds `pairs`.
-/

namespace MerkleTree

/-- A binary tree with a digest at each leaf. -/
inductive Tree (D : Type) where
  | leaf (d : D)
  | node (left right : Tree D)

variable {D : Type}

namespace Tree

/-- The hash of a tree under the node function `node`. -/
def root (node : D → D → D) : Tree D → D
  | leaf d => d
  | Tree.node l r => node (l.root node) (r.root node)

/-- The leaves from left to right. -/
def leaves : Tree D → List D
  | leaf d => [d]
  | node l r => l.leaves ++ r.leaves

/-- The depth of each leaf, from left to right. -/
def depths : Tree D → List Nat
  | leaf _ => [0]
  | node l r => (l.depths ++ r.depths).map (· + 1)

end Tree

/-- Adjacent trees under one node; a last tree without a partner stays as it is. -/
def join : List (Tree D) → List (Tree D)
  | l :: r :: rest => .node l r :: join rest
  | rest => rest

variable (node : D → D → D)

/-- Adjacent digests combined; a last digest without a partner stays as it is. -/
def pairs : List D → List D
  | a :: b :: rest => node a b :: pairs rest
  | rest => rest

@[simp] theorem pairs_nil : pairs node [] = [] := rfl

@[simp] theorem pairs_cons_cons (a b : D) (rest : List D) :
    pairs node (a :: b :: rest) = node a b :: pairs node rest := rfl

/-! ## Leaves -/

@[simp] theorem map_root_map_leaf (l : List D) : (l.map Tree.leaf).map (Tree.root node) = l := by
  simp [Function.comp_def, Tree.root]

@[simp] theorem flatMap_leaves_map_leaf (l : List D) :
    (l.map Tree.leaf).flatMap Tree.leaves = l := by
  simp [List.flatMap_map, Tree.leaves]

@[simp] theorem flatMap_depths_map_leaf (l : List D) :
    (l.map Tree.leaf).flatMap Tree.depths = List.replicate l.length 0 := by
  induction l with
  | nil => rfl
  | cons d rest ih => simp [Tree.depths, ih, List.replicate_succ]

/-! ## One level up -/

theorem map_root_join : ∀ ts : List (Tree D),
    (join ts).map (Tree.root node) = pairs node (ts.map (Tree.root node))
  | l :: r :: rest => by
    rw [join, List.map_cons, map_root_join rest]
    rfl
  | [] | [_] => rfl

theorem flatMap_leaves_join : ∀ ts : List (Tree D),
    (join ts).flatMap Tree.leaves = ts.flatMap Tree.leaves
  | l :: r :: rest => by
    rw [join, List.flatMap_cons, flatMap_leaves_join rest]
    simp [Tree.leaves]
  | [] | [_] => rfl

/-- Joining an even number of trees puts each leaf one level deeper. -/
theorem flatMap_depths_join : ∀ {ts : List (Tree D)}, ts.length % 2 = 0 →
    (join ts).flatMap Tree.depths = (ts.flatMap Tree.depths).map (· + 1)
  | l :: r :: rest, even => by
    have restEven : rest.length % 2 = 0 := by simp only [List.length_cons] at even; omega
    rw [join, List.flatMap_cons, flatMap_depths_join restEven]
    simp [Tree.depths]
  | [], _ => rfl
  | [_], odd => by simp at odd

theorem length_join : ∀ ts : List (Tree D), (join ts).length = (ts.length + 1) / 2
  | l :: r :: rest => by
    rw [join, List.length_cons, length_join rest]
    simp only [List.length_cons]
    omega
  | [] | [_] => by simp [join]

theorem length_pairs : ∀ l : List D, (pairs node l).length = (l.length + 1) / 2
  | a :: b :: rest => by
    rw [pairs_cons_cons, List.length_cons, length_pairs rest]
    simp only [List.length_cons]
    omega
  | [] | [_] => by simp [pairs]

/-- `k` levels up. -/
def joinTimes : Nat → List (Tree D) → List (Tree D)
  | 0, ts => ts
  | k + 1, ts => joinTimes k (join ts)

theorem map_root_joinTimes : ∀ (k : Nat) (ts : List (Tree D)),
    (joinTimes k ts).map (Tree.root node) = (pairs node)^[k] (ts.map (Tree.root node))
  | 0, _ => rfl
  | k + 1, ts => by
    rw [joinTimes, map_root_joinTimes k, map_root_join, Function.iterate_succ_apply]

theorem flatMap_leaves_joinTimes : ∀ (k : Nat) (ts : List (Tree D)),
    (joinTimes k ts).flatMap Tree.leaves = ts.flatMap Tree.leaves
  | 0, _ => rfl
  | k + 1, ts => by rw [joinTimes, flatMap_leaves_joinTimes k, flatMap_leaves_join]

/-- `2 ^ k * c` trees joined `k` times are `c` trees. -/
theorem length_joinTimes : ∀ (k : Nat) {c : Nat} {ts : List (Tree D)}, ts.length = 2 ^ k * c →
    (joinTimes k ts).length = c
  | 0, _, _, sized => by simpa [joinTimes] using sized
  | k + 1, c, ts, sized => by
    have halved : (join ts).length = 2 ^ k * c := by
      rw [length_join, sized, Nat.pow_succ, Nat.mul_right_comm]
      omega
    rw [joinTimes, length_joinTimes k halved]

/-- Each leaf of `2 ^ k * c` trees joined `k` times is `k` levels deeper. -/
theorem flatMap_depths_joinTimes : ∀ (k : Nat) {c : Nat} {ts : List (Tree D)},
    ts.length = 2 ^ k * c →
    (joinTimes k ts).flatMap Tree.depths = (ts.flatMap Tree.depths).map (· + k)
  | 0, _, ts, _ => by simp [joinTimes]
  | k + 1, c, ts, sized => by
    have doubled : ts.length = 2 * (2 ^ k * c) := by rw [sized, Nat.pow_succ]; ring
    have halved : (join ts).length = 2 ^ k * c := by rw [length_join, doubled]; omega
    rw [joinTimes, flatMap_depths_joinTimes k halved,
      flatMap_depths_join (by rw [doubled]; omega), List.map_map]
    congr 1
    funext d
    simp only [Function.comp]
    omega

/-! ## Shapes and collisions -/

/-- A tree with its digests forgotten. -/
def Tree.shape : Tree D → Tree Unit
  | .leaf _ => .leaf ()
  | .node l r => .node l.shape r.shape

@[simp] theorem map_shape_map_leaf (l : List D) :
    (l.map Tree.leaf).map Tree.shape = List.replicate l.length (Tree.leaf ()) := by
  induction l with
  | nil => rfl
  | cons d rest ih => simp [Tree.shape, ih, List.replicate_succ]

theorem map_shape_join : ∀ ts : List (Tree D),
    (join ts).map Tree.shape = join (ts.map Tree.shape)
  | l :: r :: rest => by
    rw [join, List.map_cons, map_shape_join rest]
    rfl
  | [] | [_] => by simp [join]

theorem map_shape_joinTimes : ∀ (k : Nat) (ts : List (Tree D)),
    (joinTimes k ts).map Tree.shape = joinTimes k (ts.map Tree.shape)
  | 0, _ => rfl
  | k + 1, ts => by rw [joinTimes, joinTimes, map_shape_joinTimes k, map_shape_join]

/-- Two different pairs of digests that the node function hashes alike. -/
def Collision : Prop := ∃ a b a' b', (a, b) ≠ (a', b') ∧ node a b = node a' b'

/-- Two trees of one shape with one root have the same leaves, or their roots exhibit a
collision of the node function. -/
theorem leaves_eq_of_root_eq : ∀ {t t' : Tree D}, t.shape = t'.shape →
    t.root node = t'.root node → t.leaves = t'.leaves ∨ Collision node
  | .leaf d, .leaf d', _, same => .inl (by simp_all [Tree.root, Tree.leaves])
  | .leaf _, .node _ _, shaped, _ => by simp [Tree.shape] at shaped
  | .node _ _, .leaf _, shaped, _ => by simp [Tree.shape] at shaped
  | .node l r, .node l' r', shaped, same => by
    simp only [Tree.shape, Tree.node.injEq] at shaped
    simp only [Tree.root] at same
    by_cases children : (l.root node, r.root node) = (l'.root node, r'.root node)
    · -- the children have one root each: the leaves agree below both, or a child collides
      obtain ⟨left, right⟩ := Prod.mk.inj children
      rcases leaves_eq_of_root_eq shaped.1 left with leavesLeft | collides
      · rcases leaves_eq_of_root_eq shaped.2 right with leavesRight | collides
        · exact .inl (by simp [Tree.leaves, leavesLeft, leavesRight])
        · exact .inr collides
      · exact .inr collides
    · exact .inr ⟨_, _, _, _, children, same⟩

/-! ## Writing pairs into a list one at a time -/

/-- Writing the entry after a prefix extends the prefix. -/
theorem take_set_succ (x : D) : ∀ {l : List D} {j : Nat}, j < l.length →
    (l.set j x).take (j + 1) = l.take j ++ [x]
  | [], _, inside => by simp at inside
  | _ :: _, 0, _ => by simp
  | a :: rest, j + 1, inside => by
    simp only [List.length_cons] at inside
    simp [take_set_succ x (by omega : j < rest.length)]

/-- Writing an entry before a suffix leaves the suffix. -/
theorem drop_set_of_lt {l : List D} {j n : Nat} (before : j < n) (x : D) :
    (l.set j x).drop n = l.drop n := by
  apply List.ext_getElem (by simp)
  intro t inSet _
  simp only [List.getElem_drop]
  rw [List.getElem_set_ne (by omega)]

/-- Writing entry `j` between a prefix up to `j` and a suffix from `n` moves it into the middle. -/
theorem set_take_append_drop {l : List D} {j n : Nat} (before : j < n) (long : n ≤ l.length)
    (x : D) (mid : List D) :
    (l.set j x).take (j + 1) ++ mid ++ (l.set j x).drop n =
      l.take j ++ (x :: mid) ++ l.drop n := by
  rw [take_set_succ x (by omega), drop_set_of_lt before]
  simp

/-- The pairs of `2 * (n + 1)` entries from `i`: the pair at `i`, then those from `i + 2`. -/
theorem pairs_take_drop {l : List D} {i n : Nat} (long : i + 2 * (n + 1) ≤ l.length) :
    pairs node ((l.drop i).take (2 * (n + 1))) =
      node l[i] l[i + 1] :: pairs node ((l.drop (i + 2)).take (2 * n)) := by
  have split : (l.drop i).take (2 * (n + 1)) =
      l[i] :: l[i + 1] :: (l.drop (i + 2)).take (2 * n) := by
    rw [List.drop_eq_getElem_cons (by omega), List.drop_eq_getElem_cons (by omega),
      show 2 * (n + 1) = 2 * n + 1 + 1 by ring, List.take_succ_cons, List.take_succ_cons]
  rw [split, pairs_cons_cons]

end MerkleTree

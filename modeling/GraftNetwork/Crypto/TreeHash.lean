import Mathlib
import GraftNetwork.Lib.MerkleTree
import GraftNetwork.Serialization.BinaryArchive
import GraftNetwork.Database.Lmdb
import GraftNetwork.Lib.Radix

/-!
# The transaction tree hash

A block commits to its transactions through `tree_hash` (`src/crypto/tree-hash.c`), over the
hash of the miner transaction and then the hashes of the others (`get_tx_tree_hash`,
`src/cryptonote_basic/cryptonote_format_utils.cpp`). For three hashes or more it rounds the count
down to a power of two `cnt` (`tree_hash_cnt`), hashes the last `2 * (count - cnt)` hashes in
pairs into an array of `cnt` entries after the first `2 * cnt - count` copied ones, and then
halves that array in place until two entries are left.

* `treeHashCnt_eq`: `tree_hash_cnt` is the largest power of two below `count`, which is
  `1 << floor(log2(count - 1))`.
* `leafLoop_eq`, `halveLoop_eq`: the two for loops write the pairs of what they read, and the
  in-place loop never reads an entry it has already written.
* `levelLoop_take`: the while loop leaves the last level of the pairing in its first two
  entries.
* `tree_hash_is_tree_root`: tree_hash of `n` hashes is the root of the binary tree whose leaves
  are the hashes in order, the first `2 ^ (k + 1) - n` of them at depth `k` and the others at
  depth `k + 1`, for `2 ^ k ≤ n < 2 ^ (k + 1)`.
* `eq_of_treeHash_eq`: two lists of one length with one tree hash are equal, or `cn_fast_hash`
  collides; `tree_hash_of_pairs`: lists of different lengths can share a tree hash without a
  collision, so `block_hashing_blob_commits_to_transactions`, the hashing blob of a block, which
  adds the number of transactions, fixes them.

`cn_fast_hash` is a parameter. The asserts of the source are failures (`none`); the
theorems show that none of them fails for the counts that the source allows. The model reads an
entry out of range as zeros; the theorems show that no read is out of range.
-/

namespace GraftNetwork.Crypto

open GraftNetwork.Serialization (Blob zeroBlob writeVarintOf)
open MerkleTree

/-- crypto::hash. -/
abbrev Hash := Blob 32

variable (cnFastHash : List UInt8 → Hash)

/-- `cn_fast_hash(h, 64, out)` over two hashes side by side. -/
def hashPair (a b : Hash) : Hash := cnFastHash (a.bytes ++ b.bytes)

/-- A stand-in for `cn_fast_hash` in the examples, one that tells their inputs apart: the bytes
read as a number in bijective base 257, written as 32 bytes modulo `2 ^ 256`. -/
def sampleHash (bytes : List UInt8) : Hash :=
  ⟨(Radix.fixedDigits 256 32 (bytes.foldl (fun acc b => acc * 257 + b.toNat + 1) 0)).map
    UInt8.ofNat, by rw [List.length_map, Radix.length_fixedDigits]⟩

/-- The while loop of tree_hash_cnt: `pow` doubles until it is at least `count`. -/
def treeHashCntLoop (count pow : Nat) (positive : 0 < pow) : Nat :=
  if pow < count then treeHashCntLoop count (pow <<< 1) (by simp [Nat.shiftLeft_eq]; omega)
  else pow
termination_by count - pow
decreasing_by simp [Nat.shiftLeft_eq]; omega

/-- tree_hash_cnt(count), with its two asserts. -/
def treeHashCnt (count : Nat) : Option Nat :=
  if 3 ≤ count ∧ count ≤ 0x10000000 then some (treeHashCntLoop count 2 (by decide) >>> 1)
  else none

/-- The first for loop of tree_hash: `ints[j]` becomes the hash of `hashes[i]` and
`hashes[i + 1]`, for `j` from the first entry after the copied ones up to `cnt`. It returns
`ints` and the final `i`, which the source asserts to be `count`. -/
def leafLoop (hashes : List Hash) (cnt i j : Nat) (ints : List Hash) : List Hash × Nat :=
  if j < cnt then
    leafLoop hashes cnt (i + 2) (j + 1)
      (ints.set j (hashPair cnFastHash (hashes.getD i (zeroBlob 32))
        (hashes.getD (i + 1) (zeroBlob 32))))
  else (ints, i)
termination_by cnt - j

/-- The for loop inside the while loop of tree_hash: `ints[j]` becomes the hash of `ints[i]`
and `ints[i + 1]`, in the same array. -/
def halveLoop (cnt i j : Nat) (ints : List Hash) : List Hash :=
  if j < cnt then
    halveLoop cnt (i + 2) (j + 1)
      (ints.set j (hashPair cnFastHash (ints.getD i (zeroBlob 32))
        (ints.getD (i + 1) (zeroBlob 32))))
  else ints
termination_by cnt - j

/-- The while loop of tree_hash: while more than two entries are left, `cnt` halves and the
first `cnt` entries become the pairs of the first `2 * cnt`. -/
def levelLoop (cnt : Nat) (ints : List Hash) : List Hash :=
  if 2 < cnt then levelLoop (cnt >>> 1) (halveLoop cnFastHash (cnt >>> 1) 0 0 ints)
  else ints
termination_by cnt
decreasing_by simp [Nat.shiftRight_eq_div_pow]; omega

/-- The branch of tree_hash for three hashes or more. `ints` is zeroed and its first
`2 * cnt - count` entries are the first hashes; the last two entries left are hashed into the
root. -/
def treeHashMany (hashes : List Hash) : Option Hash := do
  let count := hashes.length
  let cnt ← treeHashCnt count
  let ints := hashes.take (2 * cnt - count) ++
    List.replicate (cnt - (2 * cnt - count)) (zeroBlob 32)
  let (ints, i) := leafLoop cnFastHash hashes cnt (2 * cnt - count) (2 * cnt - count) ints
  if i ≠ count then none
  else
    let ints := levelLoop cnFastHash cnt ints
    some (hashPair cnFastHash (ints.getD 0 (zeroBlob 32)) (ints.getD 1 (zeroBlob 32)))

/-- tree_hash(hashes, count, root_hash): `assert(count > 0)`, one hash is the root, two are
hashed together. -/
def treeHash (hashes : List Hash) : Option Hash :=
  match hashes with
  | [] => none
  | [h] => some h
  | [a, b] => some (cnFastHash (a.bytes ++ b.bytes))
  | _ => treeHashMany cnFastHash hashes

/-- get_tx_tree_hash(tx_hashes). -/
def getTxTreeHash (txHashes : List Hash) : Option Hash := treeHash cnFastHash txHashes

/-- get_tx_tree_hash(b): the tree hash of the miner transaction's hash and then the block's
transaction hashes. -/
def getTxTreeHashOfBlock {K : Type} (b : Database.Block Hash K) : Option Hash :=
  getTxTreeHash cnFastHash (b.minerTx.hash :: b.txHashes)

/-- get_block_hashing_blob(b): the blob of the block header, the tree hash of the block's
transactions and their number with the miner transaction as a varint. The header's blob is a
parameter. -/
def getBlockHashingBlob {K : Type} (storeBlockHeader : Database.Block Hash K → List UInt8)
    (b : Database.Block Hash K) : Option (List UInt8) := do
  let treeRootHash ← getTxTreeHashOfBlock cnFastHash b
  pure (storeBlockHeader b ++ treeRootHash.bytes ++ writeVarintOf (b.txHashes.length + 1))

/-! ## tree_hash_cnt -/

/-- The doubling loop, started at a power of two whose half is below `count`, ends at the
least power of two that is at least `count`. -/
theorem treeHashCntLoop_spec (count : Nat) :
    ∀ (pow : Nat) (positive : 0 < pow), (∃ a, pow = 2 ^ a) → pow / 2 < count →
      ∃ b, treeHashCntLoop count pow positive = 2 ^ b ∧ 2 ^ b / 2 < count ∧
        count ≤ 2 ^ b := by
  intro pow positive
  induction pow, positive using treeHashCntLoop.induct count with
  | case1 pow positive below ih =>
    rintro ⟨a, rfl⟩ _
    rw [treeHashCntLoop, if_pos below]
    refine ih ⟨a + 1, by simp [Nat.shiftLeft_eq, Nat.pow_succ]⟩ ?_
    simp [Nat.shiftLeft_eq]
    exact below
  | case2 pow positive reached =>
    rintro ⟨a, rfl⟩ half
    rw [treeHashCntLoop, if_neg reached]
    exact ⟨a, rfl, half, by omega⟩

/-- tree_hash_cnt is the largest power of two below `count`: `1 << floor(log2(count - 1))`. For
a power of two that is half of it, not `1 << floor(log2(count))`. -/
theorem treeHashCnt_eq {count : Nat} (small : 3 ≤ count) (bounded : count ≤ 0x10000000) :
    treeHashCnt count = some (2 ^ Nat.log 2 (count - 1)) := by
  obtain ⟨b, loop, half, covers⟩ :=
    treeHashCntLoop_spec count 2 (by decide) ⟨1, rfl⟩ (by omega)
  have atLeastTwo : 2 ≤ b := by
    by_contra few
    interval_cases b <;> omega
  obtain ⟨m, rfl⟩ : ∃ m, b = m + 1 := ⟨b - 1, by omega⟩
  have halfPow : 2 ^ (m + 1) / 2 = 2 ^ m := by rw [Nat.pow_succ]; simp
  have log : Nat.log 2 (count - 1) = m := by
    rw [halfPow] at half
    rw [Nat.pow_succ] at covers
    apply Nat.log_eq_of_pow_le_of_lt_pow
    · omega
    · rw [Nat.pow_succ]; omega
  rw [treeHashCnt, if_pos ⟨small, bounded⟩, loop, log, Nat.shiftRight_eq_div_pow, Nat.pow_one,
    halfPow]

/-- tree_hash_cnt passes its asserts only for counts from 3 to `2 ^ 28`. -/
theorem bounded_of_treeHashCnt {count cnt : Nat} (passed : treeHashCnt count = some cnt) :
    3 ≤ count ∧ count ≤ 0x10000000 := by
  rw [treeHashCnt] at passed
  split at passed
  · assumption
  · contradiction

/-- The branch for three hashes or more returns only for at most `2 ^ 28` hashes. -/
theorem bounded_of_treeHashMany {hashes : List Hash} {root : Hash}
    (hashed : treeHashMany cnFastHash hashes = some root) : hashes.length ≤ 0x10000000 := by
  cases passed : treeHashCnt hashes.length with
  | none => simp [treeHashMany, passed] at hashed
  | some cnt => exact (bounded_of_treeHashCnt passed).2

theorem treeHash_of_three_le {hashes : List Hash} (many : 3 ≤ hashes.length) :
    treeHash cnFastHash hashes = treeHashMany cnFastHash hashes := by
  match hashes, many with
  | _ :: _ :: _ :: _, _ => rfl

/-! ## The loops of tree_hash -/

section Loops

variable {cnFastHash}

/-- The first for loop, from entry `j` on, writes the pairs of the `2 * (cnt - j)` hashes from
`i` into entries `j` up to `cnt`, and ends with `i` past them. -/
theorem leafLoop_eq (hashes : List Hash) (cnt : Nat) :
    ∀ i j (ints : List Hash), j ≤ cnt → cnt ≤ ints.length →
      i + 2 * (cnt - j) ≤ hashes.length →
      leafLoop cnFastHash hashes cnt i j ints =
        (ints.take j ++ pairs (hashPair cnFastHash) ((hashes.drop i).take (2 * (cnt - j))) ++
          ints.drop cnt, i + 2 * (cnt - j)) := by
  intro i j ints
  induction i, j, ints using leafLoop.induct cnFastHash hashes cnt with
  | case1 i j ints inside ih =>
    intro _ long reads
    obtain ⟨n, left⟩ : ∃ n, cnt - j = n + 1 := ⟨cnt - j - 1, by omega⟩
    have next : cnt - (j + 1) = n := by omega
    rw [leafLoop, if_pos inside, ih (by omega) (by simpa using long) (by omega), next, left,
      pairs_take_drop _ (by omega), List.getD_eq_getElem _ _ (by omega),
      List.getD_eq_getElem _ _ (by omega), set_take_append_drop inside long]
    simp only [Prod.mk.injEq, true_and]
    omega
  | case2 i j ints done =>
    intro below _ _
    obtain rfl : j = cnt := by omega
    rw [leafLoop, if_neg done]
    simp

/-- The for loop inside the while loop, from entry `j` on, writes the pairs of the entries from
`2 * j` into entries `j` up to `cnt`. Each entry it reads lies at or after `2 * j`, where it has
not written yet. -/
theorem halveLoop_eq (cnt : Nat) :
    ∀ i j (ints : List Hash), i = 2 * j → j ≤ cnt → 2 * cnt ≤ ints.length →
      halveLoop cnFastHash cnt i j ints =
        ints.take j ++ pairs (hashPair cnFastHash) ((ints.drop i).take (2 * (cnt - j))) ++
          ints.drop cnt := by
  intro i j ints
  induction i, j, ints using halveLoop.induct cnFastHash cnt with
  | case1 i j ints inside ih =>
    intro reading _ long
    obtain ⟨n, left⟩ : ∃ n, cnt - j = n + 1 := ⟨cnt - j - 1, by omega⟩
    have next : cnt - (j + 1) = n := by omega
    -- the entries from `i + 2` on are still the ones the loop started with
    have unwritten := drop_set_of_lt (l := ints) (show j < i + 2 by omega)
    rw [halveLoop, if_pos inside, ih (by omega) (by omega) (by simpa using long), unwritten, next,
      left, pairs_take_drop _ (by omega), List.getD_eq_getElem _ _ (by omega),
      List.getD_eq_getElem _ _ (by omega), set_take_append_drop inside (by omega)]
  | case2 i j ints done =>
    intro _ below _
    obtain rfl : j = cnt := by omega
    rw [halveLoop, if_neg done]
    simp

/-- Run from `2 ^ (m + 1)` entries, the while loop leaves in its first two entries the first
`2 ^ (m + 1)` entries paired `m` times. -/
theorem levelLoop_take : ∀ (m : Nat) {ints : List Hash}, 2 ^ (m + 1) ≤ ints.length →
    (levelLoop cnFastHash (2 ^ (m + 1)) ints).take 2 =
      (pairs (hashPair cnFastHash))^[m] (ints.take (2 ^ (m + 1)))
  | 0, ints, _ => by
    rw [levelLoop, if_neg (by decide)]
    rfl
  | m + 1, ints, long => by
    have double : 2 ^ (m + 1 + 1) = 2 * 2 ^ (m + 1) := by ring
    have halved : 2 ^ (m + 1 + 1) >>> 1 = 2 ^ (m + 1) := by
      rw [Nat.shiftRight_eq_div_pow, double]
      simp
    rw [double] at long
    have paired : (pairs (hashPair cnFastHash) (ints.take (2 * 2 ^ (m + 1)))).length =
        2 ^ (m + 1) := by
      rw [length_pairs, List.length_take]
      omega
    have level : halveLoop cnFastHash (2 ^ (m + 1)) 0 0 ints = _ :=
      halveLoop_eq (2 ^ (m + 1)) 0 0 ints rfl (Nat.zero_le _) long
    simp only [List.take_zero, List.drop_zero, List.nil_append, Nat.sub_zero] at level
    have kept : 2 ^ (m + 1) ≤ (pairs (hashPair cnFastHash) (ints.take (2 * 2 ^ (m + 1))) ++
        ints.drop (2 ^ (m + 1))).length := by
      rw [List.length_append, paired]
      omega
    have more : 2 < 2 ^ (m + 1 + 1) := by
      have two : 2 ≤ 2 ^ (m + 1) := Nat.le_self_pow (by omega) 2
      omega
    rw [levelLoop, if_pos more, halved, level, levelLoop_take m kept,
      List.take_left' paired, double, Function.iterate_succ_apply]

end Loops

/-! ## The tree of tree_hash -/

/-- The trees under the entries that the first for loop leaves: the first `s` hashes as leaves,
the others joined in pairs. -/
def firstLevel (hashes : List Hash) (s : Nat) : List (MerkleTree.Tree Hash) :=
  (hashes.take s).map .leaf ++ join ((hashes.drop s).map .leaf)

section FirstLevel

variable (hashes : List Hash) (s : Nat)

theorem map_root_firstLevel :
    (firstLevel hashes s).map (MerkleTree.Tree.root (hashPair cnFastHash)) =
      hashes.take s ++ pairs (hashPair cnFastHash) (hashes.drop s) := by
  rw [firstLevel, List.map_append, map_root_join, map_root_map_leaf, map_root_map_leaf]

theorem flatMap_leaves_firstLevel :
    (firstLevel hashes s).flatMap MerkleTree.Tree.leaves = hashes := by
  rw [firstLevel, List.flatMap_append, flatMap_leaves_join, flatMap_leaves_map_leaf,
    flatMap_leaves_map_leaf, List.take_append_drop]

variable {hashes s}

/-- With an even number of hashes after the first `s`, those are one level deeper. -/
theorem flatMap_depths_firstLevel (even : (hashes.length - s) % 2 = 0) :
    (firstLevel hashes s).flatMap MerkleTree.Tree.depths =
      List.replicate (min s hashes.length) 0 ++ List.replicate (hashes.length - s) 1 := by
  rw [firstLevel, List.flatMap_append, flatMap_depths_join (by simpa using even),
    flatMap_depths_map_leaf, flatMap_depths_map_leaf, List.map_replicate]
  simp

theorem length_firstLevel :
    (firstLevel hashes s).length = min s hashes.length + (hashes.length - s + 1) / 2 := by
  simp [firstLevel, length_join]

end FirstLevel

/-- For `n` hashes with `cnt = 2 ^ (m + 1) < n ≤ 2 * cnt`, the first level has `cnt` trees. -/
theorem length_firstLevel_of {hashes : List Hash} {m : Nat} (above : 2 ^ (m + 1) < hashes.length)
    (below : hashes.length ≤ 2 * 2 ^ (m + 1)) :
    (firstLevel hashes (2 * 2 ^ (m + 1) - hashes.length)).length = 2 ^ m * 2 := by
  rw [length_firstLevel, ← Nat.pow_succ]
  omega

/-- Three hashes or more lie above `2 ^ (m + 1)` and at most twice that, for
`m + 1 = log2 (n - 1)`. -/
theorem exists_cnt {n : Nat} (small : 3 ≤ n) :
    ∃ m, 2 ^ (m + 1) < n ∧ n ≤ 2 * 2 ^ (m + 1) := by
  have positive : 0 < Nat.log 2 (n - 1) := Nat.log_pos (by decide) (by omega)
  have low := Nat.pow_log_le_self 2 (show n - 1 ≠ 0 by omega)
  have high := Nat.lt_pow_succ_log_self (by decide : 1 < 2) (n - 1)
  obtain ⟨m, log⟩ : ∃ m, Nat.log 2 (n - 1) = m + 1 :=
    ⟨_, (Nat.sub_add_cancel positive).symm⟩
  rw [log, Nat.pow_succ 2 (m + 1)] at high
  rw [log] at low
  exact ⟨m, by omega, by omega⟩

/-- The leaves of the node over the two trees that the first level joined leaves are the
hashes. -/
theorem leaves_of_joinTimes {hashes : List Hash} {m s : Nat} {l r : MerkleTree.Tree Hash}
    (joined : joinTimes m (firstLevel hashes s) = [l, r]) :
    (MerkleTree.Tree.node l r).leaves = hashes := by
  have leaves := flatMap_leaves_joinTimes m (firstLevel hashes s)
  rw [joined, flatMap_leaves_firstLevel] at leaves
  simpa [MerkleTree.Tree.leaves] using leaves

/-- Under that node the first `2 * cnt - n` hashes lie at depth `m + 1` and the others at
`m + 2`. -/
theorem depths_of_joinTimes {hashes : List Hash} {m : Nat} {l r : MerkleTree.Tree Hash}
    (above : 2 ^ (m + 1) < hashes.length) (below : hashes.length ≤ 2 * 2 ^ (m + 1))
    (joined : joinTimes m (firstLevel hashes (2 * 2 ^ (m + 1) - hashes.length)) = [l, r]) :
    (MerkleTree.Tree.node l r).depths =
      List.replicate (2 * 2 ^ (m + 1) - hashes.length) (m + 1) ++
        List.replicate (hashes.length - (2 * 2 ^ (m + 1) - hashes.length)) (m + 2) := by
  have depths := flatMap_depths_joinTimes m (length_firstLevel_of above below)
  rw [joined, flatMap_depths_firstLevel (by omega)] at depths
  simp only [MerkleTree.Tree.depths, List.flatMap_cons, List.flatMap_nil, List.append_nil]
    at depths ⊢
  rw [depths]
  simp only [List.map_append, List.map_replicate]
  rw [Nat.min_eq_left (by omega), show 0 + m + 1 = m + 1 by omega,
    show 1 + m + 1 = m + 2 by omega]

/-- The first two entries of a list, read with a default. -/
theorem getD_of_take_two {ints : List Hash} {x y : Hash} (front : ints.take 2 = [x, y])
    (d : Hash) : ints.getD 0 d = x ∧ ints.getD 1 d = y := by
  rw [← List.take_append_drop 2 ints, front]
  simp

/-- For `n` hashes with `cnt = 2 ^ (m + 1) < n ≤ 2 * cnt`, the branch for three hashes or more
hashes the two trees that the first level joined `m` times leaves: every assert passes, the
first for loop ends at `i = n`, and no read is out of range. -/
theorem treeHashMany_eq {hashes : List Hash} {m : Nat} (above : 2 ^ (m + 1) < hashes.length)
    (below : hashes.length ≤ 2 * 2 ^ (m + 1)) (bounded : hashes.length ≤ 0x10000000) :
    ∃ l r, joinTimes m (firstLevel hashes (2 * 2 ^ (m + 1) - hashes.length)) = [l, r] ∧
      treeHashMany cnFastHash hashes =
        some ((MerkleTree.Tree.node l r).root (hashPair cnFastHash)) := by
  have two : 2 ≤ 2 ^ (m + 1) := Nat.le_self_pow (by omega) 2
  have log : Nat.log 2 (hashes.length - 1) = m + 1 := by
    apply Nat.log_eq_of_pow_le_of_lt_pow
    · omega
    · rw [Nat.pow_succ 2 (m + 1)]; omega
  have cnt : treeHashCnt hashes.length = some (2 ^ (m + 1)) := by
    rw [treeHashCnt_eq (by omega) bounded, log]
  have firstLength := length_firstLevel_of above below
  -- `s` hashes are copied, the other `hashes.length - s = 2 * (cnt - s)` are paired
  generalize sDef : 2 * 2 ^ (m + 1) - hashes.length = s at firstLength
  obtain ⟨l, r, joined⟩ := List.length_eq_two.mp (length_joinTimes m firstLength)
  refine ⟨l, r, joined, ?_⟩
  -- the entries after the first for loop are the roots of the first level
  have copied : (hashes.take s ++ List.replicate (2 ^ (m + 1) - s) (zeroBlob 32)).take s =
      hashes.take s := List.take_left' (by simp; omega)
  have filled : (hashes.take s ++ List.replicate (2 ^ (m + 1) - s) (zeroBlob 32)).drop
      (2 ^ (m + 1)) = [] := List.drop_eq_nil_of_le (by simp; omega)
  have paired : (hashes.drop s).take (2 * (2 ^ (m + 1) - s)) = hashes.drop s :=
    List.take_of_length_le (by simp; omega)
  have leaves : leafLoop cnFastHash hashes (2 ^ (m + 1)) s s
      (hashes.take s ++ List.replicate (2 ^ (m + 1) - s) (zeroBlob 32)) =
        ((firstLevel hashes s).map (MerkleTree.Tree.root (hashPair cnFastHash)),
          hashes.length) := by
    rw [leafLoop_eq hashes _ s s _ (by omega) (by simp; omega) (by omega), copied, filled,
      paired, map_root_firstLevel, List.append_nil]
    simp only [Prod.mk.injEq, true_and]
    omega
  have rootsLength : ((firstLevel hashes s).map
      (MerkleTree.Tree.root (hashPair cnFastHash))).length = 2 ^ (m + 1) := by
    rw [List.length_map, firstLength, Nat.pow_succ]
  have level : (levelLoop cnFastHash (2 ^ (m + 1)) ((firstLevel hashes s).map
      (MerkleTree.Tree.root (hashPair cnFastHash)))).take 2 = _ := levelLoop_take m rootsLength.ge
  rw [List.take_of_length_le rootsLength.le, ← map_root_joinTimes, joined] at level
  obtain ⟨left, right⟩ := getD_of_take_two level (zeroBlob 32)
  simp only [treeHashMany, cnt, Option.bind_eq_bind, Option.bind_some, sDef, leaves, ne_eq,
    not_true_eq_false, if_false, left, right]
  rfl

/-- The depths of the tree, in terms of `cnt = 2 ^ (m + 1)`, the largest power of two below `n`,
and in terms of `k = log2 n`: `k = m + 1` below the next power of two, and `k = m + 2`, with
every leaf at depth `k`, at it. -/
theorem replicate_depths_log {n m : Nat} (above : 2 ^ (m + 1) < n) (below : n ≤ 2 * 2 ^ (m + 1)) :
    List.replicate (2 * 2 ^ (m + 1) - n) (m + 1) ++
        List.replicate (n - (2 * 2 ^ (m + 1) - n)) (m + 2) =
      List.replicate (2 ^ (Nat.log 2 n + 1) - n) (Nat.log 2 n) ++
        List.replicate (2 * (n - 2 ^ Nat.log 2 n)) (Nat.log 2 n + 1) := by
  have next : 2 ^ (m + 2) = 2 * 2 ^ (m + 1) := by ring
  rcases Nat.lt_or_ge n (2 * 2 ^ (m + 1)) with inside | full
  · have log : Nat.log 2 n = m + 1 :=
      Nat.log_eq_of_pow_le_of_lt_pow above.le (by rw [next]; exact inside)
    rw [log, next]
    congr 2
    omega
  · have log : Nat.log 2 n = m + 2 := by
      apply Nat.log_eq_of_pow_le_of_lt_pow
      · rw [next]; exact full
      · rw [Nat.pow_succ 2 (m + 2), next]; omega
    have none_copied : 2 * 2 ^ (m + 1) - n = 0 := by omega
    have none_deeper : 2 * (n - 2 ^ (m + 2)) = 0 := by omega
    rw [log, none_copied, none_deeper, Nat.pow_succ 2 (m + 2), next]
    simp only [List.replicate_zero, List.nil_append, List.append_nil, Nat.sub_zero]
    congr 1
    omega

/-- tree_hash of `n` hashes, `1 ≤ n ≤ 2 ^ 28`, is the root of the binary tree whose leaves are
the hashes in order, the first `2 ^ (k + 1) - n` of them at depth `k` and the other
`2 * (n - 2 ^ k)` at depth `k + 1`, for `k = log2 n`. -/
theorem tree_hash_is_tree_root {hashes : List Hash} (nonempty : hashes ≠ [])
    (bounded : hashes.length ≤ 0x10000000) :
    ∃ t : MerkleTree.Tree Hash, treeHash cnFastHash hashes = some (t.root (hashPair cnFastHash)) ∧
      t.leaves = hashes ∧
      t.depths = List.replicate (2 ^ (Nat.log 2 hashes.length + 1) - hashes.length)
          (Nat.log 2 hashes.length) ++
        List.replicate (2 * (hashes.length - 2 ^ Nat.log 2 hashes.length))
          (Nat.log 2 hashes.length + 1) := by
  match hashes, nonempty with
  | [h], _ => exact ⟨.leaf h, rfl, rfl, by simp [MerkleTree.Tree.depths]⟩
  | [a, b], _ =>
    have log : Nat.log 2 2 = 1 := Nat.log_eq_of_pow_le_of_lt_pow (by decide) (by decide)
    exact ⟨.node (.leaf a) (.leaf b), rfl, rfl, by
      simp only [List.length_cons, List.length_nil, Nat.reduceAdd, log]; rfl⟩
  | a :: b :: c :: rest, _ =>
    -- three hashes or more: `cnt = 2 ^ (m + 1)` for `m + 1 = log2 (n - 1)`
    obtain ⟨m, above, below⟩ := exists_cnt (n := (a :: b :: c :: rest).length) (by simp)
    obtain ⟨l, r, joined, hashed⟩ := treeHashMany_eq cnFastHash above below bounded
    refine ⟨.node l r, hashed, leaves_of_joinTimes joined, ?_⟩
    rw [depths_of_joinTimes above below joined, replicate_depths_log above below]

/-- Five different hashes: the first three at depth two, the last two at depth three. -/
theorem five_hashes_tree :
    let hashes := (List.range 5).map fun i => sampleHash [UInt8.ofNat i]
    hashes.Nodup ∧ hashes ≠ [] ∧ hashes.length ≤ 0x10000000 ∧
      ∃ t : MerkleTree.Tree Hash,
        treeHash sampleHash hashes = some (t.root (hashPair sampleHash)) ∧
        t.leaves = hashes ∧ t.depths = [2, 2, 2, 3, 3] := by
  intro hashes
  have five : hashes.length = 5 := by simp [hashes]
  have nonempty : hashes ≠ [] := List.ne_nil_of_length_pos (by omega)
  have log : Nat.log 2 5 = 2 := Nat.log_eq_of_pow_le_of_lt_pow (by decide) (by decide)
  obtain ⟨t, hashed, leaves, depths⟩ := tree_hash_is_tree_root sampleHash nonempty (by omega)
  refine ⟨by decide, nonempty, by omega, t, hashed, leaves, ?_⟩
  rw [depths, five, log]
  rfl

/-! ## What the tree hash commits to -/

/-- The shapes of the first level depend only on the number of hashes. -/
theorem map_shape_firstLevel (hashes : List Hash) (s : Nat) :
    (firstLevel hashes s).map MerkleTree.Tree.shape =
      List.replicate (min s hashes.length) (.leaf ()) ++
        join (List.replicate (hashes.length - s) (.leaf ())) := by
  rw [firstLevel, List.map_append, map_shape_join, map_shape_map_leaf, map_shape_map_leaf]
  simp

/-- Two lists of hashes of one length with one tree hash are equal, or the tree hash exhibits
two different pairs of hashes that `cn_fast_hash` hashes alike. -/
theorem eq_of_treeHash_eq {hashes hashes' : List Hash} {root : Hash}
    (hashed : treeHash cnFastHash hashes = some root)
    (hashed' : treeHash cnFastHash hashes' = some root)
    (sameLength : hashes.length = hashes'.length) :
    hashes = hashes' ∨ Collision (hashPair cnFastHash) := by
  match hashes, hashes', sameLength, hashed with
  | [], [], _, _ => exact .inl rfl
  | [h], [h'], _, hashed =>
    exact .inl (by rw [List.cons.injEq]; exact ⟨(Option.some.inj hashed).trans
      (Option.some.inj hashed').symm, rfl⟩)
  | [a, b], [a', b'], _, hashed =>
    by_cases same : (a, b) = (a', b')
    · obtain ⟨rfl, rfl⟩ := Prod.mk.inj same
      exact .inl rfl
    · exact .inr ⟨a, b, a', b', same,
        (Option.some.inj hashed).trans (Option.some.inj hashed').symm⟩
  | a :: b :: c :: rest, a' :: b' :: c' :: rest', sameLength, hashed =>
    -- both lists make trees of one shape, from the same `cnt`
    have bounded := bounded_of_treeHashMany cnFastHash hashed
    obtain ⟨m, above, below⟩ := exists_cnt (n := (a :: b :: c :: rest).length) (by simp)
    obtain ⟨l, r, joined, hashedTree⟩ := treeHashMany_eq cnFastHash above below bounded
    rw [sameLength] at above below bounded
    obtain ⟨l', r', joined', hashedTree'⟩ := treeHashMany_eq cnFastHash above below bounded
    have shapes : (MerkleTree.Tree.node l r).shape = (MerkleTree.Tree.node l' r').shape := by
      have mapped := map_shape_joinTimes m
        (firstLevel (a :: b :: c :: rest) (2 * 2 ^ (m + 1) - (a' :: b' :: c' :: rest').length))
      have mapped' := map_shape_joinTimes m
        (firstLevel (a' :: b' :: c' :: rest') (2 * 2 ^ (m + 1) - (a' :: b' :: c' :: rest').length))
      rw [map_shape_firstLevel, sameLength, ← map_shape_firstLevel, ← mapped', ← sameLength,
        joined, sameLength, joined'] at mapped
      simp only [List.map_cons, List.map_nil, List.cons.injEq, and_true] at mapped
      simp [MerkleTree.Tree.shape, mapped]
    have roots : (MerkleTree.Tree.node l r).root (hashPair cnFastHash) =
        (MerkleTree.Tree.node l' r').root (hashPair cnFastHash) :=
      Option.some.inj (hashedTree.symm.trans (hashed.trans (hashed'.symm.trans hashedTree')))
    rcases leaves_eq_of_root_eq _ shapes roots with leaves | collides
    · rw [leaves_of_joinTimes joined, leaves_of_joinTimes joined'] at leaves
      exact .inl leaves
    · exact .inr collides

/-- A collision of the hash of two hashes side by side is one of `cn_fast_hash` on two
different inputs of 64 bytes. -/
theorem collision_bytes (collides : Collision (hashPair cnFastHash)) :
    ∃ x y : List UInt8, x.length = 64 ∧ y.length = 64 ∧ x ≠ y ∧ cnFastHash x = cnFastHash y := by
  obtain ⟨⟨a, sizedA⟩, ⟨b, sizedB⟩, ⟨a', sizedA'⟩, ⟨b', sizedB'⟩, differ, same⟩ :=
    collides
  refine ⟨a ++ b, a' ++ b', by simp [sizedA, sizedB], by simp [sizedA', sizedB'], ?_, same⟩
  intro bytes
  obtain ⟨rfl, rfl⟩ := List.append_inj bytes (sizedA.trans sizedA'.symm)
  exact differ rfl

/-- tree_hash of `2 ^ (j + 1)` hashes is the one entry left after pairing them `j + 1` times. -/
theorem treeHash_of_length_pow {hashes : List Hash} {j : Nat} (sized : hashes.length = 2 ^ (j + 1))
    (bounded : hashes.length ≤ 0x10000000) :
    treeHash cnFastHash hashes = ((pairs (hashPair cnFastHash))^[j + 1] hashes).head? := by
  cases j with
  | zero =>
    obtain ⟨a, b, rfl⟩ := List.length_eq_two.mp sized
    rfl
  | succ m =>
    -- no hash is copied: the first level is the pairs of all of them
    have double : 2 ^ (m + 1 + 1) = 2 * 2 ^ (m + 1) := by ring
    have two : 2 ≤ 2 ^ (m + 1) := Nat.le_self_pow (by omega) 2
    rw [double] at sized
    obtain ⟨l, r, joined, hashed⟩ :=
      treeHashMany_eq cnFastHash (m := m) (by omega) (by omega) bounded
    have roots := map_root_joinTimes (hashPair cnFastHash) m
      (firstLevel hashes (2 * 2 ^ (m + 1) - hashes.length))
    rw [joined, map_root_firstLevel, sized, Nat.sub_self, List.take_zero, List.drop_zero,
      List.nil_append, ← Function.iterate_succ_apply] at roots
    rw [treeHash_of_three_le cnFastHash (by omega), hashed, Function.iterate_succ_apply', ← roots]
    rfl

/-- The tree hash does not fix the number of hashes: `2 ^ (k + 2)` hashes have the tree hash of
their `2 ^ (k + 1)` pairs. -/
theorem tree_hash_of_pairs {hashes : List Hash} {k : Nat} (sized : hashes.length = 2 ^ (k + 2))
    (bounded : hashes.length ≤ 0x10000000) :
    treeHash cnFastHash (pairs (hashPair cnFastHash) hashes) = treeHash cnFastHash hashes := by
  have double : 2 ^ (k + 2) = 2 * 2 ^ (k + 1) := by ring
  have paired : (pairs (hashPair cnFastHash) hashes).length = 2 ^ (k + 1) := by
    rw [length_pairs, sized, double]
    omega
  rw [treeHash_of_length_pow cnFastHash paired (by omega),
    treeHash_of_length_pow cnFastHash sized bounded]
  simp only [Function.iterate_succ_apply]

/-- Four different hashes and their two pairs have one tree hash. -/
theorem four_hashes_tree_hash_of_pairs :
    let hashes := (List.range 4).map fun i => sampleHash [UInt8.ofNat i]
    hashes.Nodup ∧ hashes.length = 2 ^ (0 + 2) ∧ hashes.length ≤ 0x10000000 ∧
      treeHash sampleHash (pairs (hashPair sampleHash) hashes) = treeHash sampleHash hashes := by
  intro hashes
  have four : hashes.length = 2 ^ (0 + 2) := by simp [hashes]
  exact ⟨by decide, four, by omega, tree_hash_of_pairs sampleHash four (by omega)⟩

/-- tools::write_varint writes different values differently. -/
theorem writeVarintOf_injective {x y : Nat} (same : writeVarintOf x = writeVarintOf y) : x = y := by
  have read : ∀ v, v ≤ x + y →
      (Serialization.readVarintLoop (x + y + 1) 0 0 0 (writeVarintOf v ++ [])).1 = v := by
    intro v small
    have room : v < 2 ^ (7 * (v + 1)) :=
      Nat.lt_of_lt_of_le Nat.lt_two_pow_self (Nat.pow_le_pow_right (by decide) (by omega))
    have fits : v * 2 ^ 0 < 2 ^ (x + y + 1) := by
      rw [Nat.pow_zero, Nat.mul_one]
      exact Nat.lt_of_lt_of_le Nat.lt_two_pow_self (Nat.pow_le_pow_right (by decide) (by omega))
    rw [writeVarintOf, Serialization.readVarintLoop_writeVarintLoop_eq (x + y + 1) [] v 0 room
      (show 0 < 2 ^ 0 by decide) (.inl rfl) fits]
    simp
  have readX := read x (by omega)
  rw [same, read y (by omega)] at readX
  exact readX.symm

/-- The hashing blob of a block, taken apart: the header's blob, the tree hash of its
transactions and the varint of their number. -/
theorem getBlockHashingBlob_eq_some {K : Type}
    {storeBlockHeader : Database.Block Hash K → List UInt8} {b : Database.Block Hash K} {blob : List UInt8}
    (hashed : getBlockHashingBlob cnFastHash storeBlockHeader b = some blob) :
    ∃ root, treeHash cnFastHash (b.minerTx.hash :: b.txHashes) = some root ∧
      blob = storeBlockHeader b ++ root.bytes ++ writeVarintOf (b.txHashes.length + 1) := by
  simp only [getBlockHashingBlob, getTxTreeHashOfBlock, getTxTreeHash, Option.bind_eq_bind,
    Option.bind_eq_some_iff, Option.pure_def, Option.some.injEq] at hashed
  obtain ⟨root, tree, rfl⟩ := hashed
  exact ⟨root, tree, rfl⟩

/-- Two blocks with one header blob whose hashing blobs agree have the same miner transaction
hash and the same transaction hashes, unless `cn_fast_hash` hashes two different inputs of 64
bytes alike. -/
theorem block_hashing_blob_commits_to_transactions {K : Type}
    (storeBlockHeader : Database.Block Hash K → List UInt8) {b b' : Database.Block Hash K}
    {blob : List UInt8} (hashed : getBlockHashingBlob cnFastHash storeBlockHeader b = some blob)
    (hashed' : getBlockHashingBlob cnFastHash storeBlockHeader b' = some blob)
    (sameHeader : storeBlockHeader b = storeBlockHeader b') :
    (b.minerTx.hash = b'.minerTx.hash ∧ b.txHashes = b'.txHashes) ∨
      ∃ x y : List UInt8, x.length = 64 ∧ y.length = 64 ∧ x ≠ y ∧ cnFastHash x = cnFastHash y := by
  obtain ⟨root, tree, rfl⟩ := getBlockHashingBlob_eq_some cnFastHash hashed
  obtain ⟨root', tree', blobs⟩ := getBlockHashingBlob_eq_some cnFastHash hashed'
  rw [sameHeader, List.append_assoc, List.append_assoc, List.append_cancel_left_eq] at blobs
  -- the tree hash has 32 bytes in both, so the tree hashes and then the varints agree
  obtain ⟨roots, varints⟩ := List.append_inj blobs (root.length_eq.trans root'.length_eq.symm)
  have sameRoot : root = root' := by
    cases root
    cases root'
    cases roots
    rfl
  have sameCount := writeVarintOf_injective varints
  rw [← sameRoot] at tree'
  rcases eq_of_treeHash_eq cnFastHash tree tree' (by simp; omega) with same | collides
  · exact .inl (List.cons.inj same)
  · exact .inr (collision_bytes cnFastHash collides)

/-- A block with a miner transaction and two others, under the id `id`, which its header's blob
does not hold. -/
def blockWithTxs (id : UInt8) : Database.Block Hash Unit :=
  ⟨sampleHash [id], sampleHash [7], ⟨sampleHash [8], [.gen], 1⟩,
    [sampleHash [9], sampleHash [10]]⟩

/-- Two blocks that differ only in their ids have one hashing blob, under a header blob of the
previous block's id, and the theorem gives their transactions as the same. -/
theorem blocks_with_transactions_commit :
    let header : Database.Block Hash Unit → List UInt8 := fun b => b.prevId.bytes
    blockWithTxs 1 ≠ blockWithTxs 2 ∧
      ∃ blob, getBlockHashingBlob sampleHash header (blockWithTxs 1) = some blob ∧
        getBlockHashingBlob sampleHash header (blockWithTxs 2) = some blob ∧
        ((blockWithTxs 1).minerTx.hash = (blockWithTxs 2).minerTx.hash ∧
            (blockWithTxs 1).txHashes = (blockWithTxs 2).txHashes ∨
          ∃ x y : List UInt8, x.length = 64 ∧ y.length = 64 ∧ x ≠ y ∧
            sampleHash x = sampleHash y) := by
  intro header
  -- three hashes: the branch with `cnt = 2`
  have three : ((blockWithTxs 1).minerTx.hash :: (blockWithTxs 1).txHashes).length = 3 := rfl
  obtain ⟨l, r, -, tree⟩ := @treeHashMany_eq sampleHash
    ((blockWithTxs 1).minerTx.hash :: (blockWithTxs 1).txHashes) 0 (by rw [three]; decide)
    (by rw [three]; decide) (by rw [three]; decide)
  have hashed : getBlockHashingBlob sampleHash header (blockWithTxs 1) =
      some (header (blockWithTxs 1) ++
        ((MerkleTree.Tree.node l r).root (hashPair sampleHash)).bytes ++ writeVarintOf 3) := by
    rw [getBlockHashingBlob, getTxTreeHashOfBlock, getTxTreeHash,
      treeHash_of_three_le sampleHash three.ge, tree]
    rfl
  -- the ids are not in the blob
  have hashed' : getBlockHashingBlob sampleHash header (blockWithTxs 2) =
      some (header (blockWithTxs 1) ++
        ((MerkleTree.Tree.node l r).root (hashPair sampleHash)).bytes ++ writeVarintOf 3) := by
    rw [← hashed]
    rfl
  exact ⟨by decide, _, hashed, hashed',
    block_hashing_blob_commits_to_transactions sampleHash header hashed hashed' rfl⟩

end GraftNetwork.Crypto

import Mathlib
import GraftNetwork.Database.Lmdb

/-!
# Chain synchronisation: the short chain history and the split point

Two nodes synchronise their chains in `src/cryptonote_core/blockchain.cpp`: one sends the
hashes of its blocks at a sparse set of heights (`get_short_chain_history`), from its top down to
the genesis block, and the other looks for the first of them that it has in its own main chain
(`find_blockchain_supplement`), and answers with its block hashes from that height on.

The history samples the block at back offset `1, 2, …, 11`, then at offsets whose gaps double,
so every back offset `d` of the chain has a sampled offset between `d` and `2 * d`
(`exists_sample_between`).

* `getShortChainHistory_eq`: the history is the chain's blocks at the sampled back offsets, the
  genesis block last.
* `findBlockchainSupplement_spec`: the split height is the first sampled block the answering
  node has.
* `chain_sync_resumes_at_common_block`: when block ids fix the chain below them, the split height
  is a block both chains share with everything below it, at least as high as `2 * h - top` for
  every shared height `h`, and the answer starts with that block.

Chains are the block hashes by height of the database (`Tables.blocks`); a block id that both
chains have fixes its height and the blocks below it (`Linked`), which is what the hash of a
block, over its parent's hash, gives. Heights are far below `2 ^ 62`, so the `uint64_t` offsets
do not wrap.
-/

namespace GraftNetwork.Core.ChainSync

open GraftNetwork.Database (Tables)

/-- BLOCKS_IDS_SYNCHRONIZING_DEFAULT_COUNT (cryptonote_config.h). -/
def BLOCKS_IDS_SYNCHRONIZING_DEFAULT_COUNT : Nat := 10000

/-- The variables of the while loop of get_short_chain_history. The multiplier starts at 1 and
only doubles, so it stays positive, and the offset grows in every pass. -/
structure HistoryState (H : Type) where
  i : Nat
  currentMultiplier : Nat
  currentBackOffset : Nat
  genesisIncluded : Bool
  ids : List H
  multiplier_pos : 0 < currentMultiplier

variable {H K : Type}

/-- `while (current_back_offset < sz)`: push the block at back offset `current_back_offset`, then
step the offset by one for the first ten passes, and by the doubled multiplier after them. -/
def historyLoop [Inhabited H] (blocks : List H) (sz : Nat) (s : HistoryState H) :
    HistoryState H :=
  if s.currentBackOffset < sz then
    let ids := s.ids ++ [blocks.getD (sz - s.currentBackOffset) default]
    let genesisIncluded := s.genesisIncluded || sz - s.currentBackOffset == 0
    if s.i < 10 then
      historyLoop blocks sz ⟨s.i + 1, s.currentMultiplier, s.currentBackOffset + 1,
        genesisIncluded, ids, s.multiplier_pos⟩
    else
      historyLoop blocks sz ⟨s.i + 1, s.currentMultiplier * 2,
        s.currentBackOffset + s.currentMultiplier * 2, genesisIncluded, ids,
        Nat.mul_pos s.multiplier_pos Nat.two_pos⟩
  else s
termination_by sz - s.currentBackOffset
decreasing_by
  · omega
  · have := s.multiplier_pos
    omega

/-- Blockchain::get_short_chain_history: nothing for an empty database; otherwise the loop's
hashes, then the genesis block unless the loop took it. -/
def getShortChainHistory [Inhabited H] (db : Tables H K) : List H :=
  let sz := db.blocks.length
  if sz = 0 then []
  else
    let s := historyLoop db.blocks sz ⟨0, 1, 1, false, [], Nat.one_pos⟩
    if !s.genesisIncluded then s.ids ++ [db.blocks.getD 0 default] else s.ids

/-- Blockchain::find_blockchain_supplement(qblock_ids, starter_offset): `none` for an empty
request, for a request whose last id is not our genesis block, and when no id of the request is
in our main chain; otherwise the height (`block_exists`) of the first id that is. On an empty
database the read of the genesis hash throws; the model answers `none` there too. -/
def findBlockchainSupplement [DecidableEq H] (db : Tables H K) (qblockIds : List H) :
    Option Nat :=
  if qblockIds = [] then none
  else
    match db.blocks.head? with
    | none => none
    | some genHash =>
      if qblockIds.getLast? ≠ some genHash then none
      else qblockIds.findSome? fun id => db.blocks.idxOf? id

/-- Blockchain::find_blockchain_supplement(qblock_ids, hashes, start_height, current_height):
the split height, our height, and our block hashes from the split height on, at most
BLOCKS_IDS_SYNCHRONIZING_DEFAULT_COUNT of them. -/
def findBlockchainSupplementHashes [Inhabited H] [DecidableEq H] (db : Tables H K)
    (qblockIds : List H) : Option (List H × Nat × Nat) := do
  let startHeight ← findBlockchainSupplement db qblockIds
  let currentHeight := db.blocks.length
  let hashes := ((List.range' startHeight (currentHeight - startHeight)).take
    BLOCKS_IDS_SYNCHRONIZING_DEFAULT_COUNT).map fun i => db.blocks.getD i default
  pure (hashes, startHeight, currentHeight)

/-! ## Sampled offsets -/

/-- A list of offsets in which each offset is at most twice the one before, starting at most at
`2 * d` and ending at least at `d`, has an offset between `d` and `2 * d`. The induction walks the
offsets below `d`; the first one at or above `d` is at most twice the last one below. -/
theorem exists_sample_between {d : Nat} : ∀ (S : List Nat), S.IsChain (fun a b => b ≤ 2 * a) →
    (∀ a ∈ S.head?, a ≤ 2 * d) → (∀ a ∈ S.getLast?, d ≤ a) → S ≠ [] →
      ∃ a ∈ S, d ≤ a ∧ a ≤ 2 * d
  | [], _, _, _, nonempty => absurd rfl nonempty
  | a :: rest, chain, first, last, _ => by
    by_cases reached : d ≤ a
    · exact ⟨a, List.mem_cons_self, reached, first a rfl⟩
    · obtain ⟨step, chained⟩ := List.isChain_cons.mp chain
      cases rest with
      | nil => exact absurd (last a rfl) reached
      | cons b more =>
        have doubled : b ≤ 2 * a := step b rfl
        obtain ⟨x, member, above, below⟩ := exists_sample_between (b :: more) chained
          (fun y same => by
            rw [List.head?_cons, Option.mem_some_iff] at same
            omega)
          (fun y same => last y (by rwa [List.getLast?_cons_cons]))
          (List.cons_ne_nil b more)
        exact ⟨x, List.mem_cons_of_mem a member, above, below⟩

/-- The first hit of `f` in a list of increasing offsets is at the least offset that hits. -/
theorem findSome?_first {β : Type} {f : Nat → Option β} : ∀ {S : List Nat},
    S.Pairwise (· < ·) → ∀ {o : Nat}, o ∈ S → (f o).isSome →
      ∃ o' ∈ S, o' ≤ o ∧ S.findSome? f = f o' ∧ (f o').isSome
  | [], _, _, member, _ => absurd member List.not_mem_nil
  | x :: rest, sorted, o, member, hit => by
    obtain ⟨above, sortedRest⟩ := List.pairwise_cons.mp sorted
    by_cases first : (f x).isSome
    · refine ⟨x, List.mem_cons_self, ?_, List.findSome?_cons_of_isSome first, first⟩
      rcases List.mem_cons.mp member with same | later
      · exact Nat.le_of_eq same.symm
      · exact Nat.le_of_lt (above o later)
    · have later : o ∈ rest := by
        rcases List.mem_cons.mp member with same | later
        · exact absurd (same ▸ hit) first
        · exact later
      obtain ⟨o', member', below, found, hit'⟩ := findSome?_first sortedRest later hit
      refine ⟨o', List.mem_cons_of_mem x member', below, ?_, hit'⟩
      rw [List.findSome?_cons_of_isNone (by simpa using first), found]

/-- The back offsets the while loop visits from pass `i`, multiplier `m` and offset `o`. -/
def backOffsets (sz i m o : Nat) (positive : 0 < m) : List Nat :=
  if o < sz then
    if i < 10 then o :: backOffsets sz (i + 1) m (o + 1) positive
    else o :: backOffsets sz (i + 1) (m * 2) (o + m * 2) (Nat.mul_pos positive Nat.two_pos)
  else []
termination_by sz - o
decreasing_by
  · omega
  · omega

theorem backOffsets_early {sz i m o : Nat} {positive : 0 < m} (inside : o < sz) (early : i < 10) :
    backOffsets sz i m o positive = o :: backOffsets sz (i + 1) m (o + 1) positive := by
  rw [backOffsets, if_pos inside, if_pos early]

theorem backOffsets_late {sz i m o : Nat} {positive : 0 < m} (inside : o < sz) (late : ¬i < 10) :
    backOffsets sz i m o positive =
      o :: backOffsets sz (i + 1) (m * 2) (o + m * 2) (Nat.mul_pos positive Nat.two_pos) := by
  rw [backOffsets, if_pos inside, if_neg late]

theorem backOffsets_outside {sz i m o : Nat} {positive : 0 < m} (outside : ¬o < sz) :
    backOffsets sz i m o positive = [] := by
  rw [backOffsets, if_neg outside]

/-- The offsets of the history: the loop's, then the genesis block's, `sz`. -/
def samples (sz : Nat) : List Nat := backOffsets sz 0 1 1 Nat.one_pos ++ [sz]

/-- The pass counter, the multiplier and the offset move together: offset `i + 1` with
multiplier `1` for the first ten passes, offset `9 + 2 * m` from the tenth on. -/
def Shape (i m o : Nat) : Prop := (i ≤ 10 → m = 1 ∧ o = i + 1) ∧ (10 ≤ i → o = 9 + 2 * m)

/-- The offsets from a pass on start at that pass's offset, or at the genesis block's. -/
theorem head?_backOffsets_append (sz i m o : Nat) (positive : 0 < m) :
    (backOffsets sz i m o positive ++ [sz]).head? = some (if o < sz then o else sz) := by
  by_cases inside : o < sz
  · by_cases early : i < 10
    · rw [backOffsets_early inside early, if_pos inside]
      rfl
    · rw [backOffsets_late inside early, if_pos inside]
      rfl
  · rw [backOffsets_outside inside, if_neg inside]
    rfl

/-- Along the offsets, each one is above the one before and at most twice it, up to the genesis
block's. The induction is the loop's; `Shape` gives the doubling bound of the next offset. -/
theorem isChain_backOffsets_append (sz i m o : Nat) (positive : 0 < m) (shape : Shape i m o)
    (first : 1 ≤ o) :
    (backOffsets sz i m o positive ++ [sz]).IsChain fun a b => a < b ∧ b ≤ 2 * a := by
  fun_induction backOffsets sz i m o positive with
  | case1 i m o positive inside early ih =>
    rw [List.cons_append, List.isChain_cons, head?_backOffsets_append]
    unfold Shape at shape
    refine ⟨fun next same => ?_, ih (by unfold Shape; omega) (by omega)⟩
    rw [Option.mem_some_iff] at same
    split_ifs at same <;> omega
  | case2 i m o positive inside late ih =>
    rw [List.cons_append, List.isChain_cons, head?_backOffsets_append]
    unfold Shape at shape
    refine ⟨fun next same => ?_, ih (by unfold Shape; omega) (by omega)⟩
    rw [Option.mem_some_iff] at same
    split_ifs at same <;> omega
  | case3 i m o positive outside =>
    exact List.isChain_singleton sz

/-- The sampled offsets of a non-empty chain: increasing, each at most twice the one before, from
`1` to the height. -/
theorem samples_spec {sz : Nat} (started : 0 < sz) :
    (samples sz).IsChain (fun a b => a < b ∧ b ≤ 2 * a) ∧ (samples sz).head? = some 1 ∧
      (samples sz).getLast? = some sz ∧ ∀ o ∈ samples sz, 1 ≤ o ∧ o ≤ sz := by
  have chain := isChain_backOffsets_append sz 0 1 1 Nat.one_pos (by unfold Shape; omega) le_rfl
  have sorted : (samples sz).Pairwise (· < ·) :=
    List.isChain_iff_pairwise.mp (chain.imp fun _ _ step => step.1)
  have first : (samples sz).head? = some 1 := by
    rw [samples, head?_backOffsets_append]
    split_ifs with above
    · rfl
    · rw [show sz = 1 by omega]
  refine ⟨chain, first, by rw [samples, List.getLast?_append_of_ne_nil _ (List.cons_ne_nil _ _)]; rfl,
    fun o member => ⟨?_, ?_⟩⟩
  · -- everything after the first offset is above it
    cases sampled : samples sz with
    | nil => rw [sampled] at member; exact absurd member List.not_mem_nil
    | cons x rest =>
      rw [sampled, List.head?_cons, Option.some.injEq] at first
      rw [sampled] at member sorted
      rcases List.mem_cons.mp member with same | later
      · omega
      · have := (List.pairwise_cons.mp sorted).1 o later
        omega
  · -- everything before the genesis offset is below it
    rw [samples, List.mem_append, List.mem_singleton] at member
    rcases member with loop | genesisOffset
    · have := (List.pairwise_append.mp (samples.eq_1 sz ▸ sorted)).2.2 o loop sz
        (List.mem_singleton_self sz)
      omega
    · omega

/-! ## Linked chains -/

/-- Block ids fix their height and the chain below them: an id of `A` that `B` has sits at the
same height in both, over the same blocks. -/
def Linked (A B : List H) : Prop :=
  ∀ h (inA : h < A.length) h' (inB : h' < B.length), A[h] = B[h'] →
    h = h' ∧ A.take (h + 1) = B.take (h + 1)

instance [DecidableEq H] (A B : List H) : Decidable (Linked A B) :=
  inferInstanceAs (Decidable (∀ h (inA : h < A.length) h' (inB : h' < B.length), A[h] = B[h'] →
    h = h' ∧ A.take (h + 1) = B.take (h + 1)))

/-- Two chains that agree up to height `h` have the same block at every height up to it. -/
theorem getElem_eq_of_take_eq {A B : List H} {h x : Nat} (same : A.take (h + 1) = B.take (h + 1))
    (below : x ≤ h) (inA : x < A.length) (inB : x < B.length) : A[x] = B[x] := by
  have atX := congrArg (fun l => l[x]?) same
  simp only [List.getElem?_take, if_pos (Nat.lt_succ_of_le below),
    List.getElem?_eq_getElem inA, List.getElem?_eq_getElem inB, Option.some.injEq] at atX
  exact atX

variable [Inhabited H]

/-- The loop pushes the blocks at the offsets it visits. -/
theorem historyLoop_ids (blocks : List H) (sz : Nat) (s : HistoryState H) :
    (historyLoop blocks sz s).ids = s.ids ++ (backOffsets sz s.i s.currentMultiplier
      s.currentBackOffset s.multiplier_pos).map fun o => blocks.getD (sz - o) default := by
  fun_induction historyLoop blocks sz s with
  | case1 s inside ids genesisIncluded early ih =>
    rw [ih, backOffsets_early inside early, List.map_cons, ← List.append_cons]
  | case2 s inside ids genesisIncluded late ih =>
    rw [ih, backOffsets_late inside late, List.map_cons, ← List.append_cons]
  | case3 s outside =>
    rw [backOffsets_outside outside, List.map_nil, List.append_nil]

/-- Inside the loop the offset is below the height, so the loop never reaches the genesis
block: `genesis_included` keeps its value. -/
theorem historyLoop_genesisIncluded (blocks : List H) (sz : Nat) (s : HistoryState H) :
    (historyLoop blocks sz s).genesisIncluded = s.genesisIncluded := by
  fun_induction historyLoop blocks sz s with
  | case1 s inside ids genesisIncluded early ih =>
    rw [ih]
    show (s.genesisIncluded || sz - s.currentBackOffset == 0) = s.genesisIncluded
    rw [show (sz - s.currentBackOffset == 0) = false by simp; omega, Bool.or_false]
  | case2 s inside ids genesisIncluded late ih =>
    rw [ih]
    show (s.genesisIncluded || sz - s.currentBackOffset == 0) = s.genesisIncluded
    rw [show (sz - s.currentBackOffset == 0) = false by simp; omega, Bool.or_false]
  | case3 s outside => rfl

/-- The history of a non-empty chain is its blocks at the sampled back offsets. -/
theorem getShortChainHistory_eq (db : Tables H K) (started : db.blocks ≠ []) :
    getShortChainHistory db = (samples db.blocks.length).map fun o =>
      db.blocks.getD (db.blocks.length - o) default := by
  have positive : db.blocks.length ≠ 0 := fun empty => started (List.length_eq_zero_iff.mp empty)
  rw [getShortChainHistory, if_neg positive]
  dsimp only
  rw [historyLoop_genesisIncluded, Bool.not_false, if_pos rfl, historyLoop_ids, samples,
    List.map_append, List.map_singleton, Nat.sub_self]
  rfl

/-- Our block hashes from height `s` on, read one by one, are the chain without its first `s`
blocks. -/
theorem map_range'_getD (B : List H) {s : Nat} (inside : s ≤ B.length) :
    (List.range' s (B.length - s)).map (fun i => B.getD i default) = B.drop s := by
  apply List.ext_getElem
  · rw [List.length_map, List.length_range', List.length_drop]
  · intro j inMap _
    rw [List.length_map, List.length_range'] at inMap
    rw [List.getElem_map, List.getElem_range', List.getElem_drop, Nat.one_mul,
      List.getD_eq_getElem _ _ (by omega)]

/-! ## The split point -/

variable [DecidableEq H]

/-- A block of `A` found in `B` by `block_exists` is at its own height there, over the same
chain. -/
theorem idxOf?_of_linked {A B : List H} (linked : Linked A B) {x s : Nat} (inA : x < A.length)
    (found : B.idxOf? (A.getD x default) = some s) :
    s = x ∧ A.take (x + 1) = B.take (x + 1) ∧ s < B.length := by
  obtain ⟨inB, atS, _⟩ := List.idxOf?_eq_some_iff.mp found
  rw [List.getD_eq_getElem _ _ inA] at atS
  obtain ⟨sameHeight, common⟩ := linked x inA s inB atS.symm
  exact ⟨sameHeight.symm, common, inB⟩

omit [DecidableEq H] in
/-- A chain that starts with ours starts with our genesis block. -/
theorem head?_eq_genesis (a b : Tables H K) (genesis : a.blocks.head? = b.blocks.head?)
    (started : a.blocks ≠ []) : b.blocks.head? = some (a.blocks.getD 0 default) := by
  have positive : 0 < a.blocks.length := List.length_pos_iff.mpr started
  rw [← genesis, List.head?_eq_getElem?, List.getElem?_eq_getElem positive,
    List.getD_eq_getElem _ _ positive]

/-- `find_blockchain_supplement` on the history of a chain with our genesis block: the genesis
check passes, and the split height is our height of the first sampled block that we have. -/
theorem findBlockchainSupplement_spec (a b : Tables H K) (genesis : a.blocks.head? = b.blocks.head?)
    (started : a.blocks ≠ []) :
    findBlockchainSupplement b (getShortChainHistory a) =
      (samples a.blocks.length).findSome?
        fun o => b.blocks.idxOf? (a.blocks.getD (a.blocks.length - o) default) := by
  obtain ⟨-, -, last, -⟩ := samples_spec (List.length_pos_iff.mpr started)
  -- the request is the sampled blocks of `a`, its genesis block last
  have request := getShortChainHistory_eq a started
  have lastId : (getShortChainHistory a).getLast? = some (a.blocks.getD 0 default) := by
    rw [request, List.getLast?_map, last, Option.map_some, Nat.sub_self]
  have nonempty : getShortChainHistory a ≠ [] := by
    intro empty
    rw [empty, List.getLast?_nil] at lastId
    exact Option.some_ne_none _ lastId.symm
  rw [findBlockchainSupplement, if_neg nonempty, head?_eq_genesis a b genesis started]
  dsimp only
  rw [if_neg (not_not.mpr lastId), request, List.findSome?_map]
  rfl

/-- The node answering a short chain history of `a` resumes at a block that both chains have,
over the same chain below it, and at least as high as `2 * h - top` for every height `h` up to
which the chains agree, where `top` is the height of `a`: it sends at most twice the blocks that
`a` lacks. Its answer starts with that block. -/
theorem chain_sync_resumes_at_common_block (a b : Tables H K)
    (linked : Linked a.blocks b.blocks) (genesis : a.blocks.head? = b.blocks.head?)
    (started : a.blocks ≠ []) :
    ∃ s, findBlockchainSupplementHashes b (getShortChainHistory a) =
        some ((b.blocks.drop s).take BLOCKS_IDS_SYNCHRONIZING_DEFAULT_COUNT, s, b.blocks.length) ∧
      s < a.blocks.length ∧ s < b.blocks.length ∧ a.blocks.take (s + 1) = b.blocks.take (s + 1) ∧
      ∀ h < a.blocks.length, h < b.blocks.length → a.blocks.take (h + 1) = b.blocks.take (h + 1) →
        a.blocks.length - s ≤ 2 * (a.blocks.length - h) := by
  have positive : 0 < a.blocks.length := List.length_pos_iff.mpr started
  obtain ⟨doubling, first, last, bounds⟩ := samples_spec positive
  have sorted : (samples a.blocks.length).Pairwise (· < ·) :=
    List.isChain_iff_pairwise.mp (doubling.imp fun _ _ step => step.1)
  -- the genesis block is sampled and in our chain, so some sampled block is found
  have genesisFound : (b.blocks.idxOf? (a.blocks.getD (a.blocks.length - a.blocks.length)
      default)).isSome := by
    rw [Nat.sub_self, List.isSome_idxOf?]
    exact List.mem_of_mem_head? (head?_eq_genesis a b genesis started)
  have genesisSampled : a.blocks.length ∈ samples a.blocks.length :=
    List.mem_of_mem_getLast? last
  obtain ⟨o, sampled, _, found, hit⟩ := findSome?_first
    (f := fun o => b.blocks.idxOf? (a.blocks.getD (a.blocks.length - o) default)) sorted
    genesisSampled genesisFound
  obtain ⟨s, atS⟩ := Option.isSome_iff_exists.mp hit
  have oBounds := bounds o sampled
  obtain ⟨height, common, insideB⟩ := idxOf?_of_linked linked (by omega) atS
  have supplement : findBlockchainSupplement b (getShortChainHistory a) = some s := by
    rw [findBlockchainSupplement_spec a b genesis started, found, atS]
  refine ⟨s, ?_, by omega, insideB, height ▸ common, ?_⟩
  · rw [findBlockchainSupplementHashes, supplement]
    show some ((((List.range' s (b.blocks.length - s)).take _).map _), s, b.blocks.length) = _
    rw [List.map_take, map_range'_getD b.blocks (Nat.le_of_lt insideB)]
  · intro h insideA insideB' agree
    -- a sampled offset between the back offset of `h` and twice it
    obtain ⟨o', sampled', above, below⟩ := exists_sample_between (d := a.blocks.length - h)
      (samples a.blocks.length) (doubling.imp fun _ _ step => step.2)
      (fun x same => by
        rw [first, Option.mem_some_iff] at same
        omega)
      (fun x same => by
        rw [last, Option.mem_some_iff] at same
        omega)
      (List.ne_nil_of_mem genesisSampled)
    have o'Bounds := bounds o' sampled'
    -- the block at that offset is below `h`, so we have it
    have present : (b.blocks.idxOf? (a.blocks.getD (a.blocks.length - o') default)).isSome := by
      rw [List.isSome_idxOf?, List.getD_eq_getElem _ _ (by omega),
        getElem_eq_of_take_eq agree (by omega) (by omega) (by omega)]
      exact List.getElem_mem _
    obtain ⟨o'', _, earlier, found', _⟩ := findSome?_first
      (f := fun o => b.blocks.idxOf? (a.blocks.getD (a.blocks.length - o) default)) sorted
      sampled' present
    rw [found, atS] at found'
    obtain ⟨height', _, _⟩ := idxOf?_of_linked linked (x := a.blocks.length - o'')
      (by have := bounds o'' ‹_›; omega) found'.symm
    have o''Bounds := bounds o'' ‹_›
    omega

/-- Two chains that fork above height 1. -/
theorem chain_sync_on_forked_chains :
    ∃ s, findBlockchainSupplementHashes (⟨[5, 6, 9], [], [], []⟩ : Tables Nat Nat)
        (getShortChainHistory (⟨[5, 6, 7, 8], [], [], []⟩ : Tables Nat Nat)) =
          some (([5, 6, 9].drop s).take BLOCKS_IDS_SYNCHRONIZING_DEFAULT_COUNT, s, 3) ∧
      s < 4 ∧ s < 3 ∧ [5, 6, 7, 8].take (s + 1) = [5, 6, 9].take (s + 1) ∧
      ∀ h < 4, h < 3 → [5, 6, 7, 8].take (h + 1) = [5, 6, 9].take (h + 1) → 4 - s ≤ 2 * (4 - h) :=
  chain_sync_resumes_at_common_block (⟨[5, 6, 7, 8], [], [], []⟩ : Tables Nat Nat)
    ⟨[5, 6, 9], [], [], []⟩ (by decide) rfl (List.cons_ne_nil _ _)

end GraftNetwork.Core.ChainSync

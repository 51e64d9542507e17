import GraftNetwork.Lib.Machine
import GraftNetwork.Stake.Cache
import Mathlib.Data.List.NodupEquivFin

/-!
# The tier lists that `apply_block` builds

Each tier of a blockchain-based list is drawn in two rounds of `select_supernodes`: up to
`PREVIOS_BLOCKCHAIN_BASED_LIST_MAX_SIZE` supernodes of the previous list that are still staked in
the tier, then, while there is room, supernodes of the current stakes of the tier that the first
round did not pick. This module proves the bounds of the result for every outcome of the
generator.

* `selectLoop_length`, `selectLoop_sublist`: one pass of the selection keeps the order of its
  source and picks exactly the number asked for when the source has that many; the draw at entry
  `i` of `n` is below `n - i`, so the pass cannot run short.
* `tierList_spec`: a tier is the first round followed by the second, the second taken from the
  current stakes of the tier without the supernodes of the first.
* `TierBounds`: what a tier satisfies: at most `BLOCKCHAIN_BASED_LIST_SIZE` supernodes, no two with
  one identifier, at most `PREVIOS_BLOCKCHAIN_BASED_LIST_MAX_SIZE` of them carried over, every one
  staked in the tier, and as many as the two rounds can find.
* `applyBlock_tier_bounds`: every tier of every list built by `apply_block`, from any list reached
  by the calls on it.

The identifiers of a tier are distinct only because those of the previous list are
(`HistoryDistinct`, kept by every call) and because the stake cache has one entry per supernode.
-/

namespace GraftNetwork.Stake

variable {H : Type}

/-! ## One pass of `select_supernodes` -/

theorem selectLoop_sublist (draw : Nat → UInt64) :
    ∀ (pos itemsCount : Nat) (srcList : List Supernode),
      (selectLoop draw pos itemsCount srcList).1.Sublist srcList
  | _, _, [] => List.Sublist.slnil
  | pos, itemsCount, sn :: rest => by
    rw [selectLoop]
    split
    · exact (selectLoop_sublist draw _ _ rest).cons sn
    · exact (selectLoop_sublist draw _ _ rest).cons_cons sn

/-- The selection picks exactly `itemsCount` entries: while as many remain as are still to pick,
every draw picks. -/
theorem selectLoop_length (draw : Nat → UInt64) :
    ∀ (pos itemsCount : Nat) (srcList : List Supernode), itemsCount ≤ srcList.length →
      (selectLoop draw pos itemsCount srcList).1.length = itemsCount
  | _, itemsCount, [], enough => by
    rw [List.length_nil, Nat.le_zero] at enough
    subst enough
    rfl
  | pos, itemsCount, sn :: rest, enough => by
    rw [List.length_cons] at enough
    have below : (draw pos).toNat % (rest.length + 1) < rest.length + 1 :=
      Nat.mod_lt _ (Nat.succ_pos _)
    rw [selectLoop]
    split
    · next skipped => exact selectLoop_length draw _ _ rest (by omega)
    · next picked =>
      rw [List.length_cons, selectLoop_length draw _ _ rest (by omega)]
      omega

theorem selectSupernodes_sublist (draw : Nat → UInt64) (pos itemsCount : Nat)
    (srcList : List Supernode) : (selectSupernodes draw pos itemsCount srcList).1.Sublist srcList :=
  selectLoop_sublist draw _ _ _

theorem selectSupernodes_length (draw : Nat → UInt64) (pos itemsCount : Nat)
    (srcList : List Supernode) :
    (selectSupernodes draw pos itemsCount srcList).1.length = min itemsCount srcList.length :=
  selectLoop_length draw _ _ _ (Nat.min_le_right _ _)

/-- For every sequence of draws, `select_supernodes` appends `min(items_count, src_list.size())`
entries of `src_list`, the `i`-th of them from a source position `f i`, where `f` is strictly
increasing: the entries keep their order and no position is taken twice. -/
theorem select_supernodes_takes_ordered_subsequence (draw : Nat → UInt64) (pos itemsCount : Nat)
    (srcList : List Supernode) :
    (selectSupernodes draw pos itemsCount srcList).1.length = min itemsCount srcList.length ∧
      ∃ f : Fin (selectSupernodes draw pos itemsCount srcList).1.length ↪o Fin srcList.length,
        ∀ i, (selectSupernodes draw pos itemsCount srcList).1.get i = srcList.get (f i) :=
  ⟨selectSupernodes_length draw pos itemsCount srcList,
    List.sublist_iff_exists_fin_orderEmbedding_get_eq.mp
      (selectSupernodes_sublist draw pos itemsCount srcList)⟩

/-! ## A tier -/

/-- The supernodes of a tier's current stakes: those with a non-zero stake in the tier. -/
def currentSupernodes (i : Nat) (stakes : List SupernodeStake) : List Supernode :=
  (stakes.filter (SupernodeStake.inTier i)).map SupernodeStake.toSupernode

/-- The supernodes of `current` that are not among `picked`, by identifier. -/
def notPicked (picked current : List Supernode) : List Supernode :=
  current.filter fun sn => !picked.any fun p => p.supernodePublicId == sn.supernodePublicId

variable (mt : H → Nat → UInt64)

/-- A tier list is the first round over the previous supernodes followed by the second round over
the current ones that the first did not pick; the sort only reorders them. -/
theorem tierList_spec (blockHash : H) (i : Nat) (prev : List Supernode)
    (stakes : List SupernodeStake) :
    ∃ fromPrev rest remaining, tierList mt blockHash i prev stakes = fromPrev ++ rest ∧
      fromPrev.Sublist prev ∧
      fromPrev.length = min previosBlockchainBasedListMaxSize prev.length ∧
      remaining.Perm (notPicked fromPrev (currentSupernodes i stakes)) ∧
      rest.Sublist remaining ∧
      rest.length = min (blockchainBasedListSize - fromPrev.length) remaining.length := by
  let draw := mt blockHash
  let fromPrev := selectSupernodes draw 0 previosBlockchainBasedListMaxSize prev
  let sorted := (currentSupernodes i stakes).insertionSort fun s1 s2 => stakeAgeLt s2 s1 = false
  let remaining := notPicked fromPrev.1 sorted
  have carried := selectSupernodes_length draw 0 previosBlockchainBasedListMaxSize prev
  -- the first round never fills the tier, so the second round always runs
  have room : fromPrev.1.length < blockchainBasedListSize := by
    change fromPrev.1.length < 32
    rw [carried]
    exact Nat.lt_of_le_of_lt (Nat.min_le_left _ _) (by decide)
  refine ⟨fromPrev.1, (selectSupernodes draw fromPrev.2
      (blockchainBasedListSize - fromPrev.1.length) remaining).1, remaining, ?_,
    selectSupernodes_sublist _ _ _ _, carried, ?_, selectSupernodes_sublist _ _ _ _,
    selectSupernodes_length _ _ _ _⟩
  · simp only [tierList]
    rw [if_pos room]
    rfl
  · exact (List.perm_insertionSort _ _).filter _

/-- The identifiers of the current supernodes of a tier, among stakes with one entry per
supernode, are distinct. -/
theorem currentSupernodes_nodup (i : Nat) {stakes : List SupernodeStake}
    (nodup : (stakes.map SupernodeStake.supernodePublicId).Nodup) :
    ((currentSupernodes i stakes).map Supernode.supernodePublicId).Nodup := by
  have ids : (currentSupernodes i stakes).map Supernode.supernodePublicId =
      (stakes.filter (SupernodeStake.inTier i)).map SupernodeStake.supernodePublicId := by
    rw [currentSupernodes, List.map_map]
    rfl
  rw [ids]
  exact nodup.sublist (List.filter_sublist.map _)

theorem mem_currentSupernodes {i : Nat} {stakes : List SupernodeStake} {sn : Supernode}
    (mem : sn ∈ currentSupernodes i stakes) :
    ∃ stake ∈ stakes, stake.inTier i = true ∧
      stake.supernodePublicId = sn.supernodePublicId := by
  obtain ⟨stake, selected, rfl⟩ := List.mem_map.mp mem
  exact ⟨stake, List.mem_of_mem_filter selected, (List.mem_filter.mp selected).2, rfl⟩

theorem SupernodeStake.inTier_iff (i : Nat) (stake : SupernodeStake) :
    stake.inTier i = true ↔ stake.amount ≠ 0 ∧ stake.tier = i + 1 := by
  simp [SupernodeStake.inTier]

/-- A cached stake is what `find_supernode_stake` returns for its supernode. -/
theorem StakeCache.Consistent.lookup_of_mem {cache : StakeCache} (consistent : cache.Consistent)
    {stake : SupernodeStake} (mem : stake ∈ cache.stakes) :
    cache.lookup stake.supernodePublicId = some stake := by
  rw [consistent.lookup_eq]
  obtain ⟨found, isFound⟩ : ∃ found, cache.stakes.find?
      (fun other => other.supernodePublicId == stake.supernodePublicId) = some found :=
    Option.isSome_iff_exists.mp (List.find?_isSome.mpr ⟨stake, mem, beq_self_eq_true _⟩)
  have same := List.find?_some isFound
  simp only [beq_iff_eq] at same
  rw [isFound,
    List.inj_on_of_nodup_map consistent.nodup (List.mem_of_find?_eq_some isFound) mem same]

/-! ## The bounds of a tier -/

/-- What tier `i` of the list built at `blockHeight` over `storage` satisfies, with `prevTier` the
tier of the previous list: at most `BLOCKCHAIN_BASED_LIST_SIZE` supernodes with distinct
identifiers; in front a carried-over part `fromPrev` taken from `prevTier`, of
`PREVIOS_BLOCKCHAIN_BASED_LIST_MAX_SIZE` supernodes or all those of `prevTier` still staked in the
tier when there are fewer; as many supernodes as `fromPrev` and the eligible current stakes not in
it give, up to the bound; and every supernode staked in the tier at the block. -/
structure TierBounds (storage : StakeTransactionStorage H) (blockHeight i : Nat)
    (prevTier tier : List Supernode) : Prop where
  length_le : tier.length ≤ blockchainBasedListSize
  nodup : (tier.map Supernode.supernodePublicId).Nodup
  carried : ∃ fromPrev rest, tier = fromPrev ++ rest ∧ fromPrev.Sublist prevTier ∧
    fromPrev.length = min previosBlockchainBasedListMaxSize (prevTier.filter fun sn =>
      (storage.findSupernodeStake blockHeight sn.supernodePublicId).1.any
        (SupernodeStake.inTier i)).length ∧
    tier.length = min blockchainBasedListSize (fromPrev.length +
      (notPicked fromPrev (currentSupernodes i (storage.getSupernodeStakes blockHeight).1)).length)
  staked : ∀ sn ∈ tier, ∃ stake,
    (storage.findSupernodeStake blockHeight sn.supernodePublicId).1 = some stake ∧
      stake.amount ≠ 0 ∧ stake.tier = i + 1

/-- The bounds of tier `i` as `apply_block` builds it: from the previous tier filtered by the
updated cache, and from the stakes of that cache. -/
theorem tierList_bounds (storage : StakeTransactionStorage H) (blockHeight : Nat) (blockHash : H)
    (i : Nat) (prevTier : List Supernode)
    (distinct : (prevTier.map Supernode.supernodePublicId).Nodup)
    (consistent : (storage.updateSupernodeStakes blockHeight).cache.Consistent) :
    let cache := (storage.updateSupernodeStakes blockHeight).cache
    TierBounds storage blockHeight i prevTier (tierList mt blockHash i
      (prevTier.filter fun sn => (cache.lookup sn.supernodePublicId).any (SupernodeStake.inTier i))
      cache.stakes) := by
  intro cache
  obtain ⟨fromPrev, rest, remaining, eq, fromPrev_sub, fromPrev_length, perm, rest_sub,
    rest_length⟩ := tierList_spec mt blockHash i (prevTier.filter fun sn =>
      (cache.lookup sn.supernodePublicId).any (SupernodeStake.inTier i)) cache.stakes
  have kept : fromPrev.Sublist prevTier := fromPrev_sub.trans List.filter_sublist
  have rest_mem : ∀ sn ∈ rest, sn ∈ notPicked fromPrev (currentSupernodes i cache.stakes) :=
    fun sn mem => perm.mem_iff.mp (rest_sub.subset mem)
  have length_eq : (fromPrev ++ rest).length = min blockchainBasedListSize (fromPrev.length +
      (notPicked fromPrev (currentSupernodes i cache.stakes)).length) := by
    have bound : previosBlockchainBasedListMaxSize ≤ blockchainBasedListSize := by decide
    rw [List.length_append, rest_length, perm.length_eq]
    omega
  rw [eq]
  refine ⟨?_, ?_, ⟨fromPrev, rest, rfl, kept, fromPrev_length, length_eq⟩, ?_⟩
  · rw [length_eq]
    exact Nat.min_le_left _ _
  · rw [List.map_append, List.nodup_append]
    refine ⟨distinct.sublist (kept.map _), ?_, ?_⟩
    · -- the second round picks among current supernodes, which have one stake each
      have current := currentSupernodes_nodup i consistent.nodup
      have unpicked : ((notPicked fromPrev (currentSupernodes i cache.stakes)).map
          Supernode.supernodePublicId).Nodup :=
        current.sublist (List.filter_sublist.map _)
      have remaining_nodup : (remaining.map Supernode.supernodePublicId).Nodup :=
        (perm.map _).nodup_iff.mpr unpicked
      exact remaining_nodup.sublist (rest_sub.map _)
    · -- and none of those has the identifier of a carried-over one
      intro a mem b mem' same
      obtain ⟨x, xmem, rfl⟩ := List.mem_map.mp mem
      obtain ⟨y, ymem, rfl⟩ := List.mem_map.mp mem'
      have fresh := (List.mem_filter.mp (rest_mem y ymem)).2
      simp only [Bool.not_eq_true', List.any_eq_false, beq_iff_eq] at fresh
      exact fresh x xmem same
  · -- `find_supernode_stake` reads the cache that `get_supernode_stakes` updated
    have find : ∀ id, (storage.findSupernodeStake blockHeight id).1 = cache.lookup id :=
      fun _ => rfl
    intro sn mem
    rcases List.mem_append.mp mem with carried | picked
    · have kept := (List.mem_filter.mp (fromPrev_sub.subset carried)).2
      obtain ⟨stake, found, inTier⟩ := (Option.any_eq_true _ _).mp kept
      exact ⟨stake, (find _).trans found, (SupernodeStake.inTier_iff i stake).mp inTier⟩
    · have current := List.mem_of_mem_filter (rest_mem sn picked)
      obtain ⟨stake, cached, inTier, same⟩ := mem_currentSupernodes current
      refine ⟨stake, ?_, (SupernodeStake.inTier_iff i stake).mp inTier⟩
      rw [find, ← same]
      exact consistent.lookup_of_mem cached

/-! ## `apply_block` at the next block -/

/-- The history update at the end of `apply_block`: the new tier lists are appended, and the
oldest ones dropped once `BLOCKCHAIN_BASED_LISTS_HISTORY_DEPTH` lists are kept. -/
def BlockchainBasedList.pushTiers (bbl : BlockchainBasedList) (newTier : List (List Supernode))
    (blockHeight : Nat) : BlockchainBasedList :=
  if bbl.historyDepth < blockchainBasedListsHistoryDepth then
    { bbl with
      history := bbl.history ++ [newTier], historyDepth := bbl.historyDepth + 1, blockHeight }
  else { bbl with history := (bbl.history ++ [newTier]).tail, blockHeight }

theorem BlockchainBasedList.pushTiers_history (bbl : BlockchainBasedList)
    (newTier : List (List Supernode)) (blockHeight : Nat) :
    (bbl.pushTiers newTier blockHeight).history = bbl.history ++ [newTier] ∨
      (bbl.pushTiers newTier blockHeight).history = (bbl.history ++ [newTier]).tail := by
  unfold BlockchainBasedList.pushTiers
  split
  · exact .inl rfl
  · exact .inr rfl

/-- `new_tier` of `apply_block(block_height, block_hash, stake_txs_storage)`: for each tier, the
list drawn from the newest lists `last` of the history and from the stakes of the storage
updated for the block. -/
def newTier (last : List (List Supernode)) (blockHeight : Nat) (blockHash : H)
    (storage : StakeTransactionStorage H) : List (List Supernode) :=
  let cache := (storage.updateSupernodeStakes blockHeight).cache
  (List.range tiersCount).map fun i => tierList mt blockHash i
    ((last.getD i []).filter fun sn =>
      (cache.lookup sn.supernodePublicId).any (SupernodeStake.inTier i)) cache.stakes

/-- Over a cache built for the block, the loop of `apply_block` over the tiers reads the
previous lists through that cache and leaves the storage as it is. -/
theorem buildTiers_of_updated {storage : StakeTransactionStorage H} {blockHeight : Nat}
    (updated : storage.supernodeStakesUpdateBlockNumber = blockHeight) (blockHash : H)
    (last : List (List Supernode)) (stakes : List SupernodeStake) :
    ∀ tiers : List Nat, buildTiers mt blockHeight blockHash last stakes tiers storage =
      (tiers.map fun i => tierList mt blockHash i ((last.getD i []).filter fun sn =>
        (storage.cache.lookup sn.supernodePublicId).any (SupernodeStake.inTier i)) stakes, storage)
  | [] => rfl
  | i :: tiers => by
    rw [buildTiers, prevSupernodes_of_updated i updated]
    dsimp only
    rw [buildTiers_of_updated updated blockHash last stakes tiers]
    rfl

/-- `apply_block` at the block after the list's height appends `new_tier` and leaves the
storage updated for the block. -/
theorem applyBlock_next (bbl : BlockchainBasedList) (blockHash : H)
    (storage : StakeTransactionStorage H) :
    bbl.applyBlock mt (bbl.blockHeight + 1) blockHash storage =
      .ok (bbl.pushTiers
          (newTier mt (bbl.history.getLastD []) (bbl.blockHeight + 1) blockHash storage)
          (bbl.blockHeight + 1),
        storage.updateSupernodeStakes (bbl.blockHeight + 1)) := by
  have updated := storage.updateSupernodeStakes_number (bbl.blockHeight + 1)
  unfold BlockchainBasedList.applyBlock
  rw [if_neg (by omega), if_neg (by omega)]
  simp only [StakeTransactionStorage.getSupernodeStakes, buildTiers_of_updated mt updated]
  rfl

/-- What a call of `apply_block` that does not throw can do: ignore a block at or below the
list's height, or append the lists of the next block. -/
theorem applyBlock_ok_cases {bbl bbl' : BlockchainBasedList} {blockHeight : Nat} {blockHash : H}
    {storage storage' : StakeTransactionStorage H}
    (applied : bbl.applyBlock mt blockHeight blockHash storage = .ok (bbl', storage')) :
    (blockHeight ≤ bbl.blockHeight ∧ bbl' = bbl ∧ storage' = storage) ∨
      (blockHeight = bbl.blockHeight + 1 ∧
        bbl' = bbl.pushTiers (newTier mt (bbl.history.getLastD []) blockHeight blockHash storage)
          blockHeight ∧
        storage' = storage.updateSupernodeStakes blockHeight) := by
  by_cases stale : blockHeight ≤ bbl.blockHeight
  · unfold BlockchainBasedList.applyBlock at applied
    rw [if_pos stale] at applied
    cases applied
    exact .inl ⟨stale, rfl, rfl⟩
  · by_cases next : blockHeight = bbl.blockHeight + 1
    · subst next
      rw [applyBlock_next] at applied
      cases applied
      exact .inr ⟨rfl, rfl, rfl⟩
    · unfold BlockchainBasedList.applyBlock at applied
      rw [if_neg stale, if_pos next] at applied
      cases applied

theorem consistent_updateSupernodeStakes {storage : StakeTransactionStorage H}
    (consistent : storage.cache.Consistent) (blockNumber : Nat) :
    (storage.updateSupernodeStakes blockNumber).cache.Consistent := by
  unfold StakeTransactionStorage.updateSupernodeStakes
  split
  · exact consistent
  · exact consistent_buildStakes _ _

/-! ## Distinct identifiers along every run -/

/-- Every tier of every list of the history has distinct identifiers. -/
def BlockchainBasedList.HistoryDistinct (bbl : BlockchainBasedList) : Prop :=
  ∀ tiers ∈ bbl.history, ∀ tier ∈ tiers, (tier.map Supernode.supernodePublicId).Nodup

/-- The storage of a call has a stake cache with one entry per supernode, as every storage that
the storage's own calls reach (`consistent_buildStakes`). -/
def ListOperation.StorageConsistent : ListOperation H → Prop
  | .applyBlock _ _ storage => storage.cache.Consistent
  | .removeLatestBlock => True

namespace BlockchainBasedList.HistoryDistinct

variable {bbl : BlockchainBasedList}

theorem create (firstBlockNumber : Nat) :
    (BlockchainBasedList.create firstBlockNumber).HistoryDistinct :=
  fun _ absent => absurd absent List.not_mem_nil

/-- The tier of the newest list that `apply_block` carries supernodes over from; a missing list
or tier is empty. -/
theorem prevTier (distinct : bbl.HistoryDistinct) (i : Nat) :
    (((bbl.history.getLastD []).getD i []).map Supernode.supernodePublicId).Nodup := by
  rw [List.getLastD_eq_getLast?]
  cases last : bbl.history.getLast? with
  | none => exact List.nodup_nil
  | some tiers =>
    rw [Option.getD_some, List.getD_eq_getElem?_getD]
    cases tier : tiers[i]? with
    | none => exact List.nodup_nil
    | some tier' =>
      exact distinct tiers (List.mem_of_getLast? last) tier' (List.mem_of_getElem? tier)

theorem newTier (distinct : bbl.HistoryDistinct) {storage : StakeTransactionStorage H}
    (consistent : storage.cache.Consistent) (blockHeight : Nat) (blockHash : H) :
    ∀ tier ∈ GraftNetwork.Stake.newTier mt (bbl.history.getLastD []) blockHeight blockHash
      storage, (tier.map Supernode.supernodePublicId).Nodup := by
  intro tier mem
  obtain ⟨i, -, rfl⟩ := List.mem_map.mp mem
  exact (tierList_bounds mt storage blockHeight blockHash i _ (distinct.prevTier i)
    (consistent_updateSupernodeStakes consistent blockHeight)).nodup

theorem pushTiers (distinct : bbl.HistoryDistinct) {newTier : List (List Supernode)}
    (fresh : ∀ tier ∈ newTier, (tier.map Supernode.supernodePublicId).Nodup)
    (blockHeight : Nat) :
    (bbl.pushTiers newTier blockHeight).HistoryDistinct := by
  have appended : ∀ tiers ∈ bbl.history ++ [newTier], ∀ tier ∈ tiers,
      (tier.map Supernode.supernodePublicId).Nodup := by
    intro tiers mem
    rcases List.mem_append.mp mem with old | new
    · exact distinct tiers old
    · rw [List.mem_singleton.mp new]
      exact fresh
  unfold BlockchainBasedList.pushTiers
  split
  · exact appended
  · exact fun tiers mem => appended tiers (List.mem_of_mem_tail mem)

theorem removeLatestBlock (distinct : bbl.HistoryDistinct) :
    bbl.removeLatestBlock.HistoryDistinct := by
  have kept : ∀ tiers ∈ bbl.history.dropLast, ∀ tier ∈ tiers,
      (tier.map Supernode.supernodePublicId).Nodup :=
    fun tiers mem => distinct tiers (List.dropLast_subset _ mem)
  unfold BlockchainBasedList.removeLatestBlock
  dsimp only
  split_ifs
  · exact distinct
  · exact kept
  · exact kept

/-- Every call keeps the identifiers distinct, given a storage with one entry per supernode. -/
theorem listStep (distinct : bbl.HistoryDistinct) {operation : ListOperation H}
    (consistent : operation.StorageConsistent) :
    (GraftNetwork.Stake.listStep mt operation bbl).HistoryDistinct := by
  cases operation with
  | removeLatestBlock => exact distinct.removeLatestBlock
  | applyBlock blockHeight blockHash storage =>
    dsimp only [GraftNetwork.Stake.listStep]
    split
    · next bbl' storage' applied =>
      rcases applyBlock_ok_cases mt applied with ⟨-, rfl, -⟩ | ⟨-, rfl, -⟩
      · exact distinct
      · exact distinct.pushTiers (distinct.newTier mt consistent blockHeight blockHash) _
    · exact distinct

end BlockchainBasedList.HistoryDistinct

/-- Every tier of the list that `apply_block` builds at the next block, after any calls on the
list from its construction: at most `BLOCKCHAIN_BASED_LIST_SIZE` supernodes, no two with one
identifier, at most `PREVIOS_BLOCKCHAIN_BASED_LIST_MAX_SIZE` carried over from the tier of the
previous list, every one staked in the tier at the block, and no fewer than the eligible
supernodes allow; for every outcome of the generator, every block hash and every storage with one
stake entry per supernode. -/
theorem applyBlock_tier_bounds (firstBlockNumber : Nat) (operations : List (ListOperation H))
    (consistentRun : ∀ operation ∈ operations, operation.StorageConsistent) (blockHash : H)
    (storage : StakeTransactionStorage H) (consistent : storage.cache.Consistent) :
    let bbl := Machine.run (listStep mt) (BlockchainBasedList.create firstBlockNumber) operations
    ∃ bbl' storage' newTiers,
      bbl.applyBlock mt (bbl.blockHeight + 1) blockHash storage = .ok (bbl', storage') ∧
      (bbl'.history = bbl.history ++ [newTiers] ∨
        bbl'.history = (bbl.history ++ [newTiers]).tail) ∧
      newTiers.length = tiersCount ∧
      ∀ i (hi : i < newTiers.length), TierBounds storage (bbl.blockHeight + 1) i
        ((bbl.history.getLastD []).getD i []) newTiers[i] := by
  intro bbl
  have distinct : bbl.HistoryDistinct :=
    Machine.run_invariant_of_forall (listStep mt)
      (fun _ _ consistent distinct => distinct.listStep mt consistent) operations consistentRun
      (BlockchainBasedList.HistoryDistinct.create firstBlockNumber)
  refine ⟨_, _, newTier mt (bbl.history.getLastD []) (bbl.blockHeight + 1) blockHash storage,
    applyBlock_next mt bbl blockHash storage, bbl.pushTiers_history _ _, by simp [newTier],
    fun i hi => ?_⟩
  simp only [newTier, List.getElem_map, List.getElem_range]
  exact tierList_bounds mt storage _ blockHash i _ (distinct.prevTier i)
    (consistent_updateSupernodeStakes consistent _)

/-- Supernodes `A` to `D` stake in tiers 1 to 4 from block 10 on; the list applies block 101
and then block 102 with the same storage, so the second block's tiers carry from the first. -/
theorem applyBlock_tier_bounds_in_four_tiers :
    let mt : Nat → Nat → UInt64 := fun hash k => UInt64.ofNat (hash + k)
    let storage : StakeTransactionStorage Nat :=
      { StakeTransactionStorage.create 0 with
        stakeTxs := [⟨1, tier1StakeAmount, 10, 200, "A"⟩, ⟨2, tier2StakeAmount, 10, 200, "B"⟩,
          ⟨3, tier3StakeAmount, 10, 200, "C"⟩, ⟨4, tier4StakeAmount, 10, 200, "D"⟩] }
    let operations : List (ListOperation Nat) := [.applyBlock 101 5 storage]
    ((storage.updateSupernodeStakes 102).cache.stakes.map SupernodeStake.tier = [1, 2, 3, 4]) ∧
      (∀ operation ∈ operations, operation.StorageConsistent) ∧ storage.cache.Consistent ∧
      let bbl := Machine.run (listStep mt) (BlockchainBasedList.create 100) operations
      ∃ bbl' storage' newTiers,
        bbl.applyBlock mt (bbl.blockHeight + 1) 6 storage = .ok (bbl', storage') ∧
        (bbl'.history = bbl.history ++ [newTiers] ∨
          bbl'.history = (bbl.history ++ [newTiers]).tail) ∧
        newTiers.length = tiersCount ∧
        ∀ i (hi : i < newTiers.length), TierBounds storage (bbl.blockHeight + 1) i
          ((bbl.history.getLastD []).getD i []) newTiers[i] := by
  intro mt storage operations
  have run : ∀ operation ∈ operations, operation.StorageConsistent := fun _ mem => by
    rw [List.mem_singleton.mp mem]
    exact StakeCache.consistent_empty
  exact ⟨by decide, run, StakeCache.consistent_empty,
    applyBlock_tier_bounds _ 100 _ run 6 _ StakeCache.consistent_empty⟩

end GraftNetwork.Stake

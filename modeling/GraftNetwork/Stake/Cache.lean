import GraftNetwork.Stake.BlockchainBasedList

/-!
# The stake cache is stale, and `apply_block` does not see it

`update_supernode_stakes(b)` does nothing when the cache was last built for `b`, so
`get_supernode_stakes(b)` after an `add_tx` can miss the new transaction
(`stale_supernode_stakes`). A transaction that is not yet valid at `b` only ever adds a zero
stake, and `apply_block` reads only the stakes with a non-zero amount. This module proves that
the cache is right on those:

* `StakeCache.Consistent`: the index map of `find_supernode_stake` is the position of each
  supernode in the stake list, and each supernode has one entry; every rebuild keeps it.
* `active_foldl_stakeStep`: transactions not valid at `b`, appended to the list, leave the
  non-zero stakes built for `b` as they were.
* `StakeTransactionStorage.CacheCoherent`: the cache holds, on its non-zero entries, what a
  rebuild for its block number gives; clearing, rebuilding and adding such transactions keep
  it.
* `applyBlock_agree`: two storages that differ only in coherent caches give `apply_block` the
  same list.
-/

namespace GraftNetwork.Stake

variable {H : Type}

/-- The stakes with a non-zero amount, the only ones `apply_block` reads. -/
def activeStakes (stakes : List SupernodeStake) : List SupernodeStake :=
  stakes.filter fun stake => stake.amount ≠ 0

namespace StakeCache

/-- The supernode of each cached stake, in order. -/
def ids (cache : StakeCache) : List String := cache.stakes.map SupernodeStake.supernodePublicId

/-- The cached stakes with a non-zero amount. -/
def active (cache : StakeCache) : List SupernodeStake := activeStakes cache.stakes

/-- The stake that `find_supernode_stake` returns from the cache. -/
def lookup (cache : StakeCache) (supernodePublicId : String) : Option SupernodeStake :=
  (cache.indexes supernodePublicId).bind fun k => cache.stakes[k]?

/-- The index map holds the position of each supernode's entry, and each supernode has at most
one entry. -/
structure Consistent (cache : StakeCache) : Prop where
  indexes_eq : ∀ id, cache.indexes id = cache.ids.findIdx? (· == id)
  nodup : cache.ids.Nodup

theorem consistent_empty : StakeCache.empty.Consistent :=
  ⟨fun _ => rfl, List.nodup_nil⟩

end StakeCache

/-! ## The index map -/

theorem findIdx?_bind_getElem? {α : Type} (p : α → Bool) :
    ∀ l : List α, ((l.findIdx? p).bind fun k => l[k]?) = l.find? p
  | [] => rfl
  | x :: xs => by
    rw [List.findIdx?_cons, List.find?_cons]
    cases p x with
    | true => rfl
    | false =>
      rw [← findIdx?_bind_getElem? p xs]
      cases xs.findIdx? p <;> rfl

theorem StakeCache.Consistent.lookup_eq {cache : StakeCache} (consistent : cache.Consistent)
    (id : String) :
    cache.lookup id = cache.stakes.find? fun stake => stake.supernodePublicId == id := by
  rw [lookup, consistent.indexes_eq, ids, List.findIdx?_map]
  exact findIdx?_bind_getElem? _ cache.stakes

theorem SupernodeStake.accumulate_supernodePublicId (stake : SupernodeStake) (amount lo hi : Nat) :
    (stake.accumulate amount lo hi).supernodePublicId = stake.supernodePublicId := by
  unfold SupernodeStake.accumulate
  split <;> rfl

/-- Updating entries without touching their supernode keeps the list of supernodes. -/
theorem map_modify_of_preserves {α β : Type} {g : α → β} {f : α → α} (preserves : ∀ a, g (f a) = g a)
    (l : List α) (k : Nat) : (l.modify k f).map g = l.map g := by
  apply List.ext_getElem?
  intro j
  rw [List.getElem?_map, List.getElem?_map, List.getElem?_modify]
  cases l[j]? with
  | none => rfl
  | some a =>
    simp only [Option.map_some]
    split <;> simp [preserves]

/-- A round of `update_supernode_stakes` keeps the index map consistent: a new supernode is
appended with its position, an existing one is updated in place. -/
theorem StakeCache.Consistent.stakeStep {cache : StakeCache} (consistent : cache.Consistent)
    (blockNumber : Nat) (tx : StakeTransaction H) : (stakeStep blockNumber cache tx).Consistent := by
  unfold GraftNetwork.Stake.stakeStep
  dsimp only
  split
  · exact consistent
  · split
    · next absent =>
      have fresh : tx.supernodePublicId ∉ cache.ids := by
        rw [consistent.indexes_eq, List.findIdx?_eq_none_iff] at absent
        intro mem
        simpa using absent _ mem
      refine ⟨fun id => ?_, ?_⟩
      · simp only [ids, List.map_append, List.map_cons, List.map_nil, List.findIdx?_append,
          List.length_map]
        by_cases same : id = tx.supernodePublicId
        · subst same
          rw [Function.update_self]
          have none : cache.ids.findIdx? (· == tx.supernodePublicId) = none := by
            rw [← consistent.indexes_eq]
            exact absent
          simp only [ids] at none
          split <;> simp [none]
        · rw [Function.update_of_ne same, consistent.indexes_eq]
          have other : tx.supernodePublicId ≠ id := Ne.symm same
          split <;> simp [ids, other]
      · simp only [ids, List.map_append, List.map_cons, List.map_nil]
        refine List.nodup_append.mpr ⟨consistent.nodup, List.nodup_singleton _, ?_⟩
        intro a ha b hb
        have new : b = tx.supernodePublicId := by
          rw [List.mem_singleton.mp hb]
          split <;> rfl
        subst new
        exact fun eq => fresh (eq ▸ ha)
    · next k _ =>
      split
      · exact consistent
      · -- an existing supernode's stake is updated in place, under the same identifier
        have same_ids : (cache.stakes.modify k fun stake =>
            stake.accumulate tx.amount (add64 tx.blockHeight stakeValidationPeriod)
              (add64 (add64 tx.blockHeight tx.unlockTime) trustedRestakingPeriod)).map
            SupernodeStake.supernodePublicId = cache.ids :=
          map_modify_of_preserves (fun stake => stake.accumulate_supernodePublicId _ _ _) _ _
        refine ⟨fun id => ?_, ?_⟩
        · simp only [ids] at same_ids ⊢
          rw [same_ids, consistent.indexes_eq]
          rfl
        · simp only [ids] at same_ids ⊢
          rw [same_ids]
          exact consistent.nodup

theorem StakeCache.Consistent.foldl_stakeStep {cache : StakeCache} (consistent : cache.Consistent)
    (blockNumber : Nat) : ∀ txs : List (StakeTransaction H),
      (txs.foldl (GraftNetwork.Stake.stakeStep blockNumber) cache).Consistent
  | [] => consistent
  | tx :: txs => (consistent.stakeStep blockNumber tx).foldl_stakeStep blockNumber txs

theorem consistent_buildStakes (stakeTxs : List (StakeTransaction H)) (blockNumber : Nat) :
    (buildStakes stakeTxs blockNumber).Consistent :=
  StakeCache.consistent_empty.foldl_stakeStep blockNumber stakeTxs

/-! ## Transactions not yet valid -/

/-- A transaction that is not valid at the block number adds at most a zero stake. -/
theorem active_stakeStep {tx : StakeTransaction H} {blockNumber : Nat}
    (invalid : tx.isValid blockNumber = false) (cache : StakeCache) :
    (stakeStep blockNumber cache tx).active = cache.active := by
  unfold GraftNetwork.Stake.stakeStep
  simp only [invalid, Bool.not_false]
  split
  · rfl
  · split
    · simp [StakeCache.active, activeStakes, List.filter_append]
    · rfl

theorem active_foldl_stakeStep {blockNumber : Nat} :
    ∀ {extra : List (StakeTransaction H)}, (∀ tx ∈ extra, tx.isValid blockNumber = false) →
      ∀ cache : StakeCache, (extra.foldl (stakeStep blockNumber) cache).active = cache.active
  | [], _, _ => rfl
  | tx :: extra, invalid, cache => by
    rw [List.foldl_cons, active_foldl_stakeStep (fun t ht => invalid t (List.mem_cons_of_mem _ ht)),
      active_stakeStep (invalid tx List.mem_cons_self)]

/-- No transaction is valid at block `0`, so the stakes built for it are all zero. -/
theorem active_buildStakes_zero (stakeTxs : List (StakeTransaction H)) :
    (buildStakes stakeTxs 0).active = [] := by
  have invalid : ∀ tx ∈ stakeTxs, tx.isValid 0 = false := by
    intro tx _
    simp [StakeTransaction.isValid, stakeValidationPeriod]
  rw [buildStakes, active_foldl_stakeStep invalid]
  rfl

/-- A transaction of block `b` is not valid at `b`. -/
theorem isValid_own_block (tx : StakeTransaction H) : tx.isValid tx.blockHeight = false := by
  simp [StakeTransaction.isValid, stakeValidationPeriod]

/-! ## Coherent caches -/

namespace StakeTransactionStorage

variable (s : StakeTransactionStorage H)

/-- The storage without its stake cache. -/
def forget : StakeTransactionStorage H := s.clearSupernodeStakes

/-- The cache agrees, on its non-zero stakes, with a rebuild for its block number, and its index
map is consistent. -/
structure CacheCoherent : Prop where
  consistent : s.cache.Consistent
  active_eq : s.cache.active = (buildStakes s.stakeTxs s.supernodeStakesUpdateBlockNumber).active

theorem cacheCoherent_clear : s.clearSupernodeStakes.CacheCoherent :=
  ⟨StakeCache.consistent_empty, (active_buildStakes_zero s.stakeTxs).symm⟩

theorem cacheCoherent_create (firstBlockNumber : Nat) :
    (create firstBlockNumber : StakeTransactionStorage H).CacheCoherent :=
  (create firstBlockNumber).cacheCoherent_clear

variable {s}

theorem CacheCoherent.updateSupernodeStakes (coherent : s.CacheCoherent) (blockNumber : Nat) :
    (s.updateSupernodeStakes blockNumber).CacheCoherent := by
  unfold StakeTransactionStorage.updateSupernodeStakes
  split
  · exact coherent
  · exact ⟨consistent_buildStakes _ _, rfl⟩

/-- Adding transactions that are not valid at the cached block number keeps the cache
coherent. -/
theorem CacheCoherent.foldl_addTx (coherent : s.CacheCoherent) {txs : List (StakeTransaction H)}
    (invalid : ∀ tx ∈ txs, tx.isValid s.supernodeStakesUpdateBlockNumber = false) :
    (txs.foldl addTx s).CacheCoherent := by
  induction txs generalizing s with
  | nil => exact coherent
  | cons tx txs ih =>
    rw [List.foldl_cons]
    apply ih
    · refine ⟨coherent.consistent, ?_⟩
      simp only [addTx, buildStakes, List.foldl_concat]
      rw [active_stakeStep (invalid tx List.mem_cons_self)]
      exact coherent.active_eq
    · exact fun t ht => invalid t (List.mem_cons_of_mem _ ht)

@[simp] theorem forget_updateSupernodeStakes (blockNumber : Nat) :
    (s.updateSupernodeStakes blockNumber).forget = s.forget := by
  unfold StakeTransactionStorage.updateSupernodeStakes
  split <;> rfl

@[simp] theorem forget_forget : s.forget.forget = s.forget := rfl

theorem forget_stakeTxs : s.forget.stakeTxs = s.stakeTxs := rfl

theorem forget_lastProcessedBlockIndex :
    s.forget.lastProcessedBlockIndex = s.lastProcessedBlockIndex := rfl

/-! ## The other operations of the storage -/

theorem cacheCoherent_updateSupernodeStakes_of_ne {blockNumber : Nat}
    (rebuilt : blockNumber ≠ s.supernodeStakesUpdateBlockNumber) :
    (s.updateSupernodeStakes blockNumber).CacheCoherent := by
  unfold StakeTransactionStorage.updateSupernodeStakes
  rw [if_neg rebuilt]
  exact ⟨consistent_buildStakes _ _, rfl⟩

theorem foldl_addTx_number (txs : List (StakeTransaction H)) :
    (txs.foldl addTx s).supernodeStakesUpdateBlockNumber = s.supernodeStakesUpdateBlockNumber := by
  induction txs generalizing s with
  | nil => rfl
  | cons tx txs ih => exact ih

theorem forget_foldl_addTx (txs : List (StakeTransaction H)) :
    (txs.foldl addTx s).forget = txs.foldl addTx s.forget := by
  induction txs generalizing s with
  | nil => rfl
  | cons tx txs ih => exact ih

/-- `process_block_stake_transaction` adds the transactions of block `b` and then calls
`update_supernode_stakes(b)`, which leaves a coherent cache: when the cache was built for `b`
already, the new transactions are not valid at `b`. -/
theorem CacheCoherent.updateSupernodeStakes_foldl_addTx (coherent : s.CacheCoherent)
    {blockNumber : Nat} {txs : List (StakeTransaction H)}
    (own : ∀ tx ∈ txs, tx.blockHeight = blockNumber) :
    ((txs.foldl addTx s).updateSupernodeStakes blockNumber).CacheCoherent := by
  by_cases cached : blockNumber = s.supernodeStakesUpdateBlockNumber
  · have invalid : ∀ tx ∈ txs, tx.isValid s.supernodeStakesUpdateBlockNumber = false := by
      intro tx mem
      rw [← cached, ← own tx mem]
      exact isValid_own_block tx
    exact (coherent.foldl_addTx invalid).updateSupernodeStakes blockNumber
  · apply cacheCoherent_updateSupernodeStakes_of_ne
    rwa [foldl_addTx_number]

theorem forget_addLastProcessedBlock (index : Nat) (hash : H) :
    (s.addLastProcessedBlock index hash).map forget = s.forget.addLastProcessedBlock index hash := by
  simp only [addLastProcessedBlock, forget, clearSupernodeStakes]
  by_cases gap : index = s.lastProcessedBlockIndex + 1 <;>
    by_cases room : s.lastProcessedBlockHashesCount < blockHashesHistoryDepth <;>
    simp [gap, room, Except.map, forget, clearSupernodeStakes]

theorem CacheCoherent.addLastProcessedBlock (coherent : s.CacheCoherent) {index : Nat} {hash : H}
    {s' : StakeTransactionStorage H} (added : s.addLastProcessedBlock index hash = .ok s') :
    s'.CacheCoherent := by
  unfold StakeTransactionStorage.addLastProcessedBlock at added
  split_ifs at added <;> cases added <;> exact ⟨coherent.consistent, coherent.active_eq⟩

theorem forget_removeLastProcessedBlock :
    s.removeLastProcessedBlock.forget = s.forget.removeLastProcessedBlock := by
  unfold removeLastProcessedBlock forget clearSupernodeStakes
  dsimp only
  split_ifs <;> rfl

@[simp] theorem removeLastProcessedBlock_cache : s.removeLastProcessedBlock.cache = s.cache := by
  unfold removeLastProcessedBlock
  dsimp only
  split_ifs <;> rfl

@[simp] theorem removeLastProcessedBlock_number :
    s.removeLastProcessedBlock.supernodeStakesUpdateBlockNumber =
      s.supernodeStakesUpdateBlockNumber := by
  unfold removeLastProcessedBlock
  dsimp only
  split_ifs <;> rfl

/-- When `remove_last_processed_block` leaves the transaction count as it was, it leaves the
transactions as they were. -/
theorem removeLastProcessedBlock_stakeTxs_of_count
    (same : s.removeLastProcessedBlock.getTxCount = s.getTxCount) :
    s.removeLastProcessedBlock.stakeTxs = s.stakeTxs := by
  unfold getTxCount removeLastProcessedBlock at *
  dsimp only at *
  split_ifs at * with none emptied
  · rfl
  · exact (List.length_eq_zero_iff.mp same.symm).symm
  · exact List.filter_eq_self.mpr (List.length_filter_eq_length_iff.mp same)

/-- The unroll loop of `synchronize` keeps the cache coherent: it clears the cache unless the
removal left the transaction count as it was. -/
theorem CacheCoherent.removeLastProcessedBlock (coherent : s.CacheCoherent)
    (same : s.removeLastProcessedBlock.getTxCount = s.getTxCount) :
    s.removeLastProcessedBlock.CacheCoherent := by
  constructor
  · rw [removeLastProcessedBlock_cache]
    exact coherent.consistent
  · rw [removeLastProcessedBlock_cache, removeLastProcessedBlock_number,
      removeLastProcessedBlock_stakeTxs_of_count same]
    exact coherent.active_eq

end StakeTransactionStorage

/-! ## What `apply_block` reads -/

namespace StakeTransactionStorage

variable {s : StakeTransactionStorage H}

@[simp] theorem updateSupernodeStakes_number (s : StakeTransactionStorage H) (blockNumber : Nat) :
    (s.updateSupernodeStakes blockNumber).supernodeStakesUpdateBlockNumber = blockNumber := by
  unfold StakeTransactionStorage.updateSupernodeStakes
  split
  · next same => exact same.symm
  · rfl

/-- A cache built for the block number answers `find_supernode_stake` without a rebuild. -/
theorem findSupernodeStake_of_updated {blockNumber : Nat}
    (updated : s.supernodeStakesUpdateBlockNumber = blockNumber) (id : String) :
    s.findSupernodeStake blockNumber id = (s.cache.lookup id, s) := by
  simp [findSupernodeStake, updateSupernodeStakes, updated, StakeCache.lookup]

/-- The non-zero stakes of a coherent cache after `update_supernode_stakes(b)` are those of a
rebuild for `b`. -/
theorem CacheCoherent.active_updateSupernodeStakes (coherent : s.CacheCoherent)
    (blockNumber : Nat) :
    (s.updateSupernodeStakes blockNumber).cache.active = (buildStakes s.stakeTxs blockNumber).active := by
  have updated := (coherent.updateSupernodeStakes blockNumber).active_eq
  rwa [updateSupernodeStakes_number, show (s.updateSupernodeStakes blockNumber).stakeTxs = s.stakeTxs by
    unfold StakeTransactionStorage.updateSupernodeStakes; split <;> rfl] at updated

end StakeTransactionStorage

theorem prevSupernodes_of_updated {blockHeight : Nat} (i : Nat) {storage : StakeTransactionStorage H}
    (updated : storage.supernodeStakesUpdateBlockNumber = blockHeight) :
    ∀ prev : List Supernode, prevSupernodes blockHeight i prev storage =
      (prev.filter fun sn => (storage.cache.lookup sn.supernodePublicId).any (SupernodeStake.inTier i),
        storage)
  | [] => rfl
  | sn :: rest => by
    rw [prevSupernodes, StakeTransactionStorage.findSupernodeStake_of_updated updated]
    simp only
    rw [prevSupernodes_of_updated i updated rest, List.filter_cons]

theorem filter_inTier_activeStakes (i : Nat) (stakes : List SupernodeStake) :
    (activeStakes stakes).filter (SupernodeStake.inTier i) = stakes.filter (SupernodeStake.inTier i) := by
  rw [activeStakes, List.filter_filter]
  congr 1
  funext stake
  by_cases zero : stake.amount = 0 <;> simp [SupernodeStake.inTier, zero]

/-- Each supernode has one entry, so among the non-zero stakes its lookup finds that entry
when it is non-zero, and nothing otherwise. -/
theorem find?_activeStakes (id : String) :
    ∀ {stakes : List SupernodeStake}, (stakes.map SupernodeStake.supernodePublicId).Nodup →
      (activeStakes stakes).find? (fun stake => stake.supernodePublicId == id) =
        (stakes.find? fun stake => stake.supernodePublicId == id).filter
          fun stake => stake.amount ≠ 0
  | [], _ => rfl
  | stake :: rest, nodup => by
    rw [List.map_cons, List.nodup_cons] at nodup
    rw [activeStakes, List.filter_cons, List.find?_cons]
    by_cases found : (stake.supernodePublicId == id) = true
    · have absent : (activeStakes rest).find? (fun stake => stake.supernodePublicId == id) = none := by
        rw [List.find?_eq_none]
        intro other mem same
        rw [beq_iff_eq] at found same
        exact nodup.1 (found ▸ same ▸ List.mem_map_of_mem (List.mem_of_mem_filter mem))
      by_cases zero : stake.amount = 0
      · rw [if_neg (by simp [zero]), found]
        exact absent.trans (by simp [Option.filter_some, zero])
      · simp [found, zero, Option.filter_some]
    · have skip : (stake.supernodePublicId == id) = false := by simpa using found
      rw [skip, ← find?_activeStakes id nodup.2]
      split <;> simp [skip, activeStakes]

theorem find?_any_inTier_activeStakes (i : Nat) (id : String) {stakes : List SupernodeStake}
    (nodup : (stakes.map SupernodeStake.supernodePublicId).Nodup) :
    ((stakes.find? fun stake => stake.supernodePublicId == id).any (SupernodeStake.inTier i)) =
      (((activeStakes stakes).find? fun stake => stake.supernodePublicId == id).any
        (SupernodeStake.inTier i)) := by
  rw [find?_activeStakes id nodup]
  cases stakes.find? fun stake => stake.supernodePublicId == id with
  | none => rfl
  | some stake => by_cases zero : stake.amount = 0 <;> simp [SupernodeStake.inTier, zero]

namespace StakeTransactionStorage.CacheCoherent

variable {s : StakeTransactionStorage H}

/-- On its non-zero stakes, `get_supernode_stakes(b)` returns what a rebuild for `b` gives. -/
theorem getSupernodeStakes_active (coherent : s.CacheCoherent) (blockNumber : Nat) :
    activeStakes (s.getSupernodeStakes blockNumber).1 = (buildStakes s.stakeTxs blockNumber).active :=
  coherent.active_updateSupernodeStakes blockNumber

/-- A non-zero stake that `find_supernode_stake(b, id)` returns is the one a rebuild for `b`
gives, and it returns one whenever the rebuild has a non-zero stake. -/
theorem findSupernodeStake_filter (coherent : s.CacheCoherent) (blockNumber : Nat) (id : String) :
    (s.findSupernodeStake blockNumber id).1.filter (fun stake => stake.amount ≠ 0) =
      ((buildStakes s.stakeTxs blockNumber).lookup id).filter fun stake => stake.amount ≠ 0 := by
  have updated := (coherent.updateSupernodeStakes blockNumber).consistent
  have built := consistent_buildStakes s.stakeTxs blockNumber
  change ((s.updateSupernodeStakes blockNumber).cache.lookup id).filter _ = _
  rw [updated.lookup_eq, built.lookup_eq, ← find?_activeStakes id updated.nodup,
    ← find?_activeStakes id built.nodup]
  exact congrArg (List.find? _) (coherent.active_updateSupernodeStakes blockNumber)

end StakeTransactionStorage.CacheCoherent

variable (mt : H → Nat → UInt64)

theorem tierList_activeStakes (blockHash : H) (i : Nat) (prev : List Supernode)
    (stakes : List SupernodeStake) :
    tierList mt blockHash i prev (activeStakes stakes) = tierList mt blockHash i prev stakes := by
  simp only [tierList, filter_inTier_activeStakes]

/-- The tier lists of `apply_block` over a coherent storage: a function of the non-zero stakes
that a rebuild for the block gives, with the storage left updated for the block. -/
theorem buildTiers_getSupernodeStakes {storage : StakeTransactionStorage H}
    (coherent : storage.CacheCoherent) (blockHeight : Nat) (blockHash : H)
    (last : List (List Supernode)) (tiers : List Nat) :
    buildTiers mt blockHeight blockHash last (storage.getSupernodeStakes blockHeight).1 tiers
        (storage.getSupernodeStakes blockHeight).2 =
      (tiers.map fun i => tierList mt blockHash i
          ((last.getD i []).filter fun sn =>
            (((buildStakes storage.stakeTxs blockHeight).active).find? fun stake =>
              stake.supernodePublicId == sn.supernodePublicId).any (SupernodeStake.inTier i))
          (buildStakes storage.stakeTxs blockHeight).active,
        storage.updateSupernodeStakes blockHeight) := by
  have updated := storage.updateSupernodeStakes_number blockHeight
  have cached := coherent.updateSupernodeStakes blockHeight
  have active := coherent.active_updateSupernodeStakes blockHeight
  simp only [StakeTransactionStorage.getSupernodeStakes]
  induction tiers with
  | nil => rfl
  | cons i tiers ih =>
    -- a supernode of the previous list is kept by its entry in the updated cache, which is
    -- found among the non-zero stakes of the rebuild
    have keep : ∀ sn : Supernode,
        ((storage.updateSupernodeStakes blockHeight).cache.lookup sn.supernodePublicId).any
            (SupernodeStake.inTier i) =
          (((buildStakes storage.stakeTxs blockHeight).active).find? fun stake =>
            stake.supernodePublicId == sn.supernodePublicId).any (SupernodeStake.inTier i) := by
      intro sn
      rw [cached.consistent.lookup_eq, find?_any_inTier_activeStakes i _ cached.consistent.nodup]
      exact congrArg (fun stakes => (List.find? _ stakes).any _) active
    rw [buildTiers, prevSupernodes_of_updated i updated]
    simp only
    rw [ih, List.map_cons, List.filter_congr fun sn _ => keep sn, ← tierList_activeStakes]
    exact congrArg (fun stakes => (tierList mt blockHash i _ stakes :: _, _)) active

namespace BlockchainBasedList

/-- `apply_block` reads the stakes only through their non-zero entries: over two storages that
differ only in coherent caches it builds the same list, and it leaves each storage with the
cache updated for the block. -/
theorem applyBlock_agree (bbl : BlockchainBasedList) (blockHeight : Nat) (blockHash : H)
    {s t : StakeTransactionStorage H} (hs : s.CacheCoherent) (ht : t.CacheCoherent)
    (agree : s.forget = t.forget) :
    (bbl.applyBlock mt blockHeight blockHash s).map Prod.fst =
      (bbl.applyBlock mt blockHeight blockHash t).map Prod.fst := by
  have txs : s.forget.stakeTxs = t.forget.stakeTxs := congrArg StakeTransactionStorage.stakeTxs agree
  rw [StakeTransactionStorage.forget_stakeTxs, StakeTransactionStorage.forget_stakeTxs] at txs
  unfold applyBlock
  split
  · rfl
  · split
    · rfl
    · simp only
      rw [buildTiers_getSupernodeStakes mt hs, buildTiers_getSupernodeStakes mt ht, txs]
      rfl

/-- After `apply_block` the storage differs from before only in a cache updated for the block,
which is coherent. -/
theorem applyBlock_storage (bbl : BlockchainBasedList) (blockHeight : Nat) (blockHash : H)
    {s : StakeTransactionStorage H} (coherent : s.CacheCoherent)
    {bbl' : BlockchainBasedList} {s' : StakeTransactionStorage H}
    (applied : bbl.applyBlock mt blockHeight blockHash s = .ok (bbl', s')) :
    s'.forget = s.forget ∧ s'.CacheCoherent := by
  unfold applyBlock at applied
  split at applied
  · cases applied
    exact ⟨rfl, coherent⟩
  · split at applied
    · cases applied
    · simp only [buildTiers_getSupernodeStakes mt coherent, Except.ok.injEq, Prod.mk.injEq] at applied
      rw [← applied.2]
      exact ⟨StakeTransactionStorage.forget_updateSupernodeStakes _,
        coherent.updateSupernodeStakes blockHeight⟩

end BlockchainBasedList

/-! ## The cache can be stale -/

/-- After a query for block 200, `add_tx` of a transaction of supernode `A` at that block, a
second `get_supernode_stakes(200)` returns the empty list and `find_supernode_stake(200, "A")`
finds nothing, while a rebuild over the same transactions lists `A` with a zero stake. -/
theorem stale_supernode_stakes :
    let added := ((StakeTransactionStorage.create 0 : StakeTransactionStorage Nat).getSupernodeStakes
      200).2.addTx ⟨7, 50000 * coin, 200, 100, "A"⟩
    (added.getSupernodeStakes 200).1 = [] ∧ (added.findSupernodeStake 200 "A").1 = none ∧
      (added.clearSupernodeStakes.getSupernodeStakes 200).1 = [⟨0, 0, 0, 0, "A"⟩] ∧
      (added.clearSupernodeStakes.findSupernodeStake 200 "A").1 = some ⟨0, 0, 0, 0, "A"⟩ := by
  decide

end GraftNetwork.Stake

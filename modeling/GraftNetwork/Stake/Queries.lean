import GraftNetwork.Lib.Machine
import GraftNetwork.Lib.Relational
import GraftNetwork.Stake.Cache
import GraftNetwork.Stake.Processor

/-!
# Stake reads do not change what the processor builds

The pool (`tx_memory_pool::validate_supernode`) and the stakes update handler read stakes at
block numbers of their choosing, through `find_supernode_stake` and `get_supernode_stakes`, and
each read rebuilds the stake cache for its number. The reads take `m_storage_lock`, which
`synchronize` holds for its whole run, so they fall between two `synchronize` calls. The cache
they leave can be stale (`stale_supernode_stakes`), but only on entries that `apply_block` does
not read:

* `StakeTransactionStorage.Agree`: two storages that differ only in their stake caches, both
  coherent; every operation of the processor keeps it.
* `related_processBlock`, `related_unrollLoop`, `related_applyLoop` and
  `related_synchronizeStorages`: from agreeing storages and the same list, each part of
  `synchronize` ends alike, with agreeing storages and the same list.
* `synchronize_ignores_stake_queries`: over every sequence of `synchronize` calls and stake
  reads, the list and the storage without its cache are those of the same calls without the
  reads, and each read returns, on its non-zero stakes, what a rebuild gives.
-/

namespace GraftNetwork.Stake

open EStateM

variable {H : Type}

/-! ## Agreeing storages -/

namespace StakeTransactionStorage

/-- Two storages that differ only in their stake caches, which are coherent. -/
structure Agree (s t : StakeTransactionStorage H) : Prop where
  left : s.CacheCoherent
  right : t.CacheCoherent
  forget_eq : s.forget = t.forget

variable {s t : StakeTransactionStorage H}

theorem Agree.refl (coherent : s.CacheCoherent) : s.Agree s := ⟨coherent, coherent, rfl⟩

/-- A read that does not look at the stake cache gives the same in two storages that differ
only there. -/
theorem read_eq_of_forget_eq {α : Type} (read : StakeTransactionStorage H → α)
    (blind : ∀ u, read u.forget = read u) (same : s.forget = t.forget) : read s = read t := by
  rw [← blind s, same, blind t]

/-- Everything the processor reads of a storage, besides the stakes, is the same in agreeing
storages. -/
theorem Agree.reads (agree : s.Agree t) :
    t.lastProcessedBlockIndex = s.lastProcessedBlockIndex ∧
      t.lastProcessedBlockHashesCount = s.lastProcessedBlockHashesCount ∧
      t.hasLastProcessedBlock = s.hasLastProcessedBlock ∧
      t.getLastProcessedBlockHash = s.getLastProcessedBlockHash ∧ t.getTxCount = s.getTxCount :=
  have same := agree.forget_eq.symm
  ⟨read_eq_of_forget_eq _ (fun _ => rfl) same, read_eq_of_forget_eq _ (fun _ => rfl) same,
    read_eq_of_forget_eq _ (fun _ => rfl) same, read_eq_of_forget_eq _ (fun _ => rfl) same,
    read_eq_of_forget_eq _ (fun _ => rfl) same⟩

theorem Agree.updateSupernodeStakes (agree : s.Agree t) (blockNumber : Nat) :
    (s.updateSupernodeStakes blockNumber).Agree t where
  left := agree.left.updateSupernodeStakes blockNumber
  right := agree.right
  forget_eq := by rw [forget_updateSupernodeStakes, agree.forget_eq]

theorem Agree.updateSupernodeStakes_foldl_addTx (agree : s.Agree t) {blockNumber : Nat}
    {txs : List (StakeTransaction H)} (own : ∀ tx ∈ txs, tx.blockHeight = blockNumber) :
    ((txs.foldl addTx s).updateSupernodeStakes blockNumber).Agree
      ((txs.foldl addTx t).updateSupernodeStakes blockNumber) where
  left := agree.left.updateSupernodeStakes_foldl_addTx own
  right := agree.right.updateSupernodeStakes_foldl_addTx own
  forget_eq := by
    rw [forget_updateSupernodeStakes, forget_updateSupernodeStakes, forget_foldl_addTx,
      forget_foldl_addTx, agree.forget_eq]

theorem Agree.addLastProcessedBlock (agree : s.Agree t) (index : Nat) (hash : H) :
    Except.Related Agree (s.addLastProcessedBlock index hash) (t.addLastProcessedBlock index hash) := by
  have same : (s.addLastProcessedBlock index hash).map forget =
      (t.addLastProcessedBlock index hash).map forget := by
    rw [forget_addLastProcessedBlock, forget_addLastProcessedBlock, agree.forget_eq]
  obtain ⟨e, hs, ht⟩ | ⟨s', t', hs, ht, forgotten⟩ := (Except.related_of_map_eq same).cases
  · rw [hs, ht]
    rfl
  · rw [hs, ht]
    exact ⟨agree.left.addLastProcessedBlock hs, agree.right.addLastProcessedBlock ht, forgotten⟩

/-- A round of the unroll loop: remove the last processed block, and clear the stakes when
transactions went with it. -/
theorem Agree.removeLastProcessedBlock (agree : s.Agree t) :
    (if s.getTxCount ≠ s.removeLastProcessedBlock.getTxCount then
        s.removeLastProcessedBlock.clearSupernodeStakes
      else s.removeLastProcessedBlock).Agree
      (if t.getTxCount ≠ t.removeLastProcessedBlock.getTxCount then
        t.removeLastProcessedBlock.clearSupernodeStakes
      else t.removeLastProcessedBlock) := by
  have removed : s.removeLastProcessedBlock.forget = t.removeLastProcessedBlock.forget := by
    rw [forget_removeLastProcessedBlock, forget_removeLastProcessedBlock, agree.forget_eq]
  have count : t.removeLastProcessedBlock.getTxCount = s.removeLastProcessedBlock.getTxCount :=
    read_eq_of_forget_eq getTxCount (fun _ => rfl) removed.symm
  rw [agree.reads.2.2.2.2, count]
  split
  · exact ⟨cacheCoherent_clear _, cacheCoherent_clear _, removed⟩
  · next kept =>
    have same : s.removeLastProcessedBlock.getTxCount = s.getTxCount := (not_not.mp kept).symm
    refine ⟨agree.left.removeLastProcessedBlock same, agree.right.removeLastProcessedBlock ?_, removed⟩
    rw [count, same, agree.reads.2.2.2.2]

end StakeTransactionStorage

namespace BlockchainBasedList

variable (mt : H → Nat → UInt64) {s t : StakeTransactionStorage H}

theorem applyBlock_related (bbl : BlockchainBasedList) (blockHeight : Nat) (blockHash : H)
    (agree : s.Agree t) :
    Except.Related (fun applied applied' => applied.1 = applied'.1 ∧ applied.2.Agree applied'.2)
      (bbl.applyBlock mt blockHeight blockHash s) (bbl.applyBlock mt blockHeight blockHash t) := by
  have lists := Except.related_of_map_eq
    (applyBlock_agree mt bbl blockHeight blockHash agree.left agree.right agree.forget_eq)
  obtain ⟨e, hs, ht⟩ | ⟨⟨bbl₁, s'⟩, ⟨bbl₂, t'⟩, hs, ht, same⟩ := lists.cases
  · rw [hs, ht]
    rfl
  · obtain ⟨forget_s, coherent_s⟩ := applyBlock_storage mt bbl blockHeight blockHash agree.left hs
    obtain ⟨forget_t, coherent_t⟩ := applyBlock_storage mt bbl blockHeight blockHash agree.right ht
    rw [hs, ht]
    exact ⟨same, coherent_s, coherent_t, by rw [forget_s, forget_t, agree.forget_eq]⟩

end BlockchainBasedList

/-- Two states of `synchronize` with agreeing storages and the same list. -/
def Storages.Agree (p q : Storages H) : Prop := p.1.Agree q.1 ∧ p.2 = q.2

/-! ## The parts of `synchronize` -/

section Synchronize

variable (view : Blockchain H) (mt : H → Nat → UInt64)

theorem stakeTransactionOf_blockHeight {blockIndex : Nat} {tx : Transaction H}
    {stakeTx : StakeTransaction H} (found : stakeTransactionOf view blockIndex tx = some stakeTx) :
    stakeTx.blockHeight = blockIndex := by
  unfold stakeTransactionOf at found
  split at found
  · cases found
  · dsimp only at found
    split_ifs at found <;> cases found <;> rfl

/-- The end of `process_block_stake_transaction`, from agreeing storages. -/
theorem related_addLastProcessedBlock (blockIndex : Nat) (blockHash : H) (bbl : BlockchainBasedList)
    {s t : StakeTransactionStorage H} (agree : s.Agree t) :
    Related Storages.Agree Eq
      (match s.addLastProcessedBlock blockIndex blockHash with
        | .error e => do
          set (s, bbl)
          throw e
        | .ok storage => set (storage, bbl) : EStateM String (Storages H) Unit)
      (match t.addLastProcessedBlock blockIndex blockHash with
        | .error e => do
          set (t, bbl)
          throw e
        | .ok storage => set (storage, bbl)) := by
  obtain ⟨e, hs, ht⟩ | ⟨s', t', hs, ht, agree'⟩ := (agree.addLastProcessedBlock blockIndex blockHash).cases
  · simp only [hs, ht]
    exact (related_set ⟨agree, rfl⟩).bind fun _ _ _ => related_throw e
  · simp only [hs, ht]
    exact related_set ⟨agree', rfl⟩

theorem related_processBlockStakeTransaction (blockIndex : Nat) (block : Block H) (blockHash : H) :
    Related Storages.Agree Eq (processBlockStakeTransaction view blockIndex block blockHash)
      (processBlockStakeTransaction view blockIndex block blockHash) := by
  unfold processBlockStakeTransaction
  refine related_get.bind ?_
  rintro ⟨s, bbl⟩ ⟨t, _⟩ ⟨agree, rfl⟩
  dsimp only at agree ⊢
  rw [agree.reads.1]
  split
  · exact related_pure rfl
  split
  · split
    · exact related_pure rfl
    · next txs _ =>
      have own : ∀ tx ∈ txs.filterMap (stakeTransactionOf view blockIndex),
          tx.blockHeight = blockIndex := by
        intro tx mem
        obtain ⟨_, _, found⟩ := List.mem_filterMap.mp mem
        exact stakeTransactionOf_blockHeight view found
      exact (related_pure (agree.updateSupernodeStakes_foldl_addTx own)).bind
        fun _ _ agree' => related_addLastProcessedBlock blockIndex blockHash bbl agree'
  · exact (related_pure agree).bind
      fun _ _ agree' => related_addLastProcessedBlock blockIndex blockHash bbl agree'

theorem related_processBlockBlockchainBasedList (blockIndex : Nat) (blockHash : H) :
    Related Storages.Agree Eq (processBlockBlockchainBasedList mt blockIndex blockHash)
      (processBlockBlockchainBasedList mt blockIndex blockHash) := by
  unfold processBlockBlockchainBasedList
  refine related_get.bind ?_
  rintro ⟨s, bbl⟩ ⟨t, _⟩ ⟨agree, rfl⟩
  dsimp only at agree ⊢
  obtain ⟨e, hs, ht⟩ | ⟨⟨bbl₁, s'⟩, ⟨bbl₂, t'⟩, hs, ht, rfl, agree'⟩ :=
    (BlockchainBasedList.applyBlock_related mt bbl blockIndex blockHash agree).cases
  · simp only [hs, ht]
    exact related_throw e
  · simp only [hs, ht]
    exact related_set ⟨agree', rfl⟩

theorem related_processBlock (blockIndex : Nat) (block : Block H) (blockHash : H) :
    Related Storages.Agree Eq (processBlock view mt blockIndex block blockHash)
      (processBlock view mt blockIndex block blockHash) :=
  (related_processBlockStakeTransaction view blockIndex block blockHash).bind
    fun _ _ _ => related_processBlockBlockchainBasedList mt blockIndex blockHash

theorem related_applyLoop :
    ∀ fuel lastBlockIndex, Related Storages.Agree Eq (applyLoop view mt fuel lastBlockIndex)
      (applyLoop view mt fuel lastBlockIndex)
  | 0, _ => related_pure rfl
  | fuel + 1, lastBlockIndex => by
    rw [applyLoop]
    split
    · exact related_throw _
    · exact (related_processBlock view mt _ _ _).bind
        fun _ _ _ => related_applyLoop fuel (lastBlockIndex + 1)

variable [DecidableEq H]

theorem related_unrollLoop :
    ∀ fuel, Related Storages.Agree Eq (unrollLoop view fuel) (unrollLoop view fuel)
  | 0 => related_pure rfl
  | fuel + 1 => by
    rw [unrollLoop]
    refine related_get.bind ?_
    rintro ⟨s, bbl⟩ ⟨t, _⟩ ⟨agree, rfl⟩
    dsimp only at agree ⊢
    obtain ⟨index, -, has, hash, -⟩ := agree.reads
    rw [index, has, hash]
    -- the removal that ends each branch but the first two
    set s' := if s.getTxCount ≠ s.removeLastProcessedBlock.getTxCount then
      s.removeLastProcessedBlock.clearSupernodeStakes else s.removeLastProcessedBlock
    set t' := if t.getTxCount ≠ t.removeLastProcessedBlock.getTxCount then
      t.removeLastProcessedBlock.clearSupernodeStakes else t.removeLastProcessedBlock
    set bbl' := if bbl.blockHeight = s.lastProcessedBlockIndex then bbl.removeLatestBlock else bbl
    have removal : Related Storages.Agree Eq
        (do set (s', bbl'); unrollLoop view fuel : EStateM String (Storages H) Unit)
        (do set (t', bbl'); unrollLoop view fuel) :=
      (related_set ⟨agree.removeLastProcessedBlock, rfl⟩).bind fun _ _ _ => related_unrollLoop fuel
    split
    · exact related_pure rfl
    split
    · split
      · exact related_throw_bind _ _ _
      · refine (related_pure rfl).bind ?_
        rintro hash _ rfl
        split
        · exact related_pure rfl
        · exact removal
    · exact removal

theorem related_synchronizeStorages :
    Related Storages.Agree Eq (synchronizeStorages view mt) (synchronizeStorages view mt) := by
  unfold synchronizeStorages
  refine related_get.bind ?_
  rintro ⟨s, bbl⟩ ⟨t, _⟩ ⟨agree, rfl⟩
  dsimp only at agree ⊢
  rw [agree.reads.2.1]
  refine (related_unrollLoop view _).bind fun _ _ _ => related_get.bind ?_
  rintro ⟨s, bbl⟩ ⟨t, _⟩ ⟨agree, rfl⟩
  dsimp only at agree ⊢
  rw [agree.reads.1]
  exact (related_applyLoop view mt _ _).bind fun _ _ _ => related_pure rfl

end Synchronize

/-! ## Runs of the processor -/

namespace StakeTransactionProcessor

/-- Two processors with the same list and agreeing storages. -/
structure Agree (p q : StakeTransactionProcessor H) : Prop where
  enabled_eq : p.enabled = q.enabled
  list_eq : p.blockchainBasedList = q.blockchainBasedList
  storage_agree : Option.Rel StakeTransactionStorage.Agree p.storage q.storage

theorem agree_create : (create : StakeTransactionProcessor H).Agree create := ⟨rfl, rfl, .none⟩

variable {p q : StakeTransactionProcessor H}

theorem Agree.forget_eq (agree : p.Agree q) :
    p.storage.map StakeTransactionStorage.forget = q.storage.map StakeTransactionStorage.forget := by
  obtain ⟨storage, list, enabled⟩ := p
  obtain ⟨storage', list', enabled'⟩ := q
  obtain ⟨-, -, storages⟩ := agree
  cases storages with
  | none => rfl
  | some storages => exact congrArg some storages.forget_eq

theorem Agree.coherent (agree : p.Agree q) : ∀ storage ∈ p.storage, storage.CacheCoherent := by
  obtain ⟨storage, list, enabled⟩ := p
  obtain ⟨storage', list', enabled'⟩ := q
  obtain ⟨-, -, storages⟩ := agree
  intro stored mem
  cases storages with
  | none => cases mem
  | some storages =>
    cases mem
    exact storages.left

/-- A stake read keeps the storage agreeing with the one of a run without it. -/
theorem Agree.findSupernodeStake (agree : p.Agree q) (blockNumber : Nat)
    (supernodePublicId : String) : (p.findSupernodeStake blockNumber supernodePublicId).2.Agree q := by
  obtain ⟨storage, list, enabled⟩ := p
  obtain ⟨storage', list', enabled'⟩ := q
  obtain ⟨enabled_eq, list_eq, storages⟩ := agree
  cases storages with
  | none => exact ⟨enabled_eq, list_eq, .none⟩
  | some agree => exact ⟨enabled_eq, list_eq, .some (agree.updateSupernodeStakes blockNumber)⟩

theorem Agree.invokeUpdateStakesHandlerImpl (agree : p.Agree q) (blockIndex : Nat) :
    (p.invokeUpdateStakesHandlerImpl blockIndex).2.Agree q := by
  obtain ⟨storage, list, enabled⟩ := p
  obtain ⟨storage', list', enabled'⟩ := q
  obtain ⟨enabled_eq, list_eq, storages⟩ := agree
  cases storages with
  | none => exact ⟨enabled_eq, list_eq, .none⟩
  | some agree => exact ⟨enabled_eq, list_eq, .some (agree.updateSupernodeStakes blockIndex)⟩

variable [DecidableEq H] (view : Blockchain H) (mt : H → Nat → UInt64)

/-- `synchronize` from two agreeing processors: the storages it starts from agree, since they
are either the processors' own or both fresh, and so do those it ends with. -/
theorem Agree.synchronize (agree : p.Agree q) :
    (synchronize view mt p).Agree (synchronize view mt q) := by
  obtain ⟨storage, list, enabled⟩ := p
  obtain ⟨storage', list', enabled'⟩ := q
  obtain ⟨enabled_eq, list_eq, storages⟩ := agree
  dsimp only at enabled_eq list_eq storages
  subst enabled_eq list_eq
  have ends : ∀ {start start' : Storages H}, Storages.Agree start start' →
      Storages.Agree ((synchronizeStorages view mt).run start).state
        ((synchronizeStorages view mt).run start').state :=
    fun related => (related_synchronizeStorages view mt).run related
  have fresh : Storages.Agree (initStoragesImpl view enabled) (initStoragesImpl view enabled) :=
    ⟨.refl (StakeTransactionStorage.cacheCoherent_create _), rfl⟩
  unfold Stake.synchronize
  split
  · exact ⟨rfl, rfl, storages⟩
  · cases storages with
    | none => exact ⟨rfl, congrArg some (ends fresh).2, .some (ends fresh).1⟩
    | some agree =>
      cases list with
      | none => exact ⟨rfl, congrArg some (ends fresh).2, .some (ends fresh).1⟩
      | some bbl =>
        have started : Storages.Agree (_, bbl) (_, bbl) := ⟨agree, rfl⟩
        exact ⟨rfl, congrArg some (ends started).2, .some (ends started).1⟩

end StakeTransactionProcessor

/-- What the processor is asked to do: a `synchronize` call over the chain as it then is, or a
stake read of the pool or of the stakes update handler. -/
inductive ProcessorAction (H : Type)
  | synchronize (view : Blockchain H)
  | findSupernodeStake (blockNumber : Nat) (supernodePublicId : String)
  | invokeUpdateStakesHandler (blockIndex : Nat)

namespace ProcessorAction

variable [DecidableEq H] (mt : H → Nat → UInt64)

/-- The processor after an action. -/
def step : ProcessorAction H → StakeTransactionProcessor H → StakeTransactionProcessor H
  | .synchronize view, p => Stake.synchronize view mt p
  | .findSupernodeStake blockNumber supernodePublicId, p =>
    (p.findSupernodeStake blockNumber supernodePublicId).2
  | .invokeUpdateStakesHandler blockIndex, p => (p.invokeUpdateStakesHandlerImpl blockIndex).2

/-- Whether the action is a `synchronize` call. -/
def isSynchronize : ProcessorAction H → Bool
  | .synchronize _ => true
  | _ => false

end ProcessorAction

/-- Stake reads, interleaved in any way between `synchronize` calls, leave the list and the
storage, apart from its stake cache, as the same calls without them leave them; and every read
returns, on its non-zero stakes, what a rebuild of the stakes from the recorded transactions
gives. -/
theorem synchronize_ignores_stake_queries [DecidableEq H] (mt : H → Nat → UInt64)
    (actions : List (ProcessorAction H)) :
    let withReads := Machine.run (ProcessorAction.step mt) StakeTransactionProcessor.create actions
    let withoutReads := Machine.run (ProcessorAction.step mt) StakeTransactionProcessor.create
      (actions.filter ProcessorAction.isSynchronize)
    withReads.blockchainBasedList = withoutReads.blockchainBasedList ∧
      withReads.storage.map StakeTransactionStorage.forget =
        withoutReads.storage.map StakeTransactionStorage.forget ∧
      ∀ storage ∈ withReads.storage, ∀ blockNumber supernodePublicId,
        activeStakes (storage.getSupernodeStakes blockNumber).1 =
            (buildStakes storage.stakeTxs blockNumber).active ∧
          (storage.findSupernodeStake blockNumber supernodePublicId).1.filter
              (fun stake => stake.amount ≠ 0) =
            ((buildStakes storage.stakeTxs blockNumber).lookup supernodePublicId).filter
              fun stake => stake.amount ≠ 0 := by
  intro withReads withoutReads
  have agree : withReads.Agree withoutReads := by
    refine Machine.run_filter_simulation _ ?_ ?_ actions StakeTransactionProcessor.agree_create
    · rintro (view | _ | _) p q kept related
      · exact related.synchronize view mt
      all_goals cases kept
    · rintro (_ | blockNumber | blockIndex) p q dropped related
      · cases dropped
      · exact related.findSupernodeStake blockNumber _
      · exact related.invokeUpdateStakesHandlerImpl blockIndex
  refine ⟨agree.list_eq, agree.forget_eq, fun storage stored blockNumber supernodePublicId => ?_⟩
  have coherent := agree.coherent storage stored
  exact ⟨coherent.getSupernodeStakes_active blockNumber,
    coherent.findSupernodeStake_filter blockNumber supernodePublicId⟩

end GraftNetwork.Stake

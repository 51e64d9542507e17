import GraftNetwork.Lib.EStateM
import GraftNetwork.Stake.BlockchainBasedList

/-!
# The stake transaction processor

A model of `StakeTransactionProcessor` (`src/cryptonote_core/stake_transaction_processor.cpp`):
`synchronize` unrolls processed blocks that left the chain, then runs `process_block` over the
blocks after the last processed one, which records the block's stake transactions in the
storage and applies the block to the blockchain-based list.

* `Blockchain`: what the processor reads of the chain at one call. The results of the
  cryptographic checks on a transaction are data of `Transaction`.
* `processBlockStakeTransaction`, `processBlockBlockchainBasedList`, `processBlock`,
  `unrollLoop`, `applyLoop`, `synchronize`: the source functions, in `EStateM`, whose state at
  an exception is the state that the code leaves when it throws.
* `findSupernodeStake` and `invokeUpdateStakesHandlerImpl`: the stake reads of the pool and of
  the stakes update handler.

`Blockchain::get_block_id_by_height` returns the null hash for a missing height instead of
throwing `BLOCK_DNE`, and `get_block_by_hash` returns `false`, so the two `catch (BLOCK_DNE&)`
handlers of `synchronize` are never entered: a missing block ends the call through the
`runtime_error` of the apply loop. The calls of the update handlers at the end of
`synchronize` and `store` are left out of `synchronize`: they do not change the storage or the
list, except for the `get_supernode_stakes` of `invokeUpdateStakesHandlerImpl`, which is a stake
read like those of the pool.
-/

namespace GraftNetwork.Stake

variable {H : Type}

/-- What `process_block_stake_transaction` reads of a transaction. `stakeExtra` is the
supernode public identifier when `get_graft_stake_tx_extra_from_extra` finds the stake fields,
the identifier is a valid key and the supernode signature over the address and identifier
checks; `amount` is what `get_transaction_amount` decodes for the stake address and key. -/
structure Transaction (H : Type) where
  prefixHash : H
  unlockTime : Nat
  stakeExtra : Option String
  amount : Nat
deriving DecidableEq, Repr

/-- The transaction hashes of a `cryptonote::block`. -/
structure Block (H : Type) where
  txHashes : List H
deriving DecidableEq, Repr

/-- What the processor reads of `Blockchain` during one `synchronize` call: the height, the
hard-fork versions (`get_hard_fork_version(h)`, `get_current_hard_fork_version()` and
`get_earliest_ideal_height_for_version`), block ids by height, blocks by id (`none` when
`get_block_by_hash` returns `false`) and `get_transactions` (`none` when it returns `false`;
missed transactions are only logged, so the list holds the found ones). -/
structure Blockchain (H : Type) where
  height : Nat
  hardForkVersion : Nat → UInt8
  currentHardForkVersion : UInt8
  earliestIdealHeightForVersion : UInt8 → Nat
  blockIdByHeight : Nat → H
  blockByHash : H → Option (Block H)
  getTransactions : List H → Option (List (Transaction H))

/-- `StakeTransactionProcessor`: the storages, created at the first `synchronize` that needs
them, and `m_enabled`. -/
structure StakeTransactionProcessor (H : Type) where
  storage : Option (StakeTransactionStorage H)
  blockchainBasedList : Option BlockchainBasedList
  enabled : Bool

namespace StakeTransactionProcessor

/-- The processor after its constructor and `init_storages`: no storages yet. -/
def create : StakeTransactionProcessor H := ⟨none, none, true⟩

/-- `find_supernode_stake(block_number, supernode_public_id)`, which the pool calls from
`validate_supernode`: `nullptr` before the storages exist. -/
def findSupernodeStake (p : StakeTransactionProcessor H) (blockNumber : Nat)
    (supernodePublicId : String) : Option SupernodeStake × StakeTransactionProcessor H :=
  match p.storage with
  | none => (none, p)
  | some storage =>
    let found := storage.findSupernodeStake blockNumber supernodePublicId
    (found.1, { p with storage := some found.2 })

/-- `invoke_update_stakes_handler_impl(block_index)`: the stakes that it passes to the handler,
read with `get_supernode_stakes`, and nothing before the storages exist. -/
def invokeUpdateStakesHandlerImpl (p : StakeTransactionProcessor H) (blockIndex : Nat) :
    Option (List SupernodeStake) × StakeTransactionProcessor H :=
  match p.storage with
  | none => (none, p)
  | some storage =>
    let stakes := storage.getSupernodeStakes blockIndex
    (some stakes.1, { p with storage := some stakes.2 })

end StakeTransactionProcessor

/-- `SYNC` limit `MAX_ITERATIONS_COUNT` of `synchronize`. -/
def maxIterationsCount : Nat := 10000

/-- The state that `synchronize` works on once the storages exist. -/
abbrev Storages (H : Type) := StakeTransactionStorage H × BlockchainBasedList

variable (view : Blockchain H)

/-- The checks of the loop of `process_block_stake_transaction` on one transaction of block
`blockIndex`, and the stake transaction it records when they pass. The unlock time bound
depends on the current hard-fork version, not on the block's. -/
def stakeTransactionOf (blockIndex : Nat) (tx : Transaction H) : Option (StakeTransaction H) :=
  match tx.stakeExtra with
  | none => none
  | some supernodePublicId =>
    let unlockTime := sub64 tx.unlockTime blockIndex
    let currentStakeMaxUnlockTime :=
      if view.currentHardForkVersion < 16 then stakeMaxUnlockTimeV15 else stakeMaxUnlockTime
    if unlockTime < stakeMinUnlockTime then none
    else if currentStakeMaxUnlockTime < unlockTime then none
    else if tx.amount = 0 then none
    else some ⟨tx.prefixHash, tx.amount, blockIndex, unlockTime, supernodePublicId⟩

/-- `init_storages_impl`: storages whose first block is the one before the earliest ideal
height of the stake processing version. -/
def initStoragesImpl (enabled : Bool) : Storages H :=
  let firstBlockNumber :=
    if enabled then view.earliestIdealHeightForVersion stakeTransactionProcessingDbVersion
    else 2 ^ 64 - 1
  let firstBlockNumber := if firstBlockNumber ≠ 0 then firstBlockNumber - 1 else firstBlockNumber
  (StakeTransactionStorage.create firstBlockNumber, BlockchainBasedList.create firstBlockNumber)

/-- `process_block_stake_transaction(block_index, block, block_hash)`. A block at or below the
last processed one is ignored. From the stake processing version on, the block's stake
transactions are added and the stakes rebuilt; a failed `get_transactions` returns early,
without recording the block. `add_last_processed_block` then records it, or throws. -/
def processBlockStakeTransaction (blockIndex : Nat) (block : Block H) (blockHash : H) :
    EStateM String (Storages H) Unit := do
  let (storage, bbl) ← get
  if blockIndex ≤ storage.lastProcessedBlockIndex then return
  let storage ←
    if stakeTransactionProcessingDbVersion ≤ view.hardForkVersion blockIndex then
      match view.getTransactions block.txHashes with
      | none => return
      | some txs =>
        let added := (txs.filterMap (stakeTransactionOf view blockIndex)).foldl
          StakeTransactionStorage.addTx storage
        pure (added.updateSupernodeStakes blockIndex)
    else pure storage
  match storage.addLastProcessedBlock blockIndex blockHash with
  | .error e =>
    set (storage, bbl)
    throw e
  | .ok storage => set (storage, bbl)

variable (mt : H → Nat → UInt64)

/-- `process_block_blockchain_based_list(block_index, block, block_hash)`. -/
def processBlockBlockchainBasedList (blockIndex : Nat) (blockHash : H) :
    EStateM String (Storages H) Unit := do
  let (storage, bbl) ← get
  match bbl.applyBlock mt blockIndex blockHash storage with
  | .error e => throw e
  | .ok (bbl, storage) => set (storage, bbl)

/-- `process_block(block_index, block, block_hash)`. -/
def processBlock (blockIndex : Nat) (block : Block H) (blockHash : H) :
    EStateM String (Storages H) Unit := do
  processBlockStakeTransaction view blockIndex block blockHash
  processBlockBlockchainBasedList mt blockIndex blockHash

variable [DecidableEq H]

/-- The unroll loop of `synchronize`: while a processed block is recorded and it is not the
chain's block at its height (or is above the chain), remove it from the storage, clear the
stakes when transactions went with it, and remove it from the list when the list is at the
same height. Every round lowers the hash count by one, which bounds the loop. -/
def unrollLoop : Nat → EStateM String (Storages H) Unit
  | 0 => pure ()
  | fuel + 1 => do
    let (storage, bbl) ← get
    if !storage.hasLastProcessedBlock then return
    let stakeTxCount := storage.getTxCount
    let lastProcessedBlockIndex := storage.lastProcessedBlockIndex
    if lastProcessedBlockIndex < view.height then
      let lastProcessedBlockHash ← match storage.getLastProcessedBlockHash with
        | .error e => throw e
        | .ok hash => pure hash
      if lastProcessedBlockHash = view.blockIdByHeight lastProcessedBlockIndex then return
    let removed := storage.removeLastProcessedBlock
    let removed := if stakeTxCount ≠ removed.getTxCount then removed.clearSupernodeStakes else removed
    let bbl := if bbl.blockHeight = lastProcessedBlockIndex then bbl.removeLatestBlock else bbl
    set (removed, bbl)
    unrollLoop fuel

/-- The apply loop of `synchronize` over `fuel` blocks from `lastBlockIndex`: fetch each block
by its id and process it. It returns the index it stopped at. -/
def applyLoop : Nat → Nat → EStateM String (Storages H) Nat
  | 0, lastBlockIndex => pure lastBlockIndex
  | fuel + 1, lastBlockIndex => do
    let blockHash := view.blockIdByHeight lastBlockIndex
    match view.blockByHash blockHash with
    | none => throw "Error at parsing blockchain. Block hash has not been found"
    | some block =>
      processBlock view mt lastBlockIndex block blockHash
      applyLoop fuel (lastBlockIndex + 1)

/-- The body of the `try` block of `synchronize`, on existing storages. -/
def synchronizeStorages : EStateM String (Storages H) Unit := do
  let (storage, _) ← get
  unrollLoop view storage.lastProcessedBlockHashesCount
  let (storage, bbl) ← get
  let firstBlockIndex := min (storage.lastProcessedBlockIndex + 1) (bbl.blockHeight + 1)
  let lastBlockIndexForSync :=
    if maxIterationsCount < sub64 view.height firstBlockIndex then firstBlockIndex + maxIterationsCount
    else view.height
  let _ ← applyLoop view mt (lastBlockIndexForSync - firstBlockIndex) firstBlockIndex

/-- `synchronize()`: nothing before the stake processing version is at the top; otherwise the
storages are created if needed and `synchronizeStorages` runs, an exception ending it with the
state it leaves. -/
def synchronize (p : StakeTransactionProcessor H) : StakeTransactionProcessor H :=
  if view.height = 0 ∨ view.hardForkVersion (view.height - 1) < stakeTransactionProcessingDbVersion
  then p
  else
    let storages : Storages H :=
      match p.storage, p.blockchainBasedList with
      | some storage, some bbl => (storage, bbl)
      | _, _ => initStoragesImpl view p.enabled
    -- the `catch` of `synchronize` only logs: the storages stay as the exception left them
    let left := ((synchronizeStorages view mt).run storages).state
    { p with storage := some left.1, blockchainBasedList := some left.2 }

end GraftNetwork.Stake

namespace GraftNetwork.Stake

/-! ## Two runs at fixed inputs

The generator of the list does not reach the storage; both runs draw zeros. -/

/-- A chain of four blocks at version 15 whose block 2 holds a stake transaction of
supernode `A`, and whose `get_transactions` fails for the transactions of block 1. -/
def failingTransactionsView : Blockchain Nat where
  height := 4
  hardForkVersion := fun _ => 15
  currentHardForkVersion := 15
  earliestIdealHeightForVersion := fun _ => 1
  blockIdByHeight := fun h => h + 100
  blockByHash := fun id => some ⟨[id]⟩
  getTransactions := fun txHashes =>
    if txHashes = [101] then none
    else if txHashes = [102] then some [⟨7, 102, some "A", 50000 * coin⟩]
    else some []

/-- The same chain once `get_transactions` works again. -/
def recoveredTransactionsView : Blockchain Nat :=
  { failingTransactionsView with
    getTransactions := fun txHashes =>
      if txHashes = [102] then some [⟨7, 102, some "A", 50000 * coin⟩] else some [] }

/-- The first `synchronize` skips block 1, whose transactions it cannot read, without
recording it, applies it to the list, and then adds the stake transaction of block 2 before
`add_last_processed_block(2)` throws on the gap. The second one processes block 1 and then
block 2 again, which adds the same transaction a second time. -/
theorem synchronize_duplicates_stake_after_failed_get_transactions :
    ((synchronize failingTransactionsView (fun _ _ => 0)
        StakeTransactionProcessor.create).storage.map fun storage =>
          (storage.stakeTxs, storage.lastProcessedBlockIndex)) =
      some ([⟨7, 50000 * coin, 2, 100, "A"⟩], 0) ∧
    ((synchronize recoveredTransactionsView (fun _ _ => 0)
        (synchronize failingTransactionsView (fun _ _ => 0)
          StakeTransactionProcessor.create)).storage.map fun storage =>
            (storage.stakeTxs, storage.lastProcessedBlockIndex)) =
      some ([⟨7, 50000 * coin, 2, 100, "A"⟩, ⟨7, 50000 * coin, 2, 100, "A"⟩], 3) := by
  decide

/-- A chain of three blocks at version 15; block 1 holds a stake transaction of supernode `A`
locked for 10000 blocks. -/
def versionFifteenView : Blockchain Nat where
  height := 3
  hardForkVersion := fun _ => 15
  currentHardForkVersion := 15
  earliestIdealHeightForVersion := fun _ => 1
  blockIdByHeight := fun h => h + 100
  blockByHash := fun id => some ⟨[id]⟩
  getTransactions := fun txHashes =>
    if txHashes = [101] then some [⟨7, 10001, some "A", 50000 * coin⟩] else some []

/-- The same chain grown by a block of version 16. -/
def versionSixteenView : Blockchain Nat :=
  { versionFifteenView with
    height := 4
    hardForkVersion := fun h => if h < 3 then 15 else 16
    currentHardForkVersion := 16 }

/-- A processor that followed the chain rejects the stake of block 1, whose unlock time is
above `STAKE_MAX_UNLOCK_TIME_V15` while the chain is at version 15; a processor that starts on
the grown chain accepts it, since the bound is read from the current version. Both end at the
tip with the same processed blocks. -/
theorem synchronize_stake_depends_on_current_version :
    ((synchronize versionSixteenView (fun _ _ => 0)
        (synchronize versionFifteenView (fun _ _ => 0)
          StakeTransactionProcessor.create)).storage.map fun storage =>
            (storage.stakeTxs, storage.lastProcessedBlockIndex, storage.lastProcessedBlockHashes)) =
      some ([], 3, [101, 102, 103]) ∧
    ((synchronize versionSixteenView (fun _ _ => 0)
        StakeTransactionProcessor.create).storage.map fun storage =>
          (storage.stakeTxs, storage.lastProcessedBlockIndex, storage.lastProcessedBlockHashes)) =
      some ([⟨7, 50000 * coin, 1, 10000, "A"⟩], 3, [101, 102, 103]) := by
  decide

end GraftNetwork.Stake

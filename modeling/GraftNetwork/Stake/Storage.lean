import Mathlib.Logic.Function.Basic
import Mathlib.Data.List.Basic
import Mathlib.Algebra.Group.Nat.Defs

/-!
# The stake transaction storage

A model of `StakeTransactionStorage` (`src/cryptonote_core/stake_transaction_storage.{h,cpp}`)
and of the constants of `graft_rta_config.h` that it reads.

* `StakeTransaction` and `SupernodeStake`: the fields of `stake_transaction` and
  `supernode_stake` that the storage, the blockchain-based list and the processor read.
* `StakeTransactionStorage`: the processed-block window (`m_last_processed_block_index`, the
  hash list and its count), the stake transactions and the stake cache of
  `update_supernode_stakes`, which is keyed by the block number alone.
* `buildStakes`: the loop of `update_supernode_stakes` over `m_stake_txs`, one `stakeStep`
  per transaction, building the stake list and the index map together.

Block heights and amounts are natural numbers, read as `uint64_t` values. The `uint64_t` sums and
differences of `update_supernode_stakes` are taken modulo `2 ^ 64` (`add64`, `sub64`): the sum
of a supernode's amounts, the bounds of validity and their differences, and
`block_number - SUPERNODE_HISTORY_SIZE`. The two sums of `stake_transaction::is_valid` are
added in `Nat`; they are its `uint64_t` sums for every transaction with `HeightsFit`, which
holds of every transaction that the processor records below height `2 ^ 64 - 23046`, as it
bounds the unlock time by `STAKE_MAX_UNLOCK_TIME`. The file name, `load`, `store` and
`m_need_store` are left out: no modelled function reads them.
-/

namespace GraftNetwork.Stake

/-- `config::graft::STAKE_TRANSACTION_PROCESSING_DB_VERSION`. -/
def stakeTransactionProcessingDbVersion : UInt8 := 13

/-- `config::graft::STAKE_MIN_UNLOCK_TIME`. -/
def stakeMinUnlockTime : Nat := 10

/-- `config::graft::STAKE_MAX_UNLOCK_TIME_V15`. -/
def stakeMaxUnlockTimeV15 : Nat := 5000

/-- `config::graft::STAKE_MAX_UNLOCK_TIME`. -/
def stakeMaxUnlockTime : Nat := 23040

/-- `config::graft::STAKE_VALIDATION_PERIOD`. -/
def stakeValidationPeriod : Nat := 6

/-- `config::graft::TRUSTED_RESTAKING_PERIOD`. -/
def trustedRestakingPeriod : Nat := 6

/-- `config::graft::SUPERNODE_HISTORY_SIZE`. -/
def supernodeHistorySize : Nat := 100

/-- `COIN`, the atomic units of one coin. -/
def coin : Nat := 10000000000

/-- `config::graft::TIER1_STAKE_AMOUNT` .. `TIER4_STAKE_AMOUNT`. -/
def tier1StakeAmount : Nat := coin * 50000
def tier2StakeAmount : Nat := coin * 90000
def tier3StakeAmount : Nat := coin * 150000
def tier4StakeAmount : Nat := coin * 250000

/-- `config::graft::TIERS_COUNT`. -/
def tiersCount : Nat := 4

/-- `BLOCK_HASHES_HISTORY_DEPTH` of `stake_transaction_storage.cpp`. -/
def blockHashesHistoryDepth : Nat := 1000

/-- `a - b` on `uint64_t`. -/
def sub64 (a b : Nat) : Nat := (a + 2 ^ 64 - b) % 2 ^ 64

/-- `a + b` on `uint64_t`. -/
def add64 (a b : Nat) : Nat := (a + b) % 2 ^ 64

/-- The fields of `stake_transaction` that are read after it is recorded. -/
structure StakeTransaction (H : Type) where
  hash : H
  amount : Nat
  blockHeight : Nat
  unlockTime : Nat
  supernodePublicId : String
deriving DecidableEq, Repr

/-- `stake_transaction::is_valid(block_index)`: the stake counts from `STAKE_VALIDATION_PERIOD`
blocks after its block until `TRUSTED_RESTAKING_PERIOD` blocks after it unlocks. The two sums
are those of `uint64_t` for a transaction with `HeightsFit`. -/
def StakeTransaction.isValid {H : Type} (tx : StakeTransaction H) (blockIndex : Nat) : Bool :=
  let stakeFirstValidBlock := tx.blockHeight + stakeValidationPeriod
  let stakeLastValidBlock := tx.blockHeight + tx.unlockTime + trustedRestakingPeriod
  if blockIndex < stakeFirstValidBlock then false
  else if stakeLastValidBlock ≤ blockIndex then false
  else true

/-- The end of the transaction's validity, `block_height + unlock_time +
TRUSTED_RESTAKING_PERIOD`, fits a `uint64_t`, and with it every sum of heights that `is_valid`
and `update_supernode_stakes` take of the transaction. -/
def StakeTransaction.HeightsFit {H : Type} (tx : StakeTransaction H) : Prop :=
  tx.blockHeight + tx.unlockTime + trustedRestakingPeriod < 2 ^ 64

instance {H : Type} (tx : StakeTransaction H) : Decidable tx.HeightsFit :=
  inferInstanceAs (Decidable (_ < _))

/-- `supernode_stake`, without the public address that is only copied along. -/
structure SupernodeStake where
  amount : Nat
  tier : Nat
  blockHeight : Nat
  unlockTime : Nat
  supernodePublicId : String
deriving DecidableEq, Repr

/-- `get_tier(stake)`: the number of tier amounts that the stake reaches. -/
def getTier (stake : Nat) : Nat :=
  (if tier1StakeAmount ≤ stake then 1 else 0) + (if tier2StakeAmount ≤ stake then 1 else 0) +
    (if tier3StakeAmount ≤ stake then 1 else 0) + (if tier4StakeAmount ≤ stake then 1 else 0)

/-- The update of an existing supernode's stake by a valid transaction with validity
`[minTxBlockHeight, maxTxBlockHeight)`: a stake built from obsolete transactions only
(amount `0`) takes the transaction's fields; otherwise the amounts add up and the validity
is the intersection of the intervals. The amounts add up in `uint64_t`, so a sum that wraps to
zero is taken for a stake built from obsolete transactions by the next transaction. The last
difference does not wrap: the clamp puts the end of the interval at or after its start. -/
def SupernodeStake.accumulate (stake : SupernodeStake) (amount minTxBlockHeight maxTxBlockHeight :
    Nat) : SupernodeStake :=
  if stake.amount = 0 then
    { stake with
      amount, tier := getTier amount, blockHeight := minTxBlockHeight,
      unlockTime := sub64 maxTxBlockHeight minTxBlockHeight }
  else
    let amount := add64 stake.amount amount
    let minBlockHeight := max stake.blockHeight minTxBlockHeight
    let maxBlockHeight := min (add64 stake.blockHeight stake.unlockTime) maxTxBlockHeight
    let maxBlockHeight := if maxBlockHeight ≤ minBlockHeight then minBlockHeight else maxBlockHeight
    { stake with
      amount, tier := getTier amount, blockHeight := minBlockHeight,
      unlockTime := maxBlockHeight - minBlockHeight }

/-- The stake list and the index map `m_supernode_stake_indexes` that
`update_supernode_stakes` builds. -/
structure StakeCache where
  stakes : List SupernodeStake
  indexes : String → Option Nat

/-- The empty list and map that `clear_supernode_stakes` and the start of
`update_supernode_stakes` leave. -/
def StakeCache.empty : StakeCache := ⟨[], fun _ => none⟩

variable {H : Type}

/-- One round of the loop of `update_supernode_stakes(block_number)`. A transaction that is
not valid at `block_number` is skipped when it ended before the history window, and otherwise
counts as obsolete: it adds a zero stake for a supernode that has none yet. -/
def stakeStep (blockNumber : Nat) (cache : StakeCache) (tx : StakeTransaction H) : StakeCache :=
  let obsoleteStake := !tx.isValid blockNumber
  if obsoleteStake ∧
      add64 tx.blockHeight tx.unlockTime < sub64 blockNumber supernodeHistorySize then cache
  else
    let minTxBlockHeight := add64 tx.blockHeight stakeValidationPeriod
    let maxTxBlockHeight := add64 (add64 tx.blockHeight tx.unlockTime) trustedRestakingPeriod
    match cache.indexes tx.supernodePublicId with
    | none =>
      let newStake : SupernodeStake :=
        if obsoleteStake then ⟨0, 0, 0, 0, tx.supernodePublicId⟩
        else ⟨tx.amount, getTier tx.amount, minTxBlockHeight,
          sub64 maxTxBlockHeight minTxBlockHeight, tx.supernodePublicId⟩
      ⟨cache.stakes ++ [newStake],
        Function.update cache.indexes tx.supernodePublicId (some cache.stakes.length)⟩
    | some k =>
      if obsoleteStake then cache
      else ⟨cache.stakes.modify k fun stake =>
          stake.accumulate tx.amount minTxBlockHeight maxTxBlockHeight, cache.indexes⟩

/-- The stakes that `update_supernode_stakes(block_number)` builds from `stake_txs`. -/
def buildStakes (stakeTxs : List (StakeTransaction H)) (blockNumber : Nat) : StakeCache :=
  stakeTxs.foldl (stakeStep blockNumber) StakeCache.empty

/-- `StakeTransactionStorage`. -/
structure StakeTransactionStorage (H : Type) where
  lastProcessedBlockIndex : Nat
  lastProcessedBlockHashes : List H
  lastProcessedBlockHashesCount : Nat
  stakeTxs : List (StakeTransaction H)
  supernodeStakesUpdateBlockNumber : Nat
  cache : StakeCache
  firstBlockNumber : Nat

namespace StakeTransactionStorage

/-- The constructor, with no storage file to load. -/
def create (firstBlockNumber : Nat) : StakeTransactionStorage H :=
  ⟨firstBlockNumber, [], 0, [], 0, StakeCache.empty, firstBlockNumber⟩

variable (s : StakeTransactionStorage H)

/-- `get_tx_count`. -/
def getTxCount : Nat := s.stakeTxs.length

/-- `has_last_processed_block`. -/
def hasLastProcessedBlock : Bool := 0 < s.lastProcessedBlockHashesCount

/-- `add_tx`. -/
def addTx (tx : StakeTransaction H) : StakeTransactionStorage H :=
  { s with stakeTxs := s.stakeTxs ++ [tx] }

/-- `get_last_processed_block_hash`, which throws on an empty hash list. -/
def getLastProcessedBlockHash : Except String H :=
  match s.lastProcessedBlockHashes.getLast? with
  | none => .error "internal error: can't get block hash from empty array"
  | some hash => .ok hash

/-- `add_last_processed_block(index, hash)`: only the block after the last processed one is
accepted; the hash list keeps the last `BLOCK_HASHES_HISTORY_DEPTH` hashes. -/
def addLastProcessedBlock (index : Nat) (hash : H) : Except String (StakeTransactionStorage H) :=
  if index ≠ s.lastProcessedBlockIndex + 1 then
    .error "internal error: new block index must be compared to the already processed block index"
  else if s.lastProcessedBlockHashesCount < blockHashesHistoryDepth then
    .ok { s with
      lastProcessedBlockHashes := s.lastProcessedBlockHashes ++ [hash]
      lastProcessedBlockHashesCount := s.lastProcessedBlockHashesCount + 1
      lastProcessedBlockIndex := index }
  else
    .ok { s with
      lastProcessedBlockHashes := (s.lastProcessedBlockHashes ++ [hash]).tail
      lastProcessedBlockIndex := index }

/-- `remove_last_processed_block`: drop the stake transactions of the last processed block and
its hash; when no hash is left, start again from `first_block_number` with no transactions. -/
def removeLastProcessedBlock : StakeTransactionStorage H :=
  if s.lastProcessedBlockHashesCount = 0 then s
  else
    let removed : StakeTransactionStorage H :=
      { s with
        stakeTxs := s.stakeTxs.filter fun tx => tx.blockHeight ≠ s.lastProcessedBlockIndex
        lastProcessedBlockHashesCount := s.lastProcessedBlockHashesCount - 1
        lastProcessedBlockIndex := s.lastProcessedBlockIndex - 1
        lastProcessedBlockHashes := s.lastProcessedBlockHashes.dropLast }
    if removed.lastProcessedBlockHashes = [] then
      { removed with stakeTxs := [], lastProcessedBlockIndex := s.firstBlockNumber }
    else removed

/-- `clear_supernode_stakes`. -/
def clearSupernodeStakes : StakeTransactionStorage H :=
  { s with cache := StakeCache.empty, supernodeStakesUpdateBlockNumber := 0 }

/-- `update_supernode_stakes(block_number)`: rebuild the cache, unless it was last built for
the same block number. -/
def updateSupernodeStakes (blockNumber : Nat) : StakeTransactionStorage H :=
  if blockNumber = s.supernodeStakesUpdateBlockNumber then s
  else
    { s with
      cache := buildStakes s.stakeTxs blockNumber
      supernodeStakesUpdateBlockNumber := blockNumber }

/-- `get_supernode_stakes(block_number)`. -/
def getSupernodeStakes (blockNumber : Nat) : List SupernodeStake × StakeTransactionStorage H :=
  let updated := s.updateSupernodeStakes blockNumber
  (updated.cache.stakes, updated)

/-- `find_supernode_stake(block_number, supernode_public_id)`, `none` for `nullptr`. -/
def findSupernodeStake (blockNumber : Nat) (supernodePublicId : String) :
    Option SupernodeStake × StakeTransactionStorage H :=
  let updated := s.updateSupernodeStakes blockNumber
  ((updated.cache.indexes supernodePublicId).bind fun k => updated.cache.stakes[k]?, updated)

end StakeTransactionStorage

end GraftNetwork.Stake

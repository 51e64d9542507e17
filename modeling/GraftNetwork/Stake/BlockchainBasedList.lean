import Mathlib.Data.List.Sort
import GraftNetwork.Stake.Storage

/-!
# The blockchain-based list

A model of `BlockchainBasedList` (`src/cryptonote_core/blockchain_based_list.{h,cpp}`): for each
applied block, four tier lists of at most `BLOCKCHAIN_BASED_LIST_SIZE` supernodes, chosen at
random among the supernodes whose stake is valid at the block, preferring those of the
previous list; the last `BLOCKCHAIN_BASED_LISTS_HISTORY_DEPTH` lists are kept.

The generator `m_rng` is `std::mt19937_64`, reseeded from the block hash before each tier. Its
outputs are the parameter `mt`: `mt hash k` is the `k`-th number it draws after
`m_rng.seed(seed)` with the `seed_seq` of the bytes of `hash`. Since every tier reseeds it, the
state that the member keeps between calls never reaches a result and is left out.

* `selectSupernodes`: `select_supernodes`, with the position of the generator threaded.
* `applyBlock` and `removeLatestBlock`: `apply_block` and `remove_latest_block`; `apply_block`
  reads the storage through `get_supernode_stakes` and `find_supernode_stake`, which update
  its stake cache, so the storage is threaded too.
* `tiers`: the lookup of the history by depth.
* `listStep`: the list as a machine driven by the calls, each `apply_block` with the storage it
  is given.
-/

namespace GraftNetwork.Stake

/-- `BlockchainBasedList::supernode`, without the public address that is only copied along. -/
structure Supernode where
  supernodePublicId : String
  amount : Nat
  blockHeight : Nat
  unlockTime : Nat
deriving DecidableEq, Repr

/-- `BLOCKCHAIN_BASED_LIST_SIZE`. -/
def blockchainBasedListSize : Nat := 32

/-- `PREVIOS_BLOCKCHAIN_BASED_LIST_MAX_SIZE`. -/
def previosBlockchainBasedListMaxSize : Nat := 16

/-- `BLOCKCHAIN_BASED_LISTS_HISTORY_DEPTH`. -/
def blockchainBasedListsHistoryDepth : Nat := 1000

/-- `BlockchainBasedList`: the history of tier arrays, oldest first. -/
structure BlockchainBasedList where
  history : List (List (List Supernode))
  blockHeight : Nat
  historyDepth : Nat
  firstBlockNumber : Nat
deriving DecidableEq, Repr

/-- The loop of `select_supernodes` over `src_list`, drawing one number per entry: entry `i` of
`n` is kept when the draw modulo `n - i` is below the number still to pick. -/
def selectLoop (draw : Nat → UInt64) : Nat → Nat → List Supernode → List Supernode × Nat
  | pos, _, [] => ([], pos)
  | pos, itemsCount, sn :: rest =>
    if itemsCount ≤ (draw pos).toNat % (rest.length + 1) then selectLoop draw (pos + 1) itemsCount rest
    else
      let selected := selectLoop draw (pos + 1) (itemsCount - 1) rest
      (sn :: selected.1, selected.2)

/-- `select_supernodes(items_count, src_list, dst_list)` from generator position `pos`: the
picked entries, to be appended to `dst_list`, and the new position. -/
def selectSupernodes (draw : Nat → UInt64) (pos itemsCount : Nat) (srcList : List Supernode) :
    List Supernode × Nat :=
  selectLoop draw pos (min itemsCount srcList.length) srcList

/-- The order of the `std::stable_sort` of `apply_block`: older stakes first, then by
identifier. The sort is modelled by `List.insertionSort` on its negation, which is stable. -/
def stakeAgeLt (s1 s2 : Supernode) : Bool :=
  s1.blockHeight < s2.blockHeight ||
    (s1.blockHeight == s2.blockHeight && decide (s1.supernodePublicId < s2.supernodePublicId))

/-- The supernode entry that `apply_block` makes of a stake. -/
def SupernodeStake.toSupernode (stake : SupernodeStake) : Supernode :=
  ⟨stake.supernodePublicId, stake.amount, stake.blockHeight, stake.unlockTime⟩

/-- Whether a stake is in tier `i` (counted from `0`) with a non-zero amount. -/
def SupernodeStake.inTier (i : Nat) (stake : SupernodeStake) : Bool :=
  stake.amount ≠ 0 && stake.tier == i + 1

variable {H : Type}

/-- The filter of the previous list of tier `i` in `apply_block`: each supernode is looked up
with `find_supernode_stake(block_height, id)` and kept when its stake is still in the tier. -/
def prevSupernodes (blockHeight i : Nat) :
    List Supernode → StakeTransactionStorage H → List Supernode × StakeTransactionStorage H
  | [], storage => ([], storage)
  | sn :: rest, storage =>
    let found := storage.findSupernodeStake blockHeight sn.supernodePublicId
    let kept := prevSupernodes blockHeight i rest found.2
    (if found.1.any (SupernodeStake.inTier i) then sn :: kept.1 else kept.1, kept.2)

variable (mt : H → Nat → UInt64)

/-- The list of tier `i` for the block: up to `PREVIOS_BLOCKCHAIN_BASED_LIST_MAX_SIZE` of the
previous supernodes, then, while there is room, supernodes of the sorted current stakes that
were not picked yet. The generator is reseeded from the block hash first. -/
def tierList (blockHash : H) (i : Nat) (prev : List Supernode) (stakes : List SupernodeStake) :
    List Supernode :=
  let draw := mt blockHash
  let current := ((stakes.filter (SupernodeStake.inTier i)).map SupernodeStake.toSupernode).insertionSort
    fun s1 s2 => stakeAgeLt s2 s1 = false
  let fromPrev := selectSupernodes draw 0 previosBlockchainBasedListMaxSize prev
  if fromPrev.1.length < blockchainBasedListSize then
    let remaining := current.filter fun sn =>
      !fromPrev.1.any fun picked => picked.supernodePublicId == sn.supernodePublicId
    fromPrev.1 ++ (selectSupernodes draw fromPrev.2 (blockchainBasedListSize - fromPrev.1.length)
      remaining).1
  else fromPrev.1

/-- The loop of `apply_block` over the tiers `i`, `i + 1`, .. of `tiers`. -/
def buildTiers (blockHeight : Nat) (blockHash : H) (last : List (List Supernode))
    (stakes : List SupernodeStake) :
    List Nat → StakeTransactionStorage H → List (List Supernode) × StakeTransactionStorage H
  | [], storage => ([], storage)
  | i :: tiers, storage =>
    let prev := prevSupernodes blockHeight i (last.getD i []) storage
    let rest := buildTiers blockHeight blockHash last stakes tiers prev.2
    (tierList mt blockHash i prev.1 stakes :: rest.1, rest.2)

namespace BlockchainBasedList

/-- The constructor, with no list file to load. -/
def create (firstBlockNumber : Nat) : BlockchainBasedList :=
  ⟨[], firstBlockNumber, 0, firstBlockNumber⟩

/-- `apply_block(block_height, block_hash, stake_txs_storage)`: blocks at or below the list's
height are ignored, a gap throws, and the next block gets its tier lists, built from the stakes
valid at it. -/
def applyBlock (bbl : BlockchainBasedList) (blockHeight : Nat) (blockHash : H)
    (storage : StakeTransactionStorage H) :
    Except String (BlockchainBasedList × StakeTransactionStorage H) :=
  if blockHeight ≤ bbl.blockHeight then .ok (bbl, storage)
  else if blockHeight ≠ bbl.blockHeight + 1 then
    .error "block_height should be next after the block already processed"
  else
    let stakes := storage.getSupernodeStakes blockHeight
    let newTier := buildTiers mt blockHeight blockHash (bbl.history.getLastD []) stakes.1
      (List.range tiersCount) stakes.2
    let history := bbl.history ++ [newTier.1]
    let bbl' : BlockchainBasedList :=
      if bbl.historyDepth < blockchainBasedListsHistoryDepth then
        { bbl with history, historyDepth := bbl.historyDepth + 1, blockHeight }
      else { bbl with history := history.tail, blockHeight }
    .ok (bbl', newTier.2)

/-- `remove_latest_block`: drop the newest lists; an emptied history goes back to
`first_block_number`. -/
def removeLatestBlock (bbl : BlockchainBasedList) : BlockchainBasedList :=
  if bbl.historyDepth = 0 then bbl
  else
    let removed : BlockchainBasedList :=
      { bbl with
        blockHeight := bbl.blockHeight - 1
        historyDepth := bbl.historyDepth - 1
        history := bbl.history.dropLast }
    if removed.history = [] then { removed with blockHeight := bbl.firstBlockNumber } else removed

/-- `tiers(depth)`: the tier lists `depth` blocks below the newest, and an error for a depth the
history does not hold. `m_history.back()` is the newest entry and the reverse iterator advanced
by `depth` the one `depth` entries before it. -/
def tiers (bbl : BlockchainBasedList) (depth : Nat) : Except String (List (List Supernode)) :=
  if bbl.historyDepth ≤ depth then
    .error "internal error: attempt to get tier which is not present in a blockchain based list"
  else if depth = 0 then .ok (bbl.history.getLastD [])
  else .ok (bbl.history.reverse.getD depth [])

end BlockchainBasedList

/-- A call on the list: `apply_block(block_height, block_hash, stake_txs_storage)` with the
storage it reads, or `remove_latest_block()`. -/
inductive ListOperation (H : Type) where
  | applyBlock (blockHeight : Nat) (blockHash : H) (storage : StakeTransactionStorage H)
  | removeLatestBlock

/-- One call on the list. A call of `apply_block` that throws leaves the list as it was: the
gap check comes before any change. -/
def listStep (operation : ListOperation H) (bbl : BlockchainBasedList) : BlockchainBasedList :=
  match operation with
  | .applyBlock blockHeight blockHash storage =>
    match bbl.applyBlock mt blockHeight blockHash storage with
    | .ok (bbl', _) => bbl'
    | .error _ => bbl
  | .removeLatestBlock => bbl.removeLatestBlock

end GraftNetwork.Stake

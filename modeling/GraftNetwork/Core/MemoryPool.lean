import Mathlib.Algebra.Order.BigOperators.Group.List
import Mathlib.Algebra.Order.Ring.Rat
import Mathlib.Data.List.Nodup
import Mathlib.Order.RelClasses
import GraftNetwork.Lib.Machine
import GraftNetwork.Database.Lmdb
import GraftNetwork.Stake.Storage

/-!
# The transaction pool's bookkeeping

A model of `tx_memory_pool` (`src/cryptonote_core/tx_pool.cpp`) with the three structures that it
keeps beside the pool's tables of the database: the weight of the pool `m_txpool_weight`, the
entries sorted by fee per byte `m_txs_by_fee_and_receive_time`, and the map
`m_spent_key_images` from each key image to the pool's transactions that spend it.

The operations are `add_tx`, `prune`, `take_tx`, `remove_stuck_transactions`, `validate`, `init`
and `mark_double_spend`, each over the whole pool state. The verdicts of the checks of `add_tx`
that read data the model leaves out (the version, the fee and RTA signatures, the weight limit,
the outputs, the inputs against the chain) are given.

`Consistent` states what the three structures should be for the pool's tables. It does not hold
along every run:

* `txCompare_not_isStrictWeakOrder`: the comparator of the sorted set calls each of two entries
  of the same fee per byte and receive time smaller than the other.
* `pruneLoop_round`: `prune` takes the receive time of a pruned entry off the pool's weight, in
  place of its weight, so a round keeps the structures consistent only when the two agree.
* `consistent_takeTx`: `take_tx` keeps the structures consistent.
-/

namespace GraftNetwork.Core.MemoryPool

open GraftNetwork.Database

variable {H K : Type} [DecidableEq H] [DecidableEq K]

/-! ## 1. The state -/

/-- `CRYPTONOTE_MEMPOOL_TX_LIVETIME`, three days. -/
def CRYPTONOTE_MEMPOOL_TX_LIVETIME : Nat := 86400 * 3

/-- `CRYPTONOTE_MEMPOOL_TX_FROM_ALT_BLOCK_LIVETIME`, one week. -/
def CRYPTONOTE_MEMPOOL_TX_FROM_ALT_BLOCK_LIVETIME : Nat := 604800

def DEFAULT_TXPOOL_MAX_WEIGHT : Nat := 648000000

/-- `txpool_tx_meta_t`, the fields the bookkeeping reads. -/
structure TxpoolTxMeta where
  weight : Nat
  fee : Nat
  keptByBlock : Bool
  receiveTime : Nat
  doubleSpendSeen : Bool
deriving DecidableEq, Repr

/-- A transaction of the pool's tables `txpool_meta` and `txpool_blob`, under its hash: its meta
and what `parse_and_validate_tx_from_blob` makes of its blob. -/
structure PoolTx (H K : Type) where
  txid : H
  txMeta : TxpoolTxMeta
  blob : Option (Transaction H K)
deriving DecidableEq, Repr

/-- `tx_by_fee_and_receive_time_entry`: the fee per byte and the receive time, and the hash. The
fee per byte is a `double` in the source and exact here. -/
abbrev TxByFeeAndReceiveTimeEntry (H : Type) := (ℚ × Nat) × H

/-- The state of `tx_memory_pool` with the pool's tables. -/
structure TxMemoryPool (H K : Type) where
  /-- The tables `txpool_meta` and `txpool_blob`, in the order `for_all_txpool_txes` visits. -/
  txpool : List (PoolTx H K)
  /-- `m_txs_by_fee_and_receive_time`, in the order of the set. -/
  txsByFeeAndReceiveTime : List (TxByFeeAndReceiveTimeEntry H)
  /-- `m_spent_key_images`: `none` where the map has no entry. -/
  spentKeyImages : K → Option (List H)
  txpoolWeight : Nat
  txpoolMaxWeight : Nat
  timedOutTransactions : List H

/-- A pool whose tables, structures and weight are empty. -/
def TxMemoryPool.empty (txpoolMaxWeight : Nat) : TxMemoryPool H K :=
  { txpool := [], txsByFeeAndReceiveTime := [], spentKeyImages := fun _ => none, txpoolWeight := 0,
    txpoolMaxWeight, timedOutTransactions := [] }

/-! ## 2. The sorted set -/

/-- `txCompare`: greater fee per byte first, then earlier receive time; two entries that differ
only in their hash are each smaller than the other. -/
def txCompare (a b : TxByFeeAndReceiveTimeEntry H) : Bool :=
  if a.1.1 > b.1.1 then true
  else if a.1.1 < b.1.1 then false
  else if a.1.2 < b.1.2 then true
  else if a.1.2 > b.1.2 then false
  else if a.2 ≠ b.2 then true
  else false

/-- `std::set::emplace` under `txCompare`: an entry equivalent to one of the set (neither is
smaller) is not inserted; otherwise it goes before the first entry it is smaller than. -/
def emplace (sorted : List (TxByFeeAndReceiveTimeEntry H)) (entry : TxByFeeAndReceiveTimeEntry H) :
    List (TxByFeeAndReceiveTimeEntry H) :=
  if sorted.any fun b => !txCompare entry b && !txCompare b entry then sorted
  else sorted.orderedInsert (fun a b => txCompare a b = true) entry

/-- `find_tx_in_sorted_container`: the first entry of the hash. -/
def findTxInSortedContainer (sorted : List (TxByFeeAndReceiveTimeEntry H)) (id : H) :
    Option (TxByFeeAndReceiveTimeEntry H) :=
  sorted.find? fun entry => entry.2 == id

/-- Erasing the entry `find_tx_in_sorted_container` finds, if it finds one. -/
def eraseTxInSortedContainer (sorted : List (TxByFeeAndReceiveTimeEntry H)) (id : H) :
    List (TxByFeeAndReceiveTimeEntry H) :=
  match findTxInSortedContainer sorted id with
  | none => sorted
  | some entry => sorted.erase entry

/-- The entry `add_tx` and `init` emplace for a transaction. -/
def sortedEntry (txid : H) (fee weight receiveTime : Nat) : TxByFeeAndReceiveTimeEntry H :=
  (((fee : ℚ) / (weight : ℚ), receiveTime), txid)

/-! ## 3. The key images -/

/-- The loop of `insert_key_images`: each input must spend a key image, whose set (created empty
by `operator[]`) must be empty unless the transaction is kept by a block, and must not hold the
hash yet. It stops at the first failure with what it inserted so far. -/
def insertKeyImagesLoop (id : H) (keptByBlock : Bool) :
    List (TxIn K) → (K → Option (List H)) → Bool × (K → Option (List H))
  | [], spent => (true, spent)
  | .toKey kImage :: vin, spent =>
    let keiImageSet := (spent kImage).getD []
    let spent := Function.update spent kImage (some keiImageSet)
    if !(keptByBlock || keiImageSet.isEmpty) then (false, spent)
    else if id ∈ keiImageSet then (false, spent)
    else insertKeyImagesLoop id keptByBlock vin (Function.update spent kImage (some (keiImageSet ++ [id])))
  | _ :: _, spent => (false, spent)

def insertKeyImages (tx : Transaction H K) (keptByBlock : Bool) (spent : K → Option (List H)) :
    Bool × (K → Option (List H)) :=
  insertKeyImagesLoop tx.hash keptByBlock tx.vin spent

/-- The loop of `remove_transaction_keyimages`: each input must spend a key image whose set holds
the hash; the hash leaves the set, and an emptied set leaves the map. It stops at the first
failure with what it removed so far. -/
def removeTransactionKeyimagesLoop (actualHash : H) :
    List (TxIn K) → (K → Option (List H)) → Bool × (K → Option (List H))
  | [], spent => (true, spent)
  | .toKey kImage :: vin, spent =>
    match spent kImage with
    | none => (false, spent)
    | some keyImageSet =>
      if keyImageSet.isEmpty then (false, spent)
      else if actualHash ∉ keyImageSet then (false, spent)
      else
        let keyImageSet := keyImageSet.erase actualHash
        let spent :=
          if keyImageSet.isEmpty then Function.update spent kImage none
          else Function.update spent kImage (some keyImageSet)
        removeTransactionKeyimagesLoop actualHash vin spent
  | _ :: _, spent => (false, spent)

def removeTransactionKeyimages (tx : Transaction H K) (spent : K → Option (List H)) :
    Bool × (K → Option (List H)) :=
  removeTransactionKeyimagesLoop tx.hash tx.vin spent

/-- `have_tx_keyimges_as_spent`: an input whose key image the map holds. -/
def haveTxKeyimgesAsSpent (spent : K → Option (List H)) (tx : Transaction H K) : Bool :=
  tx.vin.any fun
    | .toKey kImage => (spent kImage).isSome
    | _ => true

/-- `check_inputs_types_supported`: every input spends a key image. -/
def checkInputsTypesSupported (tx : Transaction H K) : Bool :=
  tx.vin.all fun
    | .toKey _ => true
    | _ => false

/-! ## 4. The pool's tables -/

/-- The row of a hash, as `get_txpool_tx_meta` and `get_txpool_tx_blob` read it. -/
def findTxpoolTx (txpool : List (PoolTx H K)) (txid : H) : Option (PoolTx H K) :=
  txpool.find? fun row => row.txid == txid

/-- `remove_txpool_tx`: nothing happens to a hash the tables do not hold. -/
def removeTxpoolTx (txpool : List (PoolTx H K)) (txid : H) : List (PoolTx H K) :=
  txpool.filter fun row => row.txid != txid

/-- `add_txpool_tx`, which throws on a hash the tables hold. -/
def addTxpoolTx (txpool : List (PoolTx H K)) (row : PoolTx H K) : Option (List (PoolTx H K)) :=
  if txpool.any (fun other => other.txid == row.txid) then none else some (txpool ++ [row])

/-- `update_txpool_tx` of the meta of a hash. -/
def updateTxpoolTx (txpool : List (PoolTx H K)) (txid : H) (txMeta : TxpoolTxMeta) :
    List (PoolTx H K) :=
  txpool.map fun row => if row.txid = txid then { row with txMeta } else row

/-! ## 5. The operations -/

/-- The loop of `mark_double_spend` over the inputs of a transaction refused as a double spend:
every pool transaction that spends one of its key images is marked. -/
def markDoubleSpendLoop : List (TxIn K) → TxMemoryPool H K → TxMemoryPool H K
  | [], pool => pool
  | .toKey kImage :: vin, pool =>
    match pool.spentKeyImages kImage with
    | none => markDoubleSpendLoop vin pool
    | some txids =>
      let txpool := txids.foldl (fun txpool txid =>
        match findTxpoolTx txpool txid with
        | none => txpool
        | some row =>
          if row.txMeta.doubleSpendSeen then txpool
          else updateTxpoolTx txpool txid { row.txMeta with doubleSpendSeen := true }) pool.txpool
      markDoubleSpendLoop vin { pool with txpool }
  | _ :: _, pool => pool

def markDoubleSpend (tx : Transaction H K) (pool : TxMemoryPool H K) : TxMemoryPool H K :=
  markDoubleSpendLoop tx.vin pool

/-- The loop of `prune` at position `i + 1` of the sorted set, walking down to the second entry:
a transaction kept by a block is skipped; any other is removed from the tables and the key
images, and the receive time of its entry (`it->first.second`) is taken off the pool's weight.
A meta or a blob that cannot be read ends the loop. -/
def pruneLoop (bytes : Nat) : Nat → TxMemoryPool H K → TxMemoryPool H K
  | 0, pool => pool
  | i + 1, pool =>
    if pool.txpoolWeight ≤ bytes then pool
    else
      match pool.txsByFeeAndReceiveTime[i + 1]? with
      | none => pool
      | some entry =>
        match findTxpoolTx pool.txpool entry.2 with
        | none => pool
        | some row =>
          if row.txMeta.keptByBlock then pruneLoop bytes i pool
          else
            match row.blob with
            | none => pool
            | some tx =>
              pruneLoop bytes i
                { pool with
                  txpool := removeTxpoolTx pool.txpool entry.2
                  txpoolWeight := Stake.sub64 pool.txpoolWeight entry.1.2
                  spentKeyImages := (removeTransactionKeyimages tx pool.spentKeyImages).2
                  txsByFeeAndReceiveTime := pool.txsByFeeAndReceiveTime.eraseIdx (i + 1) }

/-- `prune(bytes)`, from the last entry of the sorted set; a zero bound is the pool's maximum. -/
def prune (bytes : Nat) (pool : TxMemoryPool H K) : TxMemoryPool H K :=
  let bytes := if bytes = 0 then pool.txpoolMaxWeight else bytes
  pruneLoop bytes (pool.txsByFeeAndReceiveTime.length - 1) pool

/-- The verdicts of the checks of `add_tx` whose data the model leaves out. -/
structure AddTxChecks where
  /-- The version, the RTA header and signatures or `check_fee`, and the weight limit. -/
  precheck : Bool
  /-- `Blockchain::check_tx_outputs`. -/
  checkTxOutputs : Bool
  /-- `check_tx_inputs` against the chain. -/
  checkTxInputs : Bool

/-- The end of `add_tx` once the row is in the tables: the key images, which can fail and return
`false` with the row in the tables; then the sorted entry, the weight, and `prune`. -/
def addTxTail (tx : Transaction H K) (txWeight fee receiveTime : Nat) (keptByBlock : Bool)
    (txpool : List (PoolTx H K)) (pool : TxMemoryPool H K) : Bool × TxMemoryPool H K :=
  let (inserted, spentKeyImages) := insertKeyImages tx keptByBlock pool.spentKeyImages
  let pool := { pool with txpool, spentKeyImages }
  if !inserted then (false, pool)
  else
    let pool := { pool with
      txsByFeeAndReceiveTime :=
        emplace pool.txsByFeeAndReceiveTime (sortedEntry tx.hash fee txWeight receiveTime)
      txpoolWeight := (pool.txpoolWeight + txWeight) % 2 ^ 64 }
    (true, prune pool.txpoolMaxWeight pool)

/-- `add_tx` of a transaction of the given weight and fee, received at `receiveTime`. A
transaction whose inputs fail `check_tx_inputs` goes in only when it is kept by a block, as a
new row; one that passes replaces the row of its hash. -/
def addTx (checks : AddTxChecks) (tx : Transaction H K) (txWeight fee receiveTime : Nat)
    (keptByBlock : Bool) (pool : TxMemoryPool H K) : Bool × TxMemoryPool H K :=
  if !keptByBlock && tx.hash ∈ pool.timedOutTransactions then (false, pool)
  else if !checkInputsTypesSupported tx then (false, pool)
  else if !checks.precheck then (false, pool)
  else if !keptByBlock && haveTxKeyimgesAsSpent pool.spentKeyImages tx then
    (false, markDoubleSpend tx pool)
  else if !checks.checkTxOutputs then (false, pool)
  else if !checks.checkTxInputs then
    if keptByBlock then
      let txMeta : TxpoolTxMeta :=
        { weight := txWeight, fee, keptByBlock, receiveTime,
          doubleSpendSeen := haveTxKeyimgesAsSpent pool.spentKeyImages tx }
      -- `add_txpool_tx` throws on a hash the tables hold, and `add_tx` returns false
      match addTxpoolTx pool.txpool ⟨tx.hash, txMeta, some tx⟩ with
      | none => (false, pool)
      | some txpool => addTxTail tx txWeight fee receiveTime keptByBlock txpool pool
    else (false, pool)
  else
    let txMeta : TxpoolTxMeta :=
      { weight := txWeight, fee, keptByBlock, receiveTime, doubleSpendSeen := false }
    let txpool := removeTxpoolTx pool.txpool tx.hash ++ [⟨tx.hash, txMeta, some tx⟩]
    addTxTail tx txWeight fee receiveTime keptByBlock txpool pool

/-- `take_tx(id)`: the transaction and its meta, and the pool without them. A hash the sorted set
does not hold, or whose meta or blob cannot be read, is refused with the pool unchanged. -/
def takeTx (id : H) (pool : TxMemoryPool H K) :
    Option (Transaction H K × TxpoolTxMeta) × TxMemoryPool H K :=
  match findTxInSortedContainer pool.txsByFeeAndReceiveTime id with
  | none => (none, pool)
  | some entry =>
    match findTxpoolTx pool.txpool id with
    | none => (none, pool)
    | some row =>
      match row.blob with
      | none => (none, pool)
      | some tx =>
        (some (tx, row.txMeta),
          { pool with
            txpool := removeTxpoolTx pool.txpool id
            txpoolWeight := Stake.sub64 pool.txpoolWeight row.txMeta.weight
            spentKeyImages := (removeTransactionKeyimages tx pool.spentKeyImages).2
            txsByFeeAndReceiveTime := pool.txsByFeeAndReceiveTime.erase entry })

section Removal

-- `get_transaction_weight(tx, blob_size)`, which `remove_stuck_transactions` and `validate`
-- take off the pool's weight
variable (getTransactionWeight : Transaction H K → Nat)

/-- The removal loop of `remove_stuck_transactions` and `validate`: a transaction whose blob
parses leaves the tables and the key images, and its weight leaves the pool's weight; one whose
blob does not parse, or that the tables do not hold, stays. -/
def removeTxs (txids : List H) (pool : TxMemoryPool H K) : TxMemoryPool H K :=
  txids.foldl (fun pool txid =>
    match findTxpoolTx pool.txpool txid with
    | none => pool
    | some row =>
      match row.blob with
      | none => pool
      | some tx =>
        { pool with
          txpool := removeTxpoolTx pool.txpool txid
          txpoolWeight := Stake.sub64 pool.txpoolWeight (getTransactionWeight tx)
          spentKeyImages := (removeTransactionKeyimages tx pool.spentKeyImages).2 }) pool

/-- Whether `remove_stuck_transactions` at time `now` removes a transaction. -/
def isStuck (now : Nat) (txMeta : TxpoolTxMeta) : Bool :=
  let txAge := Stake.sub64 now txMeta.receiveTime
  (txAge > CRYPTONOTE_MEMPOOL_TX_LIVETIME && !txMeta.keptByBlock) ||
    (txAge > CRYPTONOTE_MEMPOOL_TX_FROM_ALT_BLOCK_LIVETIME && txMeta.keptByBlock)

/-- `remove_stuck_transactions` at time `now`: the sorted entries of the stuck transactions are
erased and their hashes timed out while the tables are scanned, and the transactions are removed
after. -/
def removeStuckTransactions (now : Nat) (pool : TxMemoryPool H K) : TxMemoryPool H K :=
  let remove := (pool.txpool.filter fun row => isStuck now row.txMeta).map (·.txid)
  let pool := { pool with
    txsByFeeAndReceiveTime := remove.foldl eraseTxInSortedContainer pool.txsByFeeAndReceiveTime
    timedOutTransactions := remove.foldl (fun timedOut txid => timedOut.insert txid)
      pool.timedOutTransactions }
  removeTxs getTransactionWeight remove pool

/-- `validate(version)` with the weight limit of the version and the hashes the chain holds: the
pool's weight is recounted, and the transactions too heavy or already in the chain are removed,
with their sorted entries. It returns how many it removed. -/
def validate (txWeightLimit : Nat) (haveTx : H → Bool) (pool : TxMemoryPool H K) :
    Nat × TxMemoryPool H K :=
  let txpoolWeight := pool.txpool.foldl (fun weight row => (weight + row.txMeta.weight) % 2 ^ 64) 0
  let remove := (pool.txpool.filter fun row => txWeightLimit < row.txMeta.weight || haveTx row.txid).map
    (·.txid)
  remove.foldl (fun (removed, pool) txid =>
    match findTxpoolTx pool.txpool txid with
    | none => (removed, pool)
    | some row =>
      match row.blob with
      | none => (removed, pool)
      | some _ =>
        let pool := removeTxs getTransactionWeight [txid] pool
        (removed + 1, { pool with
          txsByFeeAndReceiveTime := eraseTxInSortedContainer pool.txsByFeeAndReceiveTime txid }))
    (0, { pool with txpoolWeight })

end Removal

/-- A pass of `init` over the tables, for the transactions kept by a block or for the others:
the key images, the sorted entry and the weight of each, and the hashes of those whose blob does
not parse. A failed insertion of key images stops `init`, which returns false. -/
def initPass (kept : Bool) :
    List (PoolTx H K) → TxMemoryPool H K × List H → Bool × TxMemoryPool H K × List H
  | [], (pool, remove) => (true, pool, remove)
  | row :: rows, (pool, remove) =>
    if kept != row.txMeta.keptByBlock then initPass kept rows (pool, remove)
    else
      match row.blob with
      | none => initPass kept rows (pool, remove ++ [row.txid])
      | some tx =>
        let (inserted, spentKeyImages) :=
          insertKeyImages tx row.txMeta.keptByBlock pool.spentKeyImages
        let pool := { pool with spentKeyImages }
        if !inserted then (false, pool, remove)
        else
          initPass kept rows
            ({ pool with
              txsByFeeAndReceiveTime := emplace pool.txsByFeeAndReceiveTime
                (sortedEntry row.txid row.txMeta.fee row.txMeta.weight row.txMeta.receiveTime)
              txpoolWeight := (pool.txpoolWeight + row.txMeta.weight) % 2 ^ 64 }, remove)

/-- `init(max_txpool_weight)`: the structures are rebuilt from the tables, those not kept by a
block first, and the rows whose blob does not parse are removed. -/
def init (maxTxpoolWeight : Nat) (pool : TxMemoryPool H K) : Bool × TxMemoryPool H K :=
  let pool := { pool with
    txpoolMaxWeight := if maxTxpoolWeight = 0 then DEFAULT_TXPOOL_MAX_WEIGHT else maxTxpoolWeight
    txsByFeeAndReceiveTime := []
    spentKeyImages := fun _ => none
    txpoolWeight := 0 }
  match initPass false pool.txpool (pool, []) with
  | (false, pool, _) => (false, pool)
  | (true, pool, remove) =>
    match initPass true pool.txpool (pool, remove) with
    | (false, pool, _) => (false, pool)
    | (true, pool, remove) =>
      (true, { pool with txpool := remove.foldl removeTxpoolTx pool.txpool })

/-! ## 6. What the structures should be -/

/-- Whether a transaction of the tables spends a key image. -/
def spends (k : K) (row : PoolTx H K) : Bool := row.blob.any fun tx => k ∈ tx.keyImages

/-- The sorted entry of a transaction of the tables. -/
def PoolTx.entry (row : PoolTx H K) : TxByFeeAndReceiveTimeEntry H :=
  sortedEntry row.txid row.txMeta.fee row.txMeta.weight row.txMeta.receiveTime

/-- The structures of the pool agree with its tables: the pool's weight is the total weight of
the tables, the sorted set has one entry for each of their transactions, and each key image maps
to the set of the transactions that spend it, never to an empty set. The tables hold each hash
once, with a `uint64_t` weight and a blob that parses to a transaction of that hash, whose inputs
spend distinct key images. -/
structure TxMemoryPool.Consistent (pool : TxMemoryPool H K) : Prop where
  txids_nodup : (pool.txpool.map (·.txid)).Nodup
  rows_parse : ∀ row ∈ pool.txpool, ∃ tx, row.blob = some tx ∧ tx.hash = row.txid ∧
    checkInputsTypesSupported tx = true ∧ tx.keyImages.Nodup
  weights_lt : ∀ row ∈ pool.txpool, row.txMeta.weight < 2 ^ 64
  weight_eq : pool.txpoolWeight = (pool.txpool.map (·.txMeta.weight)).sum % 2 ^ 64
  sorted_perm : pool.txsByFeeAndReceiveTime.Perm (pool.txpool.map PoolTx.entry)
  spent_perm : ∀ k, ((pool.spentKeyImages k).getD []).Perm
    ((pool.txpool.filter (spends k)).map (·.txid))
  spent_ne_nil : ∀ k s, pool.spentKeyImages k = some s → s ≠ []

omit [DecidableEq H] in
theorem consistent_empty (txpoolMaxWeight : Nat) :
    (TxMemoryPool.empty txpoolMaxWeight : TxMemoryPool H K).Consistent where
  txids_nodup := List.nodup_nil
  rows_parse := fun _ mem => absurd mem List.not_mem_nil
  weights_lt := fun _ mem => absurd mem List.not_mem_nil
  weight_eq := rfl
  sorted_perm := List.Perm.refl _
  spent_perm := fun _ => List.Perm.refl _
  spent_ne_nil := fun _ _ absent => absurd absent (by simp [TxMemoryPool.empty])

/-- The part of `Consistent` that reads the tables and the sorted set alone, whatever the pool's
weight: each hash once in the tables, each blob parsed to a transaction of that hash, and one
sorted entry for each transaction. -/
structure TxMemoryPool.SortedConsistent (pool : TxMemoryPool H K) : Prop where
  txids_nodup : (pool.txpool.map (·.txid)).Nodup
  rows_parse : ∀ row ∈ pool.txpool, ∃ tx, row.blob = some tx ∧ tx.hash = row.txid ∧
    checkInputsTypesSupported tx = true ∧ tx.keyImages.Nodup
  sorted_perm : pool.txsByFeeAndReceiveTime.Perm (pool.txpool.map PoolTx.entry)

omit [DecidableEq H] in
theorem TxMemoryPool.Consistent.sortedConsistent {pool : TxMemoryPool H K}
    (consistent : pool.Consistent) : pool.SortedConsistent :=
  ⟨consistent.txids_nodup, consistent.rows_parse, consistent.sorted_perm⟩

/-- A transaction of hash `hash` whose one input spends the key image `kImage`. -/
def spendingTx (hash kImage : Nat) : Transaction Nat Nat := ⟨hash, [.toKey kImage], 1⟩

/-- A pool over its maximum weight of 15: hash 1 of weight 10 and fee 100, received at time 1000
and spending key image 11, and hash 2 of weight 10 and fee 50, received at 1001 and spending key
image 12. -/
def poolOverBound : TxMemoryPool Nat Nat where
  txpool := [⟨1, ⟨10, 100, false, 1000, false⟩, some (spendingTx 1 11)⟩,
    ⟨2, ⟨10, 50, false, 1001, false⟩, some (spendingTx 2 12)⟩]
  txsByFeeAndReceiveTime := [sortedEntry 1 100 10 1000, sortedEntry 2 50 10 1001]
  spentKeyImages := fun k => if k = 11 then some [1] else if k = 12 then some [2] else none
  txpoolWeight := 20
  txpoolMaxWeight := 15
  timedOutTransactions := []

theorem consistent_poolOverBound : poolOverBound.Consistent where
  txids_nodup := by decide
  rows_parse := by
    intro row mem
    simp only [poolOverBound, List.mem_cons, List.not_mem_nil, or_false] at mem
    rcases mem with rfl | rfl <;> exact ⟨_, rfl, rfl, rfl, by decide⟩
  weights_lt := by decide
  weight_eq := by decide
  sorted_perm := List.Perm.refl _
  spent_perm := by
    intro k
    by_cases first : k = 11
    · subst first
      decide
    by_cases second : k = 12
    · subst second
      decide
    · simp [poolOverBound, first, second, spends, spendingTx, Transaction.keyImages,
        TxIn.keyImage?, Ne.symm first, Ne.symm second]
  spent_ne_nil := by
    intro k s found
    simp only [poolOverBound] at found
    split_ifs at found <;> simp [← Option.some.inj found]

/-! ## 7. The sorted set's comparator -/

/-- Two entries of the same fee per byte and receive time and different hashes are each smaller
than the other. -/
theorem txCompare_of_ne {a b : TxByFeeAndReceiveTimeEntry H} (key : a.1 = b.1) (hash : a.2 ≠ b.2) :
    txCompare a b = true ∧ txCompare b a = true := by
  obtain ⟨⟨fee, time⟩, x⟩ := a
  obtain ⟨⟨fee', time'⟩, y⟩ := b
  obtain ⟨rfl, rfl⟩ := Prod.mk.inj key
  simp [txCompare, hash, Ne.symm hash]

/-- The sorted set's comparator is not a strict weak order, as `std::set` requires: it is not even
asymmetric, once there are two hashes. -/
theorem txCompare_not_isStrictWeakOrder [Nontrivial H] :
    ¬ IsStrictWeakOrder (TxByFeeAndReceiveTimeEntry H) (fun a b => txCompare a b = true) := by
  intro order
  obtain ⟨x, y, ne⟩ := exists_pair_ne H
  have both := txCompare_of_ne (a := ((0, 0), x)) (b := ((0, 0), y)) rfl ne
  have cycle : txCompare ((0, 0), x) ((0, 0), x) = true := order.trans _ _ _ both.1 both.2
  exact order.irrefl _ cycle

/-! ## 8. Taking a transaction keeps the structures consistent -/

/-- A set with the hash taken out, gone once empty: what `remove_transaction_keyimages` leaves for
each key image of the transaction. -/
def eraseHash (id : H) : Option (List H) → Option (List H)
  | none => none
  | some keyImageSet =>
    if (keyImageSet.erase id).isEmpty then none else some (keyImageSet.erase id)

omit [DecidableEq H] [DecidableEq K] in
/-- Inputs that each spend a key image. -/
theorem checkInputsTypesSupported_iff {tx : Transaction H K} :
    checkInputsTypesSupported tx = true ↔ ∀ input ∈ tx.vin, ∃ k, input = .toKey k := by
  unfold checkInputsTypesSupported
  rw [List.all_eq_true]
  refine forall₂_congr fun input _ => ?_
  cases input <;> simp

/-- When every input spends a distinct key image whose set holds the hash, the loop takes the hash
out of each of their sets and leaves the other key images alone. -/
theorem removeTransactionKeyimagesLoop_eq {id : H} :
    ∀ {vin : List (TxIn K)} {spent : K → Option (List H)}, (∀ input ∈ vin, ∃ k, input = .toKey k) →
      (vin.filterMap TxIn.keyImage?).Nodup →
      (∀ k ∈ vin.filterMap TxIn.keyImage?, ∃ s, spent k = some s ∧ id ∈ s) →
      removeTransactionKeyimagesLoop id vin spent =
        (true, fun k => if k ∈ vin.filterMap TxIn.keyImage? then eraseHash id (spent k) else spent k)
  | [], spent, _, _, _ => by simp [removeTransactionKeyimagesLoop]
  | input :: vin, spent, toKey, nodup, holds => by
    obtain ⟨k₀, rfl⟩ := toKey input List.mem_cons_self
    simp only [List.filterMap_cons, TxIn.keyImage?, List.nodup_cons] at nodup holds
    obtain ⟨s, found, member⟩ := holds k₀ List.mem_cons_self
    -- one round of the loop: the set of `k₀` loses the hash
    have round : removeTransactionKeyimagesLoop id (.toKey k₀ :: vin) spent =
        removeTransactionKeyimagesLoop id vin (Function.update spent k₀ (eraseHash id (some s))) := by
      have nonempty : s.isEmpty = false := List.isEmpty_eq_false_iff.mpr (List.ne_nil_of_mem member)
      simp only [removeTransactionKeyimagesLoop, found, nonempty, member, not_true, if_false,
        Bool.false_eq_true, eraseHash]
      split <;> rfl
    have others : ∀ k ∈ vin.filterMap TxIn.keyImage?,
        Function.update spent k₀ (eraseHash id (some s)) k = spent k := fun k mem =>
      Function.update_of_ne (fun same : k = k₀ => nodup.1 (same ▸ mem)) _ _
    rw [round, removeTransactionKeyimagesLoop_eq (fun i mem => toKey i (List.mem_cons_of_mem _ mem))
      nodup.2 fun k mem => others k mem ▸ holds k (List.mem_cons_of_mem _ mem)]
    congr 1
    funext k
    by_cases head : k = k₀
    · subst head
      simp only [List.filterMap_cons, TxIn.keyImage?, List.mem_cons, true_or, if_true,
        if_neg nodup.1, Function.update_self, found]
    · simp only [List.filterMap_cons, TxIn.keyImage?, List.mem_cons, head, false_or,
        Function.update_of_ne head]

theorem getD_eraseHash (id : H) (keyImageSet : Option (List H)) :
    (eraseHash id keyImageSet).getD [] = (keyImageSet.getD []).erase id := by
  cases keyImageSet with
  | none => rfl
  | some keyImageSet =>
    by_cases emptied : (keyImageSet.erase id).isEmpty
    · simp only [eraseHash, emptied, if_true, Option.getD_none, Option.getD_some]
      exact (List.isEmpty_iff.mp emptied).symm
    · simp only [eraseHash, emptied, Bool.false_eq_true, if_false, Option.getD_some]

theorem eraseHash_ne_nil {id : H} {keyImageSet : Option (List H)} {s : List H}
    (erased : eraseHash id keyImageSet = some s) : s ≠ [] := by
  cases keyImageSet with
  | none => cases erased
  | some keyImageSet =>
    by_cases emptied : (keyImageSet.erase id).isEmpty
    · simp [eraseHash, emptied] at erased
    · simp only [eraseHash, emptied, Bool.false_eq_true, if_false, Option.some.injEq] at erased
      subst erased
      exact fun nil => emptied (List.isEmpty_iff.mpr nil)

/-- The tables hold a transaction once, so removing its hash removes exactly its row. -/
theorem perm_cons_removeTxpoolTx {txpool : List (PoolTx H K)} (nodup : (txpool.map (·.txid)).Nodup)
    {row : PoolTx H K} (mem : row ∈ txpool) :
    txpool.Perm (row :: removeTxpoolTx txpool row.txid) := by
  have rowsNodup : txpool.Nodup := List.Nodup.of_map _ nodup
  have same : removeTxpoolTx txpool row.txid = txpool.erase row := by
    rw [rowsNodup.erase_eq_filter, removeTxpoolTx]
    refine List.filter_congr fun other otherMem => ?_
    -- rows of the same hash are the same row
    have sameHash : other.txid = row.txid ↔ other = row :=
      ⟨fun hash => List.inj_on_of_nodup_map nodup otherMem mem hash, fun same => same ▸ rfl⟩
    rw [Bool.eq_iff_iff, bne_iff_ne, bne_iff_ne, ne_eq, ne_eq, sameHash]
  rw [same]
  exact List.perm_cons_erase mem

omit [DecidableEq K] in
theorem not_mem_removeTxpoolTx {txpool : List (PoolTx H K)} {txid : H} {row : PoolTx H K}
    (mem : row ∈ removeTxpoolTx txpool txid) : row.txid ≠ txid :=
  bne_iff_ne.mp (List.mem_filter.mp mem).2

omit [DecidableEq H] in
/-- A sorted entry of a consistent pool with the hash of a row is the row's entry. -/
theorem TxMemoryPool.Consistent.entry_eq {pool : TxMemoryPool H K} (consistent : pool.Consistent)
    {entry : TxByFeeAndReceiveTimeEntry H} (mem : entry ∈ pool.txsByFeeAndReceiveTime)
    {row : PoolTx H K} (rowMem : row ∈ pool.txpool) (hash : entry.2 = row.txid) :
    entry = row.entry := by
  obtain ⟨other, otherMem, rfl⟩ := List.mem_map.mp (consistent.sorted_perm.mem_iff.mp mem)
  rw [List.inj_on_of_nodup_map consistent.txids_nodup otherMem rowMem hash]

omit [DecidableEq H] in
/-- The sorted set of a consistent pool holds each entry once. -/
theorem TxMemoryPool.Consistent.sorted_nodup {pool : TxMemoryPool H K} (consistent : pool.Consistent) :
    pool.txsByFeeAndReceiveTime.Nodup := by
  refine consistent.sorted_perm.nodup_iff.mpr (List.Nodup.of_map (·.2) ?_)
  rw [List.map_map]
  exact consistent.txids_nodup

/-- Removing a transaction of the tables from a consistent pool, with its sorted entry and its
hash in the sets of its key images, as `take_tx` and a round of `prune` do, leaves a consistent
pool exactly when the weight left is the weight of the other transactions. -/
theorem consistent_remove_iff {pool : TxMemoryPool H K} (consistent : pool.Consistent)
    {row : PoolTx H K} (rowMem : row ∈ pool.txpool) {tx : Transaction H K}
    (parsed : row.blob = some tx) (weight : Nat) :
    ({ pool with
        txpool := removeTxpoolTx pool.txpool row.txid
        txpoolWeight := weight
        spentKeyImages := (removeTransactionKeyimages tx pool.spentKeyImages).2
        txsByFeeAndReceiveTime := pool.txsByFeeAndReceiveTime.erase row.entry } :
        TxMemoryPool H K).Consistent ↔
      weight = ((removeTxpoolTx pool.txpool row.txid).map (·.txMeta.weight)).sum % 2 ^ 64 := by
  refine ⟨fun left => left.weight_eq, fun weightLeft => ?_⟩
  -- the tables are the row and the rest
  have split := perm_cons_removeTxpoolTx consistent.txids_nodup rowMem
  set rest := removeTxpoolTx pool.txpool row.txid
  have restSub : ∀ other ∈ rest, other ∈ pool.txpool := fun other mem =>
    (List.mem_filter.mp mem).1
  obtain ⟨tx', parsed', hash, supported, keyImagesNodup⟩ := consistent.rows_parse row rowMem
  rw [parsed] at parsed'
  cases parsed'
  have spentPerm : ∀ k, ((pool.spentKeyImages k).getD []).Perm
      (((row :: rest).filter (spends k)).map (·.txid)) := fun k =>
    (consistent.spent_perm k).trans ((split.filter (spends k)).map _)
  have spendsRow : ∀ k, spends k row = decide (k ∈ tx.keyImages) := fun k => by
    simp [spends, parsed]
  -- every key image of the transaction maps to a set that holds its hash
  have holds : ∀ k ∈ tx.vin.filterMap TxIn.keyImage?,
      ∃ s, pool.spentKeyImages k = some s ∧ tx.hash ∈ s := by
    intro k mem
    have member : tx.hash ∈ (pool.spentKeyImages k).getD [] := by
      refine (spentPerm k).mem_iff.mpr ?_
      simp [spendsRow, Transaction.keyImages, mem, hash]
    cases found : pool.spentKeyImages k with
    | none => simp [found] at member
    | some s => exact ⟨s, rfl, by simpa [found] using member⟩
  have removed := removeTransactionKeyimagesLoop_eq
    ((checkInputsTypesSupported_iff).mp supported) keyImagesNodup holds
  simp only [removeTransactionKeyimages, removed]
  refine
    { txids_nodup := consistent.txids_nodup.sublist ((List.filter_sublist).map _)
      rows_parse := fun other mem => consistent.rows_parse other (restSub other mem)
      weights_lt := fun other mem => consistent.weights_lt other (restSub other mem)
      weight_eq := weightLeft
      sorted_perm := ?_
      spent_perm := ?_
      spent_ne_nil := ?_ }
  · have := (consistent.sorted_perm.trans (split.map _)).erase row.entry
    rwa [List.map_cons, List.erase_cons_head] at this
  · -- the sets of the key images of the transaction lose its hash
    intro k
    by_cases spent : k ∈ tx.vin.filterMap TxIn.keyImage?
    · have spendsK : spends k row = true := by
        simpa [spendsRow, Transaction.keyImages] using spent
      simp only [spent, if_true, getD_eraseHash]
      have := (spentPerm k).erase row.txid
      rwa [List.filter_cons_of_pos spendsK, List.map_cons, List.erase_cons_head, ← hash] at this
    · have spendsK : spends k row = false := by
        simpa [spendsRow, Transaction.keyImages] using spent
      simp only [spent, if_false]
      have := spentPerm k
      rwa [List.filter_cons_of_neg (by simp [spendsK])] at this
  · intro k s found
    by_cases spent : k ∈ tx.vin.filterMap TxIn.keyImage?
    · simp only [spent, if_true] at found
      exact eraseHash_ne_nil found
    · simp only [spent, if_false] at found
      exact consistent.spent_ne_nil k s found

/-- The total weight of a consistent pool split at one of its transactions. -/
theorem TxMemoryPool.Consistent.weight_split {pool : TxMemoryPool H K} (consistent : pool.Consistent)
    {row : PoolTx H K} (rowMem : row ∈ pool.txpool) :
    pool.txpoolWeight =
      (row.txMeta.weight + ((removeTxpoolTx pool.txpool row.txid).map (·.txMeta.weight)).sum) %
        2 ^ 64 := by
  have total := ((perm_cons_removeTxpoolTx consistent.txids_nodup rowMem).map
    (·.txMeta.weight)).sum_eq
  rw [List.map_cons, List.sum_cons] at total
  rw [consistent.weight_eq, total]

/-- `take_tx` keeps the structures consistent: the row of the hash, its sorted entry, its weight
and its hash in the sets of its key images all go. -/
theorem consistent_takeTx {pool : TxMemoryPool H K} (consistent : pool.Consistent) (id : H) :
    (takeTx id pool).2.Consistent := by
  unfold takeTx
  split
  · exact consistent
  rename_i entry foundEntry
  split
  · exact consistent
  rename_i row foundRow
  split
  · exact consistent
  rename_i tx parsed
  have rowMem := List.mem_of_find?_eq_some foundRow
  have rowId : row.txid = id := by simpa using List.find?_some foundRow
  subst rowId
  have entryIsRow : entry = row.entry :=
    consistent.entry_eq (List.mem_of_find?_eq_some foundEntry) rowMem
      (by simpa using List.find?_some foundEntry)
  rw [entryIsRow, consistent_remove_iff consistent rowMem parsed, consistent.weight_split rowMem,
    Stake.sub64]
  -- the row's own weight leaves the total
  have fits := consistent.weights_lt row rowMem
  omega

/-- Taking the first transaction of the pool over its bound leaves the second, consistent. -/
theorem take_tx_from_pool_over_bound :
    poolOverBound.Consistent ∧
      ((takeTx 1 poolOverBound).1.map fun taken => taken.1.hash) = some 1 ∧
      (takeTx 1 poolOverBound).2.txpool.map (·.txid) = [2] ∧
      (takeTx 1 poolOverBound).2.Consistent :=
  ⟨consistent_poolOverBound, rfl, rfl, consistent_takeTx consistent_poolOverBound 1⟩

/-- A round of `prune` on a consistent pool over the bound: the transaction of the entry at
position `i + 1`, not kept by a block and whose blob parses, is removed, and what is left is
consistent exactly when the receive time of the transaction is its weight. -/
theorem pruneLoop_round {pool : TxMemoryPool H K} (consistent : pool.Consistent) {bytes i : Nat}
    {entry : TxByFeeAndReceiveTimeEntry H} {row : PoolTx H K} {tx : Transaction H K}
    (overBound : bytes < pool.txpoolWeight) (atEntry : pool.txsByFeeAndReceiveTime[i + 1]? = some entry)
    (found : findTxpoolTx pool.txpool entry.2 = some row) (notKept : row.txMeta.keptByBlock = false)
    (parsed : row.blob = some tx) (time : row.txMeta.receiveTime < 2 ^ 64) :
    ∃ pool', pruneLoop bytes (i + 1) pool = pruneLoop bytes i pool' ∧
      (pool'.Consistent ↔ row.txMeta.receiveTime = row.txMeta.weight) := by
  have rowMem := List.mem_of_find?_eq_some found
  have rowId : row.txid = entry.2 := by simpa using List.find?_some found
  obtain ⟨bound, atIndex⟩ := List.getElem?_eq_some_iff.mp atEntry
  have entryIsRow : entry = row.entry :=
    consistent.entry_eq (atIndex ▸ List.getElem_mem bound) rowMem rowId.symm
  -- the set holds each entry once, so erasing the position erases the entry
  have erased : pool.txsByFeeAndReceiveTime.eraseIdx (i + 1) =
      pool.txsByFeeAndReceiveTime.erase row.entry := by
    rw [← consistent.sorted_nodup.erase_getElem (i + 1) bound, atIndex, entryIsRow]
  refine ⟨_, ?_, (consistent_remove_iff consistent rowMem parsed
    (Stake.sub64 pool.txpoolWeight row.txMeta.receiveTime)).trans ?_⟩
  · rw [← rowId] at found
    rw [pruneLoop, if_neg (Nat.not_le.mpr overBound), atEntry]
    simp only [found, notKept, Bool.false_eq_true, if_false, parsed, erased, entryIsRow,
      PoolTx.entry, sortedEntry]
  · -- the receive time leaves the total in place of the weight
    rw [consistent.weight_split rowMem, Stake.sub64]
    have fits := consistent.weights_lt row rowMem
    omega

/-! ## 9. A run that breaks the bookkeeping -/

def allChecksPass : AddTxChecks := ⟨true, true, true⟩

/-- `add_tx` into an empty pool of at most 15 bytes of a transaction of weight 10 and fee 100
received at time 1000. -/
def firstAdd : Bool × TxMemoryPool Nat Nat :=
  addTx allChecksPass (spendingTx 1 11) 10 100 1000 false (TxMemoryPool.empty 15)

/-- Then `add_tx` of a transaction of weight 10 and fee 50 received at time 1001: the pool is over
its bound, and `prune` removes the new transaction, of the lower fee per byte. -/
def secondAdd : Bool × TxMemoryPool Nat Nat :=
  addTx allChecksPass (spendingTx 2 12) 10 50 1001 false firstAdd.2

/-- The second `add_tx` brings the pool over its bound, and then prunes it. -/
theorem secondAdd_eq : secondAdd.2 = prune 15 poolOverBound := by
  -- what `add_tx` computes, with the set and the map as its operations leave them
  have computed : secondAdd.2 = prune 15 { poolOverBound with
      txsByFeeAndReceiveTime := emplace [sortedEntry 1 100 10 1000] (sortedEntry 2 50 10 1001)
      spentKeyImages := (insertKeyImages (spendingTx 2 12) false
        (insertKeyImages (spendingTx 1 11) false fun _ => none).2).2 } := rfl
  have sorted : emplace [sortedEntry 1 100 10 1000] (sortedEntry 2 50 10 1001) =
      [sortedEntry 1 100 10 1000, sortedEntry 2 50 10 1001] := by decide +kernel
  have spent : (insertKeyImages (spendingTx 2 12) false
      (insertKeyImages (spendingTx 1 11) false fun _ => none).2).2 =
      fun k => if k = 11 then some [1] else if k = 12 then some [2] else none := by
    funext k
    simp only [insertKeyImages, insertKeyImagesLoop, spendingTx]
    by_cases first : k = 11
    · simp [first]
    · by_cases second : k = 12 <;> simp [first, second]
  rw [computed, sorted, spent]
  rfl

theorem add_tx_prune_breaks_txpool_weight :
    (TxMemoryPool.empty 15 : TxMemoryPool Nat Nat).Consistent ∧ firstAdd.1 = true ∧
      secondAdd.1 = true ∧ secondAdd.2.txpool.map (·.txMeta.weight) = [10] ∧
      secondAdd.2.txpoolWeight = 2 ^ 64 - 981 ∧ ¬ secondAdd.2.Consistent ∧
      txCompare (((5 : ℚ), 1000), 1) ((5, 1000), 2) = true ∧
      txCompare (((5 : ℚ), 1000), 2) ((5, 1000), 1) = true := by
  -- the one round of `prune` removes the second transaction from a consistent pool, and takes
  -- its receive time off the weight in place of its weight
  obtain ⟨pool', pruned, consistentIff⟩ := pruneLoop_round (i := 0) consistent_poolOverBound
    (show 15 < poolOverBound.txpoolWeight by decide) rfl rfl rfl rfl (by decide)
  have afterPrune : secondAdd.2 = pool' := by
    rw [secondAdd_eq]
    exact pruned
  refine ⟨consistent_empty 15, by decide +kernel, by decide +kernel, by decide +kernel,
    by decide +kernel, ?_, by decide +kernel, by decide +kernel⟩
  rw [afterPrune, consistentIff]
  decide

end GraftNetwork.Core.MemoryPool

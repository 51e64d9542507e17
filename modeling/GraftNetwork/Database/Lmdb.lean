import Mathlib.Data.List.Basic
import GraftNetwork.Lib.EStateM

/-!
# The blockchain database and its write transactions

A model of what adding a block goes through in `BlockchainDB`
(`src/blockchain_db/blockchain_db.cpp`) and `BlockchainLMDB`
(`src/blockchain_db/lmdb/db_lmdb.cpp`):

* `Tables`: the tables that adding a block writes (blocks, transactions, outputs, spent key
  images), and the writes themselves (`addSpentKey`, `addTransactionData`, `addOutput`,
  `addTransaction`, `addBlockData`) as programs over them that throw the source's exceptions.
* `BlockchainLMDB`: the committed tables, the open write transaction `m_write_txn` with what
  it has written, and `m_batch_active`. `blockTxnStart`, `blockTxnStop` and `blockTxnAbort`
  commit or drop the write transaction only outside a batch, and `blockTxnAbort` throws when
  the thread has neither a write nor a read transaction; `batchStart` and `batchStop` open and
  commit a batch.
* `BlockchainDB.addBlock` and `addBlock`: `BlockchainDB::add_block` and the override of
  `BlockchainLMDB`, which calls `block_txn_abort` on an exception and rethrows it.
* `Tables.removeBlockTables` and `popBlock`: the removals of `BlockchainDB::pop_block`
  (`remove_block`, `remove_transaction`), with the block and transactions that it reads from
  the blobs, in the write transaction of `BlockchainLMDB::pop_block`.

Results:

* `popBlock_after_addBlock`: outside a batch, `pop_block` right after `add_block` gives back the
  committed tables. Each removal takes back one write, from the last
  (`removeTransaction_of_addTransaction`, `removeBlockTables_of_addBlockTables`).
* `unsupported_input_unspends_key_image`: `add_transaction` on an input of a script kind
  removes key images that it never added, also ones spent by another transaction.
* `addBlock_run_in_batch`: inside a batch, `block_txn_abort` keeps the batch transaction, so
  the writes that a failed `add_block` made before it threw stay there.

Hashes and key images are of any types with decidable equality. A table is a list in the
order of its keys (height, transaction id). The hard-fork object that `add_block` tells about
the block is a state of any type with its `add` as a parameter. Only one thread writes, so the
`m_writer` checks pass, and LMDB's own failures (a full map, a failed commit) are left out.
-/

namespace GraftNetwork.Database

/-- An input of a transaction (`txin_v`): `txin_gen`, `txin_to_key` with its key image, or one
of the script kinds. -/
inductive TxIn (K : Type)
  | gen
  | toKey (kImage : K)
  | other
deriving DecidableEq, Repr

/-- What adding a transaction reads of it: its hash, its inputs and how many outputs it has. -/
structure Transaction (H K : Type) where
  hash : H
  vin : List (TxIn K)
  voutCount : Nat
deriving DecidableEq, Repr

/-- What adding a block reads of it. -/
structure Block (H K : Type) where
  hash : H
  prevId : H
  minerTx : Transaction H K
  txHashes : List H
deriving DecidableEq, Repr

/-- The key image that an input spends. -/
def TxIn.keyImage? {K : Type} : TxIn K → Option K
  | .gen => none
  | .toKey kImage => some kImage
  | .other => none

/-- The key images that a transaction's inputs spend. -/
def Transaction.keyImages {H K : Type} (tx : Transaction H K) : List K :=
  tx.vin.filterMap TxIn.keyImage?

/-- The tables that adding a block writes: block hashes by height (`blocks`, `block_info`,
`block_heights`), transaction hashes by transaction id (`tx_indices` and the blobs), outputs
with the transaction and index they come from, and spent key images. -/
structure Tables (H K : Type) where
  blocks : List H
  txs : List H
  outputs : List (H × Nat)
  spentKeys : List K
deriving DecidableEq, Repr

/-- The exceptions of the database that adding and removing a block can throw, with their
texts. -/
inductive DbException
  | keyImageExists (what : String)
  | txExists (what : String)
  | blockExists (what : String)
  | blockParentDne (what : String)
  | blockDne (what : String)
  | txDne (what : String)
  | dbErrorTxnStart (what : String)
  | dbError (what : String)
  | runtimeError (what : String)
deriving DecidableEq, Repr

/-- Whether the exception is `DB_ERROR_TXN_START`, which `BlockchainLMDB::add_block` rethrows
without aborting. -/
def DbException.isTxnStart : DbException → Bool
  | .dbErrorTxnStart _ => true
  | _ => false

variable {H K : Type} [DecidableEq H] [DecidableEq K]

/-! ## The writes -/

namespace Tables

/-- `add_spent_key(k_image)`: `MDB_NODUPDATA` refuses a key image that is there already. -/
def addSpentKey (kImage : K) : EStateM DbException (Tables H K) Unit := do
  let t ← get
  if kImage ∈ t.spentKeys then
    throw (.keyImageExists "Attempting to add spent key image that's already in the db")
  set { t with spentKeys := t.spentKeys ++ [kImage] }

/-- `remove_spent_key(k_image)`. -/
def removeSpentKey (kImage : K) : EStateM DbException (Tables H K) Unit :=
  modify fun t => { t with spentKeys := t.spentKeys.erase kImage }

/-- `add_transaction_data`: a transaction whose hash is there already is refused; the new one
gets the next transaction id. -/
def addTransactionData (txHash : H) : EStateM DbException (Tables H K) Nat := do
  let t ← get
  if txHash ∈ t.txs then
    throw (.txExists ("Attempting to add transaction that's already in the db (tx id " ++
      toString (t.txs.idxOf txHash) ++ ")"))
  set { t with txs := t.txs ++ [txHash] }
  pure t.txs.length

/-- `add_output` for output `index` of a transaction. -/
def addOutput (txHash : H) (index : Nat) : EStateM DbException (Tables H K) Unit :=
  modify fun t => { t with outputs := t.outputs ++ [(txHash, index)] }

/-- The loop of `add_transaction` over the outputs `index`, `index + 1`, .. of a transaction. -/
def addOutputs (txHash : H) : Nat → Nat → EStateM DbException (Tables H K) Unit
  | _, 0 => pure ()
  | index, count + 1 => do
    addOutput txHash index
    addOutputs txHash (index + 1) count

/-- The removal loop of `add_transaction` after an input of an unsupported kind: the key
images of every `txin_to_key` input of the transaction. -/
def removeSpentKeys : List (TxIn K) → EStateM DbException (Tables H K) Unit
  | [] => pure ()
  | .toKey kImage :: rest => do
    removeSpentKey kImage
    removeSpentKeys rest
  | _ :: rest => removeSpentKeys rest

/-- The input loop of `add_transaction(blk_hash, tx)` over the inputs `vin` of the
transaction: a `txin_to_key` input spends its key image, and an input of another kind than
`txin_gen` removes the key images of all of `vin` and ends the addition (`false`). -/
def addInputs (vin : List (TxIn K)) : List (TxIn K) → EStateM DbException (Tables H K) Bool
  | [] => pure true
  | .toKey kImage :: rest => do
    addSpentKey kImage
    addInputs vin rest
  | .gen :: rest => addInputs vin rest
  | .other :: _ => do
    removeSpentKeys vin
    pure false

/-- `BlockchainDB::add_transaction(blk_hash, tx, tx_hash)`. -/
def addTransaction (tx : Transaction H K) (txHash : H) : EStateM DbException (Tables H K) Unit := do
  if !(← addInputs tx.vin tx.vin) then return
  let _ ← addTransactionData txHash
  addOutputs txHash 0 tx.voutCount

/-- The loop of `BlockchainDB::add_block` over the block's transactions, each with its hash
from `blk.tx_hashes`. -/
def addTransactions : List (Transaction H K × H) → EStateM DbException (Tables H K) Unit
  | [] => pure ()
  | (tx, txHash) :: rest => do
    addTransaction tx txHash
    addTransactions rest

/-- The private `BlockchainLMDB::add_block`: the block is refused when its hash is there
already, or when it does not extend the top block; otherwise it becomes the top block. -/
def addBlockData (blk : Block H K) : EStateM DbException (Tables H K) Unit := do
  let t ← get
  if blk.hash ∈ t.blocks then throw (.blockExists "Attempting to add block that's already in the db")
  if t.blocks ≠ [] then
    if blk.prevId ∉ t.blocks then
      throw (.dbError "Failed to get top block hash to check for new block's parent: ")
    if t.blocks.idxOf blk.prevId ≠ t.blocks.length - 1 then
      throw (.blockParentDne "Top block is not new block's parent")
  set { t with blocks := t.blocks ++ [blk.hash] }

/-- The writes of `BlockchainDB::add_block` between `block_txn_start` and the hard-fork
update: the miner transaction, the block's transactions, then the block. -/
def addBlockTables (blk : Block H K) (txs : List (Transaction H K)) :
    EStateM DbException (Tables H K) Unit := do
  addTransaction blk.minerTx blk.minerTx.hash
  addTransactions (txs.zip blk.txHashes)
  addBlockData blk

/-! ## Removing the top block -/

/-- `remove_block()`: the top block leaves `blocks`. -/
def removeBlock : EStateM DbException (Tables H K) Unit := do
  let t ← get
  if t.blocks = [] then throw (.blockDne "Attempting to remove block from an empty blockchain")
  set { t with blocks := t.blocks.dropLast }

/-- `remove_transaction_data(tx_hash, tx)`: the transaction's entry and, through
`remove_tx_outputs`, the outputs recorded for it. -/
def removeTransactionData (txHash : H) : EStateM DbException (Tables H K) Unit := do
  let t ← get
  if txHash ∉ t.txs then throw (.txDne "Attempting to remove transaction that isn't in the db")
  set { t with txs := t.txs.erase txHash, outputs := t.outputs.filter (·.1 != txHash) }

/-- `BlockchainDB::remove_transaction(tx_hash)`, with the transaction that `get_tx(tx_hash)`
reads: the key images of its `txin_to_key` inputs, then its data. -/
def removeTransaction (tx : Transaction H K) (txHash : H) : EStateM DbException (Tables H K) Unit := do
  removeSpentKeys tx.vin
  removeTransactionData txHash

/-- The loop of `BlockchainDB::pop_block` over the block's transactions, each with its hash. -/
def removeTransactions : List (Transaction H K × H) → EStateM DbException (Tables H K) Unit
  | [] => pure ()
  | (tx, txHash) :: rest => do
    removeTransaction tx txHash
    removeTransactions rest

/-- The writes of `BlockchainDB::pop_block(blk, txs)`, with the block and the transactions that
it reads from the blobs: the block, its transactions from the last one, then its miner
transaction. -/
def removeBlockTables (blk : Block H K) (txs : List (Transaction H K)) :
    EStateM DbException (Tables H K) Unit := do
  removeBlock
  removeTransactions (txs.zip blk.txHashes).reverse
  removeTransaction blk.minerTx blk.minerTx.hash

/-! ## What the writes do when they succeed -/

/-- The tables grown by a transaction: its hash, its outputs and the key images it spends. -/
def withTransaction (t : Tables H K) (tx : Transaction H K) (txHash : H) : Tables H K :=
  { t with
    txs := t.txs ++ [txHash]
    outputs := t.outputs ++ (List.range tx.voutCount).map (txHash, ·)
    spentKeys := t.spentKeys ++ tx.keyImages }

/-- The tables grown by a block and its transactions: the block's hash, the hashes of its
miner transaction and of its transactions, their outputs and the key images they spend. -/
def withBlock (t : Tables H K) (blk : Block H K) (txs : List (Transaction H K)) : Tables H K where
  blocks := t.blocks ++ [blk.hash]
  txs := t.txs ++ blk.minerTx.hash :: blk.txHashes
  outputs := t.outputs ++ ((blk.minerTx, blk.minerTx.hash) :: txs.zip blk.txHashes).flatMap
    fun added => (List.range added.1.voutCount).map (added.2, ·)
  spentKeys := t.spentKeys ++ (blk.minerTx :: txs).flatMap Transaction.keyImages

/-- An input that `add_transaction` handles: not one of the script kinds. -/
def Supported (vin : List (TxIn K)) : Prop := ∀ input ∈ vin, input ≠ .other

variable {t t' : Tables H K}

omit [DecidableEq H] in
theorem addSpentKey_run (kImage : K) (t : Tables H K) :
    (addSpentKey kImage).run t =
      if kImage ∈ t.spentKeys then
        .error (.keyImageExists "Attempting to add spent key image that's already in the db") t
      else .ok () { t with spentKeys := t.spentKeys ++ [kImage] } := by
  by_cases spent : kImage ∈ t.spentKeys <;> simp [addSpentKey, spent]

omit [DecidableEq H] in
theorem addSpentKey_ok {kImage : K} {u : Unit} (ran : (addSpentKey kImage).run t = .ok u t') :
    kImage ∉ t.spentKeys ∧ t' = { t with spentKeys := t.spentKeys ++ [kImage] } := by
  rw [addSpentKey_run] at ran
  split_ifs at ran with spent
  cases ran
  exact ⟨spent, rfl⟩

omit [DecidableEq H] [DecidableEq K] in
theorem addOutputs_run (txHash : H) :
    ∀ (index count : Nat) (t : Tables H K), (addOutputs txHash index count).run t =
      .ok () { t with outputs := t.outputs ++ (List.range' index count).map (txHash, ·) }
  | _, 0, t => by simp [addOutputs]
  | index, count + 1, t => by
    simp only [addOutputs, EStateM.run_bind, addOutput, EStateM.run_modify]
    rw [addOutputs_run txHash (index + 1) count, List.range'_succ]
    simp

omit [DecidableEq H] in
theorem addInputs_ok (vin : List (TxIn K)) :
    ∀ {rest : List (TxIn K)} {t t' : Tables H K} {added : Bool}, Supported rest →
      (addInputs vin rest).run t = .ok added t' →
        added = true ∧ t' = { t with spentKeys := t.spentKeys ++ rest.filterMap TxIn.keyImage? }
  | [], t, t', added, _, ran => by
    simp only [addInputs, EStateM.run_pure, EStateM.Result.ok.injEq] at ran
    obtain ⟨rfl, rfl⟩ := ran
    simp
  | .toKey kImage :: rest, t, t', added, supported, ran => by
    have later : Supported rest := fun input mem => supported input (List.mem_cons_of_mem _ mem)
    obtain ⟨_, t₁, spent, ran⟩ := EStateM.run_bind_ok ran
    obtain ⟨-, rfl⟩ := addSpentKey_ok spent
    obtain ⟨rfl, rfl⟩ := addInputs_ok vin later ran
    simp [TxIn.keyImage?]
  | .gen :: rest, t, t', added, supported, ran => by
    have later : Supported rest := fun input mem => supported input (List.mem_cons_of_mem _ mem)
    obtain ⟨rfl, rfl⟩ := addInputs_ok vin later ran
    simp [List.filterMap_cons, TxIn.keyImage?]
  | .other :: _, _, _, _, supported, _ => absurd rfl (supported _ List.mem_cons_self)

omit [DecidableEq K] in
theorem addTransactionData_run (txHash : H) (t : Tables H K) :
    (addTransactionData txHash).run t =
      if txHash ∈ t.txs then
        .error (.txExists ("Attempting to add transaction that's already in the db (tx id " ++
          toString (t.txs.idxOf txHash) ++ ")")) t
      else .ok t.txs.length { t with txs := t.txs ++ [txHash] } := by
  by_cases known : txHash ∈ t.txs <;> simp [addTransactionData, known]

omit [DecidableEq K] in
theorem addTransactionData_ok {txHash : H} {id : Nat}
    (ran : (addTransactionData txHash).run t = .ok id t') :
    txHash ∉ t.txs ∧ t' = { t with txs := t.txs ++ [txHash] } := by
  rw [addTransactionData_run] at ran
  split_ifs at ran with known
  cases ran
  exact ⟨known, rfl⟩

theorem addTransaction_ok {tx : Transaction H K} {txHash : H} {u : Unit}
    (supported : Supported tx.vin) (ran : (addTransaction tx txHash).run t = .ok u t') :
    t' = t.withTransaction tx txHash := by
  obtain ⟨added, t₁, inputs, ran⟩ := EStateM.run_bind_ok ran
  obtain ⟨rfl, rfl⟩ := addInputs_ok tx.vin supported inputs
  obtain ⟨_, t₂, data, ran⟩ := EStateM.run_bind_ok ran
  obtain ⟨-, rfl⟩ := addTransactionData_ok data
  rw [addOutputs_run, EStateM.Result.ok.injEq] at ran
  rw [← ran.2]
  simp [withTransaction, Transaction.keyImages, List.range_eq_range']

theorem addTransactions_ok :
    ∀ {added : List (Transaction H K × H)} {t t' : Tables H K} {u : Unit},
      (∀ p ∈ added, Supported p.1.vin) → (addTransactions added).run t = .ok u t' →
        t' = added.foldl (fun t p => t.withTransaction p.1 p.2) t
  | [], t, t', u, _, ran => by
    simp only [addTransactions, EStateM.run_pure, EStateM.Result.ok.injEq] at ran
    exact ran.2.symm
  | (tx, txHash) :: rest, t, t', u, supported, ran => by
    have later : ∀ p ∈ rest, Supported p.1.vin :=
      fun p mem => supported p (List.mem_cons_of_mem _ mem)
    obtain ⟨_, t₁, first, ran⟩ := EStateM.run_bind_ok ran
    rw [addTransaction_ok (supported _ List.mem_cons_self) first] at ran
    rw [List.foldl_cons]
    exact addTransactions_ok later ran

omit [DecidableEq K] in
theorem addBlockData_run (blk : Block H K) (t : Tables H K) :
    (addBlockData blk).run t =
      if blk.hash ∈ t.blocks then .error (.blockExists "Attempting to add block that's already in the db") t
      else if t.blocks ≠ [] ∧ blk.prevId ∉ t.blocks then
        .error (.dbError "Failed to get top block hash to check for new block's parent: ") t
      else if t.blocks ≠ [] ∧ t.blocks.idxOf blk.prevId ≠ t.blocks.length - 1 then
        .error (.blockParentDne "Top block is not new block's parent") t
      else .ok () { t with blocks := t.blocks ++ [blk.hash] } := by
  by_cases known : blk.hash ∈ t.blocks
  · simp [addBlockData, known]
  by_cases empty : t.blocks = []
  · simp [addBlockData, empty]
  by_cases parent : blk.prevId ∈ t.blocks <;>
    by_cases top : t.blocks.idxOf blk.prevId = t.blocks.length - 1 <;>
    simp [addBlockData, known, empty, parent, top]

omit [DecidableEq K] in
theorem addBlockData_ok {blk : Block H K} {u : Unit} (ran : (addBlockData blk).run t = .ok u t') :
    t' = { t with blocks := t.blocks ++ [blk.hash] } := by
  rw [addBlockData_run] at ran
  split_ifs at ran
  cases ran
  rfl

omit [DecidableEq H] [DecidableEq K] in
theorem foldl_withTransaction (added : List (Transaction H K × H)) (t : Tables H K) :
    added.foldl (fun t p => t.withTransaction p.1 p.2) t =
      { t with
        txs := t.txs ++ added.map Prod.snd
        outputs := t.outputs ++ added.flatMap fun p => (List.range p.1.voutCount).map (p.2, ·)
        spentKeys := t.spentKeys ++ added.flatMap fun p => p.1.keyImages } := by
  induction added generalizing t with
  | nil => simp
  | cons p rest ih =>
    rw [List.foldl_cons, ih]
    simp [withTransaction]

/-- The writes of `add_block` that succeed on transactions of supported inputs add exactly the
block and its transactions. -/
theorem addBlockTables_ok {blk : Block H K} {txs : List (Transaction H K)} {u : Unit}
    (sizes : blk.txHashes.length = txs.length) (miner : Supported blk.minerTx.vin)
    (inputs : ∀ tx ∈ txs, Supported tx.vin) (ran : (addBlockTables blk txs).run t = .ok u t') :
    t' = t.withBlock blk txs := by
  obtain ⟨_, t₁, first, ran⟩ := EStateM.run_bind_ok ran
  rw [addTransaction_ok miner first] at ran
  obtain ⟨_, t₂, rest, ran⟩ := EStateM.run_bind_ok ran
  have paired : ∀ p ∈ txs.zip blk.txHashes, Supported p.1.vin :=
    fun p mem => inputs p.1 (List.of_mem_zip mem).1
  rw [addTransactions_ok paired rest, foldl_withTransaction] at ran
  have keys : (txs.zip blk.txHashes).flatMap (fun p => p.1.keyImages) =
      txs.flatMap Transaction.keyImages := by
    rw [← List.flatMap_map, List.map_fst_zip (by omega)]
  rw [addBlockData_ok ran, List.map_snd_zip (by omega), keys]
  simp [withBlock, withTransaction]

/-! ## What the writes throw -/

open EStateM (ThrowsOnly)

/-- The writes throw the exceptions of the tables only, never `DB_ERROR_TXN_START`. -/
def TableError (e : DbException) : Prop := e.isTxnStart = false

omit [DecidableEq H] in
theorem throwsOnly_addSpentKey (kImage : K) :
    ThrowsOnly TableError (addSpentKey kImage : EStateM DbException (Tables H K) Unit) := by
  intro t e t' ran
  rw [addSpentKey_run] at ran
  split_ifs at ran
  cases ran
  rfl

omit [DecidableEq H] in
theorem throwsOnly_removeSpentKeys :
    ∀ vin : List (TxIn K), ThrowsOnly TableError (removeSpentKeys vin : EStateM DbException (Tables H K) Unit)
  | [] => EStateM.throwsOnly_pure _
  | .toKey _ :: rest => (EStateM.throwsOnly_modify _).bind fun _ => throwsOnly_removeSpentKeys rest
  | .gen :: rest => throwsOnly_removeSpentKeys rest
  | .other :: rest => throwsOnly_removeSpentKeys rest

omit [DecidableEq H] in
theorem throwsOnly_addInputs (vin : List (TxIn K)) :
    ∀ rest : List (TxIn K), ThrowsOnly TableError (addInputs vin rest : EStateM DbException (Tables H K) Bool)
  | [] => EStateM.throwsOnly_pure _
  | .toKey kImage :: rest => (throwsOnly_addSpentKey kImage).bind fun _ => throwsOnly_addInputs vin rest
  | .gen :: rest => throwsOnly_addInputs vin rest
  | .other :: _ => (throwsOnly_removeSpentKeys vin).bind fun _ => EStateM.throwsOnly_pure _

theorem throwsOnly_addTransaction (tx : Transaction H K) (txHash : H) :
    ThrowsOnly TableError (addTransaction tx txHash) := by
  refine (throwsOnly_addInputs tx.vin tx.vin).bind fun added => EStateM.throwsOnly_ite
    (EStateM.throwsOnly_pure _) (ThrowsOnly.bind ?_ fun _ => ?_)
  · intro t e t' ran
    rw [addTransactionData_run] at ran
    split_ifs at ran
    cases ran
    rfl
  · intro t e t' ran
    rw [addOutputs_run] at ran
    cases ran

theorem throwsOnly_addTransactions :
    ∀ added : List (Transaction H K × H), ThrowsOnly TableError (addTransactions added)
  | [] => EStateM.throwsOnly_pure _
  | (tx, txHash) :: rest =>
    (throwsOnly_addTransaction tx txHash).bind fun _ => throwsOnly_addTransactions rest

theorem throwsOnly_addBlockTables (blk : Block H K) (txs : List (Transaction H K)) :
    ThrowsOnly TableError (addBlockTables blk txs) := by
  refine (throwsOnly_addTransaction _ _).bind fun _ => (throwsOnly_addTransactions _).bind fun _ => ?_
  intro t e t' ran
  rw [addBlockData_run] at ran
  split_ifs at ran <;> cases ran <;> rfl

/-! ## Removing what was added -/

/-- Every output belongs to a transaction of the table: `tx_outputs` is keyed by the
transaction's id, so removing a transaction's outputs removes those of no other. -/
def OutputsKnown (t : Tables H K) : Prop := ∀ output ∈ t.outputs, output.1 ∈ t.txs

omit [DecidableEq H] in
/-- The key images that `add_transaction` spends were not spent before. -/
theorem addInputs_fresh (vin : List (TxIn K)) :
    ∀ {rest : List (TxIn K)} {t t' : Tables H K} {added : Bool}, Supported rest →
      (addInputs vin rest).run t = .ok added t' → ∀ k ∈ rest.filterMap TxIn.keyImage?, k ∉ t.spentKeys
  | [], _, _, _, _, _ => by simp
  | .toKey kImage :: rest, t, t', added, supported, ran => by
    have later : Supported rest := fun input mem => supported input (List.mem_cons_of_mem _ mem)
    obtain ⟨_, t₁, spent, ran⟩ := EStateM.run_bind_ok ran
    obtain ⟨unspent, rfl⟩ := addSpentKey_ok spent
    have rest_fresh := addInputs_fresh vin later ran
    intro k mem
    simp only [List.filterMap_cons, TxIn.keyImage?, List.mem_cons] at mem
    rcases mem with rfl | mem
    · exact unspent
    · exact fun spent => rest_fresh k mem (List.mem_append_left _ spent)
  | .gen :: rest, _, _, _, supported, ran => by
    have later : Supported rest := fun input mem => supported input (List.mem_cons_of_mem _ mem)
    simpa [List.filterMap_cons, TxIn.keyImage?] using addInputs_fresh vin later ran
  | .other :: _, _, _, _, supported, _ => absurd rfl (supported _ List.mem_cons_self)

omit [DecidableEq H] in
/-- Removing the key images of some inputs, in order, from a set they were appended to fresh
gives back the set. -/
theorem removeSpentKeys_run_appended {spent : List K} :
    ∀ (vin : List (TxIn K)) (t : Tables H K), t.spentKeys = spent ++ vin.filterMap TxIn.keyImage? →
      (∀ k ∈ vin.filterMap TxIn.keyImage?, k ∉ spent) →
      (removeSpentKeys vin).run t = .ok () { t with spentKeys := spent }
  | [], t, appended, _ => by
    simp only [List.filterMap_nil, List.append_nil] at appended
    simp [removeSpentKeys, ← appended]
  | .toKey kImage :: rest, t, appended, fresh => by
    have unspent : kImage ∉ spent := fresh kImage (by simp [TxIn.keyImage?])
    simp only [List.filterMap_cons, TxIn.keyImage?] at appended fresh
    simp only [removeSpentKeys, removeSpentKey, EStateM.run_bind, EStateM.run_modify]
    refine removeSpentKeys_run_appended rest _ ?_ fun k mem => fresh k (List.mem_cons_of_mem _ mem)
    rw [appended, List.erase_append_right _ unspent, List.erase_cons_head]
  | .gen :: rest, t, appended, fresh => by
    simp only [List.filterMap_cons, TxIn.keyImage?] at appended fresh
    exact removeSpentKeys_run_appended rest t appended fresh
  | .other :: rest, t, appended, fresh => by
    simp only [List.filterMap_cons, TxIn.keyImage?] at appended fresh
    exact removeSpentKeys_run_appended rest t appended fresh

/-- `remove_transaction` takes back what `add_transaction` did to a transaction of supported
inputs, and the outputs of the tables stay known. -/
theorem removeTransaction_of_addTransaction {tx : Transaction H K} {txHash : H} {u : Unit}
    (supported : Supported tx.vin) (known : OutputsKnown t)
    (ran : (addTransaction tx txHash).run t = .ok u t') :
    (removeTransaction tx txHash).run t' = .ok () t ∧ OutputsKnown t' := by
  obtain ⟨added, t₁, inputs, rest⟩ := EStateM.run_bind_ok ran
  have keysFresh := addInputs_fresh tx.vin supported inputs
  obtain ⟨rfl, rfl⟩ := addInputs_ok tx.vin supported inputs
  obtain ⟨_, t₂, data, -⟩ := EStateM.run_bind_ok rest
  obtain ⟨hashFresh, -⟩ := addTransactionData_ok data
  have grown := addTransaction_ok supported ran
  subst grown
  -- the outputs of the table belong to other transactions than the new one
  have others : t.outputs.filter (·.1 != txHash) = t.outputs :=
    List.filter_eq_self.mpr fun output mem => by
      have differs : output.1 ≠ txHash := fun same => hashFresh (same ▸ known output mem)
      simpa using differs
  have mine : ((List.range tx.voutCount).map (txHash, ·)).filter (·.1 != txHash) = [] := by
    simp [List.filter_eq_nil_iff]
  constructor
  · have keys := removeSpentKeys_run_appended tx.vin (t.withTransaction tx txHash) rfl keysFresh
    simp only [removeTransaction, EStateM.run_bind, keys, removeTransactionData, EStateM.run_get]
    rw [if_neg (by simp [withTransaction])]
    simp [withTransaction, List.erase_append_right _ hashFresh, others, mine, List.filter_append]
  · intro output mem
    simp only [withTransaction, List.mem_append, List.mem_map, List.mem_range] at mem ⊢
    rcases mem with mem | ⟨index, -, rfl⟩
    · exact .inl (known output mem)
    · exact .inr (List.mem_singleton_self _)

theorem removeTransactions_run_append {t₁ : Tables H K} (first second : List (Transaction H K × H))
    (ran : (removeTransactions first).run t = .ok () t₁) :
    (removeTransactions (first ++ second)).run t = (removeTransactions second).run t₁ := by
  induction first generalizing t with
  | nil =>
    simp only [removeTransactions, EStateM.run_pure, EStateM.Result.ok.injEq, true_and] at ran
    rw [List.nil_append, ran]
  | cons p rest ih =>
    obtain ⟨tx, txHash⟩ := p
    obtain ⟨_, t₂, removed, later⟩ := EStateM.run_bind_ok ran
    rw [List.cons_append, removeTransactions, EStateM.run_bind_of_ok removed]
    exact ih later

/-- The removals of `pop_block`, from the last transaction, take back the transactions that
`add_block` added. -/
theorem removeTransactions_of_addTransactions :
    ∀ {added : List (Transaction H K × H)} {t t' : Tables H K} {u : Unit},
      (∀ p ∈ added, Supported p.1.vin) → OutputsKnown t → (addTransactions added).run t = .ok u t' →
        (removeTransactions added.reverse).run t' = .ok () t ∧ OutputsKnown t'
  | [], t, t', u, _, known, ran => by
    simp only [addTransactions, EStateM.run_pure, EStateM.Result.ok.injEq] at ran
    obtain ⟨-, rfl⟩ := ran
    exact ⟨rfl, known⟩
  | (tx, txHash) :: rest, t, t', u, supported, known, ran => by
    obtain ⟨_, t₁, first, later⟩ := EStateM.run_bind_ok ran
    obtain ⟨undone, known₁⟩ :=
      removeTransaction_of_addTransaction (supported _ List.mem_cons_self) known first
    obtain ⟨undoneLater, known'⟩ := removeTransactions_of_addTransactions
      (fun p mem => supported p (List.mem_cons_of_mem _ mem)) known₁ later
    refine ⟨?_, known'⟩
    rw [List.reverse_cons, removeTransactions_run_append _ _ undoneLater, removeTransactions,
      EStateM.run_bind_of_ok undone]
    rfl

omit [DecidableEq K] in
theorem removeBlock_of_addBlockData {blk : Block H K} {u : Unit}
    (ran : (addBlockData blk).run t = .ok u t') : removeBlock.run t' = .ok () t := by
  rw [addBlockData_ok ran]
  simp [removeBlock]

/-- The writes of `pop_block` take back those of `add_block`, for a block whose transactions
have supported inputs, on tables whose outputs belong to their transactions. -/
theorem removeBlockTables_of_addBlockTables {blk : Block H K} {txs : List (Transaction H K)} {u : Unit}
    (miner : Supported blk.minerTx.vin) (inputs : ∀ tx ∈ txs, Supported tx.vin) (known : OutputsKnown t)
    (ran : (addBlockTables blk txs).run t = .ok u t') : (removeBlockTables blk txs).run t' = .ok () t := by
  obtain ⟨_, t₁, minerAdded, rest⟩ := EStateM.run_bind_ok ran
  obtain ⟨_, t₂, txsAdded, blockAdded⟩ := EStateM.run_bind_ok rest
  obtain ⟨minerUndone, known₁⟩ := removeTransaction_of_addTransaction miner known minerAdded
  obtain ⟨txsUndone, -⟩ := removeTransactions_of_addTransactions
    (fun p mem => inputs p.1 (List.of_mem_zip mem).1) known₁ txsAdded
  rw [removeBlockTables, EStateM.run_bind_of_ok (removeBlock_of_addBlockData blockAdded),
    EStateM.run_bind_of_ok txsUndone, minerUndone]

/-! ## An input of an unsupported kind -/

/-- A transaction whose first input is of a script kind, with a second input that spends the
key image `7`, which the tables already hold as spent by another transaction. `add_transaction`
aborts at the first input after removing the key images of every `txin_to_key` input of the
transaction, so `7` is no longer spent. -/
theorem unsupported_input_unspends_key_image :
    let t : Tables Nat Nat := ⟨[0], [100, 5], [(100, 0), (5, 0)], [7]⟩
    let tx : Transaction Nat Nat := ⟨1, [.other, .toKey 7], 1⟩
    (addTransaction tx tx.hash).run t = .ok () { t with spentKeys := [] } :=
  rfl

end Tables

/-! ## Write transactions and batches -/

/-- The state of a `BlockchainLMDB`: the committed tables, the open write transaction
(`m_write_txn`, which is the batch transaction while a batch is active) with the tables as it
has written them, `m_batch_active`, `m_batch_transactions`, and the hard-fork object that
`m_hardfork` points to. -/
structure BlockchainLMDB (H K F : Type) where
  committed : Tables H K
  writeTxn : Option (Tables H K)
  batchActive : Bool
  batchTransactions : Bool
  hardFork : F

namespace BlockchainLMDB

variable {F : Type}

/-- What reads see: the open write transaction, or the committed tables. -/
def view (db : BlockchainLMDB H K F) : Tables H K := db.writeTxn.getD db.committed

/-- The table writes of a `BlockchainLMDB` method, through the write cursors of the open write
transaction. Every write of the modelled methods comes after a `block_txn_start(false)`, so
the case without a write transaction never arises. -/
def inWriteTxn {α : Type} (x : EStateM DbException (Tables H K) α) :
    EStateM DbException (BlockchainLMDB H K F) α := fun db =>
  match db.writeTxn with
  | none => .error (.dbError "no write transaction") db
  | some t =>
    match x.run t with
    | .ok a t' => .ok a { db with writeTxn := some t' }
    | .error e t' => .error e { db with writeTxn := some t' }

/-- `block_txn_start(readonly)`. A read transaction changes nothing that is modelled; a write
transaction is opened unless a batch is active, whose transaction the writes then go to. -/
def blockTxnStart (readonly : Bool) : EStateM DbException (BlockchainLMDB H K F) Unit := do
  if readonly then return
  let db ← get
  if !db.batchActive && db.writeTxn.isSome then
    throw (.dbErrorTxnStart
      "Attempted to start new write txn when write txn already exists in block_txn_start")
  if !db.batchActive then set { db with writeTxn := some db.committed }

/-- `block_txn_stop()`: commit the write transaction, unless it is the batch's. -/
def blockTxnStop : EStateM DbException (BlockchainLMDB H K F) Unit := do
  let db ← get
  match db.writeTxn with
  | some t => if !db.batchActive then set { db with committed := t, writeTxn := none }
  | none => pure ()

/-- `block_txn_abort()`: drop the write transaction, unless it is the batch's. Without a write
transaction it resets the thread's read transaction when there is one (`readTxn`: the thread's
`m_tinfo` holds `m_ti_rtxn`), which changes nothing modelled, and throws when there is none. -/
def blockTxnAbort (readTxn : Bool) : EStateM DbException (BlockchainLMDB H K F) Unit := do
  let db ← get
  match db.writeTxn with
  | some _ => if !db.batchActive then set { db with writeTxn := none }
  | none =>
    if !readTxn then
      throw (.dbError ("BlockchainLMDB::block_txn_abort" ++
        ": block-level DB transaction abort called when write txn doesn't exist"))

/-- `batch_start()`: `false` when a batch is active already. -/
def batchStart : EStateM DbException (BlockchainLMDB H K F) Bool := do
  let db ← get
  if !db.batchTransactions then throw (.dbError "batch transactions not enabled")
  if db.batchActive then return false
  if db.writeTxn.isSome then
    throw (.dbError "batch transaction attempted, but m_write_txn already in use")
  set { db with writeTxn := some db.committed, batchActive := true }
  return true

/-- `batch_stop()`: commit the batch transaction. -/
def batchStop : EStateM DbException (BlockchainLMDB H K F) Unit := do
  let db ← get
  if !db.batchTransactions then throw (.dbError "batch transactions not enabled")
  if !db.batchActive then throw (.dbError "batch transaction not in progress")
  match db.writeTxn with
  | none => throw (.dbError "batch transaction not in progress")
  | some t => set { db with committed := t, writeTxn := none, batchActive := false }

variable (hardForkAdd : Block H K → Nat → F → F)

/-- `BlockchainDB::add_block(blk, .., txs)`: it returns the height before the block. -/
def BlockchainDB.addBlock (blk : Block H K) (txs : List (Transaction H K)) :
    EStateM DbException (BlockchainLMDB H K F) Nat := do
  if blk.txHashes.length ≠ txs.length then throw (.runtimeError "Inconsistent tx/hashes sizes")
  blockTxnStart false
  let prevHeight := (← get).view.blocks.length
  inWriteTxn (Tables.addBlockTables blk txs)
  modify fun db => { db with hardFork := hardForkAdd blk prevHeight db.hardFork }
  blockTxnStop
  pure prevHeight

/-- `BlockchainLMDB::add_block(blk, .., txs)`: an exception other than `DB_ERROR_TXN_START`
aborts the block's write transaction before it is rethrown. It returns the new height. -/
def addBlock (blk : Block H K) (txs : List (Transaction H K)) :
    EStateM DbException (BlockchainLMDB H K F) Nat := do
  let height := (← get).view.blocks.length
  tryCatch (do let _ ← BlockchainDB.addBlock hardForkAdd blk txs) fun e =>
    match e with
    | .dbErrorTxnStart _ => throw e
    | _ => do
      -- without a write transaction, the `height()` above has opened the thread's read one
      blockTxnAbort true
      throw e
  pure (height + 1)

/-- `BlockchainLMDB::pop_block(blk, txs)`: the removals in a write transaction, which an
exception drops before it is rethrown. -/
def popBlock (blk : Block H K) (txs : List (Transaction H K)) :
    EStateM DbException (BlockchainLMDB H K F) Unit := do
  blockTxnStart false
  tryCatch (do inWriteTxn (Tables.removeBlockTables blk txs); blockTxnStop) fun e => do
    -- the write transaction `block_txn_start(false)` opened, or the batch's, is there
    blockTxnAbort true
    throw e

/-! ## `add_block` inside and outside a batch -/

variable {db : BlockchainLMDB H K F}

omit [DecidableEq H] [DecidableEq K] in
@[simp] theorem blockTxnStart_readonly_run (db : BlockchainLMDB H K F) :
    (blockTxnStart true).run db = .ok () db :=
  rfl

omit [DecidableEq H] [DecidableEq K] in
/-- `block_txn_stop` never throws. -/
theorem blockTxnStop_ok (db : BlockchainLMDB H K F) : ∃ db', blockTxnStop.run db = .ok () db' := by
  obtain ⟨committed, writeTxn, batchActive, batchTransactions, hardFork⟩ := db
  cases writeTxn with
  | none => exact ⟨_, rfl⟩
  | some t => cases batchActive <;> exact ⟨_, rfl⟩

omit [DecidableEq H] [DecidableEq K] in
theorem blockTxnStop_run_of_none (noTxn : db.writeTxn = none) : blockTxnStop.run db = .ok () db := by
  obtain ⟨committed, writeTxn, batchActive, batchTransactions, hardFork⟩ := db
  cases noTxn
  rfl

omit [DecidableEq H] [DecidableEq K] in
@[simp] theorem inWriteTxn_run {α : Type} (x : EStateM DbException (Tables H K) α)
    (committed t : Tables H K) (batchActive batchTransactions : Bool) (hardFork : F) :
    (inWriteTxn x).run (⟨committed, some t, batchActive, batchTransactions, hardFork⟩ :
        BlockchainLMDB H K F) =
      match x.run t with
      | .ok a t' => .ok a ⟨committed, some t', batchActive, batchTransactions, hardFork⟩
      | .error e t' => .error e ⟨committed, some t', batchActive, batchTransactions, hardFork⟩ :=
  rfl

/-- Outside a batch, `add_block` commits all of its writes or none: when it throws, the
database is as it was before. -/
theorem addBlock_run_outside_batch (blk : Block H K) (txs : List (Transaction H K))
    (noTxn : db.writeTxn = none) (noBatch : db.batchActive = false) :
    (addBlock hardForkAdd blk txs).run db =
      if blk.txHashes.length ≠ txs.length then .error (.runtimeError "Inconsistent tx/hashes sizes") db
      else match (Tables.addBlockTables blk txs).run db.committed with
        | .ok _ t => .ok (db.committed.blocks.length + 1)
            { db with committed := t, hardFork := hardForkAdd blk db.committed.blocks.length db.hardFork }
        | .error e _ => .error e db := by
  obtain ⟨committed, writeTxn, batchActive, batchTransactions, hardFork⟩ := db
  cases noTxn
  cases noBatch
  by_cases sizes : blk.txHashes.length ≠ txs.length
  · simp [addBlock, BlockchainDB.addBlock, sizes, blockTxnAbort, view]
  · cases ran : (Tables.addBlockTables blk txs).run committed with
    | ok u t =>
      simp [addBlock, BlockchainDB.addBlock, sizes, blockTxnStart, blockTxnStop, view, ran]
    | error e t =>
      have table : e.isTxnStart = false := Tables.throwsOnly_addBlockTables blk txs _ _ _ ran
      cases e <;> simp_all [addBlock, BlockchainDB.addBlock, blockTxnStart, blockTxnAbort, view,
        DbException.isTxnStart]

/-- Outside a batch, `pop_block` commits all of its removals or none. -/
theorem popBlock_run_outside_batch (blk : Block H K) (txs : List (Transaction H K))
    (noTxn : db.writeTxn = none) (noBatch : db.batchActive = false) :
    (popBlock blk txs).run db =
      match (Tables.removeBlockTables blk txs).run db.committed with
      | .ok _ t => .ok () { db with committed := t }
      | .error e _ => .error e db := by
  obtain ⟨committed, writeTxn, batchActive, batchTransactions, hardFork⟩ := db
  cases noTxn
  cases noBatch
  cases ran : (Tables.removeBlockTables blk txs).run committed with
  | ok u t => simp [popBlock, blockTxnStart, blockTxnStop, ran]
  | error e t => simp [popBlock, blockTxnStart, blockTxnAbort, ran]

/-- Outside a batch, `pop_block` right after an `add_block` that succeeded gives back the
committed tables, for a block whose transactions have supported inputs and tables whose outputs
belong to their transactions. The hard-fork object keeps the block that `add_block` told it
about. -/
theorem popBlock_after_addBlock (blk : Block H K) (txs : List (Transaction H K))
    (noTxn : db.writeTxn = none) (noBatch : db.batchActive = false)
    (miner : Tables.Supported blk.minerTx.vin) (inputs : ∀ tx ∈ txs, Tables.Supported tx.vin)
    (known : db.committed.OutputsKnown) {height : Nat} {db' : BlockchainLMDB H K F}
    (added : (addBlock hardForkAdd blk txs).run db = .ok height db') :
    (popBlock blk txs).run db' = .ok () { db' with committed := db.committed } := by
  rw [addBlock_run_outside_batch hardForkAdd blk txs noTxn noBatch] at added
  split_ifs at added
  cases tables : (Tables.addBlockTables blk txs).run db.committed with
  | error e t =>
    rw [tables] at added
    cases added
  | ok u t =>
    rw [tables, EStateM.Result.ok.injEq] at added
    obtain ⟨-, rfl⟩ := added
    rw [popBlock_run_outside_batch blk txs (by exact noTxn) (by exact noBatch),
      Tables.removeBlockTables_of_addBlockTables miner inputs known tables]

theorem popBlock_after_addBlock_at_genesis :
    let db : BlockchainLMDB Nat Nat Unit := ⟨⟨[0], [100], [(100, 0)], []⟩, none, false, true, ()⟩
    let blk : Block Nat Nat := ⟨3, 0, ⟨110, [.gen], 1⟩, [1]⟩
    let txs : List (Transaction Nat Nat) := [⟨1, [.toKey 7], 1⟩]
    let db' : BlockchainLMDB Nat Nat Unit := { db with committed := db.committed.withBlock blk txs }
    db.writeTxn = none ∧ db.batchActive = false ∧ Tables.Supported blk.minerTx.vin ∧
      (∀ tx ∈ txs, Tables.Supported tx.vin) ∧ db.committed.OutputsKnown ∧
      (addBlock (fun _ _ _ => ()) blk txs).run db = .ok 2 db' ∧
      (popBlock blk txs).run db' = .ok () { db' with committed := db.committed } := by
  intro db blk txs db'
  have added : (addBlock (fun _ _ _ => ()) blk txs).run db = .ok 2 db' := rfl
  have miner : Tables.Supported blk.minerTx.vin := by simp [blk, Tables.Supported]
  have inputs : ∀ tx ∈ txs, Tables.Supported tx.vin := by simp [txs, Tables.Supported]
  have known : db.committed.OutputsKnown := by simp [db, Tables.OutputsKnown]
  exact ⟨rfl, rfl, miner, inputs, known, added,
    popBlock_after_addBlock _ blk txs rfl rfl miner inputs known added⟩

end BlockchainLMDB

end GraftNetwork.Database

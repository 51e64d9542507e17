import GraftNetwork.Database.Lmdb

/-!
# Adding a block to the main chain

A model of how `Blockchain` (`src/cryptonote_core/blockchain.cpp`) takes the transactions of a
block from the pool and hands them to the database:

* `TxPool.takeTx` and `TxPool.addTx`: `tx_memory_pool::take_tx`, and `add_tx` for a
  transaction that comes back from a block (`kept_by_block`).
* `Blockchain.handleBlockToMainChain`: the checks of `handle_block_to_main_chain`, its loop
  `takeBlockTxs` that takes each transaction of the block from the pool and checks its inputs,
  and the call of `add_block`, whose exceptions are caught: the transactions go back to the
  pool and the call returns `false`.
* `prepareHandleIncomingBlocks` and `cleanupHandleIncomingBlocks`: the batch that a run of
  synced blocks is added in.

The checks whose data the model leaves out (the proof of work, timestamps, ring signatures,
the miner reward) are the verdicts of a `Checks`.

Results:

* `handleBlockToMainChain_outside_batch`: outside a batch a block goes in whole or not at all.
  When the call returns `false` the database is as it was; when it returns `true` the
  committed tables grew by the block and the transactions of the pool that it lists.
* `handleBlockToMainChain_returns_taken`: the transactions taken from the pool for a block that
  is refused are back in the pool.
* `batch_commits_failed_block`: inside a batch the writes that a failed `add_block` made before
  it threw stay in the batch, and `cleanup_handle_incoming_blocks` commits them.
-/

namespace GraftNetwork.Core

open GraftNetwork.Database

variable {H K F : Type} [DecidableEq H] [DecidableEq K]

/-- The verdicts of the checks of `handle_block_to_main_chain` that read data the model leaves
out. -/
structure Checks (H K : Type) where
  /-- `m_hardfork->check`, `check_block_timestamp`, the difficulty, the proof of work and the
  checkpoints. -/
  checkBlock : Tables H K → Block H K → Bool
  /-- The height, unlock-time and overflow checks of `prevalidate_miner_transaction`. -/
  checkMinerTx : Block H K → Nat → Bool
  /-- The ring-size, version and input-order checks at the start of `check_tx_inputs`. -/
  checkTxVersion : Tables H K → Transaction H K → Bool
  /-- `check_tx_input` and the ring signature of the input that spends a key image. -/
  checkTxInput : Tables H K → Transaction H K → K → Bool
  /-- `validate_miner_transaction`: the reward of the miner transaction against the fees. -/
  validateMinerTransaction : Tables H K → Block H K → List (Transaction H K) → Bool
  /-- The checks of `add_tx` that a transaction kept by a block still has to pass (its version,
  input kinds, weight and outputs). -/
  admitTx : Transaction H K → Bool

/-! ## The pool -/

namespace TxPool

/-- `take_tx(id, ..)`: the pool's transaction of hash `id`, and the pool without it. -/
def takeTx (pool : List (Transaction H K)) (id : H) :
    Option (Transaction H K × List (Transaction H K)) :=
  (pool.find? (·.hash == id)).map fun tx => (tx, pool.erase tx)

/-- `add_tx(tx, tvc, kept_by_block = true, ..)`: the checks left for a transaction kept by a
block are `admitTx`, and the pool's table refuses a second transaction of the same hash. -/
def addTx (admitTx : Transaction H K → Bool) (pool : List (Transaction H K))
    (tx : Transaction H K) : List (Transaction H K) :=
  if admitTx tx = true ∧ tx.hash ∉ pool.map Transaction.hash then pool ++ [tx] else pool

/-- Transactions that can all come back to the pool: `add_tx` admits each, and no two have the
same hash. -/
def Returnable (admitTx : Transaction H K → Bool) (pool : List (Transaction H K)) : Prop :=
  (∀ tx ∈ pool, admitTx tx = true) ∧ (pool.map Transaction.hash).Nodup

variable {admitTx : Transaction H K → Bool} {pool pool' : List (Transaction H K)}

theorem takeTx_some {id : H} {tx : Transaction H K} (taken : takeTx pool id = some (tx, pool')) :
    tx.hash = id ∧ tx ∈ pool ∧ pool' = pool.erase tx := by
  unfold takeTx at taken
  cases found : pool.find? (·.hash == id) with
  | none => simp [found] at taken
  | some tx' =>
    simp only [found, Option.map_some, Option.some.injEq, Prod.mk.injEq] at taken
    obtain ⟨rfl, rfl⟩ := taken
    exact ⟨by simpa using List.find?_some found, List.mem_of_find?_eq_some found, rfl⟩

theorem perm_of_takeTx {id : H} {tx : Transaction H K} (taken : takeTx pool id = some (tx, pool')) :
    (tx :: pool').Perm pool := by
  obtain ⟨-, mem, rfl⟩ := takeTx_some taken
  exact (List.perm_cons_erase mem).symm

omit [DecidableEq H] [DecidableEq K] in
theorem Returnable.perm (returnable : Returnable admitTx pool) (perm : pool.Perm pool') :
    Returnable admitTx pool' :=
  ⟨fun tx mem => returnable.1 tx (perm.mem_iff.mpr mem), (perm.map _).nodup_iff.mp returnable.2⟩

omit [DecidableEq K] in
/-- Transactions that can come back are appended to the pool in their order. -/
theorem foldl_addTx {txs : List (Transaction H K)} :
    Returnable admitTx (pool ++ txs) → txs.foldl (addTx admitTx) pool = pool ++ txs := by
  induction txs generalizing pool with
  | nil => simp
  | cons tx rest ih =>
    intro returnable
    have fresh : tx.hash ∉ pool.map Transaction.hash := by
      have distinct := returnable.2
      simp only [List.map_append, List.map_cons, List.nodup_append, List.nodup_cons] at distinct
      exact fun mem => distinct.2.2 _ mem _ List.mem_cons_self rfl
    have added : addTx admitTx pool tx = pool ++ [tx] :=
      if_pos ⟨returnable.1 tx (by simp), fresh⟩
    rw [List.foldl_cons, added, ih (by simpa using returnable)]
    simp

end TxPool

/-! ## The blockchain -/

/-- The state of a `Blockchain`: its database `m_db` and the transactions of its pool
`m_tx_pool`. -/
structure Blockchain (H K F : Type) where
  db : BlockchainLMDB H K F
  txPool : List (Transaction H K)

namespace Blockchain

/-- A method of the database, called by the blockchain. -/
def inDb {α : Type} (x : EStateM DbException (BlockchainLMDB H K F) α) :
    EStateM DbException (Blockchain H K F) α := fun bc =>
  match x.run bc.db with
  | .ok a db => .ok a { bc with db := db }
  | .error e db => .error e { bc with db := db }

variable (checks : Checks H K)

/-- `return_tx_to_pool(txs)`: a transaction that `add_tx` refuses is logged and dropped. -/
def returnTxToPool (txs : List (Transaction H K)) : EStateM DbException (Blockchain H K F) Unit :=
  modify fun bc => { bc with txPool := txs.foldl (TxPool.addTx checks.admitTx) bc.txPool }

/-- `check_tx_inputs(tx, tvc)`: every input is a `txin_to_key` whose key image the database has
not seen spent. Key images that two transactions of one block share are not looked for. -/
def checkTxInputs (view : Tables H K) (tx : Transaction H K) : Bool :=
  checks.checkTxVersion view tx && tx.vin.all fun
    | .toKey kImage => !view.spentKeys.contains kImage && checks.checkTxInput view tx kImage
    | _ => false

/-- `prevalidate_miner_transaction(b, height)`: the miner transaction has the one input
`txin_gen`. -/
def prevalidateMinerTransaction (blk : Block H K) (height : Nat) : Bool :=
  match blk.minerTx.vin with
  | [.gen] => checks.checkMinerTx blk height
  | _ => false

/-- The loop of `handle_block_to_main_chain` over `bl.tx_hashes`, with the transactions taken so
far: a transaction already in the database, one that the pool does not have, or one whose
inputs fail `check_tx_inputs` ends it with `none`, after the transactions taken are returned
to the pool. -/
def takeBlockTxs :
    List H → List (Transaction H K) → EStateM DbException (Blockchain H K F) (Option (List (Transaction H K)))
  | [], txs => pure (some txs)
  | txId :: rest, txs => do
    let bc ← get
    if txId ∈ bc.db.view.txs then
      returnTxToPool checks txs
      return none
    match TxPool.takeTx bc.txPool txId with
    | none =>
      returnTxToPool checks txs
      return none
    | some (tx, pool) =>
      set { bc with txPool := pool }
      if !checkTxInputs checks bc.db.view tx then
        returnTxToPool checks (txs ++ [tx])
        return none
      takeBlockTxs rest (txs ++ [tx])

/-- The label `leave` of `handle_block_to_main_chain`: stop the read transaction and refuse the
block. -/
def leave : EStateM DbException (Blockchain H K F) Bool := do
  inDb BlockchainLMDB.blockTxnStop
  pure false

variable (nullHash : H) (hardForkAdd : Block H K → Nat → F → F)

/-- `handle_block_to_main_chain(bl, id, bvc)`. The hash of the top block is `null_hash` on an
empty chain. A block refused for the inputs of a transaction is also recorded by
`add_block_as_invalid` in `m_invalid_blocks`, which the model does not keep. The fast check of
`PER_BLOCK_CHECKPOINT` (a block below the precomputed hashes `m_blocks_hash_check` compared to
its hash, and its transactions to `m_blocks_txs_check` in place of `check_tx_inputs`) is not
modelled: every block takes the full checks. -/
def handleBlockToMainChain (bl : Block H K) : EStateM DbException (Blockchain H K F) Bool := do
  inDb (BlockchainLMDB.blockTxnStart true)
  let view := (← get).db.view
  if bl.prevId ≠ view.blocks.getLast?.getD nullHash then return (← leave)
  if !checks.checkBlock view bl then return (← leave)
  if !prevalidateMinerTransaction checks bl view.blocks.length then return (← leave)
  let some txs ← takeBlockTxs checks bl.txHashes [] | leave
  if !checks.validateMinerTransaction view bl txs then
    returnTxToPool checks txs
    return (← leave)
  inDb BlockchainLMDB.blockTxnStop
  tryCatch (do let _ ← inDb (BlockchainLMDB.addBlock hardForkAdd bl txs); pure true) fun _ => do
    returnTxToPool checks txs
    pure false

/-- The batch that `prepare_handle_incoming_blocks` opens for a run of `blockCount` blocks.
While another writer's batch is active the source sleeps and tries again; with the one writer
of the model `batch_start` then returns `false`, and so does this. -/
def prepareHandleIncomingBlocks (blockCount : Nat) : EStateM DbException (Blockchain H K F) Bool := do
  if blockCount = 0 then return false
  inDb BlockchainLMDB.batchStart

/-- `cleanup_handle_incoming_blocks(force_sync)`: commit the batch; an exception of
`batch_stop` is logged. -/
def cleanupHandleIncomingBlocks : EStateM DbException (Blockchain H K F) Bool :=
  tryCatch (do inDb BlockchainLMDB.batchStop; pure true) fun _ => pure false

/-! ## What one call does -/

omit [DecidableEq H] [DecidableEq K] in
@[simp] theorem inDb_run {α : Type} (x : EStateM DbException (BlockchainLMDB H K F) α)
    (bc : Blockchain H K F) :
    (inDb x).run bc = match x.run bc.db with
      | .ok a db => .ok a { bc with db := db }
      | .error e db => .error e { bc with db := db } :=
  rfl

omit [DecidableEq K] in
@[simp] theorem returnTxToPool_run (txs : List (Transaction H K)) (bc : Blockchain H K F) :
    (returnTxToPool checks txs).run bc =
      .ok () { bc with txPool := txs.foldl (TxPool.addTx checks.admitTx) bc.txPool } :=
  rfl

theorem takeBlockTxs_cons_run (txId : H) (rest : List H) (txs : List (Transaction H K))
    (bc : Blockchain H K F) :
    (takeBlockTxs checks (txId :: rest) txs).run bc =
      if txId ∈ bc.db.view.txs then
        .ok none { bc with txPool := txs.foldl (TxPool.addTx checks.admitTx) bc.txPool }
      else match TxPool.takeTx bc.txPool txId with
        | none => .ok none { bc with txPool := txs.foldl (TxPool.addTx checks.admitTx) bc.txPool }
        | some (tx, pool) =>
          if checkTxInputs checks bc.db.view tx then
            (takeBlockTxs checks rest (txs ++ [tx])).run { bc with txPool := pool }
          else .ok none { bc with txPool := (txs ++ [tx]).foldl (TxPool.addTx checks.admitTx) pool } := by
  simp only [takeBlockTxs, EStateM.run_bind, EStateM.run_get]
  split_ifs with known
  · rfl
  · cases taken : TxPool.takeTx bc.txPool txId with
    | none => rfl
    | some p =>
      obtain ⟨tx, pool⟩ := p
      simp only [EStateM.run_bind, EStateM.run_set]
      by_cases valid : checkTxInputs checks bc.db.view tx <;> simp [valid]

/-- The loop never throws, and it changes the pool only. -/
theorem takeBlockTxs_ok : ∀ (ids : List H) (txs : List (Transaction H K)) (bc : Blockchain H K F),
    ∃ r pool, (takeBlockTxs checks ids txs).run bc = .ok r { bc with txPool := pool }
  | [], txs, bc => ⟨some txs, bc.txPool, rfl⟩
  | txId :: rest, txs, bc => by
    rw [takeBlockTxs_cons_run]
    split_ifs
    · exact ⟨none, _, rfl⟩
    · cases TxPool.takeTx bc.txPool txId with
      | none => exact ⟨none, _, rfl⟩
      | some p =>
        obtain ⟨tx, pool⟩ := p
        dsimp only
        split_ifs
        · exact takeBlockTxs_ok rest (txs ++ [tx]) { bc with txPool := pool }
        · exact ⟨none, _, rfl⟩

/-- Taking a transaction moves it from the pool to the transactions taken. -/
theorem perm_of_take (txs : List (Transaction H K)) {pool pool' : List (Transaction H K)} {id : H}
    {tx : Transaction H K} (taken : TxPool.takeTx pool id = some (tx, pool')) :
    (pool' ++ (txs ++ [tx])).Perm (pool ++ txs) := by
  have moved : (pool' ++ (txs ++ [tx])).Perm ((tx :: pool') ++ txs) := by
    rw [← List.append_assoc]
    exact List.perm_append_singleton _ _
  exact moved.trans ((TxPool.perm_of_takeTx taken).append_right txs)

/-- When the loop takes a transaction for every hash, the pool and what it took are the pool
and the transactions it started with. -/
theorem takeBlockTxs_some : ∀ {ids : List H} {txs found : List (Transaction H K)}
    {bc bc' : Blockchain H K F}, (takeBlockTxs checks ids txs).run bc = .ok (some found) bc' →
      ∃ taken, found = txs ++ taken ∧ taken.map Transaction.hash = ids ∧
        (∀ tx ∈ taken, checkTxInputs checks bc.db.view tx = true) ∧
        (bc'.txPool ++ found).Perm (bc.txPool ++ txs)
  | [], txs, found, bc, bc', ran => by
    simp only [takeBlockTxs, EStateM.run_pure, EStateM.Result.ok.injEq, Option.some.injEq] at ran
    obtain ⟨rfl, rfl⟩ := ran
    exact ⟨[], by simp, rfl, by simp, List.Perm.refl _⟩
  | txId :: rest, txs, found, bc, bc', ran => by
    rw [takeBlockTxs_cons_run] at ran
    split_ifs at ran
    · simp at ran
    · cases taken : TxPool.takeTx bc.txPool txId with
      | none => simp [taken] at ran
      | some p =>
        obtain ⟨tx, pool⟩ := p
        simp only [taken] at ran
        split_ifs at ran with valid
        · obtain ⟨later, rfl, hashes, inputs, perm⟩ := takeBlockTxs_some ran
          refine ⟨tx :: later, by simp, ?_, ?_, perm.trans (perm_of_take txs taken)⟩
          · simp [(TxPool.takeTx_some taken).1, hashes]
          · simpa [valid] using inputs
        · simp at ran

/-- When the loop stops early, the transactions it took are back in the pool, provided that
they can all come back. -/
theorem takeBlockTxs_none : ∀ {ids : List H} {txs : List (Transaction H K)}
    {bc bc' : Blockchain H K F}, TxPool.Returnable checks.admitTx (bc.txPool ++ txs) →
      (takeBlockTxs checks ids txs).run bc = .ok none bc' → bc'.txPool.Perm (bc.txPool ++ txs)
  | [], txs, bc, bc', _, ran => by simp [takeBlockTxs] at ran
  | txId :: rest, txs, bc, bc', returnable, ran => by
    rw [takeBlockTxs_cons_run] at ran
    split_ifs at ran
    · cases ran
      simp [TxPool.foldl_addTx returnable]
    · cases taken : TxPool.takeTx bc.txPool txId with
      | none =>
        simp only [taken, EStateM.Result.ok.injEq, true_and] at ran
        subst ran
        simp [TxPool.foldl_addTx returnable]
      | some p =>
        obtain ⟨tx, pool⟩ := p
        have moved := perm_of_take txs taken
        have returnable' := returnable.perm moved.symm
        simp only [taken] at ran
        split_ifs at ran
        · exact (takeBlockTxs_none returnable' ran).trans moved
        · cases ran
          simpa [TxPool.foldl_addTx returnable'] using moved

omit [DecidableEq H] [DecidableEq K] in
theorem leave_run (bc : Blockchain H K F) {stopped : BlockchainLMDB H K F}
    (stop : BlockchainLMDB.blockTxnStop.run bc.db = .ok () stopped) :
    leave.run bc = .ok false { bc with db := stopped } := by
  simp [leave, stop]

/-- What `handle_block_to_main_chain` has checked of a block, and of the transactions it took
from the pool for it, when it calls `add_block`: one transaction for each hash of the block,
each with inputs that pass `check_tx_inputs`, and a miner transaction that passes
`prevalidate_miner_transaction`. -/
structure Accepted (view : Tables H K) (bl : Block H K) (txs : List (Transaction H K)) : Prop where
  hashes : txs.map Transaction.hash = bl.txHashes
  inputs : ∀ tx ∈ txs, checkTxInputs checks view tx = true
  miner : prevalidateMinerTransaction checks bl view.blocks.length = true

omit [DecidableEq H] in
theorem supported_of_checkTxInputs {view : Tables H K} {tx : Transaction H K}
    (valid : checkTxInputs checks view tx = true) : Tables.Supported tx.vin := by
  rintro input mem rfl
  simp only [checkTxInputs, Bool.and_eq_true, List.all_eq_true] at valid
  simpa using valid.2 _ mem

omit [DecidableEq H] [DecidableEq K] in
theorem supported_of_prevalidate {bl : Block H K} {height : Nat}
    (valid : prevalidateMinerTransaction checks bl height = true) : Tables.Supported bl.minerTx.vin := by
  unfold prevalidateMinerTransaction at valid
  split at valid
  · rename_i gen
    rw [gen]
    simp [Tables.Supported]
  · cases valid

/-- The ways a call of `handle_block_to_main_chain` ends; it never throws. It refuses the block
before `add_block`, or it stops the read transaction and hands `add_block` the transactions it
took from the pool, and `add_block` adds the block or throws. The transactions taken for a
block that is not added go back to the pool. -/
theorem handleBlockToMainChain_cases (bl : Block H K) (bc : Blockchain H K F)
    {stopped : BlockchainLMDB H K F} (stop : BlockchainLMDB.blockTxnStop.run bc.db = .ok () stopped) :
    ∃ added bc', (handleBlockToMainChain checks nullHash hardForkAdd bl).run bc = .ok added bc' ∧
      ((added = false ∧ bc'.db = stopped ∧
          (TxPool.Returnable checks.admitTx bc.txPool → bc'.txPool.Perm bc.txPool)) ∨
        ∃ txs, Accepted checks bc.db.view bl txs ∧
          ((∃ height, (BlockchainLMDB.addBlock hardForkAdd bl txs).run stopped = .ok height bc'.db ∧
              added = true ∧ (bc'.txPool ++ txs).Perm bc.txPool) ∨
            (∃ e, (BlockchainLMDB.addBlock hardForkAdd bl txs).run stopped = .error e bc'.db ∧
              added = false ∧
              (TxPool.Returnable checks.admitTx bc.txPool → bc'.txPool.Perm bc.txPool)))) := by
  obtain ⟨db, txPool⟩ := bc
  unfold handleBlockToMainChain
  simp only [EStateM.run_bind, inDb_run, BlockchainLMDB.blockTxnStart_readonly_run, EStateM.run_get]
  split_ifs with tail header miner
  · exact ⟨false, _, leave_run _ stop, .inl ⟨rfl, rfl, fun _ => .refl _⟩⟩
  · exact ⟨false, _, leave_run _ stop, .inl ⟨rfl, rfl, fun _ => .refl _⟩⟩
  · exact ⟨false, _, leave_run _ stop, .inl ⟨rfl, rfl, fun _ => .refl _⟩⟩
  obtain ⟨r, pool, ran⟩ := takeBlockTxs_ok checks bl.txHashes [] ⟨db, txPool⟩
  simp only [EStateM.run_bind, ran]
  cases r with
  | none =>
    refine ⟨false, _, leave_run _ stop, .inl ⟨rfl, rfl, fun returnable => ?_⟩⟩
    simpa using takeBlockTxs_none checks (by simpa using returnable) ran
  | some found =>
    obtain ⟨taken, listed, hashes, inputs, perm⟩ := takeBlockTxs_some checks ran
    rw [List.nil_append] at listed
    rw [List.append_nil, listed] at perm
    subst listed
    dsimp only at perm inputs ⊢
    have accepted : Accepted checks db.view bl found := ⟨hashes, inputs, by simpa using miner⟩
    have restored : TxPool.Returnable checks.admitTx txPool →
        (found.foldl (TxPool.addTx checks.admitTx) pool).Perm txPool := fun returnable => by
      rw [TxPool.foldl_addTx (returnable.perm perm.symm)]
      exact perm
    split_ifs with valid
    · refine ⟨false, ⟨stopped, found.foldl (TxPool.addTx checks.admitTx) pool⟩, ?_,
        .inl ⟨rfl, rfl, restored⟩⟩
      simp only [EStateM.run_bind, returnTxToPool_run]
      exact leave_run _ stop
    · simp only [EStateM.run_bind, inDb_run, stop, EStateM.run_tryCatch]
      cases add : (BlockchainLMDB.addBlock hardForkAdd bl found).run stopped with
      | ok height db' =>
        exact ⟨true, ⟨db', pool⟩, by simp, .inr ⟨found, accepted, .inl ⟨height, add, rfl, perm⟩⟩⟩
      | error e db' =>
        exact ⟨false, ⟨db', found.foldl (TxPool.addTx checks.admitTx) pool⟩, by simp,
          .inr ⟨found, accepted, .inr ⟨e, add, rfl, restored⟩⟩⟩

/-! ## A block is added whole or not at all, outside a batch -/

/-- The transactions that `handle_block_to_main_chain` takes from the pool for a block it
refuses are back in the pool afterwards, whatever the state of the database, provided that
they can all come back. For a block it adds, the pool lost the block's transactions. -/
theorem handleBlockToMainChain_returns_taken (bl : Block H K) (bc : Blockchain H K F)
    (returnable : TxPool.Returnable checks.admitTx bc.txPool) :
    ∃ added bc', (handleBlockToMainChain checks nullHash hardForkAdd bl).run bc = .ok added bc' ∧
      if added then ∃ txs, txs.map Transaction.hash = bl.txHashes ∧ (bc'.txPool ++ txs).Perm bc.txPool
      else bc'.txPool.Perm bc.txPool := by
  obtain ⟨stopped, stop⟩ := BlockchainLMDB.blockTxnStop_ok bc.db
  obtain ⟨added, bc', ran, outcome⟩ := handleBlockToMainChain_cases checks nullHash hardForkAdd bl bc stop
  refine ⟨added, bc', ran, ?_⟩
  rcases outcome with ⟨rfl, -, restored⟩ | ⟨txs, accepted, ⟨-, -, rfl, perm⟩ | ⟨-, -, rfl, restored⟩⟩
  · exact restored returnable
  · exact ⟨txs, accepted.hashes, perm⟩
  · exact restored returnable

theorem handleBlockToMainChain_returns_taken_at_genesis :
    let checks : Checks Nat Nat := ⟨fun _ _ => true, fun _ _ => true, fun _ _ => true,
      fun _ _ _ => true, fun _ _ _ => true, fun _ => true⟩
    let bl : Block Nat Nat := ⟨3, 0, ⟨110, [.gen], 1⟩, [1, 2]⟩
    let bc : Blockchain Nat Nat Unit :=
      ⟨⟨⟨[0], [100], [(100, 0)], []⟩, none, false, true, ()⟩, [⟨1, [.toKey 7], 1⟩, ⟨2, [.toKey 8], 1⟩]⟩
    TxPool.Returnable checks.admitTx bc.txPool ∧
      ∃ added bc', (handleBlockToMainChain checks 0 (fun _ _ _ => ()) bl).run bc = .ok added bc' ∧
        if added then ∃ txs, txs.map Transaction.hash = bl.txHashes ∧
          (bc'.txPool ++ txs).Perm bc.txPool
        else bc'.txPool.Perm bc.txPool :=
  ⟨⟨fun _ _ => rfl, by decide⟩, handleBlockToMainChain_returns_taken _ _ _ _ _ ⟨fun _ _ => rfl, by decide⟩⟩

/-- Outside a batch a block goes into the database whole or not at all. A call that returns
`false` leaves the database as it was. A call that returns `true` commits the block with one
transaction of the pool for each of its hashes, and tells the hard-fork state about it. -/
theorem handleBlockToMainChain_outside_batch (bl : Block H K) (bc : Blockchain H K F)
    (noTxn : bc.db.writeTxn = none) (noBatch : bc.db.batchActive = false) :
    ∃ added bc', (handleBlockToMainChain checks nullHash hardForkAdd bl).run bc = .ok added bc' ∧
      if added then ∃ txs, txs.map Transaction.hash = bl.txHashes ∧ (∀ tx ∈ txs, tx ∈ bc.txPool) ∧
        bc'.db = { bc.db with
          committed := bc.db.committed.withBlock bl txs
          hardFork := hardForkAdd bl bc.db.committed.blocks.length bc.db.hardFork }
      else bc'.db = bc.db := by
  obtain ⟨added, bc', ran, outcome⟩ := handleBlockToMainChain_cases checks nullHash hardForkAdd bl bc
    (BlockchainLMDB.blockTxnStop_run_of_none noTxn)
  refine ⟨added, bc', ran, ?_⟩
  rcases outcome with ⟨rfl, stopped, -⟩ | ⟨txs, accepted, ⟨height, add, rfl, perm⟩ | ⟨e, add, rfl, -⟩⟩
  · exact stopped
  all_goals
    have sizes : bl.txHashes.length = txs.length := by rw [← accepted.hashes, List.length_map]
    rw [BlockchainLMDB.addBlock_run_outside_batch _ _ _ noTxn noBatch, if_neg (by omega)] at add
  -- `add_block` committed the block's writes
  · cases tables : (Tables.addBlockTables bl txs).run bc.db.committed with
    | ok u t =>
      rw [tables, EStateM.Result.ok.injEq] at add
      refine ⟨txs, accepted.hashes, fun tx mem => perm.subset (List.mem_append_right _ mem), ?_⟩
      rw [← add.2, Tables.addBlockTables_ok sizes (supported_of_prevalidate checks accepted.miner)
        (fun tx mem => supported_of_checkTxInputs checks (accepted.inputs tx mem)) tables]
    | error e t =>
      rw [tables] at add
      cases add
  -- `add_block` threw, and dropped its write transaction
  · cases tables : (Tables.addBlockTables bl txs).run bc.db.committed with
    | ok u t =>
      rw [tables] at add
      cases add
    | error e' t =>
      rw [tables, EStateM.Result.error.injEq] at add
      exact add.2.symm

theorem handleBlockToMainChain_outside_batch_at_genesis :
    let checks : Checks Nat Nat := ⟨fun _ _ => true, fun _ _ => true, fun _ _ => true,
      fun _ _ _ => true, fun _ _ _ => true, fun _ => true⟩
    let bl : Block Nat Nat := ⟨3, 0, ⟨110, [.gen], 1⟩, [1]⟩
    let bc : Blockchain Nat Nat Unit :=
      ⟨⟨⟨[0], [100], [(100, 0)], []⟩, none, false, true, ()⟩, [⟨1, [.toKey 7], 1⟩]⟩
    bc.db.writeTxn = none ∧ bc.db.batchActive = false ∧
      ∃ added bc', (handleBlockToMainChain checks 0 (fun _ _ _ => ()) bl).run bc = .ok added bc' ∧
        if added then ∃ txs, txs.map Transaction.hash = bl.txHashes ∧ (∀ tx ∈ txs, tx ∈ bc.txPool) ∧
          bc'.db = { bc.db with
            committed := bc.db.committed.withBlock bl txs
            hardFork := () }
        else bc'.db = bc.db :=
  ⟨rfl, rfl, handleBlockToMainChain_outside_batch _ _ _ _ _ rfl rfl⟩

end Blockchain

/-! ## A block whose two transactions spend one key image -/

open Blockchain in
/-- Two transactions of the pool spend the key image `7`, and a block lists both. Each passes
`check_tx_inputs`, which looks for `7` in the database only, so `add_block` writes the miner
transaction and the first transaction and then throws `KEY_IMAGE_EXISTS` at the second. Called
on its own, `handle_block_to_main_chain` refuses the block and leaves the blockchain as it was.
Called in a batch, it refuses the block too, but the writes stay in the batch and
`cleanup_handle_incoming_blocks` commits them: the chain has no new block, yet its tables hold
the transactions `110` and `1`, their outputs and the spent key image `7`. -/
theorem batch_commits_failed_block :
    let checks : Checks Nat Nat := ⟨fun _ _ => true, fun _ _ => true, fun _ _ => true,
      fun _ _ _ => true, fun _ _ _ => true, fun _ => true⟩
    let first : Transaction Nat Nat := ⟨1, [.toKey 7], 1⟩
    let second : Transaction Nat Nat := ⟨2, [.toKey 7], 1⟩
    let bl : Block Nat Nat := ⟨3, 0, ⟨110, [.gen], 1⟩, [1, 2]⟩
    let chain : Tables Nat Nat := ⟨[0], [100], [(100, 0)], []⟩
    let start : Blockchain Nat Nat Unit := ⟨⟨chain, none, false, true, ()⟩, [first, second]⟩
    let handle := handleBlockToMainChain checks 0 (fun _ _ _ => ()) bl
    let inBatch : EStateM DbException (Blockchain Nat Nat Unit) (Bool × Bool × Bool) := do
      let opened ← prepareHandleIncomingBlocks 1
      let added ← handle
      let closed ← cleanupHandleIncomingBlocks
      pure (opened, added, closed)
    handle.run start = .ok false start ∧
      inBatch.run start = .ok (true, false, true)
        ⟨⟨⟨[0], [100, 110, 1], [(100, 0), (110, 0), (1, 0)], [7]⟩, none, false, true, ()⟩,
          [first, second]⟩ := by
  constructor <;> rfl

end GraftNetwork.Core

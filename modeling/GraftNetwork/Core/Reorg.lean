import GraftNetwork.Core.Blockchain

/-!
# Alternative blocks and chain switching

A model of how `Blockchain` (`src/cryptonote_core/blockchain.cpp`) keeps the blocks that do not
extend its top block, and switches to an alternative chain that is heavier or passes a
checkpoint:

* `Chain`: the blockchain of `Core.Blockchain` (database and pool), the blocks of its main
  chain with their `block_info` rows and transaction blobs, which the tables of the database
  model leave out, `m_alternative_chains` and `m_invalid_blocks`.
* `popBlockFromBlockchain`: `pop_block_from_blockchain`, which pops the top block and returns
  its transactions to the pool.
* `handleBlockToMainChain`: `Blockchain.handleBlockToMainChain`, with the cumulative difficulty
  that `add_block` records for the block.
* `handleAlternativeBlock`, `switchToAlternativeBlockchain`, `rollbackBlockchainSwitching` and
  `addNewBlock`, which sends a block to the main chain or to the alternative chains.

The checks whose data the model leaves out (timestamps, the proof of work, the hard-fork
version for a height, the difficulty algorithms) are the verdicts of a `ForkChecks`.

Results:

* `switch_in_batch_loses_main_block`: a switch that fails inside a batch can leave the main
  chain without the blocks that it popped. The failed block's writes stay in the batch, the
  rollback cannot add the popped block again, and `switch_to_alternative_blockchain` does not
  look at what `rollback_blockchain_switching` returns.
-/

namespace GraftNetwork.Core

open GraftNetwork.Database

variable {H K F : Type} [DecidableEq H] [DecidableEq K]

/-- `block_extended_info`: a block with its height and cumulative difficulty. -/
structure BlockExtendedInfo (H K : Type) where
  bl : Block H K
  height : Nat
  cumulativeDifficulty : Nat
deriving DecidableEq, Repr

/-- A block of the main chain as the database keeps it beyond `Tables`: its `block_info` row
and the blobs of its transactions, in the order of its hashes. -/
structure MainBlock (H K : Type) where
  info : BlockExtendedInfo H K
  txs : List (Transaction H K)
deriving DecidableEq, Repr

/-- The verdicts and values of `handle_alternative_block` and of the difficulty of a block that
read data the model leaves out. -/
structure ForkChecks (H K : Type) where
  /-- The height in the `txin_gen` input of a block's miner transaction. -/
  coinbaseHeight : Block H K → Nat
  /-- `m_points` of `m_checkpoints`: the hash expected at a height. -/
  points : List (Nat × H)
  /-- `m_hardfork->check_for_height(b, height)`. -/
  checkForHeight : Block H K → Nat → Bool
  /-- `complete_timestamps_vector` and `check_block_timestamp` for a block on top of an
  alternative chain (front towards the main chain) that leaves the main chain. -/
  checkBlockTimestamp : List (MainBlock H K) → List (BlockExtendedInfo H K) → Block H K → Bool
  /-- `get_difficulty_for_next_block()` on the main chain. -/
  difficultyForNextBlock : List (MainBlock H K) → Nat
  /-- `get_next_difficulty_for_alternative_chain(alt_chain, bei)`. -/
  nextDifficultyForAlternativeChain :
    List (MainBlock H K) → List (BlockExtendedInfo H K) → BlockExtendedInfo H K → Nat
  /-- The proof of work of a block at a height (`get_block_longhash`,
  `get_altblock_longhash`) against a difficulty (`check_hash`). -/
  checkHash : Block H K → Nat → Nat → Bool

/-! ## Checkpoints and heights -/

/-- `checkpoints::check_block(height, h, is_a_checkpoint)`: whether the block passes, and
whether its height has a checkpoint. -/
def checkBlockCheckpoint (points : List (Nat × H)) (height : Nat) (h : H) : Bool × Bool :=
  match points.lookup height with
  | none => (true, false)
  | some expected => (expected == h, true)

/-- `checkpoints::is_alternative_block_allowed(blockchain_height, block_height)`: a block is
allowed above the last checkpoint at or below the chain's height. -/
def isAlternativeBlockAllowed (points : List (Nat × H)) (blockchainHeight blockHeight : Nat) :
    Bool :=
  if blockHeight = 0 then false
  else match ((points.map (·.1)).filter (· ≤ blockchainHeight)).max? with
    | none => true
    | some checkpointHeight => decide (checkpointHeight < blockHeight)

variable (forks : ForkChecks H K)

/-- `get_block_height(b)`: the height of the one `txin_gen` input of the miner transaction,
and `0` for a miner transaction of another shape. -/
def getBlockHeight (blk : Block H K) : Nat :=
  match blk.minerTx.vin with
  | [.gen] => forks.coinbaseHeight blk
  | _ => 0

/-- `is_coinbase(tx)`: the one input is `txin_gen`. -/
def isCoinbase (tx : Transaction H K) : Bool :=
  match tx.vin with
  | [.gen] => true
  | _ => false

/-! ## The state -/

/-- The state of a `Blockchain` that switching chains reads and writes. The alternative and
invalid blocks are the maps `m_alternative_chains` and `m_invalid_blocks` from a block's hash,
with one entry for a hash. -/
structure Chain (H K F : Type) where
  blockchain : Blockchain H K F
  mainChain : List (MainBlock H K)
  alternativeChains : List (H × BlockExtendedInfo H K)
  invalidBlocks : List (H × BlockExtendedInfo H K)

namespace Chain

/-- The hashes of the main chain by height. -/
def hashes (c : Chain H K F) : List H := c.mainChain.map (·.info.bl.hash)

/-- `get_block_cumulative_difficulty(height)`. -/
def cumulativeDifficultyAt (c : Chain H K F) (height : Nat) : Nat :=
  (c.mainChain[height]?.map (·.info.cumulativeDifficulty)).getD 0

/-- The cumulative difficulty of the top block, `0` on an empty chain. -/
def topCumulativeDifficulty (c : Chain H K F) : Nat :=
  (c.mainChain.getLast?.map (·.info.cumulativeDifficulty)).getD 0

/-- A method of the blockchain of `Core.Blockchain`. -/
def inBlockchain {α : Type} (x : EStateM DbException (Blockchain H K F) α) :
    EStateM DbException (Chain H K F) α := fun c =>
  match x.run c.blockchain with
  | .ok a bc => .ok a { c with blockchain := bc }
  | .error e bc => .error e { c with blockchain := bc }

/-! ## The main chain -/

variable (checks : Checks H K) (nullHash : H) (hardForkAdd : Block H K → Nat → F → F)

/-- `pop_block_from_blockchain()`: the database pops the top block, with the block and the
transactions that it reads from its blobs, and each transaction that is not coinbase goes
back to the pool through `add_tx(.., kept_by_block = true, ..)`, which may refuse it. -/
def popBlockFromBlockchain : EStateM DbException (Chain H K F) (Block H K) := do
  let some top := (← get).mainChain.getLast? |
    throw (.blockDne "Attempting to remove block from an empty blockchain")
  inBlockchain (Blockchain.inDb (BlockchainLMDB.popBlock top.info.bl top.txs))
  modify fun c => { c with mainChain := c.mainChain.dropLast }
  inBlockchain (Blockchain.returnTxToPool checks (top.txs.reverse.filter fun tx => !isCoinbase tx))
  pure top.info.bl

/-- `handle_block_to_main_chain(bl, bvc)`, with what `add_block` records beyond `Tables`: the
`block_info` of the block, whose cumulative difficulty is the top block's plus
`get_difficulty_for_next_block()`, and the blobs of the transactions that it took from the
pool, the pool's transaction for each hash of the block. -/
def handleBlockToMainChain (bl : Block H K) : EStateM DbException (Chain H K F) Bool := do
  let c ← get
  let info : BlockExtendedInfo H K :=
    ⟨bl, c.mainChain.length, c.topCumulativeDifficulty + forks.difficultyForNextBlock c.mainChain⟩
  let txs := bl.txHashes.filterMap fun h => c.blockchain.txPool.find? (·.hash == h)
  let added ← inBlockchain (Blockchain.handleBlockToMainChain checks nullHash hardForkAdd bl)
  if added then modify fun c => { c with mainChain := c.mainChain ++ [⟨info, txs⟩] }
  pure added

/-! ## Alternative blocks -/

/-- The loop of `handle_alternative_block` that follows `prev_id` through
`m_alternative_chains` from a block's parent: the alternative chain below the block, front
towards the main chain. The source loops while the parent is an alternative block; `fuel`
bounds the steps, and the number of entries is enough where no entry is its own ancestor. -/
def alternativeChainBelow (alts : List (H × BlockExtendedInfo H K)) :
    Nat → H → List (BlockExtendedInfo H K)
  | 0, _ => []
  | fuel + 1, h =>
    match alts.lookup h with
    | none => []
    | some bei => alternativeChainBelow alts fuel bei.bl.prevId ++ [bei]

/-- `add_block_as_invalid(bei, h)`: a block that is there already is logged. -/
def addBlockAsInvalid (bei : BlockExtendedInfo H K) (h : H) : EStateM DbException (Chain H K F) Unit :=
  modify fun c =>
    if (c.invalidBlocks.lookup h).isSome then c
    else { c with invalidBlocks := c.invalidBlocks ++ [(h, bei)] }

/-- `m_alternative_chains.erase(h)`. -/
def eraseAlternative (h : H) : EStateM DbException (Chain H K F) Unit :=
  modify fun c => { c with alternativeChains := c.alternativeChains.filter (·.1 != h) }

/-- The loop of `switch_to_alternative_blockchain` that pops blocks until the top block is
`target`, the parent of the alternative chain: the popped blocks, in the order of the chain.
The top hash of an empty chain is `null_hash`. `fuel` bounds the pops. -/
def popUntil (target : H) : Nat → List (Block H K) → EStateM DbException (Chain H K F) (List (Block H K))
  | 0, disconnected => pure disconnected
  | fuel + 1, disconnected => do
    if (← get).hashes.getLast?.getD nullHash = target then return disconnected
    let b ← popBlockFromBlockchain checks
    popUntil target fuel (b :: disconnected)

/-- The loop of `rollback_blockchain_switching` that pops blocks until the height is
`rollbackHeight`. `fuel` bounds the pops. -/
def popToHeight (rollbackHeight : Nat) : Nat → EStateM DbException (Chain H K F) Unit
  | 0 => pure ()
  | fuel + 1 => do
    if (← get).mainChain.length = rollbackHeight then return
    let _ ← popBlockFromBlockchain checks
    popToHeight rollbackHeight fuel

/-- The loop of `rollback_blockchain_switching` that adds the original chain again: a block
that is not added ends it with `false` ("PANIC! failed to add (again) block while chain
switching during the rollback!"). -/
def addAgain : List (Block H K) → EStateM DbException (Chain H K F) Bool
  | [] => pure true
  | bl :: rest => do
    if !(← handleBlockToMainChain forks checks nullHash hardForkAdd bl) then return false
    addAgain rest

/-- `rollback_blockchain_switching(original_chain, rollback_height)`. The hard-fork object's
`reorganize_from_chain_height` is left out. -/
def rollbackBlockchainSwitching (originalChain : List (Block H K)) (rollbackHeight : Nat) :
    EStateM DbException (Chain H K F) Bool := do
  let c ← get
  if rollbackHeight > c.mainChain.length then return true
  popToHeight checks rollbackHeight c.mainChain.length
  addAgain forks checks nullHash hardForkAdd originalChain

/-- The loop of `switch_to_alternative_blockchain` that adds the alternative chain to the
main chain: the first block that is not added, with the blocks after it. -/
def connectAlternativeChain :
    List (BlockExtendedInfo H K) →
      EStateM DbException (Chain H K F) (Option (BlockExtendedInfo H K × List (BlockExtendedInfo H K)))
  | [] => pure none
  | bei :: rest => do
    if !(← handleBlockToMainChain forks checks nullHash hardForkAdd bei.bl) then
      return some (bei, rest)
    connectAlternativeChain rest

/-- `add_block_as_invalid` and `m_alternative_chains.erase` for a block of a chain that failed. -/
def invalidateAlternative (bei : BlockExtendedInfo H K) : EStateM DbException (Chain H K F) Unit := do
  addBlockAsInvalid bei bei.bl.hash
  eraseAlternative bei.bl.hash

variable (pushAlternative : Block H K → EStateM DbException (Chain H K F) Bool)

/-- `switch_to_alternative_blockchain(alt_chain, discard_disconnected_chain)`, with
`pushAlternative` the call of `handle_alternative_block` that pushes a popped block back as an
alternative one. A block of the alternative chain that is not added starts the rollback,
whose result is not looked at, and it and the blocks after it become invalid. -/
def switchToAlternativeBlockchain (altChain : List (BlockExtendedInfo H K))
    (discardDisconnectedChain : Bool) : EStateM DbException (Chain H K F) Bool := do
  let some front := altChain.head? | return false
  let c ← get
  if front.bl.prevId ∉ c.hashes then return false
  let disconnectedChain ← popUntil checks nullHash front.bl.prevId c.mainChain.length []
  let splitHeight := (← get).mainChain.length
  match ← connectAlternativeChain forks checks nullHash hardForkAdd altChain with
  | some (failed, later) =>
    let _ ← rollbackBlockchainSwitching forks checks nullHash hardForkAdd disconnectedChain splitHeight
    invalidateAlternative failed
    later.forM invalidateAlternative
    return false
  | none =>
    if !discardDisconnectedChain then
      disconnectedChain.forM fun old => discard (pushAlternative old)
    altChain.forM fun bei => eraseAlternative bei.bl.hash
    return true

variable (switch : List (BlockExtendedInfo H K) → Bool → EStateM DbException (Chain H K F) Bool)

/-- The body of `handle_alternative_block(b, id, bvc)`, with `switch` the call of
`switch_to_alternative_blockchain`. An orphan, whose parent is neither an alternative block
nor a block of the main chain, is refused with `true`. -/
def handleAlternativeBlockWith (b : Block H K) : EStateM DbException (Chain H K F) Bool := do
  let c ← get
  let blockHeight := getBlockHeight forks b
  if blockHeight = 0 then return false
  if !isAlternativeBlockAllowed forks.points c.mainChain.length blockHeight then return false
  if !forks.checkForHeight b blockHeight then return false
  let parentInMain := b.prevId ∈ c.hashes
  if (c.alternativeChains.lookup b.prevId).isNone && !parentInMain then return true
  let altChain := alternativeChainBelow c.alternativeChains c.alternativeChains.length b.prevId
  match altChain.head? with
  | some front =>
    if ¬front.height < c.mainChain.length then return false
    if front.bl.prevId ∉ c.hashes then return false
    if c.hashes[front.height - 1]? ≠ some front.bl.prevId then return false
  | none =>
    if !parentInMain then return false
  if !forks.checkBlockTimestamp c.mainChain altChain b then return false
  -- the parent is the last block of the alternative chain, or a block of the main chain
  let height := match altChain.getLast? with
    | some parent => parent.height + 1
    | none => c.hashes.idxOf b.prevId + 1
  let (passes, isACheckpoint) := checkBlockCheckpoint forks.points height b.hash
  if !passes then return false
  let currentDiff := forks.nextDifficultyForAlternativeChain c.mainChain altChain ⟨b, height, 0⟩
  if currentDiff = 0 then return false
  if !forks.checkHash b height currentDiff then return false
  if !Blockchain.prevalidateMinerTransaction checks b height then return false
  let mainChainCumulativeDifficulty := c.topCumulativeDifficulty
  let parentCumulativeDifficulty := match altChain.getLast? with
    | some parent => parent.cumulativeDifficulty
    | none => c.cumulativeDifficultyAt (c.hashes.idxOf b.prevId)
  let bei : BlockExtendedInfo H K := ⟨b, height, parentCumulativeDifficulty + currentDiff⟩
  if (c.alternativeChains.lookup b.hash).isSome then return false
  set { c with alternativeChains := c.alternativeChains ++ [(b.hash, bei)] }
  if isACheckpoint then switch (altChain ++ [bei]) true
  else if mainChainCumulativeDifficulty < bei.cumulativeDifficulty then
    switch (altChain ++ [bei]) false
  else return true

/-- `handle_alternative_block(b, id, bvc)`. The source recurses: a switch pushes the blocks
that it popped back through `handle_alternative_block`. `depth` bounds the nesting, and a call
at depth `0` refuses the block. -/
def handleAlternativeBlock : Nat → Block H K → EStateM DbException (Chain H K F) Bool
  | 0, _ => pure false
  | depth + 1, b =>
    handleAlternativeBlockWith forks checks
      (switchToAlternativeBlockchain forks checks nullHash hardForkAdd
        fun old => handleAlternativeBlock depth old) b

/-- `add_new_block(bl, bvc)`: a block that the chain has (on the main chain, as an alternative
block or as an invalid one) is refused, and a block that does not extend the top block is an
alternative one. It is handled at depth `2`: the blocks that its switch pushes back are
handled in turn, and a switch of theirs pushes none back. -/
def addNewBlock (bl : Block H K) : EStateM DbException (Chain H K F) Bool := do
  inBlockchain (Blockchain.inDb (BlockchainLMDB.blockTxnStart true))
  let c ← get
  if bl.hash ∈ c.hashes ∨ (c.alternativeChains.lookup bl.hash).isSome ∨
      (c.invalidBlocks.lookup bl.hash).isSome then
    inBlockchain (Blockchain.inDb BlockchainLMDB.blockTxnStop)
    return false
  inBlockchain (Blockchain.inDb BlockchainLMDB.blockTxnStop)
  if bl.prevId ≠ c.hashes.getLast?.getD nullHash then
    handleAlternativeBlock forks checks nullHash hardForkAdd 2 bl
  else handleBlockToMainChain forks checks nullHash hardForkAdd bl

end Chain

/-! ## A switch that fails inside a batch -/

open Chain in
/-- The main chain is the genesis block `1` and block `2`, whose transaction `11` spends the key
image `7`; the pool holds transaction `12`, which spends `7` too. Two blocks arrive in the batch
of `prepare_handle_incoming_blocks`: block `3` on the genesis block, with the transactions `11`
and `12`, and block `4` on block `3`. Every block has difficulty `1`, so block `3` is kept as an
alternative block, and block `4` makes the alternative chain heavier: the switch pops block `2`
and adds block `3`. Its `add_block` writes the miner transaction and transaction `11`, then
throws `KEY_IMAGE_EXISTS` at `12`, and inside the batch `block_txn_abort` keeps the writes. The
rollback then cannot add block `2` again, whose transaction `11` the database now holds, and the
switch returns `false` with a main chain of the genesis block only. Outside a batch the same
blocks leave the main chain as it was. -/
theorem switch_in_batch_loses_main_block :
    let checks : Checks Nat Nat := ⟨fun _ _ => true, fun _ _ => true, fun _ _ => true,
      fun _ _ _ => true, fun _ _ _ => true, fun _ => true⟩
    let forks : ForkChecks Nat Nat := ⟨fun _ => 1, [], fun _ _ => true, fun _ _ _ => true,
      fun _ => 1, fun _ _ _ => 1, fun _ _ _ => true⟩
    let spend : Transaction Nat Nat := ⟨11, [.toKey 7], 1⟩
    let doubleSpend : Transaction Nat Nat := ⟨12, [.toKey 7], 1⟩
    let genesis : Block Nat Nat := ⟨1, 0, ⟨100, [.gen], 1⟩, []⟩
    let main : Block Nat Nat := ⟨2, 1, ⟨101, [.gen], 1⟩, [11]⟩
    let alt : Block Nat Nat := ⟨3, 1, ⟨102, [.gen], 1⟩, [11, 12]⟩
    let heavier : Block Nat Nat := ⟨4, 3, ⟨103, [.gen], 1⟩, []⟩
    let tables : Tables Nat Nat := ⟨[1, 2], [100, 101, 11], [(100, 0), (101, 0), (11, 0)], [7]⟩
    let start : Chain Nat Nat Unit := ⟨⟨⟨tables, none, false, true, ()⟩, [doubleSpend]⟩,
      [⟨⟨genesis, 0, 1⟩, []⟩, ⟨⟨main, 1, 2⟩, [spend]⟩], [], []⟩
    let add : Block Nat Nat → EStateM DbException (Chain Nat Nat Unit) Bool :=
      addNewBlock forks checks 0 fun _ _ _ => ()
    let inBatch : EStateM DbException (Chain Nat Nat Unit) (Bool × Bool × Bool × Bool) := do
      let opened ← inBlockchain (Blockchain.prepareHandleIncomingBlocks 2)
      let kept ← add alt
      let switched ← add heavier
      let closed ← inBlockchain Blockchain.cleanupHandleIncomingBlocks
      pure (opened, kept, switched, closed)
    let outside : EStateM DbException (Chain Nat Nat Unit) (Bool × Bool) := do
      let kept ← add alt
      let switched ← add heavier
      pure (kept, switched)
    start.hashes = [1, 2] ∧
      inBatch.run' start = some (true, true, false, true) ∧ (inBatch.run start).state.hashes = [1] ∧
      outside.run' start = some (true, false) ∧ (outside.run start).state.hashes = [1, 2] := by
  decide +kernel

end GraftNetwork.Core

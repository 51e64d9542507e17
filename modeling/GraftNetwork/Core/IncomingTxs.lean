import Mathlib.Data.List.Basic
import Mathlib.Algebra.Group.Nat.Defs
import GraftNetwork.Lib.Machine

/-!
# Incoming transactions and the cache of bad semantics

A model of `core::handle_incoming_txs` (`src/cryptonote_core/cryptonote_core.cpp`): the checks
before the semantic checks (`handle_incoming_tx_pre`), the skip of transactions the pool or the
chain has, the semantic and RingCT checks of a batch (`handle_incoming_tx_accumulated_batch`)
with the delayed batch verification of bulletproofs, and `add_new_tx`. A transaction that
fails the semantic checks has its hash put in `bad_semantics_txes` (`set_semantics_failed`),
two sets of which the older is dropped when the newer fills up; `handle_incoming_tx_pre`
refuses every later blob whose transaction has a hash in them.

The hash of a transaction (`get_transaction_hash`) does not cover the fields `type` and
`extra2` of a version 3 transaction, which are serialized after the signatures. The weight
check of `check_tx_semantic` reads the size of the blob, `extra2` included, and only for a
transaction that is not kept by a block, against the weight limit of the chain at the time.
What the model reads of the hashed fields is a `Verifier`: the hash, the size, the RingCT type,
and the verdicts of the checks on the inputs, outputs and signatures.

Results:

* `handleIncomingTxAccumulatedBatch_verdicts`: the batch, with its delayed verification of
  bulletproofs, decides each transaction as its own checks do (`passesSemantics`).
* `cached_of_run`: every hash in the cache is the hash of a transaction that failed the checks
  in an earlier call.
* `badSemantics_rejects_hashed_or_weight`: with a hash that tells apart the hashed fields, the
  cache refuses a transaction only when its hashed fields fail the checks or when a
  transaction with the same hashed fields failed the weight check.
* `bad_semantics_copy_blocks_original`: at every weight limit, a copy of a valid transaction
  with a longer `extra2` fails the weight check and gets the valid transaction refused
  afterwards, from the pool and inside a block.
-/

namespace GraftNetwork.Core.IncomingTxs

/-- `CRYPTONOTE_MAX_TX_SIZE`, which `get_max_tx_size` returns. -/
def cryptonoteMaxTxSize : Nat := 1000000000

/-- `CRYPTONOTE_COINBASE_BLOB_RESERVED_SIZE`. -/
def cryptonoteCoinbaseBlobReservedSize : Nat := 600

/-- `BAD_SEMANTICS_TXES_MAX_SIZE`. -/
def badSemanticsTxesMaxSize : Nat := 100

/-- `CURRENT_TRANSACTION_VERSION`. -/
def currentTransactionVersion : Nat := 3

/-- The RingCT types of `rct_signatures.type` that the batch tells apart; `other` is any other
value. -/
inductive RctType
  | null
  | full
  | simple
  | bulletproof
  | other
deriving DecidableEq, Repr

/-- A transaction as `handle_incoming_txs` reads it: its version, the rest of what its hash
covers (`body`: the prefix and the signatures), and the Graft fields `type` and `extra2`. -/
structure Transaction (B : Type) where
  version : Nat
  body : B
  type : Nat
  extra2 : List UInt8
deriving DecidableEq, Repr

/-- What the model reads of the hashed fields of a transaction, of a version. -/
structure Verifier (B H : Type) where
  /-- `get_transaction_hash`: the hash of the blob for version 1, of the prefix and the RingCT
  parts from version 2. -/
  hash : Nat → B → H
  /-- The serialized size of the prefix and the signatures. -/
  size : Nat → B → Nat
  /-- `rct_signatures.type`. -/
  rctType : B → RctType
  /-- The bulletproof clawback that `get_transaction_weight` adds, zero for two outputs or
  fewer. -/
  bulletproofClawback : B → Nat
  /-- The checks of `check_tx_semantic` on the inputs, outputs, amounts and key images. -/
  checkSemantic : Nat → B → Bool
  /-- `rct::verRctSemanticsSimple` of the transaction's signatures. -/
  verRctSemanticsSimple : B → Bool
  /-- `rct::verRct(rv, true)`. -/
  verRct : B → Bool
  /-- `is_canonical_bulletproof_layout` of the signatures' bulletproofs. -/
  isCanonicalBulletproofLayout : B → Bool

/-- What `handle_incoming_txs` reads of the blockchain, which changes as the chain grows: the
current hard-fork version, `get_current_cumulative_block_weight_limit`,
`is_within_compiled_block_hash_area`, and the hashes of the chain's transactions. -/
structure Chain (H : Type) where
  hardForkVersion : Nat
  cumulativeBlockWeightLimit : Nat
  withinCompiledBlockHashArea : Bool
  txs : List H

/-- What `handle_incoming_txs` changes: the two sets `bad_semantics_txes` and the hashes of the
pool's transactions. -/
structure CoreState (H : Type) where
  badSemanticsTxes : List H × List H
  pool : List H

/-- Why `handle_incoming_tx_pre` refuses a blob. -/
inductive Rejection
  | tooBig
  | badSemantics
  | wrongVersion
deriving DecidableEq, Repr

/-- The number of bytes of `n` as a varint, seven bits to a byte. The first argument is fuel:
`n` is enough, since each step divides by 128. -/
def varintBytes : Nat → Nat → Nat
  | 0, _ => 1
  | fuel + 1, n => if n < 128 then 1 else varintBytes fuel (n / 128) + 1

/-- The size of a varint. -/
def varintSize (n : Nat) : Nat := varintBytes n n

/-- The highest transaction version that `handle_incoming_tx_pre` takes at a hard-fork
version. -/
def maxTxVersion (version : Nat) : Nat :=
  if version = 1 then 1 else if version < 13 then 2 else currentTransactionVersion

variable {B H : Type} (V : Verifier B H)

/-! ## A transaction -/

/-- `get_transaction_hash(tx)`. -/
def getTransactionHash (tx : Transaction B) : H := V.hash tx.version tx.body

/-- The size of a transaction's blob: from version 3 it ends with `type`, a `size_t` of eight
bytes, and `extra2`, its length as a varint and its bytes. -/
def blobSize (tx : Transaction B) : Nat :=
  V.size tx.version tx.body +
    if 3 ≤ tx.version then 8 + varintSize tx.extra2.length + tx.extra2.length else 0

/-- The type of `rct_signatures`, which a version 1 transaction does not have and leaves at
`RCTTypeNull`. -/
def rctTypeOf (tx : Transaction B) : RctType :=
  if tx.version < 2 then .null else V.rctType tx.body

/-- `get_transaction_weight(tx)`. -/
def getTransactionWeight (tx : Transaction B) : Nat :=
  blobSize V tx + if rctTypeOf V tx = .bulletproof then V.bulletproofClawback tx.body else 0

/-- `check_tx_semantic(tx, keeped_by_block)`. The weight limit is at least the minimum block
weight, so the subtraction of the reserved size does not wrap. -/
def checkTxSemantic (chain : Chain H) (tx : Transaction B) (keepedByBlock : Bool) : Bool :=
  V.checkSemantic tx.version tx.body &&
    (keepedByBlock || decide (getTransactionWeight V tx <
      chain.cumulativeBlockWeightLimit - cryptonoteCoinbaseBlobReservedSize))

/-- `check_tx_syntax(tx)`. -/
def checkTxSyntax (_tx : Transaction B) : Bool := true

/-- The RingCT checks that `handle_incoming_tx_accumulated_batch` makes of a transaction of its
type, the batch verification of a bulletproof included. -/
def rctSemantics (tx : Transaction B) : Bool :=
  decide (tx.version < 2) || match V.rctType tx.body with
    | .null => false
    | .simple => V.verRctSemanticsSimple tx.body
    | .full => V.verRct tx.body
    | .bulletproof => V.isCanonicalBulletproofLayout tx.body && V.verRctSemanticsSimple tx.body
    | .other => false

/-- What the checks of a batch decide of one transaction on its own: `check_tx_semantic` and
the RingCT checks. -/
def passesSemantics (chain : Chain H) (keepedByBlock : Bool) (tx : Transaction B) : Bool :=
  checkTxSemantic V chain tx keepedByBlock && rctSemantics V tx

/-- The checks of `passesSemantics` that read only what the hash covers. -/
def hashedChecks (tx : Transaction B) : Bool :=
  V.checkSemantic tx.version tx.body && rctSemantics V tx

/-- The weight check of `check_tx_semantic`, which reads `extra2`, the flag and the chain. -/
def weightFits (chain : Chain H) (keepedByBlock : Bool) (tx : Transaction B) : Bool :=
  keepedByBlock || decide (getTransactionWeight V tx <
    chain.cumulativeBlockWeightLimit - cryptonoteCoinbaseBlobReservedSize)

/-! ## The calls -/

variable [DecidableEq H]

/-- `handle_incoming_tx_pre`: the size of the blob, the cache of bad semantics, the version. -/
def handleIncomingTxPre (chain : Chain H) (bad : List H × List H) (tx : Transaction B) :
    Except Rejection Unit :=
  if cryptonoteMaxTxSize < blobSize V tx then .error .tooBig
  else if getTransactionHash V tx ∈ bad.1 ∨ getTransactionHash V tx ∈ bad.2 then .error .badSemantics
  else if tx.version = 0 ∨ maxTxVersion chain.hardForkVersion < tx.version then .error .wrongVersion
  else .ok ()

/-- `handle_incoming_tx_post`. -/
def handleIncomingTxPost (tx : Transaction B) : Bool := checkTxSyntax tx

/-- `set_semantics_failed(tx_hash)`: when the newer set fills up it becomes the older one, and
the older one is dropped. -/
def setSemanticsFailed (txHash : H) (bad : List H × List H) : List H × List H :=
  let newer := bad.1.insert txHash
  if badSemanticsTxesMaxSize ≤ newer.length then ([], newer) else (newer, bad.2)

/-- `set_semantics_failed` for each transaction of a list, in order. -/
def setSemanticsFailedAll (txs : List (Transaction B)) (bad : List H × List H) : List H × List H :=
  txs.foldl (fun bad tx => setSemanticsFailed (getTransactionHash V tx) bad) bad

/-- The first loop of `handle_incoming_tx_accumulated_batch` on one transaction: its result,
and whether it waits for the batch verification of bulletproofs. -/
def firstPass (chain : Chain H) (keepedByBlock : Bool) (tx : Transaction B) : Bool × Bool :=
  if !checkTxSemantic V chain tx keepedByBlock then (false, false)
  else if tx.version < 2 then (true, false)
  else match V.rctType tx.body with
    | .null => (false, false)
    | .simple => (V.verRctSemanticsSimple tx.body, false)
    | .full => (V.verRct tx.body, false)
    | .bulletproof =>
      (V.isCanonicalBulletproofLayout tx.body, V.isCanonicalBulletproofLayout tx.body)
    | .other => (false, false)

/-- The second loop, after the batch verification of the delayed bulletproofs failed: whether
it refutes a transaction of the given first result. One delayed transaction alone is
`assumed_bad`. -/
def refuted (assumedBad : Bool) (tx : Transaction B) (result : Bool) : Bool :=
  result && rctTypeOf V tx == .bulletproof && (assumedBad || !V.verRctSemanticsSimple tx.body)

/-- `handle_incoming_tx_accumulated_batch(tx_info, keeped_by_block)`: the result of each
transaction of `tx_info`, and the cache after the failures. The batch verification of
bulletproofs `verRctSemanticsSimple(rvv)` accepts when each of them verifies. -/
def handleIncomingTxAccumulatedBatch (chain : Chain H) (keepedByBlock : Bool)
    (info : List (Transaction B)) (bad : List H × List H) : List Bool × (List H × List H) :=
  if keepedByBlock && chain.withinCompiledBlockHashArea then (info.map fun _ => true, bad)
  else
    let first := info.map (firstPass V chain keepedByBlock)
    let bad := setSemanticsFailedAll V ((info.zip first).filter (!·.2.1) |>.map Prod.fst) bad
    let rvv := (info.zip first).filter (·.2.2) |>.map Prod.fst
    if rvv.all (V.verRctSemanticsSimple ·.body) then (first.map Prod.fst, bad)
    else
      let second := (info.zip first).map fun p => refuted V (rvv.length == 1) p.1 p.2.1
      (((first.zip second).map fun p => p.1.1 && !p.2),
        setSemanticsFailedAll V ((info.zip second).filter (·.2) |>.map Prod.fst) bad)

/-- The verdict of `tx_memory_pool::add_tx` on a new transaction, which the model leaves
open. -/
abbrev AddTx (H B : Type) := Chain H → Bool → Transaction B → Bool

/-- `add_new_tx`: a transaction that the pool or the chain has is taken as added. -/
def addNewTx (addTx : AddTx H B) (chain : Chain H) (keepedByBlock : Bool) (pool : List H)
    (tx : Transaction B) : Bool × List H :=
  if getTransactionHash V tx ∈ pool ∨ getTransactionHash V tx ∈ chain.txs then (true, pool)
  else if addTx chain keepedByBlock tx then (true, pool ++ [getTransactionHash V tx])
  else (false, pool)

/-- `handle_incoming_txs(tx_blobs, tvc, keeped_by_block, ..)` on blobs that parse. The batch
gets the transactions that passed `handle_incoming_tx_pre`, are new to the pool and the chain,
and passed `handle_incoming_tx_post`; the call succeeds when every blob was had already or is
added. -/
def handleIncomingTxs (addTx : AddTx H B) (chain : Chain H) (txs : List (Transaction B))
    (keepedByBlock : Bool) (core : CoreState H) : Bool × CoreState H :=
  let passed := txs.filter fun tx => (handleIncomingTxPre V chain core.badSemanticsTxes tx).isOk
  let fresh := passed.filter fun tx =>
    !(decide (getTransactionHash V tx ∈ core.pool) || decide (getTransactionHash V tx ∈ chain.txs))
  let info := fresh.filter handleIncomingTxPost
  let batch := if info.isEmpty then ([], core.badSemanticsTxes)
    else handleIncomingTxAccumulatedBatch V chain keepedByBlock info core.badSemanticsTxes
  let added := ((info.zip batch.1).filter (·.2)).foldl
    (fun acc p => let r := addNewTx V addTx chain keepedByBlock acc.2 p.1; (acc.1 && r.1, r.2))
    (true, core.pool)
  (passed.length == txs.length && info.length == fresh.length && batch.1.all id && added.1,
    { badSemanticsTxes := batch.2, pool := added.2 })

/-- One call of `handle_incoming_txs`, with the chain as it is at the time. -/
structure Call (H B : Type) where
  chain : Chain H
  txs : List (Transaction B)
  keepedByBlock : Bool

/-- A call as a step of the core's state. -/
def step (addTx : AddTx H B) (call : Call H B) (core : CoreState H) : CoreState H :=
  (handleIncomingTxs V addTx call.chain call.txs call.keepedByBlock core).2

/-! ## What the batch decides -/

omit [DecidableEq H] in
theorem zip_map_self {α β : Type} (l : List α) (f : α → β) :
    l.zip (l.map f) = l.map fun a => (a, f a) := by
  induction l with
  | nil => rfl
  | cons a rest ih => simp [ih]

variable {V} {chain : Chain H} {keepedByBlock : Bool}

omit [DecidableEq H] in
/-- The first loop decides a transaction that is not a bulletproof one as its checks do, and
delays none of them. -/
theorem firstPass_of_ne {tx : Transaction B} (other : rctTypeOf V tx ≠ .bulletproof) :
    firstPass V chain keepedByBlock tx = (passesSemantics V chain keepedByBlock tx, false) := by
  unfold firstPass passesSemantics rctSemantics
  by_cases semantic : checkTxSemantic V chain tx keepedByBlock
  · by_cases old : tx.version < 2
    · simp [semantic, old]
    · have recent : V.rctType tx.body ≠ .bulletproof := by simpa [rctTypeOf, old] using other
      cases kind : V.rctType tx.body <;> simp [semantic, old, kind] at recent ⊢
  · simp [semantic]

omit [DecidableEq H] in
/-- A bulletproof transaction passes the first loop when its semantics and its layout do, and
then waits for the batch verification. -/
theorem firstPass_of_bulletproof {tx : Transaction B} (bulletproof : rctTypeOf V tx = .bulletproof) :
    firstPass V chain keepedByBlock tx =
      (checkTxSemantic V chain tx keepedByBlock && V.isCanonicalBulletproofLayout tx.body,
        checkTxSemantic V chain tx keepedByBlock && V.isCanonicalBulletproofLayout tx.body) := by
  have recent : ¬tx.version < 2 ∧ V.rctType tx.body = .bulletproof := by
    unfold rctTypeOf at bulletproof
    split_ifs at bulletproof with old
    exact ⟨old, bulletproof⟩
  by_cases semantic : checkTxSemantic V chain tx keepedByBlock <;>
    simp [firstPass, semantic, recent.1, recent.2]

omit [DecidableEq H] in
theorem passesSemantics_of_bulletproof {tx : Transaction B}
    (bulletproof : rctTypeOf V tx = .bulletproof) :
    passesSemantics V chain keepedByBlock tx =
      ((firstPass V chain keepedByBlock tx).1 && V.verRctSemanticsSimple tx.body) := by
  have recent : ¬tx.version < 2 ∧ V.rctType tx.body = .bulletproof := by
    unfold rctTypeOf at bulletproof
    split_ifs at bulletproof with old
    exact ⟨old, bulletproof⟩
  rw [firstPass_of_bulletproof bulletproof]
  simp [passesSemantics, rctSemantics, recent.1, recent.2, Bool.and_assoc]

omit [DecidableEq H] in
/-- A transaction that the first loop fails does not pass its checks. -/
theorem passesSemantics_of_firstPass {tx : Transaction B}
    (failed : (firstPass V chain keepedByBlock tx).1 = false) :
    passesSemantics V chain keepedByBlock tx = false := by
  by_cases bulletproof : rctTypeOf V tx = .bulletproof
  · rw [passesSemantics_of_bulletproof bulletproof, failed, Bool.false_and]
  · rwa [firstPass_of_ne bulletproof] at failed

omit [DecidableEq H] in
/-- A bulletproof transaction that passes the first loop is delayed. -/
theorem firstPass_delayed {tx : Transaction B} (bulletproof : rctTypeOf V tx = .bulletproof)
    (passed : (firstPass V chain keepedByBlock tx).1 = true) :
    (firstPass V chain keepedByBlock tx).2 = true := by
  rw [firstPass_of_bulletproof bulletproof] at passed ⊢
  exact passed

omit [DecidableEq H] in
/-- When the batch verification accepts the delayed transactions, the first loop's verdict on
a transaction of the batch is what its checks decide. -/
theorem firstPass_eq_of_verified {info : List (Transaction B)} {tx : Transaction B} (mem : tx ∈ info)
    (verified : (info.filter fun t => (firstPass V chain keepedByBlock t).2).all
      (V.verRctSemanticsSimple ·.body) = true) :
    (firstPass V chain keepedByBlock tx).1 = passesSemantics V chain keepedByBlock tx := by
  by_cases bulletproof : rctTypeOf V tx = .bulletproof
  · rw [passesSemantics_of_bulletproof bulletproof]
    cases passed : (firstPass V chain keepedByBlock tx).1 with
    | false => rfl
    | true =>
      have delayed : tx ∈ info.filter fun t => (firstPass V chain keepedByBlock t).2 :=
        List.mem_filter.mpr ⟨mem, firstPass_delayed bulletproof passed⟩
      simpa using (List.all_eq_true.mp verified tx delayed).symm
  · rw [firstPass_of_ne bulletproof]

omit [DecidableEq H] in
/-- When the batch verification refuses the delayed transactions, the second loop's verdict on
a transaction of the batch is what its checks decide: one delayed transaction alone is the one
that fails, and of several each is verified again. -/
theorem refuted_eq_of_failed {info : List (Transaction B)} {tx : Transaction B} (mem : tx ∈ info)
    (failed : (info.filter fun t => (firstPass V chain keepedByBlock t).2).all
      (V.verRctSemanticsSimple ·.body) = false) :
    ((firstPass V chain keepedByBlock tx).1 &&
        !refuted V ((info.filter fun t => (firstPass V chain keepedByBlock t).2).length == 1) tx
          (firstPass V chain keepedByBlock tx).1) =
      passesSemantics V chain keepedByBlock tx := by
  by_cases bulletproof : rctTypeOf V tx = .bulletproof
  · rw [passesSemantics_of_bulletproof bulletproof]
    cases passed : (firstPass V chain keepedByBlock tx).1 with
    | false => rfl
    | true =>
      have delayed : tx ∈ info.filter fun t => (firstPass V chain keepedByBlock t).2 :=
        List.mem_filter.mpr ⟨mem, firstPass_delayed bulletproof passed⟩
      cases verifies : V.verRctSemanticsSimple tx.body with
      | false => simp [refuted, bulletproof, verifies]
      | true =>
        -- one delayed transaction alone would be this one, which verifies
        have several : ¬(info.filter fun t => (firstPass V chain keepedByBlock t).2).length = 1 := by
          intro single
          obtain ⟨only, listed⟩ := List.length_eq_one_iff.mp single
          rw [listed, List.mem_singleton] at delayed
          rw [listed, ← delayed] at failed
          simp [verifies] at failed
        simp [refuted, bulletproof, verifies, several]
  · rw [firstPass_of_ne bulletproof]
    simp [refuted, bulletproof]

omit [DecidableEq H] in
theorem map_fst_filter_map_pair {α β : Type} (l : List α) (f : α → β) (p : α × β → Bool) :
    ((l.map fun a => (a, f a)).filter p).map Prod.fst = l.filter fun a => p (a, f a) := by
  induction l with
  | nil => rfl
  | cons a rest ih => by_cases kept : p (a, f a) <;> simp [kept, ← ih]

/-- The batch in terms of its transactions: the delayed ones, the failures of the first loop,
and the refutations of the second. -/
theorem handleIncomingTxAccumulatedBatch_eq (info : List (Transaction B)) (bad : List H × List H) :
    handleIncomingTxAccumulatedBatch V chain keepedByBlock info bad =
      if keepedByBlock && chain.withinCompiledBlockHashArea then (info.map fun _ => true, bad)
      else
        let delayed := info.filter fun t => (firstPass V chain keepedByBlock t).2
        let first := setSemanticsFailedAll V
          (info.filter fun t => !(firstPass V chain keepedByBlock t).1) bad
        if delayed.all (V.verRctSemanticsSimple ·.body) then
          (info.map fun t => (firstPass V chain keepedByBlock t).1, first)
        else
          (info.map fun t => (firstPass V chain keepedByBlock t).1 &&
              !refuted V (delayed.length == 1) t (firstPass V chain keepedByBlock t).1,
            setSemanticsFailedAll V
              (info.filter fun t => refuted V (delayed.length == 1) t (firstPass V chain keepedByBlock t).1)
              first) := by
  unfold handleIncomingTxAccumulatedBatch
  simp only [zip_map_self, List.map_map, Function.comp_def, map_fst_filter_map_pair, List.zip_map']

/-- The batch decides each transaction as its own checks do: the delayed verification of
bulletproofs, with its second loop when it fails, changes no verdict. -/
theorem handleIncomingTxAccumulatedBatch_verdicts (info : List (Transaction B))
    (bad : List H × List H) :
    (handleIncomingTxAccumulatedBatch V chain keepedByBlock info bad).1 =
      info.map fun tx =>
        (keepedByBlock && chain.withinCompiledBlockHashArea) || passesSemantics V chain keepedByBlock tx := by
  rw [handleIncomingTxAccumulatedBatch_eq]
  by_cases skip : (keepedByBlock && chain.withinCompiledBlockHashArea) = true
  · simp [skip]
  · have checked : (keepedByBlock && chain.withinCompiledBlockHashArea) = false :=
      Bool.eq_false_iff.mpr skip
    rw [if_neg skip]
    simp only [checked, Bool.false_or]
    split_ifs with verified
    · exact List.map_congr_left fun tx mem => firstPass_eq_of_verified mem verified
    · exact List.map_congr_left fun tx mem =>
        refuted_eq_of_failed mem (Bool.eq_false_iff.mpr verified)

/-! ## What the cache holds -/

/-- A hash that one of the two sets of `bad_semantics_txes` holds. -/
def Cached (bad : List H × List H) (x : H) : Prop := x ∈ bad.1 ∨ x ∈ bad.2

instance (bad : List H × List H) (x : H) : Decidable (Cached bad x) :=
  inferInstanceAs (Decidable (x ∈ bad.1 ∨ x ∈ bad.2))

theorem cached_setSemanticsFailed {txHash x : H} {bad : List H × List H}
    (cached : Cached (setSemanticsFailed txHash bad) x) : x = txHash ∨ Cached bad x := by
  unfold setSemanticsFailed at cached
  dsimp only at cached
  split_ifs at cached
  · rcases cached with dropped | newer
    · simp at dropped
    · exact (List.mem_insert_iff.mp newer).imp_right .inl
  · rcases cached with newer | older
    · exact (List.mem_insert_iff.mp newer).imp_right .inl
    · exact .inr (.inr older)

@[simp] theorem setSemanticsFailedAll_cons (tx : Transaction B) (rest : List (Transaction B))
    (bad : List H × List H) :
    setSemanticsFailedAll V (tx :: rest) bad =
      setSemanticsFailedAll V rest (setSemanticsFailed (getTransactionHash V tx) bad) :=
  rfl

theorem cached_setSemanticsFailedAll {x : H} :
    ∀ {txs : List (Transaction B)} {bad : List H × List H},
      Cached (setSemanticsFailedAll V txs bad) x →
        Cached bad x ∨ ∃ tx ∈ txs, getTransactionHash V tx = x
  | [], _, cached => .inl cached
  | tx :: rest, bad, cached => by
    rw [setSemanticsFailedAll_cons] at cached
    rcases cached_setSemanticsFailedAll cached with earlier | ⟨t, mem, hash⟩
    · rcases cached_setSemanticsFailed earlier with rfl | older
      · exact .inr ⟨tx, List.mem_cons_self, rfl⟩
      · exact .inl older
    · exact .inr ⟨t, List.mem_cons_of_mem _ mem, hash⟩

/-- The batch adds to the cache only hashes of its transactions that fail their checks. -/
theorem cached_handleIncomingTxAccumulatedBatch {info : List (Transaction B)}
    {bad : List H × List H} {x : H}
    (cached : Cached (handleIncomingTxAccumulatedBatch V chain keepedByBlock info bad).2 x) :
    Cached bad x ∨
      ∃ tx ∈ info, getTransactionHash V tx = x ∧ passesSemantics V chain keepedByBlock tx = false := by
  -- the failures of the first loop
  have first : Cached (setSemanticsFailedAll V
      (info.filter fun t => !(firstPass V chain keepedByBlock t).1) bad) x →
      Cached bad x ∨
        ∃ tx ∈ info, getTransactionHash V tx = x ∧ passesSemantics V chain keepedByBlock tx = false :=
    fun cached => (cached_setSemanticsFailedAll cached).imp_right fun ⟨tx, mem, hash⟩ =>
      have ⟨mem, failed⟩ := List.mem_filter.mp mem
      ⟨tx, mem, hash, passesSemantics_of_firstPass (by simpa using failed)⟩
  rw [handleIncomingTxAccumulatedBatch_eq] at cached
  dsimp only at cached
  split_ifs at cached with skip verified
  · exact .inl cached
  · exact first cached
  · rcases cached_setSemanticsFailedAll cached with earlier | ⟨tx, mem, hash⟩
    · exact first earlier
    · obtain ⟨mem, refutes⟩ := List.mem_filter.mp mem
      have verdict := refuted_eq_of_failed mem (Bool.eq_false_iff.mpr verified)
      rw [refutes, Bool.not_true, Bool.and_false] at verdict
      exact .inr ⟨tx, mem, hash, verdict.symm⟩

/-- A call adds to the cache only hashes of its transactions that fail their checks. -/
theorem cached_handleIncomingTxs {addTx : AddTx H B} {txs : List (Transaction B)}
    {core : CoreState H} {x : H}
    (cached : Cached (handleIncomingTxs V addTx chain txs keepedByBlock core).2.badSemanticsTxes x) :
    Cached core.badSemanticsTxes x ∨
      ∃ tx ∈ txs, getTransactionHash V tx = x ∧ passesSemantics V chain keepedByBlock tx = false := by
  unfold handleIncomingTxs at cached
  dsimp only at cached
  split_ifs at cached
  · exact .inl cached
  · refine (cached_handleIncomingTxAccumulatedBatch cached).imp_right fun ⟨tx, mem, hash, failed⟩ =>
      ⟨tx, ?_, hash, failed⟩
    -- the batch gets transactions of the call
    exact (List.mem_filter.mp (List.mem_filter.mp (List.mem_filter.mp mem).1).1).1

variable (V) in
/-- The cache holds only hashes that it held at the start of a run, or that failed their checks
in one of the calls done since, under the chain and the flag of that call. -/
def Justified (start : List H × List H) (done : List (Call H B)) (core : CoreState H) : Prop :=
  ∀ x, Cached core.badSemanticsTxes x → Cached start x ∨
    ∃ call ∈ done, ∃ tx ∈ call.txs,
      getTransactionHash V tx = x ∧ passesSemantics V call.chain call.keepedByBlock tx = false

theorem Justified.step {addTx : AddTx H B} {start : List H × List H} {done : List (Call H B)}
    {core : CoreState H} (justified : Justified V start done core) (call : Call H B) :
    Justified V start (done ++ [call]) (step V addTx call core) := by
  intro x cached
  rcases cached_handleIncomingTxs cached with earlier | ⟨tx, mem, hash, failed⟩
  · exact (justified x earlier).imp_right fun ⟨c, called, rest⟩ =>
      ⟨c, List.mem_append_left _ called, rest⟩
  · exact .inr ⟨call, List.mem_append_right _ (List.mem_singleton_self call), tx, mem, hash, failed⟩

/-- Every hash in the cache at the end of a run of calls was in it at the start, or is the hash
of a transaction of one of the calls that failed its checks in that call, under the chain and
the flag of the call. -/
theorem cached_of_run (addTx : AddTx H B) (calls : List (Call H B)) (core : CoreState H) {x : H}
    (cached : Cached (Machine.run (step V addTx) core calls).badSemanticsTxes x) :
    Cached core.badSemanticsTxes x ∨
      ∃ call ∈ calls, ∃ tx ∈ call.txs,
        getTransactionHash V tx = x ∧ passesSemantics V call.chain call.keepedByBlock tx = false := by
  have justified : Justified V core.badSemanticsTxes ([] ++ calls) (Machine.run (step V addTx) core calls) :=
    Machine.run_trace_invariant (step V addTx) (fun _ call _ justified => justified.step call) calls
      (fun _ cached => .inl cached)
  simpa using justified x cached

theorem cached_of_run_after_copy :
    let V : Verifier Nat Nat := ⟨fun _ b => b, fun _ _ => 10, fun _ => .simple, fun _ => 0,
      fun _ _ => true, fun _ => true, fun _ => true, fun _ => true⟩
    let calls : List (Call Nat Nat) :=
      [⟨⟨13, 700, false, []⟩, [⟨3, 5, 1, List.replicate 100 0⟩], false⟩]
    Cached (Machine.run (step V fun _ _ _ => true) ⟨([], []), []⟩ calls).badSemanticsTxes 5 ∧
      (Cached ([], []) 5 ∨ ∃ call ∈ calls, ∃ tx ∈ call.txs,
        getTransactionHash V tx = 5 ∧ passesSemantics V call.chain call.keepedByBlock tx = false) :=
  ⟨by decide, cached_of_run (fun _ _ _ => true) _ ⟨([], []), []⟩ (by decide)⟩

/-! ## A refusal by the cache -/

theorem handleIncomingTxPre_badSemantics {bad : List H × List H} {tx : Transaction B}
    (rejected : handleIncomingTxPre V chain bad tx = .error .badSemantics) :
    Cached bad (getTransactionHash V tx) := by
  unfold handleIncomingTxPre at rejected
  split_ifs at rejected with big cached <;> first | exact cached | cases rejected

omit [DecidableEq H] in
theorem passesSemantics_eq (tx : Transaction B) :
    passesSemantics V chain keepedByBlock tx =
      (hashedChecks V tx && weightFits V chain keepedByBlock tx) := by
  simp only [passesSemantics, checkTxSemantic, hashedChecks, weightFits]
  cases V.checkSemantic tx.version tx.body <;> cases rctSemantics V tx <;> simp

omit [DecidableEq H] in
/-- The checks on the hashed fields read nothing else. -/
theorem hashedChecks_congr {tx tx' : Transaction B} (version : tx.version = tx'.version)
    (body : tx.body = tx'.body) : hashedChecks V tx = hashedChecks V tx' := by
  simp only [hashedChecks, rctSemantics, version, body]

/-- The cache, after any run from an empty core, refuses a transaction only when the checks on
its hashed fields fail, or when a transaction with the same hashed fields (the same version,
prefix and signatures, with any `type` and `extra2`) failed the weight check in an earlier
call: it was not kept by a block and too heavy for the weight limit of the chain at the time.
The hash is taken to tell apart any two versions and hashed fields. -/
theorem badSemantics_rejects_hashed_or_weight (addTx : AddTx H B) (calls : List (Call H B))
    (chain : Chain H) (tx : Transaction B) (distinct : ∀ v b v' b', V.hash v b = V.hash v' b' → v = v' ∧ b = b')
    (rejected : handleIncomingTxPre V chain
      (Machine.run (step V addTx) ⟨([], []), []⟩ calls).badSemanticsTxes tx = .error .badSemantics) :
    hashedChecks V tx = false ∨
      ∃ call ∈ calls, ∃ tx' ∈ call.txs, tx'.version = tx.version ∧ tx'.body = tx.body ∧
        weightFits V call.chain call.keepedByBlock tx' = false := by
  rcases cached_of_run addTx calls _ (handleIncomingTxPre_badSemantics rejected) with
    empty | ⟨call, called, tx', mem, hash, failed⟩
  · simp [Cached] at empty
  · obtain ⟨version, body⟩ := distinct _ _ _ _ hash
    rw [passesSemantics_eq, Bool.and_eq_false_iff] at failed
    rcases failed with hashed | weight
    · exact .inl (by rwa [hashedChecks_congr version body] at hashed)
    · exact .inr ⟨call, called, tx', mem, version, body, weight⟩

theorem badSemantics_rejects_hashed_or_weight_after_copy :
    let V : Verifier Nat (Nat × Nat) := ⟨fun v b => (v, b), fun _ _ => 10, fun _ => .simple,
      fun _ => 0, fun _ _ => true, fun _ => true, fun _ => true, fun _ => true⟩
    let chain : Chain (Nat × Nat) := ⟨13, 700, false, []⟩
    let original : Transaction Nat := ⟨3, 5, 1, []⟩
    let calls : List (Call (Nat × Nat) Nat) := [⟨chain, [⟨3, 5, 1, List.replicate 100 0⟩], false⟩]
    (∀ v b v' b', V.hash v b = V.hash v' b' → v = v' ∧ b = b') ∧
      handleIncomingTxPre V chain (Machine.run (step V fun _ _ _ => true) ⟨([], []), []⟩ calls).badSemanticsTxes
        original = .error .badSemantics ∧
      (hashedChecks V original = false ∨
        ∃ call ∈ calls, ∃ tx' ∈ call.txs, tx'.version = original.version ∧ tx'.body = original.body ∧
          weightFits V call.chain call.keepedByBlock tx' = false) :=
  ⟨fun _ _ _ _ same => Prod.mk.inj same, by decide,
    badSemantics_rejects_hashed_or_weight (fun _ _ _ => true) _ ⟨13, 700, false, []⟩ _
      (fun _ _ _ _ same => Prod.mk.inj same) (by decide)⟩

/-! ## A copy with a longer `extra2` -/

/-- A number below `128 ^ k` takes at most `k + 1` bytes as a varint. -/
theorem varintBytes_le {k : Nat} : ∀ {fuel n : Nat}, n < 128 ^ k → varintBytes fuel n ≤ k + 1
  | 0, _, _ => Nat.le_add_left 1 k
  | fuel + 1, n, small => by
    unfold varintBytes
    split
    · omega
    · next big =>
      -- a number of 128 or more has a digit above the lowest, so `k` is positive
      obtain ⟨k, rfl⟩ : ∃ j, k = j + 1 := ⟨k - 1, by
        cases k with
        | zero => rw [Nat.pow_zero] at small; omega
        | succ j => rfl⟩
      have shifted : n / 128 < 128 ^ k := by
        rw [Nat.div_lt_iff_lt_mul (by decide), ← Nat.pow_succ]
        exact small
      have rest := @varintBytes_le k fuel _ shifted
      omega

/-- A call fails when one of its blobs fails `handle_incoming_tx_pre`. -/
theorem handleIncomingTxs_of_pre_error (addTx : AddTx H B) {txs : List (Transaction B)}
    {tx : Transaction B} (mem : tx ∈ txs) {core : CoreState H} {r : Rejection}
    (rejected : handleIncomingTxPre V chain core.badSemanticsTxes tx = .error r) :
    (handleIncomingTxs V addTx chain txs keepedByBlock core).1 = false := by
  have shorter : (txs.filter fun tx =>
      (handleIncomingTxPre V chain core.badSemanticsTxes tx).isOk).length < txs.length :=
    List.length_filter_lt_length_iff_exists.mpr
      ⟨tx, mem, by simp [rejected, Except.isOk, Except.toBool]⟩
  simp [handleIncomingTxs, Nat.ne_of_lt shorter]

/-- A valid version 3 transaction, and a copy of it whose `extra2` makes it too heavy for the
weight limit, for every limit from 620 (where the valid transaction fits) up to
`CRYPTONOTE_MAX_TX_SIZE` (where the copy still passes the size check). The copy is relayed
first: it fails the weight check, and its hash, which is the hash of the valid transaction, goes
into the cache. The valid transaction passes every check on its own, and is accepted by a core
that has not seen the copy; after the copy, it is refused both when it is relayed and when it
comes in a block. -/
theorem bad_semantics_copy_blocks_original (limit : Nat) (fits : 620 ≤ limit)
    (bounded : limit ≤ cryptonoteMaxTxSize) :
    let V : Verifier Nat Nat := ⟨fun _ b => b, fun _ _ => 10, fun _ => .simple, fun _ => 0,
      fun _ _ => true, fun _ => true, fun _ => true, fun _ => true⟩
    let addTx : AddTx Nat Nat := fun _ _ _ => true
    let chain : Chain Nat := ⟨13, limit, false, []⟩
    let original : Transaction Nat := ⟨3, 5, 1, []⟩
    let copy : Transaction Nat := ⟨3, 5, 1, List.replicate (limit - 618) 0⟩
    let relayed := handleIncomingTxs V addTx chain [copy] false ⟨([], []), []⟩
    getTransactionHash V copy = getTransactionHash V original ∧
      passesSemantics V chain false original = true ∧
      (handleIncomingTxs V addTx chain [original] false ⟨([], []), []⟩).1 = true ∧
      relayed.1 = false ∧
      handleIncomingTxPre V chain relayed.2.badSemanticsTxes original = .error .badSemantics ∧
      (handleIncomingTxs V addTx chain [original] false relayed.2).1 = false ∧
      (handleIncomingTxs V addTx chain [original] true relayed.2).1 = false := by
  intro V addTx chain original copy relayed
  -- the sizes: the copy weighs at least the bound `limit - 600`, the valid transaction 19
  have varint : varintSize (limit - 618) ≤ 6 := by
    unfold varintSize
    exact varintBytes_le (k := 5) (by simp [cryptonoteMaxTxSize] at bounded; omega)
  have copySize : blobSize V copy = limit - 600 + varintSize (limit - 618) := by
    simp [blobSize, V, copy]
    omega
  have originalSize : blobSize V original = 19 := rfl
  have copyWeight : getTransactionWeight V copy = blobSize V copy := by
    simp [getTransactionWeight, rctTypeOf, V, copy]
  have originalWeight : getTransactionWeight V original = 19 := rfl
  have copyFails : checkTxSemantic V chain copy false = false := by
    simp [checkTxSemantic, copyWeight, copySize, chain, cryptonoteCoinbaseBlobReservedSize, V]
  have originalPasses : checkTxSemantic V chain original false = true := by
    simp [checkTxSemantic, originalWeight, chain, cryptonoteCoinbaseBlobReservedSize, V]
    omega
  have copyPre : handleIncomingTxPre V chain ([], []) copy = .ok () := by
    simp [handleIncomingTxPre, copySize, chain, V, copy, maxTxVersion, currentTransactionVersion]
    simp [cryptonoteMaxTxSize] at bounded ⊢
    omega
  have originalPre : handleIncomingTxPre V chain ([], []) original = .ok () := by
    simp [handleIncomingTxPre, originalSize, chain, original, maxTxVersion,
      currentTransactionVersion, cryptonoteMaxTxSize]
  have copyFirst : firstPass V chain false copy = (false, false) := by
    simp [firstPass, copyFails]
  have originalFirst : firstPass V chain false original = (true, false) := by
    simp [firstPass, originalPasses, V, original]
  have copyHash : getTransactionHash V copy = 5 := rfl
  have originalHash : getTransactionHash V original = 5 := rfl
  have area : chain.withinCompiledBlockHashArea = false := rfl
  have noTxs : chain.txs = [] := rfl
  have post : (handleIncomingTxPost : Transaction Nat → Bool) = fun _ => true := rfl
  -- the copy fails the weight check, and its hash goes into the cache
  have relayedEq : relayed = (false, ⟨([5], []), []⟩) := by
    simp [relayed, handleIncomingTxs, copyPre, handleIncomingTxAccumulatedBatch, copyFirst,
      setSemanticsFailedAll, setSemanticsFailed, copyHash, noTxs, badSemanticsTxesMaxSize,
      Except.isOk, Except.toBool, post]
  have cachedPre : handleIncomingTxPre V chain ([5], []) original = .error .badSemantics := by
    simp [handleIncomingTxPre, originalSize, originalHash, cryptonoteMaxTxSize]
  refine ⟨copyHash.trans originalHash.symm, ?_, ?_, by rw [relayedEq],
    by rw [relayedEq]; exact cachedPre, ?_, ?_⟩
  · simp [passesSemantics, originalPasses, rctSemantics, V, original]
  · simp [handleIncomingTxs, originalPre, handleIncomingTxAccumulatedBatch, originalFirst,
      setSemanticsFailedAll, addNewTx, originalHash, area, noTxs, addTx, Except.isOk,
      Except.toBool, post]
  · rw [relayedEq]
    exact handleIncomingTxs_of_pre_error addTx List.mem_cons_self cachedPre
  · rw [relayedEq]
    exact handleIncomingTxs_of_pre_error addTx List.mem_cons_self cachedPre

/-- At the smallest weight limit from hard fork 5 on,
`CRYPTONOTE_BLOCK_GRANTED_FULL_REWARD_ZONE_V5`, the copy has 299382 bytes of `extra2`. -/
theorem bad_semantics_copy_at_full_reward_zone :
    620 ≤ 300000 ∧ 300000 ≤ cryptonoteMaxTxSize ∧
    let V : Verifier Nat Nat := ⟨fun _ b => b, fun _ _ => 10, fun _ => .simple, fun _ => 0,
      fun _ _ => true, fun _ => true, fun _ => true, fun _ => true⟩
    let addTx : AddTx Nat Nat := fun _ _ _ => true
    let chain : Chain Nat := ⟨13, 300000, false, []⟩
    let original : Transaction Nat := ⟨3, 5, 1, []⟩
    let copy : Transaction Nat := ⟨3, 5, 1, List.replicate (300000 - 618) 0⟩
    let relayed := handleIncomingTxs V addTx chain [copy] false ⟨([], []), []⟩
    getTransactionHash V copy = getTransactionHash V original ∧
      passesSemantics V chain false original = true ∧
      (handleIncomingTxs V addTx chain [original] false ⟨([], []), []⟩).1 = true ∧
      relayed.1 = false ∧
      handleIncomingTxPre V chain relayed.2.badSemanticsTxes original = .error .badSemantics ∧
      (handleIncomingTxs V addTx chain [original] false relayed.2).1 = false ∧
      (handleIncomingTxs V addTx chain [original] true relayed.2).1 = false :=
  ⟨by decide, by decide, bad_semantics_copy_blocks_original 300000 (by decide) (by decide)⟩

end GraftNetwork.Core.IncomingTxs

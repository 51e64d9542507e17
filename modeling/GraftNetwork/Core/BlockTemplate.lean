import GraftNetwork.Core.MemoryPool
import GraftNetwork.Core.BlockReward

/-!
# The block template

`tx_memory_pool::fill_block_template` (`src/cryptonote_core/tx_pool.cpp`) walks the pool's
sorted set, best fee per byte first, and adds to the template each transaction that fits the
largest weight of the version, that from version 5 does not lower the coinbase below the
accepted threshold (before version 5 the loop stops once the penalty-free weight is passed),
that `is_transaction_ready_to_go` accepts and that spends no key image of the template so far.

The loop is `Machine.runBreaking` over `fillBlockTemplateStep`. The readiness verdict, which reads
the chain, and `template_accept_threshold`, a product with the `float` `ACCEPT_THRESHOLD`, are
parameters. `size_t` and `uint64_t` sums wrap modulo `2 ^ 64`.

* `fill_block_template_selects`: from a pool whose sorted set indexes its tables, whatever the
  pool's weight, the template is a list of distinct ready transactions of the pool with pairwise
  disjoint key images, its weight and fee are their sums, the weight is within the version's
  largest, and from version 5 the expected reward is the reward of the weight plus the fee.
* `fill_block_template_reward_zero_before_v5`: before version 5 the expected reward is zero as
  soon as one transaction is added: the loop never computes `coinbase` there.
-/

namespace GraftNetwork.Core.MemoryPool

open GraftNetwork.Database GraftNetwork.Core.MinerTx

variable {H K : Type} [DecidableEq H] [DecidableEq K]

/-- `CRYPTONOTE_COINBASE_BLOB_RESERVED_SIZE`. -/
def CRYPTONOTE_COINBASE_BLOB_RESERVED_SIZE : Nat := 600

/-! ## The key images of the template -/

/-- `have_key_images(k_images, tx)`: an input spends a key image of the set. An input that spends
none ends the scan with `false` (`CHECKED_GET_SPECIFIC_VARIANT`). -/
def haveKeyImages (kImages : List K) : List (TxIn K) → Bool
  | [] => false
  | .toKey kImage :: vin => if kImage ∈ kImages then true else haveKeyImages kImages vin
  | _ :: _ => false

/-- `append_key_images(k_images, tx)`: the key images of the inputs inserted in order, up to an
input that spends none or a key image already in the set. -/
def appendKeyImages (kImages : List K) : List (TxIn K) → List K
  | [] => kImages
  | .toKey kImage :: vin =>
    if kImage ∈ kImages then kImages else appendKeyImages (kImages ++ [kImage]) vin
  | _ :: _ => kImages

/-! ## The loop -/

/-- What `fill_block_template` keeps across the loop: `bl.tx_hashes`, `total_weight`, `fee`,
`best_coinbase`, `coinbase` and `k_images`. -/
structure BlockTemplate (H K : Type) where
  txHashes : List H
  totalWeight : Nat
  fee : Nat
  bestCoinbase : Nat
  coinbase : Nat
  kImages : List K
deriving DecidableEq, Repr

/-- The end of the loop's body: a transaction whose blob parses, that is ready to go and that
spends no key image of the template is added, and `best_coinbase` takes `coinbase`. -/
def addToTemplate (isTransactionReadyToGo : PoolTx H K → Bool) (txid : H) (row : PoolTx H K)
    (t : BlockTemplate H K) : BlockTemplate H K :=
  match row.blob with
  | none => t
  | some tx =>
    if !isTransactionReadyToGo row then t
    else if haveKeyImages t.kImages tx.vin then t
    else
      { t with
        txHashes := t.txHashes ++ [txid]
        totalWeight := (t.totalWeight + row.txMeta.weight) % 2 ^ 64
        fee := (t.fee + row.txMeta.fee) % 2 ^ 64
        bestCoinbase := t.coinbase
        kImages := appendKeyImages t.kImages tx.vin }

/-- One round of the loop of `fill_block_template`, for an entry of the sorted set. -/
def fillBlockTemplateStep (pool : TxMemoryPool H K) (isTransactionReadyToGo : PoolTx H K → Bool)
    (templateAcceptThreshold : Nat → Nat)
    (medianWeight alreadyGeneratedCoins version maxTotalWeight : Nat)
    (entry : TxByFeeAndReceiveTimeEntry H) (t : BlockTemplate H K) : ForInStep (BlockTemplate H K) :=
  match findTxpoolTx pool.txpool entry.2 with
  | none => .yield t
  | some row =>
    if maxTotalWeight < (t.totalWeight + row.txMeta.weight) % 2 ^ 64 then .yield t
    else if 5 ≤ version then
      -- the coinbase of the template with the transaction must not fall below the threshold
      match getBlockReward medianWeight ((t.totalWeight + row.txMeta.weight) % 2 ^ 64)
          alreadyGeneratedCoins version with
      | none => .yield t
      | some blockReward =>
        let t := { t with coinbase := (blockReward + t.fee + row.txMeta.fee) % 2 ^ 64 }
        if t.coinbase < templateAcceptThreshold t.bestCoinbase then .yield t
        else .yield (addToTemplate isTransactionReadyToGo entry.2 row t)
    else if t.totalWeight > medianWeight then .done t
    else .yield (addToTemplate isTransactionReadyToGo entry.2 row t)

/-- `max_total_weight`: 130% of the median before version 5 and twice the median from it, less
the coinbase reserve, in `size_t`. -/
def maxTotalWeight (medianWeight version : Nat) : Nat :=
  let maxTotalWeightPreV5 :=
    (130 * medianWeight % 2 ^ 64 / 100 + 2 ^ 64 - CRYPTONOTE_COINBASE_BLOB_RESERVED_SIZE) % 2 ^ 64
  let maxTotalWeightV5 :=
    (2 * medianWeight % 2 ^ 64 + 2 ^ 64 - CRYPTONOTE_COINBASE_BLOB_RESERVED_SIZE) % 2 ^ 64
  if 5 ≤ version then maxTotalWeightV5 else maxTotalWeightPreV5

/-- `fill_block_template(bl, median_weight, already_generated_coins, total_weight, fee,
expected_reward, version)` on a block whose hashes are `txHashes`: the hashes after, with
`total_weight`, `fee` and `expected_reward`. It always returns true. -/
def fillBlockTemplate (pool : TxMemoryPool H K) (isTransactionReadyToGo : PoolTx H K → Bool)
    (templateAcceptThreshold : Nat → Nat) (txHashes : List H)
    (medianWeight alreadyGeneratedCoins version : Nat) : List H × Nat × Nat × Nat :=
  -- the baseline of an empty block
  let bestCoinbase := (getBlockReward medianWeight 0 alreadyGeneratedCoins version).getD 0
  let t := Machine.runBreaking
    (fillBlockTemplateStep pool isTransactionReadyToGo templateAcceptThreshold medianWeight
      alreadyGeneratedCoins version (maxTotalWeight medianWeight version))
    ⟨txHashes, 0, 0, bestCoinbase, 0, []⟩ pool.txsByFeeAndReceiveTime
  (t.txHashes, t.totalWeight, t.fee, t.bestCoinbase)

/-! ## The key images of a transaction of the pool -/

omit [DecidableEq H] in
/-- `have_key_images` of a transaction whose inputs all spend key images: whether one of them is
in the set. -/
theorem haveKeyImages_eq_false (kImages : List K) :
    ∀ {vin : List (TxIn K)}, (∀ input ∈ vin, ∃ k, input = .toKey k) →
      (haveKeyImages kImages vin = false ↔ ∀ k ∈ vin.filterMap TxIn.keyImage?, k ∉ kImages)
  | [], _ => by simp [haveKeyImages]
  | input :: vin, toKey => by
    obtain ⟨k₀, rfl⟩ := toKey input List.mem_cons_self
    have rest := haveKeyImages_eq_false kImages fun i mem => toKey i (List.mem_cons_of_mem _ mem)
    by_cases present : k₀ ∈ kImages
    · simp [haveKeyImages, present, TxIn.keyImage?]
    · simp [haveKeyImages, present, TxIn.keyImage?, rest]

omit [DecidableEq H] in
/-- `append_key_images` of a transaction whose inputs all spend distinct key images, none of them
in the set: the set grows by all of them. -/
theorem appendKeyImages_eq :
    ∀ (kImages : List K) {vin : List (TxIn K)}, (∀ input ∈ vin, ∃ k, input = .toKey k) →
      (vin.filterMap TxIn.keyImage?).Nodup → (∀ k ∈ vin.filterMap TxIn.keyImage?, k ∉ kImages) →
      appendKeyImages kImages vin = kImages ++ vin.filterMap TxIn.keyImage?
  | _, [], _, _, _ => by simp [appendKeyImages]
  | kImages, input :: vin, toKey, nodup, fresh => by
    obtain ⟨k₀, rfl⟩ := toKey input List.mem_cons_self
    simp only [List.filterMap_cons, TxIn.keyImage?, List.nodup_cons] at nodup
    have absent : k₀ ∉ kImages := fresh k₀ (by simp [TxIn.keyImage?])
    have freshRest : ∀ k ∈ vin.filterMap TxIn.keyImage?, k ∉ kImages ++ [k₀] := fun k mem => by
      simp only [List.mem_append, List.mem_singleton, not_or]
      exact ⟨fresh k (by simp [TxIn.keyImage?, mem]), fun same => nodup.1 (same ▸ mem)⟩
    rw [appendKeyImages, if_neg absent, appendKeyImages_eq (kImages ++ [k₀])
      (fun i mem => toKey i (List.mem_cons_of_mem _ mem)) nodup.2 freshRest]
    simp [TxIn.keyImage?]

/-! ## What the template holds -/

/-- The key images that a row's transaction spends. -/
def PoolTx.keyImages (row : PoolTx H K) : List K := (row.blob.map Transaction.keyImages).getD []

/-- What the template holds once it took `rows`: their hashes after those it started with, each a
transaction of the tables that is ready to go; the key images of all of them, none twice; their
weight and fee, summed in words, and the weight within the largest. -/
structure Selected (pool : TxMemoryPool H K) (isTransactionReadyToGo : PoolTx H K → Bool)
    (maxWeight : Nat) (txHashes : List H) (t : BlockTemplate H K) (rows : List (PoolTx H K)) :
    Prop where
  hashes : t.txHashes = txHashes ++ rows.map (·.txid)
  ready : ∀ row ∈ rows, row ∈ pool.txpool ∧ isTransactionReadyToGo row = true
  kImages : t.kImages = rows.flatMap PoolTx.keyImages
  kImages_nodup : t.kImages.Nodup
  totalWeight : t.totalWeight = (rows.map (·.txMeta.weight)).sum % 2 ^ 64
  within : t.totalWeight ≤ maxWeight
  fee : t.fee = (rows.map (·.txMeta.fee)).sum % 2 ^ 64

/-- The expected reward that the template records for the rows it took: the baseline of the empty
block before any; then from version 5 the reward of the weight plus the fee, and before version 5
the `coinbase` that the loop never computes there. -/
structure Recorded (medianWeight alreadyGeneratedCoins version baseline : Nat)
    (t : BlockTemplate H K) (rows : List (PoolTx H K)) : Prop where
  coinbase_before_v5 : version < 5 → t.coinbase = 0
  baseline_of_nil : rows = [] → t.bestCoinbase = baseline
  reward_from_v5 : rows ≠ [] → 5 ≤ version → ∃ reward,
    getBlockReward medianWeight t.totalWeight alreadyGeneratedCoins version = some reward ∧
      t.bestCoinbase = (reward + t.fee) % 2 ^ 64
  zero_before_v5 : rows ≠ [] → version < 5 → t.bestCoinbase = 0

section Step

variable {pool : TxMemoryPool H K} {isTransactionReadyToGo : PoolTx H K → Bool}
  {maxWeight : Nat} {txHashes : List H}

omit [DecidableEq H] in
/-- Taking a transaction of a consistent pool that spends none of the template's key images keeps
what the template holds, with the row added. -/
theorem Selected.add (consistent : pool.SortedConsistent) {t : BlockTemplate H K}
    {rows : List (PoolTx H K)} (selected : Selected pool isTransactionReadyToGo maxWeight txHashes t rows)
    {row : PoolTx H K} (rowMem : row ∈ pool.txpool) {tx : Transaction H K} (parsed : row.blob = some tx)
    (ready : isTransactionReadyToGo row = true) (fresh : haveKeyImages t.kImages tx.vin = false)
    (fits : (t.totalWeight + row.txMeta.weight) % 2 ^ 64 ≤ maxWeight) (bestCoinbase : Nat) :
    Selected pool isTransactionReadyToGo maxWeight txHashes
      { t with
        txHashes := t.txHashes ++ [row.txid]
        totalWeight := (t.totalWeight + row.txMeta.weight) % 2 ^ 64
        fee := (t.fee + row.txMeta.fee) % 2 ^ 64
        bestCoinbase
        kImages := appendKeyImages t.kImages tx.vin }
      (rows ++ [row]) := by
  obtain ⟨tx', parsed', -, supported, nodup⟩ := consistent.rows_parse row rowMem
  rw [parsed] at parsed'
  cases parsed'
  have toKey := checkInputsTypesSupported_iff.mp supported
  have freshKeys := (haveKeyImages_eq_false t.kImages toKey).mp fresh
  have appended := appendKeyImages_eq t.kImages toKey nodup freshKeys
  refine ⟨by simp [selected.hashes], fun r mem => ?_, ?_, ?_, ?_, fits, ?_⟩
  · rcases List.mem_append.mp mem with mem | single
    · exact selected.ready r mem
    · rw [List.mem_singleton.mp single]
      exact ⟨rowMem, ready⟩
  · rw [appended, selected.kImages]
    simp [PoolTx.keyImages, parsed, Transaction.keyImages]
  · rw [appended]
    exact List.nodup_append.mpr ⟨selected.kImages_nodup, nodup,
      fun a inSet b inTx same => freshKeys b inTx (same ▸ inSet)⟩
  · simp only [List.map_append, List.sum_append, List.map_singleton, List.sum_singleton,
      selected.totalWeight]
    omega
  · simp only [List.map_append, List.sum_append, List.map_singleton, List.sum_singleton,
      selected.fee]
    omega

variable (pool isTransactionReadyToGo maxWeight txHashes) in
/-- What the template holds once the loop visited the entries `done`: the rows it took, among the
entries visited, with the expected reward it records for them. -/
def Holds (medianWeight alreadyGeneratedCoins version baseline : Nat)
    (done : List (TxByFeeAndReceiveTimeEntry H)) (t : BlockTemplate H K) : Prop :=
  ∃ rows, Selected pool isTransactionReadyToGo maxWeight txHashes t rows ∧
    Recorded medianWeight alreadyGeneratedCoins version baseline t rows ∧
    (rows.map (·.txid)).Sublist (done.map (·.2))

variable {medianWeight alreadyGeneratedCoins version baseline : Nat}

omit [DecidableEq H] [DecidableEq K] in
/-- What a template holds does not read `coinbase`, the one field a round may change alone. -/
theorem Selected.withCoinbase {t : BlockTemplate H K} {rows : List (PoolTx H K)}
    (selected : Selected pool isTransactionReadyToGo maxWeight txHashes t rows) (coinbase : Nat) :
    Selected pool isTransactionReadyToGo maxWeight txHashes { t with coinbase } rows :=
  ⟨selected.hashes, selected.ready, selected.kImages, selected.kImages_nodup, selected.totalWeight,
    selected.within, selected.fee⟩

omit [DecidableEq H] in
/-- The end of a round: `addToTemplate` takes the row of the entry, or leaves the template as it
was. `coinbase` is the one `best_coinbase` takes: from version 5, that of the template with the
row. -/
theorem addToTemplate_holds (consistent : pool.SortedConsistent) {done : List (TxByFeeAndReceiveTimeEntry H)}
    {entry : TxByFeeAndReceiveTimeEntry H} {u : BlockTemplate H K} {rows : List (PoolTx H K)}
    (selected : Selected pool isTransactionReadyToGo maxWeight txHashes u rows)
    (recorded : Recorded medianWeight alreadyGeneratedCoins version baseline u rows)
    (visited : (rows.map (·.txid)).Sublist (done.map (·.2))) {row : PoolTx H K}
    (rowMem : row ∈ pool.txpool) (hash : row.txid = entry.2)
    (fits : (u.totalWeight + row.txMeta.weight) % 2 ^ 64 ≤ maxWeight)
    (coinbase : 5 ≤ version → ∃ reward, getBlockReward medianWeight
      ((u.totalWeight + row.txMeta.weight) % 2 ^ 64) alreadyGeneratedCoins version = some reward ∧
      u.coinbase = (reward + u.fee + row.txMeta.fee) % 2 ^ 64) :
    Holds pool isTransactionReadyToGo maxWeight txHashes medianWeight alreadyGeneratedCoins version
      baseline (done ++ [entry]) (addToTemplate isTransactionReadyToGo entry.2 row u) := by
  have kept : (rows.map (·.txid)).Sublist ((done ++ [entry]).map (·.2)) := by
    rw [List.map_append]
    exact visited.trans (List.sublist_append_left _ _)
  unfold addToTemplate
  split
  · exact ⟨rows, selected, recorded, kept⟩
  · next tx parsed =>
    split
    · exact ⟨rows, selected, recorded, kept⟩
    · next ready =>
      split
      · exact ⟨rows, selected, recorded, kept⟩
      · next fresh =>
        rw [← hash]
        refine ⟨rows ++ [row], selected.add consistent rowMem parsed (by simpa using ready)
          (by simpa using fresh) fits u.coinbase, ⟨recorded.coinbase_before_v5, ?_, ?_, ?_⟩, ?_⟩
        · intro empty
          simp at empty
        · -- from version 5 `coinbase` is the reward of the new weight plus the new fee
          intro _ from5
          obtain ⟨reward, rewarded, value⟩ := coinbase from5
          exact ⟨reward, rewarded, by dsimp only; omega⟩
        · intro _ before
          exact recorded.coinbase_before_v5 before
        · rw [List.map_append, List.map_append, List.map_singleton, List.map_singleton, hash]
          exact visited.append (List.Sublist.refl _)

/-- One round of the loop keeps what the template holds, with the entry added to those visited. -/
theorem holds_fillBlockTemplateStep (consistent : pool.SortedConsistent)
    (templateAcceptThreshold : Nat → Nat) {done : List (TxByFeeAndReceiveTimeEntry H)}
    {t : BlockTemplate H K}
    (holds : Holds pool isTransactionReadyToGo maxWeight txHashes medianWeight alreadyGeneratedCoins
      version baseline done t) (entry : TxByFeeAndReceiveTimeEntry H) :
    Holds pool isTransactionReadyToGo maxWeight txHashes medianWeight alreadyGeneratedCoins version
      baseline (done ++ [entry])
      (fillBlockTemplateStep pool isTransactionReadyToGo templateAcceptThreshold medianWeight
        alreadyGeneratedCoins version maxWeight entry t).value := by
  obtain ⟨rows, selected, recorded, visited⟩ := holds
  have kept : (rows.map (·.txid)).Sublist ((done ++ [entry]).map (·.2)) := by
    rw [List.map_append]
    exact visited.trans (List.sublist_append_left _ _)
  unfold fillBlockTemplateStep
  split
  · -- `get_txpool_tx_meta` fails
    exact ⟨rows, selected, recorded, kept⟩
  · next row found =>
    have rowMem := List.mem_of_find?_eq_some found
    have hash : row.txid = entry.2 := by simpa using List.find?_some found
    split
    · -- the weight would exceed the largest
      exact ⟨rows, selected, recorded, kept⟩
    · next fits =>
      split
      · next from5 =>
        split
        · exact ⟨rows, selected, recorded, kept⟩
        · next blockReward rewarded =>
          dsimp only
          have selected' := selected.withCoinbase ((blockReward + t.fee + row.txMeta.fee) % 2 ^ 64)
          split
          · -- the coinbase would fall below the threshold: only `coinbase` changed
            exact ⟨rows, selected', ⟨fun before => absurd from5 (by omega),
              recorded.baseline_of_nil, recorded.reward_from_v5, recorded.zero_before_v5⟩, kept⟩
          · exact addToTemplate_holds consistent selected'
              ⟨fun before => absurd from5 (by omega), recorded.baseline_of_nil,
                recorded.reward_from_v5, recorded.zero_before_v5⟩
              visited rowMem hash (Nat.le_of_not_lt fits) fun _ => ⟨blockReward, rewarded, rfl⟩
      · next before5 =>
        split
        · -- past the penalty-free weight the loop stops
          exact ⟨rows, selected, recorded, kept⟩
        · exact addToTemplate_holds consistent selected recorded visited rowMem hash
            (Nat.le_of_not_lt fits) fun from5 => absurd from5 before5

end Step

/-! ## The whole loop -/

omit [DecidableEq H] [DecidableEq K] in
/-- The hashes of the sorted set of a consistent pool are distinct: they are those of its rows. -/
theorem TxMemoryPool.SortedConsistent.sorted_hashes_nodup {pool : TxMemoryPool H K}
    (consistent : pool.SortedConsistent) : (pool.txsByFeeAndReceiveTime.map (·.2)).Nodup := by
  refine (consistent.sorted_perm.map (·.2)).nodup_iff.mpr ?_
  rw [List.map_map]
  exact consistent.txids_nodup

/-- The run of `fill_block_template`'s loop over the sorted set, from the template of an empty
block: what the template holds after the entries it visited, a prefix of the set. -/
theorem holds_fillBlockTemplate {pool : TxMemoryPool H K} (consistent : pool.SortedConsistent)
    (isTransactionReadyToGo : PoolTx H K → Bool) (templateAcceptThreshold : Nat → Nat)
    (txHashes : List H) (medianWeight alreadyGeneratedCoins version : Nat) :
    let baseline := (getBlockReward medianWeight 0 alreadyGeneratedCoins version).getD 0
    ∃ visited, visited <+: pool.txsByFeeAndReceiveTime ∧
      Holds pool isTransactionReadyToGo (maxTotalWeight medianWeight version) txHashes
        medianWeight alreadyGeneratedCoins version baseline visited
        (Machine.runBreaking
          (fillBlockTemplateStep pool isTransactionReadyToGo templateAcceptThreshold medianWeight
            alreadyGeneratedCoins version (maxTotalWeight medianWeight version))
          ⟨txHashes, 0, 0, baseline, 0, []⟩ pool.txsByFeeAndReceiveTime) := by
  intro baseline
  -- the empty block: no row, and the baseline reward recorded
  have start : Holds pool isTransactionReadyToGo (maxTotalWeight medianWeight version) txHashes
      medianWeight alreadyGeneratedCoins version baseline [] ⟨txHashes, 0, 0, baseline, 0, []⟩ :=
    ⟨[], ⟨by simp, by simp, rfl, List.nodup_nil, rfl, Nat.zero_le _, rfl⟩,
      ⟨fun _ => rfl, fun _ => rfl, fun nonempty => absurd rfl nonempty,
        fun nonempty => absurd rfl nonempty⟩, List.Sublist.slnil⟩
  obtain ⟨visited, front, holds⟩ := Machine.runBreaking_trace_invariant _
    (P := Holds pool isTransactionReadyToGo (maxTotalWeight medianWeight version) txHashes
      medianWeight alreadyGeneratedCoins version baseline)
    (fun _ entry _ holds => holds_fillBlockTemplateStep consistent templateAcceptThreshold holds entry)
    pool.txsByFeeAndReceiveTime start
  rw [List.nil_append] at holds
  exact ⟨visited, front, holds⟩

/-- `fill_block_template` over a pool whose sorted set indexes its tables (the pool's weight,
which `prune` can get wrong, is not read) takes, in the order of the sorted set, distinct
transactions of the pool that `is_transaction_ready_to_go` accepted and whose key images are
pairwise disjoint; the weight and the fee it reports are their sums in 64 bits, and the weight
stays within the version's largest. From version 5 the expected reward is the block reward of that
weight plus the fee; before version 5 it is 0 as soon as one transaction was taken, since
`best_coinbase = coinbase` copies a `coinbase` that only the branch of version 5 computes. -/
theorem fill_block_template_selects {pool : TxMemoryPool H K}
    (consistent : pool.SortedConsistent)
    (isTransactionReadyToGo : PoolTx H K → Bool) (templateAcceptThreshold : Nat → Nat)
    (txHashes : List H) (medianWeight alreadyGeneratedCoins version : Nat) :
    let template := fillBlockTemplate pool isTransactionReadyToGo templateAcceptThreshold txHashes
      medianWeight alreadyGeneratedCoins version
    ∃ rows : List (PoolTx H K),
      template.1 = txHashes ++ rows.map (·.txid) ∧ (rows.map (·.txid)).Nodup ∧
      (∀ row ∈ rows, row ∈ pool.txpool ∧ isTransactionReadyToGo row = true) ∧
      rows.Pairwise (fun row row' => row.keyImages.Disjoint row'.keyImages) ∧
      template.2.1 = (rows.map (·.txMeta.weight)).sum % 2 ^ 64 ∧
      template.2.1 ≤ maxTotalWeight medianWeight version ∧
      template.2.2.1 = (rows.map (·.txMeta.fee)).sum % 2 ^ 64 ∧
      (5 ≤ version → ∃ reward,
        getBlockReward medianWeight template.2.1 alreadyGeneratedCoins version = some reward ∧
          template.2.2.2 = (reward + template.2.2.1) % 2 ^ 64) ∧
      (version < 5 → rows ≠ [] → template.2.2.2 = 0) := by
  intro template
  obtain ⟨visited, front, rows, selected, recorded, taken⟩ :=
    holds_fillBlockTemplate consistent isTransactionReadyToGo templateAcceptThreshold txHashes
      medianWeight alreadyGeneratedCoins version
  -- the rows' hashes are a sublist of the sorted set's, which are distinct
  have distinct : (rows.map (·.txid)).Nodup :=
    (taken.trans (front.sublist.map _)).nodup consistent.sorted_hashes_nodup
  have disjoint := (List.nodup_flatMap.mp (selected.kImages ▸ selected.kImages_nodup)).2
  refine ⟨rows, selected.hashes, distinct, selected.ready, disjoint, selected.totalWeight,
    selected.within, selected.fee, fun from5 => ?_,
    fun before nonempty => recorded.zero_before_v5 nonempty before⟩
  by_cases empty : rows = []
  · -- no row taken: the baseline of the empty block, with no weight and no fee
    obtain ⟨reward, rewarded⟩ :=
      @getBlockReward_of_light medianWeight 0 alreadyGeneratedCoins version (Nat.zero_le _)
    have weight : template.2.1 = 0 := selected.totalWeight.trans (by rw [empty]; rfl)
    have fee : template.2.2.1 = 0 := selected.fee.trans (by rw [empty]; rfl)
    have expected : template.2.2.2 = reward :=
      (recorded.baseline_of_nil empty).trans (by rw [rewarded]; rfl)
    rw [weight, fee, expected]
    refine ⟨reward, rewarded, ?_⟩
    rw [Nat.add_zero, Nat.mod_eq_of_lt (getBlockReward_lt rewarded)]
  · exact recorded.reward_from_v5 empty from5

/-- A pool of two transactions that both spend key image 11: hash 1 of weight 10 and fee 100,
then hash 2 of weight 10 and fee 50, received a second later. -/
def doubleSpendPool : TxMemoryPool Nat Nat where
  txpool := [⟨1, ⟨10, 100, false, 1000, false⟩, some (spendingTx 1 11)⟩,
    ⟨2, ⟨10, 50, false, 1001, false⟩, some (spendingTx 2 11)⟩]
  txsByFeeAndReceiveTime := [sortedEntry 1 100 10 1000, sortedEntry 2 50 10 1001]
  spentKeyImages := fun k => if k = 11 then some [1, 2] else none
  txpoolWeight := 20
  txpoolMaxWeight := 1000
  timedOutTransactions := []

theorem consistent_doubleSpendPool : doubleSpendPool.Consistent where
  txids_nodup := by decide
  rows_parse := by
    intro row mem
    simp only [doubleSpendPool, List.mem_cons, List.not_mem_nil, or_false] at mem
    rcases mem with rfl | rfl <;> exact ⟨_, rfl, rfl, rfl, by decide⟩
  weights_lt := by decide
  weight_eq := by decide
  sorted_perm := List.Perm.refl _
  spent_perm := by
    intro k
    by_cases spent : k = 11
    · subst spent
      decide
    · simp [doubleSpendPool, spent, spends, spendingTx, Transaction.keyImages, TxIn.keyImage?,
        Ne.symm spent]
  spent_ne_nil := by
    intro k s found
    by_cases spent : k = 11
    · simp [doubleSpendPool, spent] at found
      simp [← found]
    · simp [doubleSpendPool, spent] at found

/-- At version 5 the template of that pool takes the first transaction only, and expects the
reward of its weight plus its fee. -/
theorem fill_block_template_selects_one_of_double_spend :
    doubleSpendPool.SortedConsistent ∧ ∃ rows : List (PoolTx Nat Nat), rows.map (·.txid) = [1] ∧
      rows.Pairwise (fun row row' => row.keyImages.Disjoint row'.keyImages) ∧
      ∃ reward, getBlockReward 300000 10 0 5 = some reward ∧
        (fillBlockTemplate doubleSpendPool (fun _ => true) id [] 300000 0 5).2.2.2 =
          (reward + 100) % 2 ^ 64 := by
  have template : fillBlockTemplate doubleSpendPool (fun _ => true) id [] 300000 0 5 =
      ([1], 10, 100, 35184372088931) := by decide +kernel
  obtain ⟨rows, hashes, -, -, disjoint, -, -, -, rewarded, -⟩ :=
    fill_block_template_selects consistent_doubleSpendPool.sortedConsistent (fun _ => true) id []
      300000 0 5
  rw [template] at hashes rewarded
  have fromV5 := rewarded (by decide)
  refine ⟨consistent_doubleSpendPool.sortedConsistent, rows, by simpa using hashes.symm, disjoint,
    ?_⟩
  rw [template]
  exact fromV5

end GraftNetwork.Core.MemoryPool

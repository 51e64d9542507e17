import GraftNetwork.Lib.Machine
import GraftNetwork.Lib.Window
import GraftNetwork.Stake.Storage

/-!
# The processed-block window of the stake transaction storage

`add_last_processed_block` pushes the hash of the block after the last processed one and drops
the oldest hash once `BLOCK_HASHES_HISTORY_DEPTH` are kept; `remove_last_processed_block` drops
the stake transactions of the last processed block and its hash, and starts again from
`first_block_number` with no transactions when no hash is left. The hashes and their number are
two members, updated in separate branches.

What the window is for is stated by an abstract machine over the hashes passed for the processed
blocks, each with its block index (`processedStep`): a block after the last one pushes its hash
and the newest `BLOCK_HASHES_HISTORY_DEPTH` are kept, a removal pops the newest.

* `StorageCall`, `storageStep`: the three calls; `add_last_processed_block` throws before it
  changes anything, so a call that throws leaves the storage as it was.
* `HashesRepresent`: the storage is the image of the labelled window; `HashesRepresent.step` is
  one call.
* `removeLastProcessedBlock_after_block`: `remove_last_processed_block` undoes
  `add_last_processed_block` and the transactions of its block added after it, when the window is
  not full and the storage held no transaction of that block, and none at all while the window
  was empty.
* `processed_block_window`: the window along every run from a fresh storage, and the undo.
* `remove_after_add_drops_earlier_tx`: the undo fails when the storage held a transaction of the
  block, even on a fresh storage.
-/

namespace GraftNetwork.Stake

variable {H : Type}

/-- A call on the storage. -/
inductive StorageCall (H : Type)
  | addTx (tx : StakeTransaction H)
  | addLastProcessedBlock (index : Nat) (hash : H)
  | removeLastProcessedBlock

/-- One call; `add_last_processed_block` at another index throws before it writes, and the
storage stays as it was. -/
def storageStep : StorageCall H → StakeTransactionStorage H → StakeTransactionStorage H
  | .addTx tx, s => s.addTx tx
  | .addLastProcessedBlock index hash, s =>
    match s.addLastProcessedBlock index hash with
    | .ok s' => s'
    | .error _ => s
  | .removeLastProcessedBlock, s => s.removeLastProcessedBlock

/-- The hashes passed for the processed blocks, oldest first, each with its block index. -/
abbrev Processed (H : Type) := List (Nat × H)

/-- The index of the last processed block: that of the newest hash, and the first block number
while there is none. -/
def processedIndex (firstBlockNumber : Nat) (processed : Processed H) : Nat :=
  (processed.getLast?.map Prod.fst).getD firstBlockNumber

/-- What the calls do to the hashes passed: the block after the last processed one pushes its
hash and the newest `BLOCK_HASHES_HISTORY_DEPTH` stay; any other block changes nothing; a removal
pops the newest hash. -/
def processedStep (firstBlockNumber : Nat) : StorageCall H → Processed H → Processed H
  | .addTx _, processed => processed
  | .addLastProcessedBlock index hash, processed =>
    if index = processedIndex firstBlockNumber processed + 1 then
      (processed ++ [(index, hash)]).rtake blockHashesHistoryDepth
    else processed
  | .removeLastProcessedBlock, processed => processed.dropLast

namespace StakeTransactionStorage

variable {s : StakeTransactionStorage H}

/-- Adding transactions appends them and touches nothing else. -/
theorem foldl_addTx_eq (txs : List (StakeTransaction H)) (s : StakeTransactionStorage H) :
    txs.foldl addTx s = { s with stakeTxs := s.stakeTxs ++ txs } := by
  induction txs generalizing s with
  | nil => simp
  | cons tx txs ih =>
    rw [List.foldl_cons, ih]
    simp [addTx]

theorem addLastProcessedBlock_of_ne {index : Nat} (other : index ≠ s.lastProcessedBlockIndex + 1)
    (hash : H) : storageStep (.addLastProcessedBlock index hash) s = s := by
  simp [storageStep, addLastProcessedBlock, other]

end StakeTransactionStorage

open StakeTransactionStorage

/-- The storage is the image of the labelled window `processed`: the same hashes in the same
order, their number as the count, at most `BLOCK_HASHES_HISTORY_DEPTH` of them, the hash `k` from
the newest passed for the block `k` below the last processed one, and the first block number as
the last processed block of an empty window. -/
structure HashesRepresent (firstBlockNumber : Nat) (s : StakeTransactionStorage H)
    (processed : Processed H) : Prop where
  first_eq : s.firstBlockNumber = firstBlockNumber
  hashes_eq : s.lastProcessedBlockHashes = processed.map Prod.snd
  count_eq : s.lastProcessedBlockHashesCount = processed.length
  bounded : processed.length ≤ blockHashesHistoryDepth
  labels : Window.LabelsEndAt processed s.lastProcessedBlockIndex
  empty : processed = [] → s.lastProcessedBlockIndex = firstBlockNumber

theorem hashesRepresent_create (firstBlockNumber : Nat) :
    HashesRepresent firstBlockNumber (create firstBlockNumber : StakeTransactionStorage H) [] :=
  ⟨rfl, rfl, rfl, Nat.zero_le _, Window.labelsEndAt_nil _, fun _ => rfl⟩

namespace HashesRepresent

variable {firstBlockNumber : Nat} {s : StakeTransactionStorage H} {processed : Processed H}

/-- The abstract index is the storage's: the label of the newest hash, or the first block
number. -/
theorem processedIndex_eq (r : HashesRepresent firstBlockNumber s processed) :
    processedIndex firstBlockNumber processed = s.lastProcessedBlockIndex := by
  unfold processedIndex
  rw [List.getLast?_eq_head?_reverse, List.head?_eq_getElem?]
  cases newest : processed.reverse[0]? with
  | none =>
    have none : processed = [] := by simpa using newest
    exact (r.empty none).symm
  | some entry => exact r.labels 0 entry newest

theorem addTx (r : HashesRepresent firstBlockNumber s processed) (tx : StakeTransaction H) :
    HashesRepresent firstBlockNumber (s.addTx tx) processed :=
  ⟨r.first_eq, r.hashes_eq, r.count_eq, r.bounded, r.labels, r.empty⟩

/-- `add_last_processed_block` at the block after the last one pushes its hash under that block;
a full window drops its oldest hash, as `rtake` does. -/
theorem addLastProcessedBlock (r : HashesRepresent firstBlockNumber s processed) (hash : H) :
    ∃ s', s.addLastProcessedBlock (s.lastProcessedBlockIndex + 1) hash = .ok s' ∧
      HashesRepresent firstBlockNumber s'
        ((processed ++ [(s.lastProcessedBlockIndex + 1, hash)]).rtake blockHashesHistoryDepth) := by
  have pushed := r.labels.concat hash
  unfold StakeTransactionStorage.addLastProcessedBlock
  rw [if_neg (not_not.mpr rfl)]
  split
  · next room =>
    have fits : (processed ++ [(s.lastProcessedBlockIndex + 1, hash)]).length ≤
        blockHashesHistoryDepth := by
      rw [List.length_append, List.length_singleton, ← r.count_eq]
      exact room
    rw [Window.rtake_of_length_le fits]
    refine ⟨_, rfl, r.first_eq, ?_, ?_, fits, pushed, fun appended => absurd appended (by simp)⟩
    · dsimp only
      rw [r.hashes_eq, List.map_append, List.map_singleton]
    · dsimp only
      rw [r.count_eq, List.length_append, List.length_singleton]
  · next full =>
    -- a full window holds exactly the bound, so `rtake` drops one hash
    have exact : processed.length = blockHashesHistoryDepth :=
      Nat.le_antisymm r.bounded (r.count_eq ▸ Nat.not_lt.mp full)
    have dropped : ∀ x, (processed ++ [x]).rtake blockHashesHistoryDepth =
        (processed ++ [x]).tail := by
      intro x
      rw [List.rtake, List.length_append, List.length_singleton, exact, Nat.add_sub_cancel_left,
        List.drop_one]
    rw [dropped]
    refine ⟨_, rfl, r.first_eq, ?_, ?_, ?_, pushed.tail, ?_⟩
    · dsimp only
      rw [r.hashes_eq, List.map_tail, List.map_append, List.map_singleton]
    · rw [r.count_eq, List.length_tail, List.length_append, List.length_singleton,
        Nat.add_sub_cancel]
    · rw [List.length_tail, List.length_append, List.length_singleton, Nat.add_sub_cancel, exact]
    · intro emptied
      have size := congrArg List.length emptied
      rw [List.length_tail, List.length_append, List.length_singleton, Nat.add_sub_cancel, exact]
        at size
      exact absurd size (by simp [blockHashesHistoryDepth])

/-- `remove_last_processed_block` pops the newest hash: the last processed block goes down to
the label of the hash below, or back to the first block number. -/
theorem removeLastProcessedBlock (r : HashesRepresent firstBlockNumber s processed) :
    HashesRepresent firstBlockNumber s.removeLastProcessedBlock processed.dropLast := by
  unfold StakeTransactionStorage.removeLastProcessedBlock
  dsimp only
  split_ifs with none emptied
  · -- an empty window has nothing to pop
    have empty : processed = [] := List.length_eq_zero_iff.mp (r.count_eq ▸ none)
    subst empty
    exact r
  · have emptied' : processed.dropLast = [] := by
      rw [r.hashes_eq, ← List.map_dropLast, List.map_eq_nil_iff] at emptied
      exact emptied
    refine ⟨r.first_eq, ?_, ?_, ?_, ?_, fun _ => r.first_eq⟩
    · dsimp only
      rw [r.hashes_eq, List.map_dropLast]
    · dsimp only
      rw [r.count_eq, List.length_dropLast]
    · rw [List.length_dropLast]
      exact Nat.le_trans (Nat.sub_le _ _) r.bounded
    · rw [emptied']
      exact Window.labelsEndAt_nil _
  · -- the hash below the newest is labelled one block lower
    have nonempty : processed.dropLast ≠ [] := by
      intro emptied'
      apply emptied
      rw [r.hashes_eq, ← List.map_dropLast, emptied']
      rfl
    refine ⟨r.first_eq, ?_, ?_, ?_, r.labels.dropLast, fun emptied' => absurd emptied' nonempty⟩
    · dsimp only
      rw [r.hashes_eq, List.map_dropLast]
    · dsimp only
      rw [r.count_eq, List.length_dropLast]
    · rw [List.length_dropLast]
      exact Nat.le_trans (Nat.sub_le _ _) r.bounded

/-- Every call keeps the storage the image of the labelled window, one case per call. -/
theorem step (r : HashesRepresent firstBlockNumber s processed) (call : StorageCall H) :
    HashesRepresent firstBlockNumber (storageStep call s)
      (processedStep firstBlockNumber call processed) := by
  cases call with
  | addTx tx => exact r.addTx tx
  | removeLastProcessedBlock => exact r.removeLastProcessedBlock
  | addLastProcessedBlock index hash =>
    dsimp only [processedStep]
    rw [r.processedIndex_eq]
    split
    · next next =>
      subst next
      obtain ⟨s', added, r'⟩ := r.addLastProcessedBlock hash
      simp only [storageStep, added]
      exact r'
    · next other =>
      rw [addLastProcessedBlock_of_ne other]
      exact r

/-- The hash `k` from the newest was passed for the block `k` below the last processed one. -/
theorem hash_of_lt (r : HashesRepresent firstBlockNumber s processed) {k : Nat}
    (shallow : k < s.lastProcessedBlockHashesCount) :
    ∃ hash, s.lastProcessedBlockHashes.reverse[k]? = some hash ∧
      processed.reverse[k]? = some (s.lastProcessedBlockIndex - k, hash) := by
  have inside : k < processed.reverse.length := by
    rw [List.length_reverse, ← r.count_eq]
    exact shallow
  obtain ⟨entry, found⟩ : ∃ entry, processed.reverse[k]? = some entry :=
    ⟨_, List.getElem?_eq_getElem inside⟩
  have label := r.labels k entry found
  refine ⟨entry.2, ?_, ?_⟩
  · rw [r.hashes_eq, ← List.map_reverse, List.getElem?_map, found]
    rfl
  · rw [found]
    exact congrArg some (Prod.ext (by dsimp only; omega) rfl)

end HashesRepresent

/-- `remove_last_processed_block` after `add_last_processed_block` at the next block and the
transactions of that block gives back the storage, when the window is not full, its hashes are
as many as its count, an empty window stands at the first block number with no transactions,
and the storage held no transaction of the new block. -/
theorem removeLastProcessedBlock_after_block (s : StakeTransactionStorage H) (hash : H)
    (txs : List (StakeTransaction H))
    (ofBlock : ∀ tx ∈ txs, tx.blockHeight = s.lastProcessedBlockIndex + 1)
    (short : s.lastProcessedBlockHashesCount < blockHashesHistoryDepth)
    (sized : s.lastProcessedBlockHashes.length = s.lastProcessedBlockHashesCount)
    (start : s.lastProcessedBlockHashesCount = 0 →
      s.lastProcessedBlockIndex = s.firstBlockNumber ∧ s.stakeTxs = [])
    (noneOfBlock : ∀ tx ∈ s.stakeTxs, tx.blockHeight ≠ s.lastProcessedBlockIndex + 1) :
    ∃ s', s.addLastProcessedBlock (s.lastProcessedBlockIndex + 1) hash = .ok s' ∧
      (txs.foldl addTx s').removeLastProcessedBlock = s := by
  refine ⟨_, by rw [addLastProcessedBlock, if_neg (not_not.mpr rfl), if_pos short], ?_⟩
  rw [foldl_addTx_eq]
  unfold StakeTransactionStorage.removeLastProcessedBlock
  dsimp only
  rw [if_neg (Nat.succ_ne_zero _), List.dropLast_concat, Nat.add_sub_cancel, Nat.add_sub_cancel]
  -- the transactions of the block go, and those before it stay
  have kept : (s.stakeTxs ++ txs).filter
      (fun tx => decide (tx.blockHeight ≠ s.lastProcessedBlockIndex + 1)) = s.stakeTxs := by
    rw [List.filter_append, List.filter_eq_self.mpr (fun tx mem => by simpa using noneOfBlock tx mem),
      List.filter_eq_nil_iff.mpr (fun tx mem => by simpa using ofBlock tx mem), List.append_nil]
  rw [kept]
  split
  · next emptied =>
    -- the window was empty: the storage stood at the first block number with no transactions
    have none : s.lastProcessedBlockHashesCount = 0 := by
      rw [← sized, emptied]
      rfl
    obtain ⟨first, noTxs⟩ := start none
    obtain ⟨index, hashes, count, stakeTxs, number, cache, firstBlock⟩ := s
    dsimp only at first noTxs ⊢
    rw [first, noTxs]
  · rfl

/-- The processed-block window along every run of calls on a fresh storage: as many hashes as
the count and no more than `BLOCK_HASHES_HISTORY_DEPTH`, the hash `k` from the newest the one
passed for the block `k` below the last processed block, as the labelled window of the same calls
records it. And `remove_last_processed_block` after `add_last_processed_block` at the next block
and the transactions of that block gives back the storage, when the window is not full, the
storage held no transaction of the new block, and none at all while the window was empty. -/
theorem processed_block_window (firstBlockNumber : Nat) (calls : List (StorageCall H)) :
    let s := Machine.run storageStep (create firstBlockNumber) calls
    let processed := Machine.run (processedStep firstBlockNumber) [] calls
    (s.lastProcessedBlockHashes.length = s.lastProcessedBlockHashesCount ∧
      s.lastProcessedBlockHashesCount ≤ blockHashesHistoryDepth) ∧
    (∀ k, k < s.lastProcessedBlockHashesCount → ∃ hash,
      s.lastProcessedBlockHashes.reverse[k]? = some hash ∧
      processed.reverse[k]? = some (s.lastProcessedBlockIndex - k, hash)) ∧
    ∀ (hash : H) (txs : List (StakeTransaction H)),
      (∀ tx ∈ txs, tx.blockHeight = s.lastProcessedBlockIndex + 1) →
      s.lastProcessedBlockHashesCount < blockHashesHistoryDepth →
      (s.lastProcessedBlockHashesCount = 0 → s.stakeTxs = []) →
      (∀ tx ∈ s.stakeTxs, tx.blockHeight ≠ s.lastProcessedBlockIndex + 1) →
      ∃ s', s.addLastProcessedBlock (s.lastProcessedBlockIndex + 1) hash = .ok s' ∧
        (txs.foldl addTx s').removeLastProcessedBlock = s := by
  intro s processed
  have r : HashesRepresent firstBlockNumber s processed :=
    Machine.run_simulation storageStep (fun call _ _ r => r.step call) calls
      (hashesRepresent_create firstBlockNumber)
  have sized : s.lastProcessedBlockHashes.length = s.lastProcessedBlockHashesCount := by
    rw [r.hashes_eq, List.length_map, r.count_eq]
  refine ⟨⟨sized, r.count_eq ▸ r.bounded⟩, fun k shallow => r.hash_of_lt shallow,
    fun hash txs ofBlock short noTxs noneOfBlock => ?_⟩
  -- an empty window stands at the first block number
  have start : s.lastProcessedBlockHashesCount = 0 →
      s.lastProcessedBlockIndex = s.firstBlockNumber ∧ s.stakeTxs = [] := by
    intro none
    rw [r.first_eq]
    exact ⟨r.empty (List.length_eq_zero_iff.mp (r.count_eq ▸ none)), noTxs none⟩
  exact removeLastProcessedBlock_after_block s hash txs ofBlock short sized start noneOfBlock

/-- The undo needs both conditions on the transactions already held. A stake transaction of
block 5 recorded while the window is empty is cleared with the window by the removal after
`add_last_processed_block(1, h)`. A stake transaction of block 2 recorded before
`add_last_processed_block(2, h)`, as `process_block_stake_transaction` records them, is erased by
the removal after it. -/
theorem remove_after_add_drops_earlier_tx :
    (∃ s', ((create 0 : StakeTransactionStorage Nat).addTx ⟨0, 10, 5, 100, "a"⟩).stakeTxs =
        [⟨0, 10, 5, 100, "a"⟩] ∧
      ((create 0 : StakeTransactionStorage Nat).addTx ⟨0, 10, 5, 100, "a"⟩).addLastProcessedBlock
        1 7 = .ok s' ∧ s'.removeLastProcessedBlock.stakeTxs = []) ∧
    ∃ s₁ s', (create 0 : StakeTransactionStorage Nat).addLastProcessedBlock 1 7 = .ok s₁ ∧
      (s₁.addTx ⟨0, 10, 2, 100, "a"⟩).stakeTxs = [⟨0, 10, 2, 100, "a"⟩] ∧
      (s₁.addTx ⟨0, 10, 2, 100, "a"⟩).addLastProcessedBlock 2 8 = .ok s' ∧
      s'.lastProcessedBlockHashesCount = 2 ∧ s'.removeLastProcessedBlock.stakeTxs = [] :=
  ⟨⟨_, rfl, rfl, rfl⟩, _, _, rfl, rfl, rfl, rfl, rfl⟩

end GraftNetwork.Stake

import GraftNetwork.Lib.Window
import GraftNetwork.Stake.Tiers

/-!
# The history window of the blockchain-based list

`apply_block` appends the lists of the next block and drops the oldest ones once
`BLOCKCHAIN_BASED_LISTS_HISTORY_DEPTH` are kept; `remove_latest_block` drops the newest and goes
back to `first_block_number` when none is left. The list keeps the history, its length and its
height in three separate members, updated in separate branches.

What the history is for is stated by an abstract machine over the lists built so far, each with
the block it was built for (`builtStep`): an `apply_block` at the next block pushes its lists and
keeps the newest `BLOCKCHAIN_BASED_LISTS_HISTORY_DEPTH`, a removal pops the newest, and the height
is the block of the newest lists.

* `Represents`: the list is the image of the labelled history: its lists, their number and its
  height, with the labels consecutive and ending at the height; `Represents.listStep` is one
  call, one case per branch of the two functions.
* `Represents.tiers_of_lt`: `tiers(d)` returns the lists built for the block `d` below the height.
* `removeLatestBlock_applyBlock_next`: `remove_latest_block` undoes `apply_block` at the next
  block when the history is not full.
* `history_window`: the window along every run of the calls on the list.
-/

namespace GraftNetwork.Stake

variable {H : Type} (mt : H → Nat → UInt64)

/-- A history of tier lists, oldest first, each with the block it was built for. -/
abbrev Built := List (Nat × List (List Supernode))

/-- The height that a labelled history stands at: the block of its newest lists, and the first
block number while it is empty. -/
def builtHeight (firstBlockNumber : Nat) (built : Built) : Nat :=
  (built.getLast?.map Prod.fst).getD firstBlockNumber

/-- The newest tier lists of a labelled history, which `apply_block` carries supernodes over
from. -/
def builtLast (built : Built) : List (List Supernode) :=
  (built.getLast?.map Prod.snd).getD []

/-- What the calls do to the lists they built: `apply_block` at the block after the height pushes
the lists `new_tier` of that block and keeps the newest `BLOCKCHAIN_BASED_LISTS_HISTORY_DEPTH`;
any other block leaves the history as it is; `remove_latest_block` pops the newest lists. -/
def builtStep (firstBlockNumber : Nat) (operation : ListOperation H) (built : Built) : Built :=
  match operation with
  | .applyBlock blockHeight blockHash storage =>
    if blockHeight = builtHeight firstBlockNumber built + 1 then
      (built ++ [(blockHeight, newTier mt (builtLast built) blockHeight blockHash storage)]).rtake
        blockchainBasedListsHistoryDepth
    else built
  | .removeLatestBlock => built.dropLast

/-! ## The calls on the list -/

namespace BlockchainBasedList

variable {bbl : BlockchainBasedList}

theorem listStep_applyBlock_of_ne {blockHeight : Nat} (other : blockHeight ≠ bbl.blockHeight + 1)
    (blockHash : H) (storage : StakeTransactionStorage H) :
    listStep mt (.applyBlock blockHeight blockHash storage) bbl = bbl := by
  dsimp only [listStep]
  split
  · next applied =>
    rcases applyBlock_ok_cases mt applied with ⟨-, rfl, -⟩ | ⟨next, -, -⟩
    · rfl
    · exact absurd next other
  · rfl

theorem listStep_applyBlock_next (blockHash : H) (storage : StakeTransactionStorage H) :
    listStep mt (.applyBlock (bbl.blockHeight + 1) blockHash storage) bbl =
      bbl.pushTiers (newTier mt (bbl.history.getLastD []) (bbl.blockHeight + 1) blockHash storage)
        (bbl.blockHeight + 1) := by
  simp only [listStep, applyBlock_next]

@[simp] theorem pushTiers_firstBlockNumber (newTier : List (List Supernode)) (blockHeight : Nat) :
    (bbl.pushTiers newTier blockHeight).firstBlockNumber = bbl.firstBlockNumber := by
  unfold pushTiers
  split <;> rfl

@[simp] theorem removeLatestBlock_firstBlockNumber :
    bbl.removeLatestBlock.firstBlockNumber = bbl.firstBlockNumber := by
  unfold removeLatestBlock
  dsimp only
  split_ifs <;> rfl

theorem listStep_firstBlockNumber (operation : ListOperation H) :
    (listStep mt operation bbl).firstBlockNumber = bbl.firstBlockNumber := by
  cases operation with
  | removeLatestBlock => exact removeLatestBlock_firstBlockNumber
  | applyBlock blockHeight blockHash storage =>
    by_cases next : blockHeight = bbl.blockHeight + 1
    · subst next
      rw [listStep_applyBlock_next, pushTiers_firstBlockNumber]
    · rw [listStep_applyBlock_of_ne mt next]

/-- `tiers(depth)` for a depth below the number of lists: the entry `depth` from the newest;
`back()` is the entry at `0`. -/
theorem tiers_of_lt {depth : Nat} (shallow : depth < bbl.historyDepth) :
    bbl.tiers depth = .ok (bbl.history.reverse.getD depth []) := by
  unfold tiers
  rw [if_neg (Nat.not_le.mpr shallow)]
  split
  · next zero =>
    subst zero
    rw [List.getLastD_eq_getLast?, List.getLast?_eq_head?_reverse, List.head?_eq_getElem?,
      List.getD_eq_getElem?_getD]
  · rfl

/-- `remove_latest_block` right after `apply_block` at the next block gives back the list,
provided the history is not full, so that nothing was dropped, and that an empty history stands
at the first block number, where the removal goes back to. -/
theorem removeLatestBlock_applyBlock_next
    (short : bbl.historyDepth < blockchainBasedListsHistoryDepth)
    (start : bbl.history = [] → bbl.blockHeight = bbl.firstBlockNumber) (blockHash : H)
    (storage : StakeTransactionStorage H) :
    ∃ bbl' storage',
      bbl.applyBlock mt (bbl.blockHeight + 1) blockHash storage = .ok (bbl', storage') ∧
      bbl'.removeLatestBlock = bbl := by
  refine ⟨_, _, applyBlock_next mt bbl blockHash storage, ?_⟩
  obtain ⟨history, blockHeight, historyDepth, firstBlockNumber⟩ := bbl
  dsimp only at short start
  unfold pushTiers removeLatestBlock
  rw [if_pos short]
  dsimp only
  rw [if_neg (Nat.succ_ne_zero _), List.dropLast_concat, Nat.add_sub_cancel, Nat.add_sub_cancel]
  split
  · next emptied =>
    rw [start emptied]
  · rfl

end BlockchainBasedList

/-! ## The refinement -/

/-- The list is the image of the labelled history `built`: the same lists in the same order,
their number as the depth, at most `BLOCKCHAIN_BASED_LISTS_HISTORY_DEPTH` of them, the entry `d`
from the newest built for the block `d` below the height, and the first block number as the height
of an empty history. -/
structure Represents (firstBlockNumber : Nat) (bbl : BlockchainBasedList) (built : Built) :
    Prop where
  first_eq : bbl.firstBlockNumber = firstBlockNumber
  history_eq : bbl.history = built.map Prod.snd
  depth_eq : bbl.historyDepth = built.length
  bounded : built.length ≤ blockchainBasedListsHistoryDepth
  labels : ∀ d entry, built.reverse[d]? = some entry → entry.1 + d = bbl.blockHeight
  empty : built = [] → bbl.blockHeight = firstBlockNumber

theorem represents_create (firstBlockNumber : Nat) :
    Represents firstBlockNumber (BlockchainBasedList.create firstBlockNumber) [] :=
  ⟨rfl, rfl, rfl, Nat.zero_le _, fun _ _ absent => by simp at absent, fun _ => rfl⟩

namespace Represents

variable {firstBlockNumber : Nat} {bbl : BlockchainBasedList} {built : Built}

/-- The abstract height is the list's height: the label of the newest entry, or the first block
number. -/
theorem builtHeight_eq (r : Represents firstBlockNumber bbl built) :
    builtHeight firstBlockNumber built = bbl.blockHeight := by
  unfold builtHeight
  rw [List.getLast?_eq_head?_reverse, List.head?_eq_getElem?]
  cases newest : built.reverse[0]? with
  | none =>
    have none : built = [] := by simpa using newest
    exact (r.empty none).symm
  | some entry => exact r.labels 0 entry newest

theorem builtLast_eq (r : Represents firstBlockNumber bbl built) :
    builtLast built = bbl.history.getLastD [] := by
  rw [builtLast, r.history_eq, List.getLastD_eq_getLast?, List.getLast?_map]

/-- `remove_latest_block` pops the newest entry: the height goes down to the label of the entry
below, or back to the first block number. -/
theorem removeLatestBlock (r : Represents firstBlockNumber bbl built) :
    Represents firstBlockNumber bbl.removeLatestBlock built.dropLast := by
  unfold BlockchainBasedList.removeLatestBlock
  dsimp only
  split_ifs with none emptied
  · -- an empty history has nothing to pop
    have empty : built = [] := List.length_eq_zero_iff.mp (r.depth_eq ▸ none)
    subst empty
    exact r
  · have emptied' : built.dropLast = [] := by
      rw [r.history_eq, ← List.map_dropLast, List.map_eq_nil_iff] at emptied
      exact emptied
    refine ⟨r.first_eq, ?_, ?_, ?_, ?_, fun _ => r.first_eq⟩
    · dsimp only
      rw [r.history_eq, List.map_dropLast]
    · dsimp only
      rw [r.depth_eq, List.length_dropLast]
    · rw [List.length_dropLast]
      exact Nat.le_trans (Nat.sub_le _ _) r.bounded
    · intro d entry found
      rw [emptied'] at found
      simp at found
  · -- the entry below the newest is labelled one block lower
    have nonempty : built.dropLast ≠ [] := by
      intro emptied'
      apply emptied
      rw [r.history_eq, ← List.map_dropLast, emptied']
      rfl
    refine ⟨r.first_eq, ?_, ?_, ?_, ?_, fun emptied' => absurd emptied' nonempty⟩
    · dsimp only
      rw [r.history_eq, List.map_dropLast]
    · dsimp only
      rw [r.depth_eq, List.length_dropLast]
    · rw [List.length_dropLast]
      exact Nat.le_trans (Nat.sub_le _ _) r.bounded
    · intro d entry found
      rw [← List.tail_reverse, List.getElem?_tail] at found
      have label := r.labels (d + 1) entry found
      dsimp only
      omega

/-- `apply_block` at the block after the height pushes its lists under that block; a full
history drops its oldest entry, as `rtake` does. -/
theorem pushTiers (r : Represents firstBlockNumber bbl built) (blockHash : H)
    (storage : StakeTransactionStorage H) :
    Represents firstBlockNumber
      (bbl.pushTiers (newTier mt (bbl.history.getLastD []) (bbl.blockHeight + 1) blockHash storage)
        (bbl.blockHeight + 1))
      ((built ++ [(bbl.blockHeight + 1, newTier mt (builtLast built) (bbl.blockHeight + 1)
        blockHash storage)]).rtake blockchainBasedListsHistoryDepth) := by
  rw [r.builtLast_eq]
  -- the labels of the longer history: the new entry at depth `0`, the others one deeper
  have pushed : ∀ d entry, (built ++ [(bbl.blockHeight + 1, newTier mt (bbl.history.getLastD [])
      (bbl.blockHeight + 1) blockHash storage)]).reverse[d]? = some entry →
      entry.1 + d = bbl.blockHeight + 1 := by
    intro d entry found
    rw [List.reverse_concat] at found
    cases d with
    | zero =>
      cases found
      rfl
    | succ d =>
      have label := r.labels d entry found
      omega
  unfold BlockchainBasedList.pushTiers
  split
  · next room =>
    have fits : (built ++ [(bbl.blockHeight + 1, newTier mt (bbl.history.getLastD [])
        (bbl.blockHeight + 1) blockHash storage)]).length ≤ blockchainBasedListsHistoryDepth := by
      rw [List.length_append, List.length_singleton, ← r.depth_eq]
      exact room
    rw [Window.rtake_of_length_le fits]
    refine ⟨r.first_eq, ?_, ?_, fits, pushed, fun appended => absurd appended (by simp)⟩
    · dsimp only
      rw [r.history_eq, List.map_append, List.map_singleton]
    · dsimp only
      rw [r.depth_eq, List.length_append, List.length_singleton]
  · next full =>
    -- a full history holds exactly the bound, so `rtake` drops one entry
    have exact : built.length = blockchainBasedListsHistoryDepth := by
      rw [← r.depth_eq]
      exact Nat.le_antisymm (r.depth_eq ▸ r.bounded) (Nat.not_lt.mp full)
    have dropped : ∀ x, (built ++ [x]).rtake blockchainBasedListsHistoryDepth =
        (built ++ [x]).tail := by
      intro x
      rw [List.rtake, List.length_append, List.length_singleton, exact, Nat.add_sub_cancel_left,
        List.drop_one]
    rw [dropped]
    refine ⟨r.first_eq, ?_, ?_, ?_, ?_, ?_⟩
    · dsimp only
      rw [r.history_eq, List.map_tail, List.map_append, List.map_singleton]
    · rw [r.depth_eq, List.length_tail, List.length_append, List.length_singleton,
        Nat.add_sub_cancel]
    · rw [List.length_tail, List.length_append, List.length_singleton, Nat.add_sub_cancel, exact]
    · intro d entry found
      rw [← List.dropLast_reverse, List.getElem?_dropLast] at found
      split at found
      · exact pushed d entry found
      · cases found
    · intro emptied
      have size := congrArg List.length emptied
      rw [List.length_tail, List.length_append, List.length_singleton, Nat.add_sub_cancel, exact]
        at size
      exact absurd size (by decide)

/-- Every call keeps the list the image of the labelled history, one case per branch. -/
theorem listStep (r : Represents firstBlockNumber bbl built) (operation : ListOperation H) :
    Represents firstBlockNumber (listStep mt operation bbl)
      (builtStep mt firstBlockNumber operation built) := by
  cases operation with
  | removeLatestBlock => exact r.removeLatestBlock
  | applyBlock blockHeight blockHash storage =>
    dsimp only [builtStep]
    rw [r.builtHeight_eq]
    split
    · next next =>
      subst next
      rw [BlockchainBasedList.listStep_applyBlock_next]
      exact r.pushTiers mt blockHash storage
    · next other =>
      rw [BlockchainBasedList.listStep_applyBlock_of_ne mt other]
      exact r

/-- `tiers(depth)` returns, for a depth below the number of lists, the lists built for the block
`depth` below the height. -/
theorem tiers_of_lt (r : Represents firstBlockNumber bbl built) {depth : Nat}
    (shallow : depth < bbl.historyDepth) :
    ∃ tiers, bbl.tiers depth = .ok tiers ∧
      built.reverse[depth]? = some (bbl.blockHeight - depth, tiers) := by
  have inside : depth < built.reverse.length := by
    rw [List.length_reverse, ← r.depth_eq]
    exact shallow
  obtain ⟨entry, found⟩ : ∃ entry, built.reverse[depth]? = some entry :=
    ⟨_, List.getElem?_eq_getElem inside⟩
  have label := r.labels depth entry found
  refine ⟨entry.2, ?_, ?_⟩
  · rw [BlockchainBasedList.tiers_of_lt shallow, r.history_eq, ← List.map_reverse,
      List.getD_eq_getElem?_getD, List.getElem?_map, found]
    rfl
  · rw [found]
    exact congrArg some (Prod.ext (by dsimp only; omega) rfl)

end Represents

/-- The history window along every run of calls on the list from its construction: as many
lists as the depth and no more than `BLOCKCHAIN_BASED_LISTS_HISTORY_DEPTH`; `tiers(d)` throws for
every depth from the number of lists on and otherwise returns the lists built for the block `d`
below the height, as the labelled history of the same calls records them. And for every list
whose history is not full, standing at the first block number while empty, `remove_latest_block`
after `apply_block` at the next block gives back the list. -/
theorem history_window (firstBlockNumber : Nat) (operations : List (ListOperation H)) :
    let bbl := Machine.run (listStep mt) (BlockchainBasedList.create firstBlockNumber) operations
    let built := Machine.run (builtStep mt firstBlockNumber) [] operations
    (bbl.history.length = bbl.historyDepth ∧
      bbl.historyDepth ≤ blockchainBasedListsHistoryDepth) ∧
    (∀ depth, bbl.historyDepth ≤ depth → bbl.tiers depth = .error
      "internal error: attempt to get tier which is not present in a blockchain based list") ∧
    (∀ depth, depth < bbl.historyDepth → ∃ tiers, bbl.tiers depth = .ok tiers ∧
      built.reverse[depth]? = some (bbl.blockHeight - depth, tiers)) ∧
    ∀ s : BlockchainBasedList, s.historyDepth < blockchainBasedListsHistoryDepth →
      (s.history = [] → s.blockHeight = s.firstBlockNumber) →
      ∀ (blockHash : H) (storage : StakeTransactionStorage H), ∃ s' storage',
        s.applyBlock mt (s.blockHeight + 1) blockHash storage = .ok (s', storage') ∧
        s'.removeLatestBlock = s := by
  intro bbl built
  have r : Represents firstBlockNumber bbl built :=
    Machine.run_simulation (listStep mt) (fun operation _ _ r => r.listStep mt operation)
      operations (represents_create firstBlockNumber)
  refine ⟨⟨?_, r.depth_eq ▸ r.bounded⟩, fun depth deep => ?_, fun depth shallow =>
    r.tiers_of_lt shallow, fun s short start blockHash storage =>
      BlockchainBasedList.removeLatestBlock_applyBlock_next mt short start blockHash storage⟩
  · rw [r.history_eq, List.length_map, r.depth_eq]
  · unfold BlockchainBasedList.tiers
    rw [if_pos deep]

end GraftNetwork.Stake

import GraftNetwork.HardFork.Replay

/-!
# Switching to an alternative chain

`Blockchain::switch_to_alternative_blockchain` pops the main chain down to the split height,
adds the blocks of the alternative chain through `handle_block_to_main_chain` (whose
`BlockchainDB::add_block` calls `HardFork::add`), and only then calls
`reorganize_from_chain_height(split_height)`. While it adds, `current_fork_index` is still the
one of the popped top, so a block below a fork's height that carries the fork's version passes
`check` and its height records that version; the reorganization steps the index back down and
cannot rewrite that record, and the next block with the old version is accepted again.
`rollback_blockchain_switching` reorganizes before it re-adds.

* `switchToAlternativeBlockchain`: the calls that the switch makes on the object.
* `switch_records_version_ahead_of_schedule`: on a schedule with version 2 from height 5, a
  switch to a branch at height 4 records version 2 for height 4, where `get_ideal_version(4)`
  is 1, and the block added next records version 1 for height 5.
-/

namespace GraftNetwork.HardFork

variable {sch : Schedule}

/-- The calls of `Blockchain::switch_to_alternative_blockchain` on the hard-fork object and its
database when every block of `alt` is added: `pop_block_from_blockchain` down to
`split_height`, `BlockchainDB::add_block` of each block of `alt`, then
`reorganize_from_chain_height(split_height)`. -/
def switchToAlternativeBlockchain (hf : HardFork sch) (splitHeight : Nat) (alt : List Block) :
    HardFork sch :=
  let popped := Machine.run step hf (List.replicate (hf.db.height - splitHeight) Action.popBlock)
  ((Machine.run step popped (alt.map Action.addBlock)).reorganizeFromChainHeight splitHeight).2

/-- Version 1 from height 0 and version 2 from height 5, both with threshold 0, as every fork
of `mainnet_hard_forks`. -/
def twoForkSchedule : Schedule :=
  Schedule.ofForks 1 defaultWindowSize defaultWindowSize_pos [(1, 0, 0, 0), (2, 5, 0, 1)]

/-- Five version-1 blocks and a version-2 block at height 5; the branch at height 4 starts with
a version-2 block, which `check_for_height(b, 4)` of `handle_alternative_block` accepts on this
node. After the switch, height 4 records version 2 though `get_ideal_version(4)` is 1, the
version-1 block that comes next passes `check`, and height 5 records version 1. -/
theorem switch_records_version_ahead_of_schedule :
    Accepted twoForkSchedule [⟨1, 1⟩, ⟨1, 1⟩, ⟨1, 1⟩, ⟨1, 1⟩, ⟨1, 1⟩, ⟨2, 2⟩] ∧
      (replay twoForkSchedule [⟨1, 1⟩, ⟨1, 1⟩, ⟨1, 1⟩, ⟨1, 1⟩, ⟨1, 1⟩, ⟨2, 2⟩]).checkForHeight
        ⟨2, 2⟩ 4 = true ∧
      (switchToAlternativeBlockchain
        (replay twoForkSchedule [⟨1, 1⟩, ⟨1, 1⟩, ⟨1, 1⟩, ⟨1, 1⟩, ⟨1, 1⟩, ⟨2, 2⟩]) 4
          [⟨2, 2⟩]).db.hardForkVersions 4 = some 2 ∧
      twoForkSchedule.getIdealVersion 4 = 1 ∧
      (switchToAlternativeBlockchain
        (replay twoForkSchedule [⟨1, 1⟩, ⟨1, 1⟩, ⟨1, 1⟩, ⟨1, 1⟩, ⟨1, 1⟩, ⟨2, 2⟩]) 4
          [⟨2, 2⟩]).check ⟨1, 1⟩ = true ∧
      (step (.addBlock ⟨1, 1⟩) (switchToAlternativeBlockchain
        (replay twoForkSchedule [⟨1, 1⟩, ⟨1, 1⟩, ⟨1, 1⟩, ⟨1, 1⟩, ⟨1, 1⟩, ⟨2, 2⟩]) 4
          [⟨2, 2⟩])).db.hardForkVersions 5 = some 1 := by
  decide

end GraftNetwork.HardFork

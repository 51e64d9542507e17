import Mathlib.Data.List.Induction
import GraftNetwork.HardFork.Window
import GraftNetwork.HardFork.Schedule

/-!
# Reorganization agrees with a replay of the chain

`replay sch chain` is the object that `init` on an empty database leaves after
`BlockchainDB::add_block` of every block of `chain` in order, each of which calls `add` at its
height. When every block is accepted (`Accepted`), the replayed state is determined by the chain:

* `replay_blocks`, `replay_versions`, `replay_hardForkVersions`: the database holds the chain,
  the window holds the last `window_size` effective votes, and height `j` records the version in
  force after the first `j` blocks.
* `rebuildWindow_replay`: the part of `reorganize_from_block_height(h)` before its re-add loop
  gives the replayed state of the first `h + 1` blocks.
* `addFrom_replay`: the re-add loop then replays the remaining blocks.
* `reorganize_agrees_with_replay`: so `reorganize_from_block_height(h)` below the top changes
  nothing, when `original_version` is at most the version of the first fork.
  `reorganize_diverges_below_original` shows that this condition is needed: at height `0` the
  loop steps down to `original_version` instead of the version recorded for the genesis block.
-/

namespace GraftNetwork.HardFork

open Window

variable {sch : Schedule}

/-- `init` on an empty database, then `BlockchainDB::add_block` of every block of `chain`. -/
def replay (sch : Schedule) (chain : List Block) : HardFork sch :=
  Machine.run step (create sch Db.empty).init.2 (chain.map Action.addBlock)

/-- Every block passes `check` in the state the blocks below it leave: every `add` of the
replay returns `true`. -/
def Accepted (sch : Schedule) (chain : List Block) : Prop :=
  ∀ i (hi : i < chain.length), (replay sch (chain.take i)).check chain[i] = true

instance (sch : Schedule) (chain : List Block) : Decidable (Accepted sch chain) :=
  inferInstanceAs (Decidable (∀ i (_ : i < chain.length), _))

/-! ## The replay block by block -/

/-- On an empty database `init` records `original_version` for the genesis height and leaves
an empty window at the first fork. -/
theorem replay_nil :
    replay sch [] = ⟨Db.empty.setHardForkVersion 0 sch.originalVersion, [], fun _ => 0,
      ⟨0, sch.size_pos⟩⟩ := rfl

theorem replay_concat (chain : List Block) (b : Block) :
    replay sch (chain ++ [b]) = step (.addBlock b) (replay sch chain) := by
  rw [replay, List.map_append, List.map_singleton, Machine.run_concat]
  rfl

theorem replay_take_succ {chain : List Block} {i : Nat} (hi : i < chain.length) :
    replay sch (chain.take (i + 1)) = step (.addBlock chain[i]) (replay sch (chain.take i)) := by
  rw [List.take_succ_eq_append_getElem hi, replay_concat]

@[simp] theorem replay_blocks (chain : List Block) : (replay sch chain).db.blocks = chain := by
  induction chain using List.reverseRecOn with
  | nil => rfl
  | append_singleton chain b ih =>
    rw [replay_concat, step_addBlock]
    split <;> simp [Db.setHardForkVersion, ih]

theorem replay_height (chain : List Block) : (replay sch chain).db.height = chain.length := by
  rw [Db.height, replay_blocks]

theorem windowInv_replay (chain : List Block) : WindowInv (replay sch chain) :=
  Machine.run_invariant step (fun a _ inv => inv.step a) _ (voteWindow_init _)

/-- The replay of a longer chain never has a lower fork index. -/
theorem replay_take_currentForkIndex_le (chain : List Block) {k : Nat} (hk : k ≤ chain.length) :
    ((replay sch (chain.take k)).currentForkIndex : Nat) ≤ (replay sch chain).currentForkIndex := by
  induction chain using List.reverseRecOn generalizing k with
  | nil => simp
  | append_singleton chain b ih =>
    rw [List.length_append, List.length_singleton] at hk
    rcases Nat.lt_or_ge k (chain.length + 1) with lt | ge
    · rw [List.take_append_of_le_length (by omega), replay_concat, step_addBlock]
      exact Nat.le_trans (ih (by omega)) le_add_currentForkIndex
    · rw [List.take_of_length_le (by simp; omega)]

/-! ## Accepted chains -/

theorem accepted_append_singleton {chain : List Block} {b : Block} :
    Accepted sch (chain ++ [b]) ↔ Accepted sch chain ∧ (replay sch chain).check b = true := by
  constructor
  · intro accepted
    refine ⟨fun i hi => ?_, ?_⟩
    · have taken := accepted i (by simp; omega)
      rwa [List.take_append_of_le_length (by omega), List.getElem_append_left hi] at taken
    · have taken := accepted chain.length (by simp)
      rwa [List.take_left' rfl, List.getElem_concat_length rfl] at taken
  · rintro ⟨accepted, last⟩ i hi
    rw [List.length_append, List.length_singleton] at hi
    rcases Nat.lt_or_ge i chain.length with lt | ge
    · rw [List.take_append_of_le_length (by omega), List.getElem_append_left lt]
      exact accepted i lt
    · have eq : i = chain.length := by omega
      subst eq
      rw [List.take_left' rfl, List.getElem_concat_length rfl]
      exact last

theorem Accepted.take {chain : List Block} (accepted : Accepted sch chain) (k : Nat) :
    Accepted sch (chain.take k) := by
  intro i hi
  have hk : i < k := by rw [List.length_take] at hi; omega
  rw [List.take_take, Nat.min_eq_left (Nat.le_of_lt hk), List.getElem_take]
  exact accepted i (by rw [List.length_take] at hi; omega)

/-! ## What an accepted replay holds -/

/-- Trimming a window of the last `window_size` votes and pushing one is the last
`window_size` votes of the longer list. -/
theorem trimWindow_rtake (votes : List UInt8) (lastVersions : UInt8 → Nat) (v : UInt8) :
    (trimWindow sch.windowSize (votes.rtake sch.windowSize) lastVersions).1 ++ [v] =
      (votes ++ [v]).rtake sch.windowSize := by
  rw [trimWindow_fst, drop_concat_eq_rtake _ _ sch.windowSize_pos, rtake_concat_rtake]

theorem effectiveVotes_rtake (blocks : List Block) (n : Nat) :
    effectiveVotes sch (blocks.rtake n) = (effectiveVotes sch blocks).rtake n := by
  simp only [effectiveVotes, List.rtake, List.map_drop, List.length_map]

theorem effectiveVotes_concat (blocks : List Block) (b : Block) :
    effectiveVotes sch (blocks ++ [b]) =
      effectiveVotes sch blocks ++ [sch.getEffectiveVersion (getBlockVote b)] := by
  simp [effectiveVotes]

/-- The window of an accepted replay holds the last `window_size` effective votes. -/
theorem replay_versions {chain : List Block} (accepted : Accepted sch chain) :
    (replay sch chain).versions = (effectiveVotes sch chain).rtake sch.windowSize := by
  induction chain using List.reverseRecOn with
  | nil => simp [replay_nil, effectiveVotes]
  | append_singleton chain b ih =>
    obtain ⟨accepted, last⟩ := accepted_append_singleton.mp accepted
    rw [replay_concat, step_addBlock]
    simp only
    rw [add_versions_of_check last, ih accepted, trimWindow_rtake, effectiveVotes_concat]

/-- Height `j` of an accepted replay records the version in force after the first `j` blocks. -/
theorem replay_hardForkVersions {chain : List Block} (accepted : Accepted sch chain) :
    ∀ j < chain.length,
      (replay sch chain).db.hardForkVersions j = some (replay sch (chain.take j)).getCurrentVersion := by
  induction chain using List.reverseRecOn with
  | nil => intro j hj; exact absurd hj (Nat.not_lt_zero j)
  | append_singleton chain b ih =>
    obtain ⟨accepted, last⟩ := accepted_append_singleton.mp accepted
    intro j hj
    rw [List.length_append, List.length_singleton] at hj
    rw [replay_concat, step_addBlock, if_pos last]
    simp only [Db.setHardForkVersion, replay_height]
    rcases Nat.lt_or_ge j chain.length with lt | ge
    · rw [Function.update_of_ne (Nat.ne_of_lt lt), List.take_append_of_le_length (by omega)]
      exact ih accepted j lt
    · have eq : j = chain.length := by omega
      subst eq
      rw [Function.update_self, List.take_left' rfl]

/-! ## The two halves of `reorganize_from_block_height` -/

/-- The version `reorganize_from_block_height(height)` starts from on a replay. -/
def replayStartVersion (sch : Schedule) (chain : List Block) (height : Nat) : UInt8 :=
  if height = 0 then sch.originalVersion else (replay sch (chain.take height)).getCurrentVersion

theorem replay_startVersion {chain : List Block} (accepted : Accepted sch chain) {height : Nat}
    (below : height < chain.length) :
    (if height = 0 then some sch.originalVersion
      else (replay sch chain).db.getHardForkVersion height) =
        some (replayStartVersion sch chain height) := by
  unfold replayStartVersion
  split
  · rfl
  · exact replay_hardForkVersions accepted height below

/-- Stepping down from the top replay's fork index to the start version reaches the fork
index of the replay of the first `height` blocks. -/
theorem stepDown_replayStartVersion (first : sch.originalVersion ≤ (sch.fork 0).version)
    (chain : List Block) {height : Nat} (below : height < chain.length) :
    (sch.stepDown (replayStartVersion sch chain height) (replay sch chain).currentForkIndex
      (replay sch chain).currentForkIndex.2 : Nat) =
        (replay sch (chain.take height)).currentForkIndex := by
  unfold replayStartVersion
  split
  · next zero =>
    subst zero
    rw [sch.stepDown_first first]
    rfl
  · exact sch.stepDown_version _ (replay_take_currentForkIndex_le chain (Nat.le_of_lt below))

/-- The rebuilt window holds the votes of the last `window_size` blocks up to `height`. -/
theorem rebuildWindow_versions_eq_drop (hf : HardFork sch) (height : Nat) (startVersion : UInt8) :
    (hf.rebuildWindow height startVersion).versions =
      effectiveVotes sch ((hf.db.blocks.take (height + 1)).drop (height + 1 - sch.windowSize)) := by
  have rescan : (if sch.windowSize - 1 ≤ height then height - (sch.windowSize - 1) else 0) =
      height + 1 - sch.windowSize := by
    have := sch.windowSize_pos
    split <;> omega
  rw [rebuildWindow_versions, pushVotes_fst, List.nil_append, rescan, List.drop_take]

/-- Before its re-add loop, `reorganize_from_block_height(height)` on an accepted replay leaves
the replay of the blocks up to `height`, over the whole database. -/
theorem rebuildWindow_replay (first : sch.originalVersion ≤ (sch.fork 0).version)
    {chain : List Block} (accepted : Accepted sch chain) {height : Nat}
    (below : height < chain.length) :
    (replay sch chain).rebuildWindow height (replayStartVersion sch chain height) =
      { replay sch (chain.take (height + 1)) with db := (replay sch chain).db } := by
  have prefix_accepted := accepted.take (height + 1)
  have last := accepted height below
  have stepped := stepDown_replayStartVersion first chain below
  -- the rebuilt window and the replayed one hold the same votes
  have versions : ((replay sch chain).rebuildWindow height (replayStartVersion sch chain height)).versions =
      (replay sch (chain.take (height + 1))).versions := by
    rw [rebuildWindow_versions_eq_drop, replay_blocks, replay_versions prefix_accepted,
      ← effectiveVotes_rtake, List.rtake, List.length_take_of_le below]
  have lastVersions :
      ((replay sch chain).rebuildWindow height (replayStartVersion sch chain height)).lastVersions =
        (replay sch (chain.take (height + 1))).lastVersions := by
    apply Tracks.unique (voteWindow_rebuildWindow _ _ _).tracks
    rw [versions]
    exact (windowInv_replay _).tracks
  refine HardFork.ext (rebuildWindow_db _ _ _) versions lastVersions (Fin.ext ?_)
  rw [rebuildWindow_currentForkIndex, stepped, lastVersions, replay_take_succ below,
    step_addBlock]
  simp only
  rw [replay_height, List.length_take_of_le (Nat.le_of_lt below),
    add_currentForkIndex_of_check last]

/-- One round of the re-add loop on an accepted replay: `add` of block `k` over the whole
database gives the replay of the first `k + 1` blocks over it. -/
theorem add_replay_withDb {chain : List Block} (accepted : Accepted sch chain) {k : Nat}
    (hk : k < chain.length) :
    (({ replay sch (chain.take k) with db := (replay sch chain).db } : HardFork sch).add
        chain[k] k).2 =
      { replay sch (chain.take (k + 1)) with db := (replay sch chain).db } := by
  have last := accepted k hk
  have recorded := replay_hardForkVersions accepted k hk
  rw [add_withDb, if_pos last, Db.setHardForkVersion_of_recorded recorded, replay_take_succ hk,
    step_addBlock, replay_height, List.length_take_of_le (Nat.le_of_lt hk)]

/-- The re-add loop from height `k` on an accepted replay replays the blocks from `k` on. -/
theorem addFrom_replay {chain : List Block} (accepted : Accepted sch chain) (k : Nat)
    (hk : k ≤ chain.length) :
    ({ replay sch (chain.take k) with db := (replay sch chain).db } : HardFork sch).addFrom k
      (chain.drop k) = replay sch chain := by
  rcases Nat.lt_or_ge k chain.length with lt | ge
  · rw [List.drop_eq_getElem_cons lt, addFrom, add_replay_withDb accepted lt]
    exact addFrom_replay accepted (k + 1) lt
  · have top : k = chain.length := by omega
    subst top
    rw [List.drop_length, addFrom, List.take_length]
termination_by chain.length - k

/-! ## Reorganization -/

/-- On a chain whose blocks `add` accepted one by one, `reorganize_from_block_height(height)`
below the top returns `true` and leaves the fork index, the window, its counts, the blocks and
every recorded version as the replay left them, when `original_version` is at most the first
fork's version. -/
theorem reorganize_agrees_with_replay (sch : Schedule)
    (first : sch.originalVersion ≤ (sch.fork 0).version) (chain : List Block)
    (accepted : Accepted sch chain) (height : Nat) (below : height < chain.length) :
    (replay sch chain).reorganizeFromBlockHeight height = (some true, replay sch chain) := by
  have tall : ¬(replay sch chain).db.height ≤ height := by
    rw [replay_height]
    omega
  unfold reorganizeFromBlockHeight
  rw [if_neg tall, replay_startVersion accepted below]
  simp only
  rw [rebuildWindow_replay first accepted below, replay_blocks, addFrom_replay accepted _ below]

theorem reorganize_agrees_with_replay_mainnet :
    mainnetSchedule.originalVersion ≤ (mainnetSchedule.fork 0).version ∧
      Accepted mainnetSchedule [⟨1, 1⟩, ⟨7, 7⟩] ∧ 0 < [(⟨1, 1⟩ : Block), ⟨7, 7⟩].length ∧
      (replay mainnetSchedule [⟨1, 1⟩, ⟨7, 7⟩]).reorganizeFromBlockHeight 0 =
        (some true, replay mainnetSchedule [⟨1, 1⟩, ⟨7, 7⟩]) :=
  ⟨by decide, by decide, by decide,
    reorganize_agrees_with_replay mainnetSchedule (by decide) _ (by decide) 0 (by decide)⟩

/-- A schedule whose `original_version` 5 is above its first fork, version 1 at height 0. -/
def aboveFirstSchedule : Schedule :=
  Schedule.ofForks 5 defaultWindowSize defaultWindowSize_pos [(1, 0, 0, 0), (3, 2, 0, 1)]

/-- Without the condition on `original_version`, reorganizing from height `0` steps the fork
index down only to the fork of version 3, so the re-add loop rejects block 1 and the window
loses its vote. -/
theorem reorganize_diverges_below_original :
    Accepted aboveFirstSchedule [⟨1, 1⟩, ⟨1, 1⟩, ⟨3, 3⟩] ∧
      ((replay aboveFirstSchedule [⟨1, 1⟩, ⟨1, 1⟩, ⟨3, 3⟩]).reorganizeFromBlockHeight 0).2.versions
        = [1, 3] ∧
      (replay aboveFirstSchedule [⟨1, 1⟩, ⟨1, 1⟩, ⟨3, 3⟩]).versions = [1, 1, 3] := by
  decide

end GraftNetwork.HardFork

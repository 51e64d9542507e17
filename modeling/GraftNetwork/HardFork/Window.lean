import GraftNetwork.HardFork.Basic
import GraftNetwork.Lib.Window

/-!
# The vote window keeps its counters

`HardFork` keeps the votes of the last `window_size` blocks in the deque `versions` and their
multiplicities in `last_versions`. `add` slides the window; `reorganize_from_block_height`
and `init` rebuild it. All of them keep `VoteWindow`: the window holds at most `window_size`
votes, `last_versions` counts them, and no vote exceeds the newest scheduled version. The
`assert(last_versions[old_version] >= 1)` of `add` follows for every `add` call, the ones
that `reorganize_from_block_height` and `init` make included.

* `trimWindow_fst`, `tracks_trimWindow`, `tracks_pushVotes`: the two loops over the window.
* `VoteWindow.add`, `VoteWindow.addFrom`, `voteWindow_rebuildWindow`, `voteWindow_init`:
  one lemma per operation; `VoteWindow.step` assembles them.
* `window_invariant`: in every state that a run of actions reaches after `init` the invariant
  holds and so do the asserts of the next action.
-/

namespace GraftNetwork.HardFork

open Window

variable {sch : Schedule}

/-! ## The two loops -/

theorem trimWindow_fst (w : Nat) : ∀ (vs : List UInt8) (lastVersions : UInt8 → Nat),
    (trimWindow w vs lastVersions).1 = vs.drop (vs.length + 1 - w)
  | [], _ => by simp [trimWindow]
  | v :: vs, lastVersions => by
    simp only [trimWindow, List.length_cons]
    split
    · next room =>
      have shift : vs.length + 1 + 1 - w = (vs.length + 1 - w) + 1 := by omega
      rw [trimWindow_fst w vs, shift, List.drop_succ_cons]
    · next room =>
      have none : vs.length + 1 + 1 - w = 0 := by omega
      rw [none, List.drop_zero]

theorem tracks_trimWindow (w : Nat) : ∀ {vs : List UInt8} {lastVersions : UInt8 → Nat},
    Tracks lastVersions vs → Tracks (trimWindow w vs lastVersions).2 (trimWindow w vs lastVersions).1
  | [], _, tracked => tracked
  | v :: vs, lastVersions, tracked => by
    simp only [trimWindow]
    split
    · exact tracks_trimWindow w tracked.pop
    · exact tracked

theorem trimAssertsHold_of_tracks (w : Nat) : ∀ {vs : List UInt8} {lastVersions : UInt8 → Nat},
    Tracks lastVersions vs → TrimAssertsHold w vs lastVersions
  | [], _, _ => trivial
  | _ :: _, _, tracked => fun _ => ⟨tracked.pos_head, trimAssertsHold_of_tracks w tracked.pop⟩

theorem pushVotes_fst : ∀ (acc : List UInt8 × (UInt8 → Nat)) (ws : List UInt8),
    (pushVotes acc ws).1 = acc.1 ++ ws
  | _, [] => by simp [pushVotes]
  | (versions, lastVersions), w :: ws => by
    rw [pushVotes, pushVotes_fst]
    simp

theorem tracks_pushVotes : ∀ {acc : List UInt8 × (UInt8 → Nat)} (ws : List UInt8),
    Tracks acc.2 acc.1 → Tracks (pushVotes acc ws).2 (pushVotes acc ws).1
  | _, [], tracked => tracked
  | (_, _), w :: ws, tracked => tracks_pushVotes ws (tracked.push w)

theorem getEffectiveVersion_le (v : UInt8) : sch.getEffectiveVersion v ≤ sch.maxVersion := by
  unfold Schedule.getEffectiveVersion
  split
  · exact UInt8.le_refl _
  · next h => exact UInt8.not_lt.mp h

/-! ## The invariant -/

/-- The window holds at most `window_size` votes, `last_versions` counts them, and each is at
most the newest scheduled version. -/
structure VoteWindow (sch : Schedule) (versions : List UInt8) (lastVersions : UInt8 → Nat) :
    Prop where
  length_le : versions.length ≤ sch.windowSize
  tracks : Tracks lastVersions versions
  le_max : ∀ v ∈ versions, v ≤ sch.maxVersion

/-- The vote window of a `HardFork` object. -/
def WindowInv (hf : HardFork sch) : Prop := VoteWindow sch hf.versions hf.lastVersions

theorem voteWindow_empty : VoteWindow sch [] (fun _ => 0) :=
  ⟨Nat.zero_le _, tracks_nil, fun _ h => absurd h List.not_mem_nil⟩

/-- Sliding the window by one vote, as `add` does. -/
theorem VoteWindow.slide {versions : List UInt8} {lastVersions : UInt8 → Nat}
    (window : VoteWindow sch versions lastVersions) (v : UInt8) (hv : v ≤ sch.maxVersion) :
    VoteWindow sch ((trimWindow sch.windowSize versions lastVersions).1 ++ [v])
      (countUp (trimWindow sch.windowSize versions lastVersions).2 v) := by
  have trimmed := trimWindow_fst sch.windowSize versions lastVersions
  refine ⟨?_, (tracks_trimWindow sch.windowSize window.tracks).push v, ?_⟩
  · rw [List.length_append, trimmed, List.length_drop, List.length_singleton]
    have := sch.windowSize_pos
    omega
  · intro x hx
    rw [List.mem_append, trimmed] at hx
    rcases hx with hx | hx
    · exact window.le_max x (List.mem_of_mem_drop hx)
    · rw [List.mem_singleton.mp hx]
      exact hv

/-- A window built from at most `window_size` effective votes. -/
theorem voteWindow_pushVotes (blocks : List Block) (hlen : blocks.length ≤ sch.windowSize) :
    VoteWindow sch (pushVotes ([], fun _ => 0) (effectiveVotes sch blocks)).1
      (pushVotes ([], fun _ => 0) (effectiveVotes sch blocks)).2 := by
  have built := pushVotes_fst ([], fun _ => 0) (effectiveVotes sch blocks)
  refine ⟨?_, tracks_pushVotes _ tracks_nil, ?_⟩
  · rw [built, List.nil_append, effectiveVotes, List.length_map]
    exact hlen
  · intro v hv
    rw [built, List.nil_append, effectiveVotes, List.mem_map] at hv
    obtain ⟨b, -, rfl⟩ := hv
    exact getEffectiveVersion_le _

/-! ## One lemma per operation -/

theorem WindowInv.add {hf : HardFork sch} (inv : WindowInv hf) (b : Block) (height : Nat) :
    WindowInv (hf.add b height).2 := by
  unfold HardFork.add
  split
  · simp only [WindowInv, raiseTo_versions, raiseTo_lastVersions]
    exact VoteWindow.slide inv _ (getEffectiveVersion_le _)
  · exact inv

theorem WindowInv.addFrom {hf : HardFork sch} (inv : WindowInv hf) :
    ∀ (height : Nat) (blocks : List Block), WindowInv (hf.addFrom height blocks)
  | _, [] => inv
  | height, b :: bs => (inv.add b height).addFrom (height + 1) bs

/-- The rebuilt window covers the blocks `rescan_height .. height`, at most `window_size`. -/
theorem voteWindow_rebuildWindow (hf : HardFork sch) (height : Nat) (startVersion : UInt8) :
    WindowInv (hf.rebuildWindow height startVersion) := by
  unfold rebuildWindow
  simp only [WindowInv, raiseTo_versions, raiseTo_lastVersions]
  apply voteWindow_pushVotes
  generalize rescan : (if sch.windowSize - 1 ≤ height then height - (sch.windowSize - 1) else 0) = r
  have := sch.windowSize_pos
  have span : height + 1 - r ≤ sch.windowSize := by split at rescan <;> omega
  exact (List.length_take_le _ _).trans span

theorem windowInv_reorganizeFromBlockHeight {hf : HardFork sch} (inv : WindowInv hf)
    (height : Nat) : WindowInv (hf.reorganizeFromBlockHeight height).2 := by
  unfold reorganizeFromBlockHeight
  split
  · exact inv
  · split
    · exact voteWindow_empty
    · exact (voteWindow_rebuildWindow hf height _).addFrom _ _

/-- A rescan from `height` keeps at most `window_size` votes when it covers that many blocks. -/
theorem windowInv_rescanFromBlockHeight {hf : HardFork sch} (inv : WindowInv hf) {height : Nat}
    (covered : hf.db.height - height ≤ sch.windowSize) :
    WindowInv (hf.rescanFromBlockHeight height).2 := by
  have window : VoteWindow sch (pushVotes ([], fun _ => 0) (effectiveVotes sch (hf.db.blocks.drop height))).1
      (pushVotes ([], fun _ => 0) (effectiveVotes sch (hf.db.blocks.drop height))).2 :=
    voteWindow_pushVotes _ (by rw [List.length_drop]; exact covered)
  unfold rescanFromBlockHeight
  split
  · exact inv
  · split
    · exact window
    · simp only [WindowInv, raiseTo_versions, raiseTo_lastVersions]
      exact window

/-- `init` rescans at most the last `window_size` blocks, whatever the state before. -/
theorem voteWindow_init (hf : HardFork sch) : WindowInv hf.init.2 := by
  have cleared : WindowInv hf.clearWindow := voteWindow_empty
  unfold HardFork.init
  cases hf.db.getHardForkVersion 0 with
  | none => exact windowInv_reorganizeFromBlockHeight cleared 0
  | some _ =>
    have start_pos : (if sch.windowSize < hf.db.height then hf.db.height - (sch.windowSize - 1)
        else 1) ≠ 0 := by
      split <;> omega
    simp only [rescanFromChainHeight, start_pos, if_false]
    apply windowInv_rescanFromBlockHeight cleared
    have := sch.windowSize_pos
    simp only [clearWindow]
    split <;> omega

theorem WindowInv.step {hf : HardFork sch} (inv : WindowInv hf) :
    ∀ a : Action, WindowInv (step a hf)
  | .add b height => inv.add b height
  | .addBlock b =>
    (show WindowInv ({ hf with db := { hf.db with blocks := hf.db.blocks ++ [b] } } : HardFork sch)
      from inv).add b hf.db.height
  | .popBlock => inv
  | .reorganize height => windowInv_reorganizeFromBlockHeight inv height
  | .init => voteWindow_init hf

/-! ## The asserts of `add` -/

/-- The asserts that one call `add(b, height)` from `hf` evaluates hold. -/
def AddAsserts (hf : HardFork sch) (b : Block) : Prop :=
  hf.doCheck b.majorVersion (getBlockVote b) = true →
    TrimAssertsHold sch.windowSize hf.versions hf.lastVersions

/-- The asserts of every `add` call of `addFrom` hold. -/
def AddFromAsserts : HardFork sch → Nat → List Block → Prop
  | _, _, [] => True
  | hf, height, b :: bs => AddAsserts hf b ∧ AddFromAsserts (hf.add b height).2 (height + 1) bs

/-- The asserts of every `add` call that an action makes: directly, through
`BlockchainDB::add_block`, or in the re-add loop of `reorganize_from_block_height` (reached from
`init` when it repopulates). The start version is left open. -/
def StepAsserts : Action → HardFork sch → Prop
  | .add b _, hf => AddAsserts hf b
  | .addBlock b, hf => AddAsserts { hf with db := { hf.db with blocks := hf.db.blocks ++ [b] } } b
  | .popBlock, _ => True
  | .reorganize height, hf => ∀ startVersion,
      AddFromAsserts (hf.rebuildWindow height startVersion) (height + 1)
        (hf.db.blocks.drop (height + 1))
  | .init, hf => ∀ startVersion,
      AddFromAsserts (hf.clearWindow.rebuildWindow 0 startVersion) 1 (hf.db.blocks.drop 1)

theorem WindowInv.addAsserts {hf : HardFork sch} (inv : WindowInv hf) (b : Block) :
    AddAsserts hf b :=
  fun _ => trimAssertsHold_of_tracks sch.windowSize inv.tracks

theorem WindowInv.addFromAsserts {hf : HardFork sch} (inv : WindowInv hf) :
    ∀ (height : Nat) (blocks : List Block), AddFromAsserts hf height blocks
  | _, [] => trivial
  | height, b :: bs => ⟨inv.addAsserts b, (inv.add b height).addFromAsserts (height + 1) bs⟩

theorem WindowInv.stepAsserts {hf : HardFork sch} (inv : WindowInv hf) :
    ∀ a : Action, StepAsserts a hf
  | .add b _ => inv.addAsserts b
  | .addBlock b =>
    (show WindowInv ({ hf with db := { hf.db with blocks := hf.db.blocks ++ [b] } } : HardFork sch)
      from inv).addAsserts b
  | .popBlock => trivial
  | .reorganize height => fun v => (voteWindow_rebuildWindow hf height v).addFromAsserts _ _
  | .init => fun v => (voteWindow_rebuildWindow hf.clearWindow 0 v).addFromAsserts _ _

/-- After `init` and any sequence of `add`, `reorganize_from_block_height`, block additions and
removals and further `init` calls (which run `rescan_from_chain_height`), the window holds at
most `window_size` votes, `last_versions[v]` is the number of votes for `v` in it for every `v`,
every vote is at most `heights.back().version`, and every `assert(last_versions[old_version] >= 1)`
that the next action evaluates holds. -/
theorem window_invariant (hf : HardFork sch) (actions : List Action) :
    let s := Machine.run step hf.init.2 actions
    (s.versions.length ≤ sch.windowSize ∧ (∀ v, s.lastVersions v = s.versions.count v) ∧
      ∀ v ∈ s.versions, v ≤ sch.maxVersion) ∧ ∀ a, StepAsserts a s := by
  intro s
  have inv : WindowInv s :=
    Machine.run_invariant step (fun a _ before => before.step a) actions (voteWindow_init hf)
  exact ⟨⟨inv.length_le, inv.tracks, inv.le_max⟩, inv.stepAsserts⟩

end GraftNetwork.HardFork

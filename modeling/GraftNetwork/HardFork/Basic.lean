import Mathlib.Logic.Function.Basic
import Mathlib.Data.List.Basic
import Mathlib.Algebra.Group.Nat.Defs
import GraftNetwork.Lib.Machine

/-!
# The hard-fork state machine

A model of `HardFork` (`src/cryptonote_basic/hardfork.{h,cpp}`) together with the part of
the block database that it reads and writes: the main-chain blocks, and the version that
`set_hard_fork_version` records for each height.

* `Schedule`: the fork table `heights` as `add_fork` and `init` leave it, with the
  constructor's `original_version` and `window_size`. The order that `add_fork` enforces is
  a field, so a schedule out of order cannot be built; `Schedule.ofForks` builds one from a
  list of `add_fork` calls.
* `HardFork`: the vote window `versions`, its counts `last_versions` and
  `current_fork_index`, which is an index of the schedule by its type.
* The operations `add`, `reorganizeFromBlockHeight`, `rescanFromBlockHeight` and `init`
  follow the source statement by statement. An operation that may throw returns
  `Option Bool`, with `none` for the exception, and the state as the code leaves it.
* `Action` and `step`: how the block database drives the object
  (`BlockchainDB::add_block` calls `add` at the old height; `pop_block` does not call it).

Vote counters (`unsigned int`, `uint32_t`) are natural numbers: they count votes of a window
of at most `window_size` blocks, and every caller in `src/` uses a window far below `2^32`.
-/

namespace GraftNetwork

namespace HardFork

/-- The two fields of `cryptonote::block` that the hard-fork code reads. -/
structure Block where
  majorVersion : UInt8
  minorVersion : UInt8
deriving DecidableEq, Repr

/-- `get_block_vote`: pre-fork blocks have minor version `0`, which votes for version `1`. -/
def getBlockVote (b : Block) : UInt8 :=
  if b.minorVersion = 0 then 1 else b.minorVersion

/-- `HardFork::Params`. -/
structure Params where
  version : UInt8
  threshold : UInt8
  height : Nat
  time : Int
deriving DecidableEq, Repr, Inhabited

/-- The order that `add_fork` requires of consecutive forks. -/
def Params.Before (a b : Params) : Prop :=
  a.version < b.version ∧ a.height < b.height ∧ a.time < b.time

instance (a b : Params) : Decidable (Params.Before a b) :=
  inferInstanceAs (Decidable (_ ∧ _ ∧ _))

/-- `HardFork::add_fork(version, height, threshold, time)` on the table `heights`. -/
def addFork (heights : List Params) (version : UInt8) (height : Nat) (threshold : UInt8)
    (time : Int) : Option (List Params) :=
  let p : Params := ⟨version, threshold, height, time⟩
  if version = 0 then none
  -- the three `return false` tests against `heights.back()`
  else if heights.getLast?.any (fun last => !decide (last.Before p)) then none
  else if 100 < threshold then none
  else some (heights ++ [p])

/-- The `add_fork` calls of `Blockchain::init`, whose results it ignores. -/
def addForks (heights : List Params) : List (UInt8 × Nat × UInt8 × Int) → List Params
  | [] => heights
  | (v, h, t, time) :: rest => addForks ((addFork heights v h t time).getD heights) rest

/-- The fork table after `init`, with the parameters of the constructor. -/
structure Schedule where
  heights : List Params
  originalVersion : UInt8
  windowSize : Nat
  heights_ne_nil : heights ≠ []
  windowSize_pos : 0 < windowSize
  ordered : heights.Pairwise Params.Before

namespace Schedule

variable (sch : Schedule)

/-- The number of forks; fork indices are `Fin sch.size`. -/
def size : Nat := sch.heights.length

theorem size_pos : 0 < sch.size := List.length_pos_iff.mpr sch.heights_ne_nil

/-- `heights[i]`. -/
def fork (i : Nat) : Params := sch.heights.getD i default

/-- `heights.back().version`, the newest scheduled version. -/
def maxVersion : UInt8 := (sch.heights.getLast sch.heights_ne_nil).version

/-- `get_effective_version`: a vote above the newest scheduled version counts for it. -/
def getEffectiveVersion (votingVersion : UInt8) : UInt8 :=
  if sch.maxVersion < votingVersion then sch.maxVersion else votingVersion

/-- The vote threshold of a fork, `(window_size * threshold + 99) / 100`. -/
def voteThreshold (p : Params) : Nat := (sch.windowSize * p.threshold.toNat + 99) / 100

/-- The loop of `get_ideal_version(height)`: the newest fork of index `1 .. n` whose height
has been reached, else `original_version`. -/
def idealScan (height : Nat) : Nat → UInt8
  | 0 => sch.originalVersion
  | n + 1 => if (sch.fork (n + 1)).height ≤ height then (sch.fork (n + 1)).version
      else idealScan height n

/-- `get_ideal_version(height)`. -/
def getIdealVersion (height : Nat) : UInt8 := sch.idealScan height (sch.size - 1)

/-- `get_ideal_version()`. -/
def getIdealVersionTop : UInt8 := sch.maxVersion

/-- The loop of `get_earliest_ideal_height_for_version` over the forks, newest first. -/
def earliestScan (version : UInt8) : List Params → Nat → Nat
  | [], height => height
  | p :: ps, height => if version ≤ p.version then earliestScan version ps p.height else height

/-- `get_earliest_ideal_height_for_version`: the height of the oldest fork of the newest run of
forks at or above `version`, `std::numeric_limits<uint64_t>::max()` when there is none. -/
def getEarliestIdealHeightForVersion (version : UInt8) : Nat :=
  earliestScan version sch.heights.reverse (2 ^ 64 - 1)

/-- The search of `rescan_from_block_height` for the fork of version `lastv`: the first
index with that version, or the last index when there is none. -/
def findVersionIndex (lastv : UInt8) : List Params → Nat
  | [] => 0
  | [_] => 0
  | p :: q :: rest => if p.version = lastv then 0 else findVersionIndex lastv (q :: rest) + 1

/-- The loop `while (current_fork_index > 0 && heights[current_fork_index].version >
start_version) --current_fork_index;` of `reorganize_from_block_height`. -/
def stepDown (startVersion : UInt8) : (i : Nat) → i < sch.size → Fin sch.size
  | 0, h => ⟨0, h⟩
  | i + 1, h => if startVersion < (sch.fork (i + 1)).version
      then stepDown startVersion i (Nat.lt_of_succ_lt h) else ⟨i + 1, h⟩

end Schedule

/-- The database part that `HardFork` uses: the main-chain blocks, bottom first, and the
versions recorded per height. Reading a missing version throws (`none`). -/
structure Db where
  blocks : List Block
  hardForkVersions : Nat → Option UInt8

namespace Db

/-- An empty database, with no blocks and no recorded versions. -/
def empty : Db := ⟨[], fun _ => none⟩

/-- `BlockchainDB::height`. -/
def height (db : Db) : Nat := db.blocks.length

/-- `BlockchainDB::set_hard_fork_version`. -/
def setHardForkVersion (db : Db) (height : Nat) (version : UInt8) : Db :=
  { db with hardForkVersions := Function.update db.hardForkVersions height (some version) }

/-- `BlockchainDB::get_hard_fork_version`; `none` when the height has no entry (it throws). -/
def getHardForkVersion (db : Db) (height : Nat) : Option UInt8 := db.hardForkVersions height

/-- Recording the version that a height already has changes nothing. -/
theorem setHardForkVersion_of_recorded {db : Db} {height : Nat} {version : UInt8}
    (recorded : db.hardForkVersions height = some version) :
    db.setHardForkVersion height version = db := by
  unfold setHardForkVersion
  rw [← recorded, Function.update_eq_self]

end Db

/-- One more vote for `v`: `last_versions[v]++`. -/
def countUp (lastVersions : UInt8 → Nat) (v : UInt8) : UInt8 → Nat :=
  Function.update lastVersions v (lastVersions v + 1)

/-- One vote for `v` less: `last_versions[v]--`. -/
def countDown (lastVersions : UInt8 → Nat) (v : UInt8) : UInt8 → Nat :=
  Function.update lastVersions v (lastVersions v - 1)

/-- `last_versions[v]++; versions.push_back(v);` for each vote in order. -/
def pushVotes : List UInt8 × (UInt8 → Nat) → List UInt8 → List UInt8 × (UInt8 → Nat)
  | acc, [] => acc
  | (versions, lastVersions), v :: vs => pushVotes (versions ++ [v], countUp lastVersions v) vs

/-- The `while (versions.size() >= window_size)` loop of `add`: the oldest votes, and their
counts, go until there is room for one more. -/
def trimWindow (windowSize : Nat) : List UInt8 → (UInt8 → Nat) → List UInt8 × (UInt8 → Nat)
  | [], lastVersions => ([], lastVersions)
  | v :: vs, lastVersions =>
    if windowSize ≤ (v :: vs).length then trimWindow windowSize vs (countDown lastVersions v)
    else (v :: vs, lastVersions)

/-- The `assert(last_versions[old_version] >= 1)` of every round of `trimWindow`. -/
def TrimAssertsHold (windowSize : Nat) : List UInt8 → (UInt8 → Nat) → Prop
  | [], _ => True
  | v :: vs, lastVersions =>
    windowSize ≤ (v :: vs).length →
      1 ≤ lastVersions v ∧ TrimAssertsHold windowSize vs (countDown lastVersions v)

end HardFork

open HardFork in
/-- `HardFork`: the database it holds a reference to, the rolling window `versions` of the
last votes (oldest first), their counts `last_versions` and `current_fork_index`. -/
@[ext] structure HardFork (sch : Schedule) where
  db : Db
  versions : List UInt8
  lastVersions : UInt8 → Nat
  currentForkIndex : Fin sch.size

namespace HardFork

variable {sch : Schedule}

/-- The scan of `get_voted_fork_index(height)` over the forks above `cfi`, newest first,
accumulating the votes for their versions; `k` forks remain. -/
def votedScan (sch : Schedule) (lastVersions : UInt8 → Nat) (height cfi : Nat) :
    Nat → Nat → Nat
  | 0, _ => cfi
  | k + 1, acc =>
    let p := sch.fork (cfi + k + 1)
    let acc := acc + lastVersions p.version
    if p.height ≤ height ∧ sch.voteThreshold p ≤ acc then cfi + k + 1
    else votedScan sch lastVersions height cfi k acc

theorem votedScan_lt (lastVersions : UInt8 → Nat) (height : Nat) {cfi bound : Nat}
    (hcfi : cfi < bound) : ∀ k acc, cfi + k < bound →
      votedScan sch lastVersions height cfi k acc < bound
  | 0, _, _ => hcfi
  | k + 1, acc, hk => by
    simp only [votedScan]
    split
    · omega
    · exact votedScan_lt lastVersions height hcfi k _ (by omega)

/-- `get_voted_fork_index(height)`. -/
def getVotedForkIndex (hf : HardFork sch) (height : Nat) : Fin sch.size :=
  ⟨votedScan sch hf.lastVersions height hf.currentForkIndex (sch.size - 1 - hf.currentForkIndex) 0,
    votedScan_lt _ _ hf.currentForkIndex.2 _ _ (by have := hf.currentForkIndex.2; omega)⟩

/-- `if (voted > current_fork_index) current_fork_index = voted;` -/
def raiseTo (hf : HardFork sch) (voted : Fin sch.size) : HardFork sch :=
  if hf.currentForkIndex < voted then { hf with currentForkIndex := voted } else hf

@[simp] theorem raiseTo_db (hf : HardFork sch) (voted : Fin sch.size) :
    (hf.raiseTo voted).db = hf.db := by
  unfold raiseTo; split <;> rfl

@[simp] theorem raiseTo_versions (hf : HardFork sch) (voted : Fin sch.size) :
    (hf.raiseTo voted).versions = hf.versions := by
  unfold raiseTo; split <;> rfl

@[simp] theorem raiseTo_lastVersions (hf : HardFork sch) (voted : Fin sch.size) :
    (hf.raiseTo voted).lastVersions = hf.lastVersions := by
  unfold raiseTo; split <;> rfl

theorem raiseTo_currentForkIndex (hf : HardFork sch) (voted : Fin sch.size) :
    ((hf.raiseTo voted).currentForkIndex : Nat) = max (hf.currentForkIndex : Nat) voted := by
  unfold raiseTo
  split
  · next h => rw [Fin.lt_def] at h; simp only; omega
  · next h => rw [Fin.lt_def] at h; omega

/-- `get_current_version`. -/
def getCurrentVersion (hf : HardFork sch) : UInt8 := (sch.fork hf.currentForkIndex).version

/-- `do_check`: the block's major version is the version in force and it votes for at
least that version. -/
def doCheck (hf : HardFork sch) (blockVersion votingVersion : UInt8) : Bool :=
  decide (blockVersion = hf.getCurrentVersion ∧ hf.getCurrentVersion ≤ votingVersion)

/-- `check(block)`. -/
def check (hf : HardFork sch) (b : Block) : Bool :=
  hf.doCheck b.majorVersion (getBlockVote b)

/-- `check_for_height(block, height)`, through `do_check_for_height`. -/
def checkForHeight (hf : HardFork sch) (b : Block) (height : Nat) : Bool :=
  let v := (sch.fork (hf.getVotedForkIndex height)).version
  decide (b.majorVersion = v ∧ v ≤ getBlockVote b)

/-- `add(block, height)`, the public overload, with the body of the private
`add(block_version, voting_version, height)` it calls. The result is its return value. -/
def add (hf : HardFork sch) (b : Block) (height : Nat) : Bool × HardFork sch :=
  if hf.doCheck b.majorVersion (getBlockVote b) then
    let db := hf.db.setHardForkVersion height hf.getCurrentVersion
    let v := sch.getEffectiveVersion (getBlockVote b)
    let trimmed := trimWindow sch.windowSize hf.versions hf.lastVersions
    let hf' : HardFork sch :=
      { hf with db, versions := trimmed.1 ++ [v], lastVersions := countUp trimmed.2 v }
    (true, hf'.raiseTo (hf'.getVotedForkIndex (height + 1)))
  else (false, hf)

/-! ### What `add` does -/

section add

variable {hf : HardFork sch} {b : Block} {height : Nat}

theorem add_fst : (hf.add b height).1 = hf.check b := by
  unfold add check
  split <;> simp_all

theorem add_of_check_false (rejected : hf.check b = false) : hf.add b height = (false, hf) := by
  unfold add
  rw [if_neg (show ¬hf.doCheck b.majorVersion (getBlockVote b) = true by simpa [check] using rejected)]

@[simp] theorem add_blocks : (hf.add b height).2.db.blocks = hf.db.blocks := by
  unfold add
  split <;> simp [Db.setHardForkVersion]

theorem add_versions_of_check (accepted : hf.check b = true) :
    (hf.add b height).2.versions =
      (trimWindow sch.windowSize hf.versions hf.lastVersions).1 ++
        [sch.getEffectiveVersion (getBlockVote b)] := by
  unfold add
  rw [if_pos (show hf.doCheck b.majorVersion (getBlockVote b) = true from accepted)]
  simp

theorem add_lastVersions_of_check (accepted : hf.check b = true) :
    (hf.add b height).2.lastVersions =
      countUp (trimWindow sch.windowSize hf.versions hf.lastVersions).2
        (sch.getEffectiveVersion (getBlockVote b)) := by
  unfold add
  rw [if_pos (show hf.doCheck b.majorVersion (getBlockVote b) = true from accepted)]
  simp

theorem add_hardForkVersions_of_check (accepted : hf.check b = true) :
    (hf.add b height).2.db.hardForkVersions =
      Function.update hf.db.hardForkVersions height (some hf.getCurrentVersion) := by
  unfold add
  rw [if_pos (show hf.doCheck b.majorVersion (getBlockVote b) = true from accepted)]
  simp [Db.setHardForkVersion]

/-- An accepted `add` raises the fork index to the one voted for at `height + 1`, counted from
the old index over the new window. -/
theorem add_currentForkIndex_of_check (accepted : hf.check b = true) :
    ((hf.add b height).2.currentForkIndex : Nat) =
      max (hf.currentForkIndex : Nat) (votedScan sch (hf.add b height).2.lastVersions (height + 1)
        hf.currentForkIndex (sch.size - 1 - hf.currentForkIndex) 0) := by
  rw [add_lastVersions_of_check accepted]
  unfold add
  rw [if_pos (show hf.doCheck b.majorVersion (getBlockVote b) = true from accepted),
    raiseTo_currentForkIndex]
  rfl

/-- `add` never lowers the fork index. -/
theorem le_add_currentForkIndex :
    (hf.currentForkIndex : Nat) ≤ (hf.add b height).2.currentForkIndex := by
  unfold add
  split
  · rw [raiseTo_currentForkIndex]
    exact Nat.le_max_left _ _
  · exact Nat.le_refl _

/-- `add` reads nothing of the database: on another database it does the same, with its one
write going there. -/
theorem add_withDb (db : Db) :
    ({ hf with db } : HardFork sch).add b height =
      ((hf.add b height).1, { (hf.add b height).2 with
        db := if hf.check b then db.setHardForkVersion height hf.getCurrentVersion else db }) := by
  by_cases accepted : hf.doCheck b.majorVersion (getBlockVote b) = true
  · have accepted' : ({ hf with db } : HardFork sch).doCheck b.majorVersion (getBlockVote b) =
        true := accepted
    simp only [add, check, accepted, accepted', if_true]
    refine Prod.ext rfl (HardFork.ext ?_ ?_ ?_ (Fin.ext ?_))
    · simp [getCurrentVersion]
    · simp
    · simp
    · simp only [raiseTo_currentForkIndex]
      rfl
  · have rejected' : ¬({ hf with db } : HardFork sch).doCheck b.majorVersion (getBlockVote b) =
        true := accepted
    simp [add, check, accepted, rejected']

end add

/-- The loop `for (h = height + 1; h < bc_height; ++h) add(db.get_block_from_height(h), h);`
of `reorganize_from_block_height`, over the blocks from height `h` on. -/
def addFrom (hf : HardFork sch) : Nat → List Block → HardFork sch
  | _, [] => hf
  | h, b :: bs => (hf.add b h).2.addFrom (h + 1) bs

/-- The effective votes of blocks, as the rescans of the window push them. -/
def effectiveVotes (sch : Schedule) (blocks : List Block) : List UInt8 :=
  blocks.map fun b => sch.getEffectiveVersion (getBlockVote b)

/-- The part of `reorganize_from_block_height(height)` after `start_version` is read: step the
fork index down to the fork of that version, rebuild the window of the votes of the blocks
`rescan_height .. height`, and recount the votes for `height + 1`. -/
def rebuildWindow (hf : HardFork sch) (height : Nat) (startVersion : UInt8) : HardFork sch :=
  let rescanHeight := if sch.windowSize - 1 ≤ height then height - (sch.windowSize - 1) else 0
  let cfi := sch.stepDown startVersion hf.currentForkIndex hf.currentForkIndex.2
  let window := pushVotes ([], fun _ => 0)
    (effectiveVotes sch ((hf.db.blocks.drop rescanHeight).take (height + 1 - rescanHeight)))
  let hf1 : HardFork sch :=
    { hf with currentForkIndex := cfi, versions := window.1, lastVersions := window.2 }
  hf1.raiseTo (hf1.getVotedForkIndex (height + 1))

section rebuildWindow

variable (hf : HardFork sch) (height : Nat) (startVersion : UInt8)

@[simp] theorem rebuildWindow_db : (hf.rebuildWindow height startVersion).db = hf.db := by
  simp [rebuildWindow]

/-- The rebuilt window holds the votes of the blocks from the rescan height to `height`. -/
theorem rebuildWindow_versions :
    (hf.rebuildWindow height startVersion).versions =
      (pushVotes ([], fun _ => 0) (effectiveVotes sch ((hf.db.blocks.drop
        (if sch.windowSize - 1 ≤ height then height - (sch.windowSize - 1) else 0)).take
          (height + 1 - if sch.windowSize - 1 ≤ height then height - (sch.windowSize - 1)
            else 0)))).1 := by
  simp [rebuildWindow]

/-- The rebuilt fork index: stepped down to the fork of `startVersion`, then raised to the
one voted for at `height + 1`. -/
theorem rebuildWindow_currentForkIndex :
    ((hf.rebuildWindow height startVersion).currentForkIndex : Nat) =
      max (sch.stepDown startVersion hf.currentForkIndex hf.currentForkIndex.2 : Nat)
        (votedScan sch (hf.rebuildWindow height startVersion).lastVersions (height + 1)
          (sch.stepDown startVersion hf.currentForkIndex hf.currentForkIndex.2)
          (sch.size - 1 - sch.stepDown startVersion hf.currentForkIndex hf.currentForkIndex.2) 0) := by
  unfold rebuildWindow
  rw [raiseTo_currentForkIndex, raiseTo_lastVersions]
  rfl

end rebuildWindow

/-- `reorganize_from_block_height(height)`: `rebuildWindow`, then add the blocks above `height`
again. Reading the version of `height` throws when it is missing, after the window was
cleared. -/
def reorganizeFromBlockHeight (hf : HardFork sch) (height : Nat) : Option Bool × HardFork sch :=
  if hf.db.height ≤ height then (some false, hf)
  else
    match (if height = 0 then some sch.originalVersion else hf.db.getHardForkVersion height) with
    | none => (none, { hf with versions := [], lastVersions := (fun _ => 0) })
    | some startVersion =>
      (some true, (hf.rebuildWindow height startVersion).addFrom (height + 1)
        (hf.db.blocks.drop (height + 1)))

/-- `reorganize_from_chain_height(height)`. -/
def reorganizeFromChainHeight (hf : HardFork sch) (height : Nat) : Option Bool × HardFork sch :=
  if height = 0 then (some false, hf) else hf.reorganizeFromBlockHeight (height - 1)

theorem findVersionIndex_lt (lastv : UInt8) :
    ∀ ps : List Params, ps ≠ [] → Schedule.findVersionIndex lastv ps < ps.length
  | [], h => absurd rfl h
  | [_], _ => Nat.zero_lt_one
  | p :: q :: rest, _ => by
    simp only [Schedule.findVersionIndex]
    split
    · simp
    · have := findVersionIndex_lt lastv (q :: rest) (List.cons_ne_nil q rest)
      simp only [List.length_cons] at this ⊢
      omega

/-- `rescan_from_block_height(height)`: rebuild the window from `height` to the top, take the
fork index of the version recorded for the top block, and recount the votes. -/
def rescanFromBlockHeight (hf : HardFork sch) (height : Nat) : Option Bool × HardFork sch :=
  if hf.db.height ≤ height then (some false, hf)
  else
    let window := pushVotes ([], fun _ => 0) (effectiveVotes sch (hf.db.blocks.drop height))
    let hf1 : HardFork sch := { hf with versions := window.1, lastVersions := window.2 }
    match hf.db.getHardForkVersion (hf.db.height - 1) with
    | none => (none, hf1)
    | some lastv =>
      let hf2 : HardFork sch := { hf1 with currentForkIndex :=
        ⟨Schedule.findVersionIndex lastv sch.heights,
          findVersionIndex_lt lastv sch.heights sch.heights_ne_nil⟩ }
      (some true, hf2.raiseTo (hf2.getVotedForkIndex hf.db.height))

/-- `rescan_from_chain_height(height)`. -/
def rescanFromChainHeight (hf : HardFork sch) (height : Nat) : Option Bool × HardFork sch :=
  if height = 0 then (some false, hf) else hf.rescanFromBlockHeight (height - 1)

/-- The first statements of `init()`: an empty window and the first fork. -/
def clearWindow (hf : HardFork sch) : HardFork sch :=
  { hf with versions := [], lastVersions := (fun _ => 0), currentForkIndex := ⟨0, sch.size_pos⟩ }

/-- `init()`: clear the window, then repopulate the recorded versions from the genesis block
when the database has none (recording `original_version` for height `0`), or else rescan the
last `window_size` blocks. -/
def init (hf : HardFork sch) : Option Bool × HardFork sch :=
  let height := if sch.windowSize < hf.db.height then hf.db.height - (sch.windowSize - 1) else 1
  match hf.db.getHardForkVersion 0 with
  | none =>
    let hf1 := (hf.clearWindow.reorganizeFromChainHeight 1).2
    (some true, { hf1 with db := hf1.db.setHardForkVersion 0 sch.originalVersion })
  | some _ => hf.clearWindow.rescanFromChainHeight height

/-- `HardFork::get(height)`: the recorded version, the current one at the top, and `255`
(after `assert(false)`) above it. -/
def get (hf : HardFork sch) (height : Nat) : Option UInt8 :=
  if hf.db.height < height then some 255
  else if height = hf.db.height then some hf.getCurrentVersion
  else hf.db.getHardForkVersion height

/-- A `HardFork` as its constructor leaves it over `db`, before `init`. -/
def create (sch : Schedule) (db : Db) : HardFork sch :=
  ⟨db, [], fun _ => 0, ⟨0, sch.size_pos⟩⟩

/-- What the rest of the daemon does to the object and its database. -/
inductive Action
  /-- a direct call `add(block, height)` -/
  | add (b : Block) (height : Nat)
  /-- `BlockchainDB::add_block`: the block is appended, then `add` runs at the old height -/
  | addBlock (b : Block)
  /-- `BlockchainDB::pop_block`, which does not touch the object -/
  | popBlock
  /-- `reorganize_from_block_height(height)` -/
  | reorganize (height : Nat)
  /-- `init()` -/
  | init

/-- One action; return values and exceptions are ignored, the state is what the code leaves. -/
def step : Action → HardFork sch → HardFork sch
  | .add b height, hf => (hf.add b height).2
  | .addBlock b, hf =>
    let appended : HardFork sch := { hf with db := { hf.db with blocks := hf.db.blocks ++ [b] } }
    (appended.add b hf.db.height).2
  | .popBlock, hf => { hf with db := { hf.db with blocks := hf.db.blocks.dropLast } }
  | .reorganize height, hf => (hf.reorganizeFromBlockHeight height).2
  | .init, hf => hf.init.2

/-- Adding a block to the database is `add` at the old height, with its write going to the
grown database. -/
theorem step_addBlock (hf : HardFork sch) (b : Block) :
    step (.addBlock b) hf =
      { (hf.add b hf.db.height).2 with
        db := if hf.check b
          then ({ hf.db with blocks := hf.db.blocks ++ [b] } : Db).setHardForkVersion hf.db.height
            hf.getCurrentVersion
          else { hf.db with blocks := hf.db.blocks ++ [b] } } :=
  congrArg Prod.snd (add_withDb _)

end HardFork

end GraftNetwork

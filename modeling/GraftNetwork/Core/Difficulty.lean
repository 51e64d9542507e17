import Mathlib.Data.List.Sort
import Mathlib.Algebra.Group.Nat.Defs
import Mathlib.Algebra.GroupWithZero.Nat
import GraftNetwork.Lib.Machine
import GraftNetwork.Lib.Window

/-!
# Difficulty windows and timestamp medians

A model of how `Blockchain` (`src/cryptonote_core/blockchain.cpp`) collects the timestamps and
cumulative difficulties that the difficulty algorithms and the timestamp check read:

* `difficultyWindow`: the vectors of `get_difficulty_for_next_block`, read from the database
  (`databaseWindow`) or, when the chain grew by one block since the last call, from the cache
  `m_timestamps`, `m_difficulties` and `m_timestamps_and_difficulties_height`.
* `step`: the operations on the main chain that the cache sees: a block added, a block popped
  (which resets the cache), the reset at the start of a switch, a rollback and an alternative
  block, and a call of `get_difficulty_for_next_block`.
* `nextDifficultyForAlternativeChain`: `get_next_difficulty_for_alternative_chain`, which
  takes main-chain blocks before the alternative ones.
* `alternativeBlockTimestampCheck`: the timestamps of `handle_alternative_block`, completed by
  `complete_timestamps_vector` and checked by `check_block_timestamp(timestamps, b)`, beside
  `checkBlockTimestamp`, the check of a block on the main chain.

A chain is the list of its blocks' timestamps and cumulative difficulties by height. The three
difficulty algorithms of `difficulty.cpp` are parameters; every result holds for any of them.

Results:

* `cached_window_agrees_with_database`: along every run, the vectors that the cache path hands
  to the algorithms are those the database path reads.
* `alternative_difficulty_agrees_with_splice`: the difficulty of a block on an alternative
  chain is the difficulty of the next block on the chain spliced from the main chain and the
  alternative blocks, for the same hard-fork version.
* `alternative_timestamp_check_differs_from_main`: the timestamp check of an alternative block
  refuses blocks that the check of the main chain accepts on the spliced chain, on a chain
  shorter than the window and on an alternative chain longer than the window, both built by
  the checks block by block.
-/

namespace GraftNetwork.Core.Difficulty

/-- `DIFFICULTY_BLOCKS_COUNT`: `DIFFICULTY_WINDOW + DIFFICULTY_LAG`. -/
def difficultyBlocksCount : Nat := 720 + 15

/-- `DIFFICULTY_BLOCKS_COUNT_V8`. -/
def difficultyBlocksCountV8 : Nat := 60

/-- `DIFFICULTY_TARGET_V1`, in seconds. -/
def difficultyTargetV1 : Nat := 60

/-- `DIFFICULTY_TARGET_V2`, in seconds. -/
def difficultyTargetV2 : Nat := 120

/-- `BLOCKCHAIN_TIMESTAMP_CHECK_WINDOW`. -/
def blockchainTimestampCheckWindow : Nat := 60

/-- `BLOCKCHAIN_TIMESTAMP_CHECK_WINDOW_V9`. -/
def blockchainTimestampCheckWindowV9 : Nat := 11

/-- `CRYPTONOTE_BLOCK_FUTURE_TIME_LIMIT`. -/
def cryptonoteBlockFutureTimeLimit : Nat := 60 * 60 * 2

/-- `CRYPTONOTE_BLOCK_FUTURE_TIME_LIMIT_V9`. -/
def cryptonoteBlockFutureTimeLimitV9 : Nat := 120 * 7

/-- What the difficulty reads of a block: `get_block_timestamp` and
`get_block_cumulative_difficulty`. -/
structure BlockRecord where
  timestamp : Nat
  cumulativeDifficulty : Nat
deriving DecidableEq, Repr

/-- The difficulty algorithms `next_difficulty`, `next_difficulty_v8` and `next_difficulty_v9`
of timestamps, cumulative difficulties and a target. -/
structure DifficultyAlgorithms where
  nextDifficulty : List Nat → List Nat → Nat → Nat
  nextDifficultyV8 : List Nat → List Nat → Nat → Nat
  nextDifficultyV9 : List Nat → List Nat → Nat → Nat

/-- The number of blocks that the difficulty at a hard-fork version reads. -/
def blocksCountFor (version : Nat) : Nat :=
  if version < 8 then difficultyBlocksCount else difficultyBlocksCountV8

/-- `get_difficulty_target()` at a hard-fork version. -/
def targetFor (version : Nat) : Nat :=
  if version < 2 then difficultyTargetV1 else difficultyTargetV2

variable (algorithms : DifficultyAlgorithms)

/-- The algorithm and target that a hard-fork version selects, applied to the vectors. -/
def nextDifficultyFor (version : Nat) (timestamps difficulties : List Nat) : Nat :=
  if version < 8 then algorithms.nextDifficulty timestamps difficulties (targetFor version)
  else if version = 8 ∨ 10 ≤ version then
    algorithms.nextDifficultyV8 timestamps difficulties (targetFor version)
  else algorithms.nextDifficultyV9 timestamps difficulties (targetFor version)

/-- The timestamps and cumulative difficulties of some blocks. -/
def vectorsOf (blocks : List BlockRecord) : List Nat × List Nat :=
  (blocks.map (·.timestamp), blocks.map (·.cumulativeDifficulty))

/-! ## The main chain and its cache -/

/-- The first height of a window that starts at `offset`, moved past the genesis block. -/
def skipGenesis (offset : Nat) : Nat := if offset = 0 then 1 else offset

/-- The first height that the difficulty of the block at `height` reads: the last `count`
blocks, skipping the genesis block. -/
def windowStart (height count : Nat) : Nat := skipGenesis (height - min height count)

/-- The blocks that the database path of `get_difficulty_for_next_block` reads. -/
def databaseWindow (chain : List BlockRecord) (count : Nat) : List BlockRecord :=
  chain.drop (windowStart chain.length count)

/-- `m_timestamps`, `m_difficulties` and `m_timestamps_and_difficulties_height`; a height of `0`
means that the cache is not used. -/
structure DifficultyCache where
  timestamps : List Nat
  difficulties : List Nat
  height : Nat
deriving DecidableEq, Repr

/-- The cache as the constructor of `Blockchain` leaves it. -/
def DifficultyCache.init : DifficultyCache := ⟨[], [], 0⟩

/-- The vectors that `get_difficulty_for_next_block` hands to the algorithm at a hard-fork
version, and the cache it leaves. When the chain grew by one block since the cache was filled
and the cache holds at least `DIFFICULTY_BLOCKS_COUNT` timestamps, the top block is pushed and
the vectors are trimmed from the front to the count (`rtake`); otherwise they are read from the
database. -/
def difficultyWindow (version : Nat) (chain : List BlockRecord) (cache : DifficultyCache) :
    (List Nat × List Nat) × DifficultyCache :=
  let height := chain.length
  let count := blocksCountFor version
  if cache.height ≠ 0 ∧ height - cache.height = 1 ∧ difficultyBlocksCount ≤ cache.timestamps.length then
    let top := chain.getD (height - 1) ⟨0, 0⟩
    let timestamps := (cache.timestamps ++ [top.timestamp]).rtake count
    let difficulties := (cache.difficulties ++ [top.cumulativeDifficulty]).rtake count
    ((timestamps, difficulties), ⟨timestamps, difficulties, height⟩)
  else
    let vectors := vectorsOf (databaseWindow chain count)
    (vectors, ⟨vectors.1, vectors.2, height⟩)

/-- `get_difficulty_for_next_block()` at the current hard-fork version `version`. The top hash
of an empty chain is `null_hash`, which `m_difficulty_for_next_block_top_hash` keeps, so the
cached difficulty `1` is returned there. -/
def getDifficultyForNextBlock (version : Nat) (chain : List BlockRecord) (cache : DifficultyCache) :
    Nat × DifficultyCache :=
  if chain = [] then (1, cache)
  else
    let window := difficultyWindow version chain cache
    (nextDifficultyFor algorithms version window.1.1 window.1.2, window.2)

/-- The main chain and the cache. -/
structure State where
  chain : List BlockRecord
  cache : DifficultyCache

/-- What happens to the main chain: `add_block` of a block, `pop_block_from_blockchain`, the
reset of the cache that `switch_to_alternative_blockchain`, `rollback_blockchain_switching` and
`handle_alternative_block` start with, and a call of `get_difficulty_for_next_block` at a
hard-fork version. A switch and a rollback are resets, pops and additions. -/
inductive Operation
  | addBlock (record : BlockRecord)
  | popBlock
  | resetCache
  | getDifficulty (version : Nat)

/-- One operation. -/
def step : Operation → State → State
  | .addBlock record, s => { s with chain := s.chain ++ [record] }
  | .popBlock, s => ⟨s.chain.dropLast, { s.cache with height := 0 }⟩
  | .resetCache, s => { s with cache := { s.cache with height := 0 } }
  | .getDifficulty version, s =>
    { s with cache := (getDifficultyForNextBlock algorithms version s.chain s.cache).2 }

/-! ## The cache path reads what the database path reads -/

/-- While its height is set, the cache holds the database window of the chain's first `height`
blocks, for some count. -/
def CacheValid (s : State) : Prop :=
  s.cache.height ≠ 0 → s.cache.height ≤ s.chain.length ∧
    ∃ count, (s.cache.timestamps, s.cache.difficulties) =
      vectorsOf (databaseWindow (s.chain.take s.cache.height) count)

theorem skipGenesis_eq (offset : Nat) : skipGenesis offset = max 1 offset := by
  unfold skipGenesis
  split_ifs <;> omega

theorem windowStart_eq (height count : Nat) : windowStart height count = max 1 (height - count) := by
  rw [windowStart, skipGenesis_eq]
  omega

theorem vectorsOf_append (l l' : List BlockRecord) :
    vectorsOf (l ++ l') = ((vectorsOf l).1 ++ (vectorsOf l').1, (vectorsOf l).2 ++ (vectorsOf l').2) := by
  simp [vectorsOf]

theorem vectorsOf_rtake (l : List BlockRecord) (n : Nat) :
    vectorsOf (l.rtake n) = ((vectorsOf l).1.rtake n, (vectorsOf l).2.rtake n) := by
  simp [vectorsOf, List.rtake, List.map_drop]

/-- Pushing the top block onto the database window of the chain below it and trimming to a
count no larger than `DIFFICULTY_BLOCKS_COUNT` is the database window of the chain, when the
window below held at least `DIFFICULTY_BLOCKS_COUNT` blocks. -/
theorem databaseWindow_push (below : List BlockRecord) (top : BlockRecord) {count newCount : Nat}
    (full : difficultyBlocksCount ≤ (databaseWindow below count).length)
    (bounded : newCount ≤ difficultyBlocksCount) :
    (databaseWindow below count ++ [top]).rtake newCount = databaseWindow (below ++ [top]) newCount := by
  have length : (databaseWindow below count).length = below.length - windowStart below.length count :=
    List.length_drop
  have total : difficultyBlocksCount = 735 := rfl
  have start := windowStart_eq below.length count
  have newStart := windowStart_eq (below ++ [top]).length newCount
  simp only [List.length_append, List.length_singleton] at newStart
  unfold databaseWindow at full length ⊢
  rw [← List.drop_append_of_le_length (by omega), List.rtake, List.drop_drop]
  simp only [List.length_drop, List.length_append, List.length_singleton]
  congr 1
  omega

theorem blocksCountFor_le (version : Nat) : blocksCountFor version ≤ difficultyBlocksCount := by
  unfold blocksCountFor difficultyBlocksCount difficultyBlocksCountV8
  split_ifs <;> omega

/-- A chain whose last block is above the `height` blocks the cache was filled from. -/
theorem take_append_top {chain : List BlockRecord} {height : Nat} (above : chain.length = height + 1) :
    chain = chain.take height ++ [chain.getD (chain.length - 1) ⟨0, 0⟩] := by
  have nonempty : chain ≠ [] := by
    rintro rfl
    simp at above
  rw [show height = chain.length - 1 by omega, ← List.dropLast_eq_take, List.getD_eq_getElem?_getD,
    List.getElem?_eq_getElem (by omega), Option.getD_some, ← List.getLast_eq_getElem nonempty]
  exact (List.dropLast_append_getLast nonempty).symm

/-- Under a valid cache, `get_difficulty_for_next_block` hands the algorithm the database
window, and leaves a valid cache. -/
theorem difficultyWindow_of_valid {chain : List BlockRecord} {cache : DifficultyCache} (version : Nat)
    (valid : CacheValid ⟨chain, cache⟩) :
    (difficultyWindow version chain cache).1 = vectorsOf (databaseWindow chain (blocksCountFor version)) ∧
      CacheValid ⟨chain, (difficultyWindow version chain cache).2⟩ := by
  unfold difficultyWindow
  dsimp only
  split_ifs with incremental
  · obtain ⟨set, grown, filled⟩ := incremental
    obtain ⟨-, count, cached⟩ := valid set
    have stamps : cache.timestamps = (vectorsOf (databaseWindow (chain.take cache.height) count)).1 :=
      congrArg Prod.fst cached
    have difficulties : cache.difficulties =
        (vectorsOf (databaseWindow (chain.take cache.height) count)).2 :=
      congrArg Prod.snd cached
    have full : difficultyBlocksCount ≤ (databaseWindow (chain.take cache.height) count).length := by
      rw [stamps] at filled
      simpa [vectorsOf] using filled
    -- the cache was filled from the chain below its top block
    have pushed := databaseWindow_push (chain.take cache.height) (chain.getD (chain.length - 1) ⟨0, 0⟩)
      full (blocksCountFor_le version)
    rw [← take_append_top (by omega)] at pushed
    have vectors : ((cache.timestamps ++ [(chain.getD (chain.length - 1) ⟨0, 0⟩).timestamp]).rtake
          (blocksCountFor version),
        (cache.difficulties ++ [(chain.getD (chain.length - 1) ⟨0, 0⟩).cumulativeDifficulty]).rtake
          (blocksCountFor version)) = vectorsOf (databaseWindow chain (blocksCountFor version)) := by
      rw [← pushed, vectorsOf_rtake, vectorsOf_append, stamps, difficulties]
      rfl
    refine ⟨vectors, fun _ => ⟨le_refl _, blocksCountFor version, ?_⟩⟩
    rw [List.take_length]
    exact vectors
  · refine ⟨rfl, fun _ => ⟨le_refl _, blocksCountFor version, ?_⟩⟩
    rw [List.take_length]

/-- Every operation keeps the cache valid. -/
theorem cacheValid_step {s : State} (valid : CacheValid s) (operation : Operation) :
    CacheValid (step algorithms operation s) := by
  cases operation with
  | addBlock record =>
    intro set
    obtain ⟨below, count, cached⟩ := valid set
    refine ⟨by simp [Difficulty.step]; omega, count, ?_⟩
    simpa [Difficulty.step, List.take_append_of_le_length below] using cached
  | popBlock => intro set; exact absurd rfl set
  | resetCache => intro set; exact absurd rfl set
  | getDifficulty version =>
    show CacheValid ⟨s.chain, (getDifficultyForNextBlock algorithms version s.chain s.cache).2⟩
    unfold getDifficultyForNextBlock
    split_ifs
    · exact valid
    · exact (difficultyWindow_of_valid version valid).2

/-- Along every run from the cache of a new `Blockchain`, whatever blocks are added and popped
and at whatever hard-fork versions the difficulty is asked for, the vectors that
`get_difficulty_for_next_block` hands to the algorithm are the database window of the chain:
the blocks at heights `max(1, height - count)` to `height - 1`, with the count of the version. -/
theorem cached_window_agrees_with_database (chain : List BlockRecord) (operations : List Operation)
    (version : Nat) :
    let s := Machine.run (step algorithms) ⟨chain, .init⟩ operations
    (difficultyWindow version s.chain s.cache).1 = vectorsOf (databaseWindow s.chain (blocksCountFor version)) := by
  have start : CacheValid ⟨chain, .init⟩ := fun set => absurd rfl set
  have valid : CacheValid (Machine.run (step algorithms) ⟨chain, .init⟩ operations) :=
    @Machine.run_invariant State Operation (step algorithms) CacheValid
      (fun operation _ valid => cacheValid_step algorithms valid operation) operations _ start
  exact (difficultyWindow_of_valid version valid).1

/-! ## The difficulty of an alternative block -/

/-- A block of an alternative chain: its height, timestamp and cumulative difficulty. -/
structure AltBlock where
  height : Nat
  timestamp : Nat
  cumulativeDifficulty : Nat
deriving DecidableEq, Repr

/-- The timestamp and cumulative difficulty of an alternative block. -/
def AltBlock.record (b : AltBlock) : BlockRecord := ⟨b.timestamp, b.cumulativeDifficulty⟩

/-- `get_next_difficulty_for_alternative_chain(alt_chain, bei)` for a block at `beiHeight`, at
the version `get_ideal_hard_fork_version(bei.height)`. An alternative chain shorter than the
count is completed from the main chain below its front, skipping the genesis block; a longer
one gives its last `count` blocks, which the loop writes from the back of the vectors. The
check that no more than `count` blocks were taken returns `false`, a difficulty of `0`. -/
def nextDifficultyForAlternativeChain (idealVersion : Nat) (main : List BlockRecord)
    (altChain : List AltBlock) (beiHeight : Nat) : Nat :=
  let count := blocksCountFor idealVersion
  if altChain.length < count then
    let mainChainStopOffset := (altChain.head?.map (·.height)).getD beiHeight
    let mainChainCount := min (count - min count altChain.length) mainChainStopOffset
    let mainChainStartOffset := skipGenesis (mainChainStopOffset - mainChainCount)
    let fromMain := vectorsOf ((main.take mainChainStopOffset).drop mainChainStartOffset)
    if count < altChain.length + fromMain.1.length then 0
    else
      let fromAlt := vectorsOf (altChain.map AltBlock.record)
      nextDifficultyFor algorithms idealVersion (fromMain.1 ++ fromAlt.1) (fromMain.2 ++ fromAlt.2)
  else
    let fromAlt := vectorsOf ((altChain.map AltBlock.record).rtake count)
    nextDifficultyFor algorithms idealVersion fromAlt.1 fromAlt.2

/-- The chain that a block on top of an alternative chain extends: the main chain below the
split height, then the alternative blocks. -/
def splice (main : List BlockRecord) (altChain : List AltBlock) (split : Nat) : List BlockRecord :=
  main.take split ++ altChain.map AltBlock.record

theorem splice_length {main : List BlockRecord} {split : Nat} (altChain : List AltBlock)
    (connected : split ≤ main.length) :
    (splice main altChain split).length = split + altChain.length := by
  simp [splice, connected]

/-- The database window of the spliced chain, for an alternative chain shorter than the count:
the main blocks from `max(1, height - count)` to the split, then the alternative blocks. -/
theorem databaseWindow_splice_of_lt {main : List BlockRecord} {altChain : List AltBlock} {split count : Nat}
    (aboveGenesis : 1 ≤ split) (connected : split ≤ main.length) (short : altChain.length < count) :
    databaseWindow (splice main altChain split) count =
      (main.take split).drop (max 1 (split + altChain.length - count)) ++ altChain.map AltBlock.record := by
  unfold databaseWindow
  rw [splice_length altChain connected, windowStart_eq, splice,
    List.drop_append_of_le_length (by simp [connected]; omega)]

/-- The database window of the spliced chain, for an alternative chain at least as long as the
count above a split past the genesis block: the last `count` alternative blocks. -/
theorem databaseWindow_splice_of_le {main : List BlockRecord} {altChain : List AltBlock} {split count : Nat}
    (aboveGenesis : 1 ≤ split) (connected : split ≤ main.length) (long : count ≤ altChain.length) :
    databaseWindow (splice main altChain split) count = (altChain.map AltBlock.record).rtake count := by
  have past : max 1 (split + altChain.length - count) = (main.take split).length + (altChain.length - count) := by
    simp [connected]
    omega
  unfold databaseWindow
  rw [splice_length altChain connected, windowStart_eq, splice, List.rtake, List.length_map, past,
    List.drop_append, List.drop_eq_nil_of_le (by omega), List.nil_append, Nat.add_sub_cancel_left]

/-- The difficulty of a block on an alternative chain that leaves the main chain at `split`
(its front at height `split`, the block at `split + altChain.length`) is what
`get_difficulty_for_next_block` returns at the same hard-fork version with the spliced chain as
the main chain. -/
theorem alternative_difficulty_agrees_with_splice (version : Nat) (main : List BlockRecord)
    (altChain : List AltBlock) (split : Nat) (aboveGenesis : 1 ≤ split) (connected : split ≤ main.length)
    (front : ∀ b ∈ altChain.head?, b.height = split) :
    nextDifficultyForAlternativeChain algorithms version main altChain (split + altChain.length) =
      (getDifficultyForNextBlock algorithms version (splice main altChain split) .init).1 := by
  have nonempty : splice main altChain split ≠ [] := by
    rw [← List.length_pos_iff, splice_length altChain connected]
    omega
  have stop : (altChain.head?.map (·.height)).getD (split + altChain.length) = split := by
    cases head : altChain.head? with
    | none => simp [List.head?_eq_none_iff.mp head]
    | some b => exact front b head
  -- a new cache reads the database window
  have window : (difficultyWindow version (splice main altChain split) .init).1 =
      vectorsOf (databaseWindow (splice main altChain split) (blocksCountFor version)) :=
    (difficultyWindow_of_valid version fun set => absurd rfl set).1
  unfold nextDifficultyForAlternativeChain getDifficultyForNextBlock
  rw [if_neg nonempty]
  dsimp only
  rw [window, stop]
  by_cases short : altChain.length < blocksCountFor version
  -- a short alternative chain is completed from the main chain below its front
  · have start : skipGenesis (split - min (blocksCountFor version - min (blocksCountFor version)
        altChain.length) split) = max 1 (split + altChain.length - blocksCountFor version) := by
      rw [skipGenesis_eq]
      omega
    have fits : ¬blocksCountFor version < altChain.length +
        (vectorsOf ((main.take split).drop (max 1 (split + altChain.length - blocksCountFor version)))).1.length := by
      simp only [vectorsOf, List.length_map, List.length_drop, List.length_take]
      omega
    rw [if_pos short, start, if_neg fits, databaseWindow_splice_of_lt aboveGenesis connected short,
      vectorsOf_append]
  -- a long one gives its last blocks
  · rw [if_neg short, databaseWindow_splice_of_le aboveGenesis connected (by omega)]

theorem alternative_difficulty_agrees_with_splice_at_fork :
    let algorithms : DifficultyAlgorithms := ⟨fun ts _ _ => ts.length, fun _ ds _ => ds.sum,
      fun _ _ target => target⟩
    let main : List BlockRecord := [⟨0, 1⟩, ⟨60, 2⟩, ⟨120, 3⟩]
    let altChain : List AltBlock := [⟨2, 100, 3⟩]
    1 ≤ 2 ∧ 2 ≤ main.length ∧ (∀ b ∈ altChain.head?, b.height = 2) ∧
      nextDifficultyForAlternativeChain algorithms 8 main altChain (2 + altChain.length) =
        (getDifficultyForNextBlock algorithms 8 (splice main altChain 2) .init).1 :=
  ⟨by decide, by decide, by decide,
    alternative_difficulty_agrees_with_splice _ 8 _ _ 2 (by decide) (by decide) (by decide)⟩

/-! ## The timestamp of an alternative block -/

/-- `epee::misc_utils::median`: the middle of the sorted values, or the mean of the two middle
ones (a sum of `uint64_t`), and `0` for no values. -/
def median (values : List Nat) : Nat :=
  match values with
  | [] => 0
  | [value] => value
  | _ =>
    let sorted := values.insertionSort (· ≤ ·)
    let n := values.length / 2
    if values.length % 2 = 1 then sorted.getD n 0
    else (sorted.getD (n - 1) 0 + sorted.getD n 0) % 2 ^ 64 / 2

/-- The window of the timestamp check at a hard-fork version. -/
def timestampCheckWindowFor (version : Nat) : Nat :=
  if version < 9 then blockchainTimestampCheckWindow else blockchainTimestampCheckWindowV9

/-- `check_block_timestamp(timestamps, b, median_ts)`: the block's timestamp is not below the
median of the timestamps. -/
def checkBlockTimestampAgainst (timestamps : List Nat) (timestamp : Nat) : Bool :=
  !decide (timestamp < median timestamps)

/-- `check_block_timestamp(b, median_ts)` for a block on top of `chain` at the current
hard-fork version, with `adjustedTime` the value of `get_adjusted_time()`: not too far in the
future, and, on a chain of at least the window's length, not below the median of its last
window of timestamps. -/
def checkBlockTimestamp (version adjustedTime : Nat) (chain : List BlockRecord) (timestamp : Nat) : Bool :=
  let futureTimeLimit :=
    if version < 9 then cryptonoteBlockFutureTimeLimit else cryptonoteBlockFutureTimeLimitV9
  let window := timestampCheckWindowFor version
  if adjustedTime + futureTimeLimit < timestamp then false
  else if chain.length < window then true
  else checkBlockTimestampAgainst ((chain.drop (chain.length - window)).map (·.timestamp)) timestamp

/-- `complete_timestamps_vector(start_top_height, timestamps)` at the current hard-fork version:
fewer timestamps than the window are completed with the main chain's, from `startTopHeight`
down, stopping above height `start_top_height - need_elements`, or above the genesis block
when that is below it. The check that `startTopHeight` is on the main chain returns `false`,
which the caller does not look at. -/
def completeTimestampsVector (version : Nat) (main : List BlockRecord) (startTopHeight : Nat)
    (timestamps : List Nat) : List Nat :=
  let window := timestampCheckWindowFor version
  if window ≤ timestamps.length then timestamps
  else if ¬startTopHeight < main.length then timestamps
  else
    let needElements := window - timestamps.length
    let stopOffset := if needElements < startTopHeight then startTopHeight - needElements else 0
    -- the loop pushes the heights `startTopHeight`, `startTopHeight - 1`, .., `stopOffset + 1`
    timestamps ++ ((List.range' (stopOffset + 1) (startTopHeight - stopOffset)).reverse.map
      fun height => (main.getD height ⟨0, 0⟩).timestamp)

/-- The timestamp check of `handle_alternative_block` at the main chain's current hard-fork
version, for a block on top of an alternative chain that leaves the main chain above the block
at `parentHeight`: the timestamps of the alternative chain, from its head down, completed from
the main chain. -/
def alternativeBlockTimestampCheck (version : Nat) (main : List BlockRecord) (altChain : List AltBlock)
    (parentHeight timestamp : Nat) : Bool :=
  let timestamps := (altChain.map (·.timestamp)).reverse
  checkBlockTimestampAgainst (completeTimestampsVector version main parentHeight timestamps) timestamp

/-- At version 9 (a window of 11 timestamps), two blocks that the check of the main chain would
accept on the spliced chain, with an adjusted time far enough ahead, and that the check of
`handle_alternative_block` refuses, on chains whose every block passed its check when it was
added. The first leaves a main chain of the genesis block and one block, on one alternative
block of timestamp 50: the spliced chain has two blocks, fewer than the window, so the main chain
has no median to check; `complete_timestamps_vector` stops above the genesis block, and the one
timestamp 50 is the median that timestamp 40 is below. The second is on an alternative chain of
twelve blocks that leaves a main chain of timestamps 0 to 11 above its top, with timestamps 1000,
then 10 to 110 by 10: the last 11 have the median 60, which timestamp 62 is not below, but the
check takes all twelve, whose median is 65. -/
theorem alternative_timestamp_check_differs_from_main :
    let main : List BlockRecord := [⟨0, 1⟩, ⟨100, 2⟩]
    let short : List AltBlock := [⟨1, 50, 2⟩]
    let longMain : List BlockRecord := (List.range 12).map fun h => ⟨h, h + 1⟩
    let long : List AltBlock :=
      ⟨12, 1000, 13⟩ :: (List.range 11).map fun i => ⟨i + 13, 10 * (i + 1), i + 14⟩
    checkBlockTimestamp 9 1000 (main.take 1) 100 = true ∧
      alternativeBlockTimestampCheck 9 main [] 0 50 = true ∧
      (splice main short 1).length < timestampCheckWindowFor 9 ∧
      checkBlockTimestamp 9 1000 (splice main short 1) 40 = true ∧
      alternativeBlockTimestampCheck 9 main short 0 40 = false ∧
      (∀ h ∈ List.range' 1 11,
        checkBlockTimestamp 9 1000 (longMain.take h) (longMain.getD h ⟨0, 0⟩).timestamp = true) ∧
      (∀ k < long.length, alternativeBlockTimestampCheck 9 longMain (long.take k) 11
        (long.getD k ⟨0, 0, 0⟩).timestamp = true) ∧
      timestampCheckWindowFor 9 ≤ (splice longMain long 12).length ∧
      median (((splice longMain long 12).drop ((splice longMain long 12).length - 11)).map
        (·.timestamp)) = 60 ∧
      checkBlockTimestamp 9 1000 (splice longMain long 12) 62 = true ∧
      alternativeBlockTimestampCheck 9 longMain long 11 62 = false := by
  decide +kernel

end GraftNetwork.Core.Difficulty

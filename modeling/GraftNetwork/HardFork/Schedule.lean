import Mathlib.Data.List.GetD
import GraftNetwork.HardFork.Basic

/-!
# Fork schedules

`add_fork` accepts forks in strictly increasing order of version, height and time, and `init`
puts the placeholder `Params(original_version, 0, 0, 0)` in a table that stayed empty. This
module builds the `Schedule` of a list of `add_fork` calls (`Schedule.ofForks`), states the
tables of `Blockchain::init`, and proves the facts about the order that later proofs use:
versions and heights grow with the index, and `stepDown` stops at the fork of a version.
-/

namespace GraftNetwork.HardFork

theorem Params.Before.trans {a b c : Params} (hab : a.Before b) (hbc : b.Before c) :
    a.Before c :=
  ⟨UInt8.lt_trans hab.1 hbc.1, Nat.lt_trans hab.2.1 hbc.2.1, Int.lt_trans hab.2.2 hbc.2.2⟩

/-- In an ordered table every fork is the last one or comes before it. -/
theorem before_getLast {l : List Params} (ordered : l.Pairwise Params.Before) (hl : l ≠ []) :
    ∀ a ∈ l, a = l.getLast hl ∨ a.Before (l.getLast hl) := by
  intro a ha
  rw [← List.dropLast_append_getLast hl] at ordered ha
  rw [List.pairwise_append] at ordered
  rcases List.mem_append.mp ha with hinit | hlast
  · exact Or.inr (ordered.2.2 a hinit _ (List.mem_singleton_self _))
  · exact Or.inl (List.mem_singleton.mp hlast)

theorem addFork_ordered {heights hs : List Params} (ordered : heights.Pairwise Params.Before)
    {version : UInt8} {height : Nat} {threshold : UInt8} {time : Int}
    (added : addFork heights version height threshold time = some hs) :
    hs.Pairwise Params.Before := by
  unfold addFork at added
  dsimp only at added
  split at added
  · contradiction
  · split at added
    · contradiction
    · next follows =>
      split at added
      · contradiction
      · cases added
        rw [List.pairwise_append]
        refine ⟨ordered, List.pairwise_singleton _ _, ?_⟩
        intro a ha p hp
        rw [List.mem_singleton.mp hp]
        have hne : heights ≠ [] := List.ne_nil_of_mem ha
        have lastBefore : (heights.getLast hne).Before ⟨version, threshold, height, time⟩ := by
          rw [List.getLast?_eq_some_getLast hne] at follows
          simpa using follows
        rcases before_getLast ordered hne a ha with rfl | before
        · exact lastBefore
        · exact before.trans lastBefore

theorem addForks_ordered : ∀ {heights : List Params} (forks : List (UInt8 × Nat × UInt8 × Int)),
    heights.Pairwise Params.Before → (addForks heights forks).Pairwise Params.Before
  | _, [], ordered => ordered
  | heights, (v, h, t, time) :: rest, ordered => by
    apply addForks_ordered rest
    cases added : addFork heights v h t time with
    | none => exact ordered
    | some hs => exact addFork_ordered ordered added

/-- The schedule that the constructor `HardFork(db, original_version, ..., window_size)`, the
`add_fork` calls of `forks` and `init` leave. -/
def Schedule.ofForks (originalVersion : UInt8) (windowSize : Nat) (windowSize_pos : 0 < windowSize)
    (forks : List (UInt8 × Nat × UInt8 × Int)) : Schedule :=
  if empty : addForks [] forks = [] then
    ⟨[⟨originalVersion, 0, 0, 0⟩], originalVersion, windowSize, List.cons_ne_nil _ _,
      windowSize_pos, List.pairwise_singleton _ _⟩
  else
    ⟨addForks [] forks, originalVersion, windowSize, empty, windowSize_pos,
      addForks_ordered forks List.Pairwise.nil⟩

/-- `HardFork::DEFAULT_WINDOW_SIZE`, a week of blocks. -/
def defaultWindowSize : Nat := 10080

theorem defaultWindowSize_pos : 0 < defaultWindowSize := by decide

/-- `mainnet_hard_forks` of `blockchain.cpp` as (version, height, threshold, time). -/
def mainnetHardForks : List (UInt8 × Nat × UInt8 × Int) :=
  [(1, 0, 0, 1341378000), (7, 1, 0, 1503046577), (8, 64445, 0, 1523570400),
   (9, 68000, 0, 1524229900), (10, 176000, 0, 1537142400), (11, 207700, 0, 1541005200),
   (12, 299200, 0, 1551934800), (13, 308460, 0, 1553090400), (14, 364590, 0, 1559833200),
   (15, 365310, 0, 1559919600), (16, 412780, 0, 1565622000), (17, 936150, 0, 1629288000)]

/-- The schedule of a mainnet node: `HardFork(*db, 1, mainnet_hard_fork_version_1_till)` with
the default window, then `mainnet_hard_forks`. -/
def mainnetSchedule : Schedule := Schedule.ofForks 1 defaultWindowSize defaultWindowSize_pos mainnetHardForks

namespace Schedule

variable (sch : Schedule)

theorem fork_eq_getElem {i : Nat} (hi : i < sch.size) : sch.fork i = sch.heights[i] :=
  List.getD_eq_getElem _ _ hi

theorem fork_before {i j : Nat} (hij : i < j) (hj : j < sch.size) :
    (sch.fork i).Before (sch.fork j) := by
  rw [sch.fork_eq_getElem (Nat.lt_trans hij hj), sch.fork_eq_getElem hj]
  exact List.pairwise_iff_getElem.mp sch.ordered i j _ hj hij

theorem version_lt {i j : Nat} (hij : i < j) (hj : j < sch.size) :
    (sch.fork i).version < (sch.fork j).version :=
  (sch.fork_before hij hj).1

theorem height_lt {i j : Nat} (hij : i < j) (hj : j < sch.size) :
    (sch.fork i).height < (sch.fork j).height :=
  (sch.fork_before hij hj).2.1

/-- Stepping down from `i` stops at `j` when every fork strictly between has a newer version
than `startVersion` and `j` is the first fork or not newer. -/
theorem stepDown_eq {startVersion : UInt8} {j : Nat} :
    ∀ (i : Nat) (hi : i < sch.size), j ≤ i →
      (∀ k, j < k → k ≤ i → startVersion < (sch.fork k).version) →
      (j = 0 ∨ ¬startVersion < (sch.fork j).version) →
      (sch.stepDown startVersion i hi : Nat) = j
  | 0, _, hj, _, _ => by simp [stepDown]; omega
  | i + 1, hi, hj, above, stops => by
    simp only [stepDown]
    rcases Nat.lt_or_ge j (i + 1) with lt | ge
    · rw [if_pos (above (i + 1) lt (Nat.le_refl _))]
      exact stepDown_eq i _ (by omega) (fun k hk hki => above k hk (by omega)) stops
    · have eq : j = i + 1 := by omega
      subst eq
      rcases stops with zero | notNewer
      · omega
      · rw [if_neg notNewer]

/-- Stepping down from `i` to the version of fork `j ≤ i` stops at `j`. -/
theorem stepDown_version {i j : Nat} (hi : i < sch.size) (hj : j ≤ i) :
    (sch.stepDown (sch.fork j).version i hi : Nat) = j :=
  sch.stepDown_eq i hi hj (fun k hk hki => sch.version_lt hk (by omega))
    (Or.inr (UInt8.lt_irrefl _))

/-- Stepping down to a version not above the first fork's stops at the first fork. -/
theorem stepDown_first {startVersion : UInt8} (start_le : startVersion ≤ (sch.fork 0).version)
    (i : Nat) (hi : i < sch.size) : (sch.stepDown startVersion i hi : Nat) = 0 := by
  apply sch.stepDown_eq i hi (Nat.zero_le _) _ (Or.inl rfl)
  intro k hk hki
  have newer := sch.version_lt hk (by omega)
  rw [UInt8.lt_iff_toNat_lt] at newer ⊢
  rw [UInt8.le_iff_toNat_le] at start_le
  omega

end Schedule

end GraftNetwork.HardFork

import Mathlib.Algebra.GroupWithZero.Nat
import GraftNetwork.Lib.Aggregate
import GraftNetwork.Stake.Cache

/-!
# The stakes that `update_supernode_stakes` builds

The loop of `update_supernode_stakes(b)` keeps one entry per supernode and folds each stake
transaction into it. A transaction not valid at `b` is skipped when it ended before the history
window, and otherwise only makes a zero entry for a supernode that has none. A valid one takes
over a zero entry, or is added to the amount of the entry, whose validity becomes the
intersection of the two intervals, an empty intersection clamped to length zero.

This module proves that the loop computes the aggregation in closed form, `referenceStake`:
over the transactions `V` of the supernode that are valid at `b`, the sum of the amounts, the
latest first block of validity and the earliest end of validity.

* `StakeTransaction.inHistory`: the transactions that the loop does not skip.
* `referenceStake_concat_valid`: a valid transaction is folded into the closed form of the
  transactions before it by `SupernodeStake.accumulate`. The running intersection stays equal
  to the closed form only because an empty one is clamped at its lower end.
* `Aggregates`: the loop invariant, one entry for each supernode seen so far and each entry the
  closed form over the transactions read so far; `Aggregates.stakeStep` is one round.
* `buildStakes_eq_reference`: the stakes that `update_supernode_stakes(b)` builds, their index
  map, and that neither depends on the order of the transactions.
-/

namespace GraftNetwork.Stake

variable {H : Type}

/-- `a - b` on `uint64_t` is the difference when it does not wrap. -/
theorem sub64_of_le {a b : Nat} (le : b ≤ a) (lt : a < 2 ^ 64) : sub64 a b = a - b := by
  unfold sub64
  omega

/-- `a + b` on `uint64_t` is the sum when it fits. -/
theorem add64_of_lt {a b : Nat} (fits : a + b < 2 ^ 64) : add64 a b = a + b :=
  Nat.mod_eq_of_lt fits

/-! The sums of heights that `update_supernode_stakes` takes of a transaction whose end of
validity fits do not wrap. -/

namespace StakeTransaction.HeightsFit

variable {tx : StakeTransaction H}

theorem ended (fits : tx.HeightsFit) :
    add64 tx.blockHeight tx.unlockTime = tx.blockHeight + tx.unlockTime :=
  add64_of_lt (by unfold StakeTransaction.HeightsFit at fits; omega)

theorem lastValid (fits : tx.HeightsFit) :
    add64 (tx.blockHeight + tx.unlockTime) trustedRestakingPeriod =
      tx.blockHeight + tx.unlockTime + trustedRestakingPeriod :=
  add64_of_lt fits

theorem firstValid (fits : tx.HeightsFit) :
    add64 tx.blockHeight stakeValidationPeriod = tx.blockHeight + stakeValidationPeriod :=
  add64_of_lt (by
    unfold StakeTransaction.HeightsFit trustedRestakingPeriod at fits
    unfold stakeValidationPeriod
    omega)

theorem validity (fits : tx.HeightsFit) :
    sub64 (tx.blockHeight + tx.unlockTime + trustedRestakingPeriod)
        (tx.blockHeight + stakeValidationPeriod) =
      tx.blockHeight + tx.unlockTime + trustedRestakingPeriod -
        (tx.blockHeight + stakeValidationPeriod) :=
  sub64_of_le (by unfold stakeValidationPeriod trustedRestakingPeriod; omega) fits

end StakeTransaction.HeightsFit

namespace StakeTransaction

/-- The transactions that the loop of `update_supernode_stakes(block_number)` reads: those valid
at the block, and those that ended no earlier than `first_history_block`. -/
def inHistory (tx : StakeTransaction H) (blockNumber : Nat) : Prop :=
  tx.isValid blockNumber = true ∨
    sub64 blockNumber supernodeHistorySize ≤ tx.blockHeight + tx.unlockTime

theorem inHistory_of_isValid {tx : StakeTransaction H} {blockNumber : Nat}
    (valid : tx.isValid blockNumber = true) : tx.inHistory blockNumber :=
  Or.inl valid

/-- The condition under which the loop skips a transaction is the negation of `inHistory`. -/
theorem not_inHistory_iff (tx : StakeTransaction H) (blockNumber : Nat) :
    ¬ tx.inHistory blockNumber ↔ ((!tx.isValid blockNumber) = true ∧
      tx.blockHeight + tx.unlockTime < sub64 blockNumber supernodeHistorySize) := by
  unfold inHistory
  cases tx.isValid blockNumber <;> simp

end StakeTransaction

/-! ## The closed form -/

/-- The transactions of a supernode that are valid at the block number, in order. -/
def validStakeTxs (stakeTxs : List (StakeTransaction H)) (blockNumber : Nat) (id : String) :
    List (StakeTransaction H) :=
  stakeTxs.filter fun tx => tx.supernodePublicId == id && tx.isValid blockNumber

/-- The stake of a supernode in closed form. Over its transactions `V` valid at the block
number: the sum of their amounts and its tier, the latest first block of validity
(`block_height + STAKE_VALIDATION_PERIOD`) and, as the unlock time, how far the earliest end of
validity (`block_height + unlock_time + TRUSTED_RESTAKING_PERIOD`) lies after it, zero when it
does not. A supernode with no valid transaction has a zero stake. -/
def referenceStake (stakeTxs : List (StakeTransaction H)) (blockNumber : Nat) (id : String) :
    SupernodeStake :=
  let valid := validStakeTxs stakeTxs blockNumber id
  match (valid.map fun tx => tx.blockHeight + stakeValidationPeriod).max?,
      (valid.map fun tx => tx.blockHeight + tx.unlockTime + trustedRestakingPeriod).min? with
  | some blockHeight, some lastBlock =>
    let amount := (valid.map StakeTransaction.amount).sum
    ⟨amount, getTier amount, blockHeight, lastBlock - blockHeight, id⟩
  | _, _ => ⟨0, 0, 0, 0, id⟩

variable {done : List (StakeTransaction H)} {tx : StakeTransaction H} {blockNumber : Nat}
  {id : String}

@[simp] theorem referenceStake_supernodePublicId (stakeTxs : List (StakeTransaction H))
    (blockNumber : Nat) (id : String) :
    (referenceStake stakeTxs blockNumber id).supernodePublicId = id := by
  dsimp only [referenceStake]
  split <;> rfl

theorem referenceStake_of_nil (none : validStakeTxs done blockNumber id = []) :
    referenceStake done blockNumber id = ⟨0, 0, 0, 0, id⟩ := by
  simp [referenceStake, none]

theorem referenceStake_of_bounds {first last : Nat}
    (latest : ((validStakeTxs done blockNumber id).map fun tx =>
      tx.blockHeight + stakeValidationPeriod).max? = some first)
    (earliest : ((validStakeTxs done blockNumber id).map fun tx =>
      tx.blockHeight + tx.unlockTime + trustedRestakingPeriod).min? = some last) :
    referenceStake done blockNumber id =
      ⟨((validStakeTxs done blockNumber id).map StakeTransaction.amount).sum,
        getTier ((validStakeTxs done blockNumber id).map StakeTransaction.amount).sum, first,
        last - first, id⟩ := by
  simp only [referenceStake, latest, earliest]

theorem validStakeTxs_concat_of_valid (valid : tx.isValid blockNumber = true) :
    validStakeTxs (done ++ [tx]) blockNumber tx.supernodePublicId =
      validStakeTxs done blockNumber tx.supernodePublicId ++ [tx] := by
  simp [validStakeTxs, List.filter_append, valid]

theorem validStakeTxs_concat_of_not
    (other : ¬ (tx.supernodePublicId = id ∧ tx.isValid blockNumber = true)) :
    validStakeTxs (done ++ [tx]) blockNumber id = validStakeTxs done blockNumber id := by
  have skipped : (tx.supernodePublicId == id && tx.isValid blockNumber) = false := by
    simpa using other
  simp [validStakeTxs, List.filter_append, skipped]

/-- The valid amounts of a prefix sum to at most those of the whole list. -/
theorem sum_validStakeTxs_le_append (l₁ l₂ : List (StakeTransaction H)) (blockNumber : Nat)
    (id : String) :
    ((validStakeTxs l₁ blockNumber id).map StakeTransaction.amount).sum ≤
      ((validStakeTxs (l₁ ++ l₂) blockNumber id).map StakeTransaction.amount).sum := by
  rw [validStakeTxs, validStakeTxs, List.filter_append, List.map_append, List.sum_append]
  exact Nat.le_add_right _ _

/-- The interval of the closed form over transactions whose ends of validity fit a `uint64_t`
ends below `2 ^ 64`: its start is one transaction's and its end another's. -/
theorem bounds_lt_of_heightsFit {valid : List (StakeTransaction H)}
    (heights : ∀ t ∈ valid, t.HeightsFit) {first last : Nat}
    (latest : (valid.map fun tx => tx.blockHeight + stakeValidationPeriod).max? = some first)
    (earliest : (valid.map fun tx =>
      tx.blockHeight + tx.unlockTime + trustedRestakingPeriod).min? = some last) :
    first + (last - first) < 2 ^ 64 := by
  obtain ⟨t, mem, rfl⟩ := List.mem_map.mp (List.max?_mem latest)
  obtain ⟨t', mem', rfl⟩ := List.mem_map.mp (List.min?_mem earliest)
  have fits := heights t mem
  have fits' := heights t' mem'
  unfold StakeTransaction.HeightsFit trustedRestakingPeriod at fits fits'
  unfold stakeValidationPeriod trustedRestakingPeriod
  omega

/-- A transaction of another supernode, or one not valid at the block, leaves the closed form
as it was. -/
theorem referenceStake_concat_of_not
    (other : ¬ (tx.supernodePublicId = id ∧ tx.isValid blockNumber = true)) :
    referenceStake (done ++ [tx]) blockNumber id = referenceStake done blockNumber id := by
  simp only [referenceStake, validStakeTxs_concat_of_not other]

/-- The bounds of the running intersection: its lower end is the latest start `first'`, its
upper end the clamp at that start of the earlier end `first + (last - first)` met with the new
end. The length is that of the closed form, `min last lastTx - first'`, because a start that
passed the earlier end leaves no room under either. -/
theorem clamped_length (first last firstTx lastTx : Nat) :
    let first' := max first firstTx
    let last' := min (first + (last - first)) lastTx
    (if last' ≤ first' then first' else last') - first' = min last lastTx - first' := by
  intro first' last'
  split <;> omega

/-- A valid transaction is folded into the closed form of the transactions before it by
`SupernodeStake.accumulate`: a zero stake takes its fields, and a non-zero one adds its amount
and meets the intervals. The amounts are positive, so a supernode with valid transactions
never has a zero stake; the sums of `uint64_t` are those of the closed form while the amounts
and the heights fit. -/
theorem referenceStake_concat_valid (positive : ∀ t ∈ done, 0 < t.amount)
    (heights : ∀ t ∈ done ++ [tx], t.HeightsFit)
    (amounts : ((validStakeTxs (done ++ [tx]) blockNumber tx.supernodePublicId).map
      StakeTransaction.amount).sum < 2 ^ 64)
    (valid : tx.isValid blockNumber = true) :
    referenceStake (done ++ [tx]) blockNumber tx.supernodePublicId =
      (referenceStake done blockNumber tx.supernodePublicId).accumulate tx.amount
        (tx.blockHeight + stakeValidationPeriod)
        (tx.blockHeight + tx.unlockTime + trustedRestakingPeriod) := by
  have concat : validStakeTxs (done ++ [tx]) blockNumber tx.supernodePublicId =
      validStakeTxs done blockNumber tx.supernodePublicId ++ [tx] :=
    validStakeTxs_concat_of_valid valid
  cases before : validStakeTxs done blockNumber tx.supernodePublicId with
  | nil =>
    -- the first valid transaction of the supernode
    rw [referenceStake_of_nil before]
    rw [before, List.nil_append] at concat
    have latestNew : ((validStakeTxs (done ++ [tx]) blockNumber tx.supernodePublicId).map
        fun tx => tx.blockHeight + stakeValidationPeriod).max? =
          some (tx.blockHeight + stakeValidationPeriod) := by
      rw [concat]
      rfl
    have earliestNew : ((validStakeTxs (done ++ [tx]) blockNumber tx.supernodePublicId).map
        fun tx => tx.blockHeight + tx.unlockTime + trustedRestakingPeriod).min? =
          some (tx.blockHeight + tx.unlockTime + trustedRestakingPeriod) := by
      rw [concat]
      rfl
    rw [referenceStake_of_bounds latestNew earliestNew, concat]
    simp [SupernodeStake.accumulate,
      (heights tx (List.mem_append_right _ List.mem_cons_self)).validity]
  | cons t rest =>
    obtain ⟨first, latest⟩ : ∃ first, ((t :: rest).map fun tx =>
        tx.blockHeight + stakeValidationPeriod).max? = some first := ⟨_, List.max?_cons'⟩
    obtain ⟨last, earliest⟩ : ∃ last, ((t :: rest).map fun tx =>
        tx.blockHeight + tx.unlockTime + trustedRestakingPeriod).min? = some last :=
      ⟨_, List.min?_cons'⟩
    have nonzero : ((t :: rest).map StakeTransaction.amount).sum ≠ 0 := by
      have mem : t ∈ validStakeTxs done blockNumber tx.supernodePublicId := by
        rw [before]
        exact List.mem_cons_self
      have counted := positive t (List.mem_of_mem_filter mem)
      rw [List.map_cons, List.sum_cons]
      omega
    rw [before] at concat
    -- the bounds before the transaction, and after it
    have latestOld : ((validStakeTxs done blockNumber tx.supernodePublicId).map fun tx =>
        tx.blockHeight + stakeValidationPeriod).max? = some first := by
      rw [before]
      exact latest
    have earliestOld : ((validStakeTxs done blockNumber tx.supernodePublicId).map fun tx =>
        tx.blockHeight + tx.unlockTime + trustedRestakingPeriod).min? = some last := by
      rw [before]
      exact earliest
    have latestNew : ((validStakeTxs (done ++ [tx]) blockNumber tx.supernodePublicId).map
        fun tx => tx.blockHeight + stakeValidationPeriod).max? =
          some (max first (tx.blockHeight + stakeValidationPeriod)) := by
      rw [concat, List.map_append]
      exact List.max?_concat latest _
    have earliestNew : ((validStakeTxs (done ++ [tx]) blockNumber tx.supernodePublicId).map
        fun tx => tx.blockHeight + tx.unlockTime + trustedRestakingPeriod).min? =
          some (min last (tx.blockHeight + tx.unlockTime + trustedRestakingPeriod)) := by
      rw [concat, List.map_append]
      exact List.min?_concat earliest _
    -- neither the sum of the amounts nor the end of the interval wraps
    have summed : add64 ((t :: rest).map StakeTransaction.amount).sum tx.amount =
        ((t :: rest).map StakeTransaction.amount).sum + tx.amount := by
      rw [concat, List.map_append, List.sum_append, List.map_singleton,
        List.sum_singleton] at amounts
      exact add64_of_lt amounts
    have ended : add64 first (last - first) = first + (last - first) :=
      add64_of_lt (bounds_lt_of_heightsFit
        (fun t mem => heights t (List.mem_append_left _ (List.mem_of_mem_filter (before ▸ mem))))
        latest earliest)
    rw [referenceStake_of_bounds latestNew earliestNew,
      referenceStake_of_bounds latestOld earliestOld, concat, before]
    unfold SupernodeStake.accumulate
    rw [if_neg nonzero, summed, ended]
    simp only [List.map_append, List.map_singleton, List.sum_append, List.sum_singleton,
      SupernodeStake.mk.injEq, true_and, and_true]
    exact (clamped_length first last _ _).symm

theorem referenceStake_perm {l₁ l₂ : List (StakeTransaction H)} (p : l₁.Perm l₂)
    (blockNumber : Nat) (id : String) :
    referenceStake l₁ blockNumber id = referenceStake l₂ blockNumber id := by
  have valid := p.filter fun tx => tx.supernodePublicId == id && tx.isValid blockNumber
  simp only [referenceStake, validStakeTxs]
  rw [(valid.map _).max?_eq, (valid.map _).min?_eq, (valid.map _).sum_nat]

/-! ## The loop invariant -/

namespace StakeCache.Consistent

variable {cache : StakeCache}

theorem indexes_eq_some_iff (consistent : cache.Consistent) (id : String) (k : Nat) :
    cache.indexes id = some k ↔ cache.ids[k]? = some id := by
  rw [consistent.indexes_eq]
  exact List.findIdx?_beq_eq_some_iff consistent.nodup id k

theorem indexes_eq_none_iff (consistent : cache.Consistent) (id : String) :
    cache.indexes id = none ↔ id ∉ cache.ids := by
  rw [consistent.indexes_eq, List.findIdx?_eq_none_iff]
  exact ⟨fun other mem => by simpa using other id mem,
    fun absent x mem => beq_eq_false_iff_ne.mpr fun same => absent (same ▸ mem)⟩

end StakeCache.Consistent

/-- The invariant of the loop of `update_supernode_stakes(b)` after the transactions `done`:
an entry for exactly the supernodes with a transaction read so far, and each entry the closed
form over `done`. -/
structure Aggregates (done : List (StakeTransaction H)) (blockNumber : Nat) (cache : StakeCache) :
    Prop where
  mem_ids : ∀ id, id ∈ cache.ids ↔
    ∃ tx ∈ done, tx.supernodePublicId = id ∧ tx.inHistory blockNumber
  stakes_eq : cache.stakes = cache.ids.map (referenceStake done blockNumber)

theorem aggregates_empty (blockNumber : Nat) :
    Aggregates ([] : List (StakeTransaction H)) blockNumber StakeCache.empty :=
  ⟨fun id => by simp [StakeCache.ids, StakeCache.empty], rfl⟩

namespace Aggregates

variable {cache : StakeCache}

/-- A transaction of a supernode that has an entry already, or one the loop skips, leaves the
set of supernodes as it was. -/
theorem mem_ids_concat (agg : Aggregates done blockNumber cache)
    (seen : tx.inHistory blockNumber → tx.supernodePublicId ∈ cache.ids) (id : String) :
    id ∈ cache.ids ↔ ∃ t ∈ done ++ [tx], t.supernodePublicId = id ∧ t.inHistory blockNumber := by
  rw [agg.mem_ids]
  constructor
  · rintro ⟨t, mem, same, counted⟩
    exact ⟨t, List.mem_append_left _ mem, same, counted⟩
  · rintro ⟨t, mem, same, counted⟩
    rcases List.mem_append.mp mem with before | last
    · exact ⟨t, before, same, counted⟩
    · rw [List.mem_singleton.mp last] at same counted
      exact (agg.mem_ids id).mp (same ▸ seen counted)

/-- A transaction not valid at the block leaves every closed form as it was. -/
theorem stakes_eq_concat_of_invalid (agg : Aggregates done blockNumber cache)
    (invalid : tx.isValid blockNumber = false) :
    cache.stakes = cache.ids.map (referenceStake (done ++ [tx]) blockNumber) := by
  rw [agg.stakes_eq]
  refine List.map_congr_left fun id _ => ?_
  exact (referenceStake_concat_of_not (by simp [invalid])).symm

/-- A supernode without an entry has no valid transaction so far. -/
theorem validStakeTxs_eq_nil (agg : Aggregates done blockNumber cache) (fresh : id ∉ cache.ids) :
    validStakeTxs done blockNumber id = [] := by
  rw [validStakeTxs, List.filter_eq_nil_iff]
  intro t mem selected
  simp only [Bool.and_eq_true, beq_iff_eq] at selected
  exact fresh ((agg.mem_ids id).mpr ⟨t, mem, selected.1, .inl selected.2⟩)

/-- A counted transaction of a supernode without an entry: the entry appended for it, the
closed form over the transactions with this one, keeps the invariant. -/
theorem concat_new (agg : Aggregates done blockNumber cache) (counted : tx.inHistory blockNumber)
    (fresh : tx.supernodePublicId ∉ cache.ids) :
    Aggregates (done ++ [tx]) blockNumber
      ⟨cache.stakes ++ [referenceStake (done ++ [tx]) blockNumber tx.supernodePublicId],
        Function.update cache.indexes tx.supernodePublicId (some cache.stakes.length)⟩ := by
  have ids : (StakeCache.mk (cache.stakes ++ [referenceStake (done ++ [tx]) blockNumber
      tx.supernodePublicId]) (Function.update cache.indexes tx.supernodePublicId
        (some cache.stakes.length))).ids = cache.ids ++ [tx.supernodePublicId] := by
    simp [StakeCache.ids]
  constructor
  · intro id
    rw [ids, List.mem_append, List.mem_singleton]
    constructor
    · rintro (old | rfl)
      · obtain ⟨t, mem, same, inside⟩ := (agg.mem_ids id).mp old
        exact ⟨t, List.mem_append_left _ mem, same, inside⟩
      · exact ⟨tx, List.mem_append_right _ List.mem_cons_self, rfl, counted⟩
    · rintro ⟨t, mem, same, inside⟩
      rcases List.mem_append.mp mem with before | last
      · exact .inl ((agg.mem_ids id).mpr ⟨t, before, same, inside⟩)
      · exact .inr (same ▸ (List.mem_singleton.mp last ▸ rfl))
  · change _ ++ _ = _
    rw [ids, List.map_append, List.map_singleton, agg.stakes_eq]
    congr 1
    refine List.map_congr_left fun id mem => ?_
    have other : tx.supernodePublicId ≠ id := fun same => fresh (same ▸ mem)
    exact (referenceStake_concat_of_not fun both => other both.1).symm

/-- A valid transaction of the supernode of entry `k`, folded into that entry: the entry
becomes the closed form with the transaction, and every other entry, another supernode's,
stays as it was. -/
theorem concat_known (agg : Aggregates done blockNumber cache) (consistent : cache.Consistent)
    {k : Nat} (present : cache.indexes tx.supernodePublicId = some k)
    (folded : referenceStake (done ++ [tx]) blockNumber tx.supernodePublicId =
      (referenceStake done blockNumber tx.supernodePublicId).accumulate tx.amount
        (tx.blockHeight + stakeValidationPeriod)
        (tx.blockHeight + tx.unlockTime + trustedRestakingPeriod)) :
    Aggregates (done ++ [tx]) blockNumber
      ⟨cache.stakes.modify k fun stake => stake.accumulate tx.amount
          (tx.blockHeight + stakeValidationPeriod)
          (tx.blockHeight + tx.unlockTime + trustedRestakingPeriod), cache.indexes⟩ := by
  have at_k := (consistent.indexes_eq_some_iff _ _).mp present
  have seen : tx.supernodePublicId ∈ cache.ids := List.mem_of_getElem? at_k
  have same_ids : (cache.stakes.modify k fun stake =>
      stake.accumulate tx.amount (tx.blockHeight + stakeValidationPeriod)
        (tx.blockHeight + tx.unlockTime + trustedRestakingPeriod)).map
      SupernodeStake.supernodePublicId = cache.ids :=
    map_modify_of_preserves (fun stake => stake.accumulate_supernodePublicId _ _ _) _ _
  refine ⟨fun id => ?_, ?_⟩
  · change id ∈ List.map _ _ ↔ _
    rw [same_ids]
    exact agg.mem_ids_concat (fun _ => seen) id
  · change _ = List.map _ (List.map _ _)
    rw [same_ids, agg.stakes_eq]
    -- entry `k` is the supernode's, and every other entry is another supernode's
    apply List.modify_map_eq_map
    · intro hk
      rw [List.getElem?_eq_some_iff] at at_k
      obtain ⟨_, this⟩ := at_k
      rw [this]
      exact folded.symm
    · intro j hj off
      have other : cache.ids[j] ≠ tx.supernodePublicId := by
        intro same
        have again : cache.ids[j]? = some tx.supernodePublicId := by
          rw [List.getElem?_eq_getElem hj, same]
        have found := (consistent.indexes_eq_some_iff _ _).mpr again
        exact off (Option.some.inj (found.symm.trans present))
      exact (referenceStake_concat_of_not fun both => other both.1.symm).symm

/-- One round of the loop keeps the invariant. The four cases are those of the loop body: a
skipped transaction, a new supernode, an obsolete stake of a known supernode, and a valid
stake folded into its entry. -/
theorem stakeStep (agg : Aggregates done blockNumber cache) (consistent : cache.Consistent)
    (positive : ∀ t ∈ done, 0 < t.amount) (tx : StakeTransaction H)
    (heights : ∀ t ∈ done ++ [tx], t.HeightsFit)
    (amounts : ∀ id, ((validStakeTxs (done ++ [tx]) blockNumber id).map
      StakeTransaction.amount).sum < 2 ^ 64) :
    Aggregates (done ++ [tx]) blockNumber (GraftNetwork.Stake.stakeStep blockNumber cache tx) := by
  have fits := heights tx (List.mem_append_right _ List.mem_cons_self)
  unfold GraftNetwork.Stake.stakeStep
  dsimp only
  -- the sums of heights of the transaction do not wrap
  rw [fits.ended, fits.lastValid, fits.firstValid, fits.validity]
  split
  · next skipped =>
    have outside := (tx.not_inHistory_iff blockNumber).mpr skipped
    have invalid : tx.isValid blockNumber = false := by simpa using skipped.1
    exact ⟨agg.mem_ids_concat (fun counted => absurd counted outside),
      agg.stakes_eq_concat_of_invalid invalid⟩
  · have counted : tx.inHistory blockNumber := by
      rw [← not_not (a := tx.inHistory blockNumber), tx.not_inHistory_iff]
      assumption
    split
    · next absent =>
      have fresh := (consistent.indexes_eq_none_iff _).mp absent
      have none := agg.validStakeTxs_eq_nil fresh
      -- the new entry is the closed form over the transactions with this one
      have newStake : (if (!tx.isValid blockNumber) = true then
            (⟨0, 0, 0, 0, tx.supernodePublicId⟩ : SupernodeStake)
          else ⟨tx.amount, getTier tx.amount, tx.blockHeight + stakeValidationPeriod,
            tx.blockHeight + tx.unlockTime + trustedRestakingPeriod -
              (tx.blockHeight + stakeValidationPeriod), tx.supernodePublicId⟩) =
          referenceStake (done ++ [tx]) blockNumber tx.supernodePublicId := by
        cases valid : tx.isValid blockNumber with
        | false =>
          rw [referenceStake_concat_of_not (by simp [valid]), referenceStake_of_nil none]
          rfl
        | true =>
          rw [referenceStake_concat_valid positive heights (amounts _) valid,
            referenceStake_of_nil none]
          simp [SupernodeStake.accumulate, fits.validity]
      rw [newStake]
      exact agg.concat_new counted fresh
    · next k present =>
      split
      · next obsolete =>
        have seen : tx.supernodePublicId ∈ cache.ids :=
          List.mem_of_getElem? ((consistent.indexes_eq_some_iff _ _).mp present)
        have invalid : tx.isValid blockNumber = false := by simpa using obsolete
        exact ⟨agg.mem_ids_concat fun _ => seen, agg.stakes_eq_concat_of_invalid invalid⟩
      · next fresh =>
        have valid : tx.isValid blockNumber = true := by simpa using fresh
        exact agg.concat_known consistent present
          (referenceStake_concat_valid positive heights (amounts _) valid)

theorem foldl_stakeStep (blockNumber : Nat) :
    ∀ (rest : List (StakeTransaction H)) {done : List (StakeTransaction H)} {cache : StakeCache},
      Aggregates done blockNumber cache → cache.Consistent →
      (∀ t ∈ done ++ rest, 0 < t.amount) → (∀ t ∈ done ++ rest, t.HeightsFit) →
      (∀ id, ((validStakeTxs (done ++ rest) blockNumber id).map
        StakeTransaction.amount).sum < 2 ^ 64) →
      Aggregates (done ++ rest) blockNumber
        (rest.foldl (GraftNetwork.Stake.stakeStep blockNumber) cache)
  | [], done, _, agg, _, _, _, _ => by simpa using agg
  | tx :: rest, done, cache, agg, consistent, positive, heights, amounts => by
    have split : done ++ tx :: rest = done ++ [tx] ++ rest := by simp
    rw [split] at positive heights amounts ⊢
    -- the transactions read so far are a prefix: their valid amounts sum to no more
    have next := agg.stakeStep consistent
      (fun t mem => positive t (List.mem_append_left _ (List.mem_append_left _ mem))) tx
      (fun t mem => heights t (List.mem_append_left _ mem))
      (fun id => Nat.lt_of_le_of_lt (sum_validStakeTxs_le_append _ rest blockNumber id)
        (amounts id))
    exact foldl_stakeStep blockNumber rest next (consistent.stakeStep blockNumber tx)
      positive heights amounts

/-- Over a consistent cache, `find_supernode_stake` returns the closed form of exactly the
supernodes that have an entry. -/
theorem lookup_eq (agg : Aggregates done blockNumber cache) (consistent : cache.Consistent)
    (id : String) :
    cache.lookup id =
      if id ∈ cache.ids then some (referenceStake done blockNumber id) else none := by
  rw [consistent.lookup_eq, agg.stakes_eq, List.find?_map]
  split
  · next mem =>
    obtain ⟨a, found⟩ : ∃ a, cache.ids.find? ((fun stake : SupernodeStake =>
        stake.supernodePublicId == id) ∘ referenceStake done blockNumber) = some a :=
      Option.isSome_iff_exists.mp (List.find?_isSome.mpr ⟨id, mem, by simp⟩)
    have same := List.find?_some found
    simp only [Function.comp_apply, referenceStake_supernodePublicId, beq_iff_eq] at same
    rw [found, same]
    rfl
  · next absent =>
    rw [List.find?_eq_none.mpr]
    · rfl
    · intro id' mem same
      simp only [Function.comp_apply, referenceStake_supernodePublicId, beq_iff_eq] at same
      exact absent (same ▸ mem)

end Aggregates


theorem aggregates_buildStakes {stakeTxs : List (StakeTransaction H)} {blockNumber : Nat}
    (positive : ∀ tx ∈ stakeTxs, 0 < tx.amount) (heights : ∀ tx ∈ stakeTxs, tx.HeightsFit)
    (amounts : ∀ id, ((validStakeTxs stakeTxs blockNumber id).map
      StakeTransaction.amount).sum < 2 ^ 64) :
    Aggregates stakeTxs blockNumber (buildStakes stakeTxs blockNumber) := by
  have built := Aggregates.foldl_stakeStep blockNumber stakeTxs (aggregates_empty blockNumber)
    StakeCache.consistent_empty (by simpa using positive) (by simpa using heights)
    (by simpa using amounts)
  rw [List.nil_append] at built
  exact built

/-- A supernode with no transaction has no valid amount: a bound on the valid amounts of the
supernodes of the transactions bounds those of every supernode. -/
theorem sum_validStakeTxs_lt {stakeTxs : List (StakeTransaction H)} {blockNumber : Nat}
    (amounts : ∀ id ∈ stakeTxs.map StakeTransaction.supernodePublicId,
      ((validStakeTxs stakeTxs blockNumber id).map StakeTransaction.amount).sum < 2 ^ 64)
    (id : String) :
    ((validStakeTxs stakeTxs blockNumber id).map StakeTransaction.amount).sum < 2 ^ 64 := by
  by_cases mem : id ∈ stakeTxs.map StakeTransaction.supernodePublicId
  · exact amounts id mem
  · have none : validStakeTxs stakeTxs blockNumber id = [] := by
      rw [validStakeTxs, List.filter_eq_nil_iff]
      intro t present selected
      simp only [Bool.and_eq_true, beq_iff_eq] at selected
      exact mem (List.mem_map.mpr ⟨t, present, selected.1⟩)
    rw [none]
    exact Nat.two_pow_pos 64

/-- `update_supernode_stakes(b)` builds an entry for exactly the supernodes with a transaction
valid at `b` or ended inside the history window, one each, with the index map holding each
entry's position, and each entry the closed form over the supernode's valid transactions. The
stake that `find_supernode_stake` returns does not depend on the order of the transactions.
This holds while the `uint64_t` sums do not wrap: each transaction's end of validity, and the
valid amounts of each supernode together, stay below `2 ^ 64`. -/
theorem buildStakes_eq_reference (stakeTxs : List (StakeTransaction H)) (blockNumber : Nat)
    (positive : ∀ tx ∈ stakeTxs, 0 < tx.amount) (heights : ∀ tx ∈ stakeTxs, tx.HeightsFit)
    (amounts : ∀ id ∈ stakeTxs.map StakeTransaction.supernodePublicId,
      ((validStakeTxs stakeTxs blockNumber id).map StakeTransaction.amount).sum < 2 ^ 64)
    (history : supernodeHistorySize ≤ blockNumber) (uint64 : blockNumber < 2 ^ 64) :
    let cache := buildStakes stakeTxs blockNumber
    (∀ id, id ∈ cache.ids ↔ ∃ tx ∈ stakeTxs, tx.supernodePublicId = id ∧
      (tx.isValid blockNumber = true ∨
        blockNumber - supernodeHistorySize ≤ tx.blockHeight + tx.unlockTime)) ∧
    cache.ids.Nodup ∧
    (∀ id k, cache.indexes id = some k ↔ cache.ids[k]? = some id) ∧
    cache.stakes = cache.ids.map (referenceStake stakeTxs blockNumber) ∧
    ∀ other : List (StakeTransaction H), other.Perm stakeTxs → ∀ id,
      (buildStakes other blockNumber).lookup id = cache.lookup id := by
  intro cache
  have agg := aggregates_buildStakes positive heights (sum_validStakeTxs_lt amounts)
  have consistent := consistent_buildStakes stakeTxs blockNumber
  have window : sub64 blockNumber supernodeHistorySize = blockNumber - supernodeHistorySize :=
    sub64_of_le history uint64
  refine ⟨fun id => ?_, consistent.nodup, consistent.indexes_eq_some_iff, agg.stakes_eq, ?_⟩
  · rw [agg.mem_ids]
    simp only [StakeTransaction.inHistory, window]
  · intro other p id
    -- a permutation has the same valid amounts for each supernode
    have amounts' : ∀ id, ((validStakeTxs other blockNumber id).map
        StakeTransaction.amount).sum < 2 ^ 64 := by
      intro id
      have same := ((p.filter fun tx => tx.supernodePublicId == id &&
        tx.isValid blockNumber).map StakeTransaction.amount).sum_nat
      rw [validStakeTxs, same]
      exact sum_validStakeTxs_lt amounts id
    have agg' := aggregates_buildStakes (fun tx mem => positive tx (p.mem_iff.mp mem))
      (fun tx mem => heights tx (p.mem_iff.mp mem)) amounts'
    have consistent' := consistent_buildStakes other blockNumber
    -- a permutation has the same supernodes, and the same closed form for each
    have same_ids : ∀ id, id ∈ (buildStakes other blockNumber).ids ↔ id ∈ cache.ids := by
      intro id
      rw [agg'.mem_ids, agg.mem_ids]
      exact ⟨fun ⟨tx, mem, rest⟩ => ⟨tx, p.mem_iff.mp mem, rest⟩,
        fun ⟨tx, mem, rest⟩ => ⟨tx, p.mem_iff.mpr mem, rest⟩⟩
    rw [agg'.lookup_eq consistent', agg.lookup_eq consistent, referenceStake_perm p]
    exact if_congr (same_ids id) rfl rfl

theorem buildStakes_eq_reference_at_block_200 :
    let stakeTxs : List (StakeTransaction Nat) :=
      [⟨1, 50000 * coin, 150, 100, "A"⟩, ⟨2, 40000 * coin, 190, 100, "A"⟩,
        ⟨3, 90000 * coin, 20, 100, "B"⟩]
    (∀ tx ∈ stakeTxs, 0 < tx.amount) ∧ (∀ tx ∈ stakeTxs, tx.HeightsFit) ∧
      (∀ id ∈ stakeTxs.map StakeTransaction.supernodePublicId,
        ((validStakeTxs stakeTxs 200 id).map StakeTransaction.amount).sum < 2 ^ 64) ∧
      supernodeHistorySize ≤ 200 ∧ 200 < 2 ^ 64 ∧
      let cache := buildStakes stakeTxs 200
      (∀ id, id ∈ cache.ids ↔ ∃ tx ∈ stakeTxs, tx.supernodePublicId = id ∧
        (tx.isValid 200 = true ∨ 200 - supernodeHistorySize ≤ tx.blockHeight + tx.unlockTime)) ∧
      cache.ids.Nodup ∧
      (∀ id k, cache.indexes id = some k ↔ cache.ids[k]? = some id) ∧
      cache.stakes = cache.ids.map (referenceStake stakeTxs 200) ∧
      ∀ other : List (StakeTransaction Nat), other.Perm stakeTxs → ∀ id,
        (buildStakes other 200).lookup id = cache.lookup id :=
  ⟨by decide, by decide, by decide, by decide, by decide,
    buildStakes_eq_reference _ 200 (by decide) (by decide) (by decide) (by decide) (by decide)⟩

/-- Two valid stakes of `2 ^ 63` for one supernode: `stake.amount += tx.amount` wraps to zero,
which the loop takes for the placeholder of an obsolete stake, so the third transaction
replaces the stake, where the closed form adds all three and meets their intervals. -/
theorem buildStakes_wraps_amount :
    let stakeTxs : List (StakeTransaction Nat) :=
      [⟨1, 2 ^ 63, 150, 100, "A"⟩, ⟨2, 2 ^ 63, 160, 100, "A"⟩, ⟨3, 5, 170, 100, "A"⟩]
    (∀ tx ∈ stakeTxs, 0 < tx.amount) ∧ (∀ tx ∈ stakeTxs, tx.HeightsFit) ∧
      (buildStakes stakeTxs 200).stakes = [⟨5, 0, 176, 100, "A"⟩] ∧
      (buildStakes stakeTxs 200).ids.map (referenceStake stakeTxs 200) =
        [⟨2 ^ 64 + 5, 4, 176, 80, "A"⟩] := by
  decide

end GraftNetwork.Stake

import Mathlib.Tactic.Linarith
import GraftNetwork.Basic.IntUtil
import GraftNetwork.Core.MinerTx

/-!
# The block reward and its penalty

`get_block_reward` (cryptonote_basic_impl.cpp) pays the base reward for a block no heavier than
the median weight, refuses a block heavier than twice the median, and in between pays the base
reward times `(2 * median - weight) * weight / median ^ 2`. The source computes that product in
128 bits with `mul128` and divides it twice by the median cast to `uint32_t` with `div128_32`,
asserting that the high word of the quotient is zero and that it is below the base reward.
`getBlockReward` computes the quotient exactly; `penalisedReward` is the computation in words.

* `penalisedReward_eq`: for a median below `2 ^ 32`, the words hold the exact quotient, so the
  high word is zero.
* `get_block_reward_penalty`: outside the reward of the first block, with the median below
  `2 ^ 32`, the reward is refused exactly above twice the median, is the base reward up to the
  median and the penalised one above it, is at most the base reward and does not grow with the
  weight, and both asserts hold.
-/

namespace GraftNetwork.Core.MinerTx

open GraftNetwork.Basic

/-- The base reward of `get_block_reward`: the money left shifted by the emission speed factor,
raised to the final subsidy. -/
def blockBaseReward (alreadyGeneratedCoins version : Nat) : Nat :=
  let target := if version < 2 then DIFFICULTY_TARGET_V1 else DIFFICULTY_TARGET_V2
  let targetMinutes := target / 60
  let emissionSpeedFactor := EMISSION_SPEED_FACTOR_PER_MINUTE - (targetMinutes - 1)
  max ((MONEY_SUPPLY - alreadyGeneratedCoins) >>> emissionSpeedFactor)
    (FINAL_SUBSIDY_PER_MINUTE * targetMinutes)

/-- The penalty of `get_block_reward` in words, for a block at most twice the median: the
`multiplicand` in `uint64_t`, `mul128` of the base reward and it, then `div128_32` twice by the
median cast to `uint32_t`; `reward_hi`, with `reward_lo`. -/
def penalisedReward (baseReward medianWeight currentBlockWeight : Nat) : Nat × Nat :=
  let multiplicand := (2 * medianWeight % 2 ^ 64 - currentBlockWeight) * currentBlockWeight % 2 ^ 64
  let (productLo, productHi) := mul128 baseReward multiplicand
  let (rewardHi, rewardLo, _) := div128_32 productHi productLo (medianWeight % 2 ^ 32)
  let (rewardHi, rewardLo, _) := div128_32 rewardHi rewardLo (medianWeight % 2 ^ 32)
  (rewardHi, rewardLo)

/-! ## The base reward -/

theorem blockBaseReward_lt (alreadyGeneratedCoins version : Nat) :
    blockBaseReward alreadyGeneratedCoins version < 2 ^ 64 := by
  have shifted : ∀ n, (MONEY_SUPPLY - alreadyGeneratedCoins) >>> n < 2 ^ 64 := fun n => by
    rw [Nat.shiftRight_eq_div_pow]
    exact Nat.lt_of_le_of_lt (Nat.div_le_self _ _) (by unfold MONEY_SUPPLY; omega)
  refine Nat.max_lt.mpr ⟨shifted _, ?_⟩
  split <;> decide

theorem blockBaseReward_pos (alreadyGeneratedCoins version : Nat) :
    0 < blockBaseReward alreadyGeneratedCoins version := by
  refine Nat.lt_of_lt_of_le ?_ (Nat.le_max_right _ _)
  split <;> decide

/-- The median is raised to at least the smallest full-reward zone. -/
theorem getMinBlockWeight_pos (version : Nat) : 0 < getMinBlockWeight version := by
  unfold getMinBlockWeight
  split
  · decide
  · split <;> decide

/-! ## The penalty -/

/-- The penalty factor and the square of the excess make up the median squared. -/
theorem penalty_add_square {m w : Nat} (above : m ≤ w) (within : w ≤ 2 * m) :
    (2 * m - w) * w + (w - m) * (w - m) = m * m := by
  obtain ⟨k, rfl⟩ := Nat.exists_eq_add_of_le above
  obtain ⟨j, rfl⟩ := Nat.exists_eq_add_of_le (show k ≤ m by omega)
  rw [show 2 * (k + j) - (k + j + k) = j by omega, show k + j + k - (k + j) = k by omega]
  ring

/-- `(2 * m - w) * w` is at most `m * m`, for every weight up to twice the median. -/
theorem penalty_le_square {m w : Nat} (within : w ≤ 2 * m) : (2 * m - w) * w ≤ m * m := by
  zify [within]
  nlinarith [sq_nonneg ((m : Int) - w)]

/-- Above the median the factor is strictly below `m * m`. -/
theorem penalty_lt_square {m w : Nat} (above : m < w) (within : w ≤ 2 * m) :
    (2 * m - w) * w < m * m := by
  have square := penalty_add_square above.le within
  have excess : 0 < (w - m) * (w - m) := Nat.mul_pos (by omega) (by omega)
  omega

/-- The factor does not grow with the weight above the median. -/
theorem penalty_antitone {m w w' : Nat} (above : m ≤ w) (heavier : w ≤ w') (within : w' ≤ 2 * m) :
    (2 * m - w') * w' ≤ (2 * m - w) * w := by
  have square := penalty_add_square above (heavier.trans within)
  have square' := penalty_add_square (above.trans heavier) within
  have larger : (w - m) * (w - m) ≤ (w' - m) * (w' - m) :=
    Nat.mul_le_mul (by omega) (by omega)
  omega

/-- A penalised reward above the median is below the base reward. -/
theorem penalised_lt_base {base m w : Nat} (pos : 0 < base) (above : m < w) (within : w ≤ 2 * m) :
    base * ((2 * m - w) * w) / (m * m) < base := by
  have positive : 0 < m * m := Nat.mul_pos (by omega) (by omega)
  rw [Nat.div_lt_iff_lt_mul positive]
  exact Nat.mul_lt_mul_of_pos_left (penalty_lt_square above within) pos

/-! ## The computation in words -/

/-- For a median below `2 ^ 32`, `penalisedReward` divides the exact product twice: the high word
of the quotient is zero and the low word is the quotient. -/
theorem penalisedReward_eq {baseReward medianWeight currentBlockWeight : Nat}
    (baseFits : baseReward < 2 ^ 64) (pos : 0 < medianWeight) (fits : medianWeight < 2 ^ 32)
    (within : currentBlockWeight ≤ 2 * medianWeight) :
    penalisedReward baseReward medianWeight currentBlockWeight =
      (0, baseReward * ((2 * medianWeight - currentBlockWeight) * currentBlockWeight) /
        (medianWeight * medianWeight)) := by
  -- the multiplicand does not wrap: it is at most the median squared
  have square : medianWeight * medianWeight < 2 ^ 64 :=
    Nat.lt_of_lt_of_le (Nat.mul_lt_mul'' fits fits) (by norm_num)
  have multiplicand := penalty_le_square within
  have quotient : baseReward * ((2 * medianWeight - currentBlockWeight) * currentBlockWeight) /
      (medianWeight * medianWeight) ≤ baseReward :=
    Nat.div_le_of_le_mul ((Nat.mul_le_mul_left baseReward multiplicand).trans (Nat.mul_comm _ _).le)
  unfold penalisedReward
  dsimp only
  rw [Nat.mod_eq_of_lt (show 2 * medianWeight < 2 ^ 64 by omega), Nat.mod_eq_of_lt (by omega),
    Nat.mod_eq_of_lt fits, mul128_eq baseFits (by omega)]
  set product := baseReward * ((2 * medianWeight - currentBlockWeight) * currentBlockWeight)
  have productFits : product < 2 ^ 128 :=
    Nat.lt_of_lt_of_le (Nat.mul_lt_mul'' baseFits (show _ < 2 ^ 64 by omega)) (by norm_num)
  -- the first division: the product's two words, divided
  have first : div128_32 (product / 2 ^ 64) (product % 2 ^ 64) medianWeight =
      (product / medianWeight / 2 ^ 64, product / medianWeight % 2 ^ 64, product % medianWeight) := by
    rw [div128_32_eq (by omega) (by omega) pos fits, Nat.div_add_mod]
  have once : product / medianWeight ≤ product := Nat.div_le_self _ _
  rw [first]
  dsimp only
  rw [div128_32_eq (by omega) (by omega) pos fits, Nat.div_add_mod]
  dsimp only
  rw [Nat.div_div_eq_div_mul product, Nat.div_eq_of_lt (by omega), Nat.mod_eq_of_lt (by omega)]

/-! ## `get_block_reward` outside the first reward -/

theorem halving_mono (version : Nat) {reward reward' : Nat} (le : reward ≤ reward') :
    halving version reward ≤ halving version reward' := by
  unfold halving
  split
  · exact Nat.div_le_div_right le
  · exact le

/-- The reward outside the first one, for a median below `2 ^ 32`: the base reward up to the
median, nothing above twice the median, and the penalised reward in between. -/
theorem getBlockReward_of_not_first {medianWeight currentBlockWeight alreadyGeneratedCoins version : Nat}
    (notFirst : ¬(6 ≤ version ∧ 0 < medianWeight ∧ alreadyGeneratedCoins < 8301030000000000000))
    (fits : max medianWeight (getMinBlockWeight version) < 2 ^ 32) :
    getBlockReward medianWeight currentBlockWeight alreadyGeneratedCoins version =
      if currentBlockWeight ≤ max medianWeight (getMinBlockWeight version) then
        some (halving version (blockBaseReward alreadyGeneratedCoins version))
      else if 2 * max medianWeight (getMinBlockWeight version) < currentBlockWeight then none
      else some (halving version (blockBaseReward alreadyGeneratedCoins version *
        ((2 * max medianWeight (getMinBlockWeight version) - currentBlockWeight) *
          currentBlockWeight) /
        (max medianWeight (getMinBlockWeight version) * max medianWeight (getMinBlockWeight version)))) := by
  set m := max medianWeight (getMinBlockWeight version)
  have positive : 0 < m := Nat.lt_of_lt_of_le (getMinBlockWeight_pos version) (Nat.le_max_right _ _)
  have square : m * m < 2 ^ 64 := Nat.lt_of_lt_of_le (Nat.mul_lt_mul'' fits fits) (by norm_num)
  unfold getBlockReward
  dsimp only
  rw [if_neg notFirst, show max _ _ = blockBaseReward alreadyGeneratedCoins version from rfl]
  split
  · rfl
  · -- neither the doubled median nor its cast to `uint32_t` wraps
    rw [Nat.mod_eq_of_lt (show 2 * m < 2 ^ 64 by omega), Nat.mod_eq_of_lt fits,
      if_neg positive.ne']
    split
    · rfl
    · next light notHeavy =>
      have factor := penalty_le_square (m := m) (w := currentBlockWeight) (by omega)
      have base := blockBaseReward_lt alreadyGeneratedCoins version
      have quotient := penalised_lt_base (m := m) (blockBaseReward_pos alreadyGeneratedCoins version)
        (Nat.lt_of_not_le light) (by omega)
      rw [Nat.mod_eq_of_lt (show (2 * m - currentBlockWeight) * currentBlockWeight < 2 ^ 64 by omega),
        Nat.div_div_eq_div_mul, Nat.mod_eq_of_lt (by omega)]

/-- A block no heavier than the median, raised to the full-reward zone, always has a reward: the
first one or the base reward. -/
theorem getBlockReward_of_light {medianWeight currentBlockWeight alreadyGeneratedCoins version : Nat}
    (light : currentBlockWeight ≤ max medianWeight (getMinBlockWeight version)) :
    ∃ reward, getBlockReward medianWeight currentBlockWeight alreadyGeneratedCoins version =
      some reward := by
  unfold getBlockReward
  dsimp only
  by_cases first : 6 ≤ version ∧ 0 < medianWeight ∧ alreadyGeneratedCoins < 8301030000000000000
  · rw [if_pos first]
    exact ⟨_, rfl⟩
  · rw [if_neg first, if_pos light]
    exact ⟨_, rfl⟩

/-- `get_block_reward` outside the reward of the first block, for a median `m` (raised to the
full-reward zone) below `2 ^ 32`: it refuses a block exactly when it is heavier than `2 * m`, pays
the base reward up to `m` and the penalised one above, never more than the base reward and never
more for a heavier block; and the words of the penalty have a zero high word and a low word below
the base reward, the two asserts of the source. -/
theorem get_block_reward_penalty (medianWeight alreadyGeneratedCoins version : Nat)
    (notFirst : ¬(6 ≤ version ∧ 0 < medianWeight ∧ alreadyGeneratedCoins < 8301030000000000000))
    (fits : max medianWeight (getMinBlockWeight version) < 2 ^ 32) :
    let m := max medianWeight (getMinBlockWeight version)
    let base := blockBaseReward alreadyGeneratedCoins version
    let reward := fun w => getBlockReward medianWeight w alreadyGeneratedCoins version
    (∀ w, reward w = none ↔ 2 * m < w) ∧
    (∀ w, w ≤ m → reward w = some (halving version base)) ∧
    (∀ w, m < w → w ≤ 2 * m →
      reward w = some (halving version (base * ((2 * m - w) * w) / m ^ 2))) ∧
    (∀ w r, reward w = some r → r ≤ base) ∧
    (∀ w w' r r', w ≤ w' → reward w = some r → reward w' = some r' → r' ≤ r) ∧
    (∀ w, m < w → w ≤ 2 * m →
      (penalisedReward base m w).1 = 0 ∧ (penalisedReward base m w).2 < base ∧
        reward w = some (halving version (penalisedReward base m w).2)) := by
  intro m base reward
  have eq : ∀ w, reward w = if w ≤ m then some (halving version base)
      else if 2 * m < w then none
      else some (halving version (base * ((2 * m - w) * w) / (m * m))) :=
    fun w => getBlockReward_of_not_first notFirst fits
  have positive : 0 < m := Nat.lt_of_lt_of_le (getMinBlockWeight_pos version) (Nat.le_max_right _ _)
  have basePos : 0 < base := blockBaseReward_pos alreadyGeneratedCoins version
  -- the penalised reward never exceeds the base reward
  have penalised_le : ∀ w, m < w → w ≤ 2 * m → base * ((2 * m - w) * w) / (m * m) ≤ base :=
    fun w above within => (penalised_lt_base basePos above within).le
  refine ⟨fun w => ?_, fun w light => ?_, fun w above within => ?_, fun w r rewarded => ?_,
    fun w w' r r' heavier rewarded rewarded' => ?_, fun w above within => ?_⟩
  · rw [eq w]
    split
    · simp only [reduceCtorEq, false_iff]
      omega
    · split <;> simp_all
  · rw [eq w, if_pos light]
  · rw [eq w, if_neg (by omega), if_neg (by omega), Nat.pow_two]
  · rw [eq w] at rewarded
    split at rewarded
    · cases rewarded
      exact halving_le _ _
    · split at rewarded
      · cases rewarded
      · cases rewarded
        exact (halving_le _ _).trans (penalised_le w (by omega) (by omega))
  · rw [eq w'] at rewarded'
    rw [eq w] at rewarded
    split at rewarded'
    · -- both are light: the same reward
      cases rewarded'
      rw [if_pos (by omega)] at rewarded
      cases rewarded
      exact Nat.le_refl _
    · split at rewarded'
      · cases rewarded'
      · cases rewarded'
        split at rewarded
        · cases rewarded
          exact halving_mono version (penalised_le w' (by omega) (by omega))
        · rw [if_neg (by omega)] at rewarded
          cases rewarded
          -- both are penalised: the factor shrinks as the weight grows
          exact halving_mono version (Nat.div_le_div_right (Nat.mul_le_mul_left base
            (penalty_antitone (by omega) heavier (by omega))))
  · have words := penalisedReward_eq (blockBaseReward_lt alreadyGeneratedCoins version) positive
      fits within
    rw [words, eq w, if_neg (by omega), if_neg (by omega)]
    exact ⟨rfl, penalised_lt_base basePos above within, rfl⟩

/-- A median of 300000 at version 5: a block of 600001 gets nothing, and one of 450000 three
quarters of the base reward. -/
theorem get_block_reward_penalty_at_median :
    getBlockReward 300000 600001 0 5 = none ∧
      getBlockReward 300000 450000 0 5 = some 26388279066623 := by
  obtain ⟨refused, -, penalised, -⟩ :=
    get_block_reward_penalty 300000 0 5 (by decide) (by decide)
  refine ⟨(refused 600001).mpr (by decide), ?_⟩
  rw [show getBlockReward 300000 450000 0 5 = _ from penalised 450000 (by decide) (by decide)]
  decide

end GraftNetwork.Core.MinerTx

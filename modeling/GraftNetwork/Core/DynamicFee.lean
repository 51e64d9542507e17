import GraftNetwork.Core.BlockReward

/-!
# The dynamic fee

`Blockchain::get_dynamic_base_fee` (blockchain.cpp) scales a reference fee by the block reward
and by the median block weight, raised to the smallest full-reward zone. From
HF_VERSION_PER_BYTE_FEE on it is a fee per byte, `block_reward * 3000 / min_block_weight / median
/ 5`; before, a fee per kB, `fee_base * min_block_weight / median * block_reward / 10 ^ 11`,
rounded up to a multiple of `get_fee_quantization_mask()` and divided by ten. Both products are
taken in 128 bits with `mul128` and divided with `div128_32`, which asserts nothing but takes its
divisor as a `uint32_t`.

* `getDynamicBaseFee_perByte`: the fee per byte for every median. The median is a `size_t` that
  reaches `div128_32` cut to its low 32 bits; when those are zero, the division is by zero.
  `perByteQuotient_eq`: the high word the source asserts to be zero is zero.
* `getDynamicBaseFee_perKb`: the fee per kB for every median, whose high word is zero as well
  (`perKbQuotient_eq`).
* `dynamic_fee_exact_and_monotone`: for medians below 2^32 both fees are the formula
  `dynamicBaseFee`, which does not fall as the reward grows and does not rise as the median
  grows.
* `dynamic_fee_cuts_median_to_uint32`: past 2^32 the fee per byte is that of the cut median.
-/

namespace GraftNetwork.Core.Fee

open GraftNetwork.Basic GraftNetwork.Core.MinerTx

/-! ## Configuration (cryptonote_config.h) -/

def CRYPTONOTE_DISPLAY_DECIMAL_POINT : Nat := 10

def COIN : Nat := 10000000000

def DYNAMIC_FEE_PER_KB_BASE_FEE : Nat := 2 * COIN / 1000

def DYNAMIC_FEE_PER_KB_BASE_BLOCK_REWARD : Nat := 10 * COIN

def DYNAMIC_FEE_PER_KB_BASE_FEE_V5 : Nat :=
  20000000 * CRYPTONOTE_BLOCK_GRANTED_FULL_REWARD_ZONE_V2 / CRYPTONOTE_BLOCK_GRANTED_FULL_REWARD_ZONE_V5

def DYNAMIC_FEE_REFERENCE_TRANSACTION_WEIGHT : Nat := 3000

def HF_VERSION_PER_BYTE_FEE : Nat := 14

def PER_KB_FEE_QUANTIZATION_DECIMALS : Nat := 8

/-! ## get_dynamic_base_fee -/

/-- get_fee_quantization_mask: ten for each decimal of the display point from
PER_KB_FEE_QUANTIZATION_DECIMALS on. The source computes it once into a static. -/
def getFeeQuantizationMask : Nat :=
  (List.range' PER_KB_FEE_QUANTIZATION_DECIMALS
    (CRYPTONOTE_DISPLAY_DECIMAL_POINT - PER_KB_FEE_QUANTIZATION_DECIMALS)).foldl
    (fun mask _ => mask * 10) 1

/-- The per-byte branch up to its `assert(hi == 0)`: `mul128` of the reward and the reference
weight, then `div128_32` by the smallest block weight and by the divisor; `hi`, with `lo`. -/
def perByteQuotient (blockReward minBlockWeight divisor : Nat) : Nat × Nat :=
  let (lo, hi) := mul128 blockReward DYNAMIC_FEE_REFERENCE_TRANSACTION_WEIGHT
  let (hi, lo, _) := div128_32 hi lo minBlockWeight
  let (hi, lo, _) := div128_32 hi lo divisor
  (hi, lo)

/-- `fee_base` of the per-kB branch. -/
def feeBase (version : Nat) : Nat :=
  if 5 ≤ version then DYNAMIC_FEE_PER_KB_BASE_FEE_V5 else DYNAMIC_FEE_PER_KB_BASE_FEE

/-- The per-kB branch up to its `assert(hi == 0)`: `mul128` of the unscaled fee base and the
reward, then `div128_32` by the base block reward in two steps, since it does not fit 32 bits;
`hi`, with `lo`. -/
def perKbQuotient (unscaledFeeBase blockReward : Nat) : Nat × Nat :=
  let (lo, hi) := mul128 unscaledFeeBase blockReward
  let (hi, lo, _) := div128_32 hi lo (DYNAMIC_FEE_PER_KB_BASE_BLOCK_REWARD / 1000000)
  let (hi, lo, _) := div128_32 hi lo 1000000
  (hi, lo)

/-- get_dynamic_base_fee; `none` where the source divides by zero. `div128_32` takes a `uint32_t`
divisor, so the per-byte branch divides by the median's low 32 bits. The asserts are no-ops. -/
def getDynamicBaseFee (blockReward medianBlockWeight version : Nat) : Option Nat :=
  let minBlockWeight := getMinBlockWeight version
  let medianBlockWeight :=
    if medianBlockWeight < minBlockWeight then minBlockWeight else medianBlockWeight
  if HF_VERSION_PER_BYTE_FEE ≤ version then
    if medianBlockWeight % 2 ^ 32 = 0 then none
    else some ((perByteQuotient blockReward minBlockWeight (medianBlockWeight % 2 ^ 32)).2 / 5)
  else
    let unscaledFeeBase := feeBase version * minBlockWeight / medianBlockWeight
    let lo := (perKbQuotient unscaledFeeBase blockReward).2
    let mask := getFeeQuantizationMask
    let qlo := (lo + mask - 1) / mask * mask
    some (qlo / 10)

/-- The fee of the formula: from HF_VERSION_PER_BYTE_FEE on the reward times the reference
weight over the smallest block weight and the raised median, over five; before, the fee per kB
over `10 ^ 11`, rounded up to a multiple of 100 and divided by ten. -/
def dynamicBaseFee (blockReward medianBlockWeight version : Nat) : Nat :=
  let minBlockWeight := getMinBlockWeight version
  if HF_VERSION_PER_BYTE_FEE ≤ version then
    blockReward * DYNAMIC_FEE_REFERENCE_TRANSACTION_WEIGHT / minBlockWeight /
      max medianBlockWeight minBlockWeight / 5
  else
    (feeBase version * minBlockWeight / max medianBlockWeight minBlockWeight * blockReward /
      100000 / 1000000 + 99) / 100 * 100 / 10

/-! ## The words -/

theorem getFeeQuantizationMask_eq : getFeeQuantizationMask = 100 := rfl

theorem getMinBlockWeight_lt (version : Nat) : getMinBlockWeight version < 2 ^ 32 := by
  unfold getMinBlockWeight
  split
  · decide
  · split <;> decide

theorem getMinBlockWeight_ge (version : Nat) : 20000 ≤ getMinBlockWeight version := by
  unfold getMinBlockWeight
  split
  · decide
  · split <;> decide

theorem feeBase_le (version : Nat) : feeBase version ≤ 20000000 := by
  unfold feeBase
  split <;> decide

/-- The per-byte product divided twice: the high word is zero and the low word is the quotient,
which the smallest block weight, larger than the reference weight, keeps below the reward. -/
theorem perByteQuotient_eq {blockReward divisor : Nat} (version : Nat) (fits : blockReward < 2 ^ 64)
    (pos : 0 < divisor) (small : divisor < 2 ^ 32) :
    perByteQuotient blockReward (getMinBlockWeight version) divisor =
      (0, blockReward * DYNAMIC_FEE_REFERENCE_TRANSACTION_WEIGHT / getMinBlockWeight version /
        divisor) := by
  have minimum := getMinBlockWeight_ge version
  have product : blockReward * DYNAMIC_FEE_REFERENCE_TRANSACTION_WEIGHT < 2 ^ 128 := by
    unfold DYNAMIC_FEE_REFERENCE_TRANSACTION_WEIGHT
    omega
  -- the first quotient is at most the reward
  have first : blockReward * DYNAMIC_FEE_REFERENCE_TRANSACTION_WEIGHT / getMinBlockWeight version ≤
      blockReward :=
    Nat.div_le_of_le_mul (Nat.mul_comm (getMinBlockWeight version) blockReward ▸
      Nat.mul_le_mul_left blockReward (by unfold DYNAMIC_FEE_REFERENCE_TRANSACTION_WEIGHT; omega))
  have second := Nat.div_le_self
    (blockReward * DYNAMIC_FEE_REFERENCE_TRANSACTION_WEIGHT / getMinBlockWeight version) divisor
  unfold perByteQuotient
  rw [mul128_eq fits (by decide)]
  dsimp only
  rw [div128_32_words product (getMinBlockWeight_pos version) (getMinBlockWeight_lt version)]
  dsimp only
  rw [div128_32_words (by omega) pos small]
  dsimp only
  rw [Nat.div_eq_of_lt (by omega), Nat.mod_eq_of_lt (by omega)]

/-- The per-kB product divided by `10 ^ 5` and `10 ^ 6`: the high word is zero, since the unscaled
fee base is at most the fee base. -/
theorem perKbQuotient_eq {unscaledFeeBase blockReward : Nat} (base : unscaledFeeBase ≤ 20000000)
    (fits : blockReward < 2 ^ 64) :
    perKbQuotient unscaledFeeBase blockReward =
      (0, unscaledFeeBase * blockReward / 100000 / 1000000) := by
  have product : unscaledFeeBase * blockReward ≤ 20000000 * blockReward :=
    Nat.mul_le_mul_right _ base
  have first := Nat.div_le_self (unscaledFeeBase * blockReward) 100000
  have quotient : unscaledFeeBase * blockReward / 100000 / 1000000 < 2 ^ 64 := by
    rw [Nat.div_div_eq_div_mul]
    exact Nat.div_lt_of_lt_mul (by omega)
  have divisor : DYNAMIC_FEE_PER_KB_BASE_BLOCK_REWARD / 1000000 = 100000 := rfl
  unfold perKbQuotient
  rw [mul128_eq (by omega) fits, divisor]
  dsimp only
  rw [div128_32_words (by omega) (by decide) (by decide)]
  dsimp only
  rw [div128_32_words (by omega) (by decide) (by decide)]
  dsimp only
  rw [Nat.div_eq_of_lt quotient, Nat.mod_eq_of_lt quotient]

/-! ## The fee -/

section Fee

variable {blockReward medianBlockWeight version : Nat}

theorem raised_eq (medianBlockWeight version : Nat) :
    (if medianBlockWeight < getMinBlockWeight version then getMinBlockWeight version
      else medianBlockWeight) = max medianBlockWeight (getMinBlockWeight version) := by
  split <;> omega

/-- The fee per byte, for every median: the reward times the reference weight divided by the
smallest block weight and by the low 32 bits of the raised median. -/
theorem getDynamicBaseFee_perByte (fits : blockReward < 2 ^ 64)
    (perByte : HF_VERSION_PER_BYTE_FEE ≤ version) :
    getDynamicBaseFee blockReward medianBlockWeight version =
      if max medianBlockWeight (getMinBlockWeight version) % 2 ^ 32 = 0 then none
      else some (blockReward * DYNAMIC_FEE_REFERENCE_TRANSACTION_WEIGHT / getMinBlockWeight version /
        (max medianBlockWeight (getMinBlockWeight version) % 2 ^ 32) / 5) := by
  unfold getDynamicBaseFee
  dsimp only
  rw [if_pos perByte, raised_eq]
  split
  · rfl
  · next cut =>
    rw [perByteQuotient_eq version fits (Nat.pos_of_ne_zero cut) (Nat.mod_lt _ (by decide))]

/-- The fee per kB, for every median: the unscaled fee base times the reward over `10 ^ 11`,
rounded up to a multiple of 100 and divided by ten. -/
theorem getDynamicBaseFee_perKb (fits : blockReward < 2 ^ 64)
    (perKb : version < HF_VERSION_PER_BYTE_FEE) :
    getDynamicBaseFee blockReward medianBlockWeight version =
      some ((feeBase version * getMinBlockWeight version /
        max medianBlockWeight (getMinBlockWeight version) * blockReward / 100000 / 1000000 + 99) /
          100 * 100 / 10) := by
  have unscaled : feeBase version * getMinBlockWeight version /
      max medianBlockWeight (getMinBlockWeight version) ≤ 20000000 :=
    Nat.le_trans (Nat.div_le_of_le_mul (Nat.mul_comm _ (feeBase version) ▸
      Nat.mul_le_mul_right _ (Nat.le_max_right _ _))) (feeBase_le version)
  unfold getDynamicBaseFee
  dsimp only
  rw [if_neg (Nat.not_le.mpr perKb), raised_eq, perKbQuotient_eq unscaled fits,
    getFeeQuantizationMask_eq]
  rfl

/-- With the raised median below 2^32, the code computes the formula. -/
theorem getDynamicBaseFee_eq (fits : blockReward < 2 ^ 64)
    (small : max medianBlockWeight (getMinBlockWeight version) < 2 ^ 32) :
    getDynamicBaseFee blockReward medianBlockWeight version =
      some (dynamicBaseFee blockReward medianBlockWeight version) := by
  unfold dynamicBaseFee
  dsimp only
  split
  · next perByte =>
    have pos : 0 < max medianBlockWeight (getMinBlockWeight version) :=
      Nat.lt_of_lt_of_le (getMinBlockWeight_pos version) (Nat.le_max_right _ _)
    rw [getDynamicBaseFee_perByte fits perByte, Nat.mod_eq_of_lt small, if_neg (by omega)]
  · next perKb => exact getDynamicBaseFee_perKb fits (Nat.lt_of_not_le perKb)

/-- The rounding of the fee per kB keeps the order. -/
theorem quantized_mono {x y : Nat} (h : x ≤ y) : (x + 99) / 100 * 100 / 10 ≤ (y + 99) / 100 * 100 / 10 :=
  Nat.div_le_div_right (Nat.mul_le_mul_right _ (Nat.div_le_div_right (by omega)))

theorem dynamicBaseFee_mono_reward {blockReward' : Nat} (more : blockReward ≤ blockReward') :
    dynamicBaseFee blockReward medianBlockWeight version ≤
      dynamicBaseFee blockReward' medianBlockWeight version := by
  unfold dynamicBaseFee
  dsimp only
  split
  · exact Nat.div_le_div_right (Nat.div_le_div_right (Nat.div_le_div_right
      (Nat.mul_le_mul_right _ more)))
  · exact quantized_mono (Nat.div_le_div_right (Nat.div_le_div_right (Nat.mul_le_mul_left _ more)))

theorem dynamicBaseFee_anti_median {medianBlockWeight' : Nat}
    (heavier : medianBlockWeight ≤ medianBlockWeight') :
    dynamicBaseFee blockReward medianBlockWeight' version ≤
      dynamicBaseFee blockReward medianBlockWeight version := by
  have pos : 0 < max medianBlockWeight (getMinBlockWeight version) :=
    Nat.lt_of_lt_of_le (getMinBlockWeight_pos version) (Nat.le_max_right _ _)
  have raised : max medianBlockWeight (getMinBlockWeight version) ≤
      max medianBlockWeight' (getMinBlockWeight version) := max_le_max heavier (Nat.le_refl _)
  unfold dynamicBaseFee
  dsimp only
  split
  · exact Nat.div_le_div_right (Nat.div_le_div_left raised pos)
  · exact quantized_mono (Nat.div_le_div_right (Nat.div_le_div_right
      (Nat.mul_le_mul_right _ (Nat.div_le_div_left raised pos))))

end Fee

/-- For medians whose raised value fits 32 bits, get_dynamic_base_fee is the formula: the fee per
byte from HF_VERSION_PER_BYTE_FEE on and the quantized fee per kB before, with the high words the
source asserts to be zero zero. The formula does not fall as the reward grows, nor rise as the
median grows. -/
theorem dynamic_fee_exact_and_monotone (version : Nat) :
    (∀ blockReward medianBlockWeight, blockReward < 2 ^ 64 →
      max medianBlockWeight (getMinBlockWeight version) < 2 ^ 32 →
      getDynamicBaseFee blockReward medianBlockWeight version =
        some (dynamicBaseFee blockReward medianBlockWeight version) ∧
      (perByteQuotient blockReward (getMinBlockWeight version)
        (max medianBlockWeight (getMinBlockWeight version))).1 = 0 ∧
      (perKbQuotient (feeBase version * getMinBlockWeight version /
        max medianBlockWeight (getMinBlockWeight version)) blockReward).1 = 0) ∧
    (∀ blockReward blockReward' medianBlockWeight, blockReward ≤ blockReward' →
      dynamicBaseFee blockReward medianBlockWeight version ≤
        dynamicBaseFee blockReward' medianBlockWeight version) ∧
    (∀ blockReward medianBlockWeight medianBlockWeight', medianBlockWeight ≤ medianBlockWeight' →
      dynamicBaseFee blockReward medianBlockWeight' version ≤
        dynamicBaseFee blockReward medianBlockWeight version) := by
  refine ⟨fun blockReward medianBlockWeight fits small => ⟨getDynamicBaseFee_eq fits small, ?_, ?_⟩,
    fun _ _ _ more => dynamicBaseFee_mono_reward more,
    fun _ _ _ heavier => dynamicBaseFee_anti_median heavier⟩
  · have pos : 0 < max medianBlockWeight (getMinBlockWeight version) :=
      Nat.lt_of_lt_of_le (getMinBlockWeight_pos version) (Nat.le_max_right _ _)
    rw [perByteQuotient_eq version fits pos small]
  · have unscaled : feeBase version * getMinBlockWeight version /
        max medianBlockWeight (getMinBlockWeight version) ≤ 20000000 :=
      Nat.le_trans (Nat.div_le_of_le_mul (Nat.mul_comm _ (feeBase version) ▸
        Nat.mul_le_mul_right _ (Nat.le_max_right _ _))) (feeBase_le version)
    rw [perKbQuotient_eq unscaled fits]

theorem dynamic_fee_exact_at_median_zone :
    (6000000000000 < 2 ^ 64 ∧ max 300000 (getMinBlockWeight 14) < 2 ^ 32) ∧
      getDynamicBaseFee 6000000000000 300000 14 = some (dynamicBaseFee 6000000000000 300000 14) :=
  ⟨⟨by decide, by decide⟩,
    ((dynamic_fee_exact_and_monotone 14).1 6000000000000 300000 (by decide) (by decide)).1⟩

/-- A median of 2^32 + 300000 reaches `div128_32` as 300000: the fee per byte is that of the
smallest median, twenty thousand times the formula's, and above the fee at the median 2^32 - 1. A
median of 2^32 reaches it as zero. -/
theorem dynamic_fee_cuts_median_to_uint32 :
    getDynamicBaseFee 6000000000000 (2 ^ 32 + 300000) 14 = some 40000 ∧
    dynamicBaseFee 6000000000000 (2 ^ 32 + 300000) 14 = 2 ∧
    getDynamicBaseFee 6000000000000 (2 ^ 32 - 1) 14 = some 2 ∧
    getDynamicBaseFee 6000000000000 (2 ^ 32) 14 = none := by
  refine ⟨?_, by decide, ?_, ?_⟩ <;>
    rw [getDynamicBaseFee_perByte (by decide) (by decide)] <;> decide

end GraftNetwork.Core.Fee

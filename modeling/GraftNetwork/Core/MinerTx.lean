import Mathlib.Algebra.Order.BigOperators.Group.List
import Mathlib.Tactic.Ring
import GraftNetwork.Serialization.Transaction
import GraftNetwork.Basic.FormatUtils

/-!
# The miner transaction

How a block template's miner transaction is built (cryptonote_tx_utils.cpp, construct_miner_tx)
and how a block's miner transaction is checked (blockchain.cpp, prevalidate_miner_transaction and
validate_miner_transaction), both over the reward of cryptonote::get_block_reward.

The builder adds the fee to the reward in `uint64_t`, splits the sum into its nonzero decimal
digits (decompose_amount_into_digits of `cryptonote_format_utils`, with no dust), folds the smallest two outputs together until
at most `max_outs` remain, and checks that the outputs add up to the sum. The validator adds the
outputs up again, computes the reward again and compares.

* `decomposeAmountIntoDigits_sum`, `mergeOutAmounts_sum`, `mergeOutAmounts_length`: the split
  and the folding keep the amount, and the folding leaves at most `max_outs` outputs.
* `constructMinerTx_eq`: from hard fork 4 on the builder succeeds, with the extra nonce within
  its bound and output keys that derive, and its outputs add up to the reward plus the fee.
* `constructMinerTx_validates`: what it builds passes both checks with the full reward.

The keys are not modelled: the transaction key is given, and the output keys are a function of
the output's index that fails as key derivation fails.
-/

namespace GraftNetwork.Core.MinerTx

open GraftNetwork.Serialization
open GraftNetwork.Basic.FormatUtils (DecomposeCall decomposeAmountIntoDigits decomposeAmountIntoDigits_eq_foldl
  decomposeCalls_eq sum_values_decomposition)

/-! ## Configuration (cryptonote_config.h, tx_extra.h) -/

def CRYPTONOTE_MINED_MONEY_UNLOCK_WINDOW : Nat := 60

def MONEY_SUPPLY : Nat := 2 ^ 64 - 1

def EMISSION_SPEED_FACTOR_PER_MINUTE : Nat := 20

def FINAL_SUBSIDY_PER_MINUTE : Nat := 3000000000

def CRYPTONOTE_BLOCK_GRANTED_FULL_REWARD_ZONE_V1 : Nat := 20000

def CRYPTONOTE_BLOCK_GRANTED_FULL_REWARD_ZONE_V2 : Nat := 60000

def CRYPTONOTE_BLOCK_GRANTED_FULL_REWARD_ZONE_V5 : Nat := 300000

def DIFFICULTY_TARGET_V1 : Nat := 60

def DIFFICULTY_TARGET_V2 : Nat := 120

def DEFAULT_DUST_THRESHOLD : Nat := 2000000000

def BASE_REWARD_CLAMP_THRESHOLD : Nat := 100000000

def TX_EXTRA_NONCE_MAX_COUNT : Nat := 255

def TX_EXTRA_TAG_PUBKEY : UInt8 := 0x01

def TX_EXTRA_NONCE : UInt8 := 0x02

/-! ## The reward -/

def getMinBlockWeight (version : Nat) : Nat :=
  if version < 2 then CRYPTONOTE_BLOCK_GRANTED_FULL_REWARD_ZONE_V1
  else if version < 5 then CRYPTONOTE_BLOCK_GRANTED_FULL_REWARD_ZONE_V2
  else CRYPTONOTE_BLOCK_GRANTED_FULL_REWARD_ZONE_V5

/-- The halving from version 10 on. -/
def halving (version reward : Nat) : Nat := if 10 ≤ version then reward / 2 else reward

/-- cryptonote::get_block_reward: `none` for a block more than twice the median weight. The
penalised reward is `base_reward * (2 * median - weight) * weight` divided twice by the median
cast to `uint32_t` (mul128 and div128_32, exact in 128 bits); a median whose cast is zero divides
by zero, and the model gives no reward then. -/
def getBlockReward (medianWeight currentBlockWeight alreadyGeneratedCoins version : Nat) :
    Option Nat :=
  let target := if version < 2 then DIFFICULTY_TARGET_V1 else DIFFICULTY_TARGET_V2
  let targetMinutes := target / 60
  let emissionSpeedFactor := EMISSION_SPEED_FACTOR_PER_MINUTE - (targetMinutes - 1)
  let firstReward := 8301030000000000000
  if 6 ≤ version ∧ 0 < medianWeight ∧ alreadyGeneratedCoins < firstReward then some firstReward
  else
    -- both raisings of the source are `if (x < floor) x = floor;`
    let baseReward := max ((MONEY_SUPPLY - alreadyGeneratedCoins) >>> emissionSpeedFactor)
      (FINAL_SUBSIDY_PER_MINUTE * targetMinutes)
    let medianWeight := max medianWeight (getMinBlockWeight version)
    if currentBlockWeight ≤ medianWeight then some (halving version baseReward)
    else if 2 * medianWeight % 2 ^ 64 < currentBlockWeight then none
    else
      let multiplicand := (2 * medianWeight % 2 ^ 64 - currentBlockWeight) * currentBlockWeight % 2 ^ 64
      let divisor := medianWeight % 2 ^ 32
      if divisor = 0 then none
      else some (halving version (baseReward * multiplicand / divisor / divisor % 2 ^ 64))

theorem halving_le (version reward : Nat) : halving version reward ≤ reward := by
  unfold halving
  split <;> omega

/-- Every reward fits its `uint64_t`. -/
theorem getBlockReward_lt {medianWeight currentBlockWeight alreadyGeneratedCoins version r : Nat}
    (reward : getBlockReward medianWeight currentBlockWeight alreadyGeneratedCoins version = some r) :
    r < 2 ^ 64 := by
  have shifted : ∀ n, (MONEY_SUPPLY - alreadyGeneratedCoins) >>> n < 2 ^ 64 := fun n => by
    rw [Nat.shiftRight_eq_div_pow]
    exact Nat.lt_of_le_of_lt (Nat.div_le_self _ _) (by unfold MONEY_SUPPLY; omega)
  unfold getBlockReward at reward
  simp only at reward
  split at reward
  · cases reward
    decide
  · split at reward
    · -- the full reward: the base reward, at least the final subsidy
      cases reward
      refine Nat.lt_of_le_of_lt (halving_le _ _) (Nat.max_lt.mpr ⟨shifted _, ?_⟩)
      split <;> decide
    · split at reward
      · cases reward
      · split at reward
        · cases reward
        · cases reward
          exact Nat.lt_of_le_of_lt (halving_le _ _) (Nat.mod_lt _ (by decide))

/-! ## Building -/

/-- The chunk and dust handlers that construct_miner_tx gives decompose_amount_into_digits: both
push the amount to `out_amounts`. -/
def pushOutAmount (outAmounts : List Nat) (amount : UInt64) : List Nat := outAmounts ++ [amount.toNat]

/-- The `while (max_outs < out_amounts.size())` loop of construct_miner_tx: the first amount is
added to the second and the list shifted down by one. Each round drops one amount, so `fuel` is the
length. A list of one amount is never merged, since `max_outs` is at least one there. -/
def mergeOutAmounts (maxOuts : Nat) : (fuel : Nat) → List Nat → List Nat
  | 0, outAmounts => outAmounts
  | fuel + 1, outAmounts =>
    if maxOuts < outAmounts.length then
      match outAmounts with
      | first :: second :: rest => mergeOutAmounts maxOuts fuel ((second + first) % 2 ^ 64 :: rest)
      | _ => outAmounts
    else outAmounts

/-- `summary_amounts`: a `uint64_t` running sum. -/
def uint64Sum (amounts : List Nat) : Nat := amounts.foldl (fun sum amount => (sum + amount) % 2 ^ 64) 0

/-- add_extra_nonce_to_tx_extra. -/
def addExtraNonceToTxExtra (txExtra extraNonce : List UInt8) : Option (List UInt8) :=
  if TX_EXTRA_NONCE_MAX_COUNT < extraNonce.length then none
  else some (txExtra ++ [TX_EXTRA_NONCE, UInt8.ofNat extraNonce.length] ++ extraNonce)

/-- add_tx_pub_key_to_extra. -/
def addTxPubKeyToExtra (txExtra : List UInt8) (txPubKey : PublicKey) : List UInt8 :=
  txExtra ++ [TX_EXTRA_TAG_PUBKEY] ++ txPubKey.bytes

/-- The outputs of construct_miner_tx: output `no` pays `out_amounts[no]` to the key derived for
it. -/
def minerOutputs (outputKey : Nat → Option PublicKey) (outAmounts : List Nat) : Option (List TxOut) :=
  outAmounts.zipIdx.mapM fun entry =>
    (fun key => ⟨UInt64.ofNat entry.1, .txoutToKey ⟨key⟩⟩) <$> outputKey entry.2

/-- construct_miner_tx into a fresh transaction, with `txPubKey` the public key of the generated
transaction key. -/
def constructMinerTx (height medianWeight alreadyGeneratedCoins currentBlockWeight fee : Nat)
    (outputKey : Nat → Option PublicKey) (txPubKey : PublicKey) (extraNonce : List UInt8)
    (maxOuts hardForkVersion : Nat) : Option Transaction := do
  let extra := addTxPubKeyToExtra [] txPubKey
  let extra ← (if extraNonce = [] then some extra else addExtraNonceToTxExtra extra extraNonce)
  let blockReward ← getBlockReward medianWeight currentBlockWeight alreadyGeneratedCoins hardForkVersion
  let blockReward := (blockReward + fee) % 2 ^ 64
  let blockReward :=
    if 2 ≤ hardForkVersion ∧ hardForkVersion < 4 then
      blockReward - blockReward % BASE_REWARD_CLAMP_THRESHOLD
    else blockReward
  let outAmounts := decomposeAmountIntoDigits pushOutAmount pushOutAmount (UInt64.ofNat blockReward)
    (UInt64.ofNat (if 2 ≤ hardForkVersion then 0 else DEFAULT_DUST_THRESHOLD)) []
  if maxOuts < 1 then none
  else do
    let outAmounts ← (if height = 0 ∨ 4 ≤ hardForkVersion then
        some (mergeOutAmounts maxOuts outAmounts.length outAmounts)
      else if maxOuts < outAmounts.length then none
      else some outAmounts)
    let vout ← minerOutputs outputKey outAmounts
    if uint64Sum outAmounts ≠ blockReward then none
    else some { version := if 4 ≤ hardForkVersion then 2 else 1
                unlockTime := UInt64.ofNat (height + CRYPTONOTE_MINED_MONEY_UNLOCK_WINDOW)
                vin := [.txinGen ⟨UInt64.ofNat height⟩]
                vout := vout
                extra := extra
                signatures := []
                rctSignatures := RctSig.null
                type := txTypeGeneric
                extra2 := [] }

/-! ## Validating -/

/-- The loop of check_outs_overflow with the money counted so far. -/
def checkOutsOverflowLoop (money : Nat) : List TxOut → Bool
  | [] => true
  | out :: outs =>
    if (out.amount.toNat + money) % 2 ^ 64 < money then false
    else checkOutsOverflowLoop ((money + out.amount.toNat) % 2 ^ 64) outs

def checkOutsOverflow (tx : Transaction) : Bool := checkOutsOverflowLoop 0 tx.vout

/-- Blockchain::prevalidate_miner_transaction on the block's miner transaction. -/
def prevalidateMinerTransaction (minerTx : Transaction) (height : Nat) : Bool :=
  match minerTx.vin with
  | [.txinGen txin] =>
    txin.height = UInt64.ofNat height &&
      minerTx.unlockTime = UInt64.ofNat (height + CRYPTONOTE_MINED_MONEY_UNLOCK_WINDOW) &&
      checkOutsOverflow minerTx
  | _ => false

/-- `valid_decomposed_outputs`: one to nine times each power of ten up to 10^18, and 10^19. -/
def validDecomposedOutputs : List Nat :=
  ((List.range 19).flatMap fun k => (List.range 9).map fun d => (d + 1) * 10 ^ k) ++ [10 ^ 19]

/-- is_valid_decomposed_amount: a binary search of the sorted table. -/
def isValidDecomposedAmount (amount : Nat) : Bool := validDecomposedOutputs.contains amount

/-- Blockchain::validate_miner_transaction with the median of the last block weights and the
hard-fork version the chain is at: the base reward and whether the block claims less than its
reward, or `none` where it returns false. -/
def validateMinerTransaction (minerTx : Transaction)
    (median cumulativeBlockWeight fee alreadyGeneratedCoins version currentVersion : Nat) :
    Option (Nat × Bool) :=
  let moneyInUse := uint64Sum (minerTx.vout.map fun out => out.amount.toNat)
  if version = 3 ∧ minerTx.vout.any (fun out => !isValidDecomposedAmount out.amount.toNat) then none
  else do
    let baseReward ← getBlockReward median cumulativeBlockWeight alreadyGeneratedCoins version
    if (baseReward + fee) % 2 ^ 64 < moneyInUse ∧ 0 < alreadyGeneratedCoins then none
    else if currentVersion < 2 then
      if (baseReward + fee) % 2 ^ 64 ≠ moneyInUse ∧ 0 < alreadyGeneratedCoins then none
      else some (baseReward, false)
    else
      -- `money_in_use - fee` in `uint64_t`
      let claimed := (moneyInUse + (2 ^ 64 - fee % 2 ^ 64)) % 2 ^ 64
      if baseReward < claimed then none
      else some (claimed, (baseReward + fee) % 2 ^ 64 ≠ moneyInUse)

/-! ## The split and the folding keep the amount -/

/-- What the pushing handlers collect is the values of the calls, in order. -/
theorem foldl_run_pushOutAmount : ∀ (calls : List DecomposeCall) (out : List Nat),
    calls.foldl (DecomposeCall.run pushOutAmount pushOutAmount) out =
      out ++ calls.map fun call => call.value.toNat
  | [], out => by simp
  | call :: calls, out => by
    rw [List.foldl_cons, foldl_run_pushOutAmount calls, List.map_cons]
    cases call <;> simp [DecomposeCall.run, DecomposeCall.value, pushOutAmount]

/-- The split hands out the decimal digits of the amount, at any dust threshold, and they add up
to it. -/
theorem decomposeAmountIntoDigits_sum {amount : Nat} (fits : amount < 2 ^ 64) (dustThreshold : UInt64) :
    (decomposeAmountIntoDigits pushOutAmount pushOutAmount (UInt64.ofNat amount) dustThreshold
      []).sum = amount := by
  rw [decomposeAmountIntoDigits_eq_foldl, foldl_run_pushOutAmount, List.nil_append,
    decomposeCalls_eq, sum_values_decomposition (UInt64.ofNat amount).toNat_lt,
    UInt64.toNat_ofNat_of_lt' fits]

/-- The folding keeps the sum while it does not wrap. -/
theorem mergeOutAmounts_sum (maxOuts : Nat) :
    ∀ fuel (outAmounts : List Nat), outAmounts.sum < 2 ^ 64 →
      (mergeOutAmounts maxOuts fuel outAmounts).sum = outAmounts.sum
  | 0, _, _ => rfl
  | fuel + 1, first :: second :: rest, fits => by
    have noWrap : (second + first) % 2 ^ 64 = second + first := by
      simp only [List.sum_cons] at fits
      exact Nat.mod_eq_of_lt (by omega)
    have merged : ((second + first) % 2 ^ 64 :: rest).sum = (first :: second :: rest).sum := by
      simp only [List.sum_cons, noWrap]
      omega
    unfold mergeOutAmounts
    split
    · rw [mergeOutAmounts_sum maxOuts fuel _ (merged ▸ fits), merged]
    · rfl
  | fuel + 1, [], _ => by simp [mergeOutAmounts]
  | fuel + 1, [_], _ => by simp [mergeOutAmounts]

/-- Each round of the folding drops one amount, so as many rounds as amounts leave at most
`max_outs` of them. -/
theorem mergeOutAmounts_length {maxOuts : Nat} (positive : 1 ≤ maxOuts) :
    ∀ fuel (outAmounts : List Nat), outAmounts.length ≤ maxOuts + fuel →
      (mergeOutAmounts maxOuts fuel outAmounts).length ≤ maxOuts
  | 0, _, short => short
  | fuel + 1, outAmounts, short => by
    unfold mergeOutAmounts
    split
    · -- more amounts than `max_outs`, so at least two
      rename_i long
      match outAmounts, long, short with
      | first :: second :: rest, _, short =>
        exact mergeOutAmounts_length positive fuel _ (by simp at short ⊢; omega)
      | [], long, _ => simp at long
      | [_], long, _ => simp at long; omega
    · omega

/-- `summary_amounts` and `money_in_use` are the sum of the amounts while it fits. -/
theorem foldl_uint64_add (acc : Nat) :
    ∀ amounts : List Nat, acc + amounts.sum < 2 ^ 64 →
      amounts.foldl (fun sum amount => (sum + amount) % 2 ^ 64) acc = acc + amounts.sum
  | [], _ => rfl
  | amount :: amounts, fits => by
    simp only [List.sum_cons] at fits
    rw [List.foldl_cons, Nat.mod_eq_of_lt (by omega), foldl_uint64_add (acc + amount) amounts
      (by omega), List.sum_cons, Nat.add_assoc]

theorem uint64Sum_eq_sum {amounts : List Nat} (fits : amounts.sum < 2 ^ 64) :
    uint64Sum amounts = amounts.sum := by
  rw [uint64Sum, foldl_uint64_add 0 amounts (by omega), Nat.zero_add]

/-- With a key for every output, the outputs are written and pay the amounts in order. -/
theorem minerOutputs_amounts {outputKey : Nat → Option PublicKey}
    (derives : ∀ no, (outputKey no).isSome) {outAmounts : List Nat}
    (fits : ∀ amount ∈ outAmounts, amount < 2 ^ 64) :
    ∃ vout, minerOutputs outputKey outAmounts = some vout ∧
      vout.map (fun out => out.amount.toNat) = outAmounts := by
  have each : ∀ entry ∈ outAmounts.zipIdx, ∃ out,
      ((fun key => ⟨UInt64.ofNat entry.1, .txoutToKey ⟨key⟩⟩) <$> outputKey entry.2 : Option TxOut)
        = some out ∧ out.amount.toNat = entry.1 := fun entry mem => by
    obtain ⟨key, derived⟩ := Option.isSome_iff_exists.mp (derives entry.2)
    refine ⟨_, by rw [derived]; rfl, ?_⟩
    rw [UInt64.toNat_ofNat', Nat.mod_eq_of_lt (fits _ (List.fst_mem_of_mem_zipIdx mem))]
  obtain ⟨vout, wrote, paid⟩ := exists_mapM_eq_some_map each
  exact ⟨vout, wrote, paid.trans (List.zipIdx_map_fst 0 outAmounts)⟩

/-! ## What the builder returns -/

/-- The extra of a miner transaction is written whenever the extra nonce is within its bound. -/
theorem minerExtra_isSome (txPubKey : PublicKey) {extraNonce : List UInt8}
    (nonce : extraNonce.length ≤ TX_EXTRA_NONCE_MAX_COUNT) :
    ∃ extra, (if extraNonce = [] then some (addTxPubKeyToExtra [] txPubKey)
      else addExtraNonceToTxExtra (addTxPubKeyToExtra [] txPubKey) extraNonce) = some extra := by
  split
  · exact ⟨_, rfl⟩
  · exact ⟨_, if_neg (Nat.not_lt.mpr nonce)⟩

section Builder

variable {medianWeight alreadyGeneratedCoins currentBlockWeight maxOuts hardForkVersion r : Nat}
  {outputKey : Nat → Option PublicKey} {extraNonce : List UInt8}

/-- From hard fork 4 on, construct_miner_tx succeeds with the extra nonce within its bound and a key
for every output: a version-2 transaction spending the generation input of the height, locked for
the unlock window, with at most `max_outs` outputs that pay the reward plus the fee in
`uint64_t`. -/
theorem constructMinerTx_eq (height fee : Nat) (txPubKey : PublicKey)
    (nonce : extraNonce.length ≤ TX_EXTRA_NONCE_MAX_COUNT)
    (derives : ∀ no, (outputKey no).isSome) (outs : 1 ≤ maxOuts) (version : 4 ≤ hardForkVersion)
    (reward : getBlockReward medianWeight currentBlockWeight alreadyGeneratedCoins
      hardForkVersion = some r) :
    ∃ tx, constructMinerTx height medianWeight alreadyGeneratedCoins currentBlockWeight fee
        outputKey txPubKey extraNonce maxOuts hardForkVersion = some tx ∧
      tx.version = 2 ∧ tx.vin = [.txinGen ⟨UInt64.ofNat height⟩] ∧
      tx.unlockTime = UInt64.ofNat (height + CRYPTONOTE_MINED_MONEY_UNLOCK_WINDOW) ∧
      tx.vout.length ≤ maxOuts ∧
      (tx.vout.map fun out => out.amount.toNat).sum = (r + fee) % 2 ^ 64 := by
  obtain ⟨extra, wroteExtra⟩ := minerExtra_isSome txPubKey nonce
  have fits : (r + fee) % 2 ^ 64 < 2 ^ 64 := Nat.mod_lt _ (by decide)
  have split := decomposeAmountIntoDigits_sum fits (UInt64.ofNat 0)
  -- the folding runs on the outputs of the split, which add up to the block reward
  set outAmounts := decomposeAmountIntoDigits pushOutAmount pushOutAmount
    (UInt64.ofNat ((r + fee) % 2 ^ 64)) (UInt64.ofNat 0) []
  set merged := mergeOutAmounts maxOuts outAmounts.length outAmounts
  have mergedSum : merged.sum = (r + fee) % 2 ^ 64 :=
    (mergeOutAmounts_sum maxOuts _ _ (split ▸ fits)).trans split
  have mergedLength : merged.length ≤ maxOuts :=
    mergeOutAmounts_length outs _ _ (by omega)
  obtain ⟨vout, wroteVout, paid⟩ := minerOutputs_amounts derives
    fun amount (mem : amount ∈ merged) => Nat.lt_of_le_of_lt (List.le_sum_of_mem mem) (mergedSum ▸ fits)
  have noClamp : ¬(2 ≤ hardForkVersion ∧ hardForkVersion < 4) := by omega
  have summary : uint64Sum merged = (r + fee) % 2 ^ 64 := by
    rw [uint64Sum_eq_sum (mergedSum ▸ fits), mergedSum]
  refine ⟨{ version := 2
            unlockTime := UInt64.ofNat (height + CRYPTONOTE_MINED_MONEY_UNLOCK_WINDOW)
            vin := [.txinGen ⟨UInt64.ofNat height⟩]
            vout := vout
            extra := extra
            signatures := []
            rctSignatures := RctSig.null
            type := txTypeGeneric
            extra2 := [] }, ?_, rfl, rfl, rfl, ?_, ?_⟩
  · simp only [constructMinerTx, wroteExtra, reward, noClamp, if_false,
      if_pos (show 2 ≤ hardForkVersion by omega), if_neg (show ¬maxOuts < 1 by omega),
      if_pos (show height = 0 ∨ 4 ≤ hardForkVersion from Or.inr version),
      if_pos version, Option.bind_eq_bind, Option.bind_some]
    rw [wroteVout, Option.bind_some, if_neg (not_not.mpr summary)]
  · rw [← paid, List.length_map] at mergedLength
    exact mergedLength
  · rw [paid, mergedSum]

end Builder

/-! ## The checks accept what the builder returns -/

/-- check_outs_overflow accepts outputs whose running sum never wraps. -/
theorem checkOutsOverflowLoop_of_lt :
    ∀ (outs : List TxOut) (money : Nat),
      money + (outs.map fun out => out.amount.toNat).sum < 2 ^ 64 →
        checkOutsOverflowLoop money outs = true
  | [], _, _ => rfl
  | out :: outs, money, fits => by
    simp only [List.map_cons, List.sum_cons] at fits
    have noWrap : (out.amount.toNat + money) % 2 ^ 64 = out.amount.toNat + money :=
      Nat.mod_eq_of_lt (by omega)
    have grows : ¬(out.amount.toNat + money < money) := by omega
    unfold checkOutsOverflowLoop
    rw [noWrap, if_neg grows, Nat.add_comm money, noWrap]
    exact checkOutsOverflowLoop_of_lt outs _ (by omega)

/-- prevalidate_miner_transaction accepts a generation input of the height, the unlock window
and outputs that do not overflow. -/
theorem prevalidateMinerTransaction_of {minerTx : Transaction} {height : Nat}
    (gen : minerTx.vin = [.txinGen ⟨UInt64.ofNat height⟩])
    (locked : minerTx.unlockTime = UInt64.ofNat (height + CRYPTONOTE_MINED_MONEY_UNLOCK_WINDOW))
    (fits : (minerTx.vout.map fun out => out.amount.toNat).sum < 2 ^ 64) :
    prevalidateMinerTransaction minerTx height = true := by
  unfold prevalidateMinerTransaction
  rw [gen]
  simp only [locked, decide_true, Bool.true_and]
  exact checkOutsOverflowLoop_of_lt _ 0 (by omega)

/-- validate_miner_transaction, outside hard fork 3, accepts outputs paying the reward plus the fee
in `uint64_t`: the block claims its whole reward, under both rules of the chain's version. -/
theorem validateMinerTransaction_of {minerTx : Transaction}
    {median cumulativeBlockWeight fee alreadyGeneratedCoins version currentVersion r : Nat}
    (reward : getBlockReward median cumulativeBlockWeight alreadyGeneratedCoins version = some r)
    (notThree : version ≠ 3)
    (paid : (minerTx.vout.map fun out => out.amount.toNat).sum = (r + fee) % 2 ^ 64) :
    validateMinerTransaction minerTx median cumulativeBlockWeight fee alreadyGeneratedCoins version
      currentVersion = some (r, false) := by
  have fits : r < 2 ^ 64 := getBlockReward_lt reward
  have moneyInUse : uint64Sum (minerTx.vout.map fun out => out.amount.toNat) = (r + fee) % 2 ^ 64 :=
    (uint64Sum_eq_sum (paid ▸ Nat.mod_lt _ (by decide))).trans paid
  -- `money_in_use - fee` in `uint64_t` gives the reward back
  have claimed : ((r + fee) % 2 ^ 64 + (2 ^ 64 - fee % 2 ^ 64)) % 2 ^ 64 = r := by omega
  unfold validateMinerTransaction
  simp only [moneyInUse, notThree, false_and, if_false, reward, Option.bind_eq_bind,
    Option.bind_some, Nat.lt_irrefl, ne_eq, not_true, claimed]
  split <;> rfl

/-- The miner transaction built for a template passes both checks of the block at its height. -/
theorem constructMinerTx_validates
    (height medianWeight currentBlockWeight alreadyGeneratedCoins fee maxOuts hardForkVersion
      currentVersion r : Nat)
    (outputKey : Nat → Option PublicKey) (txPubKey : PublicKey) (extraNonce : List UInt8)
    (nonce : extraNonce.length ≤ TX_EXTRA_NONCE_MAX_COUNT) (derives : ∀ no, (outputKey no).isSome)
    (outs : 1 ≤ maxOuts) (version : 4 ≤ hardForkVersion)
    (reward : getBlockReward medianWeight currentBlockWeight alreadyGeneratedCoins
      hardForkVersion = some r) :
    ∃ tx, constructMinerTx height medianWeight alreadyGeneratedCoins currentBlockWeight fee
        outputKey txPubKey extraNonce maxOuts hardForkVersion = some tx ∧
      tx.vout.length ≤ maxOuts ∧
      (tx.vout.map fun out => out.amount.toNat).sum = (r + fee) % 2 ^ 64 ∧
      prevalidateMinerTransaction tx height = true ∧
      validateMinerTransaction tx medianWeight currentBlockWeight fee alreadyGeneratedCoins
        hardForkVersion currentVersion = some (r, false) := by
  obtain ⟨tx, built, _, gen, locked, length, paid⟩ :=
    constructMinerTx_eq height fee txPubKey nonce derives outs version reward
  exact ⟨tx, built, length, paid,
    prevalidateMinerTransaction_of gen locked (paid ▸ Nat.mod_lt _ (by decide)),
    validateMinerTransaction_of reward (by omega) paid⟩

/-- A key of zero bytes, standing for the keys of a miner address. -/
def zeroKey : PublicKey := ⟨List.replicate 32 0, List.length_replicate⟩

theorem constructMinerTx_validates_at_ten :
    ([] : List UInt8).length ≤ TX_EXTRA_NONCE_MAX_COUNT ∧ (∀ _ : Nat, (some zeroKey).isSome) ∧
      1 ≤ 2 ∧ 4 ≤ 4 ∧ getBlockReward 300000 1000 1 4 = some 35184372088831 ∧
      ∃ tx, constructMinerTx 10 300000 1 1000 5 (fun _ => some zeroKey) zeroKey [] 2 4 = some tx ∧
        tx.vout.length ≤ 2 ∧
        (tx.vout.map fun out => out.amount.toNat).sum = (35184372088831 + 5) % 2 ^ 64 ∧
        prevalidateMinerTransaction tx 10 = true ∧
        validateMinerTransaction tx 300000 1000 5 1 4 4 = some (35184372088831, false) :=
  have reward : getBlockReward 300000 1000 1 4 = some 35184372088831 := by decide
  ⟨by decide, fun _ => rfl, by decide, by decide, reward,
    constructMinerTx_validates 10 300000 1000 1 5 2 4 4 35184372088831 (fun _ => some zeroKey)
      zeroKey [] (by decide) (fun _ => rfl) (by decide) (by decide) reward⟩

/-- The builder refuses an extra nonce over 255 bytes, and a reward plus fee past `uint64_t` is
paid wrapped. -/
theorem constructMinerTx_long_nonce_or_wrapped_fee :
    constructMinerTx 10 300000 1 1000 5 (fun _ => some zeroKey) zeroKey (List.replicate 256 0) 2 4
        = none ∧
      getBlockReward 300000 1000 1 4 = some 35184372088831 ∧
      (constructMinerTx 10 300000 1 1000 (2 ^ 64 - 1) (fun _ => some zeroKey) zeroKey [] 2 4).map
        (fun tx => (tx.vout.map fun out => out.amount.toNat).sum) = some 35184372088830 := by
  decide +kernel

end GraftNetwork.Core.MinerTx

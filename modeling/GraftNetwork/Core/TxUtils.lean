import Mathlib.Data.List.Sort
import Mathlib.Data.UInt
import GraftNetwork.Lib.Permutation
import GraftNetwork.Lib.Words
import GraftNetwork.Serialization.Transaction

/-!
# The inputs of a constructed transaction

`construct_tx_with_tx_key` (cryptonote_tx_utils.cpp) turns the sources a wallet picked into the
inputs of a transaction: one `txin_to_key` for each source, with its amount, the key image of its
real output and its ring as relative offsets. It then sorts the inputs by key image, the largest
first, and applies that permutation to the inputs, their ephemeral keys and the caller's sources at
once. The account's keys, the device and the stages of the extra field are parameters:
`AccountKeys` says what they compute.

* `relative_absolute_offsets`: the ring comes back from its relative offsets, sorted.
* `fillInputs_some`: the loop over the sources builds each one's input and adds up the amounts in
  64 bits; `insOrder_pairwise`: the sort lists the key images from the largest down.
* `construct_tx_inputs_follow_sources`: whenever the construction succeeds, the sources are
  permuted like the inputs, each input is its source's, and the key images strictly decrease.
* `construct_tx_accepts_wrapped_outputs`: the check of the money compares 64-bit sums, so outputs
  whose sum wraps pass it.
-/

namespace GraftNetwork.Core.TxUtils

open GraftNetwork.Serialization

/-- rct::RangeProofType. -/
inductive RangeProofType where
  | rangeProofBorromean
  | rangeProofBulletproof
  | rangeProofMultiOutputBulletproof
  | rangeProofPaddedBulletproof
deriving DecidableEq, Repr

/-- transaction::tx_type_rta. -/
def txTypeRta : UInt64 := 1

/-- `tx_source_entry`: the ring, each member its global output index and its key
(`ctkey.dest`), the index of the real output in it, what finds the real output's key image, the
amount, whether the output is RingCT, and the key image of `multisig_kLRki`. -/
structure TxSourceEntry where
  outputs : List (UInt64 × PublicKey)
  realOutput : Nat
  realOutTxKey : PublicKey
  realOutAdditionalTxKeys : List PublicKey
  realOutputInTxIndex : Nat
  amount : UInt64
  rct : Bool
  multisigKLRkiKi : KeyImage
deriving DecidableEq, Repr

/-- `tx_destination_entry`: the amount, the address as its spend and view public keys, and
whether it is a subaddress. -/
structure TxDestinationEntry where
  amount : UInt64
  addr : PublicKey × PublicKey
  isSubaddress : Bool
deriving DecidableEq, Repr

/-- What the account's keys and the device compute for the construction: `generate_key_image_helper`
of a real output (its key, the transaction's public key and additional keys, and its index there),
which gives the public key of `in_ephemeral` and the key image; the one-time key of each output,
with the checks of its derivation and of the additional keys; and the stages of `tx.extra` (the
encrypted payment id, the stake transaction's key and the transaction's public keys). Each is
`none` where the source's call fails. -/
structure AccountKeys where
  generateKeyImageHelper : PublicKey → PublicKey → List PublicKey → Nat → Option (PublicKey × KeyImage)
  deriveOutputKey : Nat → TxDestinationEntry → Option PublicKey
  txExtra : List UInt8 → Option (List UInt8)

/-! ## Ring offsets -/

/-- relative_output_offsets_to_absolute: `res[i] += res[i-1]` for `i` from 1 up. -/
def relativeOutputOffsetsToAbsolute (off : List UInt64) : List UInt64 :=
  (List.range (off.length - 1)).foldl
    (fun res i => res.set (i + 1) (res.getD (i + 1) 0 + res.getD i 0)) off

/-- absolute_output_offsets_to_relative: sorted, then `res[i] -= res[i-1]` for `i` from the last
down to 1. -/
def absoluteOutputOffsetsToRelative (off : List UInt64) : List UInt64 :=
  if off.isEmpty then off
  else
    let res := off.insertionSort (· ≤ ·)
    (List.range (res.length - 1)).reverse.foldl
      (fun res i => res.set (i + 1) (res.getD (i + 1) 0 - res.getD i 0)) res

/-- The loop of `absolute_output_offsets_to_relative` over the indices below `k`, from the last: on
a list that agrees with `s` up to `k`, it leaves the first entry, puts the difference of
neighbours of `s` up to `k`, and leaves the entries above. -/
theorem foldr_differences (s : List UInt64) :
    ∀ k, k < s.length → ∀ t : List UInt64, t.length = s.length →
      (∀ j ≤ k, t.getD j 0 = s.getD j 0) →
      let res := (List.range k).foldr
        (fun i res => res.set (i + 1) (res.getD (i + 1) 0 - res.getD i 0)) t
      res.length = s.length ∧ res.getD 0 0 = s.getD 0 0 ∧
        (∀ j, 0 < j → j ≤ k → res.getD j 0 = s.getD j 0 - s.getD (j - 1) 0) ∧
        ∀ j, k < j → res.getD j 0 = t.getD j 0
  | 0, _, t, length, agree => ⟨length, agree 0 (Nat.le_refl 0), fun _ pos le => absurd le (by omega),
      fun _ _ => rfl⟩
  | k + 1, bound, t, length, agree => by
    intro res
    -- the highest index goes first; below it the list still agrees with `s`
    let t' := t.set (k + 1) (t.getD (k + 1) 0 - t.getD k 0)
    have lengthT : (k + 1) < t.length := by omega
    have agree' : ∀ j ≤ k, t'.getD j 0 = s.getD j 0 := fun j le => by
      rw [Permute.getD_set_of_lt lengthT, if_neg (by omega), agree j (by omega)]
    obtain ⟨length', first, below, above⟩ :=
      foldr_differences s k (by omega) t' (by simpa [t'] using length) agree'
    have unfolded : res = (List.range k).foldr
        (fun i res => res.set (i + 1) (res.getD (i + 1) 0 - res.getD i 0)) t' := by
      simp only [res, t', List.range_succ, List.foldr_append, List.foldr_cons, List.foldr_nil]
    rw [unfolded]
    refine ⟨length', first, fun j pos le => ?_, fun j lt => ?_⟩
    · rcases Nat.lt_or_ge k j with above' | within
      · have atTop : j = k + 1 := by omega
        subst atTop
        rw [above (k + 1) (by omega), Permute.getD_set_of_lt lengthT, if_pos rfl,
          agree (k + 1) le_rfl, agree k (by omega)]
        rfl
      · exact below j pos within
    · rw [above j (by omega), Permute.getD_set_of_lt lengthT, if_neg (by omega)]

/-- The loop of `relative_output_offsets_to_absolute` over the indices below `k` on the
differences of neighbours of `s`: it rebuilds `s` up to `k` and leaves the entries above. -/
theorem foldl_sums {s r : List UInt64} (length : r.length = s.length)
    (first : r.getD 0 0 = s.getD 0 0)
    (differences : ∀ j, 0 < j → j < s.length → r.getD j 0 = s.getD j 0 - s.getD (j - 1) 0) :
    ∀ k, k < s.length →
      let res := (List.range k).foldl
        (fun res i => res.set (i + 1) (res.getD (i + 1) 0 + res.getD i 0)) r
      res.length = s.length ∧ ∀ j, res.getD j 0 = if j ≤ k then s.getD j 0 else r.getD j 0
  | 0, _ => ⟨length, fun j => by
      by_cases zero : j = 0
      · subst zero
        rw [if_pos le_rfl]
        exact first
      · rw [if_neg (by omega)]
        rfl⟩
  | k + 1, bound => by
    intro res
    obtain ⟨length', sums⟩ := foldl_sums length first differences k (by omega)
    have unfolded : res = List.set ((List.range k).foldl
        (fun res i => res.set (i + 1) (res.getD (i + 1) 0 + res.getD i 0)) r) (k + 1)
        (List.getD ((List.range k).foldl
          (fun res i => res.set (i + 1) (res.getD (i + 1) 0 + res.getD i 0)) r) (k + 1) 0 +
         List.getD ((List.range k).foldl
          (fun res i => res.set (i + 1) (res.getD (i + 1) 0 + res.getD i 0)) r) k 0) := by
      simp only [res, List.range_succ, List.foldl_append, List.foldl_cons, List.foldl_nil]
    rw [unfolded]
    refine ⟨by simpa using length', fun j => ?_⟩
    rw [Permute.getD_set_of_lt (by omega)]
    by_cases atTop : k + 1 = j
    · -- the difference at `k + 1` added to the rebuilt entry at `k`
      subst atTop
      rw [if_pos rfl, if_pos le_rfl, sums (k + 1), if_neg (by omega), sums k, if_pos le_rfl,
        differences (k + 1) (by omega) bound, Nat.add_sub_cancel, UInt64.sub_add_cancel]
    · rw [if_neg atTop, sums j]
      by_cases le : j ≤ k
      · rw [if_pos le, if_pos (by omega)]
      · rw [if_neg le, if_neg (by omega)]

/-- The ring comes back from its relative offsets, sorted. -/
theorem relative_absolute_offsets (off : List UInt64) :
    relativeOutputOffsetsToAbsolute (absoluteOutputOffsetsToRelative off) =
      off.insertionSort (· ≤ ·) := by
  unfold absoluteOutputOffsetsToRelative
  split
  · next empty =>
    rw [List.isEmpty_iff.mp empty]
    rfl
  · next nonempty =>
    set sorted := off.insertionSort (· ≤ ·)
    have positive : 0 < sorted.length := by
      rw [List.length_insertionSort]
      exact List.length_pos_iff.mpr (fun nil => nonempty (List.isEmpty_iff.mpr nil))
    rw [List.foldl_reverse]
    obtain ⟨length, first, below, -⟩ := foldr_differences sorted (sorted.length - 1) (by omega)
      sorted rfl fun _ _ => rfl
    obtain ⟨length', sums⟩ := foldl_sums length first
      (fun j pos lt => below j pos (by omega)) (sorted.length - 1) (by omega)
    unfold relativeOutputOffsetsToAbsolute
    rw [length]
    apply List.ext_getElem length'
    intro j inRes inSorted
    have entry := sums j
    rw [if_pos (by omega), ← List.getElem_eq_getD 0, ← List.getElem_eq_getD 0] at entry
    exact entry

/-! ## The construction -/

/-- One round of the loop `fill inputs`: the real output must be in the ring, the key image helper
must succeed and, without multisig, derive the real output's key. The input carries the amount,
the key image (the multisig one with `msout`) and the ring as relative offsets; the round also
gives the ephemeral key for `in_contexts`. -/
def sourceInput (keys : AccountKeys) (msout : Bool) (srcEntr : TxSourceEntry) :
    Option (TxinToKey × PublicKey) := do
  let out ← srcEntr.outputs[srcEntr.realOutput]?
  let (inEphemeral, img) ← keys.generateKeyImageHelper out.2 srcEntr.realOutTxKey
    srcEntr.realOutAdditionalTxKeys srcEntr.realOutputInTxIndex
  if !msout && inEphemeral != out.2 then none
  else
    let inputToKey : TxinToKey :=
      { amount := srcEntr.amount
        keyOffsets := absoluteOutputOffsetsToRelative (srcEntr.outputs.map (·.1))
        kImage := if msout then srcEntr.multisigKLRkiKi else img }
    pure (inputToKey, inEphemeral)

/-- The loop `fill inputs` over the sources, adding up `summary_inputs_money` in 64 bits: the
inputs, the ephemeral keys and the sum, or `none` where a round fails. -/
def fillInputs (keys : AccountKeys) (msout : Bool) :
    List TxSourceEntry → UInt64 → Option (List TxinToKey × List PublicKey × UInt64)
  | [], summaryInputsMoney => some ([], [], summaryInputsMoney)
  | srcEntr :: sources, summaryInputsMoney => do
    let (inputToKey, inEphemeral) ← sourceInput keys msout srcEntr
    let (vin, inContexts, total) ← fillInputs keys msout sources (summaryInputsMoney + srcEntr.amount)
    pure (inputToKey :: vin, inEphemeral :: inContexts, total)

instance : Inhabited TxinToKey := ⟨⟨0, [], zeroBlob 32⟩⟩

/-- The comparator of the sort, `memcmp(&tk0.k_image, &tk1.k_image, sizeof(tk0.k_image)) > 0`. -/
def keyImageGreater (kImage kImage' : KeyImage) : Bool := 0 < Words.memcmp kImage.bytes kImage'.bytes

/-- `ins_order`: the indices of the inputs sorted by `std::sort` with `keyImageGreater`, the
greater key image first. `std::sort` leaves the order of equal key images open, and the model
keeps it; on distinct key images the two agree. -/
def insOrder (vin : List TxinToKey) : List Nat :=
  (List.range vin.length).insertionSort fun i0 i1 =>
    keyImageGreater (vin.getD i1 default).kImage (vin.getD i0 default).kImage = false

/-- The swap that `apply_permutation` makes on `tx.vin`, `in_contexts` and `sources` at once. -/
def swapInputs (i0 i1 : Nat) (state : List TxinToKey × List PublicKey × List TxSourceEntry) :
    List TxinToKey × List PublicKey × List TxSourceEntry :=
  (state.1.swap i0 i1, state.2.1.swap i0 i1, state.2.2.swap i0 i1)

/-- The loop `fill outputs`, adding up `summary_outs_money` in 64 bits: an output of version 1
must have an amount, and each one-time key must be derived. -/
def fillOutputs (keys : AccountKeys) (version : UInt64) :
    Nat → List TxDestinationEntry → UInt64 → Option (List TxOut × UInt64)
  | _, [], summaryOutsMoney => some ([], summaryOutsMoney)
  | outputIndex, dstEntr :: destinations, summaryOutsMoney => do
    if !(0 < dstEntr.amount || 1 < version) then none
    else
      let outEphPublicKey ← keys.deriveOutputKey outputIndex dstEntr
      let (vout, total) ← fillOutputs keys version (outputIndex + 1) destinations
        (summaryOutsMoney + dstEntr.amount)
      pure (⟨dstEntr.amount, .txoutToKey ⟨outEphPublicKey⟩⟩ :: vout, total)

/-- The checks of non-simple RingCT, used for one source with Borromean range proofs: every
source has the first one's real output index and ring size. -/
def rctSourcesOk (sources : List TxSourceEntry) (rangeProofType : RangeProofType) : Bool :=
  let useSimpleRct := 1 < sources.length || rangeProofType != .rangeProofBorromean
  let nTotalOuts := (sources.head?.map (·.outputs.length)).getD 0
  useSimpleRct || (sources.all fun srcEntr => srcEntr.realOutput == (sources.head?.map (·.realOutput)).getD 0) &&
    sources.all fun srcEntr => srcEntr.outputs.length == nTotalOuts

/-- The amounts of RingCT sources' inputs are zeroed once they are encrypted. -/
def maskAmounts (vin : List TxinToKey) (sources : List TxSourceEntry) : List TxinToKey :=
  (vin.zip sources).map fun (input, srcEntr) => if srcEntr.rct then { input with amount := 0 } else input

/-- `construct_tx_with_tx_key`: whether it returns true, the caller's `sources` after it, and the
prefix of `tx`. `shuffle` is the order `std::shuffle` gives the destinations. The signatures are
left out: their checks hold once the data checks here pass. Where the source returns false with a
half-built transaction, the model's prefix is not that one. -/
def constructTxWithTxKey (keys : AccountKeys) (sources : List TxSourceEntry)
    (destinations : List TxDestinationEntry) (extra : List UInt8) (unlockTime : UInt64)
    (rct : Bool) (rangeProofType : RangeProofType) (msout shuffleOuts : Bool) (txType : UInt64)
    (shuffle : List TxDestinationEntry → List TxDestinationEntry) :
    Bool × List TxSourceEntry × TransactionPrefix :=
  let version : UInt64 := if rct then (if txType = txTypeRta then 3 else 2) else 1
  let tx : TransactionPrefix := ⟨version, unlockTime, [], [], extra⟩
  if sources.isEmpty then (false, sources, tx)
  else match keys.txExtra extra with
  | none => (false, sources, tx)
  | some extra =>
    let tx := { tx with extra }
    match fillInputs keys msout sources 0 with
    | none => (false, sources, tx)
    | some (vin, inContexts, summaryInputsMoney) =>
      let destinations := if shuffleOuts then shuffle destinations else destinations
      -- sort the inputs by their key image, and the sources with them
      match Permute.applyPermutation swapInputs (insOrder vin) (vin, inContexts, sources) with
      | none => (false, sources, tx)
      | some (vin, _, sources) =>
        match fillOutputs keys version 0 destinations 0 with
        | none => (false, sources, { tx with vin := vin.map .txinToKey })
        | some (vout, summaryOutsMoney) =>
          let tx := { tx with vin := vin.map .txinToKey, vout }
          if summaryOutsMoney > summaryInputsMoney then (false, sources, tx)
          else if version = 1 then (true, sources, tx)
          else if !rctSourcesOk sources rangeProofType then (false, sources, tx)
          else
            -- the amounts are encrypted now: zero those of RingCT inputs and of every output
            let vin := (maskAmounts vin sources).map TxinV.txinToKey
            (true, sources, { tx with vin, vout := vout.map fun out => { out with amount := 0 } })

/-! ## What a successful construction holds -/

/-- The loop over the sources gives each one's input and ephemeral key at its index, and the
sum of the amounts in 64 bits. -/
theorem fillInputs_some (keys : AccountKeys) (msout : Bool) :
    ∀ (sources : List TxSourceEntry) (summary : UInt64) {vin : List TxinToKey}
      {inContexts : List PublicKey} {total : UInt64},
      fillInputs keys msout sources summary = some (vin, inContexts, total) →
        vin.length = sources.length ∧ inContexts.length = sources.length ∧
        total = summary + (sources.map (·.amount)).sum ∧
        ∀ (j : Nat) srcEntr, sources[j]? = some srcEntr → ∃ input inEphemeral,
          vin[j]? = some input ∧ inContexts[j]? = some inEphemeral ∧
          sourceInput keys msout srcEntr = some (input, inEphemeral)
  | [], summary, vin, inContexts, total, filled => by
    simp only [fillInputs, Option.some.injEq, Prod.mk.injEq] at filled
    obtain ⟨rfl, rfl, rfl⟩ := filled
    exact ⟨rfl, rfl, by simp, fun j _ absent => by simp at absent⟩
  | srcEntr :: sources, summary, vin, inContexts, total, filled => by
    cases round : sourceInput keys msout srcEntr with
    | none => simp [fillInputs, round] at filled
    | some pair =>
      cases rest : fillInputs keys msout sources (summary + srcEntr.amount) with
      | none => simp [fillInputs, round, rest] at filled
      | some tail =>
        obtain ⟨length, lengthContexts, sum, inputs⟩ := fillInputs_some keys msout sources _ rest
        simp only [fillInputs, round, rest, Option.bind_eq_bind, Option.bind_some,
          Option.pure_def, Option.some.injEq, Prod.mk.injEq] at filled
        obtain ⟨rfl, rfl, rfl⟩ := filled
        refine ⟨by simp [length], by simp [lengthContexts], by
          rw [sum, List.map_cons, List.sum_cons, UInt64.add_assoc], fun j src found => ?_⟩
        cases j with
        | zero =>
          simp only [List.getElem?_cons_zero, Option.some.injEq] at found
          exact ⟨pair.1, pair.2, rfl, rfl, found ▸ round⟩
        | succ j => exact inputs j src (by simpa using found)

/-- Without multisig, a source's input has its amount, the key image of its real output, whose key
the helper derived as the ephemeral one, and its ring as relative offsets. -/
theorem sourceInput_some {keys : AccountKeys} {srcEntr : TxSourceEntry} {input : TxinToKey}
    {inEphemeral : PublicKey} (built : sourceInput keys false srcEntr = some (input, inEphemeral)) :
    ∃ out, srcEntr.outputs[srcEntr.realOutput]? = some out ∧
      keys.generateKeyImageHelper out.2 srcEntr.realOutTxKey srcEntr.realOutAdditionalTxKeys
        srcEntr.realOutputInTxIndex = some (out.2, input.kImage) ∧
      input = ⟨srcEntr.amount, absoluteOutputOffsetsToRelative (srcEntr.outputs.map (·.1)),
        input.kImage⟩ := by
  unfold sourceInput at built
  cases real : srcEntr.outputs[srcEntr.realOutput]? with
  | none => simp [real] at built
  | some out =>
    cases helper : keys.generateKeyImageHelper out.2 srcEntr.realOutTxKey
        srcEntr.realOutAdditionalTxKeys srcEntr.realOutputInTxIndex with
    | none => simp [real, helper] at built
    | some derived =>
      obtain ⟨ephemeral, img⟩ := derived
      -- the helper must derive the real output's key
      by_cases derives : ephemeral = out.2
      · subst derives
        simp only [real, helper, Option.bind_eq_bind, Option.bind_some, bne_self_eq_false,
          Bool.not_false, Bool.false_eq_true, if_false, Option.pure_def] at built
        obtain ⟨rfl, -⟩ := built
        exact ⟨out, rfl, helper, rfl⟩
      · simp [real, helper, derives] at built

theorem blob_eq_of_bytes {size : Nat} {a b : Blob size} (same : a.bytes = b.bytes) : a = b := by
  cases a
  cases b
  cases same
  rfl

/-- `keyImageGreater` on key images of 32 bytes compares their big-endian values. -/
theorem keyImageGreater_iff (kImage kImage' : KeyImage) :
    keyImageGreater kImage kImage' = true ↔
      Words.beValue kImage'.bytes < Words.beValue kImage.bytes := by
  unfold keyImageGreater
  rw [decide_eq_true_iff]
  exact Words.memcmp_pos_iff (kImage.length_eq.trans kImage'.length_eq.symm)

/-- The sorted indices list the inputs' key images from the largest down. -/
theorem insOrder_pairwise (vin : List TxinToKey) :
    (insOrder vin).Pairwise fun i0 i1 => Words.beValue (vin.getD i1 default).kImage.bytes ≤
      Words.beValue (vin.getD i0 default).kImage.bytes := by
  let value := fun i => Words.beValue (vin.getD i default).kImage.bytes
  have before : ∀ i0 i1, keyImageGreater (vin.getD i1 default).kImage
      (vin.getD i0 default).kImage = false ↔ value i1 ≤ value i0 := fun i0 i1 => by
    rw [← Bool.not_eq_true, keyImageGreater_iff]
    exact Nat.not_lt
  -- the comparator of the sort, as a relation, is total and transitive
  let r := fun i0 i1 => keyImageGreater (vin.getD i1 default).kImage
    (vin.getD i0 default).kImage = false
  have : Std.Total r := ⟨fun i0 i1 => by
    simp only [r, before]
    exact Nat.le_total _ _⟩
  have : IsTrans Nat r := ⟨fun i0 i1 i2 first second => by
    simp only [r, before] at first second ⊢
    exact Nat.le_trans second first⟩
  exact (List.pairwise_insertionSort r (List.range vin.length)).imp fun ordered =>
    (before _ _).mp ordered

/-- `apply_permutation` with `swapInputs` permutes the inputs, the ephemeral keys and the sources
together. -/
theorem transposes_swapInputs (n : Nat) :
    Permute.Transposes swapInputs
      (fun state (j : Fin n) => (state.1[j.val]?, state.2.1[j.val]?, state.2.2[j.val]?))
      (fun state => state.1.length = n ∧ state.2.1.length = n ∧ state.2.2.length = n) :=
  Permute.transposes_swap.prod (Permute.transposes_swap.prod Permute.transposes_swap)

/-- A construction that returns true went through every stage: the inputs were built and sorted
with the sources, the outputs were built, and their 64-bit sum is within the inputs'. The inputs
it reports are the sorted ones, their amounts zeroed for RingCT sources of a RingCT
transaction. -/
theorem constructTxWithTxKey_ok {keys : AccountKeys} {sources : List TxSourceEntry}
    {destinations : List TxDestinationEntry} {extra : List UInt8} {unlockTime : UInt64} {rct : Bool}
    {rangeProofType : RangeProofType} {msout shuffleOuts : Bool} {txType : UInt64}
    {shuffle : List TxDestinationEntry → List TxDestinationEntry}
    (ok : (constructTxWithTxKey keys sources destinations extra unlockTime rct rangeProofType msout
      shuffleOuts txType shuffle).1 = true) :
    let result := constructTxWithTxKey keys sources destinations extra unlockTime rct rangeProofType
      msout shuffleOuts txType shuffle
    ∃ vin inContexts summaryInputsMoney vin' inContexts' vout summaryOutsMoney,
      fillInputs keys msout sources 0 = some (vin, inContexts, summaryInputsMoney) ∧
      Permute.applyPermutation swapInputs (insOrder vin) (vin, inContexts, sources) =
        some (vin', inContexts', result.2.1) ∧
      fillOutputs keys (if rct then (if txType = txTypeRta then 3 else 2) else 1) 0
        (if shuffleOuts then shuffle destinations else destinations) 0 =
        some (vout, summaryOutsMoney) ∧
      summaryOutsMoney ≤ summaryInputsMoney ∧
      result.2.2.vin = (if rct then maskAmounts vin' result.2.1 else vin').map TxinV.txinToKey := by
  intro result
  unfold result
  unfold constructTxWithTxKey at ok ⊢
  by_cases empty : sources.isEmpty = true
  · simp [empty] at ok
  cases extraOk : keys.txExtra extra with
  | none => simp [empty, extraOk] at ok
  | some extra' =>
    cases inputs : fillInputs keys msout sources 0 with
    | none => simp [empty, extraOk, inputs] at ok
    | some built =>
      obtain ⟨vin, inContexts, summaryInputsMoney⟩ := built
      cases permuted : Permute.applyPermutation swapInputs (insOrder vin) (vin, inContexts, sources) with
      | none => simp [empty, extraOk, inputs, permuted] at ok
      | some sorted =>
        obtain ⟨vin', inContexts', sources'⟩ := sorted
        cases outputs : fillOutputs keys (if rct then (if txType = txTypeRta then 3 else 2) else 1) 0
            (if shuffleOuts then shuffle destinations else destinations) 0 with
        | none => simp [empty, extraOk, inputs, permuted, outputs] at ok
        | some built' =>
          obtain ⟨vout, summaryOutsMoney⟩ := built'
          by_cases overspent : summaryOutsMoney > summaryInputsMoney
          · simp [empty, extraOk, inputs, permuted, outputs, overspent] at ok
          · have within : summaryOutsMoney ≤ summaryInputsMoney := UInt64.not_lt.mp overspent
            refine ⟨vin, inContexts, summaryInputsMoney, vin', inContexts', vout, summaryOutsMoney,
              rfl, ?_, rfl, within, ?_⟩
            · -- every later branch returns the sorted sources
              simp only [empty, permuted, outputs, Bool.false_eq_true, if_false]
              split_ifs <;> rfl
            · -- a version 1 transaction keeps the amounts; a RingCT one passed its checks
              cases rct with
              | false =>
                simp only [Bool.false_eq_true, if_false] at outputs
                simp [empty, permuted, outputs, overspent]
              | true =>
                by_cases checked : rctSourcesOk sources' rangeProofType = true
                · by_cases rta : txType = txTypeRta <;> simp [rta] at outputs <;>
                    simp [empty, permuted, outputs, overspent, checked, rta]
                · by_cases rta : txType = txTypeRta <;> simp [rta] at outputs <;>
                    simp [empty, extraOk, inputs, permuted, outputs, overspent, checked, rta] at ok

/-- Masking keeps each input and zeroes the amount of a RingCT source's. -/
theorem maskAmounts_getElem? {vin : List TxinToKey} {sources : List TxSourceEntry} {j : Nat}
    {input : TxinToKey} {srcEntr : TxSourceEntry} (atInput : vin[j]? = some input)
    (atSource : sources[j]? = some srcEntr) :
    (maskAmounts vin sources)[j]? =
      some (if srcEntr.rct then { input with amount := 0 } else input) := by
  rw [maskAmounts, List.getElem?_map,
    (List.getElem?_zip_eq_some (z := (input, srcEntr))).mpr ⟨atInput, atSource⟩]
  rfl

/-- Without multisig, the loop over the sources gives each one the input of its real output. -/
theorem fillInputs_inputs {keys : AccountKeys} {sources : List TxSourceEntry} {summary : UInt64}
    {vin : List TxinToKey} {inContexts : List PublicKey} {total : UInt64}
    (filled : fillInputs keys false sources summary = some (vin, inContexts, total))
    {k : Nat} {srcEntr : TxSourceEntry} (atSource : sources[k]? = some srcEntr) :
    ∃ input out, vin[k]? = some input ∧ srcEntr.outputs[srcEntr.realOutput]? = some out ∧
      keys.generateKeyImageHelper out.2 srcEntr.realOutTxKey srcEntr.realOutAdditionalTxKeys
        srcEntr.realOutputInTxIndex = some (out.2, input.kImage) ∧
      input = ⟨srcEntr.amount, absoluteOutputOffsetsToRelative (srcEntr.outputs.map (·.1)),
        input.kImage⟩ := by
  obtain ⟨-, -, -, inputs⟩ := fillInputs_some keys false sources summary filled
  obtain ⟨input, _, atInput, -, built⟩ := inputs k srcEntr atSource
  obtain ⟨out, real, helper, shape⟩ := sourceInput_some built
  exact ⟨input, out, atInput, real, helper, shape⟩

/-- Inputs of sources at different indices carry different key images, when the sources' real
outputs have distinct keys and a key image determines the key it is derived from. -/
theorem fillInputs_keyImages_ne {keys : AccountKeys} {sources : List TxSourceEntry}
    {summary : UInt64} {vin : List TxinToKey} {inContexts : List PublicKey} {total : UInt64}
    (filled : fillInputs keys false sources summary = some (vin, inContexts, total))
    (distinct : (sources.map fun srcEntr => (srcEntr.outputs[srcEntr.realOutput]?).map (·.2)).Nodup)
    (determines : ∀ {key key' txKey txKey' additional additional' index index' ephemeral ephemeral'
      image}, keys.generateKeyImageHelper key txKey additional index = some (ephemeral, image) →
      keys.generateKeyImageHelper key' txKey' additional' index' = some (ephemeral', image) →
      key = key')
    {k k' : Nat} (different : k ≠ k') {input input' : TxinToKey} (atInput : vin[k]? = some input)
    (atInput' : vin[k']? = some input') : input.kImage ≠ input'.kImage := by
  obtain ⟨length, -, -, -⟩ := fillInputs_some keys false sources summary filled
  have bound : k < sources.length := length ▸ (List.getElem?_eq_some_iff.mp atInput).1
  have bound' : k' < sources.length := length ▸ (List.getElem?_eq_some_iff.mp atInput').1
  obtain ⟨input₀, out, atInput₀, real, helper, -⟩ :=
    fillInputs_inputs filled (List.getElem?_eq_getElem bound)
  obtain ⟨input₁, out', atInput₁, real', helper', -⟩ :=
    fillInputs_inputs filled (List.getElem?_eq_getElem bound')
  rw [atInput₀, Option.some.injEq] at atInput
  rw [atInput₁, Option.some.injEq] at atInput'
  subst atInput atInput'
  intro same
  -- the same key image comes from the same real output key, at two indices
  have keys' := determines helper (same ▸ helper')
  let realKey := fun srcEntr : TxSourceEntry => (srcEntr.outputs[srcEntr.realOutput]?).map (·.2)
  have inMap : k < (sources.map realKey).length := by simpa using bound
  have inMap' : k' < (sources.map realKey).length := by simpa using bound'
  have entries : (sources.map realKey)[k] = (sources.map realKey)[k'] := by
    simp only [List.getElem_map, realKey, real, real', keys', Option.map_some]
  exact different (distinct.getElem_inj_iff.mp entries)

/-- An input that the construction reports is a sorted one, its amount maybe zeroed. -/
theorem reported_getElem? {rct : Bool} {vin : List TxinToKey} {sources : List TxSourceEntry}
    {j : Nat} {tk : TxinToKey}
    (reported : ((if rct then maskAmounts vin sources else vin).map TxinV.txinToKey)[j]? =
      some (.txinToKey tk)) :
    ∃ input, vin[j]? = some input ∧ tk.kImage = input.kImage := by
  cases rct with
  | false =>
    simp only [Bool.false_eq_true, if_false, List.getElem?_map, Option.map_eq_some_iff,
      TxinV.txinToKey.injEq] at reported
    obtain ⟨input, atInput, rfl⟩ := reported
    exact ⟨input, atInput, rfl⟩
  | true =>
    rw [if_pos rfl, List.getElem?_map, Option.map_eq_some_iff] at reported
    obtain ⟨masked, atMasked, wrapped⟩ := reported
    rw [maskAmounts, List.getElem?_map, Option.map_eq_some_iff] at atMasked
    obtain ⟨⟨input, srcEntr⟩, atPair, rfl⟩ := atMasked
    obtain ⟨atInput, -⟩ := List.getElem?_zip_eq_some.mp atPair
    refine ⟨input, atInput, ?_⟩
    -- masking changes the amount only
    dsimp only at wrapped
    cases wrapped
    split <;> rfl

/-- Whenever `construct_tx_with_tx_key` without multisig returns true, on sources whose rings list
strictly increasing global indices and whose real outputs have distinct keys, with key images that
determine the key they are derived from: the caller's sources end up permuted by some `ρ`, like
the inputs; each input carries its source's amount (zeroed for a RingCT source of a RingCT
transaction), the key image derived for its real output, and offsets that
`relative_output_offsets_to_absolute` turns back into the ring's indices; and the key images
strictly decrease in `memcmp` order. -/
theorem construct_tx_inputs_follow_sources (keys : AccountKeys) (sources : List TxSourceEntry)
    (destinations : List TxDestinationEntry) (extra : List UInt8) (unlockTime : UInt64) (rct : Bool)
    (rangeProofType : RangeProofType) (shuffleOuts : Bool) (txType : UInt64)
    (shuffle : List TxDestinationEntry → List TxDestinationEntry)
    (increasing : ∀ srcEntr ∈ sources, (srcEntr.outputs.map (·.1)).Pairwise (· < ·))
    (distinct : (sources.map fun srcEntr => (srcEntr.outputs[srcEntr.realOutput]?).map (·.2)).Nodup)
    (determines : ∀ {key key' txKey txKey' additional additional' index index' ephemeral ephemeral'
      image}, keys.generateKeyImageHelper key txKey additional index = some (ephemeral, image) →
      keys.generateKeyImageHelper key' txKey' additional' index' = some (ephemeral', image) →
      key = key')
    (ok : (constructTxWithTxKey keys sources destinations extra unlockTime rct rangeProofType false
      shuffleOuts txType shuffle).1 = true) :
    let result := constructTxWithTxKey keys sources destinations extra unlockTime rct
      rangeProofType false shuffleOuts txType shuffle
    ∃ ρ : Equiv.Perm (Fin sources.length),
      (∀ j : Fin sources.length, result.2.1[j.val]? = sources[(ρ j).val]?) ∧
      result.2.1.length = sources.length ∧ result.2.2.vin.length = sources.length ∧
      (∀ (j : Nat) (srcEntr : TxSourceEntry), result.2.1[j]? = some srcEntr →
        ∃ out kImage keyOffsets, srcEntr.outputs[srcEntr.realOutput]? = some out ∧
          keys.generateKeyImageHelper out.2 srcEntr.realOutTxKey srcEntr.realOutAdditionalTxKeys
            srcEntr.realOutputInTxIndex = some (out.2, kImage) ∧
          result.2.2.vin[j]? =
            some (.txinToKey ⟨if rct && srcEntr.rct then 0 else srcEntr.amount, keyOffsets, kImage⟩) ∧
          relativeOutputOffsetsToAbsolute keyOffsets = srcEntr.outputs.map (·.1)) ∧
      ∀ (j k : Nat) (tk0 tk1 : TxinToKey), j < k → result.2.2.vin[j]? = some (.txinToKey tk0) →
        result.2.2.vin[k]? = some (.txinToKey tk1) → keyImageGreater tk0.kImage tk1.kImage = true := by
  intro result
  obtain ⟨vin, inContexts, summaryInputsMoney, vin', inContexts', vout, summaryOutsMoney, inputs,
    permuted, -, -, reported⟩ := constructTxWithTxKey_ok ok
  obtain ⟨length, lengthContexts, -, -⟩ := fillInputs_some keys false sources 0 inputs
  -- the sorted indices denote a permutation `ρ`, and the run applies it to all three lists
  have sortedPerm : (insOrder vin).Perm (List.range sources.length) :=
    length ▸ List.perm_insertionSort _ _
  obtain ⟨ρ, denotes⟩ := Permute.denotes_of_perm sortedPerm
  obtain ⟨state, run, ⟨length', -, lengthSources'⟩, view⟩ := Permute.applyPermutation_view
    (transposes_swapInputs sources.length) denotes (s := (vin, inContexts, sources))
    ⟨length, lengthContexts, rfl⟩
  rw [permuted, Option.some.injEq] at run
  subst run
  have atIndex : ∀ j : Fin sources.length, vin'[j.val]? = vin[(ρ j).val]? ∧
      result.2.1[j.val]? = sources[(ρ j).val]? := fun j => by
    have entries := congrFun view j
    simp only [Function.comp_apply, Prod.mk.injEq] at entries
    exact ⟨entries.1, entries.2.2⟩
  -- each sorted source's input is the one built for it
  have inputAt : ∀ (j : Nat) (srcEntr : TxSourceEntry), result.2.1[j]? = some srcEntr →
      srcEntr ∈ sources ∧ ∃ input out, vin'[j]? = some input ∧
        srcEntr.outputs[srcEntr.realOutput]? = some out ∧
        keys.generateKeyImageHelper out.2 srcEntr.realOutTxKey srcEntr.realOutAdditionalTxKeys
          srcEntr.realOutputInTxIndex = some (out.2, input.kImage) ∧
        input = ⟨srcEntr.amount, absoluteOutputOffsetsToRelative (srcEntr.outputs.map (·.1)),
          input.kImage⟩ := fun j srcEntr found => by
    have bound : j < sources.length := lengthSources' ▸ (List.getElem?_eq_some_iff.mp found).1
    obtain ⟨sortedInput, atSource⟩ := atIndex ⟨j, bound⟩
    rw [found] at atSource
    obtain ⟨input, out, atInput, real, helper, shape⟩ := fillInputs_inputs inputs atSource.symm
    exact ⟨List.mem_of_getElem? atSource.symm, input, out, sortedInput.trans atInput, real, helper,
      shape⟩
  refine ⟨ρ, fun j => (atIndex j).2, lengthSources', ?_, fun j srcEntr found => ?_, ?_⟩
  · rw [reported, List.length_map]
    split
    · simp [maskAmounts, length', lengthSources']
    · exact length'
  · obtain ⟨member, input, out, atInput, real, helper, shape⟩ := inputAt j srcEntr found
    refine ⟨out, input.kImage, absoluteOutputOffsetsToRelative (srcEntr.outputs.map (·.1)), real,
      helper, ?_, ?_⟩
    · rw [reported]
      cases rct with
      | false => simp [atInput, ← shape]
      | true =>
        rw [if_pos rfl, List.getElem?_map, maskAmounts_getElem? atInput found, shape]
        cases srcEntr.rct <;> rfl
    · -- the ring: a strictly increasing list is its own sort
      rw [relative_absolute_offsets]
      exact List.Pairwise.insertionSort_eq ((increasing srcEntr member).imp UInt64.le_of_lt)
  · intro j k tk0 tk1 lt at0 at1
    rw [reported] at at0 at1
    obtain ⟨input0, atInput0, image0⟩ := reported_getElem? at0
    obtain ⟨input1, atInput1, image1⟩ := reported_getElem? at1
    have boundK : k < sources.length := length' ▸ (List.getElem?_eq_some_iff.mp atInput1).1
    have boundJ : j < sources.length := Nat.lt_trans lt boundK
    -- the sorted inputs at `j` and `k` are the built ones at `ρ j` and `ρ k`
    have fromJ : vin[(ρ ⟨j, boundJ⟩).val]? = some input0 := (atIndex ⟨j, boundJ⟩).1 ▸ atInput0
    have fromK : vin[(ρ ⟨k, boundK⟩).val]? = some input1 := (atIndex ⟨k, boundK⟩).1 ▸ atInput1
    have apart : (ρ ⟨j, boundJ⟩).val ≠ (ρ ⟨k, boundK⟩).val := fun same =>
      (Nat.ne_of_lt lt) (congrArg Fin.val (ρ.injective (Fin.ext same)))
    have differ := fillInputs_keyImages_ne inputs distinct determines apart fromJ fromK
    -- `ins_order` lists them largest first
    have sortedJ : j < (insOrder vin).length := by rw [denotes.1]; exact boundJ
    have sortedK : k < (insOrder vin).length := by rw [denotes.1]; exact boundK
    have ordered := List.pairwise_iff_getElem.mp (insOrder_pairwise vin) j k sortedJ sortedK lt
    have entryJ : (insOrder vin)[j] = ρ ⟨j, boundJ⟩ := by
      rw [← denotes.apply_eq ⟨j, boundJ⟩, List.getD_eq_getElem?_getD, List.getElem?_eq_getElem]
      rfl
    have entryK : (insOrder vin)[k] = ρ ⟨k, boundK⟩ := by
      rw [← denotes.apply_eq ⟨k, boundK⟩, List.getD_eq_getElem?_getD, List.getElem?_eq_getElem]
      rfl
    rw [entryJ, entryK, List.getD_eq_getElem?_getD, List.getD_eq_getElem?_getD, fromJ, fromK,
      Option.getD_some, Option.getD_some] at ordered
    rw [image0, image1, keyImageGreater_iff]
    refine Nat.lt_of_le_of_ne ordered fun same => differ ?_
    exact blob_eq_of_bytes (Words.beValue_injective
      (input1.kImage.length_eq.trans input0.kImage.length_eq.symm) same).symm

/-- A key of 32 bytes whose first byte is `b`. -/
def keyOf (b : UInt8) : PublicKey := ⟨b :: List.replicate 31 0, by simp⟩

/-- Keys whose key image of an output is its own key, which the helper also derives as the
ephemeral key, and whose other stages pass. -/
def echoKeys : AccountKeys := ⟨fun key _ _ _ => some (key, key), fun _ _ => some (keyOf 0), some⟩

/-- A source of one ring member, the real one, of global index `index` and key `keyOf b`. -/
def sourceOf (index : UInt64) (b : UInt8) (amount : UInt64) : TxSourceEntry :=
  ⟨[(index, keyOf b)], 0, keyOf 0, [], 0, amount, false, keyOf 0⟩

def destinationOf (amount : UInt64) : TxDestinationEntry := ⟨amount, (keyOf 0, keyOf 0), false⟩

/-- Two sources whose real keys start with 1 and 2: the construction puts the second first, its
key image being the greater, and the sources with it. -/
theorem construct_tx_inputs_follow_sources_of_two :
    let result := constructTxWithTxKey echoKeys [sourceOf 3 1 5, sourceOf 4 2 6] [destinationOf 10]
      [] 0 false .rangeProofBorromean false false 0 id
    result.1 = true ∧ result.2.1 = [sourceOf 4 2 6, sourceOf 3 1 5] ∧
      ∃ ρ : Equiv.Perm (Fin [sourceOf 3 1 5, sourceOf 4 2 6].length),
        ∀ j, result.2.1[j.val]? = [sourceOf 3 1 5, sourceOf 4 2 6][(ρ j).val]? := by
  intro result
  have ok : result.1 = true := by decide +kernel
  obtain ⟨ρ, permuted, -⟩ := construct_tx_inputs_follow_sources echoKeys
    [sourceOf 3 1 5, sourceOf 4 2 6] [destinationOf 10] [] 0 false .rangeProofBorromean false 0 id
    (by decide) (by decide)
    (fun helper helper' => by
      simp only [echoKeys, Option.some.injEq, Prod.mk.injEq] at helper helper'
      exact helper.2.trans helper'.2.symm)
    ok
  exact ⟨ok, by decide +kernel, ρ, permuted⟩

/-- One source of amount 1 and two destinations of amounts `2 ^ 64 - 1` and 2: the 64-bit sum of
the outputs wraps to 1, within the inputs' 1, so the construction of a version 1 transaction
returns true although its outputs spend `2 ^ 64 + 1`. -/
theorem construct_tx_accepts_wrapped_outputs :
    (constructTxWithTxKey echoKeys [sourceOf 3 1 1]
      [destinationOf 0xFFFFFFFFFFFFFFFF, destinationOf 2] [] 0 false .rangeProofBorromean false
      false 0 id).1 = true ∧
    ([sourceOf 3 1 1].map (·.amount.toNat)).sum <
      ([destinationOf 0xFFFFFFFFFFFFFFFF, destinationOf 2].map (·.amount.toNat)).sum :=
  ⟨by decide +kernel, by decide⟩

end GraftNetwork.Core.TxUtils

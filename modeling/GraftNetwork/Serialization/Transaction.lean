import Mathlib.Data.List.Forall2
import GraftNetwork.Serialization.RctTypes

/-!
# Transactions in the binary format

`cryptonote::transaction` with the types of its inputs and outputs (cryptonote_basic.h) and the
two instantiations of its templated `serialize` body: `storeTransaction` for binary_archive<true>
and `loadTransaction` for binary_archive<false>. Both branch on what the prefix holds: a version 1
transaction carries one signature vector per input, sized by `get_signature_size`; a later one
with inputs carries a RingCT signature whose sizes come from the numbers of inputs and outputs and
the ring of the first input; from version 3 on, the Graft `type` and `extra2` follow.

* `parseBinary`, `dumpBinary`, `parseAndValidateTxFromBlob`: serialization::parse_binary,
  serialization::dump_binary and cryptonote::parse_and_validate_tx_from_blob.
* `Transaction.serializedPart`: the fields the format carries; `Transaction.WellFormed`: what the
  writer checks, with v1 signatures sized by the inputs.
* `dumpBinary_parseBinary`: a well-formed transaction is written, and the blob reads back as its
  serialized part. `dumpBinary_absent_signatures` shows why absent v1 signatures are not enough.
* `parseBinary_not_canonical`: the reader accepts blobs that the writer never writes, so the
  writer does not undo the reader.

A reader fills a fresh transaction (`transaction::set_null`), so the fields it does not read keep
the values of `set_null`.
-/

namespace GraftNetwork.Serialization

open Decoder

abbrev Hash := Blob 32

abbrev PublicKey := Blob 32

abbrev KeyImage := Blob 32

/-- CURRENT_TRANSACTION_VERSION (cryptonote_config.h). -/
def CURRENT_TRANSACTION_VERSION : UInt64 := 3

structure TxoutToScript where
  keys : List PublicKey
  script : List UInt8
deriving DecidableEq, Repr

structure TxoutToScripthash where
  hash : Hash
deriving DecidableEq, Repr

structure TxoutToKey where
  key : PublicKey
deriving DecidableEq, Repr

structure TxinGen where
  height : UInt64
deriving DecidableEq, Repr

structure TxinToScript where
  prev : Hash
  prevout : UInt64
  sigset : List UInt8
deriving DecidableEq, Repr

structure TxinToScripthash where
  prev : Hash
  prevout : UInt64
  script : TxoutToScript
  sigset : List UInt8
deriving DecidableEq, Repr

structure TxinToKey where
  amount : UInt64
  keyOffsets : List UInt64
  kImage : KeyImage
deriving DecidableEq, Repr

/-- txin_v, a boost::variant. -/
inductive TxinV where
  | txinGen (txin : TxinGen)
  | txinToScript (txin : TxinToScript)
  | txinToScripthash (txin : TxinToScripthash)
  | txinToKey (txin : TxinToKey)
deriving DecidableEq, Repr

/-- txout_target_v, a boost::variant. -/
inductive TxoutTargetV where
  | txoutToScript (target : TxoutToScript)
  | txoutToScripthash (target : TxoutToScripthash)
  | txoutToKey (target : TxoutToKey)
deriving DecidableEq, Repr

structure TxOut where
  amount : UInt64
  target : TxoutTargetV
deriving DecidableEq, Repr

structure TransactionPrefix where
  version : UInt64
  unlockTime : UInt64
  vin : List TxinV
  vout : List TxOut
  extra : List UInt8
deriving DecidableEq, Repr

/-- transaction::tx_type_generic. -/
def txTypeGeneric : UInt64 := 0

structure Transaction extends TransactionPrefix where
  signatures : List (List Signature)
  rctSignatures : RctSig
  type : UInt64
  extra2 : List UInt8
deriving DecidableEq, Repr

/-- transaction::get_signature_size: the ring size of a txin_to_key, no signature otherwise. -/
def getSignatureSize : TxinV → Nat
  | .txinToKey txin => txin.keyOffsets.length
  | _ => 0

/-- The mixin serialize_rctsig_prunable is called with: the ring size of the first input less one
as a `size_t`, when it is a txin_to_key, and 0 otherwise. -/
def mixinOf : List TxinV → Nat
  | .txinToKey txin :: _ => (txin.keyOffsets.length + 2 ^ 64 - 1) % 2 ^ 64
  | _ => 0

/-! ## Writing -/

def storeBytes (v : List UInt8) : List UInt8 := storeContainer storeUint8 v

def storeTxoutToScript (target : TxoutToScript) : List UInt8 :=
  storeContainer storeBlob target.keys ++ storeBytes target.script

def storeTxinGen (txin : TxinGen) : List UInt8 := writeVarint txin.height

def storeTxinToScript (txin : TxinToScript) : List UInt8 :=
  storeBlob txin.prev ++ writeVarint txin.prevout ++ storeBytes txin.sigset

def storeTxinToScripthash (txin : TxinToScripthash) : List UInt8 :=
  storeBlob txin.prev ++ writeVarint txin.prevout ++ storeTxoutToScript txin.script ++
    storeBytes txin.sigset

def storeTxinToKey (txin : TxinToKey) : List UInt8 :=
  writeVarint txin.amount ++ storeContainer writeVarint txin.keyOffsets ++ storeBlob txin.kImage

/-- A variant is written as its `VARIANT_TAG` byte and then the value. -/
def storeTxinV : TxinV → List UInt8
  | .txinGen txin => storeUint8 0xff ++ storeTxinGen txin
  | .txinToScript txin => storeUint8 0 ++ storeTxinToScript txin
  | .txinToScripthash txin => storeUint8 1 ++ storeTxinToScripthash txin
  | .txinToKey txin => storeUint8 2 ++ storeTxinToKey txin

def storeTxoutTargetV : TxoutTargetV → List UInt8
  | .txoutToScript target => storeUint8 0 ++ storeTxoutToScript target
  | .txoutToScripthash target => storeUint8 1 ++ storeBlob target.hash
  | .txoutToKey target => storeUint8 2 ++ storeBlob target.key

def storeTxOut (out : TxOut) : List UInt8 := writeVarint out.amount ++ storeTxoutTargetV out.target

/-- transaction_prefix::serialize for the writing archive; it refuses a version outside
1 .. CURRENT_TRANSACTION_VERSION. -/
def storeTransactionPrefix (tx : TransactionPrefix) : Option (List UInt8) :=
  if tx.version = 0 ∨ CURRENT_TRANSACTION_VERSION < tx.version then none
  else some (writeVarint tx.version ++ writeVarint tx.unlockTime ++ storeContainer storeTxinV tx.vin ++
    storeContainer storeTxOut tx.vout ++ storeBytes tx.extra)

/-- The version 1 signatures of transaction::serialize for the writing archive.
`signatures_not_expected` is `signatures.empty()`: then every input must need no signature, and
nothing is written. -/
def storeSignaturesV1 (vin : List TxinV) (signatures : List (List Signature)) : Option (List UInt8) :=
  if signatures ≠ [] ∧ vin.length ≠ signatures.length then none
  else if signatures = [] then
    if vin.all fun txin => getSignatureSize txin = 0 then some [] else none
  else List.flatten <$> (vin.zip signatures).mapM fun entry =>
    if getSignatureSize entry.1 ≠ entry.2.length then none else some (storeSignatures entry.2)

/-- The signatures of transaction::serialize for the writing archive: those of version 1, or the
RingCT signature of a later version when there are inputs. -/
def storeTransactionSignatures (tx : Transaction) : Option (List UInt8) :=
  if tx.version = 1 then storeSignaturesV1 tx.vin tx.signatures
  else if 2 ≤ tx.version ∧ tx.vin ≠ [] then
    storeRctSignatures tx.rctSignatures tx.vin.length tx.vout.length (mixinOf tx.vin)
  else some []

/-- The Graft fields of version 3: `type` as a `size_t` and `extra2`. -/
def storeTransactionType (tx : Transaction) : List UInt8 :=
  if 3 ≤ tx.version then storeUint64 tx.type ++ storeBytes tx.extra2 else []

/-- transaction::serialize for the writing archive. -/
def storeTransaction (tx : Transaction) : Option (List UInt8) := do
  let pre ← storeTransactionPrefix tx.toTransactionPrefix
  let signatures ← storeTransactionSignatures tx
  some (pre ++ signatures ++ storeTransactionType tx)

/-- serialization::dump_binary; the string stream it writes to stays good. -/
def dumpBinary (tx : Transaction) : Option (List UInt8) := storeTransaction tx

/-! ## Reading -/

def loadBytes : Decoder UInt8 (List UInt8) := loadContainer loadUint8

def loadTxoutToScript : Decoder UInt8 TxoutToScript := do
  let keys ← loadContainer (loadBlob 32)
  let script ← loadBytes
  pure ⟨keys, script⟩

def loadTxinGen : Decoder UInt8 TxinGen := do
  let height ← loadVarint
  pure ⟨height⟩

def loadTxinToScript : Decoder UInt8 TxinToScript := do
  let prev ← loadBlob 32
  let prevout ← loadVarint
  let sigset ← loadBytes
  pure ⟨prev, prevout, sigset⟩

def loadTxinToScripthash : Decoder UInt8 TxinToScripthash := do
  let prev ← loadBlob 32
  let prevout ← loadVarint
  let script ← loadTxoutToScript
  let sigset ← loadBytes
  pure ⟨prev, prevout, script, sigset⟩

def loadTxinToKey : Decoder UInt8 TxinToKey := do
  let amount ← loadVarint
  let keyOffsets ← loadContainer loadVarint
  let kImage ← loadBlob 32
  pure ⟨amount, keyOffsets, kImage⟩

/-- A variant is read by its tag byte; an unknown tag fails the stream. -/
def loadTxinV : Decoder UInt8 TxinV := do
  let tag ← loadUint8
  if tag = 0xff then TxinV.txinGen <$> loadTxinGen
  else if tag = 0 then TxinV.txinToScript <$> loadTxinToScript
  else if tag = 1 then TxinV.txinToScripthash <$> loadTxinToScripthash
  else if tag = 2 then TxinV.txinToKey <$> loadTxinToKey
  else failure

def loadTxoutTargetV : Decoder UInt8 TxoutTargetV := do
  let tag ← loadUint8
  if tag = 0 then TxoutTargetV.txoutToScript <$> loadTxoutToScript
  else if tag = 1 then (fun hash => TxoutTargetV.txoutToScripthash ⟨hash⟩) <$> loadBlob 32
  else if tag = 2 then (fun key => TxoutTargetV.txoutToKey ⟨key⟩) <$> loadBlob 32
  else failure

def loadTxOut : Decoder UInt8 TxOut := do
  let amount ← loadVarint
  let target ← loadTxoutTargetV
  pure ⟨amount, target⟩

/-- transaction_prefix::serialize for the reading archive. -/
def loadTransactionPrefix : Decoder UInt8 TransactionPrefix := do
  let version ← loadVarint
  if version = 0 ∨ CURRENT_TRANSACTION_VERSION < version then failure
  else do
    let unlockTime ← loadVarint
    let vin ← loadContainer loadTxinV
    let vout ← loadContainer loadTxOut
    let extra ← loadBytes
    pure ⟨version, unlockTime, vin, vout, extra⟩

/-- The version 1 signatures for the reading archive. `PREPARE_CUSTOM_VECTOR_SERIALIZATION` gives
`signatures` one entry per input, so `signatures_not_expected` holds only without inputs, and each
entry is read with its input's signature size. -/
def loadSignaturesV1 (vin : List TxinV) : Decoder UInt8 (List (List Signature)) :=
  vin.mapM fun txin => loadSignatures (getSignatureSize txin)

def loadTransactionSignatures (pre : TransactionPrefix) :
    Decoder UInt8 (List (List Signature) × RctSig) :=
  if pre.version = 1 then (fun signatures => (signatures, RctSig.null)) <$> loadSignaturesV1 pre.vin
  else if 2 ≤ pre.version ∧ pre.vin ≠ [] then
    (fun rv => ([], rv)) <$> loadRctSignatures pre.vin.length pre.vout.length (mixinOf pre.vin)
  else pure ([], RctSig.null)

def loadTransactionType (pre : TransactionPrefix) : Decoder UInt8 (UInt64 × List UInt8) :=
  if 3 ≤ pre.version then do
    let type ← loadUint64
    let extra2 ← loadBytes
    pure (type, extra2)
  else pure (txTypeGeneric, [])

/-- transaction::serialize for the reading archive, into a fresh transaction. -/
def loadTransaction : Decoder UInt8 Transaction := do
  let pre ← loadTransactionPrefix
  let signatures ← loadTransactionSignatures pre
  let graft ← loadTransactionType pre
  pure ⟨pre, signatures.1, signatures.2, graft.1, graft.2⟩

/-- serialization::parse_binary: the transaction read, when check_stream_state then finds the
stream good and at its end. -/
def parseBinary (blob : List UInt8) : Option Transaction :=
  match loadTransaction.run blob with
  | some (tx, []) => some tx
  | _ => none

def isCoinbase (tx : Transaction) : Bool :=
  match tx.vin with
  | [.txinGen _] => true
  | _ => false

def TxoutTargetV.isTxoutToKey : TxoutTargetV → Bool
  | .txoutToKey _ => true
  | _ => false

/-- expand_transaction_1(tx, false), its checks: for a RingCT transaction that is not a miner
transaction, one output commitment per output, only txout_to_key outputs, and for bulletproofs one
proof with room for the outputs. The model takes `1 << (L.size() - 6)` in `Nat`; it also leaves out
what the function fills in (the `dest` of the commitments, the bulletproof's `V`). -/
def expandTransaction1 (tx : Transaction) : Bool :=
  if 2 ≤ tx.version ∧ !isCoinbase tx then
    let rv := tx.rctSignatures
    if rv.outPk.length ≠ tx.vout.length then false
    else if !tx.vout.all fun out => out.target.isTxoutToKey then false
    else if rv.type = RCTTypeBulletproof then
      match rv.p.bulletproofs with
      | [proof] => 6 ≤ proof.L.length && tx.vout.length ≤ 1 <<< (proof.L.length - 6)
      | _ => false
    else true
  else true

/-- cryptonote::parse_and_validate_tx_from_blob. -/
def parseAndValidateTxFromBlob (blob : List UInt8) : Option Transaction := do
  let tx ← parseBinary blob
  if expandTransaction1 tx then some tx else none

/-! ## Well-formed transactions -/

/-- The fields of a transaction that the binary format carries. -/
def Transaction.serializedPart (tx : Transaction) : Transaction :=
  { toTransactionPrefix := tx.toTransactionPrefix
    signatures := if tx.version = 1 then tx.signatures else []
    rctSignatures :=
      if 2 ≤ tx.version ∧ tx.vin ≠ [] then tx.rctSignatures.serializedPart
      else RctSig.null
    type := if 3 ≤ tx.version then tx.type else txTypeGeneric
    extra2 := if 3 ≤ tx.version then tx.extra2 else [] }

def TxoutToScript.Fits (target : TxoutToScript) : Prop :=
  target.keys.length < 2 ^ 64 ∧ target.script.length < 2 ^ 64

def TxinV.Fits : TxinV → Prop
  | .txinGen _ => True
  | .txinToScript txin => txin.sigset.length < 2 ^ 64
  | .txinToScripthash txin => txin.script.Fits ∧ txin.sigset.length < 2 ^ 64
  | .txinToKey txin => txin.keyOffsets.length < 2 ^ 64

def TxOut.Fits (out : TxOut) : Prop :=
  match out.target with
  | .txoutToScript target => target.Fits
  | _ => True

instance TxoutToScript.decidableFits (target : TxoutToScript) : Decidable target.Fits :=
  inferInstanceAs (Decidable (_ ∧ _))

instance TxinV.decidableFits : (txin : TxinV) → Decidable txin.Fits
  | .txinGen _ => inferInstanceAs (Decidable True)
  | .txinToScript txin => inferInstanceAs (Decidable (txin.sigset.length < 2 ^ 64))
  | .txinToScripthash txin => inferInstanceAs (Decidable (txin.script.Fits ∧ _))
  | .txinToKey txin => inferInstanceAs (Decidable (txin.keyOffsets.length < 2 ^ 64))

instance TxOut.decidableFits (out : TxOut) : Decidable out.Fits :=
  match out with
  | ⟨_, .txoutToScript target⟩ => inferInstanceAs (Decidable target.Fits)
  | ⟨_, .txoutToScripthash _⟩ => inferInstanceAs (Decidable True)
  | ⟨_, .txoutToKey _⟩ => inferInstanceAs (Decidable True)

/-- Every vector of the prefix that the format writes with a count holds fewer than 2^64
elements, as the size of a `std::vector` does. -/
structure TransactionPrefix.Fits (tx : TransactionPrefix) : Prop where
  vin_length : tx.vin.length < 2 ^ 64
  vin_fits : ∀ txin ∈ tx.vin, txin.Fits
  vout_length : tx.vout.length < 2 ^ 64
  vout_fits : ∀ out ∈ tx.vout, out.Fits
  extra_length : tx.extra.length < 2 ^ 64

/-- A transaction the writer accepts and the reader gives back: a version the prefix allows, one
signature vector per input of version 1, each with the input's signature size, and a well-sized
RingCT signature for a later version with inputs. -/
structure Transaction.WellFormed (tx : Transaction) : Prop where
  version_pos : 0 < tx.version
  version_le : tx.version ≤ CURRENT_TRANSACTION_VERSION
  signatures_sized : tx.version = 1 →
    List.Forall₂ (fun txin signatures => signatures.length = getSignatureSize txin) tx.vin
      tx.signatures
  rct_sized : 2 ≤ tx.version → tx.vin ≠ [] →
    tx.rctSignatures.WellSized tx.vin.length tx.vout.length (mixinOf tx.vin)
  prefix_fits : tx.toTransactionPrefix.Fits
  extra2_length : tx.extra2.length < 2 ^ 64

/-! ## The round trip -/

theorem storeBytes_length (v : List UInt8) :
    (storeBytes v).length = (writeVarint (UInt64.ofNat v.length)).length + v.length := by
  simp [storeBytes, storeContainer, List.length_flatMap, storeUint8_length]

theorem readsBack_loadBytes {v : List UInt8} (fits : v.length < 2 ^ 64) :
    ReadsBack loadBytes (storeBytes v) v :=
  readsBack_loadContainer (fun b _ => readsBack_loadUint8 b)
    (fun b => Nat.le_of_eq (storeUint8_length b).symm) fits

theorem readsBack_loadTxoutToScript {target : TxoutToScript} (fits : target.Fits) :
    ReadsBack loadTxoutToScript (storeTxoutToScript target) target :=
  (readsBack_loadKeys fits.1).bind (readsBack_loadBytes fits.2).bind_pure

theorem readsBack_loadTxinGen (txin : TxinGen) : ReadsBack loadTxinGen (storeTxinGen txin) txin :=
  (readsBack_loadVarint txin.height).bind_pure

theorem readsBack_loadTxinToScript {txin : TxinToScript} (fits : txin.sigset.length < 2 ^ 64) :
    ReadsBack loadTxinToScript (storeTxinToScript txin) txin := by
  rw [storeTxinToScript, List.append_assoc]
  exact (readsBack_loadBlob txin.prev).bind ((readsBack_loadVarint txin.prevout).bind
    (readsBack_loadBytes fits).bind_pure)

theorem readsBack_loadTxinToScripthash {txin : TxinToScripthash}
    (fits : txin.script.Fits ∧ txin.sigset.length < 2 ^ 64) :
    ReadsBack loadTxinToScripthash (storeTxinToScripthash txin) txin := by
  simp only [storeTxinToScripthash, List.append_assoc]
  exact (readsBack_loadBlob txin.prev).bind ((readsBack_loadVarint txin.prevout).bind
    ((readsBack_loadTxoutToScript fits.1).bind (readsBack_loadBytes fits.2).bind_pure))

theorem readsBack_loadTxinToKey {txin : TxinToKey} (fits : txin.keyOffsets.length < 2 ^ 64) :
    ReadsBack loadTxinToKey (storeTxinToKey txin) txin := by
  have keyOffsets : ReadsBack (loadContainer loadVarint) (storeContainer writeVarint txin.keyOffsets)
      txin.keyOffsets :=
    readsBack_loadContainer (fun offset _ => readsBack_loadVarint offset)
      (fun offset => List.length_pos_iff.mpr (writeVarint_ne_nil offset)) fits
  rw [storeTxinToKey, List.append_assoc]
  exact (readsBack_loadVarint txin.amount).bind (keyOffsets.bind
    (readsBack_loadBlob txin.kImage).bind_pure)

/-- Each input reads back after its tag; the tag selects the alternative it was written from. -/
theorem readsBack_loadTxinV {txin : TxinV} (fits : txin.Fits) :
    ReadsBack loadTxinV (storeTxinV txin) txin := by
  cases txin with
  | txinGen txin =>
    exact (readsBack_loadUint8 0xff).bind (readsBack_loadTxinGen txin).map
  | txinToScript txin =>
    exact (readsBack_loadUint8 0).bind (readsBack_loadTxinToScript fits).map
  | txinToScripthash txin =>
    exact (readsBack_loadUint8 1).bind (readsBack_loadTxinToScripthash fits).map
  | txinToKey txin =>
    exact (readsBack_loadUint8 2).bind (readsBack_loadTxinToKey fits).map

theorem readsBack_loadTxoutTargetV {target : TxoutTargetV}
    (fits : ∀ script, target = .txoutToScript script → script.Fits) :
    ReadsBack loadTxoutTargetV (storeTxoutTargetV target) target := by
  cases target with
  | txoutToScript script =>
    exact (readsBack_loadUint8 0).bind (readsBack_loadTxoutToScript (fits script rfl)).map
  | txoutToScripthash target =>
    exact (readsBack_loadUint8 1).bind (readsBack_loadBlob target.hash).map
  | txoutToKey target =>
    exact (readsBack_loadUint8 2).bind (readsBack_loadBlob target.key).map

theorem readsBack_loadTxOut {out : TxOut} (fits : out.Fits) :
    ReadsBack loadTxOut (storeTxOut out) out := by
  have target : ReadsBack loadTxoutTargetV (storeTxoutTargetV out.target) out.target := by
    refine readsBack_loadTxoutTargetV fun script isScript => ?_
    rw [TxOut.Fits, isScript] at fits
    exact fits
  exact (readsBack_loadVarint out.amount).bind target.bind_pure

theorem storeTxinV_length_pos (txin : TxinV) : 1 ≤ (storeTxinV txin).length := by
  cases txin <;> simp [storeTxinV, List.length_append, storeUint8_length]

theorem storeTxOut_length_pos (out : TxOut) : 1 ≤ (storeTxOut out).length := by
  rw [storeTxOut, List.length_append]
  have := List.length_pos_iff.mpr (writeVarint_ne_nil out.amount)
  omega

theorem version_valid {version : UInt64} (positive : 0 < version)
    (current : version ≤ CURRENT_TRANSACTION_VERSION) :
    ¬(version = 0 ∨ CURRENT_TRANSACTION_VERSION < version) := by
  rintro (zero | newer)
  · rw [zero] at positive
    exact UInt64.lt_irrefl 0 positive
  · exact UInt64.not_le.mpr newer current

theorem readsBack_loadTransactionPrefix {tx : TransactionPrefix} (positive : 0 < tx.version)
    (current : tx.version ≤ CURRENT_TRANSACTION_VERSION) (fits : tx.Fits) :
    ∃ w, storeTransactionPrefix tx = some w ∧ ReadsBack loadTransactionPrefix w tx := by
  have valid := version_valid positive current
  have vin := readsBack_loadContainer (fun txin mem => readsBack_loadTxinV (fits.vin_fits txin mem))
    storeTxinV_length_pos fits.vin_length
  have vout := readsBack_loadContainer (fun out mem => readsBack_loadTxOut (fits.vout_fits out mem))
    storeTxOut_length_pos fits.vout_length
  refine ⟨_, by rw [storeTransactionPrefix, if_neg valid], ?_⟩
  simp only [List.append_assoc]
  refine (readsBack_loadVarint tx.version).bind ?_
  rw [if_neg valid]
  exact (readsBack_loadVarint tx.unlockTime).bind (vin.bind (vout.bind
    (readsBack_loadBytes fits.extra_length).bind_pure))

/-- Version 1 signatures sized by their inputs are written one vector after another, and read back
with the sizes the inputs give. -/
theorem readsBack_loadSignaturesV1 {vin : List TxinV} {signatures : List (List Signature)}
    (sized : List.Forall₂ (fun txin sigs => sigs.length = getSignatureSize txin) vin signatures) :
    ∃ w, storeSignaturesV1 vin signatures = some w ∧ ReadsBack (loadSignaturesV1 vin) w signatures := by
  obtain ⟨sameLength, pairs⟩ := List.forall₂_iff_zip.mp sized
  by_cases absent : signatures = []
  · -- no signatures: there are no inputs either
    subst absent
    have noInputs : vin = [] := List.length_eq_zero_iff.mp sameLength
    subst noInputs
    exact ⟨[], rfl, ReadsBack.pure []⟩
  · have eachEntry : ∀ entry ∈ vin.zip signatures, ∃ w,
        (if getSignatureSize entry.1 ≠ entry.2.length then none else some (storeSignatures entry.2)) =
          some w := fun entry mem => ⟨_, if_neg (not_not_intro (pairs mem).symm)⟩
    obtain ⟨ws, wrote⟩ := exists_mapM_eq_some eachEntry
    refine ⟨ws.flatten, ?_, ?_⟩
    · rw [storeSignaturesV1, if_neg (fun ⟨_, differ⟩ => differ sameLength), if_neg absent, wrote]
      rfl
    · refine ReadsBack.mapM_zip sameLength wrote fun txin sigs w mem wroteEntry => ?_
      rw [if_neg (not_not_intro (pairs mem).symm)] at wroteEntry
      cases wroteEntry
      rw [← pairs mem]
      exact readsBack_loadSignatures sigs

theorem readsBack_loadTransactionSignatures {tx : Transaction} (wf : tx.WellFormed) :
    ∃ w, storeTransactionSignatures tx = some w ∧
      ReadsBack (loadTransactionSignatures tx.toTransactionPrefix) w
        (tx.serializedPart.signatures, tx.serializedPart.rctSignatures) := by
  by_cases v1 : tx.version = 1
  · obtain ⟨w, wrote, read⟩ := readsBack_loadSignaturesV1 (wf.signatures_sized v1)
    have noRct : ¬(2 ≤ tx.version ∧ tx.vin ≠ []) := fun ⟨later, _⟩ => by
      rw [v1] at later
      exact absurd later (by decide)
    refine ⟨w, by rw [storeTransactionSignatures, if_pos v1, wrote], ?_⟩
    simp only [Transaction.serializedPart, loadTransactionSignatures, if_pos v1, if_neg noRct]
    exact read.map
  · by_cases rct : 2 ≤ tx.version ∧ tx.vin ≠ []
    · obtain ⟨w, wrote, read⟩ := readsBack_loadRctSignatures (wf.rct_sized rct.1 rct.2)
      refine ⟨w, by rw [storeTransactionSignatures, if_neg v1, if_pos rct, wrote], ?_⟩
      simp only [Transaction.serializedPart, loadTransactionSignatures, if_neg v1, if_pos rct]
      exact read.map
    · refine ⟨[], by rw [storeTransactionSignatures, if_neg v1, if_neg rct], ?_⟩
      simp only [Transaction.serializedPart, loadTransactionSignatures, if_neg v1, if_neg rct]
      exact ReadsBack.pure _

theorem readsBack_loadTransactionType {tx : Transaction} (fits : tx.extra2.length < 2 ^ 64) :
    ReadsBack (loadTransactionType tx.toTransactionPrefix) (storeTransactionType tx)
      (tx.serializedPart.type, tx.serializedPart.extra2) := by
  by_cases graft : 3 ≤ tx.version
  · simp only [storeTransactionType, loadTransactionType, Transaction.serializedPart, if_pos graft]
    exact (readsBack_loadUint64 tx.type).bind (readsBack_loadBytes fits).bind_pure
  · simp only [storeTransactionType, loadTransactionType, Transaction.serializedPart, if_neg graft]
    exact ReadsBack.pure _

/-- A well-formed transaction is written, and the blob reads back as its serialized part. -/
theorem dumpBinary_parseBinary (tx : Transaction) (wf : tx.WellFormed) :
    ∃ blob, dumpBinary tx = some blob ∧ parseBinary blob = some tx.serializedPart := by
  obtain ⟨pre, wrotePre, readPre⟩ :=
    readsBack_loadTransactionPrefix wf.version_pos wf.version_le wf.prefix_fits
  obtain ⟨signatures, wroteSignatures, readSignatures⟩ := readsBack_loadTransactionSignatures wf
  have read : ReadsBack loadTransaction (pre ++ (signatures ++ storeTransactionType tx))
      tx.serializedPart :=
    readPre.bind (readSignatures.bind (readsBack_loadTransactionType wf.extra2_length).bind_pure)
  refine ⟨pre ++ signatures ++ storeTransactionType tx, ?_, ?_⟩
  · rw [dumpBinary, storeTransaction, wrotePre, Option.bind_eq_bind, Option.bind_some,
      wroteSignatures]
    rfl
  · have whole := read []
    rw [List.append_nil, ← List.append_assoc] at whole
    rw [parseBinary, whole]

/-- A version 3 transaction of type 1 with one ring input, one output and a RingCT signature of
type RCTTypeNull. -/
def versionThreeTransaction : Transaction :=
  ⟨⟨3, 10, [.txinToKey ⟨5, [1, 2], ⟨List.replicate 32 7, List.length_replicate⟩⟩],
    [⟨5, .txoutToKey ⟨⟨List.replicate 32 9, List.length_replicate⟩⟩⟩], [1, 2]⟩,
    [], RctSig.null, 1, [4]⟩

/-- The same transaction with a RingCT signature of type RCTTypeSimple over its ring of two: a
pseudo output, the amount and mask of its output, a range signature and one MG signature of two
members of two keys each. -/
def simpleRctTransaction : Transaction :=
  let key (b : UInt8) : Key := ⟨List.replicate 32 b, List.length_replicate⟩
  { versionThreeTransaction with
    rctSignatures :=
      ⟨⟨RCTTypeSimple, [key 1], [⟨key 2, key 3⟩], [key 4], 10⟩,
        ⟨[⟨⟨List.replicate 4128 5, List.length_replicate⟩, ⟨List.replicate 2048 6,
            List.length_replicate⟩⟩], [], [⟨[[key 7, key 8], [key 9, key 10]], key 11⟩], []⟩⟩ }

theorem dumpBinary_parseBinary_version_three :
    versionThreeTransaction.WellFormed ∧
      (∃ blob, dumpBinary versionThreeTransaction = some blob ∧
        parseBinary blob = some versionThreeTransaction.serializedPart) ∧
      simpleRctTransaction.WellFormed ∧
      ∃ blob, dumpBinary simpleRctTransaction = some blob ∧
        parseBinary blob = some simpleRctTransaction.serializedPart :=
  have fits : versionThreeTransaction.toTransactionPrefix.Fits :=
    { vin_length := by decide
      vin_fits := by decide
      vout_length := by decide
      vout_fits := by decide
      extra_length := by decide }
  have wf : versionThreeTransaction.WellFormed :=
    { version_pos := by decide
      version_le := by decide
      signatures_sized := fun v1 => absurd v1 (by decide)
      rct_sized := fun _ _ => .inl rfl
      prefix_fits := fits
      extra2_length := by decide }
  -- the simple signature has the sizes of one input, one output and a mixin of one
  have simple : simpleRctTransaction.WellFormed :=
    { version_pos := by decide
      version_le := by decide
      signatures_sized := fun v1 => absurd v1 (by decide)
      rct_sized := fun _ _ => .inr
        { type_valid := .inr (.inl rfl)
          pseudoOuts_length := fun _ => rfl
          ecdhInfo_length := rfl
          outPk_length := rfl
          rangeSigs_length := fun _ => rfl
          bulletproofs_length := fun bp => absurd bp (by decide)
          bulletproofs_rounds := fun bp => absurd bp (by decide)
          max_amounts := fun bp => absurd bp (by decide)
          MGs_length := rfl
          ss_length := by decide
          ss_row_length := by decide
          prunable_pseudoOuts_length := fun bp => absurd bp (by decide) }
      prefix_fits := fits
      extra2_length := by decide }
  ⟨wf, dumpBinary_parseBinary _ wf, simple, dumpBinary_parseBinary _ simple⟩

/-- Absent version 1 signatures: an input with a ring makes the writer fail, and inputs without
one come back with one empty vector each. -/
theorem dumpBinary_absent_signatures :
    dumpBinary ⟨⟨1, 0, [.txinToKey ⟨0, [0], ⟨List.replicate 32 0, List.length_replicate⟩⟩], [], []⟩,
      [], RctSig.null, txTypeGeneric, []⟩ = none ∧
    dumpBinary ⟨⟨1, 0, [.txinGen ⟨0⟩], [], []⟩, [], RctSig.null, txTypeGeneric, []⟩ =
      some [1, 0, 1, 0xff, 0, 0, 0] ∧
    parseBinary [1, 0, 1, 0xff, 0, 0, 0] =
      some ⟨⟨1, 0, [.txinGen ⟨0⟩], [], []⟩, [[]], RctSig.null, txTypeGeneric, []⟩ :=
  ⟨by decide, by decide, by decide⟩

/-- The version 1 transaction with nothing in it, as `set_null` leaves one. -/
def emptyTransaction : Transaction := ⟨⟨1, 0, [], [], []⟩, [], RctSig.null, txTypeGeneric, []⟩

/-- The reader is not canonical. A blob that ends after the version reads the missing varints as
zero, and a varint padded with a zero byte reads as the value it pads; both blobs are accepted as
the empty transaction, which is written as five bytes. -/
theorem parseBinary_not_canonical :
    parseAndValidateTxFromBlob [0x01] = some emptyTransaction ∧
    parseAndValidateTxFromBlob [0x81, 0x00, 0x00, 0x00, 0x00, 0x00] = some emptyTransaction ∧
    dumpBinary emptyTransaction = some [0x01, 0x00, 0x00, 0x00, 0x00] :=
  ⟨by decide, by decide, by decide⟩

end GraftNetwork.Serialization

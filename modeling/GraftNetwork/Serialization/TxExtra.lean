import GraftNetwork.Serialization.Transaction

/-!
# The extra field of a transaction

`tx.extra` is a sequence of `tx_extra_field`s (tx_extra.h), each a variant tag byte and the
alternative's fields. `parse_tx_extra` reads fields until the stream ends, and
`remove_field_from_tx_extra` reads them the same way, writing back those of the other types. The
Graft fields hold a serialized payload in a string: `add_graft_stake_tx_extra_to_extra`,
`add_graft_tx_secret_key_to_extra` and `add_graft_rta_header_to_extra` append them, and
`get_graft_stake_tx_extra_from_extra` and `get_graft_rta_header_from_extra` find the first field
of a type and read its payload.

* `parseTxExtra_storeTxExtra`: the fields of a well-formed list, written one after another, are
  read back, a padding of 1 to 255 bytes being allowed only last; `parseTxExtra_wellFormed`: what
  parse_tx_extra accepts is such a list. `tx_extra_fields_round_trip` puts the two together.
* `remove_field_from_tx_extra_filters`: removing a type filters the fields read.
* `graft_stake_tx_extra_read_back`, `graft_rta_header_read_back`: the Graft fields appended to the
  fields of a well-formed list are found again.
* `graft_fields_lost_after_cut_varint`: an extra that ends inside a varint is accepted, and what is
  appended to it is read into that varint.

The reader takes a varint that the end of the stream cuts off as the value gathered so far
(`loadVarint`), which is why an accepted extra is not always the start of the extra it is
extended to.
-/

namespace GraftNetwork.Serialization

open Decoder

def TX_EXTRA_PADDING_MAX_COUNT : Nat := 255

def TX_EXTRA_NONCE_MAX_COUNT : Nat := 255

/-- tx_extra_merge_mining_tag. -/
structure TxExtraMergeMiningTag where
  depth : UInt64
  merkleRoot : Hash
deriving DecidableEq, Repr

/-- tx_extra_field: one constructor for each alternative of the variant, in its order. -/
inductive TxExtraField where
  | padding (size : Nat)
  | pubKey (pubKey : PublicKey)
  | nonce (nonce : List UInt8)
  | mergeMiningTag (tag : TxExtraMergeMiningTag)
  | additionalPubKeys (data : List PublicKey)
  | mysteriousMinergate (data : List UInt8)
  | graftExtra (data : List UInt8)
  | graftStakeTx (data : List UInt8)
  | graftTxSecretKey (secretKey : Blob 32)
  | graftRtaHeader (data : List UInt8)
  | graftRtaSignatures (data : List UInt8)
deriving DecidableEq, Repr

/-- The `VARIANT_TAG` of each alternative: TX_EXTRA_TAG_PADDING, TX_EXTRA_TAG_PUBKEY,
TX_EXTRA_NONCE, TX_EXTRA_MERGE_MINING_TAG, TX_EXTRA_TAG_ADDITIONAL_PUBKEYS,
TX_EXTRA_MYSTERIOUS_MINERGATE_TAG, TX_EXTRA_GRAFT_EXTRA_TAG, TX_EXTRA_GRAFT_STAKE_TX_TAG,
TX_EXTRA_GRAFT_TX_SECRET_KEY_TAG, TX_EXTRA_GRAFT_RTA_HEADER_TAG and
TX_EXTRA_GRAFT_RTA_SIGNATURES_TAG. The tags differ, so a tag also stands for the `type_info` of its
alternative. -/
def TxExtraField.tag : TxExtraField → UInt8
  | .padding _ => 0x00
  | .pubKey _ => 0x01
  | .nonce _ => 0x02
  | .mergeMiningTag _ => 0x03
  | .additionalPubKeys _ => 0x04
  | .mysteriousMinergate _ => 0xDE
  | .graftExtra _ => 0x50
  | .graftStakeTx _ => 0x80
  | .graftTxSecretKey _ => 0x81
  | .graftRtaHeader _ => 0x83
  | .graftRtaSignatures _ => 0x84

def TxExtraField.isPadding : TxExtraField → Bool
  | .padding _ => true
  | _ => false

theorem TxExtraField.isPadding_eq_true {field : TxExtraField} :
    field.isPadding = true ↔ ∃ size, field = .padding size := by
  cases field <;> simp [TxExtraField.isPadding]

/-! ## Reading -/

/-- The loop of tx_extra_padding's reader from `size` (the tag counts as one byte): a round per
zero byte until the stream ends, failing at a byte that is not zero, for `rounds` rounds at most.
-/
def paddingLoop : (rounds size : Nat) → List UInt8 → Option (Nat × List UInt8)
  | 0, size, s => some (size, s)
  | _ + 1, size, [] => some (size, [])
  | rounds + 1, size, zero :: s => if zero = 0 then paddingLoop rounds (size + 1) s else none

/-- tx_extra_padding::do_serialize for binary_archive<false>: `size` runs from 1 to
TX_EXTRA_PADDING_MAX_COUNT, and the read fails when the loop ran to its end. -/
def loadTxExtraPadding : Decoder UInt8 Nat := fun s =>
  match paddingLoop TX_EXTRA_PADDING_MAX_COUNT 1 s with
  | some (size, rest) => if size ≤ TX_EXTRA_PADDING_MAX_COUNT then some (size, rest) else none
  | none => none

/-- tx_extra_nonce: the string, refused when it is longer than TX_EXTRA_NONCE_MAX_COUNT. -/
def loadTxExtraNonce : Decoder UInt8 (List UInt8) := do
  let nonce ← loadBytes
  if TX_EXTRA_NONCE_MAX_COUNT < nonce.length then failure else pure nonce

/-- tx_extra_merge_mining_tag::serialize_helper: `depth` as a varint, then `merkle_root`. -/
def loadMergeMiningHelper : Decoder UInt8 TxExtraMergeMiningTag := do
  let depth ← loadVarint
  let merkleRoot ← loadBlob 32
  pure ⟨depth, merkleRoot⟩

/-- tx_extra_merge_mining_tag for binary_archive<false>: a string, read by the helper in an
archive of its own, which `serialization::serialize` checks to be at its end. -/
def loadTxExtraMergeMiningTag : Decoder UInt8 TxExtraMergeMiningTag := do
  let field ← loadBytes
  match loadMergeMiningHelper.run field with
  | some (tag, []) => pure tag
  | _ => failure

/-- The variant reader: the tag selects the alternative; an unknown tag fails the stream. -/
def loadTxExtraField : Decoder UInt8 TxExtraField := do
  let tag ← loadUint8
  if tag = 0x00 then TxExtraField.padding <$> loadTxExtraPadding
  else if tag = 0x01 then TxExtraField.pubKey <$> loadBlob 32
  else if tag = 0x02 then TxExtraField.nonce <$> loadTxExtraNonce
  else if tag = 0x03 then TxExtraField.mergeMiningTag <$> loadTxExtraMergeMiningTag
  else if tag = 0x04 then TxExtraField.additionalPubKeys <$> loadContainer (loadBlob 32)
  else if tag = 0xDE then TxExtraField.mysteriousMinergate <$> loadBytes
  else if tag = 0x50 then TxExtraField.graftExtra <$> loadBytes
  else if tag = 0x80 then TxExtraField.graftStakeTx <$> loadBytes
  else if tag = 0x81 then TxExtraField.graftTxSecretKey <$> loadBlob 32
  else if tag = 0x83 then TxExtraField.graftRtaHeader <$> loadBytes
  else if tag = 0x84 then TxExtraField.graftRtaSignatures <$> loadBytes
  else failure

/-- The loop of parse_tx_extra from the fields pushed so far: a field that fails to read ends it
with `false`, and the end of the stream after a field with `true` (`check_stream_state` then
finds the stream good and at its end). Every round reads a tag, so as many rounds as bytes are
enough. -/
def parseTxExtraLoop : (rounds : Nat) → List UInt8 → List TxExtraField →
    Bool × List TxExtraField
  | 0, _, fields => (false, fields)
  | rounds + 1, s, fields =>
    match loadTxExtraField.run s with
    | none => (false, fields)
    | some (field, rest) =>
      if rest = [] then (true, fields ++ [field])
      else parseTxExtraLoop rounds rest (fields ++ [field])

/-- parse_tx_extra: its verdict and the fields it pushed, which the callers that ignore the
verdict go on with. -/
def parseTxExtra (txExtra : List UInt8) : Bool × List TxExtraField :=
  if txExtra = [] then (true, []) else parseTxExtraLoop txExtra.length txExtra []

/-! ## Writing -/

/-- The bytes binary_archive<true> writes for a field: the tag, then the alternative. A padding
writes a zero for each byte after the tag, and nothing when it is longer than
TX_EXTRA_PADDING_MAX_COUNT; a merge mining tag writes its helper's bytes as a string. -/
def storeTxExtraField (field : TxExtraField) : List UInt8 :=
  storeUint8 field.tag ++
    match field with
    | .padding size =>
      if TX_EXTRA_PADDING_MAX_COUNT < size then [] else List.replicate (size - 1) 0
    | .pubKey key => storeBlob key
    | .nonce nonce => storeBytes nonce
    | .mergeMiningTag tag => storeBytes (writeVarint tag.depth ++ storeBlob tag.merkleRoot)
    | .additionalPubKeys data => storeContainer storeBlob data
    | .mysteriousMinergate data => storeBytes data
    | .graftExtra data => storeBytes data
    | .graftStakeTx data => storeBytes data
    | .graftTxSecretKey secretKey => storeBlob secretKey
    | .graftRtaHeader data => storeBytes data
    | .graftRtaSignatures data => storeBytes data

/-- The fields written one after another. -/
def storeTxExtra (fields : List TxExtraField) : List UInt8 := fields.flatMap storeTxExtraField

/-- remove_field_from_tx_extra's loop: it reads as parse_tx_extra does and writes each field of
another type after those `written`, ignoring what the writer returns. -/
def removeFieldLoop (type : UInt8) : (rounds : Nat) → List UInt8 → List UInt8 → Option (List UInt8)
  | 0, _, _ => none
  | rounds + 1, s, written =>
    match loadTxExtraField.run s with
    | none => none
    | some (field, rest) =>
      let written := if field.tag ≠ type then written ++ storeTxExtraField field else written
      if rest = [] then some written else removeFieldLoop type rounds rest written

/-- remove_field_from_tx_extra: its verdict and the extra vector it leaves, which it replaces
only once every field was read. -/
def removeFieldFromTxExtra (txExtra : List UInt8) (type : UInt8) : Bool × List UInt8 :=
  if txExtra = [] then (true, txExtra)
  else
    match removeFieldLoop type txExtra.length txExtra [] with
    | some written => (true, written)
    | none => (false, txExtra)

/-! ## The Graft fields -/

/-- GraftStakeTxExtra: the payload of a stake transaction's extra field. -/
structure GraftStakeTxExtra where
  supernodePublicId : List UInt8
  supernodePublicAddress : PublicKey × PublicKey
  supernodeSignature : Signature
deriving DecidableEq, Repr

/-- Its fields in order; an account_public_address is its spend key, then its view key. -/
def storeGraftStakeTxExtra (stakeTx : GraftStakeTxExtra) : List UInt8 :=
  storeBytes stakeTx.supernodePublicId ++ storeBlob stakeTx.supernodePublicAddress.1 ++
    storeBlob stakeTx.supernodePublicAddress.2 ++ storeBlob stakeTx.supernodeSignature

def loadGraftStakeTxExtra : Decoder UInt8 GraftStakeTxExtra := do
  let supernodePublicId ← loadBytes
  let spend ← loadBlob 32
  let view ← loadBlob 32
  let supernodeSignature ← loadBlob 64
  pure ⟨supernodePublicId, (spend, view), supernodeSignature⟩

/-- rta_header: `payment_id`, `auth_sample_height` as a 64-bit integer and `keys`. -/
structure RtaHeader where
  paymentId : List UInt8
  authSampleHeight : UInt64
  keys : List PublicKey
deriving DecidableEq, Repr

def storeRtaHeader (header : RtaHeader) : List UInt8 :=
  storeBytes header.paymentId ++ storeUint64 header.authSampleHeight ++
    storeContainer storeBlob header.keys

def loadRtaHeader : Decoder UInt8 RtaHeader := do
  let paymentId ← loadBytes
  let authSampleHeight ← loadUint64
  let keys ← loadContainer (loadBlob 32)
  pure ⟨paymentId, authSampleHeight, keys⟩

/-- serialization::parse_binary with the reader of a type: it must end at the end of the blob. -/
def parseBinaryOf {α : Type} (load : Decoder UInt8 α) (blob : List UInt8) : Option α :=
  match load.run blob with
  | some (value, []) => some value
  | _ => none

/-- add_graft_stake_tx_extra_to_extra: the payload is dumped, dumped again as the string of a
tx_extra_graft_stake_tx, and appended after its tag. It returns true. -/
def addGraftStakeTxExtraToExtra (extra supernodePublicId : List UInt8)
    (supernodePublicAddress : PublicKey × PublicKey) (supernodeSignature : Signature) :
    List UInt8 :=
  extra ++ [0x80] ++
    storeBytes (storeGraftStakeTxExtra ⟨supernodePublicId, supernodePublicAddress, supernodeSignature⟩)

/-- add_graft_tx_secret_key_to_extra: the key after its tag. It returns true. -/
def addGraftTxSecretKeyToExtra (extra : List UInt8) (secretKey : Blob 32) : List UInt8 :=
  extra ++ [0x81] ++ storeBlob secretKey

/-- add_graft_rta_header_to_extra: the header dumped as the string of a
tx_extra_graft_rta_header, after its tag. It returns true. -/
def addGraftRtaHeaderToExtra (extra : List UInt8) (header : RtaHeader) : List UInt8 :=
  extra ++ [0x83] ++ storeBytes (storeRtaHeader header)

def TxExtraField.graftStakeTx? : TxExtraField → Option (List UInt8)
  | .graftStakeTx data => some data
  | _ => none

def TxExtraField.graftTxSecretKey? : TxExtraField → Option (Blob 32)
  | .graftTxSecretKey secretKey => some secretKey
  | _ => none

def TxExtraField.graftRtaHeader? : TxExtraField → Option (List UInt8)
  | .graftRtaHeader data => some data
  | _ => none

/-- get_graft_stake_tx_extra_from_extra of `tx.extra`: it ignores the verdict of parse_tx_extra,
takes the first stake field (`find_tx_extra_field_by_type`), reads its payload, and takes the
first secret key field. -/
def getGraftStakeTxExtraFromExtra (extra : List UInt8) : Option (GraftStakeTxExtra × Blob 32) := do
  let fields := (parseTxExtra extra).2
  let stakeTxExtra ← fields.findSome? TxExtraField.graftStakeTx?
  let stakeTx ← parseBinaryOf loadGraftStakeTxExtra stakeTxExtra
  let secretKey ← fields.findSome? TxExtraField.graftTxSecretKey?
  pure (stakeTx, secretKey)

/-- get_graft_rta_header_from_extra of `tx.extra`. -/
def getGraftRtaHeaderFromExtra (extra : List UInt8) : Option RtaHeader := do
  let rtaHeaderData ← (parseTxExtra extra).2.findSome? TxExtraField.graftRtaHeader?
  parseBinaryOf loadRtaHeader rtaHeaderData

/-! ## Each field read back -/

/-- What the writer needs of a field to be read back: a padding of 1 to
TX_EXTRA_PADDING_MAX_COUNT bytes, a nonce of at most TX_EXTRA_NONCE_MAX_COUNT bytes, and strings
and vectors whose sizes fit a `size_t`. -/
def TxExtraField.Fits : TxExtraField → Prop
  | .padding size => 1 ≤ size ∧ size ≤ TX_EXTRA_PADDING_MAX_COUNT
  | .pubKey _ => True
  | .nonce bytes => bytes.length ≤ TX_EXTRA_NONCE_MAX_COUNT
  | .mergeMiningTag _ => True
  | .additionalPubKeys data => data.length < 2 ^ 64
  | .mysteriousMinergate data => data.length < 2 ^ 64
  | .graftExtra data => data.length < 2 ^ 64
  | .graftStakeTx data => data.length < 2 ^ 64
  | .graftTxSecretKey _ => True
  | .graftRtaHeader data => data.length < 2 ^ 64
  | .graftRtaSignatures data => data.length < 2 ^ 64

instance TxExtraField.decidableFits : (field : TxExtraField) → Decidable field.Fits
  | .padding size => inferInstanceAs (Decidable (1 ≤ size ∧ size ≤ TX_EXTRA_PADDING_MAX_COUNT))
  | .pubKey _ => inferInstanceAs (Decidable True)
  | .nonce bytes => inferInstanceAs (Decidable (bytes.length ≤ TX_EXTRA_NONCE_MAX_COUNT))
  | .mergeMiningTag _ => inferInstanceAs (Decidable True)
  | .additionalPubKeys data => inferInstanceAs (Decidable (data.length < 2 ^ 64))
  | .mysteriousMinergate data => inferInstanceAs (Decidable (data.length < 2 ^ 64))
  | .graftExtra data => inferInstanceAs (Decidable (data.length < 2 ^ 64))
  | .graftStakeTx data => inferInstanceAs (Decidable (data.length < 2 ^ 64))
  | .graftTxSecretKey _ => inferInstanceAs (Decidable True)
  | .graftRtaHeader data => inferInstanceAs (Decidable (data.length < 2 ^ 64))
  | .graftRtaSignatures data => inferInstanceAs (Decidable (data.length < 2 ^ 64))

/-- The zeros after a padding's tag are read to the end of the stream, one round each. -/
theorem paddingLoop_replicate :
    ∀ (zeros rounds size : Nat), zeros < rounds →
      paddingLoop rounds size (List.replicate zeros 0) = some (size + zeros, [])
  | 0, _ + 1, _, _ => rfl
  | zeros + 1, rounds + 1, size, enough => by
    rw [List.replicate_succ, paddingLoop, if_pos rfl,
      paddingLoop_replicate zeros rounds (size + 1) (by omega)]
    congr 2
    omega

/-- A padding reads back from its bytes when nothing follows them. -/
theorem run_loadTxExtraField_padding {size : Nat} (fits : (TxExtraField.padding size).Fits) :
    loadTxExtraField.run (storeTxExtraField (.padding size)) = some (.padding size, []) := by
  have bounds : 1 ≤ size ∧ size ≤ TX_EXTRA_PADDING_MAX_COUNT := fits
  have long : ¬TX_EXTRA_PADDING_MAX_COUNT < size := Nat.not_lt.mpr bounds.2
  have zeros := paddingLoop_replicate (size - 1) TX_EXTRA_PADDING_MAX_COUNT 1
    (by unfold TX_EXTRA_PADDING_MAX_COUNT at bounds ⊢; omega)
  have sized : 1 + (size - 1) = size := by omega
  rw [sized] at zeros
  rw [storeTxExtraField, TxExtraField.tag, if_neg long, loadTxExtraField,
    run_bind_of_run (readsBack_loadUint8 0 _), if_pos rfl, StateT.run_map]
  simp only [StateT.run, loadTxExtraPadding, zeros]
  rw [if_pos bounds.2]
  rfl

theorem readsBack_loadTxExtraNonce {nonce : List UInt8}
    (fits : nonce.length ≤ TX_EXTRA_NONCE_MAX_COUNT) :
    ReadsBack loadTxExtraNonce (storeBytes nonce) nonce := by
  have short : ¬TX_EXTRA_NONCE_MAX_COUNT < nonce.length := Nat.not_lt.mpr fits
  have sized : nonce.length < 2 ^ 64 := by unfold TX_EXTRA_NONCE_MAX_COUNT at fits; omega
  refine (readsBack_loadBytes sized).bind_nil ?_
  rw [if_neg short]
  exact ReadsBack.pure nonce

theorem readsBack_loadMergeMiningHelper (tag : TxExtraMergeMiningTag) :
    ReadsBack loadMergeMiningHelper (writeVarint tag.depth ++ storeBlob tag.merkleRoot) tag :=
  (readsBack_loadVarint tag.depth).bind (readsBack_loadBlob tag.merkleRoot).bind_pure

/-- The helper's string reads back, and its own archive ends with it. -/
theorem readsBack_loadTxExtraMergeMiningTag (tag : TxExtraMergeMiningTag) :
    ReadsBack loadTxExtraMergeMiningTag
      (storeBytes (writeVarint tag.depth ++ storeBlob tag.merkleRoot)) tag := by
  have short : (writeVarint tag.depth ++ storeBlob tag.merkleRoot).length < 2 ^ 64 := by
    have varint := length_writeVarintLoop_le 9 tag.depth.toNat
    rw [List.length_append, storeBlob_length, writeVarint]
    omega
  refine (readsBack_loadBytes short).bind_nil ?_
  have inner := readsBack_loadMergeMiningHelper tag []
  rw [List.append_nil] at inner
  rw [inner]
  exact ReadsBack.pure tag

/-- Every field but a padding reads back after its tag, whatever follows it; the tag selects the
alternative it was written from. -/
theorem readsBack_loadTxExtraField {field : TxExtraField} (fits : field.Fits)
    (notPadding : field.isPadding = false) :
    ReadsBack loadTxExtraField (storeTxExtraField field) field := by
  cases field with
  | padding size => cases notPadding
  | pubKey key => exact (readsBack_loadUint8 0x01).bind (readsBack_loadBlob key).map
  | nonce nonce =>
    exact (readsBack_loadUint8 0x02).bind (@readsBack_loadTxExtraNonce nonce fits).map
  | mergeMiningTag tag =>
    exact (readsBack_loadUint8 0x03).bind (readsBack_loadTxExtraMergeMiningTag tag).map
  | additionalPubKeys data =>
    exact (readsBack_loadUint8 0x04).bind (@readsBack_loadKeys data fits).map
  | mysteriousMinergate data =>
    exact (readsBack_loadUint8 0xDE).bind (@readsBack_loadBytes data fits).map
  | graftExtra data => exact (readsBack_loadUint8 0x50).bind (@readsBack_loadBytes data fits).map
  | graftStakeTx data => exact (readsBack_loadUint8 0x80).bind (@readsBack_loadBytes data fits).map
  | graftTxSecretKey key => exact (readsBack_loadUint8 0x81).bind (readsBack_loadBlob key).map
  | graftRtaHeader data =>
    exact (readsBack_loadUint8 0x83).bind (@readsBack_loadBytes data fits).map
  | graftRtaSignatures data =>
    exact (readsBack_loadUint8 0x84).bind (@readsBack_loadBytes data fits).map

/-! ## Lists of fields -/

/-- A list the reader reads back from its fields written one after another: every field fits,
and only the last one may be a padding, which reads to the end of the stream. -/
structure TxExtraFields.WellFormed (fields : List TxExtraField) : Prop where
  fits : ∀ field ∈ fields, field.Fits
  padding_last : ∀ field ∈ fields.dropLast, field.isPadding = false

namespace TxExtraFields.WellFormed

theorem nil : WellFormed [] := ⟨by simp, by simp⟩

theorem singleton {field : TxExtraField} (fits : field.Fits) : WellFormed [field] where
  fits := by simpa using fits
  padding_last := by simp

theorem cons {field : TxExtraField} {fields : List TxExtraField} (fits : field.Fits)
    (notPadding : field.isPadding = false) (wf : WellFormed fields) :
    WellFormed (field :: fields) where
  fits := List.forall_mem_cons.mpr ⟨fits, wf.fits⟩
  padding_last := by
    cases fields with
    | nil => simp
    | cons next more =>
      rw [List.dropLast_cons_of_ne_nil (List.cons_ne_nil next more)]
      exact List.forall_mem_cons.mpr ⟨notPadding, wf.padding_last⟩

theorem tail {field : TxExtraField} {fields : List TxExtraField}
    (wf : WellFormed (field :: fields)) : WellFormed fields where
  fits := fun other mem => wf.fits other (List.mem_cons_of_mem field mem)
  padding_last := by
    cases fields with
    | nil => simp
    | cons next more =>
      intro other mem
      have padding := wf.padding_last
      rw [List.dropLast_cons_of_ne_nil (List.cons_ne_nil next more)] at padding
      exact padding other (List.mem_cons_of_mem field mem)

/-- A field followed by others is not a padding. -/
theorem head_not_padding {field next : TxExtraField} {more : List TxExtraField}
    (wf : WellFormed (field :: next :: more)) : field.isPadding = false := by
  have padding := wf.padding_last
  rw [List.dropLast_cons_of_ne_nil (List.cons_ne_nil next more)] at padding
  exact padding field List.mem_cons_self

/-- Dropping fields keeps a list well formed: what is kept before a field was before it. -/
theorem filter (p : TxExtraField → Bool) :
    ∀ {fields : List TxExtraField}, WellFormed fields → WellFormed (fields.filter p)
  | [], _ => nil
  | field :: more, wf => by
    have rest := filter p wf.tail
    rw [List.filter_cons]
    split
    · cases kept : more.filter p with
      | nil => exact singleton (wf.fits field List.mem_cons_self)
      | cons next others =>
        have nonempty : more ≠ [] := by
          rintro rfl
          cases kept
        obtain ⟨next', more', rfl⟩ := List.exists_cons_of_ne_nil nonempty
        rw [← kept]
        exact cons (wf.fits field List.mem_cons_self) wf.head_not_padding rest
    · exact rest

/-- Fields without a padding may be followed by any well-formed list. -/
theorem append {fields others : List TxExtraField} (wf : WellFormed fields)
    (noPadding : ∀ field ∈ fields, field.isPadding = false) (wfOthers : WellFormed others) :
    WellFormed (fields ++ others) := by
  induction fields with
  | nil => exact wfOthers
  | cons field more ih =>
    exact cons (wf.fits field List.mem_cons_self) (noPadding field List.mem_cons_self)
      (ih wf.tail fun other mem => noPadding other (List.mem_cons_of_mem field mem))

end TxExtraFields.WellFormed

theorem storeTxExtraField_ne_nil (field : TxExtraField) : storeTxExtraField field ≠ [] := by
  simp [storeTxExtraField, storeUint8, storeUint]

theorem storeTxExtra_eq_nil_iff {fields : List TxExtraField} :
    storeTxExtra fields = [] ↔ fields = [] := by
  cases fields with
  | nil => simp [storeTxExtra]
  | cons field more => simp [storeTxExtra, storeTxExtraField_ne_nil]

/-- The first field of a well-formed list reads back from the bytes of the list, leaving those of
the others: a padding is read only when it is last. -/
theorem run_loadTxExtraField_storeTxExtra {field : TxExtraField} {more : List TxExtraField}
    (wf : TxExtraFields.WellFormed (field :: more)) :
    loadTxExtraField.run (storeTxExtra (field :: more)) = some (field, storeTxExtra more) := by
  have fits := wf.fits field List.mem_cons_self
  rw [storeTxExtra, List.flatMap_cons]
  cases more with
  | nil =>
    show loadTxExtraField.run (storeTxExtraField field ++ []) = some (field, [])
    cases padding : field.isPadding
    · exact readsBack_loadTxExtraField fits padding []
    · obtain ⟨size, rfl⟩ := TxExtraField.isPadding_eq_true.mp padding
      rw [List.append_nil]
      exact run_loadTxExtraField_padding fits
  | cons next others => exact readsBack_loadTxExtraField fits wf.head_not_padding _

/-- The loop reads a well-formed list back in one round per field. -/
theorem parseTxExtraLoop_storeTxExtra :
    ∀ {fields : List TxExtraField} (rounds : Nat) (pushed : List TxExtraField),
      TxExtraFields.WellFormed fields → fields ≠ [] → fields.length ≤ rounds →
        parseTxExtraLoop rounds (storeTxExtra fields) pushed = (true, pushed ++ fields)
  | [], _, _, _, nonempty, _ => absurd rfl nonempty
  | field :: more, rounds + 1, pushed, wf, _, enough => by
    rw [parseTxExtraLoop, run_loadTxExtraField_storeTxExtra wf]
    dsimp only
    by_cases last : more = []
    · subst last
      rfl
    · have rest := parseTxExtraLoop_storeTxExtra rounds (pushed ++ [field]) wf.tail last
        (by rw [List.length_cons] at enough; omega)
      rw [if_neg (mt storeTxExtra_eq_nil_iff.mp last), rest, List.append_assoc,
        List.singleton_append]

/-- The fields of a well-formed list, written one after another, are read back by
parse_tx_extra. -/
theorem parseTxExtra_storeTxExtra {fields : List TxExtraField}
    (wf : TxExtraFields.WellFormed fields) :
    parseTxExtra (storeTxExtra fields) = (true, fields) := by
  by_cases empty : fields = []
  · subst empty
    rfl
  · have enough : fields.length ≤ (storeTxExtra fields).length :=
      length_le_length_flatMap (fun field => List.length_pos_iff.mpr (storeTxExtraField_ne_nil field))
        fields
    rw [parseTxExtra, if_neg (mt storeTxExtra_eq_nil_iff.mp empty),
      parseTxExtraLoop_storeTxExtra _ [] wf empty enough, List.nil_append]

/-! ## What the reader accepts -/

/-- The padding loop stops at the end of the stream, or after all its rounds. -/
theorem paddingLoop_exit : ∀ (rounds size : Nat) (s : List UInt8) {size' : Nat}
    {rest : List UInt8}, paddingLoop rounds size s = some (size', rest) →
      size ≤ size' ∧ (rest = [] ∨ size' = size + rounds)
  | 0, _, _, _, _, exit => by
    cases exit
    exact ⟨Nat.le_refl _, .inr rfl⟩
  | _ + 1, _, [], _, _, exit => by
    cases exit
    exact ⟨Nat.le_refl _, .inl rfl⟩
  | rounds + 1, size, zero :: s, _, _, exit => by
    rw [paddingLoop] at exit
    split_ifs at exit
    obtain ⟨grown, stop⟩ := paddingLoop_exit rounds (size + 1) s exit
    refine ⟨by omega, stop.imp id fun full => by omega⟩

/-- A padding read is 1 to TX_EXTRA_PADDING_MAX_COUNT bytes long and ends the stream: the loop
that runs to its end makes the read fail. -/
theorem padding_of_run_loadTxExtraPadding {s rest : List UInt8} {size : Nat}
    (read : loadTxExtraPadding.run s = some (size, rest)) :
    (TxExtraField.padding size).Fits ∧ rest = [] := by
  simp only [StateT.run, loadTxExtraPadding] at read
  split at read
  · rename_i size' rest' exit
    split_ifs at read with below
    cases read
    obtain ⟨atLeast, stop⟩ := paddingLoop_exit _ _ _ exit
    refine ⟨⟨atLeast, below⟩, stop.resolve_right fun full => ?_⟩
    unfold TX_EXTRA_PADDING_MAX_COUNT at below full
    omega
  · cases read

theorem length_le_of_run_loadTxExtraNonce {s rest nonce : List UInt8}
    (read : loadTxExtraNonce.run s = some (nonce, rest)) :
    nonce.length ≤ TX_EXTRA_NONCE_MAX_COUNT := by
  obtain ⟨bytes, _, _, read⟩ := exists_run_of_run_bind read
  split_ifs at read with long
  · cases read
  · cases read
    exact Nat.le_of_not_lt long

/-- What the reader reads of a field fits, and a padding ends the stream. The tag is compared
with each alternative's in turn, as the variant reader does. -/
theorem fits_of_run_loadTxExtraField {s rest : List UInt8} {field : TxExtraField}
    (read : loadTxExtraField.run s = some (field, rest)) :
    field.Fits ∧ (field.isPadding = true → rest = []) := by
  unfold loadTxExtraField at read
  obtain ⟨tag, _, _, read⟩ := exists_run_of_run_bind read
  by_cases padding : tag = 0x00
  · rw [if_pos padding] at read
    obtain ⟨size, readPadding, rfl⟩ := exists_run_of_run_map read
    obtain ⟨fits, ends⟩ := padding_of_run_loadTxExtraPadding readPadding
    exact ⟨fits, fun _ => ends⟩
  rw [if_neg padding] at read
  by_cases pubKey : tag = 0x01
  · rw [if_pos pubKey] at read
    obtain ⟨_, _, rfl⟩ := exists_run_of_run_map read
    exact ⟨trivial, nofun⟩
  rw [if_neg pubKey] at read
  by_cases nonce : tag = 0x02
  · rw [if_pos nonce] at read
    obtain ⟨_, readNonce, rfl⟩ := exists_run_of_run_map read
    exact ⟨length_le_of_run_loadTxExtraNonce readNonce, nofun⟩
  rw [if_neg nonce] at read
  by_cases mergeMiningTag : tag = 0x03
  · rw [if_pos mergeMiningTag] at read
    obtain ⟨_, _, rfl⟩ := exists_run_of_run_map read
    exact ⟨trivial, nofun⟩
  rw [if_neg mergeMiningTag] at read
  by_cases additionalPubKeys : tag = 0x04
  · rw [if_pos additionalPubKeys] at read
    obtain ⟨_, readKeys, rfl⟩ := exists_run_of_run_map read
    exact ⟨length_lt_of_run_loadContainer readKeys, nofun⟩
  rw [if_neg additionalPubKeys] at read
  by_cases mysteriousMinergate : tag = 0xDE
  · rw [if_pos mysteriousMinergate] at read
    obtain ⟨_, readData, rfl⟩ := exists_run_of_run_map read
    exact ⟨length_lt_of_run_loadContainer readData, nofun⟩
  rw [if_neg mysteriousMinergate] at read
  by_cases graftExtra : tag = 0x50
  · rw [if_pos graftExtra] at read
    obtain ⟨_, readData, rfl⟩ := exists_run_of_run_map read
    exact ⟨length_lt_of_run_loadContainer readData, nofun⟩
  rw [if_neg graftExtra] at read
  by_cases graftStakeTx : tag = 0x80
  · rw [if_pos graftStakeTx] at read
    obtain ⟨_, readData, rfl⟩ := exists_run_of_run_map read
    exact ⟨length_lt_of_run_loadContainer readData, nofun⟩
  rw [if_neg graftStakeTx] at read
  by_cases graftTxSecretKey : tag = 0x81
  · rw [if_pos graftTxSecretKey] at read
    obtain ⟨_, _, rfl⟩ := exists_run_of_run_map read
    exact ⟨trivial, nofun⟩
  rw [if_neg graftTxSecretKey] at read
  by_cases graftRtaHeader : tag = 0x83
  · rw [if_pos graftRtaHeader] at read
    obtain ⟨_, readData, rfl⟩ := exists_run_of_run_map read
    exact ⟨length_lt_of_run_loadContainer readData, nofun⟩
  rw [if_neg graftRtaHeader] at read
  by_cases graftRtaSignatures : tag = 0x84
  · rw [if_pos graftRtaSignatures] at read
    obtain ⟨_, readData, rfl⟩ := exists_run_of_run_map read
    exact ⟨length_lt_of_run_loadContainer readData, nofun⟩
  rw [if_neg graftRtaSignatures] at read
  cases read

/-- The loop pushes what it reads after the fields it starts from. -/
theorem parseTxExtraLoop_pushed : ∀ (rounds : Nat) (s : List UInt8) (pushed : List TxExtraField),
    parseTxExtraLoop rounds s pushed =
      ((parseTxExtraLoop rounds s []).1, pushed ++ (parseTxExtraLoop rounds s []).2)
  | 0, _, pushed => by simp [parseTxExtraLoop]
  | rounds + 1, s, pushed => by
    simp only [parseTxExtraLoop]
    cases loadTxExtraField.run s with
    | none => simp
    | some result =>
      obtain ⟨field, rest⟩ := result
      dsimp only
      split_ifs
      · simp
      · rw [parseTxExtraLoop_pushed rounds rest (pushed ++ [field]),
          parseTxExtraLoop_pushed rounds rest ([] ++ [field])]
        simp

/-- An accepted extra is read as a well-formed list. -/
theorem wellFormed_parseTxExtraLoop : ∀ (rounds : Nat) (s : List UInt8),
    (parseTxExtraLoop rounds s []).1 = true →
      TxExtraFields.WellFormed (parseTxExtraLoop rounds s []).2
  | 0, _, accepted => by cases accepted
  | rounds + 1, s, accepted => by
    simp only [parseTxExtraLoop] at accepted ⊢
    cases read : loadTxExtraField.run s with
    | none =>
      rw [read] at accepted
      cases accepted
    | some result =>
      obtain ⟨field, rest⟩ := result
      obtain ⟨fits, ends⟩ := fits_of_run_loadTxExtraField read
      rw [read] at accepted
      dsimp only at accepted ⊢
      by_cases last : rest = []
      · rw [if_pos last]
        exact .singleton fits
      · have notPadding : field.isPadding = false := by
          cases padding : field.isPadding
          · rfl
          · exact absurd (ends padding) last
        rw [if_neg last, parseTxExtraLoop_pushed] at accepted ⊢
        exact .cons fits notPadding (wellFormed_parseTxExtraLoop rounds rest accepted)

theorem parseTxExtra_wellFormed {txExtra : List UInt8} (accepted : (parseTxExtra txExtra).1 = true) :
    TxExtraFields.WellFormed (parseTxExtra txExtra).2 := by
  unfold parseTxExtra at accepted ⊢
  split
  · exact .nil
  · rw [if_neg ‹_›] at accepted
    exact wellFormed_parseTxExtraLoop _ _ accepted

/-- The lists of fields parse_tx_extra reads back from their bytes are the well-formed ones, and
every extra it accepts is read as one: written again, its fields are read back as they were. -/
theorem tx_extra_fields_round_trip (fields : List TxExtraField) (txExtra : List UInt8) :
    (TxExtraFields.WellFormed fields → parseTxExtra (storeTxExtra fields) = (true, fields)) ∧
    ((parseTxExtra txExtra).1 = true →
      TxExtraFields.WellFormed (parseTxExtra txExtra).2 ∧
        parseTxExtra (storeTxExtra (parseTxExtra txExtra).2) = parseTxExtra txExtra) := by
  refine ⟨parseTxExtra_storeTxExtra, fun accepted => ?_⟩
  have wf := parseTxExtra_wellFormed accepted
  refine ⟨wf, ?_⟩
  rw [parseTxExtra_storeTxExtra wf]
  exact Prod.ext accepted.symm rfl

theorem tx_extra_fields_round_trip_nonce_padding :
    TxExtraFields.WellFormed [.nonce [1, 2], .padding 3] ∧
    parseTxExtra (storeTxExtra [.nonce [1, 2], .padding 3]) = (true, [.nonce [1, 2], .padding 3]) ∧
    (parseTxExtra [0x02, 0x80]).1 = true ∧
    TxExtraFields.WellFormed (parseTxExtra [0x02, 0x80]).2 ∧
    parseTxExtra (storeTxExtra (parseTxExtra [0x02, 0x80]).2) = parseTxExtra [0x02, 0x80] :=
  have wf : TxExtraFields.WellFormed [.nonce [1, 2], .padding 3] :=
    .cons (by decide) rfl (.singleton (by decide))
  have accepted : (parseTxExtra [0x02, 0x80]).1 = true := by decide
  ⟨wf, (tx_extra_fields_round_trip _ [0x02, 0x80]).1 wf, accepted,
    (tx_extra_fields_round_trip [] _).2 accepted⟩

/-! ## Removing a type of field -/

/-- remove_field_from_tx_extra's loop writes the fields of the other types that the loop of
parse_tx_extra reads, and fails where it fails. -/
theorem removeFieldLoop_eq (type : UInt8) : ∀ (rounds : Nat) (s written : List UInt8),
    removeFieldLoop type rounds s written =
      bif (parseTxExtraLoop rounds s []).1 then
        some (written ++ storeTxExtra ((parseTxExtraLoop rounds s []).2.filter (·.tag != type)))
      else none
  | 0, _, _ => rfl
  | rounds + 1, s, written => by
    rw [removeFieldLoop, parseTxExtraLoop]
    match loadTxExtraField.run s with
    | none => rfl
    | some (field, rest) =>
      dsimp only
      -- the field is written exactly when the filter keeps it
      have kept : (if field.tag ≠ type then written ++ storeTxExtraField field else written) =
          written ++ storeTxExtra ([field].filter (·.tag != type)) := by
        by_cases same : field.tag = type <;> simp [same, storeTxExtra]
      by_cases last : rest = []
      · simp only [if_pos last, kept]
        rfl
      · rw [if_neg last, if_neg last, removeFieldLoop_eq type rounds rest,
          parseTxExtraLoop_pushed rounds rest ([] ++ [field]), kept]
        simp only [List.nil_append, List.filter_append, storeTxExtra, List.flatMap_append,
          List.append_assoc]

/-- remove_field_from_tx_extra is a filter on the fields read: for an accepted extra it returns
true and leaves an extra read as the fields of the other types, in their order; for a refused one
it returns false and leaves the extra as it was. -/
theorem remove_field_from_tx_extra_filters (txExtra : List UInt8) (type : UInt8) :
    ((parseTxExtra txExtra).1 = true →
      (removeFieldFromTxExtra txExtra type).1 = true ∧
        parseTxExtra (removeFieldFromTxExtra txExtra type).2 =
          (true, (parseTxExtra txExtra).2.filter (·.tag != type))) ∧
    ((parseTxExtra txExtra).1 = false → removeFieldFromTxExtra txExtra type = (false, txExtra)) := by
  by_cases empty : txExtra = []
  · subst empty
    exact ⟨fun _ => ⟨rfl, rfl⟩, nofun⟩
  · have accepted := @parseTxExtra_wellFormed txExtra
    unfold parseTxExtra at accepted ⊢
    unfold removeFieldFromTxExtra
    rw [if_neg empty] at accepted ⊢
    rw [if_neg empty, removeFieldLoop_eq]
    cases verdict : (parseTxExtraLoop txExtra.length txExtra []).1
    · exact ⟨nofun, fun _ => rfl⟩
    · have wf := accepted verdict
      refine ⟨fun _ => ⟨rfl, ?_⟩, nofun⟩
      rw [List.nil_append]
      exact parseTxExtra_storeTxExtra (wf.filter _)

theorem remove_nonce_from_tx_extra :
    (parseTxExtra (storeTxExtra [.nonce [1], .pubKey (zeroBlob 32)])).1 = true ∧
    (removeFieldFromTxExtra (storeTxExtra [.nonce [1], .pubKey (zeroBlob 32)]) 0x02).1 = true ∧
    parseTxExtra (removeFieldFromTxExtra (storeTxExtra [.nonce [1], .pubKey (zeroBlob 32)]) 0x02).2 =
      (true, (parseTxExtra (storeTxExtra [.nonce [1], .pubKey (zeroBlob 32)])).2.filter
        (·.tag != 0x02)) :=
  have accepted : (parseTxExtra (storeTxExtra [.nonce [1], .pubKey (zeroBlob 32)])).1 = true := by
    decide
  ⟨accepted, (remove_field_from_tx_extra_filters _ 0x02).1 accepted⟩

/-! ## The Graft fields read back -/

theorem parseBinaryOf_of_readsBack {α : Type} {load : Decoder UInt8 α} {blob : List UInt8}
    {value : α} (read : ReadsBack load blob value) : parseBinaryOf load blob = some value := by
  have whole := read []
  rw [List.append_nil] at whole
  rw [parseBinaryOf, whole]

theorem readsBack_loadGraftStakeTxExtra {stakeTx : GraftStakeTxExtra}
    (fits : stakeTx.supernodePublicId.length < 2 ^ 64) :
    ReadsBack loadGraftStakeTxExtra (storeGraftStakeTxExtra stakeTx) stakeTx := by
  rw [storeGraftStakeTxExtra, List.append_assoc, List.append_assoc]
  exact (readsBack_loadBytes fits).bind ((readsBack_loadBlob _).bind
    ((readsBack_loadBlob _).bind (readsBack_loadBlob _).bind_pure))

theorem readsBack_loadRtaHeader {header : RtaHeader}
    (fits : header.paymentId.length < 2 ^ 64 ∧ header.keys.length < 2 ^ 64) :
    ReadsBack loadRtaHeader (storeRtaHeader header) header := by
  rw [storeRtaHeader, List.append_assoc]
  exact (readsBack_loadBytes fits.1).bind ((readsBack_loadUint64 _).bind
    (readsBack_loadKeys fits.2).bind_pure)

theorem storeTxExtra_append (fields others : List TxExtraField) :
    storeTxExtra (fields ++ others) = storeTxExtra fields ++ storeTxExtra others :=
  List.flatMap_append

/-- The first field of a kind after fields of other kinds. -/
theorem findSome?_append_of_none {β : Type} {select : TxExtraField → Option β}
    {fields : List TxExtraField} (others : List TxExtraField)
    (none : ∀ field ∈ fields, select field = Option.none) :
    (fields ++ others).findSome? select = others.findSome? select := by
  rw [List.findSome?_append, List.findSome?_eq_none_iff.mpr none, Option.none_or]

/-- The stake payload and the secret key appended to the fields of a well-formed list without a
padding, a stake or a secret key field are what get_graft_stake_tx_extra_from_extra finds. -/
theorem graft_stake_tx_extra_read_back {fields : List TxExtraField}
    (wf : TxExtraFields.WellFormed fields) (noPadding : ∀ field ∈ fields, field.isPadding = false)
    (noStake : ∀ field ∈ fields, field.graftStakeTx? = none)
    (noSecretKey : ∀ field ∈ fields, field.graftTxSecretKey? = none)
    (stakeTx : GraftStakeTxExtra) (secretKey : Blob 32)
    (fits : (storeGraftStakeTxExtra stakeTx).length < 2 ^ 64) :
    getGraftStakeTxExtraFromExtra
        (addGraftTxSecretKeyToExtra
          (addGraftStakeTxExtraToExtra (storeTxExtra fields) stakeTx.supernodePublicId
            stakeTx.supernodePublicAddress stakeTx.supernodeSignature) secretKey) =
      some (stakeTx, secretKey) := by
  have appended : addGraftTxSecretKeyToExtra
      (addGraftStakeTxExtraToExtra (storeTxExtra fields) stakeTx.supernodePublicId
        stakeTx.supernodePublicAddress stakeTx.supernodeSignature) secretKey =
      storeTxExtra (fields ++ [.graftStakeTx (storeGraftStakeTxExtra stakeTx),
        .graftTxSecretKey secretKey]) := by
    rw [storeTxExtra_append, addGraftTxSecretKeyToExtra, addGraftStakeTxExtraToExtra]
    simp only [storeTxExtra, List.flatMap_cons, List.flatMap_nil, List.append_nil, storeTxExtraField,
      TxExtraField.tag, List.append_assoc]
    rfl
  have idFits : stakeTx.supernodePublicId.length < 2 ^ 64 := by
    have stored : stakeTx.supernodePublicId.length ≤ (storeGraftStakeTxExtra stakeTx).length := by
      simp only [storeGraftStakeTxExtra, List.length_append, storeBytes_length]
      omega
    omega
  have wfAll : TxExtraFields.WellFormed
      (fields ++ [.graftStakeTx (storeGraftStakeTxExtra stakeTx), .graftTxSecretKey secretKey]) :=
    wf.append noPadding (.cons fits rfl (.singleton trivial))
  rw [appended, getGraftStakeTxExtraFromExtra, parseTxExtra_storeTxExtra wfAll]
  have stake : [TxExtraField.graftStakeTx (storeGraftStakeTxExtra stakeTx),
      .graftTxSecretKey secretKey].findSome? TxExtraField.graftStakeTx? =
      some (storeGraftStakeTxExtra stakeTx) := rfl
  have key : [TxExtraField.graftStakeTx (storeGraftStakeTxExtra stakeTx),
      .graftTxSecretKey secretKey].findSome? TxExtraField.graftTxSecretKey? = some secretKey := rfl
  simp only [findSome?_append_of_none _ noStake, findSome?_append_of_none _ noSecretKey, stake, key,
    Option.bind_eq_bind, Option.bind_some,
    parseBinaryOf_of_readsBack (readsBack_loadGraftStakeTxExtra idFits)]
  rfl

/-- The stake fields of supernode `AB` after a public key, a nonce and a Graft extra. -/
theorem graft_stake_tx_extra_read_back_after_three_fields :
    getGraftStakeTxExtraFromExtra
        (addGraftTxSecretKeyToExtra
          (addGraftStakeTxExtraToExtra
            (storeTxExtra [.pubKey (zeroBlob 32), .nonce [1, 2, 3], .graftExtra [7]]) [65, 66]
            (zeroBlob 32, zeroBlob 32) (zeroBlob 64))
          ⟨List.replicate 32 9, rfl⟩) =
      some (⟨[65, 66], (zeroBlob 32, zeroBlob 32), zeroBlob 64⟩, ⟨List.replicate 32 9, rfl⟩) :=
  graft_stake_tx_extra_read_back
    (.cons (by decide) rfl (.cons (by decide) rfl (.singleton (by decide))))
    (by decide) (by decide) (by decide) ⟨[65, 66], (zeroBlob 32, zeroBlob 32), zeroBlob 64⟩
    ⟨List.replicate 32 9, rfl⟩ (by decide +kernel)

/-- An RTA header appended to the fields of a well-formed list without a padding or an RTA header
is what get_graft_rta_header_from_extra finds. -/
theorem graft_rta_header_read_back {fields : List TxExtraField}
    (wf : TxExtraFields.WellFormed fields) (noPadding : ∀ field ∈ fields, field.isPadding = false)
    (noRtaHeader : ∀ field ∈ fields, field.graftRtaHeader? = none) (header : RtaHeader)
    (fits : (storeRtaHeader header).length < 2 ^ 64) :
    getGraftRtaHeaderFromExtra (addGraftRtaHeaderToExtra (storeTxExtra fields) header) =
      some header := by
  have appended : addGraftRtaHeaderToExtra (storeTxExtra fields) header =
      storeTxExtra (fields ++ [.graftRtaHeader (storeRtaHeader header)]) := by
    rw [storeTxExtra_append, addGraftRtaHeaderToExtra, List.append_assoc]
    simp only [storeTxExtra, List.flatMap_cons, List.flatMap_nil, List.append_nil, storeTxExtraField,
      TxExtraField.tag]
    rfl
  have headerFits : header.paymentId.length < 2 ^ 64 ∧ header.keys.length < 2 ^ 64 := by
    have keys := @length_le_length_flatMap UInt8 PublicKey storeBlob
      (fun key => by rw [storeBlob_length]; decide) header.keys
    have stored : header.paymentId.length + header.keys.length ≤ (storeRtaHeader header).length := by
      simp only [storeRtaHeader, storeContainer, List.length_append, storeBytes_length]
      omega
    omega
  have wfAll : TxExtraFields.WellFormed (fields ++ [.graftRtaHeader (storeRtaHeader header)]) :=
    wf.append noPadding (.singleton fits)
  rw [appended, getGraftRtaHeaderFromExtra, parseTxExtra_storeTxExtra wfAll,
    findSome?_append_of_none _ noRtaHeader]
  exact parseBinaryOf_of_readsBack (readsBack_loadRtaHeader headerFits)

/-- An RTA header after a public key and the stake fields. -/
theorem graft_rta_header_read_back_after_stake_fields :
    getGraftRtaHeaderFromExtra
        (addGraftRtaHeaderToExtra
          (storeTxExtra [.pubKey (zeroBlob 32), .graftStakeTx [1, 2],
            .graftTxSecretKey (zeroBlob 32)])
          ⟨[1], 7, [zeroBlob 32]⟩) =
      some ⟨[1], 7, [zeroBlob 32]⟩ :=
  graft_rta_header_read_back
    (.cons (by decide) rfl (.cons (by decide) rfl (.singleton (by decide))))
    (by decide) (by decide) ⟨[1], 7, [zeroBlob 32]⟩ (by decide)

/-- An extra that ends inside a varint is accepted: the size of a nonce cut off after a
continuation byte reads as 0. What is appended to it then continues that varint, so neither the
stake fields nor an RTA header appended to it are found. A padding of size 0 is written as its tag
alone and read back as a padding of size 1. -/
theorem graft_fields_lost_after_cut_varint :
    parseTxExtra [0x02, 0x80] = (true, [.nonce []]) ∧
    getGraftStakeTxExtraFromExtra
        (addGraftTxSecretKeyToExtra
          (addGraftStakeTxExtraToExtra [0x02, 0x80] [] (zeroBlob 32, zeroBlob 32) (zeroBlob 64))
          (zeroBlob 32)) = none ∧
    getGraftRtaHeaderFromExtra (addGraftRtaHeaderToExtra [0x02, 0x80] ⟨[], 0, []⟩) = none ∧
    parseTxExtra (storeTxExtra [.padding 0]) = (true, [.padding 1]) :=
  ⟨by decide, by decide +kernel, by decide, by decide⟩

end GraftNetwork.Serialization

import GraftNetwork.Serialization.Transaction

/-!
# The JSON codec of transactions

json_object.cpp writes a transaction as a rapidjson object with one member for each field it
carries, and reads such an object back into a transaction that the caller supplies. The codecs of
the components (inputs, outputs, signatures, the RingCT signature) are parameters, each a writer
and a reader; the numbers, the vectors and the transaction's own object are modelled.

* `fromJsonValueTransaction_keeps`: the reader writes every field the writer carries and leaves
  `type` and `extra2` as they were.
* `fromJsonValue_toJsonValue`: with components that come back, a transaction comes back with all
  its fields but `type` and `extra2`.
* `json_round_trip_keeps_blob_iff`: read back into a fresh transaction, it keeps its binary blob
  exactly when it is older than version 3 or has a fresh transaction's Graft fields.
* `json_round_trip_changes_rta_blob`: an RTA transaction read back into a fresh transaction has
  another blob, whatever the codecs of the components.
-/

namespace GraftNetwork.Serialization

/-- A rapidjson value, with the kinds json_object.cpp writes. A number is stored with its value,
which tells `IsUint` and `IsUint64`. -/
inductive JsonValue where
  | null
  | number (n : Int)
  | string (s : String)
  | array (items : List JsonValue)
  | object (members : List (String × JsonValue))

/-- A pair of `toJsonValue` and `fromJsonValue`; the reader is `none` where it throws. -/
structure JsonCodec (α : Type) where
  toJsonValue : α → JsonValue
  fromJsonValue : JsonValue → Option α

/-- `HasMember` and `operator[]`: the first member of that name. -/
def JsonValue.member? : JsonValue → String → Option JsonValue
  | .object members, key => (members.find? (·.1 == key)).map (·.2)
  | _, _ => none

/-- `GET_FROM_JSON_OBJECT(source, dst, key)`: `MISSING_KEY` without the member, then the
reader of the member into a fresh value. -/
def getFromJsonObject {α : Type} (source : JsonValue) (key : String) (codec : JsonCodec α) :
    Option α :=
  (source.member? key).bind codec.fromJsonValue

/-- `uint64_t`: `rapidjson::Value(std::uint64_t(i))`, read back by `to_uint64`, which throws
unless `IsUint64`. -/
def uint64Codec : JsonCodec UInt64 where
  toJsonValue i := .number i.toNat
  fromJsonValue
    | .number n => if 0 ≤ n ∧ n < 2 ^ 64 then some (UInt64.ofNat n.toNat) else none
    | _ => none

/-- `uint8_t`: written as an `int`, read back by `to_uint`, which throws unless `IsUint`, and
`convert_numeric`, which throws above 255. -/
def byteCodec : JsonCodec UInt8 where
  toJsonValue i := .number i.toNat
  fromJsonValue
    | .number n =>
      if 0 ≤ n ∧ n < 2 ^ 32 then (if n < 256 then some (UInt8.ofNat n.toNat) else none) else none
    | _ => none

/-- The vector templates of json_object.h: an array of the elements, read back element by
element, throwing unless the value is an array. -/
def vectorCodec {α : Type} (codec : JsonCodec α) : JsonCodec (List α) where
  toJsonValue vec := .array (vec.map codec.toJsonValue)
  fromJsonValue
    | .array items => items.mapM codec.fromJsonValue
    | _ => none

/-- `codec` reads `a` back from the value it writes for it. -/
def JsonCodec.RoundTrips {α : Type} (codec : JsonCodec α) (a : α) : Prop :=
  codec.fromJsonValue (codec.toJsonValue a) = some a

theorem uint64Codec_roundTrips (i : UInt64) : uint64Codec.RoundTrips i := by
  simp [JsonCodec.RoundTrips, uint64Codec, i.toNat_lt]

theorem byteCodec_roundTrips (b : UInt8) : byteCodec.RoundTrips b := by
  have fits : b.toNat < 4294967296 := Nat.lt_trans b.toNat_lt (by decide)
  simp [JsonCodec.RoundTrips, byteCodec, b.toNat_lt, fits]

theorem vectorCodec_roundTrips {α : Type} {codec : JsonCodec α} :
    ∀ {vec : List α}, (∀ a ∈ vec, codec.RoundTrips a) → (vectorCodec codec).RoundTrips vec
  | [], _ => rfl
  | a :: vec, each => by
    have head : codec.RoundTrips a := each a List.mem_cons_self
    have tail : (vectorCodec codec).RoundTrips vec :=
      vectorCodec_roundTrips fun a' mem => each a' (List.mem_cons_of_mem a mem)
    simp only [JsonCodec.RoundTrips, vectorCodec, List.map_cons, List.mapM_cons] at head tail ⊢
    rw [head, tail]
    rfl

/-- A member that holds what a codec writes of `a` is read back as `a`. -/
theorem getFromJsonObject_of_member {α : Type} (source : JsonValue) (key : String)
    {codec : JsonCodec α} {a : α} (member : source.member? key = some (codec.toJsonValue a))
    (roundTrips : codec.RoundTrips a) : getFromJsonObject source key codec = some a := by
  rw [getFromJsonObject, member, Option.bind_some]
  exact roundTrips

/-- The codecs of a transaction's components. -/
structure TransactionCodecs where
  txinV : JsonCodec TxinV
  txOut : JsonCodec TxOut
  signature : JsonCodec Signature
  rctSig : JsonCodec RctSig

/-- toJsonValue of a transaction: the prefix, the signatures and the RingCT signature. -/
def toJsonValueTransaction (codecs : TransactionCodecs) (tx : Transaction) : JsonValue :=
  .object
    [("version", uint64Codec.toJsonValue tx.version),
     ("unlock_time", uint64Codec.toJsonValue tx.unlockTime),
     ("inputs", (vectorCodec codecs.txinV).toJsonValue tx.vin),
     ("outputs", (vectorCodec codecs.txOut).toJsonValue tx.vout),
     ("extra", (vectorCodec byteCodec).toJsonValue tx.extra),
     ("signatures", (vectorCodec (vectorCodec codecs.signature)).toJsonValue tx.signatures),
     ("ringct", codecs.rctSig.toJsonValue tx.rctSignatures)]

/-- fromJsonValue of a transaction into `tx`: it throws unless the value is an object, then reads
each member it writes into its field. -/
def fromJsonValueTransaction (codecs : TransactionCodecs) (val : JsonValue) (tx : Transaction) :
    Option Transaction :=
  match val with
  | .object _ => do
    let version ← getFromJsonObject val "version" uint64Codec
    let unlockTime ← getFromJsonObject val "unlock_time" uint64Codec
    let vin ← getFromJsonObject val "inputs" (vectorCodec codecs.txinV)
    let vout ← getFromJsonObject val "outputs" (vectorCodec codecs.txOut)
    let extra ← getFromJsonObject val "extra" (vectorCodec byteCodec)
    let signatures ← getFromJsonObject val "signatures" (vectorCodec (vectorCodec codecs.signature))
    let rctSignatures ← getFromJsonObject val "ringct" codecs.rctSig
    pure { tx with version, unlockTime, vin, vout, extra, signatures, rctSignatures }
  | _ => none

/-- The reader of a transaction takes the version from the member `version`, and the fields the
writer does not carry from the transaction it reads into. -/
theorem fromJsonValueTransaction_keeps {codecs : TransactionCodecs} {val : JsonValue}
    {tx tx' : Transaction} (read : fromJsonValueTransaction codecs val tx = some tx') :
    getFromJsonObject val "version" uint64Codec = some tx'.version ∧ tx'.type = tx.type ∧
      tx'.extra2 = tx.extra2 := by
  unfold fromJsonValueTransaction at read
  split at read
  · simp only [Option.bind_eq_bind, Option.bind_eq_some_iff, Option.pure_def, Option.some.injEq] at read
    obtain ⟨version, readVersion, _, _, _, _, _, _, _, _, _, _, _, _, rfl⟩ := read
    exact ⟨readVersion, rfl, rfl⟩
  · cases read

/-- The writer and the reader of a transaction agree on every field the writer carries: when the
components come back through their codecs, the transaction comes back, with the `type` and
`extra2` of the transaction it is read into. -/
theorem fromJsonValue_toJsonValue (codecs : TransactionCodecs) {tx : Transaction}
    (target : Transaction) (vin : ∀ txin ∈ tx.vin, codecs.txinV.RoundTrips txin)
    (vout : ∀ out ∈ tx.vout, codecs.txOut.RoundTrips out)
    (signatures : ∀ sigs ∈ tx.signatures, ∀ sig ∈ sigs, codecs.signature.RoundTrips sig)
    (rct : codecs.rctSig.RoundTrips tx.rctSignatures) :
    fromJsonValueTransaction codecs (toJsonValueTransaction codecs tx) target =
      some { tx with type := target.type, extra2 := target.extra2 } := by
  have readSignatures : (vectorCodec (vectorCodec codecs.signature)).RoundTrips tx.signatures :=
    vectorCodec_roundTrips fun sigs mem => vectorCodec_roundTrips (signatures sigs mem)
  set val := toJsonValueTransaction codecs tx
  simp only [fromJsonValueTransaction, val,
    getFromJsonObject_of_member val "version" rfl (uint64Codec_roundTrips tx.version),
    getFromJsonObject_of_member val "unlock_time" rfl (uint64Codec_roundTrips tx.unlockTime),
    getFromJsonObject_of_member val "inputs" rfl (vectorCodec_roundTrips vin),
    getFromJsonObject_of_member val "outputs" rfl (vectorCodec_roundTrips vout),
    getFromJsonObject_of_member val "extra" rfl
      (vectorCodec_roundTrips fun b _ => byteCodec_roundTrips b),
    getFromJsonObject_of_member val "signatures" rfl readSignatures,
    getFromJsonObject_of_member val "ringct" rfl rct]
  rfl

/-! ## The blob of a transaction read back -/

theorem storeBytes_ne_nil (v : List UInt8) : storeBytes v ≠ [] := by
  simp [storeBytes, storeContainer, writeVarint_ne_nil]

/-- The writer of a transaction reads `type` and `extra2` only for the Graft fields at its end:
with other values there, it writes the same bytes before them. -/
theorem dumpBinary_with_type {tx : Transaction} {blob : List UInt8} (type : UInt64)
    (extra2 : List UInt8) (accepted : dumpBinary tx = some blob) :
    ∃ front, blob = front ++ storeTransactionType tx ∧
      dumpBinary { tx with type, extra2 } =
        some (front ++ storeTransactionType { tx with type, extra2 }) := by
  obtain ⟨pre, storedPre, accepted⟩ := Option.bind_eq_some_iff.mp accepted
  obtain ⟨signatures, storedSignatures, built⟩ := Option.bind_eq_some_iff.mp accepted
  refine ⟨pre ++ signatures, (Option.some.inj built).symm, ?_⟩
  have samePre : storeTransactionPrefix { tx with type, extra2 }.toTransactionPrefix = some pre :=
    storedPre
  have sameSignatures : storeTransactionSignatures { tx with type, extra2 } = some signatures :=
    storedSignatures
  simp only [dumpBinary, storeTransaction, samePre, sameSignatures, Option.bind_eq_bind,
    Option.bind_some]

/-- A blob of version 3 or later ends with the last byte of `extra2`'s container. -/
theorem getLast?_dumpBinary {tx : Transaction} {blob : List UInt8}
    (accepted : dumpBinary tx = some blob) (graft : 3 ≤ tx.version) :
    blob.getLast? = (storeBytes tx.extra2).getLast? := by
  obtain ⟨front, rfl, _⟩ := dumpBinary_with_type tx.type tx.extra2 accepted
  rw [storeTransactionType, if_pos graft, ← List.append_assoc,
    List.getLast?_append_of_ne_nil _ (storeBytes_ne_nil _)]

/-- The Graft fields are written as those of a fresh transaction exactly when the transaction is
older than version 3 or has them as a fresh transaction does. -/
theorem storeTransactionType_generic_iff (tx : Transaction) :
    storeTransactionType { tx with type := txTypeGeneric, extra2 := [] } = storeTransactionType tx ↔
      tx.version < 3 ∨ tx.type = txTypeGeneric ∧ tx.extra2 = [] := by
  unfold storeTransactionType
  by_cases graft : 3 ≤ tx.version
  · have notOld : ¬ tx.version < 3 := UInt64.not_lt.mpr graft
    simp only [graft, if_true, notOld, false_or]
    constructor
    · intro same
      obtain ⟨types, extras⟩ := List.append_inj same (by simp only [storeUint64, storeUint_length])
      -- a container of bytes is as long as its count and its bytes, and the count takes a byte
      have lengths := congrArg List.length extras
      rw [storeBytes_length, storeBytes_length, List.length_nil] at lengths
      have counted : (writeVarint (UInt64.ofNat 0)).length = 1 := rfl
      have short : 1 ≤ (writeVarint (UInt64.ofNat tx.extra2.length)).length :=
        List.length_pos_iff.mpr (writeVarint_ne_nil _)
      refine ⟨(ReadsBack.injective readsBack_loadUint64 types).symm, ?_⟩
      apply List.eq_nil_of_length_eq_zero
      omega
    · rintro ⟨type, extra2⟩
      rw [type, extra2]
  · have old : tx.version < 3 := UInt64.not_le.mp graft
    simp [graft, old]

/-- tx_type_rta (1): a version 3 transaction with one byte of `extra2` and nothing else. -/
def rtaTransaction : Transaction := ⟨⟨3, 0, [], [], []⟩, [], RctSig.null, 1, [7]⟩

/-- Codecs of the components that write `null` and read back only a RingCT signature of type
RCTTypeNull. -/
def nullCodecs : TransactionCodecs :=
  ⟨⟨fun _ => .null, fun _ => none⟩, ⟨fun _ => .null, fun _ => none⟩,
    ⟨fun _ => .null, fun _ => none⟩, ⟨fun _ => .null, fun _ => some RctSig.null⟩⟩

/-- A transaction whose components come back through their codecs, written to JSON and read back
into a fresh transaction, keeps its blob exactly when it is older than version 3 or has the Graft
fields of a fresh transaction. -/
theorem json_round_trip_keeps_blob_iff (codecs : TransactionCodecs) {tx : Transaction}
    {blob : List UInt8} (vin : ∀ txin ∈ tx.vin, codecs.txinV.RoundTrips txin)
    (vout : ∀ out ∈ tx.vout, codecs.txOut.RoundTrips out)
    (signatures : ∀ sigs ∈ tx.signatures, ∀ sig ∈ sigs, codecs.signature.RoundTrips sig)
    (rct : codecs.rctSig.RoundTrips tx.rctSignatures) (accepted : dumpBinary tx = some blob) :
    (fromJsonValueTransaction codecs (toJsonValueTransaction codecs tx) emptyTransaction).bind
        dumpBinary = some blob ↔
      tx.version < 3 ∨ tx.type = txTypeGeneric ∧ tx.extra2 = [] := by
  rw [fromJsonValue_toJsonValue codecs emptyTransaction vin vout signatures rct, Option.bind_some]
  obtain ⟨front, rfl, written⟩ :=
    dumpBinary_with_type emptyTransaction.type emptyTransaction.extra2 accepted
  rw [written, Option.some.injEq, List.append_cancel_left_eq]
  exact storeTransactionType_generic_iff tx

theorem json_round_trip_rta_blob_iff :
    nullCodecs.rctSig.RoundTrips rtaTransaction.rctSignatures ∧
    dumpBinary rtaTransaction = some [3, 0, 0, 0, 0, 1, 0, 0, 0, 0, 0, 0, 0, 1, 7] ∧
    ((fromJsonValueTransaction nullCodecs (toJsonValueTransaction nullCodecs rtaTransaction)
        emptyTransaction).bind dumpBinary = some [3, 0, 0, 0, 0, 1, 0, 0, 0, 0, 0, 0, 0, 1, 7] ↔
      rtaTransaction.version < 3 ∨ rtaTransaction.type = txTypeGeneric ∧
        rtaTransaction.extra2 = []) :=
  have accepted : dumpBinary rtaTransaction = some [3, 0, 0, 0, 0, 1, 0, 0, 0, 0, 0, 0, 0, 1, 7] :=
    by decide
  ⟨rfl, accepted, json_round_trip_keeps_blob_iff nullCodecs (fun _ none => absurd none List.not_mem_nil)
    (fun _ none => absurd none List.not_mem_nil) (fun _ none => absurd none List.not_mem_nil) rfl
    accepted⟩

/-- Whatever the codecs of the components, an RTA transaction read back into a fresh
transaction has another blob: its last byte is the zero count of the fresh `extra2`. -/
theorem json_round_trip_changes_rta_blob (codecs : TransactionCodecs) :
    ∃ blob, dumpBinary rtaTransaction = some blob ∧
      (fromJsonValueTransaction codecs (toJsonValueTransaction codecs rtaTransaction)
        emptyTransaction).bind dumpBinary ≠ some blob := by
  refine ⟨[3, 0, 0, 0, 0, 1, 0, 0, 0, 0, 0, 0, 0, 1, 7], by decide, ?_⟩
  cases read : fromJsonValueTransaction codecs (toJsonValueTransaction codecs rtaTransaction)
      emptyTransaction with
  | none => simp
  | some tx' =>
    obtain ⟨readVersion, _, extra2⟩ := fromJsonValueTransaction_keeps read
    rw [getFromJsonObject_of_member _ "version" rfl (uint64Codec_roundTrips _)] at readVersion
    have graft : 3 ≤ tx'.version := by
      rw [← Option.some.inj readVersion]
      decide
    intro written
    have last := getLast?_dumpBinary written graft
    rw [extra2] at last
    exact absurd last (by decide)

end GraftNetwork.Serialization

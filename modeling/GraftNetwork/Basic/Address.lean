import GraftNetwork.Common.Base58
import GraftNetwork.Basic.FormatUtils
import GraftNetwork.Serialization.TxExtra

/-!
# Account addresses as strings (cryptonote_basic_impl.cpp)

An address is written as `encode_addr` of the network's prefix for its kind and the binary dump
of its keys (and of the payment id, for an integrated address). `get_account_address_from_str`
reads a string of any other length than `2 * sizeof(public_address_outer_blob)` with
`decode_addr`, dispatches on the prefix, parses the keys and checks them with `check_key`; a
string of that length is read in the old hexadecimal format with a byte-sum checksum.

* `length_encodeAddr`: an address string has 95 letters, an integrated one 106, so neither is
  ever taken for the old format.
* `address_string_round_trip`: on every network, the string of an address or of an integrated
  address reads back as the address, its kind and its payment id, when its keys pass
  `check_key`; and `decode_addr` reads back every tag and data `encode_addr` writes.

`cn_fast_hash` and `check_key` are parameters: the round trip holds for any functions.
-/

namespace GraftNetwork.Basic

open GraftNetwork.Serialization GraftNetwork.Common

/-! ## Networks -/

/-- network_type. -/
inductive NetworkType
  | MAINNET
  | TESTNET
  | STAGENET
  | FAKECHAIN
  | UNDEFINED
deriving DecidableEq, Repr

/-- The address prefixes of config_t. -/
structure ConfigT where
  CRYPTONOTE_PUBLIC_ADDRESS_BASE58_PREFIX : UInt64
  CRYPTONOTE_PUBLIC_INTEGRATED_ADDRESS_BASE58_PREFIX : UInt64
  CRYPTONOTE_PUBLIC_SUBADDRESS_BASE58_PREFIX : UInt64
deriving DecidableEq, Repr

def mainnet : ConfigT := ⟨90, 91, 102⟩

def testnet : ConfigT := ⟨84, 85, 112⟩

def stagenet : ConfigT := ⟨24, 25, 36⟩

/-- get_config: `none` where it throws. A fake chain uses the main network's prefixes. -/
def getConfig : NetworkType → Option ConfigT
  | .MAINNET => some mainnet
  | .TESTNET => some testnet
  | .STAGENET => some stagenet
  | .FAKECHAIN => some mainnet
  | .UNDEFINED => none

def CRYPTONOTE_PUBLIC_ADDRESS_TEXTBLOB_VER : Nat := 0

/-! ## Addresses and their binary dumps -/

structure AccountPublicAddress where
  spendPublicKey : PublicKey
  viewPublicKey : PublicKey
deriving DecidableEq, Repr

def storeAccountPublicAddress (adr : AccountPublicAddress) : List UInt8 :=
  storeBlob adr.spendPublicKey ++ storeBlob adr.viewPublicKey

def loadAccountPublicAddress : Decoder UInt8 AccountPublicAddress := do
  let spendPublicKey ← loadBlob 32
  let viewPublicKey ← loadBlob 32
  pure ⟨spendPublicKey, viewPublicKey⟩

/-- crypto::hash8. -/
abbrev Hash8 := Blob 8

structure IntegratedAddress where
  adr : AccountPublicAddress
  paymentId : Hash8
deriving DecidableEq, Repr

def storeIntegratedAddress (iadr : IntegratedAddress) : List UInt8 :=
  storeAccountPublicAddress iadr.adr ++ storeBlob iadr.paymentId

def loadIntegratedAddress : Decoder UInt8 IntegratedAddress := do
  let adr ← loadAccountPublicAddress
  let paymentId ← loadBlob 8
  pure ⟨adr, paymentId⟩

structure AddressParseInfo where
  address : AccountPublicAddress
  isSubaddress : Bool
  hasPaymentId : Bool
  paymentId : Hash8
deriving DecidableEq, Repr

/-- public_address_outer_blob: the version, the keys and a checksum byte, with no padding. -/
structure PublicAddressOuterBlob where
  ver : UInt8
  address : AccountPublicAddress
  checkSum : UInt8
deriving DecidableEq, Repr

def sizeofPublicAddressOuterBlob : Nat := 1 + 64 + 1

/-- The bytes of a public_address_outer_blob as it lies in memory. -/
def storePublicAddressOuterBlob (bl : PublicAddressOuterBlob) : List UInt8 :=
  bl.ver :: storeAccountPublicAddress bl.address ++ [bl.checkSum]

/-- A buffer of `sizeof(public_address_outer_blob)` bytes read in place as the struct. -/
def loadPublicAddressOuterBlob : Decoder UInt8 PublicAddressOuterBlob := do
  let ver ← loadUint8
  let address ← loadAccountPublicAddress
  let checkSum ← loadUint8
  pure ⟨ver, address, checkSum⟩

/-- get_account_address_checksum: the byte sum of every byte of the struct but the last. -/
def getAccountAddressChecksum (bl : PublicAddressOuterBlob) : UInt8 :=
  ((storePublicAddressOuterBlob bl).take (sizeofPublicAddressOuterBlob - 1)).foldl (· + ·) 0

/-! ## The old hexadecimal format -/

def hexDigit (c : Char) : Option Nat :=
  if '0' ≤ c ∧ c ≤ '9' then some (c.toNat - '0'.toNat)
  else if 'a' ≤ c ∧ c ≤ 'f' then some (c.toNat - 'a'.toNat + 10)
  else if 'A' ≤ c ∧ c ≤ 'F' then some (c.toNat - 'A'.toNat + 10)
  else none

/-- One byte of parse_hexstr_to_binbuff: `strtoul` in base 16 on two characters, which must read
both, to a value from 0 to 0xFF as a `long`. `strtoul` skips a leading space and takes a sign,
and a minus negates the value, so of the signed ones only `-0` is in range. -/
def hexByte (c₁ c₂ : Char) : Option UInt8 :=
  match hexDigit c₁, hexDigit c₂ with
  | some high, some low => some (UInt8.ofNat (high * 16 + low))
  | none, some low =>
    if FormatUtils.isSpace c₁ || c₁ == '+' then some (UInt8.ofNat low)
    else if c₁ = '-' ∧ low = 0 then some 0
    else none
  | _, none => none

def parseHexPairs : List Char → Option (List UInt8)
  | [] => some []
  | [_] => none
  | c₁ :: c₂ :: rest => do
    let byte ← hexByte c₁ c₂
    let bytes ← parseHexPairs rest
    pure (byte :: bytes)

/-- parse_hexstr_to_binbuff without a partial byte: an odd length is refused. -/
def parseHexstrToBinbuff (s : List Char) : Option (List UInt8) :=
  if s.length % 2 = 1 then none else parseHexPairs s

/-! ## Address strings -/

section Strings

variable (cnFastHash : List UInt8 → Blob 32) (checkKey : PublicKey → Bool)

/-- get_account_address_as_str: `none` where get_config throws. -/
def getAccountAddressAsStr (nettype : NetworkType) (subaddress : Bool)
    (adr : AccountPublicAddress) : Option (List Char) := do
  let config ← getConfig nettype
  let addressPrefix := if subaddress then config.CRYPTONOTE_PUBLIC_SUBADDRESS_BASE58_PREFIX
    else config.CRYPTONOTE_PUBLIC_ADDRESS_BASE58_PREFIX
  pure (Base58.encodeAddr cnFastHash addressPrefix (storeAccountPublicAddress adr))

def getAccountIntegratedAddressAsStr (nettype : NetworkType) (adr : AccountPublicAddress)
    (paymentId : Hash8) : Option (List Char) := do
  let config ← getConfig nettype
  let integratedAddressPrefix := config.CRYPTONOTE_PUBLIC_INTEGRATED_ADDRESS_BASE58_PREFIX
  pure (Base58.encodeAddr cnFastHash integratedAddressPrefix
    (storeIntegratedAddress ⟨adr, paymentId⟩))

/-- The kind of address a prefix names, as get_account_address_from_str tries them: integrated,
plain, subaddress. -/
def addressKind (config : ConfigT) (info : AddressParseInfo) (tag : UInt64) :
    Option AddressParseInfo :=
  if config.CRYPTONOTE_PUBLIC_INTEGRATED_ADDRESS_BASE58_PREFIX = tag then
    some { info with isSubaddress := false, hasPaymentId := true }
  else if config.CRYPTONOTE_PUBLIC_ADDRESS_BASE58_PREFIX = tag then
    some { info with isSubaddress := false, hasPaymentId := false }
  else if config.CRYPTONOTE_PUBLIC_SUBADDRESS_BASE58_PREFIX = tag then
    some { info with isSubaddress := true, hasPaymentId := false }
  else none

/-- get_account_address_from_str: `none` where it returns false or get_config throws. `info` is
what the caller passed; a plain address or a subaddress leaves its payment id as it was. -/
def getAccountAddressFromStr (info : AddressParseInfo) (nettype : NetworkType)
    (str : List Char) : Option AddressParseInfo := do
  let config ← getConfig nettype
  if 2 * sizeofPublicAddressOuterBlob ≠ str.length then
    let (tag, data) ← Base58.decodeAddr cnFastHash str
    let info ← addressKind config info tag
    let info ←
      if info.hasPaymentId then do
        let iadr ← parseBinaryOf loadIntegratedAddress data
        pure { info with address := iadr.adr, paymentId := iadr.paymentId }
      else do
        let address ← parseBinaryOf loadAccountPublicAddress data
        pure { info with address := address }
    if !checkKey info.address.spendPublicKey || !checkKey info.address.viewPublicKey then none
    else some info
  else
    -- the old address format
    let buff ← parseHexstrToBinbuff str
    if buff.length ≠ sizeofPublicAddressOuterBlob then none
    else
      let blob ← parseBinaryOf loadPublicAddressOuterBlob buff
      if CRYPTONOTE_PUBLIC_ADDRESS_TEXTBLOB_VER < blob.ver.toNat then none
      else if blob.checkSum ≠ getAccountAddressChecksum blob then none
      else some { info with address := blob.address, isSubaddress := false, hasPaymentId := false }

/-! ## Reading addresses back -/

theorem length_storeAccountPublicAddress (adr : AccountPublicAddress) :
    (storeAccountPublicAddress adr).length = 64 := by
  rw [storeAccountPublicAddress, List.length_append, storeBlob_length, storeBlob_length]

theorem length_storeIntegratedAddress (iadr : IntegratedAddress) :
    (storeIntegratedAddress iadr).length = 72 := by
  rw [storeIntegratedAddress, List.length_append, length_storeAccountPublicAddress, storeBlob_length]

theorem readsBack_loadAccountPublicAddress (adr : AccountPublicAddress) :
    ReadsBack loadAccountPublicAddress (storeAccountPublicAddress adr) adr :=
  (readsBack_loadBlob _).bind (readsBack_loadBlob _).bind_pure

theorem readsBack_loadIntegratedAddress (iadr : IntegratedAddress) :
    ReadsBack loadIntegratedAddress (storeIntegratedAddress iadr) iadr :=
  (readsBack_loadAccountPublicAddress _).bind (readsBack_loadBlob _).bind_pure

/-- On every network the three prefixes differ, and each is one varint byte. -/
theorem getConfig_prefixes {nettype : NetworkType} {config : ConfigT}
    (found : getConfig nettype = some config) :
    config.CRYPTONOTE_PUBLIC_ADDRESS_BASE58_PREFIX.toNat < 128 ∧
      config.CRYPTONOTE_PUBLIC_INTEGRATED_ADDRESS_BASE58_PREFIX.toNat < 128 ∧
      config.CRYPTONOTE_PUBLIC_SUBADDRESS_BASE58_PREFIX.toNat < 128 ∧
      config.CRYPTONOTE_PUBLIC_INTEGRATED_ADDRESS_BASE58_PREFIX ≠
        config.CRYPTONOTE_PUBLIC_ADDRESS_BASE58_PREFIX ∧
      config.CRYPTONOTE_PUBLIC_INTEGRATED_ADDRESS_BASE58_PREFIX ≠
        config.CRYPTONOTE_PUBLIC_SUBADDRESS_BASE58_PREFIX ∧
      config.CRYPTONOTE_PUBLIC_ADDRESS_BASE58_PREFIX ≠
        config.CRYPTONOTE_PUBLIC_SUBADDRESS_BASE58_PREFIX := by
  cases nettype <;> cases found <;> decide

theorem exists_getConfig {nettype : NetworkType} (defined : nettype ≠ .UNDEFINED) :
    ∃ config, getConfig nettype = some config := by
  cases nettype
  all_goals first
    | exact ⟨_, rfl⟩
    | exact absurd rfl defined

/-- The prefix of a plain address or a subaddress is taken for its kind. -/
theorem addressKind_of_subaddress {nettype : NetworkType} {config : ConfigT}
    (found : getConfig nettype = some config) (info : AddressParseInfo) (subaddress : Bool) :
    addressKind config info (if subaddress then config.CRYPTONOTE_PUBLIC_SUBADDRESS_BASE58_PREFIX
      else config.CRYPTONOTE_PUBLIC_ADDRESS_BASE58_PREFIX) =
      some { info with isSubaddress := subaddress, hasPaymentId := false } := by
  obtain ⟨-, -, -, integratedAddress, integratedSubaddress, addressSubaddress⟩ :=
    getConfig_prefixes found
  cases subaddress with
  | true =>
    rw [if_pos rfl, addressKind, if_neg integratedSubaddress, if_neg addressSubaddress, if_pos rfl]
  | false =>
    rw [if_neg Bool.false_ne_true, addressKind, if_neg integratedAddress, if_pos rfl]

theorem addressKind_integrated (config : ConfigT) (info : AddressParseInfo) :
    addressKind config info config.CRYPTONOTE_PUBLIC_INTEGRATED_ADDRESS_BASE58_PREFIX =
      some { info with isSubaddress := false, hasPaymentId := true } := by
  rw [addressKind, if_pos rfl]

/-- An address string is not of the old format's length. -/
theorem length_ne_old {tag : UInt64} (small : tag.toNat < 128) {data : List UInt8}
    (sized : data.length = 64 ∨ data.length = 72) :
    2 * sizeofPublicAddressOuterBlob ≠ (Base58.encodeAddr cnFastHash tag data).length := by
  rw [Base58.length_encodeAddr cnFastHash small]
  rcases sized with sized | sized <;> rw [sized] <;> decide

/-- On every network, the string of an address or of an integrated address reads back as the
address, its kind and its payment id, when its keys pass `check_key`; and decode_addr reads back
every tag and data encode_addr writes. -/
theorem address_string_round_trip :
    (∀ (tag : UInt64) (data : List UInt8),
      Base58.decodeAddr cnFastHash (Base58.encodeAddr cnFastHash tag data) = some (tag, data)) ∧
    (∀ (info : AddressParseInfo) (nettype : NetworkType) (subaddress : Bool)
        (adr : AccountPublicAddress),
      nettype ≠ .UNDEFINED → checkKey adr.spendPublicKey = true →
        checkKey adr.viewPublicKey = true →
      ∃ str, getAccountAddressAsStr cnFastHash nettype subaddress adr = some str ∧
        getAccountAddressFromStr cnFastHash checkKey info nettype str =
          some { info with address := adr, isSubaddress := subaddress, hasPaymentId := false }) ∧
    (∀ (info : AddressParseInfo) (nettype : NetworkType) (adr : AccountPublicAddress)
        (paymentId : Hash8),
      nettype ≠ .UNDEFINED → checkKey adr.spendPublicKey = true →
        checkKey adr.viewPublicKey = true →
      ∃ str, getAccountIntegratedAddressAsStr cnFastHash nettype adr paymentId = some str ∧
        getAccountAddressFromStr cnFastHash checkKey info nettype str = some
          { info with address := adr, isSubaddress := false, hasPaymentId := true,
                      paymentId := paymentId }) := by
  refine ⟨Base58.decodeAddr_encodeAddr cnFastHash, ?_, ?_⟩
  · intro info nettype subaddress adr defined spendValid viewValid
    obtain ⟨config, found⟩ := exists_getConfig defined
    obtain ⟨address, -, subaddressByte, -⟩ := getConfig_prefixes found
    have small : (if subaddress then config.CRYPTONOTE_PUBLIC_SUBADDRESS_BASE58_PREFIX
        else config.CRYPTONOTE_PUBLIC_ADDRESS_BASE58_PREFIX).toNat < 128 := by
      split_ifs
      · exact subaddressByte
      · exact address
    refine ⟨_, by rw [getAccountAddressAsStr, found]; rfl, ?_⟩
    rw [getAccountAddressFromStr, found]
    simp only [Option.bind_eq_bind, Option.bind_some]
    rw [if_pos (length_ne_old cnFastHash small (.inl (length_storeAccountPublicAddress adr))),
      Base58.decodeAddr_encodeAddr]
    simp only [Option.bind_some]
    rw [addressKind_of_subaddress found, Option.bind_some, if_neg Bool.false_ne_true,
      parseBinaryOf_of_readsBack (readsBack_loadAccountPublicAddress adr)]
    simp only [Option.bind_some, Option.pure_def, spendValid, viewValid]
    rfl
  · intro info nettype adr paymentId defined spendValid viewValid
    obtain ⟨config, found⟩ := exists_getConfig defined
    obtain ⟨-, integrated, -⟩ := getConfig_prefixes found
    refine ⟨_, by rw [getAccountIntegratedAddressAsStr, found]; rfl, ?_⟩
    rw [getAccountAddressFromStr, found]
    simp only [Option.bind_eq_bind, Option.bind_some]
    rw [if_pos (length_ne_old cnFastHash integrated (.inr (length_storeIntegratedAddress _))),
      Base58.decodeAddr_encodeAddr]
    simp only [Option.bind_some]
    rw [addressKind_integrated, Option.bind_some, if_pos rfl,
      parseBinaryOf_of_readsBack (readsBack_loadIntegratedAddress _)]
    simp only [Option.bind_some, Option.pure_def, spendValid, viewValid]
    rfl

end Strings

theorem subaddress_string_round_trip_on_testnet :
    ∃ str, getAccountAddressAsStr (fun _ => ⟨List.replicate 32 7, List.length_replicate⟩) .TESTNET true
        ⟨⟨List.replicate 32 1, List.length_replicate⟩, ⟨List.replicate 32 2, List.length_replicate⟩⟩ =
          some str ∧
      getAccountAddressFromStr (fun _ => ⟨List.replicate 32 7, List.length_replicate⟩) (fun _ => true)
          ⟨⟨⟨List.replicate 32 0, List.length_replicate⟩, ⟨List.replicate 32 0, List.length_replicate⟩⟩,
            false, false, ⟨List.replicate 8 0, List.length_replicate⟩⟩ .TESTNET str =
        some ⟨⟨⟨List.replicate 32 1, List.length_replicate⟩, ⟨List.replicate 32 2, List.length_replicate⟩⟩,
          true, false, ⟨List.replicate 8 0, List.length_replicate⟩⟩ :=
  (address_string_round_trip _ _).2.1 _ .TESTNET true _ (by decide) rfl rfl

end GraftNetwork.Basic

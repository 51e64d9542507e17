import Mathlib.Tactic.Ring
import GraftNetwork.Lib.Decoder

/-!
# The binary archive

`binary_archive<false>` reads a value from a byte string and `binary_archive<true>` writes one
(serialization/binary_archive.h). Their primitives, each with the round trip of its two sides:

* varints: `readVarint` is tools::read_varint with its return codes, and the reading archive's
  `serialize_varint` (`loadVarint`) ignores them ("XXX handle failure"): a varint cut off by the
  end of the stream, a non-canonical one and an overflowing one all read as the value gathered so
  far (`loadVarint_nil`, `loadVarint_padded`). `writeVarint` is tools::write_varint, and
  `readsBack_loadVarint` reads back every value it writes. For a type of any width
  (`writeVarintOf`), `readVarint_writeVarintOf`: read_varint takes back every encoding and
  returns its length, and a positive count is the length of the encoding of the value read,
  unless the stream ended inside the varint (`readVarint_cut_off`).
* fixed-width integers (`loadUint`, `storeUint`): `sizeof(T)` bytes, lowest first.
* blobs (`loadBlob`, `storeBlob`): the bytes of a POD, as the `BLOB_SERIALIZER` types are written.
* containers (`loadContainer`, `storeContainer`): a varint count, then the elements; the reader
  refuses a count larger than the number of bytes left (do_serialize_container).
* signature vectors (`loadSignatures`, `storeSignatures`): a preset number of 64-byte blobs, with
  no count (serialization/crypto.h).

A read past the end of the stream sets its failbit. Every field checks `good()` and the final
`check_stream_state` fails on a bad stream, which nothing clears, so a decoder fails at that read.
A varint is read through an `istreambuf_iterator`, which never touches the stream state.
-/

namespace GraftNetwork.Serialization

open Decoder

/-- A POD written as its bytes (`BLOB_SERIALIZER`): exactly `size` of them. -/
structure Blob (size : Nat) where
  bytes : List UInt8
  length_eq : bytes.length = size
deriving DecidableEq, Repr

/-- A blob of zeros. -/
def zeroBlob (size : Nat) : Blob size := ⟨List.replicate size 0, List.length_replicate⟩

/-- crypto::signature: the two 32-byte scalars `c` and `r`. -/
abbrev Signature := Blob 64

/-! ## Varints -/

/-- The return codes of tools::read_varint that are not a byte count. -/
def EVARINT_OVERFLOW : Int := -1

def EVARINT_REPRESENT : Int := -2

/-- The loop of tools::read_varint from the byte at `shift`, with the value `write` gathered so far
and `read` bytes read: the value, the return code and the bytes left. -/
def readVarintLoop (bits : Nat) : (shift write read : Nat) → List UInt8 → Nat × Int × List UInt8
  | _, write, read, [] => (write, read, [])
  | shift, write, read, byte :: rest =>
    if bits ≤ shift + 7 ∧ 1 <<< (bits - shift) ≤ byte.toNat then (write, EVARINT_OVERFLOW, rest)
    else if byte.toNat = 0 ∧ shift ≠ 0 then (write, EVARINT_REPRESENT, rest)
    else
      let write := write ||| (byte.toNat &&& 0x7f) <<< shift
      if byte.toNat &&& 0x80 = 0 then (write, read + 1, rest)
      else readVarintLoop bits (shift + 7) write (read + 1) rest

/-- tools::read_varint for a `bits`-bit unsigned type. -/
def readVarint (bits : Nat) (s : List UInt8) : Nat × Int × List UInt8 :=
  readVarintLoop bits 0 0 0 s

/-- binary_archive<false>::serialize_varint of a 64-bit value: the return code of read_varint is
dropped. -/
def loadVarint : Decoder UInt8 UInt64 := fun s =>
  let (write, _, rest) := readVarint 64 s
  some (UInt64.ofNat write, rest)

/-- The loop of tools::write_varint, with room for `fuel` more bytes before the last. -/
def writeVarintLoop : (fuel i : Nat) → List UInt8
  | 0, i => [UInt8.ofNat i]
  | fuel + 1, i =>
    if 0x80 ≤ i then UInt8.ofNat ((i &&& 0x7f) ||| 0x80) :: writeVarintLoop fuel (i >>> 7)
    else [UInt8.ofNat i]

/-- tools::write_varint of a 64-bit value: nine bytes carry the 63 bits above the first seven, so
the loop always ends with a byte below 0x80. -/
def writeVarint (v : UInt64) : List UInt8 := writeVarintLoop 9 v.toNat

/-- tools::write_varint of a value of any unsigned type: each byte before the last takes seven
bits off `i`, so room for `i` bytes is enough. -/
def writeVarintOf (i : Nat) : List UInt8 := writeVarintLoop i i

/-! ## Fixed-width integers, blobs, containers -/

/-- binary_archive<false>::serialize_uint over `width` bytes: `ret += b << shift`. -/
def loadUintLoop : (width shift ret : Nat) → List UInt8 → Option (Nat × List UInt8)
  | 0, _, ret, s => some (ret, s)
  | _ + 1, _, _, [] => none
  | width + 1, shift, ret, b :: s => loadUintLoop width (shift + 8) (ret + (b.toNat <<< shift)) s

def loadUint (width : Nat) : Decoder UInt8 Nat := fun s => loadUintLoop width 0 0 s

/-- binary_archive<true>::serialize_uint: `put(v & 0xff); v >>= 8`, `width` times. -/
def storeUint : (width v : Nat) → List UInt8
  | 0, _ => []
  | width + 1, v => UInt8.ofNat (v &&& 0xff) :: storeUint width (v >>> 8)

/-- serialize_int of a `uint8_t`, as the variant tags, the bytes of a `std::vector<uint8_t>` and the
RingCT type are read. -/
def loadUint8 : Decoder UInt8 UInt8 := UInt8.ofNat <$> loadUint 1

def storeUint8 (v : UInt8) : List UInt8 := storeUint 1 v.toNat

/-- serialize_int of a 64-bit `size_t`. -/
def loadUint64 : Decoder UInt8 UInt64 := UInt64.ofNat <$> loadUint 8

def storeUint64 (v : UInt64) : List UInt8 := storeUint 8 v.toNat

/-- serialize_blob of the reading archive. -/
def loadBlob (size : Nat) : Decoder UInt8 (Blob size) := fun s =>
  if short : s.length < size then none
  else some (⟨s.take size, by rw [List.length_take]; omega⟩, s.drop size)

def storeBlob {size : Nat} (b : Blob size) : List UInt8 := b.bytes

/-- do_serialize_container for binary_archive<false>. The stream is good after the count, as a
varint leaves it as it was. -/
def loadContainer {α : Type} (element : Decoder UInt8 α) : Decoder UInt8 (List α) := do
  let cnt ← loadVarint
  let remaining ← Decoder.remaining
  -- the "very basic sanity check": no more elements than bytes left
  if remaining < cnt.toNat then failure
  else Decoder.count cnt.toNat element

/-- do_serialize_container for binary_archive<true>: `begin_array(v.size())`, then the elements. -/
def storeContainer {α : Type} (element : α → List UInt8) (v : List α) : List UInt8 :=
  writeVarint (UInt64.ofNat v.length) ++ v.flatMap element

/-- do_serialize for std::vector<crypto::signature> and binary_archive<false>: `cnt` is the size
the vector was prepared with. -/
def loadSignatures (cnt : Nat) : Decoder UInt8 (List Signature) := do
  let remaining ← Decoder.remaining
  if remaining < cnt * 64 % 2 ^ 64 then failure
  else Decoder.count cnt (loadBlob 64)

/-- do_serialize for std::vector<crypto::signature> and binary_archive<true>: the blobs, with no
count; an empty vector writes nothing. -/
def storeSignatures (v : List Signature) : List UInt8 := v.flatMap storeBlob

/-! ## Bytes -/

theorem toNat_ofNat_of_lt {n : Nat} (h : n < 256) : (UInt8.ofNat n).toNat = n := by
  rw [UInt8.toNat_ofNat', Nat.mod_eq_of_lt h]

theorem and_0x7f (b : Nat) : b &&& 0x7f = b % 128 :=
  Nat.and_two_pow_sub_one_eq_mod b 7

/-- The high bit of a byte, which marks a continued varint. -/
theorem and_0x80 {b : Nat} (h : b < 256) : b &&& 0x80 = b / 128 * 128 := by
  have low : (b &&& 128) % 2 ^ 7 = 0 := by
    rw [Nat.and_mod_two_pow]
    simp
  have high : (b &&& 128) / 2 ^ 7 = b / 128 := by
    rw [Nat.and_div_two_pow]
    exact Nat.and_two_pow_sub_one_of_lt_two_pow (n := 1) (by simp; omega)
  have split := Nat.div_add_mod (b &&& 128) (2 ^ 7)
  simp only [low, high] at split
  omega

theorem or_0x80 {b : Nat} (h : b < 128) : b ||| 0x80 = b + 128 :=
  Nat.or_two_pow_eq_add_of_lt (n := 7) h

/-- Bits placed above all those gathered so far add to the value. -/
theorem or_shiftLeft_eq_add {write b shift : Nat} (below : write < 2 ^ shift) :
    write ||| b <<< shift = write + b * 2 ^ shift := by
  rw [Nat.shiftLeft_eq, Nat.or_comm, Nat.mul_comm, ← Nat.two_pow_add_eq_or_of_lt below]
  omega

/-! ## The varint round trip -/

/-- The first byte `writeVarintLoop` writes for a value that needs more than one. -/
theorem writeVarintLoop_of_le {fuel i : Nat} (big : 128 ≤ i) :
    writeVarintLoop (fuel + 1) i = UInt8.ofNat (i % 128 + 128) :: writeVarintLoop fuel (i / 128) := by
  rw [writeVarintLoop, if_pos big, and_0x7f, or_0x80 (Nat.mod_lt _ (by decide)),
    Nat.shiftRight_eq_div_pow]

theorem writeVarintLoop_of_lt {fuel i : Nat} (small : i < 128) :
    writeVarintLoop fuel i = [UInt8.ofNat i] := by
  cases fuel with
  | zero => rfl
  | succ fuel => rw [writeVarintLoop, if_neg (by omega)]

theorem writeVarintLoop_ne_nil (fuel i : Nat) : writeVarintLoop fuel i ≠ [] := by
  cases fuel with
  | zero => simp [writeVarintLoop]
  | succ fuel => rw [writeVarintLoop]; split <;> simp

/-- Each round of the writer puts one byte, and the last round one more. -/
theorem length_writeVarintLoop_le : ∀ (fuel i : Nat), (writeVarintLoop fuel i).length ≤ fuel + 1
  | 0, _ => by simp [writeVarintLoop]
  | fuel + 1, i => by
    rw [writeVarintLoop]
    split
    · have shorter := length_writeVarintLoop_le fuel (i >>> 7)
      rw [List.length_cons]
      omega
    · simp

/-- The last byte of a varint of a `bits`-bit type: below 0x80, nonzero after the first byte, and
within the bits. -/
theorem readVarintLoop_last (bits : Nat) (rest : List UInt8) {i shift write read : Nat}
    (small : i < 128) (below : write < 2 ^ shift) (nonzero : shift = 0 ∨ 0 < i)
    (bounded : i * 2 ^ shift < 2 ^ bits) :
    readVarintLoop bits shift write read ([UInt8.ofNat i] ++ rest) =
      (write + i * 2 ^ shift, (read : Int) + 1, rest) := by
  have byte := toNat_ofNat_of_lt (show i < 256 by omega)
  have noOverflow : ¬(bits ≤ shift + 7 ∧ 1 <<< (bits - shift) ≤ i) := by
    rintro ⟨-, tooBig⟩
    rw [Nat.one_shiftLeft] at tooBig
    have room : 2 ^ bits ≤ 2 ^ (bits - shift) * 2 ^ shift := by
      rw [← Nat.pow_add]
      exact Nat.pow_le_pow_right (by decide) (by omega)
    have := Nat.mul_le_mul_right (2 ^ shift) tooBig
    omega
  have canonical : ¬(i = 0 ∧ shift ≠ 0) := by omega
  have last : i / 128 * 128 = 0 := by rw [Nat.div_eq_of_lt small]
  rw [List.singleton_append, readVarintLoop, byte, if_neg noOverflow, if_neg canonical,
    and_0x80 (show i < 256 by omega), if_pos last, and_0x7f, Nat.mod_eq_of_lt small,
    or_shiftLeft_eq_add below]

/-- The reading loop of a `bits`-bit type at `shift` takes back what the writing loop wrote for
`i`: the value gains `i * 2 ^ shift` and the count the bytes written. The induction is on the fuel
of the writer; the invariant is that the value so far lies below `2 ^ shift`, that `i` is nonzero
after the first byte (so no byte of it reads as a non-canonical zero) and that the whole value
fits in the bits (so no byte overflows). -/
theorem readVarintLoop_writeVarintLoop_eq (bits : Nat) (rest : List UInt8) :
    ∀ (fuel : Nat) {i shift write : Nat} (read : Nat), i < 2 ^ (7 * (fuel + 1)) →
      write < 2 ^ shift → (shift = 0 ∨ 0 < i) → i * 2 ^ shift < 2 ^ bits →
      readVarintLoop bits shift write read (writeVarintLoop fuel i ++ rest) =
        (write + i * 2 ^ shift, (read : Int) + (writeVarintLoop fuel i).length, rest) := by
  intro fuel
  induction fuel with
  | zero =>
    intro i shift write read fits below nonzero bounded
    exact readVarintLoop_last bits rest (by simpa using fits) below nonzero bounded
  | succ fuel ih =>
    intro i shift write read fits below nonzero bounded
    by_cases small : i < 128
    · rw [writeVarintLoop_of_lt small]
      exact readVarintLoop_last bits rest small below nonzero bounded
    -- a byte with the continuation bit, then the rest of `i` seven bits higher
    have byte := toNat_ofNat_of_lt (show i % 128 + 128 < 256 by omega)
    have noOverflow : ¬(bits ≤ shift + 7 ∧ 1 <<< (bits - shift) ≤ i % 128 + 128) := by
      rintro ⟨high, -⟩
      have : 2 ^ 7 * 2 ^ shift ≤ i * 2 ^ shift := Nat.mul_le_mul_right _ (by omega)
      have : 2 ^ bits ≤ 2 ^ 7 * 2 ^ shift := by
        rw [← Nat.pow_add]
        exact Nat.pow_le_pow_right (by decide) (by omega)
      omega
    have canonical : ¬(i % 128 + 128 = 0 ∧ shift ≠ 0) := by omega
    have continued : ¬((i % 128 + 128) / 128 * 128 = 0) := by omega
    have low : (i % 128 + 128) % 128 = i % 128 := by omega
    have next : write + i % 128 * 2 ^ shift < 2 ^ (shift + 7) := by
      have : (i % 128 + 1) * 2 ^ shift ≤ 2 ^ 7 * 2 ^ shift := Nat.mul_le_mul_right _ (by omega)
      rw [Nat.pow_add, Nat.mul_comm (2 ^ shift)]
      rw [Nat.add_mul, Nat.one_mul] at this
      omega
    have higher : i / 128 < 2 ^ (7 * (fuel + 1)) := by
      rw [Nat.div_lt_iff_lt_mul (by decide)]
      simpa [Nat.mul_add, Nat.pow_add] using fits
    have regroup : i / 128 * 2 ^ (shift + 7) + i % 128 * 2 ^ shift = i * 2 ^ shift := by
      rw [Nat.pow_add, Nat.mul_comm (2 ^ shift), ← Nat.mul_assoc, ← Nat.add_mul,
        Nat.div_add_mod']
    rw [writeVarintLoop_of_le (Nat.le_of_not_lt small), List.cons_append, readVarintLoop, byte,
      if_neg noOverflow, if_neg canonical, and_0x80 (show i % 128 + 128 < 256 by omega),
      if_neg continued, and_0x7f, low, or_shiftLeft_eq_add below,
      ih (read + 1) higher next (.inr (by omega)) (by omega), List.length_cons]
    simp only [Prod.mk.injEq, and_true]
    omega

/-- read_varint of a 64-bit type takes back what write_varint wrote, whatever follows it, and
returns its length. -/
theorem readVarint_writeVarint (v : UInt64) (rest : List UInt8) :
    readVarint 64 (writeVarint v ++ rest) = (v.toNat, ((writeVarint v).length : Int), rest) := by
  have fits : v.toNat < 2 ^ (7 * (9 + 1)) := by
    have := v.toNat_lt
    omega
  have empty : 0 < 2 ^ 0 := by decide
  have round := readVarintLoop_writeVarintLoop_eq 64 rest 9 0 fits empty (.inl rfl)
    (by simpa using v.toNat_lt)
  simp only [Nat.zero_add, Nat.pow_zero, Nat.mul_one] at round
  rw [readVarint, writeVarint, round, Int.ofNat_zero, Int.zero_add]

theorem readsBack_loadVarint (v : UInt64) : ReadsBack loadVarint (writeVarint v) v := by
  intro rest
  simp only [StateT.run, loadVarint, readVarint_writeVarint, UInt64.ofNat_toNat]

theorem writeVarint_ne_nil (v : UInt64) : writeVarint v ≠ [] := writeVarintLoop_ne_nil 9 v.toNat

/-- At the end of the stream a varint reads as zero and the stream stays good. -/
theorem loadVarint_nil : loadVarint.run [] = some (0, []) := rfl

/-- A varint padded with a zero group reads as the value it pads: read_varint returns
EVARINT_REPRESENT after the zero byte and the archive keeps the value. -/
theorem loadVarint_padded {b : UInt8} (small : b.toNat < 128) (rest : List UInt8) :
    loadVarint.run (UInt8.ofNat (b.toNat + 128) :: 0 :: rest) = some (UInt64.ofNat b.toNat, rest) := by
  have byte := toNat_ofNat_of_lt (show b.toNat + 128 < 256 by omega)
  simp only [StateT.run, loadVarint, readVarint, readVarintLoop, byte, and_0x80 (show b.toNat + 128 < 256 by omega),
    and_0x7f, UInt8.toNat_zero]
  rw [if_neg (by omega), if_neg (by omega), if_neg (by omega), if_neg (by decide),
    if_pos (by decide)]
  simp [Nat.add_mod_right, Nat.mod_eq_of_lt small]

/-! ## Varints of every width -/

/-- The writing loop writes the same bytes with more room than it needs. -/
theorem writeVarintLoop_fuel : ∀ (fuel : Nat) {fuel' i : Nat}, i < 2 ^ (7 * (fuel + 1)) →
    fuel ≤ fuel' → writeVarintLoop fuel' i = writeVarintLoop fuel i
  | 0, _, i, fits, _ => by
    rw [writeVarintLoop_of_lt (by simpa using fits), writeVarintLoop_of_lt (by simpa using fits)]
  | fuel + 1, fuel', i, fits, more => by
    by_cases small : i < 128
    · rw [writeVarintLoop_of_lt small, writeVarintLoop_of_lt small]
    obtain ⟨fuel', rfl⟩ : ∃ f, fuel' = f + 1 := ⟨fuel' - 1, by omega⟩
    have higher : i / 128 < 2 ^ (7 * (fuel + 1)) := by
      rw [Nat.div_lt_iff_lt_mul (by decide)]
      simpa [Nat.mul_add, Nat.pow_add] using fits
    rw [writeVarintLoop_of_le (by omega), writeVarintLoop_of_le (by omega),
      writeVarintLoop_fuel fuel higher (by omega)]

/-- The archive's writer of a 64-bit value is the writer of any width. -/
theorem writeVarint_eq (v : UInt64) : writeVarint v = writeVarintOf v.toNat := by
  unfold writeVarint writeVarintOf
  by_cases small : v.toNat < 128
  · rw [writeVarintLoop_of_lt small, writeVarintLoop_of_lt small]
  · exact (writeVarintLoop_fuel 9 (by have := v.toNat_lt; omega) (by omega)).symm

/-- What a read that returns a count took from the stream: either the bytes up to one below 0x80,
which are the encoding of what they added to the value, or every byte left, each with the
continuation bit. The induction follows the loop, one byte a round. -/
theorem readVarintLoop_consumed (bits : Nat) :
    ∀ (s : List UInt8) {shift write read v n : Nat} {rest : List UInt8}, write < 2 ^ shift →
      readVarintLoop bits shift write read s = (v, (n : Int), rest) →
      ∃ bytes, s = bytes ++ rest ∧ n = read + bytes.length ∧
        ((∃ k, v = write + k * 2 ^ shift ∧ (shift = 0 ∨ 0 < k) ∧ bytes.length ≤ k + 1 ∧
            ∀ fuel, bytes.length ≤ fuel + 1 → bytes = writeVarintLoop fuel k) ∨
          (rest = [] ∧ ∀ b ∈ bytes, 0x80 ≤ b.toNat)) := by
  intro s
  induction s with
  | nil =>
    intro shift write read v n rest _ returned
    simp only [readVarintLoop, Prod.mk.injEq] at returned
    obtain ⟨-, counted, rfl⟩ := returned
    exact ⟨[], rfl, by simp; omega, .inr ⟨rfl, by simp⟩⟩
  | cons byte s ih =>
    intro shift write read v n rest below returned
    have byteLt := byte.toNat_lt
    rw [readVarintLoop] at returned
    split at returned
    · -- EVARINT_OVERFLOW is no count
      simp only [Prod.mk.injEq, EVARINT_OVERFLOW] at returned
      omega
    · next noOverflow =>
      split at returned
      · -- nor is EVARINT_REPRESENT
        simp only [Prod.mk.injEq, EVARINT_REPRESENT] at returned
        omega
      · next canonical =>
        rw [and_0x7f, or_shiftLeft_eq_add below, and_0x80 byteLt] at returned
        split at returned
        · -- the last byte
          next last =>
          simp only [Prod.mk.injEq] at returned
          obtain ⟨rfl, counted, rfl⟩ := returned
          have small : byte.toNat < 128 := by omega
          refine ⟨[byte], rfl, by simp; omega, .inl ⟨byte.toNat, ?_, by omega, by simp, ?_⟩⟩
          · rw [Nat.mod_eq_of_lt small]
          · intro fuel _
            rw [writeVarintLoop_of_lt small, UInt8.ofNat_toNat]
        · -- a byte with the continuation bit: the rest of the read is seven bits higher
          next continued =>
          have big : 128 ≤ byte.toNat := by omega
          have next : write + byte.toNat % 128 * 2 ^ shift < 2 ^ (shift + 7) := by
            have : (byte.toNat % 128 + 1) * 2 ^ shift ≤ 2 ^ 7 * 2 ^ shift :=
              Nat.mul_le_mul_right _ (by omega)
            rw [Nat.pow_add, Nat.mul_comm (2 ^ shift)]
            rw [Nat.add_mul, Nat.one_mul] at this
            omega
          obtain ⟨bytes, rfl, counted, taken⟩ := ih next returned
          refine ⟨byte :: bytes, rfl, by simp; omega, ?_⟩
          rcases taken with ⟨k, value, nonzero, short, encoded⟩ | ⟨rfl, continues⟩
          · have positive : 0 < k := nonzero.resolve_left (by omega)
            refine .inl ⟨byte.toNat % 128 + 128 * k, ?_, .inr (by omega), by simp; omega, ?_⟩
            · rw [value, Nat.pow_add]
              ring
            · intro fuel room
              have nonempty : bytes ≠ [] := by
                rw [encoded bytes.length (by omega)]
                exact writeVarintLoop_ne_nil _ _
              obtain ⟨fuel, rfl⟩ : ∃ f, fuel = f + 1 :=
                ⟨fuel - 1, by have := List.length_pos_of_ne_nil nonempty; simp at room; omega⟩
              have first : UInt8.ofNat ((byte.toNat % 128 + 128 * k) % 128 + 128) = byte := by
                rw [show (byte.toNat % 128 + 128 * k) % 128 + 128 = byte.toNat by omega,
                  UInt8.ofNat_toNat]
              rw [writeVarintLoop_of_le (by omega), first,
                show (byte.toNat % 128 + 128 * k) / 128 = k by omega,
                ← encoded fuel (by simp at room; omega)]
          · refine .inr ⟨rfl, ?_⟩
            intro b mem
            rcases List.mem_cons.mp mem with rfl | mem
            · exact big
            · exact continues b mem

/-- tools::read_varint takes back the encoding of every value of a `bits`-bit type, whatever
follows it, and returns the encoding's length; and a read that returns a positive count either
took exactly the encoding of the value it returns, or reached the end of the stream inside a
varint, every byte it took carrying the continuation bit. -/
theorem readVarint_writeVarintOf :
    (∀ (bits x : Nat) (rest : List UInt8), x < 2 ^ bits →
      readVarint bits (writeVarintOf x ++ rest) = (x, ((writeVarintOf x).length : Int), rest)) ∧
    (∀ (bits : Nat) (s : List UInt8) (v n : Nat) (rest : List UInt8), 0 < n →
      readVarint bits s = (v, (n : Int), rest) →
      s = s.take n ++ rest ∧
        (s.take n = writeVarintOf v ∨ (rest = [] ∧ n = s.length ∧ ∀ b ∈ s, 0x80 ≤ b.toNat))) := by
  refine ⟨fun bits x rest fits => ?_, fun bits s v n rest positive returned => ?_⟩
  · have room : x < 2 ^ (7 * (x + 1)) :=
      Nat.lt_of_lt_of_le Nat.lt_two_pow_self (Nat.pow_le_pow_right (by decide) (by omega))
    have round := readVarintLoop_writeVarintLoop_eq bits rest x 0 room (show 0 < 2 ^ 0 by decide)
      (.inl rfl)
      (by simpa using fits)
    simpa [readVarint, writeVarintOf] using round
  · obtain ⟨bytes, split, counted, taken⟩ :=
      readVarintLoop_consumed bits s (by decide : 0 < 2 ^ 0) returned
    have front : s.take n = bytes := by
      rw [split]
      exact List.take_left' (by omega)
    refine ⟨by rw [front]; exact split, ?_⟩
    rcases taken with ⟨k, value, -, short, encoded⟩ | ⟨rfl, continues⟩
    · -- the read ended at a byte below 0x80
      simp only [Nat.zero_add, Nat.pow_zero, Nat.mul_one] at value
      subst value
      exact .inl (front.trans (encoded v short))
    · -- the stream ended inside the varint
      rw [List.append_nil] at split
      subst split
      exact .inr ⟨rfl, by omega, continues⟩

/-- A varint cut off by the end of the stream: read_varint returns the count of the one byte it
read, with the value zero, which is written as another byte. -/
theorem readVarint_cut_off : readVarint 64 [0x80] = (0, 1, []) ∧ writeVarintOf 0 = [0] :=
  ⟨rfl, rfl⟩

/-! ## Round trips of the other primitives -/

/-- The reading loop of `serialize_uint` takes back the bytes `storeUint` wrote. -/
theorem loadUintLoop_storeUint (rest : List UInt8) :
    ∀ (width : Nat) {v : Nat} (shift ret : Nat), v < 2 ^ (8 * width) →
      loadUintLoop width shift ret (storeUint width v ++ rest) = some (ret + v * 2 ^ shift, rest)
  | 0, v, shift, ret, fits => by
    have : v = 0 := by simpa using fits
    subst this
    simp [storeUint, loadUintLoop]
  | width + 1, v, shift, ret, fits => by
    have low : (v &&& 0xff) = v % 256 := Nat.and_two_pow_sub_one_eq_mod v 8
    have byte := toNat_ofNat_of_lt (Nat.mod_lt v (show 0 < 256 by decide))
    have higher : v / 256 < 2 ^ (8 * width) := by
      rw [Nat.div_lt_iff_lt_mul (by decide)]
      simpa [Nat.mul_add, Nat.pow_add] using fits
    rw [storeUint, List.cons_append, loadUintLoop, low, byte, Nat.shiftRight_eq_div_pow,
      show 2 ^ 8 = 256 from rfl, loadUintLoop_storeUint rest width _ _ higher, Nat.shiftLeft_eq]
    congr 2
    calc ret + v % 256 * 2 ^ shift + v / 256 * 2 ^ (shift + 8)
        = ret + (v / 256 * 256 + v % 256) * 2 ^ shift := by
          rw [Nat.pow_add, Nat.add_mul, show 2 ^ 8 = 256 from rfl]
          rw [Nat.mul_comm (2 ^ shift) 256, ← Nat.mul_assoc]
          omega
      _ = ret + v * 2 ^ shift := by rw [Nat.div_add_mod']

theorem readsBack_loadUint {width v : Nat} (fits : v < 2 ^ (8 * width)) :
    ReadsBack (loadUint width) (storeUint width v) v := by
  intro rest
  have := loadUintLoop_storeUint rest width 0 0 fits
  simpa [StateT.run, loadUint] using this

theorem storeUint_length : ∀ (width v : Nat), (storeUint width v).length = width
  | 0, _ => rfl
  | width + 1, v => by rw [storeUint, List.length_cons, storeUint_length]

theorem readsBack_loadUint8 (v : UInt8) : ReadsBack loadUint8 (storeUint8 v) v := by
  have fits : v.toNat < 2 ^ (8 * 1) := v.toNat_lt
  have read := (readsBack_loadUint fits).map (g := UInt8.ofNat)
  rwa [UInt8.ofNat_toNat] at read

theorem readsBack_loadUint64 (v : UInt64) : ReadsBack loadUint64 (storeUint64 v) v := by
  have fits : v.toNat < 2 ^ (8 * 8) := v.toNat_lt
  have read := (readsBack_loadUint fits).map (g := UInt64.ofNat)
  rwa [UInt64.ofNat_toNat] at read

theorem storeUint8_length (v : UInt8) : (storeUint8 v).length = 1 := storeUint_length 1 _

theorem readsBack_loadBlob {size : Nat} (b : Blob size) : ReadsBack (loadBlob size) (storeBlob b) b := by
  intro rest
  obtain ⟨bytes, rfl⟩ := b
  simp [StateT.run, loadBlob, storeBlob]

theorem storeBlob_length {size : Nat} (b : Blob size) : (storeBlob b).length = size := b.length_eq

/-- A container reads back when it has fewer than 2^64 elements (its count fits a `size_t`) and
each element reads back from at least one byte. -/
theorem readsBack_loadContainer {α : Type} {element : Decoder UInt8 α} {store : α → List UInt8}
    {v : List α} (each : ∀ x ∈ v, ReadsBack element (store x) x)
    (nonempty : ∀ x, 1 ≤ (store x).length) (fits : v.length < 2 ^ 64) :
    ReadsBack (loadContainer element) (storeContainer store v) v := by
  intro rest
  have cnt : (UInt64.ofNat v.length).toNat = v.length := by
    rw [UInt64.toNat_ofNat', Nat.mod_eq_of_lt fits]
  have enough : ¬(v.flatMap store ++ rest).length < v.length := by
    have := length_le_length_flatMap nonempty v
    rw [List.length_append]
    omega
  rw [storeContainer, List.append_assoc, loadContainer, run_bind_of_run (readsBack_loadVarint _ _),
    run_bind_of_run (run_remaining _), cnt, if_neg enough]
  exact ReadsBack.count each rest

/-- A container read has fewer than 2^64 elements: its count was a `size_t`. -/
theorem length_lt_of_run_loadContainer {α : Type} {element : Decoder UInt8 α}
    {s rest : List UInt8} {v : List α} (read : (loadContainer element).run s = some (v, rest)) :
    v.length < 2 ^ 64 := by
  obtain ⟨cnt, _, _, read⟩ := exists_run_of_run_bind read
  obtain ⟨remaining, _, _, read⟩ := exists_run_of_run_bind read
  split at read
  · cases read
  · rw [length_of_run_count read]
    exact cnt.toNat_lt

theorem storeContainer_length_pos {α : Type} (store : α → List UInt8) (v : List α) :
    1 ≤ (storeContainer store v).length := by
  rw [storeContainer, List.length_append]
  have := List.length_pos_iff.mpr (writeVarint_ne_nil (UInt64.ofNat v.length))
  omega

theorem readsBack_loadSignatures (v : List Signature) :
    ReadsBack (loadSignatures v.length) (storeSignatures v) v := by
  intro rest
  have length : (storeSignatures v).length = v.length * 64 := by
    rw [storeSignatures, List.length_flatMap]
    simp [storeBlob_length, Nat.mul_comm]
  have enough : ¬(storeSignatures v ++ rest).length < v.length * 64 % 2 ^ 64 := by
    have := Nat.mod_le (v.length * 64) (2 ^ 64)
    rw [List.length_append, length]
    omega
  rw [loadSignatures, run_bind_of_run (run_remaining _), if_neg enough]
  exact ReadsBack.count (fun x _ => readsBack_loadBlob x) rest

end GraftNetwork.Serialization

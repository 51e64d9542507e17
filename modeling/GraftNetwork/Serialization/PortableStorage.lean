import Mathlib.Tactic.Ring
import GraftNetwork.Lib.Decoder
import GraftNetwork.Lib.DecoderFailure
import GraftNetwork.Lib.OrderedMap
import GraftNetwork.Lib.Words
import GraftNetwork.Serialization.BinaryArchive

/-!
# The binary format of epee's portable storage

A model of `contrib/epee/include/storages`: `portable_storage_base.h` (the entries),
`portable_storage_to_bin.h` (the writer), `portable_storage_from_bin.h` (the reader) and
`store_to_binary` and `load_from_binary` of `portable_storage.h`. The P2P and RPC messages of the
daemon travel in this format.

A storage is a section, a map from names to entries; an entry is a value of a POD type, a string,
a section or an array of one of these. The writer puts a type code before each entry, a varint
count before each section and array, and a length before each name and string. Varints
(`pack_varint`) keep a size mark in their two low bits: one, two, four or eight bytes, lowest
first.

The reader's functions each take a frame of a recursion guard, `RECURSION_LIMITATION()`, which
throws when `EPEE_PORTABLE_STORAGE_RECURSION_LIMIT_INTERNAL` calls are on the stack
(`recursionLimitation`). The model passes down `room`, the number of calls that may still be
entered: `load_from_binary` starts the root section with 99. Every reader is structurally
recursive in `room`, so the guard is also what makes the reader total.

A section's entries are its `std::map` in the map's order, by name as unsigned bytes. A value of a
POD type is the bits of its object representation, which the writer writes and the reader copies
lowest byte first; a `bool` is the byte of its representation, and a `double` its 64 bits.
-/

namespace GraftNetwork.Serialization.PortableStorage

open GraftNetwork.Serialization (storeUint)

/-! ## Constants of `portable_storage_base.h` and `portable_storage_from_bin.h` -/

/-- `PORTABLE_STORAGE_SIGNATUREA`. -/
def portableStorageSignatureA : Nat := 0x01011101

/-- `PORTABLE_STORAGE_SIGNATUREB`. -/
def portableStorageSignatureB : Nat := 0x01020101

/-- `PORTABLE_STORAGE_FORMAT_VER`. -/
def portableStorageFormatVer : Nat := 1

/-- `sizeof(storage_block_header)`, packed: two `uint32_t` and a `uint8_t`. -/
def sizeofStorageBlockHeader : Nat := 4 + 4 + 1

/-- `PORTABLE_RAW_SIZE_MARK_MASK`. -/
def portableRawSizeMarkMask : Nat := 0x03

/-- `PORTABLE_RAW_SIZE_MARK_BYTE`. -/
def portableRawSizeMarkByte : Nat := 0

/-- `PORTABLE_RAW_SIZE_MARK_WORD`. -/
def portableRawSizeMarkWord : Nat := 1

/-- `PORTABLE_RAW_SIZE_MARK_DWORD`. -/
def portableRawSizeMarkDword : Nat := 2

/-- `PORTABLE_RAW_SIZE_MARK_INT64`. -/
def portableRawSizeMarkInt64 : Nat := 3

/-- `MAX_STRING_LEN_POSSIBLE`. -/
def maxStringLenPossible : Nat := 2000000000

/-- `SERIALIZE_FLAG_ARRAY`. -/
def serializeFlagArray : UInt8 := 0x80

/-- `EPEE_PORTABLE_STORAGE_RECURSION_LIMIT_INTERNAL`. -/
def epeePortableStorageRecursionLimitInternal : Nat := 100

/-! ## Entries -/

/-- The types of `storage_entry` that hold one value, written as the bytes of the value. -/
inductive PodType
  | int64 | int32 | int16 | int8 | uint64 | uint32 | uint16 | uint8 | double | bool
deriving DecidableEq, Repr

/-- `sizeof` of a POD type. -/
def PodType.size : PodType → Nat
  | .int64 | .uint64 | .double => 8
  | .int32 | .uint32 => 4
  | .int16 | .uint16 => 2
  | .int8 | .uint8 | .bool => 1

/-- What a type code `SERIALIZE_TYPE_*` names. -/
inductive EntryType
  | pod (t : PodType)
  | string
  | object
  | array
deriving DecidableEq, Repr

/-- `SERIALIZE_TYPE_*`. -/
def EntryType.code : EntryType → UInt8
  | pod .int64 => 1
  | pod .int32 => 2
  | pod .int16 => 3
  | pod .int8 => 4
  | pod .uint64 => 5
  | pod .uint32 => 6
  | pod .uint16 => 7
  | pod .uint8 => 8
  | pod .double => 9
  | string => 10
  | pod .bool => 11
  | object => 12
  | array => 13

/-- The `switch` on a type code of `load_storage_entry` and `load_storage_array_entry`; `none` is
its `default`, which throws "unknown entry_type code". -/
def EntryType.ofCode (code : UInt8) : Option EntryType :=
  match code.toNat with
  | 1 => some (pod .int64)
  | 2 => some (pod .int32)
  | 3 => some (pod .int16)
  | 4 => some (pod .int8)
  | 5 => some (pod .uint64)
  | 6 => some (pod .uint32)
  | 7 => some (pod .uint16)
  | 8 => some (pod .uint8)
  | 9 => some (pod .double)
  | 10 => some string
  | 11 => some (pod .bool)
  | 12 => some object
  | 13 => some array
  | _ => none

mutual
/-- `storage_entry`. -/
inductive StorageEntry where
  | pod (t : PodType) (v : BitVec (8 * t.size))
  | string (s : List UInt8)
  | object (s : Section)
  | array (a : ArrayEntry)

/-- `array_entry`: an `array_entry_t` of values of one type. -/
inductive ArrayEntry where
  | pod (t : PodType) (vs : List (BitVec (8 * t.size)))
  | string (vs : List (List UInt8))
  | object (vs : List Section)
  | array (vs : List ArrayEntry)

/-- `section`: its `std::map<std::string, storage_entry>`, in the order of the map. -/
inductive Section where
  | mk (entries : List (List UInt8 × StorageEntry))
end

/-! ## The writer of `portable_storage_to_bin.h` -/

/-- `pack_varint_t<pack_value>`: `pv` shifted left by two bits with the size mark `type_or` in the
two low bits, as a `pack_value` of `width` bytes. -/
def packVarintT (width typeOr pv : Nat) : List UInt8 :=
  storeUint width (pv <<< 2 ||| typeOr)

/-- `pack_varint`: the narrowest of one, two, four and eight bytes; a value above `2 ^ 62 - 1`
throws "failed to pack varint - too big amount". -/
def packVarint (val : Nat) : Option (List UInt8) :=
  if val ≤ 63 then some (packVarintT 1 portableRawSizeMarkByte val)
  else if val ≤ 16383 then some (packVarintT 2 portableRawSizeMarkWord val)
  else if val ≤ 1073741823 then some (packVarintT 4 portableRawSizeMarkDword val)
  else if val ≤ 4611686018427387903 then some (packVarintT 8 portableRawSizeMarkInt64 val)
  else none

/-- `put_string`: the length as a varint, then the bytes. -/
def putString (v : List UInt8) : Option (List UInt8) := do
  let size ← packVarint v.length
  pure (size ++ v)

/-- The strings of an `array_entry_t<std::string>`, one `put_string` after another. -/
def putStrings : List (List UInt8) → Option (List UInt8)
  | [] => some []
  | v :: rest => do
    let string ← putString v
    let more ← putStrings rest
    pure (string ++ more)

/-- The bytes of a POD value, as `pack_pod_type` and `pack_pod_array_type` write it. -/
def packPod (t : PodType) (v : BitVec (8 * t.size)) : List UInt8 :=
  storeUint t.size v.toNat

mutual
/-- `storage_entry_store_visitor`: a type code, then the value; an array writes its own. -/
def packStorageEntry : StorageEntry → Option (List UInt8)
  | .pod t v => some ((EntryType.pod t).code :: packPod t v)
  | .string v => (EntryType.string.code :: ·) <$> putString v
  | .object s => (EntryType.object.code :: ·) <$> packSection s
  | .array a => packArrayEntry a

/-- `array_entry_store_visitor`: the type code of the elements with `SERIALIZE_FLAG_ARRAY`, their
count, then the elements. -/
def packArrayEntry : ArrayEntry → Option (List UInt8)
  | .pod t vs => do
    let size ← packVarint vs.length
    pure (((EntryType.pod t).code ||| serializeFlagArray) :: size ++ vs.flatMap (packPod t))
  | .string vs => do
    let size ← packVarint vs.length
    let items ← putStrings vs
    pure ((EntryType.string.code ||| serializeFlagArray) :: size ++ items)
  | .object ss => do
    let size ← packVarint ss.length
    let items ← packSections ss
    pure ((EntryType.object.code ||| serializeFlagArray) :: size ++ items)
  | .array vs => do
    let size ← packVarint vs.length
    let items ← packArrayEntries vs
    pure ((EntryType.array.code ||| serializeFlagArray) :: size ++ items)

/-- `pack_entry_to_buff(strm, const section&)`: the count of entries, then each name, its length
in one byte first, and its entry. -/
def packSection : Section → Option (List UInt8)
  | .mk entries => do
    let size ← packVarint entries.length
    let items ← packEntries entries
    pure (size ++ items)

/-- The entries of a section in the order of the map; a name of 255 bytes or more throws
"storage_entry_name is too long". -/
def packEntries : List (List UInt8 × StorageEntry) → Option (List UInt8)
  | [] => some []
  | (name, e) :: rest =>
    if name.length < 255 then do
      let entry ← packStorageEntry e
      let more ← packEntries rest
      pure (UInt8.ofNat name.length :: name ++ entry ++ more)
    else none

/-- The sections of an `array_entry_t<section>`. -/
def packSections : List Section → Option (List UInt8)
  | [] => some []
  | s :: rest => do
    let sec ← packSection s
    let more ← packSections rest
    pure (sec ++ more)

/-- The arrays of an `array_entry_t<array_entry>`. -/
def packArrayEntries : List ArrayEntry → Option (List UInt8)
  | [] => some []
  | a :: rest => do
    let array ← packArrayEntry a
    let more ← packArrayEntries rest
    pure (array ++ more)
end

/-- `storage_block_header` as `store_to_binary` fills it. -/
def storageBlockHeader : List UInt8 :=
  storeUint 4 portableStorageSignatureA ++ storeUint 4 portableStorageSignatureB ++
    storeUint 1 portableStorageFormatVer

/-- `portable_storage::store_to_binary`: the header, then the root section; `none` where it
returns false. -/
def storeToBinary (root : Section) : Option (List UInt8) :=
  (storageBlockHeader ++ ·) <$> packSection root

/-! ## The reader of `portable_storage_from_bin.h` -/

/-- `RECURSION_LIMITATION()`: a call with `room + 1` calls left runs its body with `room`, and a
call with none left throws "recursion limitation exceeded". -/
def recursionLimitation {α : Type} (body : Nat → Decoder UInt8 α) : Nat → Decoder UInt8 α
  | 0 => failure
  | room + 1 => body room

/-- `read(void* target, size_t count)`: throws "attempt to read ... bytes from buffer with ...
bytes remained" when fewer bytes are left. -/
def readBytes (count : Nat) : Nat → Decoder UInt8 (List UInt8) :=
  recursionLimitation fun _ => Decoder.take count

/-- `read(t_pod_type& pod_val)`: `sizeof(pod_val)` bytes copied into the value, lowest first. -/
def readPod (size : Nat) : Nat → Decoder UInt8 Nat :=
  recursionLimitation fun room => Words.leValue <$> readBytes size room

/-- `read<t_type>()` of a POD type. -/
def readT (size : Nat) : Nat → Decoder UInt8 Nat :=
  recursionLimitation (readPod size)

/-- The `switch` of `read_varint` on the size mark: `read<uint8_t>()`, `read<uint16_t>()`,
`read<uint32_t>()` or `read<uint64_t>()`, by the `sizeof` of the type. Its `default`, which
throws, is never taken, as the mark has two bits. -/
def sizeMarkWidth : Nat → Nat
  | 0 => 1
  | 1 => 2
  | 2 => 4
  | _ => 8

/-- `read_varint`: the size mark of the first byte gives the width, and the value is what lies
above the mark; an empty buffer throws "empty buff, expected place for varint". -/
def readVarint : Nat → Decoder UInt8 Nat :=
  recursionLimitation fun room => do
    let first ← Decoder.peek
    let v ← readT (sizeMarkWidth (first.toNat &&& portableRawSizeMarkMask)) room
    pure (v >>> 2)

/-- `read_sec_name`: a length byte, then the name. -/
def readSecName : Nat → Decoder UInt8 (List UInt8) :=
  recursionLimitation fun room => do
    let nameLen ← readPod 1 room
    readBytes nameLen room

/-- `read(std::string& str)`: a varint length below `MAX_STRING_LEN_POSSIBLE` ("to big string len
value in storage"), then that many bytes ("goes out of remain storage len"). -/
def readString : Nat → Decoder UInt8 (List UInt8) :=
  recursionLimitation fun room => do
    let len ← readVarint room
    if len < maxStringLenPossible then Decoder.take len else failure

/-- `read<std::string>()`. -/
def readTString : Nat → Decoder UInt8 (List UInt8) :=
  recursionLimitation readString

/-- `read(array_entry& ae)`: throws "Reading array entry is not supported". -/
def readArrayEntry : Nat → Decoder UInt8 ArrayEntry :=
  recursionLimitation fun _ => failure

/-- `read<array_entry>()`. -/
def readTArrayEntry : Nat → Decoder UInt8 ArrayEntry :=
  recursionLimitation readArrayEntry

/-- `read_ae<type_name>`: a varint count, then that many values, each read by
`read<type_name>()`. -/
def readAe {α : Type} (readValue : Nat → Decoder UInt8 α) (make : List α → ArrayEntry) :
    Nat → Decoder UInt8 StorageEntry :=
  recursionLimitation fun room => do
    let size ← readVarint room
    let values ← Decoder.count size (readValue room)
    pure (.array (make values))

/-- `read<type_name>()` of a POD type, as the elements of `read_ae` are read. -/
def readTPod (t : PodType) (room : Nat) : Decoder UInt8 (BitVec (8 * t.size)) :=
  BitVec.ofNat _ <$> readT t.size room

/-- `read_se<type_name>` of a POD type. -/
def readSe (t : PodType) : Nat → Decoder UInt8 StorageEntry :=
  recursionLimitation fun room => do
    let v ← readPod t.size room
    pure (.pod t (BitVec.ofNat _ v))

/-- `read_se<std::string>`. -/
def readSeString : Nat → Decoder UInt8 StorageEntry :=
  recursionLimitation fun room => StorageEntry.string <$> readTString room

mutual
/-- `read(section& sec)`: a varint count, then that many names and entries, each inserted into the
map, which keeps the first of two entries of one name. -/
def readSection : Nat → Decoder UInt8 Section
  | 0 => failure
  | room + 1 => do
    let count ← readVarint room
    let entries ← Decoder.count count do
      let secName ← readSecName room
      let entry ← loadStorageEntry room
      pure (secName, entry)
    pure (.mk (OrderedMap.ofList entries))

/-- `load_storage_entry`: a type byte; with `SERIALIZE_FLAG_ARRAY` it starts an array, and
otherwise its code picks the `read_se` to call. -/
def loadStorageEntry : Nat → Decoder UInt8 StorageEntry
  | 0 => failure
  | room + 1 => do
    let entType ← UInt8.ofNat <$> readPod 1 room
    if entType &&& serializeFlagArray ≠ 0 then loadStorageArrayEntry room entType
    else
      match EntryType.ofCode entType with
      | some (.pod t) => readSe t room
      | some .string => readSeString room
      | some .object => readSeSection room
      | some .array => readSeArrayEntry room
      | none => failure

/-- `read_se<section>`. -/
def readSeSection : Nat → Decoder UInt8 StorageEntry
  | 0 => failure
  | room + 1 => StorageEntry.object <$> readSection room

/-- `read_se<array_entry>`: another type byte, which must carry `SERIALIZE_FLAG_ARRAY` ("wrong
type sequenses"). -/
def readSeArrayEntry : Nat → Decoder UInt8 StorageEntry
  | 0 => failure
  | room + 1 => do
    let entType ← UInt8.ofNat <$> readPod 1 room
    if entType &&& serializeFlagArray = 0 then failure
    else loadStorageArrayEntry room entType

/-- `load_storage_array_entry`: the type without `SERIALIZE_FLAG_ARRAY` picks the `read_ae` to
call. -/
def loadStorageArrayEntry : Nat → UInt8 → Decoder UInt8 StorageEntry
  | 0, _ => failure
  | room + 1, type =>
    match EntryType.ofCode (type &&& ~~~serializeFlagArray) with
    | some (.pod t) => readAe (readTPod t) (.pod t) room
    | some .string => readAe readTString .string room
    | some .object => readAeSection room
    | some .array => readAe readTArrayEntry .array room
    | none => failure

/-- `read_ae<section>`. -/
def readAeSection : Nat → Decoder UInt8 StorageEntry
  | 0 => failure
  | room + 1 => do
    let size ← readVarint room
    let values ← Decoder.count size (readTSection room)
    pure (.array (.object values))

/-- `read<section>()`. -/
def readTSection : Nat → Decoder UInt8 Section
  | 0 => failure
  | room + 1 => readSection room
end

/-- `portable_storage::load_from_binary`; `none` where it returns false. A source shorter than
the header ("packet size ... less than expected"), with other signatures ("signature mismatch")
or another version ("unknown format ver") is refused before the reader starts, whose constructor
throws on an empty buffer. The reader starts with `m_recursion_count` at 0, and what follows the
root section is not looked at. -/
def loadFromBinary (source : List UInt8) : Option Section :=
  if source.length < sizeofStorageBlockHeader then none
  else if Words.leValue (source.take 4) ≠ portableStorageSignatureA ∨
      Words.leValue ((source.drop 4).take 4) ≠ portableStorageSignatureB then none
  else if (source.getD 8 0).toNat ≠ portableStorageFormatVer then none
  else if source.drop sizeofStorageBlockHeader = [] then none
  else Prod.fst <$>
    (readSection (epeePortableStorageRecursionLimitInternal - 1)).run
      (source.drop sizeofStorageBlockHeader)

/-- The body of the loop of `read(section&)`: a name, then its entry. -/
def readSectionEntry (room : Nat) : Decoder UInt8 (List UInt8 × StorageEntry) := do
  let secName ← readSecName room
  let entry ← loadStorageEntry room
  pure (secName, entry)

/-- The `read_se` that `load_storage_entry` calls for a type code without
`SERIALIZE_FLAG_ARRAY`. -/
def readSeOf : EntryType → Nat → Decoder UInt8 StorageEntry
  | .pod t => readSe t
  | .string => readSeString
  | .object => readSeSection
  | .array => readSeArrayEntry

/-- The `read_ae` that `load_storage_array_entry` calls for a type of elements. -/
def readAeOf : EntryType → Nat → Decoder UInt8 StorageEntry
  | .pod t => readAe (readTPod t) (.pod t)
  | .string => readAe readTString .string
  | .object => readAeSection
  | .array => readAe readTArrayEntry .array

/-- The type of the elements of an array, which its type code names. -/
def ArrayEntry.elementType : ArrayEntry → EntryType
  | .pod t _ => .pod t
  | .string _ => .string
  | .object _ => .object
  | .array _ => .array

theorem readSection_succ (room : Nat) :
    readSection (room + 1) = (do
      let count ← readVarint room
      let entries ← Decoder.count count (readSectionEntry room)
      pure (.mk (OrderedMap.ofList entries))) := rfl

/-! The functions of the reader's recursion take their frame of the guard like the others. -/

theorem readSeSection_eq :
    readSeSection = recursionLimitation fun room => StorageEntry.object <$> readSection room := by
  funext room
  cases room <;> rfl

theorem readAeSection_eq : readAeSection = readAe readTSection ArrayEntry.object := by
  funext room
  cases room <;> rfl

theorem readTSection_eq : readTSection = recursionLimitation readSection := by
  funext room
  cases room <;> rfl

/-! ## What the reader needs of a storage -/

mutual
/-- The most calls on the reader's stack while `load_storage_entry` reads the entry: the call,
and under it `read(ent_type)` (two calls) and then `read_se` of a POD value (three), of a string
(seven: `read<std::string>()`, `read(std::string&)` and `read_varint` with its four) or of a
section (one more than the section), or `load_storage_array_entry` with its `read_ae`. -/
def StorageEntry.frames : StorageEntry → Nat
  | .pod _ _ => 4
  | .string _ => 8
  | .object s => 2 + s.frames
  | .array a => 2 + a.frames

/-- The same for `read_ae` of the array: the call, its `read_varint` (four) and `read<type_name>()`
of each element: three for a POD value, six for a string and one more than the section for a
section. An array of arrays has no elements that the reader reads. -/
def ArrayEntry.frames : ArrayEntry → Nat
  | .pod _ _ => 5
  | .string vs => if vs = [] then 5 else 7
  | .object ss => 1 + max 4 (Section.listFrames ss)
  | .array _ => 5

/-- The same for `read(section&)`: the call, its `read_varint` (four) and, for each entry,
`read_sec_name` (three) and `load_storage_entry`. -/
def Section.frames : Section → Nat
  | .mk entries => 1 + max 4 (Section.entriesFrames entries)

/-- The most that the entries of a section need. -/
def Section.entriesFrames : List (List UInt8 × StorageEntry) → Nat
  | [] => 0
  | (_, e) :: rest => max e.frames (Section.entriesFrames rest)

/-- The most that `read<section>()` needs for the sections of an array. -/
def Section.listFrames : List Section → Nat
  | [] => 0
  | s :: rest => max (1 + s.frames) (Section.listFrames rest)
end

mutual
/-- What the reader refuses of what the writer writes, besides a nesting too deep: a string of
`MAX_STRING_LEN_POSSIBLE` bytes or more, and an array of arrays that is not empty. -/
def StorageEntry.readable : StorageEntry → Bool
  | .pod _ _ => true
  | .string s => s.length < maxStringLenPossible
  | .object s => s.readable
  | .array a => a.readable

def ArrayEntry.readable : ArrayEntry → Bool
  | .pod _ _ => true
  | .string vs => vs.all fun v => v.length < maxStringLenPossible
  | .object ss => Section.listReadable ss
  | .array vs => vs.isEmpty

def Section.readable : Section → Bool
  | .mk entries => Section.entriesReadable entries

def Section.entriesReadable : List (List UInt8 × StorageEntry) → Bool
  | [] => true
  | (_, e) :: rest => e.readable && Section.entriesReadable rest

def Section.listReadable : List Section → Bool
  | [] => true
  | s :: rest => s.readable && Section.listReadable rest
end

mutual
/-- Every section within the entry is a map: its names go up strictly. -/
def StorageEntry.sorted : StorageEntry → Bool
  | .pod _ _ => true
  | .string _ => true
  | .object s => s.sorted
  | .array a => a.sorted

def ArrayEntry.sorted : ArrayEntry → Bool
  | .pod _ _ => true
  | .string _ => true
  | .object ss => Section.listSorted ss
  | .array vs => ArrayEntry.listSorted vs

def Section.sorted : Section → Bool
  | .mk entries => decide (OrderedMap.Increasing entries) && Section.entriesSorted entries

def Section.entriesSorted : List (List UInt8 × StorageEntry) → Bool
  | [] => true
  | (_, e) :: rest => e.sorted && Section.entriesSorted rest

def Section.listSorted : List Section → Bool
  | [] => true
  | s :: rest => s.sorted && Section.listSorted rest

def ArrayEntry.listSorted : List ArrayEntry → Bool
  | [] => true
  | a :: rest => a.sorted && ArrayEntry.listSorted rest
end

/-! ## Round trips of the parts -/

section Parts

open GraftNetwork.Serialization (toNat_ofNat_of_lt or_shiftLeft_eq_add)

theorem leValue_storeUint : ∀ (width v : Nat),
    Words.leValue (storeUint width v) = v % 2 ^ (8 * width)
  | 0, v => by rw [storeUint, Words.leValue_nil, Nat.mul_zero, Nat.pow_zero, Nat.mod_one]
  | width + 1, v => by
    have low : v &&& 0xff = v % 256 := Nat.and_two_pow_sub_one_eq_mod v 8
    rw [storeUint, Words.leValue_cons, leValue_storeUint width, low,
      toNat_ofNat_of_lt (Nat.mod_lt v (by decide)), Nat.shiftRight_eq_div_pow,
      show 8 * (width + 1) = 8 + 8 * width by ring, Nat.pow_add, Nat.mod_mul]

/-- One frame of the guard: a body that reads back with `need` calls left makes a function that
reads back with `need + 1`. -/
theorem recursionLimitation_readsBackIf {α : Type} {body : Nat → Decoder UInt8 α}
    {w : List UInt8} {a : α} {need : Nat} {ok : Prop}
    (read : ∀ room, ReadsBackIf (body room) w a (need ≤ room ∧ ok)) :
    ∀ room, ReadsBackIf (recursionLimitation body room) w a (need + 1 ≤ room ∧ ok)
  | 0 => (ReadsBackIf.failure w a).of_iff ⟨False.elim, fun both => absurd both.1 (by omega)⟩
  | room + 1 => (read room).of_iff (and_congr Nat.succ_le_succ_iff.symm Iff.rfl)

theorem readBytes_readsBackIf (w : List UInt8) :
    ∀ room, ReadsBackIf (readBytes w.length room) w w (1 ≤ room)
  | 0 => (ReadsBackIf.failure w w).of_iff (iff_of_false not_false (by omega))
  | room + 1 => (ReadsBackIf.of_readsBack (ReadsBack.take w)).of_iff (iff_of_true trivial (by omega))

theorem readPod_readsBackIf (bytes : List UInt8) :
    ∀ room, ReadsBackIf (readPod bytes.length room) bytes (Words.leValue bytes) (2 ≤ room)
  | 0 => (ReadsBackIf.failure bytes _).of_iff (iff_of_false not_false (by omega))
  | room + 1 => (readBytes_readsBackIf bytes room).map.of_iff Nat.succ_le_succ_iff.symm

theorem readT_readsBackIf (bytes : List UInt8) :
    ∀ room, ReadsBackIf (readT bytes.length room) bytes (Words.leValue bytes) (3 ≤ room)
  | 0 => (ReadsBackIf.failure bytes _).of_iff (iff_of_false not_false (by omega))
  | room + 1 => (readPod_readsBackIf bytes room).of_iff Nat.succ_le_succ_iff.symm

/-- A varint is its value shifted by two bits above the size mark. -/
theorem varint_eq {mark n : Nat} (small : mark < 4) : n <<< 2 ||| mark = n * 4 + mark := by
  rw [Nat.or_comm, or_shiftLeft_eq_add (show mark < 2 ^ 2 by omega)]
  ring

/-- What `pack_varint` writes: the value above a size mark, in the width the mark names. -/
theorem packVarint_spec {n : Nat} {w : List UInt8} (packed : packVarint n = some w) :
    ∃ width mark, mark < 4 ∧ sizeMarkWidth mark = width ∧ n * 4 + mark < 2 ^ (8 * width) ∧
      w = packVarintT width mark n := by
  unfold packVarint at packed
  split_ifs at packed with byte word dword int64
  · exact ⟨1, 0, by decide, rfl, by omega, (Option.some.inj packed).symm⟩
  · exact ⟨2, 1, by decide, rfl, by omega, (Option.some.inj packed).symm⟩
  · exact ⟨4, 2, by decide, rfl, by omega, (Option.some.inj packed).symm⟩
  · exact ⟨8, 3, by decide, rfl, by omega, (Option.some.inj packed).symm⟩

theorem sizeMarkWidth_pos (mark : Nat) : 0 < sizeMarkWidth mark := by
  unfold sizeMarkWidth
  split <;> decide

theorem readVarint_packVarintT {width mark n : Nat} (small : mark < 4)
    (named : sizeMarkWidth mark = width) (fits : n * 4 + mark < 2 ^ (8 * width)) :
    ∀ room, ReadsBackIf (readVarint room) (packVarintT width mark n) n (4 ≤ room)
  | 0 => (ReadsBackIf.failure _ n).of_iff (iff_of_false not_false (by omega))
  | room + 1 => by
    obtain ⟨width, rfl⟩ : ∃ w, width = w + 1 :=
      ⟨width - 1, by have := sizeMarkWidth_pos mark; omega⟩
    have value : ((n * 4 + mark) % 2 ^ (8 * (width + 1))) >>> 2 = n := by
      rw [Nat.mod_eq_of_lt fits, Nat.shiftRight_eq_div_pow]
      omega
    -- the first byte, which `read_varint` peeks at, carries the size mark
    have marked : (UInt8.ofNat ((n <<< 2 ||| mark) &&& 0xff)).toNat &&& portableRawSizeMarkMask =
        mark := by
      rw [Nat.and_two_pow_sub_one_eq_mod _ 8, toNat_ofNat_of_lt (Nat.mod_lt _ (by decide)),
        portableRawSizeMarkMask, Nat.and_two_pow_sub_one_eq_mod _ 2, varint_eq small]
      omega
    have read := (readT_readsBackIf (packVarintT (width + 1) mark n) room).bind_pure
      (g := fun v => v >>> 2)
    have valued : Words.leValue (packVarintT (width + 1) mark n) >>> 2 = n := by
      rw [packVarintT, leValue_storeUint, varint_eq small, value]
    rw [valued, packVarintT, GraftNetwork.Serialization.storeUint_length, ← packVarintT] at read
    refine (ReadsBackIf.of_run_eq (fun rest => ?_) read).of_iff Nat.succ_le_succ_iff.symm
    rw [packVarintT, storeUint, List.cons_append, readVarint, recursionLimitation,
      Decoder.run_bind_of_run (Decoder.run_peek_cons _ _), marked, named]

theorem readVarint_packVarint {n : Nat} {w : List UInt8} (packed : packVarint n = some w) :
    ∀ room, ReadsBackIf (readVarint room) w n (4 ≤ room) := by
  obtain ⟨width, mark, small, named, fits, rfl⟩ := packVarint_spec packed
  exact readVarint_packVarintT small named fits

/-- A read that needs more calls than there are left refuses. -/
theorem readsBackIf_of_lt {α : Type} {p : Decoder UInt8 α} {w : List UInt8} {a : α}
    {need room : Nat} {ok : Prop} (fails : ReadsBackIf p w a False) (short : room < need) :
    ReadsBackIf p w a (need ≤ room ∧ ok) :=
  fails.of_iff (iff_of_false not_false fun needs => absurd needs.1 (by omega))

/-- The same frame of the guard for a read with no other condition. -/
theorem recursionLimitation_readsBackIf_le {α : Type} {body : Nat → Decoder UInt8 α}
    {w : List UInt8} {a : α} {need : Nat}
    (read : ∀ room, ReadsBackIf (body room) w a (need ≤ room)) :
    ∀ room, ReadsBackIf (recursionLimitation body room) w a (need + 1 ≤ room) := fun room => by
  have framed : ∀ room, ReadsBackIf (body room) w a (need ≤ room ∧ True) := fun room =>
    (read room).of_iff (and_iff_left trivial).symm
  exact (recursionLimitation_readsBackIf framed room).of_iff (and_iff_left trivial)

theorem readSecName_readsBackIf {name : List UInt8} (short : name.length < 256) :
    ∀ room, ReadsBackIf (readSecName room) (UInt8.ofNat name.length :: name) name (3 ≤ room)
  | 0 => (ReadsBackIf.failure _ name).of_iff (iff_of_false not_false (by omega))
  | room + 1 => by
    have len := readPod_readsBackIf [UInt8.ofNat name.length] room
    rw [Words.leValue_cons, Words.leValue_nil, Nat.mul_zero, Nat.add_zero,
      toNat_ofNat_of_lt short] at len
    exact (len.bind (f := fun nameLen => readBytes nameLen room)
      (readBytes_readsBackIf name room)).of_iff (by omega)

theorem readString_putString {v w : List UInt8} (put : putString v = some w) :
    ∀ room, ReadsBackIf (readString room) w v (5 ≤ room ∧ v.length < maxStringLenPossible)
  | 0 => readsBackIf_of_lt (ReadsBackIf.failure w v) (by decide)
  | room + 1 => by
    obtain ⟨size, sized, built⟩ := Option.bind_eq_some_iff.mp put
    cases Option.some.inj built
    have body := (readVarint_packVarint sized room).bind
      (f := fun len => if len < maxStringLenPossible then Decoder.take len else failure)
      ((ReadsBackIf.of_readsBack (ReadsBack.take v)).ite (c := v.length < maxStringLenPossible))
    exact body.of_iff ⟨fun read => ⟨by omega, read.2.1⟩, fun read => ⟨by omega, read.2, trivial⟩⟩

theorem readTString_putString {v w : List UInt8} (put : putString v = some w) :
    ∀ room, ReadsBackIf (readTString room) w v (6 ≤ room ∧ v.length < maxStringLenPossible) :=
  recursionLimitation_readsBackIf (readString_putString put)

theorem readSeString_putString {v w : List UInt8} (put : putString v = some w) :
    ∀ room, ReadsBackIf (readSeString room) w (.string v)
      (7 ≤ room ∧ v.length < maxStringLenPossible) :=
  recursionLimitation_readsBackIf fun room => (readTString_putString put room).map

theorem readPod_packPod (t : PodType) (v : BitVec (8 * t.size)) (room : Nat) :
    ReadsBackIf (readPod t.size room) (packPod t v) v.toNat (2 ≤ room) := by
  have read := readPod_readsBackIf (packPod t v) room
  rwa [packPod, GraftNetwork.Serialization.storeUint_length, leValue_storeUint,
    Nat.mod_eq_of_lt v.isLt] at read

theorem readSe_packPod (t : PodType) (v : BitVec (8 * t.size)) :
    ∀ room, ReadsBackIf (readSe t room) (packPod t v) (.pod t v) (3 ≤ room) :=
  recursionLimitation_readsBackIf_le fun room => by
    have read := (readPod_packPod t v room).bind_pure
      (g := fun value => StorageEntry.pod t (BitVec.ofNat _ value))
    rwa [BitVec.ofNat_toNat, BitVec.setWidth_eq] at read

theorem readTPod_packPod (t : PodType) (v : BitVec (8 * t.size)) (room : Nat) :
    ReadsBackIf (readTPod t room) (packPod t v) v (3 ≤ room) := by
  have read := (recursionLimitation_readsBackIf_le (readPod_packPod t v) room).map
    (g := BitVec.ofNat (8 * t.size))
  rwa [BitVec.ofNat_toNat, BitVec.setWidth_eq] at read

theorem count_readTString_putStrings :
    ∀ {vs : List (List UInt8)} {w : List UInt8} (room : Nat), putStrings vs = some w →
      ReadsBackIf (Decoder.count vs.length (readTString room)) w vs
        (∀ v ∈ vs, 6 ≤ room ∧ v.length < maxStringLenPossible)
  | [], w, room, put => by
    cases Option.some.inj put
    exact ReadsBackIf.count_zero.of_iff
      (iff_of_true trivial fun _ mem => absurd mem List.not_mem_nil)
  | v :: vs, w, room, put => by
    obtain ⟨string, first, put⟩ := Option.bind_eq_some_iff.mp put
    obtain ⟨more, rest, built⟩ := Option.bind_eq_some_iff.mp put
    cases Option.some.inj built
    exact ((readTString_putString first room).count_succ
      (count_readTString_putStrings room rest)).of_iff
      (List.forall_mem_cons (p := fun v : List UInt8 => 6 ≤ room ∧ v.length < maxStringLenPossible)).symm

/-- `read(array_entry&)` refuses whatever follows. -/
theorem run_readTArrayEntry (room : Nat) (s : List UInt8) : (readTArrayEntry room).run s = none := by
  cases room with
  | zero => rfl
  | succ room => cases room <;> rfl

/-- An array of arrays is read back only when it is empty. -/
theorem count_readTArrayEntry {vs : List ArrayEntry} {w : List UInt8} (room : Nat)
    (packed : packArrayEntries vs = some w) :
    ReadsBackIf (Decoder.count vs.length (readTArrayEntry room)) w vs (vs = []) := by
  cases vs with
  | nil =>
    cases Option.some.inj packed
    exact ReadsBackIf.count_zero.of_iff (iff_of_true trivial rfl)
  | cons a vs =>
    refine ReadsBackIf.intro (fun empty => absurd empty (List.cons_ne_nil a vs)) fun _ rest => ?_
    rw [List.length_cons, Decoder.count]
    exact Decoder.run_bind_of_none (run_readTArrayEntry room _)

theorem readAe_readsBackIf {α : Type} {readValue : Nat → Decoder UInt8 α}
    {make : List α → ArrayEntry} {xs : List α} {size items : List UInt8} {room : Nat} {ok : Prop}
    (sized : packVarint xs.length = some size)
    (elements : ReadsBackIf (Decoder.count xs.length (readValue room)) items xs ok) :
    ReadsBackIf (readAe readValue make (room + 1)) (size ++ items) (.array (make xs))
      (4 ≤ room ∧ ok) :=
  (readVarint_packVarint sized room).bind
    (elements.bind_pure (g := fun values => StorageEntry.array (make values)))

/-! ## The type codes -/

theorem leValue_singleton (c : UInt8) : UInt8.ofNat (Words.leValue [c]) = c := by
  rw [Words.leValue_cons, Words.leValue_nil, Nat.mul_zero, Nat.add_zero, UInt8.ofNat_toNat]

/-- `load_storage_entry` reads a type code without `SERIALIZE_FLAG_ARRAY` and calls its
`read_se`. -/
theorem loadStorageEntry_of_code (e : EntryType) {room : Nat} {w : List UInt8}
    {entry : StorageEntry} {ok : Prop}
    (next : ReadsBackIf (readSeOf e room) w entry ok) :
    ReadsBackIf (loadStorageEntry (room + 1)) (e.code :: w) entry (2 ≤ room ∧ ok) := by
  have code := (readPod_readsBackIf [e.code] room).map (g := UInt8.ofNat)
  rw [leValue_singleton] at code
  rw [loadStorageEntry]
  refine code.bind ?_
  cases e with
  | pod t => cases t <;> exact next
  | string => exact next
  | object => exact next
  | array => exact next

/-- `load_storage_entry` reads a type code with `SERIALIZE_FLAG_ARRAY` and goes on to the array. -/
theorem loadStorageEntry_of_flag {c : UInt8} (flagged : c &&& serializeFlagArray ≠ 0) {room : Nat}
    {w : List UInt8} {entry : StorageEntry} {ok : Prop}
    (next : ReadsBackIf (loadStorageArrayEntry room c) w entry ok) :
    ReadsBackIf (loadStorageEntry (room + 1)) (c :: w) entry (2 ≤ room ∧ ok) := by
  have code := (readPod_readsBackIf [c] room).map (g := UInt8.ofNat)
  rw [leValue_singleton] at code
  rw [loadStorageEntry]
  refine code.bind ?_
  rw [if_pos flagged]
  exact next

theorem readAeOf_zero (e : EntryType) : readAeOf e 0 = failure := by
  cases e <;> rfl

theorem flag_code_or (e : EntryType) : (e.code ||| serializeFlagArray) &&& serializeFlagArray ≠ 0 := by
  cases e with
  | pod t => cases t <;> decide
  | _ => decide

/-- `load_storage_array_entry` calls the `read_ae` of the type of the elements. -/
theorem loadStorageArrayEntry_code_or (e : EntryType) (room : Nat) :
    loadStorageArrayEntry (room + 1) (e.code ||| serializeFlagArray) = readAeOf e room := by
  cases e with
  | pod t => cases t <;> rfl
  | _ => rfl

/-- An array starts with the type code of its elements with `SERIALIZE_FLAG_ARRAY`. -/
theorem packArrayEntry_cons {a : ArrayEntry} {w : List UInt8} (packed : packArrayEntry a = some w) :
    ∃ rest, w = (a.elementType.code ||| serializeFlagArray) :: rest := by
  cases a with
  | pod t vs =>
    obtain ⟨size, _, built⟩ := Option.bind_eq_some_iff.mp packed
    exact ⟨_, (Option.some.inj built).symm⟩
  | string vs =>
    obtain ⟨size, _, packed⟩ := Option.bind_eq_some_iff.mp packed
    obtain ⟨items, _, built⟩ := Option.bind_eq_some_iff.mp packed
    exact ⟨_, (Option.some.inj built).symm⟩
  | object ss =>
    obtain ⟨size, _, packed⟩ := Option.bind_eq_some_iff.mp packed
    obtain ⟨items, _, built⟩ := Option.bind_eq_some_iff.mp packed
    exact ⟨_, (Option.some.inj built).symm⟩
  | array vs =>
    obtain ⟨size, _, packed⟩ := Option.bind_eq_some_iff.mp packed
    obtain ⟨items, _, built⟩ := Option.bind_eq_some_iff.mp packed
    exact ⟨_, (Option.some.inj built).symm⟩

end Parts

/-! ## The reader takes back what the writer wrote, when it fits -/

theorem Section.five_le_frames (s : Section) : 5 ≤ s.frames := by
  cases s with
  | mk entries =>
    have := le_max_left 4 (Section.entriesFrames entries)
    rw [Section.frames]
    omega

theorem ArrayEntry.five_le_frames (a : ArrayEntry) : 5 ≤ a.frames := by
  cases a with
  | pod t vs => rw [ArrayEntry.frames]
  | string vs =>
    rw [ArrayEntry.frames]
    split <;> omega
  | object ss =>
    have := le_max_left 4 (Section.listFrames ss)
    rw [ArrayEntry.frames]
    omega
  | array vs => rw [ArrayEntry.frames]

theorem StorageEntry.four_le_frames (e : StorageEntry) : 4 ≤ e.frames := by
  cases e with
  | pod t v => rw [StorageEntry.frames]
  | string v =>
    rw [StorageEntry.frames]
    omega
  | object s =>
    have := s.five_le_frames
    rw [StorageEntry.frames]
    omega
  | array a =>
    have := a.five_le_frames
    rw [StorageEntry.frames]
    omega

-- Each reader, on what its writer wrote, by recursion on the storage: the room left to the reader
-- decides whether it reads the value back.
mutual
theorem readSection_packSection : ∀ (s : Section) (room : Nat) {w : List UInt8},
    s.sorted = true → packSection s = some w →
      ReadsBackIf (readSection room) w s (s.frames ≤ room ∧ s.readable = true)
  | .mk entries, room, w, sorted, packed => by
    rw [Section.sorted, Bool.and_eq_true, decide_eq_true_eq] at sorted
    obtain ⟨size, sized, packed⟩ := Option.bind_eq_some_iff.mp packed
    obtain ⟨items, itemsPacked, built⟩ := Option.bind_eq_some_iff.mp packed
    cases Option.some.inj built
    cases room with
    | zero =>
      exact readsBackIf_of_lt (ReadsBackIf.failure _ _) (by
        have := Section.five_le_frames (.mk entries)
        omega)
    | succ room =>
      have read := (readVarint_packVarint sized room).bind
        (f := fun count => Decoder.count count (readSectionEntry room) >>= fun read =>
          pure (Section.mk (OrderedMap.ofList read)))
        ((count_readSectionEntry_packEntries entries room sorted.2 itemsPacked).bind_pure
          (g := fun read => Section.mk (OrderedMap.ofList read)))
      -- the map the reader rebuilds by inserting the entries is the one written
      rw [OrderedMap.ofList_of_increasing sorted.1] at read
      rw [readSection_succ]
      refine read.of_iff ?_
      rw [Section.frames, Section.readable, ← and_assoc]
      exact and_congr (by omega) Iff.rfl

theorem count_readSectionEntry_packEntries :
    ∀ (entries : List (List UInt8 × StorageEntry)) (room : Nat) {w : List UInt8},
      Section.entriesSorted entries = true → packEntries entries = some w →
        ReadsBackIf (Decoder.count entries.length (readSectionEntry room)) w entries
          (Section.entriesFrames entries ≤ room ∧ Section.entriesReadable entries = true)
  | [], room, w, _, packed => by
    cases Option.some.inj packed
    exact ReadsBackIf.count_zero.of_iff (iff_of_true trivial ⟨Nat.zero_le room, rfl⟩)
  | (name, e) :: rest, room, w, sorted, packed => by
    rw [Section.entriesSorted, Bool.and_eq_true] at sorted
    rw [packEntries] at packed
    by_cases short : name.length < 255
    · rw [if_pos short] at packed
      obtain ⟨entry, entryPacked, packed⟩ := Option.bind_eq_some_iff.mp packed
      obtain ⟨more, morePacked, built⟩ := Option.bind_eq_some_iff.mp packed
      cases Option.some.inj built
      have head := (readSecName_readsBackIf (by omega : name.length < 256) room).bind
        (f := fun secName => loadStorageEntry room >>= fun entry => pure (secName, entry))
        ((loadStorageEntry_packStorageEntry e room sorted.1 entryPacked).bind_pure
          (g := fun entry => (name, entry)))
      have read :=
        head.count_succ (count_readSectionEntry_packEntries rest room sorted.2 morePacked)
      refine read.of_iff ?_
      rw [Section.entriesFrames, Section.entriesReadable, Bool.and_eq_true, max_le_iff]
      have := e.four_le_frames
      constructor
      · rintro ⟨⟨-, framed, readable⟩, restFramed, restReadable⟩
        exact ⟨⟨framed, restFramed⟩, readable, restReadable⟩
      · rintro ⟨⟨framed, restFramed⟩, readable, restReadable⟩
        exact ⟨⟨by omega, framed, readable⟩, restFramed, restReadable⟩
    · rw [if_neg short] at packed
      cases packed

theorem loadStorageEntry_packStorageEntry : ∀ (e : StorageEntry) (room : Nat) {w : List UInt8},
    e.sorted = true → packStorageEntry e = some w →
      ReadsBackIf (loadStorageEntry room) w e (e.frames ≤ room ∧ e.readable = true)
  | e, 0, w, _, _ => readsBackIf_of_lt (ReadsBackIf.failure w e) (by
      have := e.four_le_frames
      omega)
  | .pod t v, room + 1, w, _, packed => by
    cases Option.some.inj packed
    refine (loadStorageEntry_of_code (.pod t) (readSe_packPod t v room)).of_iff ?_
    rw [StorageEntry.frames, StorageEntry.readable]
    exact ⟨fun enough => ⟨by omega, rfl⟩, fun enough => ⟨by omega, by omega⟩⟩
  | .string v, room + 1, w, _, packed => by
    obtain ⟨string, put, built⟩ := Option.map_eq_some_iff.mp packed
    cases built
    refine (loadStorageEntry_of_code .string (readSeString_putString put room)).of_iff ?_
    rw [StorageEntry.frames, StorageEntry.readable, decide_eq_true_iff, ← and_assoc]
    exact and_congr (by omega) Iff.rfl
  | .object s, room + 1, w, sorted, packed => by
    rw [StorageEntry.sorted] at sorted
    obtain ⟨sec, packedSection, built⟩ := Option.map_eq_some_iff.mp packed
    cases built
    have next := recursionLimitation_readsBackIf (fun room =>
      (readSection_packSection s room sorted packedSection).map (g := StorageEntry.object)) room
    rw [← readSeSection_eq] at next
    refine (loadStorageEntry_of_code .object next).of_iff ?_
    rw [StorageEntry.frames, StorageEntry.readable, ← and_assoc]
    have := s.five_le_frames
    exact and_congr (by omega) Iff.rfl
  | .array a, room + 1, w, sorted, packed => by
    rw [StorageEntry.sorted] at sorted
    obtain ⟨rest, rfl⟩ := packArrayEntry_cons packed
    refine (loadStorageEntry_of_flag (flag_code_or a.elementType)
      (loadStorageArrayEntry_packArrayEntry a room sorted packed)).of_iff ?_
    rw [StorageEntry.frames, StorageEntry.readable, ← and_assoc]
    have := a.five_le_frames
    exact and_congr (by omega) Iff.rfl

theorem loadStorageArrayEntry_packArrayEntry : ∀ (a : ArrayEntry) (room : Nat) {w : List UInt8},
    a.sorted = true → packArrayEntry a = some ((a.elementType.code ||| serializeFlagArray) :: w) →
      ReadsBackIf (loadStorageArrayEntry room (a.elementType.code ||| serializeFlagArray)) w
        (.array a) (a.frames + 1 ≤ room ∧ a.readable = true)
  | a, 0, w, _, _ => readsBackIf_of_lt (ReadsBackIf.failure w _) (Nat.succ_pos a.frames)
  | a, 1, w, _, _ => by
    have := a.five_le_frames
    rw [loadStorageArrayEntry_code_or, readAeOf_zero]
    exact readsBackIf_of_lt (ReadsBackIf.failure w _) (by omega)
  | .pod t vs, room + 2, w, _, packed => by
    obtain ⟨size, sized, built⟩ := Option.bind_eq_some_iff.mp packed
    cases (List.cons.inj (Option.some.inj built)).2
    rw [loadStorageArrayEntry_code_or]
    refine (readAe_readsBackIf sized
      (ReadsBackIf.count_flatMap fun v _ => readTPod_packPod t v room)).of_iff ?_
    rw [ArrayEntry.frames, ArrayEntry.readable]
    constructor
    · rintro ⟨enough, -⟩
      exact ⟨by omega, rfl⟩
    · rintro ⟨enough, -⟩
      exact ⟨by omega, fun _ _ => by omega⟩
  | .string vs, room + 2, w, _, packed => by
    obtain ⟨size, sized, packed⟩ := Option.bind_eq_some_iff.mp packed
    obtain ⟨items, put, built⟩ := Option.bind_eq_some_iff.mp packed
    cases (List.cons.inj (Option.some.inj built)).2
    rw [loadStorageArrayEntry_code_or]
    refine (readAe_readsBackIf sized (count_readTString_putStrings room put)).of_iff ?_
    rw [ArrayEntry.frames, ArrayEntry.readable, List.all_eq_true]
    simp only [decide_eq_true_eq]
    -- the strings need six calls under `read_ae`, when there are any
    rcases vs with _ | ⟨v, vs⟩
    · rw [if_pos rfl]
      simp only [List.not_mem_nil, IsEmpty.forall_iff, implies_true, and_true]
      omega
    · rw [if_neg (List.cons_ne_nil v vs)]
      constructor
      · rintro ⟨_, each⟩
        have := (each v List.mem_cons_self).1
        exact ⟨by omega, fun x mem => (each x mem).2⟩
      · rintro ⟨enough, short⟩
        exact ⟨by omega, fun x mem => ⟨by omega, short x mem⟩⟩
  | .object ss, room + 2, w, sorted, packed => by
    rw [ArrayEntry.sorted] at sorted
    obtain ⟨size, sized, packed⟩ := Option.bind_eq_some_iff.mp packed
    obtain ⟨items, itemsPacked, built⟩ := Option.bind_eq_some_iff.mp packed
    cases (List.cons.inj (Option.some.inj built)).2
    rw [loadStorageArrayEntry_code_or, ArrayEntry.elementType, readAeOf, readAeSection_eq]
    refine (readAe_readsBackIf sized
      (count_readTSection_packSections ss room sorted itemsPacked)).of_iff ?_
    rw [ArrayEntry.frames, ArrayEntry.readable, ← and_assoc]
    exact and_congr (by omega) Iff.rfl
  | .array vs, room + 2, w, _, packed => by
    obtain ⟨size, sized, packed⟩ := Option.bind_eq_some_iff.mp packed
    obtain ⟨items, itemsPacked, built⟩ := Option.bind_eq_some_iff.mp packed
    cases (List.cons.inj (Option.some.inj built)).2
    rw [loadStorageArrayEntry_code_or]
    refine (readAe_readsBackIf sized (count_readTArrayEntry room itemsPacked)).of_iff ?_
    rw [ArrayEntry.frames, ArrayEntry.readable, List.isEmpty_iff]
    exact and_congr (by omega) Iff.rfl

theorem count_readTSection_packSections : ∀ (ss : List Section) (room : Nat) {w : List UInt8},
    Section.listSorted ss = true → packSections ss = some w →
      ReadsBackIf (Decoder.count ss.length (readTSection room)) w ss
        (Section.listFrames ss ≤ room ∧ Section.listReadable ss = true)
  | [], room, w, _, packed => by
    cases Option.some.inj packed
    exact ReadsBackIf.count_zero.of_iff (iff_of_true trivial ⟨Nat.zero_le room, rfl⟩)
  | s :: rest, room, w, sorted, packed => by
    rw [Section.listSorted, Bool.and_eq_true] at sorted
    obtain ⟨sec, first, packed⟩ := Option.bind_eq_some_iff.mp packed
    obtain ⟨more, later, built⟩ := Option.bind_eq_some_iff.mp packed
    cases Option.some.inj built
    have head := recursionLimitation_readsBackIf
      (fun room => readSection_packSection s room sorted.1 first) room
    rw [← readTSection_eq] at head
    refine (head.count_succ
      (count_readTSection_packSections rest room sorted.2 later)).of_iff ?_
    rw [Section.listFrames, Section.listReadable, Bool.and_eq_true, max_le_iff]
    constructor
    · rintro ⟨⟨framed, readable⟩, restFramed, restReadable⟩
      exact ⟨⟨by omega, restFramed⟩, readable, restReadable⟩
    · rintro ⟨⟨framed, restFramed⟩, readable, restReadable⟩
      exact ⟨⟨by omega, readable⟩, restFramed, restReadable⟩
end

/-! ## `store_to_binary` and `load_from_binary` -/

theorem storageBlockHeader_eq :
    storageBlockHeader = [0x01, 0x11, 0x01, 0x01, 0x01, 0x01, 0x02, 0x01, 0x01] := rfl

theorem packVarint_ne_nil {n : Nat} {w : List UInt8} (packed : packVarint n = some w) : w ≠ [] := by
  obtain ⟨width, mark, _, named, _, rfl⟩ := packVarint_spec packed
  have := sizeMarkWidth_pos mark
  rw [packVarintT, ← List.length_pos_iff, GraftNetwork.Serialization.storeUint_length]
  omega

theorem packSection_ne_nil {s : Section} {w : List UInt8} (packed : packSection s = some w) :
    w ≠ [] := by
  cases s with
  | mk entries =>
    obtain ⟨size, sized, packed⟩ := Option.bind_eq_some_iff.mp packed
    obtain ⟨items, _, built⟩ := Option.bind_eq_some_iff.mp packed
    cases Option.some.inj built
    exact List.append_ne_nil_of_left_ne_nil (packVarint_ne_nil sized) _

/-- `load_from_binary` of the header that `store_to_binary` writes, then a section: the checks of
the header pass, and the reader starts on the section with 99 calls left. -/
theorem loadFromBinary_header {w : List UInt8} (nonempty : w ≠ []) :
    loadFromBinary (storageBlockHeader ++ w) = Prod.fst <$> (readSection 99).run w := by
  have long : ¬(storageBlockHeader ++ w).length < sizeofStorageBlockHeader := by
    rw [List.length_append, storageBlockHeader_eq]
    simp [sizeofStorageBlockHeader]
  have signatureA : (storageBlockHeader ++ w).take 4 = [0x01, 0x11, 0x01, 0x01] := rfl
  have signatureB : ((storageBlockHeader ++ w).drop 4).take 4 = [0x01, 0x01, 0x02, 0x01] := rfl
  have version : (storageBlockHeader ++ w).getD 8 0 = 0x01 := rfl
  have signatures : ¬(Words.leValue ((storageBlockHeader ++ w).take 4) ≠ portableStorageSignatureA ∨
      Words.leValue (((storageBlockHeader ++ w).drop 4).take 4) ≠ portableStorageSignatureB) := by
    rw [signatureA, signatureB]
    decide
  have versioned : ¬((storageBlockHeader ++ w).getD 8 0).toNat ≠ portableStorageFormatVer := by
    rw [version]
    decide
  have payload : (storageBlockHeader ++ w).drop sizeofStorageBlockHeader = w := rfl
  rw [loadFromBinary, if_neg long, if_neg signatures, if_neg versioned, payload, if_neg nonempty]
  rfl

/-- Loading what `store_to_binary` wrote gives the storage back exactly when the reader's calls
stay below the recursion limit and the storage has nothing the reader refuses. -/
theorem load_from_binary_of_store_to_binary {root : Section} {bytes : List UInt8}
    (stored : storeToBinary root = some bytes) (sorted : root.sorted = true) :
    loadFromBinary bytes =
      if root.frames < epeePortableStorageRecursionLimitInternal ∧ root.readable = true then
        some root else none := by
  obtain ⟨w, packed, rfl⟩ := Option.map_eq_some_iff.mp stored
  have read := readSection_packSection root 99 sorted packed
  rw [loadFromBinary_header (packSection_ne_nil packed), ← List.append_nil w]
  by_cases fits : root.frames ≤ 99 ∧ root.readable = true
  · have below : root.frames < epeePortableStorageRecursionLimitInternal := by
      rw [epeePortableStorageRecursionLimitInternal]
      omega
    rw [if_pos ⟨below, fits.2⟩, read.run_of_ok fits]
    rfl
  · have refused : ¬(root.frames < epeePortableStorageRecursionLimitInternal ∧
        root.readable = true) := fun loads =>
      fits ⟨by rw [epeePortableStorageRecursionLimitInternal] at loads; omega, loads.2⟩
    rw [if_neg refused, read.run_of_not fits]
    rfl

/-- A storage with a value, a string, a section and arrays of values and of sections. -/
def sampleStorage : Section :=
  .mk [([0x61], .pod .uint32 5), ([0x62], .string [1, 2]),
    ([0x63], .object (.mk [([0x64], .array (.pod .uint8 [1, 2, 3]))])),
    ([0x65], .array (.object [.mk [], .mk [([0x66], .string [])]]))]

theorem sample_storage_loads :
    loadFromBinary ((storeToBinary sampleStorage).getD []) = some sampleStorage :=
  (load_from_binary_of_store_to_binary rfl rfl).trans (if_pos (by decide))

/-- Sections nested `depth` deep, each the only entry of the one above. -/
def nestedSections : Nat → Section
  | 0 => .mk []
  | depth + 1 => .mk [([0x61], .object (nestedSections depth))]

/-- Each level of nesting takes three calls of the reader: `read(section&)`,
`load_storage_entry` and `read_se<section>`; so 31 levels load and 32 do not. -/
theorem nestedSections_frames : ∀ depth, (nestedSections depth).frames = 5 + 3 * depth
  | 0 => rfl
  | depth + 1 => by
    have inner := nestedSections_frames depth
    have := Section.five_le_frames (nestedSections depth)
    rw [nestedSections, Section.frames, Section.entriesFrames, Section.entriesFrames,
      StorageEntry.frames, inner]
    omega

example : ((storeToBinary (nestedSections 31)).bind loadFromBinary).isSome = true := by
  decide +kernel

example : ((storeToBinary (nestedSections 32)).bind loadFromBinary).isSome = false := by
  decide +kernel

end GraftNetwork.Serialization.PortableStorage

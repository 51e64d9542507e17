import GraftNetwork.Serialization.PortableStorage

/-!
# What `load_from_binary` accepts, and storing it again

A node that loads a storage from a peer and passes it on writes it again with `store_to_binary`.
The reader takes more than the writer writes: a count in a wider varint than it needs, a name
twice (the map keeps the first entry of the name), a name of 255 bytes. Whatever the bytes, what
the reader returns is a storage that the writer writes and the reader reads back as it is,
unless one of its names has 255 bytes.

* `Section.Loaded`, `StorageEntry.Loaded`: what a value that the reader returns with `room`
  calls left satisfies. It needs at most `room` calls to be read, its sections are maps, it holds
  nothing that the reader refuses, and its counts and lengths are ones `pack_varint` writes.
* `ReaderLoaded.succ`, `readerLoaded`: the seven functions of the reader's recursion return only
  such values; one more call left keeps that, and by induction on the room it holds of all.
* `isSome_packSection`: `pack_entry_to_buff` throws exactly when a name has 255 bytes or more or
  a count is too big for `pack_varint`.
* `store_to_binary_of_load_from_binary`: a storage that `load_from_binary` returns is written by
  `store_to_binary` and loaded back as it is, unless one of its names has 255 bytes, which
  `read_sec_name` takes and `pack_entry_to_buff` refuses.
-/

namespace GraftNetwork.Serialization.PortableStorage

/-! ## What the writer needs of a storage -/

mutual
/-- Every name within the entry is shorter than 255 bytes, as `pack_entry_to_buff` checks. -/
def StorageEntry.namesFit : StorageEntry → Bool
  | .pod _ _ => true
  | .string _ => true
  | .object s => s.namesFit
  | .array a => a.namesFit

def ArrayEntry.namesFit : ArrayEntry → Bool
  | .pod _ _ => true
  | .string _ => true
  | .object ss => Section.listNamesFit ss
  | .array vs => ArrayEntry.listNamesFit vs

def Section.namesFit : Section → Bool
  | .mk entries => Section.entriesNamesFit entries

def Section.entriesNamesFit : List (List UInt8 × StorageEntry) → Bool
  | [] => true
  | (name, e) :: rest => decide (name.length < 255) && e.namesFit && Section.entriesNamesFit rest

def Section.listNamesFit : List Section → Bool
  | [] => true
  | s :: rest => s.namesFit && Section.listNamesFit rest

def ArrayEntry.listNamesFit : List ArrayEntry → Bool
  | [] => true
  | a :: rest => a.namesFit && ArrayEntry.listNamesFit rest
end

mutual
/-- Every count of entries or elements and every length of a string within the entry is one that
`pack_varint` writes. -/
def StorageEntry.countsFit : StorageEntry → Bool
  | .pod _ _ => true
  | .string s => (packVarint s.length).isSome
  | .object s => s.countsFit
  | .array a => a.countsFit

def ArrayEntry.countsFit : ArrayEntry → Bool
  | .pod _ vs => (packVarint vs.length).isSome
  | .string vs => (packVarint vs.length).isSome && vs.all fun v => (packVarint v.length).isSome
  | .object ss => (packVarint ss.length).isSome && Section.listCountsFit ss
  | .array vs => (packVarint vs.length).isSome && ArrayEntry.listCountsFit vs

def Section.countsFit : Section → Bool
  | .mk entries => (packVarint entries.length).isSome && Section.entriesCountsFit entries

def Section.entriesCountsFit : List (List UInt8 × StorageEntry) → Bool
  | [] => true
  | (_, e) :: rest => e.countsFit && Section.entriesCountsFit rest

def Section.listCountsFit : List Section → Bool
  | [] => true
  | s :: rest => s.countsFit && Section.listCountsFit rest

def ArrayEntry.listCountsFit : List ArrayEntry → Bool
  | [] => true
  | a :: rest => a.countsFit && ArrayEntry.listCountsFit rest
end

theorem isSome_bind_pure {α β : Type} (x : Option α) (f : α → β) :
    (x >>= fun a => pure (f a)).isSome = x.isSome := by
  cases x <;> rfl

theorem isSome_bind_bind {α β γ : Type} (x : Option α) (y : Option β) (f : α → β → γ) :
    (x >>= fun a => y >>= fun b => pure (f a b)).isSome = (x.isSome && y.isSome) := by
  cases x <;> cases y <;> rfl

/-- `pack_varint` writes every value up to `2 ^ 62 - 1`. -/
theorem isSome_packVarint_of_le {n : Nat} (small : n ≤ 4611686018427387903) :
    (packVarint n).isSome = true := by
  unfold packVarint
  split_ifs <;> rfl

theorem isSome_putString (v : List UInt8) :
    (putString v).isSome = (packVarint v.length).isSome :=
  isSome_bind_pure _ _

theorem isSome_putStrings : ∀ vs : List (List UInt8),
    (putStrings vs).isSome = vs.all fun v => (packVarint v.length).isSome
  | [] => rfl
  | v :: rest => by
    rw [putStrings, isSome_bind_bind, isSome_putString, isSome_putStrings rest, List.all_cons]

-- The writer, by recursion on the storage: it fails on a name too long or a count too big, and
-- nowhere else.
mutual
theorem isSome_packStorageEntry : ∀ e : StorageEntry,
    (packStorageEntry e).isSome = (e.namesFit && e.countsFit)
  | .pod _ _ => rfl
  | .string v => by
    rw [packStorageEntry, Option.map_eq_map, Option.isSome_map, isSome_putString]
    rfl
  | .object s => by
    rw [packStorageEntry, Option.map_eq_map, Option.isSome_map, isSome_packSection s]
    rfl
  | .array a => by
    rw [packStorageEntry, isSome_packArrayEntry a]
    rfl

theorem isSome_packArrayEntry : ∀ a : ArrayEntry,
    (packArrayEntry a).isSome = (a.namesFit && a.countsFit)
  | .pod _ vs => by
    rw [packArrayEntry, isSome_bind_pure]
    rfl
  | .string vs => by
    rw [packArrayEntry, isSome_bind_bind, isSome_putStrings]
    rfl
  | .object ss => by
    rw [packArrayEntry, isSome_bind_bind, isSome_packSections ss, ArrayEntry.namesFit,
      ArrayEntry.countsFit]
    exact Bool.and_left_comm _ _ _
  | .array vs => by
    rw [packArrayEntry, isSome_bind_bind, isSome_packArrayEntries vs, ArrayEntry.namesFit,
      ArrayEntry.countsFit]
    exact Bool.and_left_comm _ _ _

theorem isSome_packSection : ∀ s : Section, (packSection s).isSome = (s.namesFit && s.countsFit)
  | .mk entries => by
    rw [packSection, isSome_bind_bind, isSome_packEntries entries, Section.namesFit,
      Section.countsFit]
    exact Bool.and_left_comm _ _ _

theorem isSome_packEntries : ∀ entries : List (List UInt8 × StorageEntry),
    (packEntries entries).isSome =
      (Section.entriesNamesFit entries && Section.entriesCountsFit entries)
  | [] => rfl
  | (name, e) :: rest => by
    rw [packEntries, Section.entriesNamesFit, Section.entriesCountsFit]
    by_cases short : name.length < 255
    · rw [if_pos short, isSome_bind_bind, isSome_packStorageEntry e, isSome_packEntries rest,
        decide_eq_true short, Bool.true_and]
      ac_rfl
    · rw [if_neg short, decide_eq_false short]
      rfl

theorem isSome_packSections : ∀ ss : List Section,
    (packSections ss).isSome = (Section.listNamesFit ss && Section.listCountsFit ss)
  | [] => rfl
  | s :: rest => by
    rw [packSections, isSome_bind_bind, isSome_packSection s, isSome_packSections rest,
      Section.listNamesFit, Section.listCountsFit]
    ac_rfl

theorem isSome_packArrayEntries : ∀ vs : List ArrayEntry,
    (packArrayEntries vs).isSome = (ArrayEntry.listNamesFit vs && ArrayEntry.listCountsFit vs)
  | [] => rfl
  | a :: rest => by
    rw [packArrayEntries, isSome_bind_bind, isSome_packArrayEntry a, isSome_packArrayEntries rest,
      ArrayEntry.listNamesFit, ArrayEntry.listCountsFit]
    ac_rfl
end

/-! ## What the reader returns -/

/-- What a section that the reader returns with `room` calls left satisfies: it is read again
within `room` calls, its names go up, and it holds nothing that the reader refuses or whose count
the writer cannot write. -/
structure Section.Loaded (room : Nat) (s : Section) : Prop where
  frames_le : s.frames ≤ room
  sorted : s.sorted = true
  readable : s.readable = true
  countsFit : s.countsFit = true

/-- The same of an entry. -/
structure StorageEntry.Loaded (room : Nat) (e : StorageEntry) : Prop where
  frames_le : e.frames ≤ room
  sorted : e.sorted = true
  readable : e.readable = true
  countsFit : e.countsFit = true

theorem Section.Loaded.mono {s : Section} {room room' : Nat} (loaded : s.Loaded room)
    (more : room ≤ room') : s.Loaded room' :=
  ⟨Nat.le_trans loaded.frames_le more, loaded.sorted, loaded.readable, loaded.countsFit⟩

theorem StorageEntry.Loaded.mono {e : StorageEntry} {room room' : Nat} (loaded : e.Loaded room)
    (more : room ≤ room') : e.Loaded room' :=
  ⟨Nat.le_trans loaded.frames_le more, loaded.sorted, loaded.readable, loaded.countsFit⟩

theorem Section.entries_loaded {room : Nat} :
    ∀ {entries : List (List UInt8 × StorageEntry)}, (∀ x ∈ entries, x.2.Loaded room) →
      Section.entriesFrames entries ≤ room ∧ Section.entriesSorted entries = true ∧
        Section.entriesReadable entries = true ∧ Section.entriesCountsFit entries = true
  | [], _ => ⟨Nat.zero_le room, rfl, rfl, rfl⟩
  | (name, e) :: rest, each => by
    have head := each (name, e) List.mem_cons_self
    obtain ⟨frames, sorted, readable, counts⟩ :=
      Section.entries_loaded fun x mem => each x (List.mem_cons_of_mem _ mem)
    rw [Section.entriesFrames, Section.entriesSorted, Section.entriesReadable,
      Section.entriesCountsFit, head.sorted, head.readable, head.countsFit, sorted, readable,
      counts]
    exact ⟨Nat.max_le.mpr ⟨head.frames_le, frames⟩, rfl, rfl, rfl⟩

theorem Section.list_loaded {room : Nat} :
    ∀ {ss : List Section}, (∀ s ∈ ss, 1 + s.frames ≤ room ∧ s.Loaded room) →
      Section.listFrames ss ≤ room ∧ Section.listSorted ss = true ∧
        Section.listReadable ss = true ∧ Section.listCountsFit ss = true
  | [], _ => ⟨Nat.zero_le room, rfl, rfl, rfl⟩
  | s :: rest, each => by
    obtain ⟨below, head⟩ := each s List.mem_cons_self
    obtain ⟨frames, sorted, readable, counts⟩ :=
      Section.list_loaded fun x mem => each x (List.mem_cons_of_mem _ mem)
    rw [Section.listFrames, Section.listSorted, Section.listReadable, Section.listCountsFit,
      head.sorted, head.readable, head.countsFit, sorted, readable, counts]
    exact ⟨Nat.max_le.mpr ⟨below, frames⟩, rfl, rfl, rfl⟩

/-- A map of entries that the reader returned, under a count it read. -/
theorem Section.loaded_mk {room : Nat} {entries : List (List UInt8 × StorageEntry)}
    (four : 4 ≤ room) (few : entries.length ≤ 4611686018427387903)
    (increasing : OrderedMap.Increasing entries) (each : ∀ x ∈ entries, x.2.Loaded room) :
    (Section.mk entries).Loaded (room + 1) := by
  obtain ⟨frames, sorted, readable, counts⟩ := Section.entries_loaded each
  refine ⟨?_, ?_, readable, ?_⟩
  · rw [Section.frames]
    omega
  · rw [Section.sorted, decide_eq_true increasing, sorted]
    rfl
  · rw [Section.countsFit, isSome_packVarint_of_le few, counts]
    rfl

/-- What one frame of the guard adds to what its body returns. -/
theorem recursionLimitation_yields {α : Type} {body : Nat → Decoder UInt8 α} {P : α → Prop}
    {need : Nat} (read : ∀ room, Yields (body room) fun a => need ≤ room ∧ P a) :
    ∀ room, Yields (recursionLimitation body room) fun a => need + 1 ≤ room ∧ P a
  | 0 => Yields.failure
  | room + 1 => (read room).mono fun _ holds => ⟨Nat.succ_le_succ holds.1, holds.2⟩

theorem readBytes_yields (count : Nat) :
    ∀ room, Yields (readBytes count room) fun bytes => 1 ≤ room ∧ bytes.length = count :=
  recursionLimitation_yields fun room =>
    (Yields.take count).mono fun _ taken => ⟨Nat.zero_le room, taken⟩

theorem readPod_yields (size : Nat) :
    ∀ room, Yields (readPod size room) fun v => 2 ≤ room ∧ v < 256 ^ size :=
  recursionLimitation_yields fun room =>
    (readBytes_yields size room).map fun bytes read =>
      ⟨read.1, read.2 ▸ Words.leValue_lt bytes⟩

theorem readT_yields (size : Nat) :
    ∀ room, Yields (readT size room) fun v => 3 ≤ room ∧ v < 256 ^ size :=
  recursionLimitation_yields (readPod_yields size)

theorem sizeMarkWidth_le (mark : Nat) : sizeMarkWidth mark ≤ 8 := by
  unfold sizeMarkWidth
  split <;> decide

/-- What lies above the size mark of at most eight bytes is at most `2 ^ 62 - 1`. -/
theorem shiftRight_two_le {v width : Nat} (narrow : width ≤ 8) (fits : v < 256 ^ width) :
    v >>> 2 ≤ 4611686018427387903 := by
  have wide : 256 ^ width ≤ 256 ^ 8 := Nat.pow_le_pow_right (by decide) narrow
  have top : (256 : Nat) ^ 8 = 18446744073709551616 := by norm_num
  rw [Nat.shiftRight_eq_div_pow]
  omega

/-- A varint that `read_varint` reads is one that `pack_varint` writes. -/
theorem readVarint_yields :
    ∀ room, Yields (readVarint room) fun v => 4 ≤ room ∧ v ≤ 4611686018427387903 :=
  recursionLimitation_yields fun room =>
    Yields.always.bind fun _ _ =>
      (readT_yields _ room).bind fun _ read =>
        Yields.pure ⟨read.1, shiftRight_two_le (sizeMarkWidth_le _) read.2⟩

theorem readString_yields :
    ∀ room, Yields (readString room) fun v => 5 ≤ room ∧ v.length < maxStringLenPossible :=
  recursionLimitation_yields fun room =>
    (readVarint_yields room).bind fun len read =>
      Yields.ite fun short => (Yields.take len).mono fun _ taken => ⟨read.1, taken ▸ short⟩

theorem readTString_yields :
    ∀ room, Yields (readTString room) fun v => 6 ≤ room ∧ v.length < maxStringLenPossible :=
  recursionLimitation_yields readString_yields

theorem isSome_packVarint_of_lt_max {n : Nat} (short : n < maxStringLenPossible) :
    (packVarint n).isSome = true :=
  isSome_packVarint_of_le (Nat.le_of_lt (Nat.lt_trans short (by decide)))

theorem readSe_loaded (t : PodType) :
    ∀ room, Yields (readSe t room) (StorageEntry.Loaded (room + 1))
  | 0 => Yields.failure
  | room + 1 => by
    rw [readSe, recursionLimitation]
    refine (readPod_yields t.size room).bind fun _ read => Yields.pure ⟨?_, rfl, rfl, rfl⟩
    rw [StorageEntry.frames]
    omega

theorem readSeString_loaded : ∀ room, Yields (readSeString room) (StorageEntry.Loaded (room + 1))
  | 0 => Yields.failure
  | room + 1 => by
    rw [readSeString, recursionLimitation]
    refine (readTString_yields room).map fun v read =>
      ⟨?_, rfl, decide_eq_true read.2, isSome_packVarint_of_lt_max read.2⟩
    rw [StorageEntry.frames]
    omega

/-- `read_ae`, with the room it has left, on elements of which the read of each says `Q`. -/
theorem readAe_loaded {α : Type} {readValue : Nat → Decoder UInt8 α}
    {make : List α → ArrayEntry} {Q : α → Prop} {room : Nat}
    (values : Yields (readValue room) Q)
    (built : ∀ xs : List α, 4 ≤ room → xs.length ≤ 4611686018427387903 → (∀ x ∈ xs, Q x) →
      (StorageEntry.array (make xs)).Loaded (room + 3)) :
    Yields (readAe readValue make (room + 1)) (StorageEntry.Loaded (room + 3)) :=
  (readVarint_yields room).bind fun size counted =>
    ((Yields.count values size).both (Yields.count_length size)).bind fun xs read =>
      Yields.pure (built xs counted.1 (read.2 ▸ counted.2) read.1)

theorem readAe_pod_loaded (t : PodType) :
    ∀ room, Yields (readAe (readTPod t) (.pod t) room) (StorageEntry.Loaded (room + 2))
  | 0 => Yields.failure
  | room + 1 =>
    readAe_loaded (Q := fun _ => True) Yields.always fun xs four few _ =>
      ⟨by rw [StorageEntry.frames, ArrayEntry.frames]; omega, rfl, rfl,
        isSome_packVarint_of_le few⟩

theorem readAe_string_loaded :
    ∀ room, Yields (readAe readTString .string room) (StorageEntry.Loaded (room + 2))
  | 0 => Yields.failure
  | room + 1 => readAe_loaded (readTString_yields room) fun vs four few each => by
    refine ⟨?_, rfl, List.all_eq_true.mpr fun v mem => decide_eq_true (each v mem).2, ?_⟩
    · rw [StorageEntry.frames, ArrayEntry.frames]
      -- an element that was read needs six calls, two more than the count
      cases vs with
      | nil => rw [if_pos rfl]; omega
      | cons v rest =>
        have := (each v List.mem_cons_self).1
        rw [if_neg (List.cons_ne_nil v rest)]
        omega
    · rw [StorageEntry.countsFit, ArrayEntry.countsFit, isSome_packVarint_of_le few,
        List.all_eq_true.mpr fun v mem => isSome_packVarint_of_lt_max (each v mem).2]
      rfl

/-- `read_ae` of arrays reads none: `read(array_entry&)` throws. -/
theorem readAe_array_loaded :
    ∀ room, Yields (readAe readTArrayEntry .array room) (StorageEntry.Loaded (room + 2))
  | 0 => Yields.failure
  | room + 1 => by
    have refused : Yields (readTArrayEntry room) fun _ => False := by
      intro s a s' ran
      rw [run_readTArrayEntry] at ran
      cases ran
    refine readAe_loaded refused fun vs four _ none => ?_
    rw [List.eq_nil_iff_forall_not_mem.mpr none]
    exact ⟨by rw [StorageEntry.frames, ArrayEntry.frames]; omega, rfl, rfl, rfl⟩

/-- What each function of the reader's recursion returns with `room` calls left. -/
structure ReaderLoaded (room : Nat) : Prop where
  readSection_loaded : Yields (readSection room) (Section.Loaded room)
  loadStorageEntry_loaded : Yields (loadStorageEntry room) (StorageEntry.Loaded room)
  readSeSection_loaded : Yields (readSeSection room) (StorageEntry.Loaded (room + 1))
  readSeArrayEntry_loaded : Yields (readSeArrayEntry room) (StorageEntry.Loaded (room + 1))
  loadStorageArrayEntry_loaded :
    ∀ type, Yields (loadStorageArrayEntry room type) (StorageEntry.Loaded (room + 1))
  readAeSection_loaded : Yields (readAeSection room) (StorageEntry.Loaded (room + 2))
  readTSection_loaded : Yields (readTSection room) fun s => 1 + s.frames ≤ room ∧ s.Loaded room

/-- With no call left, every function of the reader's recursion throws. -/
theorem ReaderLoaded.zero : ReaderLoaded 0 :=
  ⟨Yields.failure, Yields.failure, Yields.failure, Yields.failure, fun _ => Yields.failure,
    Yields.failure, Yields.failure⟩

/-- One call more: each function returns what the functions it calls return with one call
fewer, and a value that needs one call more. -/
theorem ReaderLoaded.succ {room : Nat} (below : ReaderLoaded room) : ReaderLoaded (room + 1) where
  readSection_loaded := by
    rw [readSection_succ]
    refine (readVarint_yields room).bind fun count counted => ?_
    have entry : Yields (readSectionEntry room) fun x => x.2.Loaded room :=
      Yields.always.bind fun _ _ =>
        below.loadStorageEntry_loaded.bind fun _ loaded => Yields.pure loaded
    refine ((Yields.count entry count).both (Yields.count_length count)).bind
      fun xs read => Yields.pure ?_
    -- the map keeps some of the entries read, in increasing order of their names
    have fewer := OrderedMap.length_ofList_le xs
    exact Section.loaded_mk counted.1 (by omega) (OrderedMap.increasing_ofList xs)
      fun x mem => read.1 x (OrderedMap.mem_ofList mem)
  loadStorageEntry_loaded := by
    rw [loadStorageEntry]
    refine Yields.always.bind fun entType _ => ?_
    by_cases flagged : entType &&& serializeFlagArray ≠ 0
    · rw [if_pos flagged]
      exact below.loadStorageArrayEntry_loaded entType
    rw [if_neg flagged]
    -- the type code picks the `read_se` to call
    cases EntryType.ofCode entType with
    | none => exact Yields.failure
    | some code =>
      cases code with
      | pod t => exact readSe_loaded t room
      | string => exact readSeString_loaded room
      | object => exact below.readSeSection_loaded
      | array => exact below.readSeArrayEntry_loaded
  readSeSection_loaded := by
    rw [readSeSection]
    refine below.readSection_loaded.map fun s loaded =>
      ⟨?_, loaded.sorted, loaded.readable, loaded.countsFit⟩
    have := loaded.frames_le
    rw [StorageEntry.frames]
    omega
  readSeArrayEntry_loaded := by
    rw [readSeArrayEntry]
    refine Yields.always.bind fun entType _ => ?_
    by_cases plain : entType &&& serializeFlagArray = 0
    · rw [if_pos plain]
      exact Yields.failure
    · rw [if_neg plain]
      exact (below.loadStorageArrayEntry_loaded entType).mono fun _ loaded =>
        loaded.mono (Nat.le_succ _)
  loadStorageArrayEntry_loaded type := by
    rw [loadStorageArrayEntry]
    -- the type of the elements picks the `read_ae` to call
    cases EntryType.ofCode (type &&& ~~~serializeFlagArray) with
    | none => exact Yields.failure
    | some code =>
      cases code with
      | pod t => exact readAe_pod_loaded t room
      | string => exact readAe_string_loaded room
      | object => exact below.readAeSection_loaded
      | array => exact readAe_array_loaded room
  readAeSection_loaded := by
    rw [readAeSection_eq]
    refine readAe_loaded below.readTSection_loaded fun ss four few each => ?_
    obtain ⟨frames, sorted, readable, counts⟩ := Section.list_loaded each
    refine ⟨?_, sorted, readable, ?_⟩
    · rw [StorageEntry.frames, ArrayEntry.frames]
      omega
    · rw [StorageEntry.countsFit, ArrayEntry.countsFit, isSome_packVarint_of_le few, counts]
      rfl
  readTSection_loaded := by
    rw [readTSection]
    exact below.readSection_loaded.mono fun s loaded =>
      ⟨by have := loaded.frames_le; omega, loaded.mono (Nat.le_succ room)⟩

/-- Whatever the room, each function of the reader's recursion returns a value that needs no
more calls than it had left, by induction on the room. -/
theorem readerLoaded (room : Nat) : ReaderLoaded room := by
  induction room with
  | zero => exact ReaderLoaded.zero
  | succ room below => exact below.succ

/-- What `load_from_binary` returns is read within the 99 calls the reader starts with. -/
theorem loadFromBinary_loaded {bytes : List UInt8} {root : Section}
    (loaded : loadFromBinary bytes = some root) : root.Loaded 99 := by
  rw [loadFromBinary] at loaded
  split_ifs at loaded
  obtain ⟨⟨s, rest⟩, ran, rfl⟩ := Option.map_eq_some_iff.mp loaded
  exact (readerLoaded _).readSection_loaded _ _ _ ran

/-! ## Storing what was loaded -/

/-- Whatever bytes `load_from_binary` takes, `store_to_binary` writes the storage it returns,
and loading that gives the same storage, unless one of its names has 255 bytes; then
`store_to_binary` writes nothing. -/
theorem store_to_binary_of_load_from_binary {bytes : List UInt8} {root : Section}
    (loaded : loadFromBinary bytes = some root) :
    (root.namesFit = true → (storeToBinary root).bind loadFromBinary = some root) ∧
      (root.namesFit = false → storeToBinary root = none) := by
  have fits := loadFromBinary_loaded loaded
  refine ⟨fun names => ?_, fun names => ?_⟩
  · -- every count of what was loaded fits `pack_varint`, so the names decide
    have writes : (packSection root).isSome = true := by
      rw [isSome_packSection, names, fits.countsFit]
      rfl
    obtain ⟨w, packed⟩ := Option.isSome_iff_exists.mp writes
    have read := readSection_packSection root 99 fits.sorted packed
    have stored : storeToBinary root = some (storageBlockHeader ++ w) := by
      rw [storeToBinary, packed]
      rfl
    rw [stored, Option.bind_some, loadFromBinary_header (packSection_ne_nil packed),
      ← List.append_nil w, read.run_of_ok ⟨fits.frames_le, fits.readable⟩]
    rfl
  · have refused : packSection root = none := by
      rw [← Option.not_isSome_iff_eq_none, isSome_packSection, names, Bool.false_and]
      exact Bool.false_ne_true
    rw [storeToBinary, refused]
    rfl

/-- Bytes that another writer may send: the count of entries in two bytes where one would do,
and the name `a` twice, first with a `uint8_t` and then with a string. -/
def relayedStorage : List UInt8 :=
  storageBlockHeader ++ [0x09, 0x00, 0x01, 0x61, 0x08, 0x05, 0x01, 0x61, 0x0a, 0x04, 0x78]

theorem relayed_storage_stores_again :
    loadFromBinary relayedStorage = some (.mk [([0x61], .pod .uint8 5)]) ∧
      (storeToBinary (.mk [([0x61], .pod .uint8 5)])).bind loadFromBinary =
        some (.mk [([0x61], .pod .uint8 5)]) :=
  have loaded : loadFromBinary relayedStorage = some (.mk [([0x61], .pod .uint8 5)]) := rfl
  ⟨loaded, (store_to_binary_of_load_from_binary loaded).1 rfl⟩

-- A name of 255 bytes: `read_sec_name` takes it, and `pack_entry_to_buff` throws on it.
example :
    let bytes := storageBlockHeader ++ [0x04, 0xff] ++ List.replicate 255 0x61 ++ [0x08, 0x05]
    (loadFromBinary bytes).isSome = true ∧ (loadFromBinary bytes).bind storeToBinary = none := by
  decide +kernel

end GraftNetwork.Serialization.PortableStorage

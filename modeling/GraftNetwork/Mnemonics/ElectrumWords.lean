import Mathlib
import GraftNetwork.Lib.Words
import GraftNetwork.Lib.Blocks
import GraftNetwork.Serialization.BinaryArchive

/-!
# Mnemonic seeds

`crypto::ElectrumWords` (`src/src/mnemonics/electrum-words.cpp`) writes a secret key as words of a
list of 1626 words. Each 4 bytes, read as a little-endian `uint32_t`, become three word indices:
the value's digits in base 1626, each after the first offset by the index before it. A last word
repeats the one of the others that a CRC-32 of their unique prefixes picks. Reading a seed back
splits it at spaces, takes the first language of a fixed order that has every word (by its prefix
when the seed carries the checksum word), tests the checksum word and turns each three indices
back into 4 bytes, refusing a triple whose value does not fit in 32 bits.

The word lists are data (each language's header fills `Language::Base::word_list`) and stay a
parameter; a `Language` is a list that `populate_maps` accepted, with the two maps it built, and
`Languages` gives one for each language with the names, prefix length and flags its constructor
passes.

* `utf8prefixOf`, `trimmed`: the first characters of a word, and a word cut to its language's
  prefix length.
* `populateMaps`: the checks and maps of `Language::Base::populate_maps`.
* `encodeTriple`, `decodeTriple`: the three indices of a `uint32_t`, and the value three indices
  give back in `uint32_t` arithmetic.
* `findSeedLanguage`: the first language that has a seed's words and passes its checksum, or the
  last one that had the words only.
* `bytesToWords`, `wordsToBytes` and their `secret_key` overloads.
-/

namespace GraftNetwork.Mnemonics

open GraftNetwork.Serialization (Blob)

/-! ## Splitting a seed into words -/

/-- One character of `epee::wipeable_string::split` (`contrib/epee/src/wipeable_string.cpp`): a
character other than a space after a space starts a new field, and is added to the last field.
The flag is whether the character before was a space. -/
def splitStep (state : List (List UInt8) × Bool) (c : UInt8) : List (List UInt8) × Bool :=
  if c ≠ 32 then
    let fields := if state.2 then state.1 ++ [[]] else state.1
    (fields.modifyLast (· ++ [c]), false)
  else (state.1, true)

/-- `epee::wipeable_string::split`: the words of a string, runs of spaces between them. -/
def split (s : List UInt8) : List (List UInt8) := (s.foldl splitStep ([], true)).1

/-! ## Prefixes -/

/-- A UTF-8 continuation byte, `10xxxxxx`. -/
def isContinuation (c : UInt8) : Bool := c &&& 0xc0 == 0x80

/-- `Language::utf8prefix`: the first `count` characters of `s`, a character being a byte and the
continuation bytes after it. -/
def utf8prefixOf : List UInt8 → Nat → List UInt8
  | [], _ => []
  | _, 0 => []
  | c :: rest, count + 1 =>
    c :: (rest.takeWhile isContinuation ++ utf8prefixOf (rest.dropWhile isContinuation) count)

/-- A word cut to `uniquePrefixLength` characters if it has more bytes than that, as
`populate_maps`, `create_checksum_index` and `checksum_test` cut it. -/
def trimmed (uniquePrefixLength : Nat) (word : List UInt8) : List UInt8 :=
  if word.length > uniquePrefixLength then utf8prefixOf word uniquePrefixLength else word

/-! ## The checksum word -/

/-- One byte into the reflected CRC-32 register with polynomial `0xEDB88320`, a bit at a time;
`boost::crc_32_type` computes the same register with a table. -/
def crc32Byte (crc : UInt32) (byte : UInt8) : UInt32 :=
  (List.range 8).foldl (fun c _ => if c &&& 1 = 1 then c >>> 1 ^^^ 0xEDB88320 else c >>> 1)
    (crc ^^^ byte.toUInt32)

/-- `boost::crc_32_type`: `process_bytes` from `0xFFFFFFFF`, then `checksum()`, the register with
its bits flipped. -/
def crc32 (bytes : List UInt8) : UInt32 := bytes.foldl crc32Byte 0xFFFFFFFF ^^^ 0xFFFFFFFF

/-- The check value of CRC-32, the CRC of the ASCII digits `123456789`. -/
example : crc32 [0x31, 0x32, 0x33, 0x34, 0x35, 0x36, 0x37, 0x38, 0x39] = 0xCBF43926 := by
  decide +kernel

/-- `crypto::ElectrumWords::seed_length`. -/
def seedLength : Nat := 24

/-- `create_checksum_index`: the CRC-32 of the words cut to their prefixes, end to end, modulo
`seed_length`. -/
def createChecksumIndex (wordList : List (List UInt8)) (uniquePrefixLength : Nat) : Nat :=
  (crc32 (wordList.flatMap (trimmed uniquePrefixLength))).toNat % seedLength

/-- `checksum_test`: the last word of the seed has the prefix of the word that the checksum of
the others picks. A seed shorter than that word's index reads an empty word there, where the
source would read past the end of the vector. -/
def checksumTest (seed : List (List UInt8)) (uniquePrefixLength : Nat) : Bool :=
  match seed.getLast? with
  | none => false
  | some lastWord =>
    let seed := seed.dropLast
    let checksum := seed.getD (createChecksumIndex seed uniquePrefixLength) []
    trimmed uniquePrefixLength checksum == trimmed uniquePrefixLength lastWord

/-! ## Languages -/

/-- What `Language::Base` is constructed with. -/
structure LanguageData where
  languageName : String
  englishLanguageName : String
  wordList : List (List UInt8)
  uniquePrefixLength : Nat

/-- `Language::Base::NWORDS`. -/
def NWORDS : Nat := 1626

/-- The flags of `populate_maps`. -/
def ALLOW_SHORT_WORDS : Nat := 1
def ALLOW_DUPLICATE_PREFIXES : Nat := 2

/-- `word_map` and `trimmed_word_map`: a word, and a word's prefix, to its index. -/
structure WordMaps where
  wordMap : List UInt8 → Option UInt32
  trimmedWordMap : List UInt8 → Option UInt32

/-- The bytes of a message. -/
def text (s : String) : List UInt8 := s.toUTF8.toList

/-- One word of `populate_maps`, at index `ii`: the word's entry, the short-word check, the
duplicate-prefix check and the prefix's entry. A later word of the same key overwrites the
index. -/
def populateStep (flags : Nat) (lang : LanguageData) (maps : WordMaps) (word : List UInt8)
    (ii : Nat) : Except (List UInt8) WordMaps :=
  let wordMap := fun w => if w = word then some (UInt32.ofNat ii) else maps.wordMap w
  if word.length < lang.uniquePrefixLength ∧ flags &&& ALLOW_SHORT_WORDS = 0 then
    .error (text ("Too short word in " ++ lang.languageName ++ " word list: ") ++ word)
  else
    let t := trimmed lang.uniquePrefixLength word
    if (maps.trimmedWordMap t).isSome ∧ flags &&& ALLOW_DUPLICATE_PREFIXES = 0 then
      .error (text ("Duplicate prefix in " ++ lang.languageName ++ " word list: ") ++ t)
    else .ok ⟨wordMap, fun w => if w = t then some (UInt32.ofNat ii) else maps.trimmedWordMap w⟩

/-- The loop of `populate_maps` over the words from index `ii` on. -/
def populateLoop (flags : Nat) (lang : LanguageData) :
    List (List UInt8) → Nat → WordMaps → Except (List UInt8) WordMaps
  | [], _, maps => .ok maps
  | word :: rest, ii, maps =>
    match populateStep flags lang maps word ii with
    | .error e => .error e
    | .ok maps => populateLoop flags lang rest (ii + 1) maps

/-- `Language::Base::populate_maps`: the maps of a list of `NWORDS` words, or the message it
throws. -/
def populateMaps (flags : Nat) (lang : LanguageData) : Except (List UInt8) WordMaps :=
  if lang.wordList.length ≠ NWORDS then
    .error (text ("Wrong word list length for " ++ lang.languageName))
  else populateLoop flags lang lang.wordList 0 ⟨fun _ => none, fun _ => none⟩

/-- A language after its constructor and `populate_maps`: a list that did not throw, and the
maps built from it. -/
structure Language extends LanguageData where
  flags : Nat
  maps : WordMaps
  populated : populateMaps flags toLanguageData = .ok maps

/-- The languages of `src/src/mnemonics`, one class each. -/
inductive LanguageId
  | chineseSimplified | english | dutch | french | spanish | german | italian | portuguese
  | japanese | russian | esperanto | lojban | englishOld
  deriving DecidableEq, Repr

/-- The names and prefix lengths each class passes to `Language::Base`, and the flags it passes
to `populate_maps`. -/
def LanguageId.languageName : LanguageId → String
  | .chineseSimplified => "简体中文 (中国)" | .english => "English" | .dutch => "Nederlands"
  | .french => "Français" | .spanish => "Español" | .german => "Deutsch"
  | .italian => "Italiano" | .portuguese => "Português" | .japanese => "日本語"
  | .russian => "русский язык" | .esperanto => "Esperanto" | .lojban => "Lojban"
  | .englishOld => "EnglishOld"

def LanguageId.englishLanguageName : LanguageId → String
  | .chineseSimplified => "Chinese (simplified)" | .english => "English" | .dutch => "Dutch"
  | .french => "French" | .spanish => "Spanish" | .german => "German" | .italian => "Italian"
  | .portuguese => "Portuguese" | .japanese => "Japanese" | .russian => "Russian"
  | .esperanto => "Esperanto" | .lojban => "Lojban" | .englishOld => "English (old)"

def LanguageId.uniquePrefixLength : LanguageId → Nat
  | .chineseSimplified => 1
  | .english | .japanese => 3
  | _ => 4

def LanguageId.flags : LanguageId → Nat
  | .spanish => ALLOW_SHORT_WORDS
  | .englishOld => ALLOW_DUPLICATE_PREFIXES ||| ALLOW_SHORT_WORDS
  | _ => 0

/-- The `Language::Singleton` instances: a populated word list for each language, under the
names, prefix length and flags of its class. -/
structure Languages where
  table : LanguageId → Language
  constructed : ∀ id, (table id).languageName = id.languageName ∧
    (table id).englishLanguageName = id.englishLanguageName ∧
    (table id).uniquePrefixLength = id.uniquePrefixLength ∧ (table id).flags = id.flags

/-- The `language_instances` of `find_seed_language`, in the order they are tried. -/
def seedLanguageOrder : List LanguageId :=
  [.chineseSimplified, .english, .dutch, .french, .spanish, .german, .italian, .portuguese,
    .japanese, .russian, .esperanto, .lojban, .englishOld]

/-- `crypto::ElectrumWords::get_language_list()`. -/
def languageList : List LanguageId :=
  [.german, .english, .spanish, .french, .italian, .dutch, .portuguese, .russian, .japanese,
    .chineseSimplified, .esperanto, .lojban]

/-- The word at an index of a language's list. -/
def Language.word (language : Language) (i : UInt32) : List UInt8 :=
  language.wordList.getD i.toNat []

/-! ## Finding a seed's language -/

/-- The indices of a seed's words in one language, by prefix when the seed has its checksum word;
`none` at the first word the language does not have. -/
def matchIndices (seed : List (List UInt8)) (hasChecksum : Bool) (language : Language) :
    Option (List UInt32) :=
  seed.mapM fun word =>
    if hasChecksum then language.maps.trimmedWordMap (utf8prefixOf word language.uniquePrefixLength)
    else language.maps.wordMap word

/-- The loop of `find_seed_language` over the languages left, with the fallback so far: the first
language that has every word and passes the checksum test, or else the last one that had every
word, with the indices cleared. -/
def findSeedLanguageLoop (seed : List (List UInt8)) (hasChecksum : Bool) :
    List Language → Option Language → Option (Language × List UInt32)
  | [], fallback => fallback.map fun language => (language, [])
  | language :: rest, fallback =>
    match matchIndices seed hasChecksum language with
    | none => findSeedLanguageLoop seed hasChecksum rest fallback
    | some matchedIndices =>
      if hasChecksum && !checksumTest seed language.uniquePrefixLength then
        findSeedLanguageLoop seed hasChecksum rest (some language)
      else some (language, matchedIndices)

/-- `find_seed_language`. -/
def findSeedLanguage (langs : Languages) (seed : List (List UInt8)) (hasChecksum : Bool) :
    Option (Language × List UInt32) :=
  findSeedLanguageLoop seed hasChecksum (seedLanguageOrder.map langs.table) none

/-! ## Three words for four bytes -/

/-- The three word indices `bytes_to_words` gives a `uint32_t`: its digits in base `n`, each
after the first offset by the index before it. -/
def encodeTriple (n w0 : UInt32) : UInt32 × UInt32 × UInt32 :=
  let w1 := w0 % n
  let w2 := (w0 / n + w1) % n
  let w3 := (w0 / n / n + w2) % n
  (w1, w2, w3)

/-- The value `words_to_bytes` rebuilds from three word indices, in `uint32_t` arithmetic. -/
def decodeTriple (n w1 w2 w3 : UInt32) : UInt32 :=
  w1 + n * ((n - w1 + w2) % n) + n * n * ((n - w2 + w3) % n)

/-- `*(const uint32_t*)(src + i * 4)` on a little-endian machine, where `SWAP32LE` is the
identity. -/
def le32 (bytes : List UInt8) : UInt32 := UInt32.ofNat (Words.leValue bytes)

/-- `dst.append((const char*)&w[0], 4)`: the bytes of a `uint32_t`, lowest first. -/
def le4 (w : UInt32) : List UInt8 :=
  [w.toUInt8, (w >>> 8).toUInt8, (w >>> 16).toUInt8, (w >>> 24).toUInt8]

/-- The loop of `words_to_bytes` over the matched indices, three at a time: `none` at the first
triple whose value does not give back its first index ("mumble mumble"). -/
def decodeIndices (n : UInt32) : List UInt32 → Option (List UInt8)
  | w1 :: w2 :: w3 :: rest =>
    let w0 := decodeTriple n w1 w2 w3
    if w0 % n ≠ w1 then none else (le4 w0 ++ ·) <$> decodeIndices n rest
  | _ => some []

/-! ## Words to bytes -/

/-- The length checks of `words_to_bytes`: whether the seed has its checksum word, or the message
for a wrong length. -/
def seedHasChecksum (seed : List (List UInt8)) (len : Nat) : Except String Bool :=
  if len % 4 ≠ 0 then .error "Invalid seed: not a multiple of 4"
  else if len = 0 then .ok true
  else
    let expected := len * 8 * 3 / 32
    if seed.length ≠ expected / 2 ∧ seed.length ≠ expected ∧ seed.length ≠ expected + 1 then
      .error "Invalid seed: unexpected number of words"
    else .ok (seed.length == expected + 1)

/-- `dst += ' '; dst += dst; dst.pop_back()`. -/
def duplicateSeed (dst : List UInt8) : List UInt8 :=
  let dst := dst ++ [32]
  (dst ++ dst).dropLast

/-- `words_to_bytes`: the bytes of a seed appended to `dst`, and the name of its language. -/
def wordsToBytes (langs : Languages) (words dst : List UInt8) (len : Nat) (duplicate : Bool) :
    Except String (List UInt8 × String) :=
  let seed := split words
  match seedHasChecksum seed len with
  | .error e => .error e
  | .ok hasChecksum =>
    match findSeedLanguage langs seed hasChecksum with
    | none => .error "Invalid seed: language not found"
    | some (language, matchedIndices) =>
      if hasChecksum && !checksumTest seed language.uniquePrefixLength then
        .error "Invalid seed: invalid checksum"
      else
        let seed := if hasChecksum then seed.dropLast else seed
        match decodeIndices (UInt32.ofNat language.wordList.length)
            (matchedIndices.take (seed.length / 3 * 3)) with
        | none => .error "Invalid seed: mumble mumble"
        | some bytes =>
          let dst := dst ++ bytes
          .ok (if len > 0 && duplicate && seed.length == len * 3 / 32 / 2 then duplicateSeed dst
            else dst, language.languageName)

/-- `words_to_bytes` into a `crypto::secret_key`. -/
def wordsToBytesSecretKey (langs : Languages) (words : List UInt8) :
    Except String (Blob 32 × String) :=
  match wordsToBytes langs words [] 32 true with
  | .error _ => .error "Invalid seed: failed to convert words to bytes"
  | .ok (s, languageName) =>
    if size : s.length = 32 then .ok (⟨s, size⟩, languageName)
    else .error "Invalid seed: wrong output size"

/-! ## Bytes to words -/

/-- The language `bytes_to_words` writes in: the last one of the list with the name asked for,
in the language or in English. -/
def lookupLanguage (languages : List Language) (languageName : String) : Option Language :=
  languages.foldl (fun found l =>
    if languageName = l.languageName ∨ languageName = l.englishLanguageName then some l
    else found) none

/-- The loop of `bytes_to_words` over each 4 bytes: the text it appends, each word followed by a
space, and `words_store`. -/
def bytesToWordsLoop (wordList : List (List UInt8)) (n : UInt32) :
    List UInt8 → List UInt8 × List (List UInt8)
  | b0 :: b1 :: b2 :: b3 :: rest =>
    let (w1, w2, w3) := encodeTriple n (le32 [b0, b1, b2, b3])
    let word1 := wordList.getD w1.toNat []
    let word2 := wordList.getD w2.toNat []
    let word3 := wordList.getD w3.toNat []
    let (words, wordsStore) := bytesToWordsLoop wordList n rest
    (word1 ++ [32] ++ word2 ++ [32] ++ word3 ++ [32] ++ words, word1 :: word2 :: word3 :: wordsStore)
  | _ => ([], [])

/-- `bytes_to_words`: `words` with the seed of `src` appended, or `none` for a length that is not
a positive multiple of 4 or a name of no language. The checksum word is `words_store` at the
checksum index; a source shorter than 32 bytes can have fewer words than that index, where the
source reads past the vector and the model an empty word. -/
def bytesToWords (langs : Languages) (src words : List UInt8) (languageName : String) :
    Option (List UInt8) :=
  if src.length % 4 ≠ 0 ∨ src.length = 0 then none
  else
    match lookupLanguage (languageList.map langs.table) languageName with
    | none => none
    | some language =>
      let (text, wordsStore) :=
        bytesToWordsLoop language.wordList (UInt32.ofNat language.wordList.length) src
      some (words ++ text ++
        wordsStore.getD (createChecksumIndex wordsStore language.uniquePrefixLength) [])

/-- `bytes_to_words` of a `crypto::secret_key`. -/
def bytesToWordsSecretKey (langs : Languages) (src : Blob 32) (words : List UInt8)
    (languageName : String) : Option (List UInt8) :=
  bytesToWords langs src.bytes words languageName

/-! ## Splitting words joined by spaces -/

section Split

variable (fields : List (List UInt8))

theorem splitStep_start {c : UInt8} (notSpace : c ≠ 32) :
    splitStep (fields, true) c = (fields ++ [[c]], false) := by
  simp [splitStep, notSpace, List.modifyLast_concat]

theorem splitStep_extend (word : List UInt8) {c : UInt8} (notSpace : c ≠ 32) :
    splitStep (fields ++ [word], false) c = (fields ++ [word ++ [c]], false) := by
  simp [splitStep, notSpace, List.modifyLast_concat]

theorem splitStep_space (space : Bool) : splitStep (fields, space) 32 = (fields, true) := by
  simp [splitStep]

/-- The characters of a word after its first extend the last field. -/
theorem foldl_splitStep_extend (word : List UInt8) :
    ∀ {rest : List UInt8}, 32 ∉ rest →
      rest.foldl splitStep (fields ++ [word], false) = (fields ++ [word ++ rest], false)
  | [], _ => by simp
  | c :: rest, spaceless => by
    rw [List.mem_cons, not_or] at spaceless
    rw [List.foldl_cons, splitStep_extend fields word (Ne.symm spaceless.1),
      foldl_splitStep_extend (word ++ [c]) spaceless.2, List.append_assoc, List.singleton_append]

/-- A word read after a space is one more field. -/
theorem foldl_splitStep_word {word : List UInt8} (nonempty : word ≠ []) (spaceless : 32 ∉ word) :
    word.foldl splitStep (fields, true) = (fields ++ [word], false) := by
  obtain ⟨c, rest, rfl⟩ := List.exists_cons_of_ne_nil nonempty
  rw [List.mem_cons, not_or] at spaceless
  rw [List.foldl_cons, splitStep_start fields (Ne.symm spaceless.1),
    foldl_splitStep_extend fields [c] spaceless.2, List.singleton_append]

end Split

/-- Words that are not empty and have no space, joined by single spaces, are the fields read after
them; the flag is whether there were none. -/
theorem foldl_splitStep_intercalate :
    ∀ {words : List (List UInt8)}, (∀ w ∈ words, w ≠ [] ∧ 32 ∉ w) → ∀ fields,
      ([32].intercalate words).foldl splitStep (fields, true) = (fields ++ words, words.isEmpty)
  | [], _, fields => by simp
  | [w], each, fields => by
    obtain ⟨nonempty, spaceless⟩ := each w List.mem_cons_self
    simp [foldl_splitStep_word fields nonempty spaceless]
  | w :: w' :: rest, each, fields => by
    obtain ⟨nonempty, spaceless⟩ := each w List.mem_cons_self
    have others : ∀ v ∈ w' :: rest, v ≠ [] ∧ 32 ∉ v := fun v mem => each v (List.mem_cons_of_mem w mem)
    rw [List.intercalate_cons_cons, List.foldl_append, List.foldl_append,
      foldl_splitStep_word fields nonempty spaceless, List.foldl_cons, List.foldl_nil,
      splitStep_space, foldl_splitStep_intercalate others]
    simp

theorem split_intercalate (words : List (List UInt8)) (each : ∀ w ∈ words, w ≠ [] ∧ 32 ∉ w) :
    split ([32].intercalate words) = words := by
  rw [split, foldl_splitStep_intercalate each, List.nil_append]

/-- The text `bytes_to_words` appends, each word followed by a space, then the checksum word, is
the words joined by spaces. -/
theorem flatMap_append_space (words : List (List UInt8)) (last : List UInt8) :
    words.flatMap (· ++ [32]) ++ last = [32].intercalate (words ++ [last]) := by
  induction words with
  | nil => simp
  | cons w rest ih =>
    cases rest with
    | nil => simp
    | cons w' rest =>
      rw [List.flatMap_cons, List.append_assoc, ih]
      simp only [List.cons_append]
      rw [List.intercalate_cons_cons]

/-! ## Prefixes -/

/-- A word of at most `count` bytes has at most `count` characters: its prefix is all of it. -/
theorem utf8prefixOf_of_length_le : ∀ {s : List UInt8} {count : Nat}, s.length ≤ count →
    utf8prefixOf s count = s
  | [], _, _ => by cases ‹Nat› <;> rfl
  | _ :: _, 0, short => absurd short (by simp)
  | c :: rest, count + 1, short => by
    have fits : (rest.dropWhile isContinuation).length ≤ count :=
      Nat.le_trans (List.length_dropWhile_le _ _) (by simpa using short)
    rw [utf8prefixOf, utf8prefixOf_of_length_le fits, List.takeWhile_append_dropWhile]

/-- The lookup key of `find_seed_language` is the key `populate_maps` stores. -/
theorem utf8prefixOf_eq_trimmed (p : Nat) (word : List UInt8) :
    utf8prefixOf word p = trimmed p word := by
  unfold trimmed
  split
  · rfl
  · exact utf8prefixOf_of_length_le (by omega)

/-! ## What `populate_maps` builds -/

/-- What the maps of `populate_maps` find once it has gone through the words `done`: an entry is
the index of a word of `done` with that key, every word of `done` has an entry, and without
`ALLOW_DUPLICATE_PREFIXES` no two words of `done` share a prefix. -/
structure MapsInv (flags p : Nat) (done : List (List UInt8)) (maps : WordMaps) : Prop where
  wordMap_sound : ∀ w i, maps.wordMap w = some i → ∃ h : i.toNat < done.length, done[i.toNat] = w
  wordMap_complete : ∀ w ∈ done, (maps.wordMap w).isSome
  trimmed_sound : ∀ t i, maps.trimmedWordMap t = some i →
    ∃ h : i.toNat < done.length, trimmed p done[i.toNat] = t
  trimmed_complete : ∀ w ∈ done, (maps.trimmedWordMap (trimmed p w)).isSome
  distinct : flags &&& ALLOW_DUPLICATE_PREFIXES = 0 → (done.map (trimmed p)).Nodup

section Populate

variable {flags : Nat} {lang : LanguageData}

theorem mapsInv_nil : MapsInv flags p [] ⟨fun _ => none, fun _ => none⟩ where
  wordMap_sound := by simp
  wordMap_complete := by simp
  trimmed_sound := by simp
  trimmed_complete := by simp
  distinct := by simp

/-- One word of `populate_maps`, when it does not throw: both checks passed, and both maps point
the word's keys at its index. -/
theorem populateStep_eq_ok {maps maps' : WordMaps} {word : List UInt8} {ii : Nat} :
    populateStep flags lang maps word ii = .ok maps' ↔
      ¬(word.length < lang.uniquePrefixLength ∧ flags &&& ALLOW_SHORT_WORDS = 0) ∧
      ¬((maps.trimmedWordMap (trimmed lang.uniquePrefixLength word)).isSome ∧
        flags &&& ALLOW_DUPLICATE_PREFIXES = 0) ∧
      maps' = ⟨fun w => if w = word then some (UInt32.ofNat ii) else maps.wordMap w,
        fun w => if w = trimmed lang.uniquePrefixLength word then some (UInt32.ofNat ii)
          else maps.trimmedWordMap w⟩ := by
  unfold populateStep
  split
  · next short => simp [short]
  · next long =>
    dsimp only
    split
    · next duplicate => simp [duplicate]
    · next fresh =>
      rw [Except.ok.injEq]
      simp only [long, fresh, not_false_eq_true, true_and]
      exact eq_comm

/-- An entry set at the index of the next word reads back as that word's index. -/
theorem toNat_ofNat_length {done : List (List UInt8)} (fits : done.length < 2 ^ 32) :
    (UInt32.ofNat done.length).toNat = done.length :=
  UInt32.toNat_ofNat_of_lt' fits

theorem populateStep_inv {maps maps' : WordMaps} {done : List (List UInt8)} {word : List UInt8}
    (step : populateStep flags lang maps word done.length = .ok maps')
    (inv : MapsInv flags lang.uniquePrefixLength done maps) (fits : done.length < 2 ^ 32) :
    MapsInv flags lang.uniquePrefixLength (done ++ [word]) maps' := by
  obtain ⟨-, fresh, rfl⟩ := populateStep_eq_ok.mp step
  have index := toNat_ofNat_length fits
  constructor
  · intro w i found
    by_cases same : w = word
    · simp only [same, if_true, Option.some.injEq] at found
      subst found
      exact ⟨by simp [index], by simp [index, same]⟩
    · simp only [same, if_false] at found
      obtain ⟨below, at_i⟩ := inv.wordMap_sound w i found
      exact ⟨by simp; omega, by rw [List.getElem_append_left below]; exact at_i⟩
  · intro w mem
    by_cases same : w = word
    · simp [same]
    · have old : w ∈ done := by simpa [same] using mem
      simpa [same] using inv.wordMap_complete w old
  · intro t i found
    by_cases same : t = trimmed lang.uniquePrefixLength word
    · simp only [same, if_true, Option.some.injEq] at found
      subst found
      exact ⟨by simp [index], by simp [index, same]⟩
    · simp only [same, if_false] at found
      obtain ⟨below, at_i⟩ := inv.trimmed_sound t i found
      exact ⟨by simp; omega, by rw [List.getElem_append_left below]; exact at_i⟩
  · intro w mem
    by_cases same : trimmed lang.uniquePrefixLength w = trimmed lang.uniquePrefixLength word
    · simp [same]
    · have old : w ∈ done := by
        rcases List.mem_append.mp mem with old | last
        · exact old
        · exact absurd (by simpa using last) (fun eq : w = word => same (eq ▸ rfl))
      simpa [same] using inv.trimmed_complete w old
  · intro unique
    -- the duplicate check passed, so no earlier word has this word's prefix
    have unused : (maps.trimmedWordMap (trimmed lang.uniquePrefixLength word)).isSome = false := by
      simpa [unique] using fresh
    rw [List.map_append, List.map_singleton, List.nodup_append]
    refine ⟨inv.distinct unique, List.nodup_singleton _, ?_⟩
    intro a inDone b isLast
    obtain ⟨w, mem, rfl⟩ := List.mem_map.mp inDone
    rw [List.mem_singleton] at isLast
    intro same
    have := inv.trimmed_complete w mem
    rw [same, isLast, unused] at this
    exact Bool.false_ne_true this

/-- The loop of `populate_maps` keeps `MapsInv` over the words it goes through. -/
theorem populateLoop_inv : ∀ {rest : List (List UInt8)} (done : List (List UInt8)) {maps final : WordMaps},
    populateLoop flags lang rest done.length maps = .ok final →
    MapsInv flags lang.uniquePrefixLength done maps → (done ++ rest).length < 2 ^ 32 →
    MapsInv flags lang.uniquePrefixLength (done ++ rest) final
  | [], done, maps, final, built, inv, _ => by
    rw [populateLoop, Except.ok.injEq] at built
    rw [List.append_nil, ← built]
    exact inv
  | word :: rest, done, maps, final, built, inv, fits => by
    rw [populateLoop] at built
    split at built
    · cases built
    · next maps' step =>
      have short : done.length < 2 ^ 32 := by simp at fits; omega
      have next := populateStep_inv step inv short
      have length : (done ++ [word]).length = done.length + 1 := by simp
      rw [← length] at built
      have whole := populateLoop_inv (done ++ [word]) built next (by simpa using fits)
      simpa using whole

/-- `populate_maps` throws nothing on a list of `NWORDS` words of at least the prefix length whose
prefixes are all different. -/
theorem populateLoop_ok : ∀ (rest : List (List UInt8)) {done : List (List UInt8)} {maps : WordMaps},
    MapsInv flags lang.uniquePrefixLength done maps → (done ++ rest).length < 2 ^ 32 →
    (∀ w ∈ rest, lang.uniquePrefixLength ≤ w.length) →
    ((done ++ rest).map (trimmed lang.uniquePrefixLength)).Nodup →
    ∃ final, populateLoop flags lang rest done.length maps = .ok final
  | [], _, maps, _, _, _, _ => ⟨maps, rfl⟩
  | word :: rest, done, maps, inv, fits, long, unique => by
    -- the prefix of `word` is new: an entry for it would be the prefix of a word of `done`
    have fresh : (maps.trimmedWordMap (trimmed lang.uniquePrefixLength word)).isSome = false := by
      cases found : maps.trimmedWordMap (trimmed lang.uniquePrefixLength word) with
      | none => rfl
      | some i =>
        obtain ⟨below, same⟩ := inv.trimmed_sound _ i found
        have apart := (List.nodup_append.mp (List.map_append ▸ unique)).2.2
        exact absurd same (apart _ (List.mem_map_of_mem (List.getElem_mem below)) _
          (List.mem_map_of_mem List.mem_cons_self))
    have step : populateStep flags lang maps word done.length = .ok _ :=
      populateStep_eq_ok.mpr ⟨fun short => by
        have := long word List.mem_cons_self
        omega, by simp [fresh], rfl⟩
    have short : done.length < 2 ^ 32 := by simp at fits; omega
    have next := populateStep_inv step inv short
    have length : (done ++ [word]).length = done.length + 1 := by simp
    obtain ⟨final, built⟩ := populateLoop_ok rest next (by simpa using fits)
      (fun w mem => long w (List.mem_cons_of_mem word mem)) (by simpa using unique)
    rw [length] at built
    exact ⟨final, by rw [populateLoop, step]; exact built⟩

theorem populateMaps_inv {maps : WordMaps} (built : populateMaps flags lang = .ok maps) :
    lang.wordList.length = NWORDS ∧ MapsInv flags lang.uniquePrefixLength lang.wordList maps := by
  unfold populateMaps at built
  split at built
  · cases built
  · next sized =>
    have whole := populateLoop_inv [] built mapsInv_nil
      (by simp at sized; simp [sized, NWORDS])
    exact ⟨by simpa using sized, by simpa using whole⟩

theorem populateMaps_ok (sized : lang.wordList.length = NWORDS)
    (long : ∀ w ∈ lang.wordList, lang.uniquePrefixLength ≤ w.length)
    (unique : (lang.wordList.map (trimmed lang.uniquePrefixLength)).Nodup) :
    ∃ maps, populateMaps flags lang = .ok maps := by
  obtain ⟨maps, built⟩ := populateLoop_ok lang.wordList
    (mapsInv_nil : MapsInv flags lang.uniquePrefixLength [] _) (by simp [sized, NWORDS]) long
    (by simpa using unique)
  exact ⟨maps, by rw [populateMaps, if_neg (by simp [sized])]; exact built⟩

end Populate

/-! ## Looking words up in a language -/

namespace Language

variable (language : Language)

theorem length_wordList : language.wordList.length = NWORDS :=
  (populateMaps_inv language.populated).1

theorem mapsInv : MapsInv language.flags language.uniquePrefixLength language.wordList language.maps :=
  (populateMaps_inv language.populated).2

/-- A language without duplicate prefixes: every language but `EnglishOld`. -/
def Unique : Prop := language.flags &&& ALLOW_DUPLICATE_PREFIXES = 0

variable {language}

theorem word_of_wordMap {w : List UInt8} {i : UInt32} (found : language.maps.wordMap w = some i) :
    i.toNat < NWORDS ∧ language.word i = w := by
  obtain ⟨below, at_i⟩ := language.mapsInv.wordMap_sound w i found
  exact ⟨language.length_wordList ▸ below, by rw [word, List.getD_eq_getElem _ _ below, at_i]⟩

theorem word_of_trimmedWordMap {t : List UInt8} {i : UInt32}
    (found : language.maps.trimmedWordMap t = some i) :
    i.toNat < NWORDS ∧ trimmed language.uniquePrefixLength (language.word i) = t := by
  obtain ⟨below, at_i⟩ := language.mapsInv.trimmed_sound t i found
  exact ⟨language.length_wordList ▸ below, by rw [word, List.getD_eq_getElem _ _ below, at_i]⟩

/-- In a language without duplicate prefixes two indices of words with one prefix are one. -/
theorem eq_of_trimmed_word_eq (unique : language.Unique) {i j : UInt32} (hi : i.toNat < NWORDS)
    (hj : j.toNat < NWORDS)
    (same : trimmed language.uniquePrefixLength (language.word i) =
      trimmed language.uniquePrefixLength (language.word j)) : i = j := by
  have sized := language.length_wordList
  have distinct := language.mapsInv.distinct unique
  rw [word, word, List.getD_eq_getElem _ _ (sized ▸ hi), List.getD_eq_getElem _ _ (sized ▸ hj)]
    at same
  have inI : i.toNat < (language.wordList.map (trimmed language.uniquePrefixLength)).length := by
    simp [sized, hi]
  have inJ : j.toNat < (language.wordList.map (trimmed language.uniquePrefixLength)).length := by
    simp [sized, hj]
  have indices := (@List.Nodup.getElem_inj_iff _ _ distinct i.toNat inI j.toNat inJ).mp
    (by simpa only [List.getElem_map] using same)
  exact UInt32.toNat_inj.mp indices

theorem trimmedWordMap_word (unique : language.Unique) {i : UInt32} (below : i.toNat < NWORDS) :
    language.maps.trimmedWordMap (trimmed language.uniquePrefixLength (language.word i)) = some i := by
  have listed : language.word i ∈ language.wordList := by
    rw [word, List.getD_eq_getElem _ _ (language.length_wordList ▸ below)]
    exact List.getElem_mem _
  obtain ⟨j, found⟩ := Option.isSome_iff_exists.mp
    (language.mapsInv.trimmed_complete _ listed)
  obtain ⟨hj, same⟩ := word_of_trimmedWordMap found
  rw [found, eq_of_trimmed_word_eq unique hj below same]

theorem wordMap_word (unique : language.Unique) {i : UInt32} (below : i.toNat < NWORDS) :
    language.maps.wordMap (language.word i) = some i := by
  have listed : language.word i ∈ language.wordList := by
    rw [word, List.getD_eq_getElem _ _ (language.length_wordList ▸ below)]
    exact List.getElem_mem _
  obtain ⟨j, found⟩ := Option.isSome_iff_exists.mp (language.mapsInv.wordMap_complete _ listed)
  obtain ⟨hj, same⟩ := word_of_wordMap found
  rw [found, eq_of_trimmed_word_eq unique hj below (by rw [same])]

end Language

/-! ## Three words for four bytes, and back -/

/-- `n - a + b` modulo `n` for an index `a`, with `b` offset by `a`: the offset undone. -/
theorem offset_mod {a b : Nat} (ha : a < 1626) : (1626 - a + (b + a) % 1626) % 1626 = b % 1626 := by
  omega

theorem toNat_offset {a b : UInt32} (ha : a.toNat < 1626) (hb : b.toNat < 1626) :
    ((1626 - a + b) % 1626 : UInt32).toNat = (1626 - a.toNat + b.toNat) % 1626 := by
  rw [UInt32.toNat_mod, UInt32.toNat_add, UInt32.toNat_sub]
  simp only [UInt32.reduceToNat]
  omega

/-- The value of three indices: their digits exactly, wrapped to 32 bits. -/
theorem toNat_decodeTriple {w1 w2 w3 : UInt32} (h1 : w1.toNat < 1626) (h2 : w2.toNat < 1626)
    (h3 : w3.toNat < 1626) :
    (decodeTriple 1626 w1 w2 w3).toNat = (w1.toNat + 1626 * ((1626 - w1.toNat + w2.toNat) % 1626) +
      2643876 * ((1626 - w2.toNat + w3.toNat) % 1626)) % 2 ^ 32 := by
  have digit1 := toNat_offset h1 h2
  have digit2 := toNat_offset h2 h3
  simp only [decodeTriple, UInt32.toNat_add, UInt32.toNat_mul, digit1, digit2, UInt32.reduceToNat,
    UInt32.reduceMul]
  omega

theorem toNat_encodeTriple (w0 : UInt32) :
    (encodeTriple 1626 w0).1.toNat = w0.toNat % 1626 ∧
    (encodeTriple 1626 w0).2.1.toNat = (w0.toNat / 1626 + w0.toNat % 1626) % 1626 ∧
    (encodeTriple 1626 w0).2.2.toNat =
      (w0.toNat / 1626 / 1626 + (w0.toNat / 1626 + w0.toNat % 1626) % 1626) % 1626 := by
  have := w0.toNat_lt
  have low : w0.toNat / 1626 + w0.toNat % 1626 < 2 ^ 32 := by omega
  have high : w0.toNat / 1626 / 1626 + (w0.toNat / 1626 + w0.toNat % 1626) % 1626 < 2 ^ 32 := by
    omega
  simp only [encodeTriple, UInt32.toNat_add, UInt32.toNat_mod, UInt32.toNat_div, UInt32.reduceToNat,
    Nat.mod_eq_of_lt low, Nat.mod_eq_of_lt high, and_self]

theorem encodeTriple_lt (w0 : UInt32) :
    (encodeTriple 1626 w0).1.toNat < 1626 ∧ (encodeTriple 1626 w0).2.1.toNat < 1626 ∧
      (encodeTriple 1626 w0).2.2.toNat < 1626 := by
  obtain ⟨e1, e2, e3⟩ := toNat_encodeTriple w0
  omega

/-- A number below `2 ^ 32` is its three digits in base 1626. -/
theorem digits_eq {x : Nat} (fits : x < 2 ^ 32) :
    x % 1626 + 1626 * (x / 1626 % 1626) + 2643876 * (x / 1626 / 1626 % 1626) = x := by
  have top : x / 1626 / 1626 < 1626 := by omega
  rw [Nat.mod_eq_of_lt top]
  omega

/-- The three indices of a `uint32_t` give it back. -/
theorem decodeTriple_encodeTriple (w0 : UInt32) :
    decodeTriple 1626 (encodeTriple 1626 w0).1 (encodeTriple 1626 w0).2.1
      (encodeTriple 1626 w0).2.2 = w0 := by
  obtain ⟨e1, e2, e3⟩ := toNat_encodeTriple w0
  obtain ⟨h1, h2, h3⟩ := encodeTriple_lt w0
  have fits := w0.toNat_lt
  apply UInt32.toNat_inj.mp
  rw [toNat_decodeTriple h1 h2 h3, e1, e2, e3]
  -- the offsets between the indices are the digits of the value
  have digit1 := offset_mod (b := w0.toNat / 1626) (Nat.mod_lt w0.toNat (by norm_num : 0 < 1626))
  have digit2 := offset_mod (b := w0.toNat / 1626 / 1626)
    (Nat.mod_lt (w0.toNat / 1626 + w0.toNat % 1626) (by norm_num : 0 < 1626))
  rw [digit1, digit2, digits_eq fits]
  exact Nat.mod_eq_of_lt fits

/-- The exact value of three indices has those indices again. -/
theorem digits_of_value {w1 w2 w3 : Nat} (h1 : w1 < 1626) (h2 : w2 < 1626) (h3 : w3 < 1626)
    {V : Nat} (value : V = w1 + 1626 * ((1626 - w1 + w2) % 1626) +
      2643876 * ((1626 - w2 + w3) % 1626)) :
    V % 1626 = w1 ∧ (V / 1626 + V % 1626) % 1626 = w2 ∧
      (V / 1626 / 1626 + (V / 1626 + V % 1626) % 1626) % 1626 = w3 := by
  -- each offset, added back to the index before it, gives the next index
  have back1 : ((1626 - w1 + w2) % 1626 + w1) % 1626 = w2 := by omega
  have back2 : ((1626 - w2 + w3) % 1626 + w2) % 1626 = w3 := by omega
  have small1 : (1626 - w1 + w2) % 1626 < 1626 := Nat.mod_lt _ (by norm_num)
  generalize (1626 - w1 + w2) % 1626 = D1 at value back1 small1
  generalize (1626 - w2 + w3) % 1626 = D2 at value back2
  have low : V % 1626 = w1 := by omega
  have quotient : V / 1626 = D1 + 1626 * D2 := by omega
  have top : V / 1626 / 1626 = D2 := by omega
  rw [top, quotient, low]
  refine ⟨rfl, ?_, ?_⟩
  · rw [← back1]
    omega
  · have middle : (D1 + 1626 * D2 + w1) % 1626 = w2 := by rw [← back1]; omega
    rw [middle, back2]

/-- The check of `words_to_bytes` passes only on a value that did not wrap: a wrap loses `2 ^ 32`,
which is `490` modulo `1626`, so the value no longer gives back the first index. -/
theorem fits_of_check {w1 w2 w3 : Nat} (h1 : w1 < 1626) {V : Nat} (value : V = w1 + 1626 * ((1626 - w1 + w2) % 1626) +
      2643876 * ((1626 - w2 + w3) % 1626))
    (check : V % 2 ^ 32 % 1626 = w1) : V < 2 ^ 32 := by
  have small1 : (1626 - w1 + w2) % 1626 < 1626 := Nat.mod_lt _ (by norm_num)
  have small2 : (1626 - w2 + w3) % 1626 < 1626 := Nat.mod_lt _ (by norm_num)
  generalize (1626 - w1 + w2) % 1626 = D1 at value small1
  generalize (1626 - w2 + w3) % 1626 = D2 at value small2
  omega

/-- Three indices that pass the check of `words_to_bytes` are the indices of the value they give. -/
theorem encodeTriple_decodeTriple {w1 w2 w3 : UInt32} (h1 : w1.toNat < 1626) (h2 : w2.toNat < 1626)
    (h3 : w3.toNat < 1626) (check : decodeTriple 1626 w1 w2 w3 % 1626 = w1) :
    encodeTriple 1626 (decodeTriple 1626 w1 w2 w3) = (w1, w2, w3) := by
  have value := toNat_decodeTriple h1 h2 h3
  have checked : (decodeTriple 1626 w1 w2 w3).toNat % 1626 = w1.toNat := by
    have := congrArg UInt32.toNat check
    simpa only [UInt32.toNat_mod, UInt32.reduceToNat] using this
  generalize exact : w1.toNat + 1626 * ((1626 - w1.toNat + w2.toNat) % 1626) +
    2643876 * ((1626 - w2.toNat + w3.toNat) % 1626) = V at value
  rw [value] at checked
  have fits := fits_of_check h1 exact.symm checked
  rw [Nat.mod_eq_of_lt fits] at value
  obtain ⟨d1, d2, d3⟩ := digits_of_value h1 h2 h3 exact.symm
  obtain ⟨e1, e2, e3⟩ := toNat_encodeTriple (decodeTriple 1626 w1 w2 w3)
  rw [value] at e1 e2 e3
  have first : (encodeTriple 1626 (decodeTriple 1626 w1 w2 w3)).1 = w1 :=
    UInt32.toNat_inj.mp (e1.trans d1)
  have second : (encodeTriple 1626 (decodeTriple 1626 w1 w2 w3)).2.1 = w2 :=
    UInt32.toNat_inj.mp (e2.trans d2)
  have third : (encodeTriple 1626 (decodeTriple 1626 w1 w2 w3)).2.2 = w3 :=
    UInt32.toNat_inj.mp (e3.trans d3)
  exact Prod.ext first (Prod.ext second third)

theorem toNat_le32 (b0 b1 b2 b3 : UInt8) :
    (le32 [b0, b1, b2, b3]).toNat = b0.toNat + 256 * (b1.toNat + 256 * (b2.toNat + 256 * b3.toNat)) := by
  have := b0.toNat_lt; have := b1.toNat_lt; have := b2.toNat_lt; have := b3.toNat_lt
  simp only [le32, Words.leValue_cons, Words.leValue_nil, UInt32.toNat_ofNat']
  omega

theorem le4_le32 : ∀ {bytes : List UInt8}, bytes.length = 4 → le4 (le32 bytes) = bytes
  | [b0, b1, b2, b3], _ => by
    have value := toNat_le32 b0 b1 b2 b3
    have := b0.toNat_lt; have := b1.toNat_lt; have := b2.toNat_lt; have := b3.toNat_lt
    simp only [le4, List.cons.injEq, ← UInt8.toNat_inj, UInt32.toNat_toUInt8,
      UInt32.toNat_shiftRight, value, Nat.shiftRight_eq_div_pow, UInt32.reduceToNat,
      Nat.reduceMod, Nat.reducePow, and_true]
    omega

theorem le32_le4 (w : UInt32) : le32 (le4 w) = w := by
  have := w.toNat_lt
  apply UInt32.toNat_inj.mp
  simp only [le4, toNat_le32, UInt32.toNat_toUInt8, UInt32.toNat_shiftRight,
    Nat.shiftRight_eq_div_pow, UInt32.reduceToNat, Nat.reduceMod, Nat.reducePow]
  omega

/-! ## The word indices of a byte string -/

/-- The word indices `bytes_to_words` picks for a string of bytes, three for each 4. -/
def encodeIndices (n : UInt32) : List UInt8 → List UInt32
  | b0 :: b1 :: b2 :: b3 :: rest =>
    (encodeTriple n (le32 [b0, b1, b2, b3])).1 :: (encodeTriple n (le32 [b0, b1, b2, b3])).2.1 ::
      (encodeTriple n (le32 [b0, b1, b2, b3])).2.2 :: encodeIndices n rest
  | _ => []

/-- The loop of `bytes_to_words` writes the words at the indices of `encodeIndices`, each
followed by a space, and stores them. -/
theorem bytesToWordsLoop_eq (wordList : List (List UInt8)) (n : UInt32) : ∀ src : List UInt8,
    bytesToWordsLoop wordList n src =
      (((encodeIndices n src).map fun i => wordList.getD i.toNat []).flatMap (· ++ [32]),
        (encodeIndices n src).map fun i => wordList.getD i.toNat [])
  | b0 :: b1 :: b2 :: b3 :: rest => by
    rw [bytesToWordsLoop, encodeIndices, bytesToWordsLoop_eq wordList n rest]
    simp
  | [] | [_] | [_, _] | [_, _, _] => rfl

theorem length_encodeIndices (n : UInt32) : ∀ src : List UInt8,
    (encodeIndices n src).length = src.length / 4 * 3
  | b0 :: b1 :: b2 :: b3 :: rest => by
    rw [encodeIndices, List.length_cons, List.length_cons, List.length_cons,
      length_encodeIndices n rest]
    simp only [List.length_cons]
    omega
  | [] | [_] | [_, _] | [_, _, _] => by simp [encodeIndices]

theorem lt_of_mem_encodeIndices : ∀ {src : List UInt8} {i : UInt32}, i ∈ encodeIndices 1626 src →
    i.toNat < 1626
  | b0 :: b1 :: b2 :: b3 :: rest, i, mem => by
    obtain ⟨h1, h2, h3⟩ := encodeTriple_lt (le32 [b0, b1, b2, b3])
    rw [encodeIndices] at mem
    simp only [List.mem_cons] at mem
    rcases mem with rfl | rfl | rfl | later
    · exact h1
    · exact h2
    · exact h3
    · exact lt_of_mem_encodeIndices later
  | [], _, mem | [_], _, mem | [_, _], _, mem | [_, _, _], _, mem => by
    simp [encodeIndices] at mem

/-- One triple of the decoding loop: it passes the check and the bytes of its value come first. -/
theorem decodeIndices_cons_eq_some {n w1 w2 w3 : UInt32} {rest : List UInt32} {bytes : List UInt8} :
    decodeIndices n (w1 :: w2 :: w3 :: rest) = some bytes ↔
      decodeTriple n w1 w2 w3 % n = w1 ∧
        ∃ more, decodeIndices n rest = some more ∧ bytes = le4 (decodeTriple n w1 w2 w3) ++ more := by
  rw [decodeIndices]
  by_cases check : decodeTriple n w1 w2 w3 % n = w1
  · simp [check, eq_comm]
  · simp [check]

/-- The words of 4 bytes decode to those bytes. -/
theorem decodeIndices_encodeIndices : ∀ {src : List UInt8}, src.length % 4 = 0 →
    decodeIndices 1626 (encodeIndices 1626 src) = some src
  | b0 :: b1 :: b2 :: b3 :: rest, whole => by
    have back := decodeTriple_encodeTriple (le32 [b0, b1, b2, b3])
    rw [encodeIndices, decodeIndices_cons_eq_some, back]
    refine ⟨rfl, rest, decodeIndices_encodeIndices (by simp at whole; omega), ?_⟩
    rw [le4_le32 rfl]
    rfl
  | [], _ => rfl
  | [_], whole | [_, _], whole | [_, _, _], whole => by simp at whole

theorem length_of_decodeIndices {n : UInt32} : ∀ {indices : List UInt32} {bytes : List UInt8},
    decodeIndices n indices = some bytes → bytes.length = indices.length / 3 * 4
  | w1 :: w2 :: w3 :: rest, bytes, decoded => by
    obtain ⟨-, more, decodedRest, rfl⟩ := decodeIndices_cons_eq_some.mp decoded
    rw [List.length_append, length_of_decodeIndices decodedRest]
    simp only [le4, List.length_cons, List.length_nil]
    omega
  | [], _, decoded | [_], _, decoded | [_, _], _, decoded => by
    simp only [decodeIndices, Option.some.injEq] at decoded
    simp [← decoded]

/-- Indices that decode are the indices of the bytes they decode to. -/
theorem encodeIndices_decodeIndices : ∀ {indices : List UInt32} {bytes : List UInt8},
    decodeIndices 1626 indices = some bytes → (∀ i ∈ indices, i.toNat < 1626) →
    indices.length % 3 = 0 → encodeIndices 1626 bytes = indices
  | w1 :: w2 :: w3 :: rest, bytes, decoded, small, whole => by
    obtain ⟨check, more, decodedRest, rfl⟩ := decodeIndices_cons_eq_some.mp decoded
    have triple := encodeTriple_decodeTriple (small w1 (by simp)) (small w2 (by simp))
      (small w3 (by simp)) check
    have rest_small : ∀ i ∈ rest, i.toNat < 1626 := fun i mem => small i (by simp [mem])
    have again := encodeIndices_decodeIndices decodedRest rest_small (by simp at whole; omega)
    simp only [le4, List.cons_append, List.nil_append, encodeIndices]
    rw [← le4, le32_le4, triple, again]
  | [], bytes, decoded, _, _ => by
    simp only [decodeIndices, Option.some.injEq] at decoded
    simp [← decoded, encodeIndices]
  | [_], _, _, _, whole | [_, _], _, _, _, whole => by simp at whole

/-! ## The language of a seed -/

/-- A language takes a seed: it has all its words, and when the seed has its checksum word the
checksum test passes in it. -/
def accepts (language : Language) (seed : List (List UInt8)) (hasChecksum : Bool) : Bool :=
  (matchIndices seed hasChecksum language).isSome &&
    (!hasChecksum || checksumTest seed language.uniquePrefixLength)

section Find

variable {seed : List (List UInt8)} {hasChecksum : Bool}

/-- The loop returns the first language that takes the seed, past all that do not. -/
theorem findSeedLanguageLoop_first {language : Language} {matched : List UInt32}
    (found : matchIndices seed hasChecksum language = some matched)
    (checked : hasChecksum = true → checksumTest seed language.uniquePrefixLength = true) :
    ∀ {before : List Language} (after : List Language) (fallback : Option Language),
      (∀ l ∈ before, accepts l seed hasChecksum = false) →
      findSeedLanguageLoop seed hasChecksum (before ++ language :: after) fallback =
        some (language, matched)
  | [], after, fallback, _ => by
    rw [List.nil_append, findSeedLanguageLoop, found]
    cases hasChecksum with
    | false => rfl
    | true => simp [checked rfl]
  | l :: before, after, fallback, refused => by
    have others := fun l' mem => refused l' (List.mem_cons_of_mem l mem)
    have refusedHead := refused l List.mem_cons_self
    rw [List.cons_append, findSeedLanguageLoop]
    cases matching : matchIndices seed hasChecksum l with
    | none => exact findSeedLanguageLoop_first found checked after fallback others
    | some _ =>
      -- `l` has every word, so its checksum test is what refused it
      simp only [accepts, matching, Option.isSome_some, Bool.true_and] at refusedHead
      have failing : (hasChecksum && !checksumTest seed l.uniquePrefixLength) = true := by
        cases hasChecksum <;> simp_all
      dsimp only
      rw [if_pos failing]
      exact findSeedLanguageLoop_first found checked after (some l) others

/-- What the loop returns is a language that has every word and passes the checksum test, or a
fallback whose checksum test failed. -/
theorem findSeedLanguageLoop_result {language : Language} {matched : List UInt32} :
    ∀ {languages : List Language} {fallback : Option Language},
      (∀ l, fallback = some l →
        hasChecksum = true ∧ checksumTest seed l.uniquePrefixLength = false) →
      findSeedLanguageLoop seed hasChecksum languages fallback = some (language, matched) →
      (language ∈ languages ∧ matchIndices seed hasChecksum language = some matched ∧
        (hasChecksum = true → checksumTest seed language.uniquePrefixLength = true)) ∨
      (hasChecksum = true ∧ checksumTest seed language.uniquePrefixLength = false)
  | [], fallback, failed, found => by
    rw [findSeedLanguageLoop] at found
    obtain ⟨l, isFallback, same⟩ := Option.map_eq_some_iff.mp found
    obtain ⟨rfl, -⟩ := Prod.mk.inj same
    exact Or.inr (failed l isFallback)
  | l :: rest, fallback, failed, found => by
    have widen : ∀ {P : Prop}, language ∈ rest ∧ P → language ∈ l :: rest ∧ P :=
      fun ⟨mem, rest⟩ => ⟨List.mem_cons_of_mem l mem, rest⟩
    rw [findSeedLanguageLoop] at found
    cases matching : matchIndices seed hasChecksum l with
    | none =>
      rw [matching] at found
      exact (findSeedLanguageLoop_result failed found).imp_left widen
    | some indices =>
      rw [matching] at found
      dsimp only at found
      split at found
      · next failing =>
        -- `l` had every word and failed its checksum test: it is the fallback now
        have failedNow : ∀ l', some l = some l' →
            hasChecksum = true ∧ checksumTest seed l'.uniquePrefixLength = false := by
          intro l' same
          cases same
          cases hasChecksum <;> simp_all
        exact (findSeedLanguageLoop_result failedNow found).imp_left widen
      · next passing =>
        obtain ⟨rfl, rfl⟩ := Prod.mk.inj (Option.some.inj found)
        exact Or.inl ⟨List.mem_cons_self, matching, fun hc => by simpa [hc] using passing⟩

end Find

/-! ## The languages by name -/

namespace Languages

variable (langs : Languages) (id : LanguageId)

@[simp] theorem languageName_table : (langs.table id).languageName = id.languageName :=
  (langs.constructed id).1

@[simp] theorem englishLanguageName_table :
    (langs.table id).englishLanguageName = id.englishLanguageName :=
  (langs.constructed id).2.1

@[simp] theorem uniquePrefixLength_table :
    (langs.table id).uniquePrefixLength = id.uniquePrefixLength :=
  (langs.constructed id).2.2.1

@[simp] theorem flags_table : (langs.table id).flags = id.flags := (langs.constructed id).2.2.2

variable {id}

/-- Every language but `EnglishOld` is built without `ALLOW_DUPLICATE_PREFIXES`. -/
theorem unique_table (old : id ≠ .englishOld) : (langs.table id).Unique := by
  unfold Language.Unique
  rw [flags_table]
  cases id <;> first | exact absurd rfl old | decide

/-- `bytes_to_words` finds each language of `get_language_list()` under its own name: no two of
them share a name. -/
theorem lookupLanguage_languageList (listed : id ∈ languageList) :
    lookupLanguage (languageList.map langs.table) id.languageName = some (langs.table id) := by
  cases id <;> simp [languageList, lookupLanguage, LanguageId.languageName,
    LanguageId.englishLanguageName] at listed ⊢

/-- `EnglishOld` is not in `get_language_list()`. -/
theorem lookupLanguage_englishOld :
    lookupLanguage (languageList.map langs.table) LanguageId.englishOld.languageName = none := by
  simp [languageList, lookupLanguage, LanguageId.languageName, LanguageId.englishLanguageName]

end Languages

/-! ## The two directions, step by step -/

section Directions

variable {langs : Languages} {words dst : List UInt8} {len : Nat} {duplicate : Bool}

/-- `words_to_bytes` succeeds when the seed has a right length, a language takes it and its
indices decode; it appends the bytes to `dst`. -/
theorem wordsToBytes_eq_of {hasChecksum : Bool} {language : Language} {matched : List UInt32}
    {bytes : List UInt8} (shape : seedHasChecksum (split words) len = .ok hasChecksum)
    (found : findSeedLanguage langs (split words) hasChecksum = some (language, matched))
    (checked : hasChecksum = true →
      checksumTest (split words) language.uniquePrefixLength = true)
    (decoded : decodeIndices (UInt32.ofNat language.wordList.length)
      (matched.take ((if hasChecksum then (split words).dropLast else split words).length / 3 * 3)) =
        some bytes) :
    wordsToBytes langs words dst len duplicate =
      .ok (if len > 0 && duplicate &&
          (if hasChecksum then (split words).dropLast else split words).length == len * 3 / 32 / 2
        then duplicateSeed (dst ++ bytes) else dst ++ bytes, language.languageName) := by
  have passing : (hasChecksum && !checksumTest (split words) language.uniquePrefixLength) = false := by
    cases hasChecksum <;> simp_all
  simp only [wordsToBytes, shape, found, passing, Bool.false_eq_true, if_false, decoded]

/-- A seed that `words_to_bytes` accepts had a right length, a language that took it, and
indices that decode to the bytes it appends. -/
theorem wordsToBytes_eq_ok {out : List UInt8} {name : String}
    (restored : wordsToBytes langs words dst len duplicate = .ok (out, name)) :
    ∃ hasChecksum language matched bytes,
      seedHasChecksum (split words) len = .ok hasChecksum ∧
      findSeedLanguage langs (split words) hasChecksum = some (language, matched) ∧
      (hasChecksum = true → checksumTest (split words) language.uniquePrefixLength = true) ∧
      decodeIndices (UInt32.ofNat language.wordList.length)
        (matched.take ((if hasChecksum then (split words).dropLast else split words).length / 3 * 3)) =
          some bytes ∧
      out = (if len > 0 && duplicate &&
          (if hasChecksum then (split words).dropLast else split words).length == len * 3 / 32 / 2
        then duplicateSeed (dst ++ bytes) else dst ++ bytes) ∧
      name = language.languageName := by
  unfold wordsToBytes at restored
  dsimp only at restored
  split at restored
  · cases restored
  · next hasChecksum shape =>
    split at restored
    · cases restored
    · next language matched found =>
      split at restored
      · cases restored
      · next passing =>
        split at restored
        · cases restored
        · next bytes decoded =>
          obtain ⟨rfl, rfl⟩ := Prod.mk.inj (Except.ok.inj restored)
          exact ⟨hasChecksum, language, matched, bytes, shape, found,
            fun hc => by simpa [hc] using passing, decoded, rfl, rfl⟩

/-- `bytes_to_words` of a positive multiple of 4 bytes in a language it finds: the words at the
indices of `encodeIndices`, then the word at their checksum index, joined by spaces. -/
theorem bytesToWords_eq {src : List UInt8} {languageName : String} {language : Language}
    (whole : src.length % 4 = 0) (nonempty : 0 < src.length)
    (named : lookupLanguage (languageList.map langs.table) languageName = some language)
    (store : List (List UInt8))
    (stored : store = (encodeIndices (UInt32.ofNat language.wordList.length) src).map language.word) :
    bytesToWords langs src words languageName = some (words ++ [32].intercalate
      (store ++ [store.getD (createChecksumIndex store language.uniquePrefixLength) []])) := by
  have accepted : ¬(src.length % 4 ≠ 0 ∨ src.length = 0) := by omega
  rw [bytesToWords, if_neg accepted, named]
  dsimp only
  rw [bytesToWordsLoop_eq, ← flatMap_append_space, List.append_assoc]
  subst stored
  rfl

end Directions

/-! ## Writing a key and reading it back -/

/-- The words at indices of a language without duplicate prefixes find those indices again, by
prefix and whole. -/
theorem matchIndices_map_word {language : Language} (unique : language.Unique) (hasChecksum : Bool)
    {indices : List UInt32} (small : ∀ i ∈ indices, i.toNat < NWORDS) :
    matchIndices (indices.map language.word) hasChecksum language = some indices := by
  apply Blocks.mapM_map_eq_some
  intro i mem
  cases hasChecksum with
  | true =>
    rw [if_pos rfl, utf8prefixOf_eq_trimmed]
    exact language.trimmedWordMap_word unique (small i mem)
  | false => exact language.wordMap_word unique (small i mem)

/-- A seed whose last word is the word at the checksum index of the others passes the test. -/
theorem checksumTest_append (store : List (List UInt8)) (p : Nat) :
    checksumTest (store ++ [store.getD (createChecksumIndex store p) []]) p = true := by
  simp [checksumTest]

theorem seedHasChecksum_of_length {seed : List (List UInt8)} {len : Nat} (whole : len % 4 = 0)
    (positive : 0 < len) (sized : seed.length = len / 4 * 3 ∨ seed.length = len / 4 * 3 + 1) :
    seedHasChecksum seed len = .ok (seed.length == len / 4 * 3 + 1) := by
  have expected : len * 8 * 3 / 32 = len / 4 * 3 := by omega
  have shaped : ¬(seed.length ≠ len * 8 * 3 / 32 / 2 ∧ seed.length ≠ len * 8 * 3 / 32 ∧
      seed.length ≠ len * 8 * 3 / 32 + 1) := by omega
  rw [seedHasChecksum, if_neg (by omega), if_neg (by omega)]
  dsimp only
  rw [if_neg shaped, expected]

/-- The duplicating branch of `words_to_bytes` needs a seed of half of `len * 3 / 32` words: a
seed of three words for each 4 bytes is longer. -/
theorem not_duplicated {len n : Nat} (whole : len % 4 = 0) (positive : 0 < len)
    (sized : n = len / 4 * 3) : (n == len * 3 / 32 / 2) = false := by
  rw [beq_eq_false_iff_ne]
  omega

/-- `find_seed_language` returns the language of the order that takes a seed, when none before it
does. -/
theorem findSeedLanguage_first {langs : Languages} {id : LanguageId}
    {seed : List (List UInt8)} {hasChecksum : Bool} {matched : List UInt32}
    (refused : ∀ earlier ∈ seedLanguageOrder.takeWhile (· != id),
      accepts (langs.table earlier) seed hasChecksum = false)
    (found : matchIndices seed hasChecksum (langs.table id) = some matched)
    (checked : hasChecksum = true →
      checksumTest seed (langs.table id).uniquePrefixLength = true) :
    findSeedLanguage langs seed hasChecksum = some (langs.table id, matched) := by
  -- the order is the languages before `id`, then `id`, then the rest
  have order : seedLanguageOrder.map langs.table =
      (seedLanguageOrder.takeWhile (· != id)).map langs.table ++
        langs.table id :: ((seedLanguageOrder.dropWhile (· != id)).tail).map langs.table := by
    cases id <;> rfl
  rw [findSeedLanguage, order]
  refine findSeedLanguageLoop_first found checked _ none ?_
  intro l mem
  obtain ⟨earlier, before, rfl⟩ := List.mem_map.mp mem
  exact refused earlier before

/-- `get_language_list()` has every language but `EnglishOld`. -/
theorem mem_languageList_iff {id : LanguageId} : id ∈ languageList ↔ id ≠ .englishOld := by
  cases id <;> decide

/-- The words at indices of a language are words of its list. -/
theorem word_mem_wordList {language : Language} {i : UInt32} (below : i.toNat < NWORDS) :
    language.word i ∈ language.wordList := by
  rw [Language.word, List.getD_eq_getElem _ _ (language.length_wordList ▸ below)]
  exact List.getElem_mem _

theorem createChecksumIndex_lt (wordList : List (List UInt8)) (p : Nat) :
    createChecksumIndex wordList p < seedLength :=
  Nat.mod_lt _ (by decide)

/-- The indices of the seed `bytes_to_words` writes: those of the bytes, then the one at their
checksum index. -/
def seedIndices (langs : Languages) (id : LanguageId) (src : List UInt8) : List UInt32 :=
  encodeIndices 1626 src ++ [(encodeIndices 1626 src).getD
    (createChecksumIndex ((encodeIndices 1626 src).map (langs.table id).word) id.uniquePrefixLength) 0]

/-- A language's list has `NWORDS` words. -/
theorem Language.base (language : Language) : UInt32.ofNat language.wordList.length = 1626 := by
  rw [language.length_wordList]; rfl

section Written

variable (langs : Languages) (id : LanguageId) {src : List UInt8}

/-- 32 bytes or more have at least 24 words, so the checksum index is one of theirs. -/
theorem checksumIndex_lt (long : 32 ≤ src.length) (p : Nat) :
    createChecksumIndex ((encodeIndices 1626 src).map (langs.table id).word) p <
      (encodeIndices 1626 src).length := by
  have := createChecksumIndex_lt ((encodeIndices 1626 src).map (langs.table id).word) p
  rw [length_encodeIndices]
  simp only [seedLength] at this
  omega

/-- The words at `seedIndices` are the words of the bytes and their checksum word. -/
theorem map_word_seedIndices (long : 32 ≤ src.length) :
    (seedIndices langs id src).map (langs.table id).word =
      (encodeIndices 1626 src).map (langs.table id).word ++
        [((encodeIndices 1626 src).map (langs.table id).word).getD (createChecksumIndex
          ((encodeIndices 1626 src).map (langs.table id).word)
          (langs.table id).uniquePrefixLength) []] := by
  have inside := checksumIndex_lt langs id long id.uniquePrefixLength
  rw [seedIndices, List.map_append, List.map_singleton, Languages.uniquePrefixLength_table,
    List.getD_eq_getElem ((encodeIndices 1626 src).map (langs.table id).word) []
      (by simpa using inside), List.getD_eq_getElem (encodeIndices 1626 src) 0 inside,
    List.getElem_map]

theorem lt_of_mem_seedIndices (long : 32 ≤ src.length) :
    ∀ i ∈ seedIndices langs id src, i.toNat < NWORDS := by
  have small : ∀ i ∈ encodeIndices 1626 src, i.toNat < NWORDS := fun i mem =>
    lt_of_mem_encodeIndices mem
  have inside := checksumIndex_lt langs id long id.uniquePrefixLength
  intro i mem
  rcases List.mem_append.mp mem with early | last
  · exact small i early
  · rw [List.mem_singleton, List.getD_eq_getElem _ _ inside] at last
    exact last ▸ small _ (List.getElem_mem _)

/-- `bytes_to_words` writes the words at `seedIndices`, joined by spaces. -/
theorem bytesToWords_eq_seedIndices (listed : id ∈ languageList) (whole : src.length % 4 = 0)
    (long : 32 ≤ src.length) :
    bytesToWords langs src [] id.languageName =
      some ([32].intercalate ((seedIndices langs id src).map (langs.table id).word)) := by
  rw [bytesToWords_eq whole (by omega) (langs.lookupLanguage_languageList listed) _
    (by rw [(langs.table id).base]), List.nil_append, map_word_seedIndices langs id long]

/-- The seed with its checksum word reads back as the bytes, when no language tried before takes
it. -/
theorem wordsToBytes_seedIndices (listed : id ∈ languageList) (whole : src.length % 4 = 0)
    (long : 32 ≤ src.length) (spaceless : ∀ w ∈ (langs.table id).wordList, w ≠ [] ∧ 32 ∉ w)
    (duplicate : Bool)
    (refused : ∀ earlier ∈ seedLanguageOrder.takeWhile (· != id),
      accepts (langs.table earlier) ((seedIndices langs id src).map (langs.table id).word) true =
        false) :
    wordsToBytes langs ([32].intercalate ((seedIndices langs id src).map (langs.table id).word)) []
      src.length duplicate = .ok (src, id.languageName) := by
  have unique := langs.unique_table (mem_languageList_iff.mp listed)
  have small := lt_of_mem_seedIndices langs id long
  have count := length_encodeIndices 1626 src
  have splitBack := split_intercalate ((seedIndices langs id src).map (langs.table id).word)
    (fun w mem => by
      obtain ⟨i, inside, rfl⟩ := List.mem_map.mp mem
      exact spaceless _ (word_mem_wordList (small i inside)))
  have shape : seedHasChecksum (split ([32].intercalate
      ((seedIndices langs id src).map (langs.table id).word))) src.length = .ok true := by
    rw [splitBack, seedHasChecksum_of_length whole (by omega) (by simp [seedIndices, count])]
    simp [seedIndices, count]
  -- the last word is the word at the checksum index of the others
  have checked : checksumTest ((seedIndices langs id src).map (langs.table id).word)
      (langs.table id).uniquePrefixLength = true := by
    rw [map_word_seedIndices langs id long]
    exact checksumTest_append _ _
  have found := findSeedLanguage_first refused (matchIndices_map_word unique true small)
    (fun _ => checked)
  rw [← splitBack] at found checked
  have kept : (seedIndices langs id src).take
      ((split ([32].intercalate ((seedIndices langs id src).map (langs.table id).word))).dropLast.length
        / 3 * 3) = encodeIndices 1626 src := by
    rw [splitBack, seedIndices, List.map_append, List.map_singleton, List.dropLast_concat,
      List.length_map, count, List.take_append_of_le_length (by omega),
      List.take_of_length_le (by omega)]
  rw [wordsToBytes_eq_of shape found (fun _ => checked)
    (by rw [if_pos rfl, kept, (langs.table id).base]; exact decodeIndices_encodeIndices whole)]
  rw [if_pos rfl, splitBack, seedIndices, List.map_append, List.map_singleton,
    List.dropLast_concat, List.length_map, not_duplicated whole (by omega) count, Bool.and_false,
    Languages.languageName_table]
  simp

/-- The seed without its checksum word reads back as the bytes, when no language tried before has
all its words. -/
theorem wordsToBytes_encodeIndices (listed : id ∈ languageList) (whole : src.length % 4 = 0)
    (long : 32 ≤ src.length) (spaceless : ∀ w ∈ (langs.table id).wordList, w ≠ [] ∧ 32 ∉ w)
    (duplicate : Bool)
    (refused : ∀ earlier ∈ seedLanguageOrder.takeWhile (· != id),
      accepts (langs.table earlier) ((encodeIndices 1626 src).map (langs.table id).word) false =
        false) :
    wordsToBytes langs ([32].intercalate ((encodeIndices 1626 src).map (langs.table id).word)) []
      src.length duplicate = .ok (src, id.languageName) := by
  have unique := langs.unique_table (mem_languageList_iff.mp listed)
  have small : ∀ i ∈ encodeIndices 1626 src, i.toNat < NWORDS := fun i mem =>
    lt_of_mem_encodeIndices mem
  have count := length_encodeIndices 1626 src
  have splitStore := split_intercalate ((encodeIndices 1626 src).map (langs.table id).word)
    (fun w mem => by
      obtain ⟨i, inside, rfl⟩ := List.mem_map.mp mem
      exact spaceless _ (word_mem_wordList (small i inside)))
  have shape : seedHasChecksum (split ([32].intercalate
      ((encodeIndices 1626 src).map (langs.table id).word))) src.length = .ok false := by
    rw [splitStore, seedHasChecksum_of_length whole (by omega) (by simp [count])]
    simp [count]
  have found := findSeedLanguage_first refused (matchIndices_map_word unique false small)
    (fun no => absurd no Bool.false_ne_true)
  rw [← splitStore] at found
  rw [wordsToBytes_eq_of shape found (fun no => absurd no Bool.false_ne_true)
    (by rw [if_neg Bool.false_ne_true, splitStore, List.length_map, count,
      (langs.table id).base, List.take_of_length_le (by omega)]
        exact decodeIndices_encodeIndices whole)]
  rw [if_neg Bool.false_ne_true, splitStore, List.length_map,
    not_duplicated whole (by omega) count, Bool.and_false, Languages.languageName_table]
  simp

end Written

/-! ## A table of languages to instantiate the theorems with -/

/-- The first byte of the words of a language's sample list, one for each language. -/
def LanguageId.sampleLead (id : LanguageId) : UInt8 :=
  0xE0 + UInt8.ofNat (seedLanguageOrder.idxOf id)

theorem LanguageId.sampleLead_injective : Function.Injective LanguageId.sampleLead := by
  intro a b same
  revert same
  cases a <;> cases b <;> decide

theorem LanguageId.sampleLead_ne_space (id : LanguageId) : id.sampleLead ≠ 32 := by
  cases id <;> decide

/-- Word `i` of a language's sample list: a three-byte character made of the language's lead
byte and the base-64 digits of `i`, then `a`. -/
def sampleWord (id : LanguageId) (i : Nat) : List UInt8 :=
  [id.sampleLead, 0x80 + UInt8.ofNat (i / 64), 0x80 + UInt8.ofNat (i % 64), 0x61]

/-- A language's sample list. It is irreducible so that elaboration never unfolds its 1626
words. -/
@[irreducible] def sampleWordList (id : LanguageId) : List (List UInt8) :=
  (List.range NWORDS).map (sampleWord id)

/-- A language's sample list under its names and prefix length. -/
def sampleData (id : LanguageId) : LanguageData :=
  ⟨id.languageName, id.englishLanguageName, sampleWordList id, id.uniquePrefixLength⟩

theorem mem_sampleWordList {id : LanguageId} {w : List UInt8} :
    w ∈ sampleWordList id ↔ ∃ i < NWORDS, sampleWord id i = w := by
  unfold sampleWordList
  simp

theorem getD_sampleWordList (id : LanguageId) {i : Nat} (below : i < NWORDS) :
    (sampleWordList id).getD i [] = sampleWord id i := by
  unfold sampleWordList
  rw [List.getD_eq_getElem _ _ (by simpa using below), List.getElem_map, List.getElem_range]

set_option maxRecDepth 4000 in
theorem sample_continuation :
    ∀ x : Fin 64, isContinuation (0x80 + UInt8.ofNat x.val) = true ∧
      0x80 + UInt8.ofNat x.val ≠ 32 := by
  decide

theorem utf8prefixOf_sampleWord (id : LanguageId) {i : Nat} (below : i < NWORDS) :
    utf8prefixOf (sampleWord id i) 1 = (sampleWord id i).take 3 ∧
      ∀ count, utf8prefixOf (sampleWord id i) (count + 2) = sampleWord id i := by
  have high := (sample_continuation ⟨i / 64, by simp only [NWORDS] at below; omega⟩).1
  have low := (sample_continuation ⟨i % 64, Nat.mod_lt _ (by norm_num)⟩).1
  have ascii : isContinuation 0x61 = false := by decide
  constructor
  · simp [sampleWord, utf8prefixOf, List.takeWhile, List.dropWhile, high, low, ascii]
  · intro count
    simp [sampleWord, utf8prefixOf, List.takeWhile, List.dropWhile, high, low, ascii]

/-- The prefix of a sample word: its first character for a prefix length of 1, all of it for 3
or 4. -/
theorem trimmed_sampleWord {i : Nat} (below : i < NWORDS) (lang id : LanguageId) :
    trimmed id.uniquePrefixLength (sampleWord lang i) =
      if id.uniquePrefixLength = 1 then (sampleWord lang i).take 3 else sampleWord lang i := by
  obtain ⟨first, whole⟩ := utf8prefixOf_sampleWord lang below
  have length : (sampleWord lang i).length = 4 := rfl
  cases id <;> simp [trimmed, LanguageId.uniquePrefixLength, length, first, whole 1]

theorem sampleWord_take_injective {id : LanguageId} {i j : Nat} (hi : i < NWORDS)
    (hj : j < NWORDS) (same : (sampleWord id i).take 3 = (sampleWord id j).take 3) : i = j := by
  simp only [NWORDS] at hi hj
  simp only [sampleWord, List.take_succ_cons, List.take_zero, List.cons.injEq,
    add_right_inj, true_and, and_true] at same
  obtain ⟨high, low⟩ := same
  have high' := congrArg UInt8.toNat high
  have low' := congrArg UInt8.toNat low
  simp at high' low'
  omega

theorem sample_nodup (id : LanguageId) :
    ((sampleWordList id).map (trimmed id.uniquePrefixLength)).Nodup := by
  unfold sampleWordList
  rw [List.map_map]
  refine List.Nodup.map_on (fun i inI j inJ same => ?_) List.nodup_range
  have hi := List.mem_range.mp inI
  have hj := List.mem_range.mp inJ
  simp only [Function.comp, trimmed_sampleWord hi, trimmed_sampleWord hj] at same
  split at same
  · exact sampleWord_take_injective hi hj same
  · exact sampleWord_take_injective hi hj (by rw [same])

theorem sample_spaceless (id : LanguageId) :
    ∀ w ∈ (sampleData id).wordList, w ≠ [] ∧ 32 ∉ w := by
  intro w mem
  obtain ⟨i, below, rfl⟩ := mem_sampleWordList.mp mem
  have high := (sample_continuation ⟨i / 64, by simp only [NWORDS] at below; omega⟩).2
  have low := (sample_continuation ⟨i % 64, Nat.mod_lt _ (by norm_num)⟩).2
  simp only [sampleWord, ne_eq, reduceCtorEq, not_false_eq_true, List.mem_cons, List.not_mem_nil,
    or_false, true_and]
  rintro (eq | eq | eq | eq)
  · exact id.sampleLead_ne_space eq.symm
  · exact high eq.symm
  · exact low eq.symm
  · exact absurd eq (by decide)

theorem sample_populated (id : LanguageId) :
    ∃ maps, populateMaps id.flags (sampleData id) = .ok maps :=
  populateMaps_ok (by unfold sampleData sampleWordList; simp only [List.length_map, List.length_range])
    (fun w mem => by
      obtain ⟨i, -, rfl⟩ := mem_sampleWordList.mp mem
      cases id <;> simp [sampleData, sampleWord, LanguageId.uniquePrefixLength])
    (sample_nodup id)

/-- The sample list built as each language. -/
def sampleLanguage (id : LanguageId) : Language :=
  match populated : populateMaps id.flags (sampleData id) with
  | .ok maps => ⟨sampleData id, id.flags, maps, populated⟩
  | .error e => absurd populated (by
      obtain ⟨maps, built⟩ := sample_populated id
      rw [built]
      intro same
      cases same)

theorem sampleLanguage_data (id : LanguageId) :
    (sampleLanguage id).toLanguageData = sampleData id ∧ (sampleLanguage id).flags = id.flags := by
  unfold sampleLanguage
  split
  · exact ⟨rfl, rfl⟩
  · next e built =>
    obtain ⟨maps, ok⟩ := sample_populated id
    rw [ok] at built
    cases built

/-- Every language with the sample list. -/
def sampleLanguages : Languages where
  table := sampleLanguage
  constructed id := by
    obtain ⟨data, flags⟩ := sampleLanguage_data id
    refine ⟨?_, ?_, ?_, flags⟩
    · show (sampleLanguage id).toLanguageData.languageName = _
      rw [data]; rfl
    · show (sampleLanguage id).toLanguageData.englishLanguageName = _
      rw [data]; rfl
    · show (sampleLanguage id).toLanguageData.uniquePrefixLength = _
      rw [data]; rfl

theorem sample_wordList (id : LanguageId) :
    (sampleLanguages.table id).wordList = sampleWordList id :=
  congrArg LanguageData.wordList (sampleLanguage_data id).1

theorem sample_table_spaceless (id : LanguageId) :
    ∀ w ∈ (sampleLanguages.table id).wordList, w ≠ [] ∧ 32 ∉ w := by
  rw [sample_wordList]
  exact sample_spaceless id

theorem sample_word (id : LanguageId) {i : UInt32} (below : i.toNat < NWORDS) :
    (sampleLanguages.table id).word i = sampleWord id i.toNat := by
  rw [Language.word, sample_wordList, getD_sampleWordList id below]

theorem LanguageId.uniquePrefixLength_pos (id : LanguageId) : 0 < id.uniquePrefixLength := by
  cases id <;> decide

/-- A word cut to a positive prefix length keeps its first byte. -/
theorem head?_trimmed {p : Nat} (positive : 0 < p) (c : UInt8) (rest : List UInt8) :
    (trimmed p (c :: rest)).head? = some c := by
  obtain ⟨q, rfl⟩ : ∃ q, p = q + 1 := ⟨p - 1, by omega⟩
  unfold trimmed
  split <;> simp [utf8prefixOf]

/-- A sample table finds no word, and no prefix, of another language's sample list: the lead
bytes differ. -/
theorem sample_lookup_other {lang id : LanguageId} (other : lang ≠ id) (i : Nat)
    (hasChecksum : Bool) :
    (if hasChecksum then (sampleLanguages.table lang).maps.trimmedWordMap
        (utf8prefixOf (sampleWord id i) (sampleLanguages.table lang).uniquePrefixLength)
      else (sampleLanguages.table lang).maps.wordMap (sampleWord id i)) = none := by
  have positive : 0 < (sampleLanguages.table lang).uniquePrefixLength := by
    rw [Languages.uniquePrefixLength_table]
    exact lang.uniquePrefixLength_pos
  refine Option.eq_none_iff_forall_ne_some.mpr fun j found => other ?_
  apply LanguageId.sampleLead_injective
  cases hasChecksum with
  | true =>
    rw [if_pos rfl] at found
    obtain ⟨below, same⟩ := Language.word_of_trimmedWordMap found
    rw [sample_word lang below, utf8prefixOf_eq_trimmed] at same
    have heads := congrArg List.head? same
    rwa [sampleWord, sampleWord, head?_trimmed positive, head?_trimmed positive,
      Option.some.injEq] at heads
  | false =>
    rw [if_neg Bool.false_ne_true] at found
    obtain ⟨below, same⟩ := Language.word_of_wordMap found
    rw [sample_word lang below] at same
    exact (List.cons.inj same).1

/-- No sample table takes a seed that starts with a word of another language's list. -/
theorem sample_accepts_other {lang id : LanguageId} (other : lang ≠ id) (i : Nat)
    (rest : List (List UInt8)) (hasChecksum : Bool) :
    accepts (sampleLanguages.table lang) (sampleWord id i :: rest) hasChecksum = false := by
  simp only [accepts, matchIndices, List.mapM_cons, sample_lookup_other other i hasChecksum]
  rfl

/-- The words `bytes_to_words` writes for 32 bytes or more in a sample table: a word of the
language's list, then at least one more. -/
theorem sample_seedIndices_words (id : LanguageId) (src : List UInt8) (long : 32 ≤ src.length) :
    ∃ i rest, rest ≠ [] ∧
      (seedIndices sampleLanguages id src).map (sampleLanguages.table id).word =
        sampleWord id i :: rest := by
  have small := lt_of_mem_seedIndices sampleLanguages id long
  have count : (seedIndices sampleLanguages id src).length = src.length / 4 * 3 + 1 := by
    simp [seedIndices, length_encodeIndices]
  obtain ⟨first, second, more, indices⟩ : ∃ first second more,
      seedIndices sampleLanguages id src = first :: second :: more := by
    match seedIndices sampleLanguages id src, count with
    | first :: second :: more, _ => exact ⟨first, second, more, rfl⟩
    | [], count => simp at count
    | [_], count => simp at count; omega
  have listed : first ∈ seedIndices sampleLanguages id src := by
    rw [indices]
    exact List.mem_cons_self
  refine ⟨first.toNat, (second :: more).map (sampleLanguages.table id).word, by simp, ?_⟩
  rw [indices, List.map_cons, sample_word id (small first listed)]

/-- The seed `bytes_to_words` writes for 32 bytes or more in a sample table splits into a word of
the language's list and at least one more. -/
theorem sample_split_written {id : LanguageId} (listed : id ∈ languageList) {src words : List UInt8}
    (whole : src.length % 4 = 0) (long : 32 ≤ src.length)
    (written : bytesToWords sampleLanguages src [] id.languageName = some words) :
    ∃ i rest, rest ≠ [] ∧ split words = sampleWord id i :: rest := by
  have small := lt_of_mem_seedIndices sampleLanguages id long
  rw [bytesToWords_eq_seedIndices sampleLanguages id listed whole long, Option.some.injEq] at written
  rw [← written, split_intercalate _ fun w mem => by
    obtain ⟨i, inside, rfl⟩ := List.mem_map.mp mem
    exact sample_table_spaceless id _ (word_mem_wordList (small i inside))]
  exact sample_seedIndices_words id src long

/-- `find_seed_language` tries the Chinese list, and only it, before the English one. -/
theorem takeWhile_english :
    seedLanguageOrder.takeWhile (· != LanguageId.english) = [.chineseSimplified] := rfl

/-- The key of the bytes `0` to `31`. -/
def countingKey : Blob 32 := ⟨(List.range 32).map UInt8.ofNat, by simp⟩

/-- Writing bytes as words and reading them back: `bytes_to_words` writes a positive multiple of
4 bytes, at least 32, in any language of `get_language_list()` whose words have no space, and
`words_to_bytes` gives the bytes and the language's name back, both for the seed with its
checksum word and for the seed without it, as long as no language that `find_seed_language`
tries first takes the seed. -/
theorem seed_words_round_trip (langs : Languages) {id : LanguageId} (listed : id ∈ languageList)
    (spaceless : ∀ w ∈ (langs.table id).wordList, w ≠ [] ∧ 32 ∉ w) (src : List UInt8)
    (whole : src.length % 4 = 0) (long : 32 ≤ src.length) (duplicate : Bool) :
    ∃ words, bytesToWords langs src [] id.languageName = some words ∧
      ((∀ earlier ∈ seedLanguageOrder.takeWhile (· != id),
          accepts (langs.table earlier) (split words) true = false) →
        wordsToBytes langs words [] src.length duplicate = .ok (src, id.languageName)) ∧
      ((∀ earlier ∈ seedLanguageOrder.takeWhile (· != id),
          accepts (langs.table earlier) (split words).dropLast false = false) →
        wordsToBytes langs ([32].intercalate (split words).dropLast) [] src.length duplicate =
          .ok (src, id.languageName)) := by
  have small := lt_of_mem_seedIndices langs id long
  -- the words written have no space, so splitting gives them back
  have splitBack := split_intercalate ((seedIndices langs id src).map (langs.table id).word)
    (fun w mem => by
      obtain ⟨i, inside, rfl⟩ := List.mem_map.mp mem
      exact spaceless _ (word_mem_wordList (small i inside)))
  have dropped : ((seedIndices langs id src).map (langs.table id).word).dropLast =
      (encodeIndices 1626 src).map (langs.table id).word := by
    rw [seedIndices, List.map_append, List.map_singleton, List.dropLast_concat]
  refine ⟨_, bytesToWords_eq_seedIndices langs id listed whole long, fun refused => ?_,
    fun refused => ?_⟩
  · rw [splitBack] at refused
    exact wordsToBytes_seedIndices langs id listed whole long spaceless duplicate refused
  · rw [splitBack, dropped] at refused ⊢
    exact wordsToBytes_encodeIndices langs id listed whole long spaceless duplicate refused

/-- The bytes `0` to `31` written in English, the second language of the order, and read back
with and without the checksum word: the Chinese list, tried first, has none of the words. -/
theorem counting_key_round_trip :
    ∃ words, bytesToWords sampleLanguages countingKey.bytes []
        LanguageId.english.languageName = some words ∧
      wordsToBytes sampleLanguages words [] 32 true =
        .ok (countingKey.bytes, LanguageId.english.languageName) ∧
      wordsToBytes sampleLanguages ([32].intercalate (split words).dropLast) [] 32 true =
        .ok (countingKey.bytes, LanguageId.english.languageName) := by
  have listed : LanguageId.english ∈ languageList := by decide
  have sized : countingKey.bytes.length = 32 := countingKey.length_eq
  obtain ⟨words, written, withChecksum, without⟩ := seed_words_round_trip sampleLanguages listed
    (sample_table_spaceless _) countingKey.bytes (by rw [sized]) sized.ge true
  rw [sized] at withChecksum without
  obtain ⟨i, rest, more, splitWords⟩ := sample_split_written listed (by rw [sized]) sized.ge written
  refine ⟨words, written, withChecksum fun earlier before => ?_, without fun earlier before => ?_⟩
  · rw [takeWhile_english, List.mem_singleton] at before
    rw [before, splitWords]
    exact sample_accepts_other (by decide) i rest true
  · rw [takeWhile_english, List.mem_singleton] at before
    rw [before, splitWords, List.dropLast_cons_of_ne_nil more]
    exact sample_accepts_other (by decide) i rest.dropLast false

/-! ## Reading a key and writing it back -/

/-- With `len` 32 a seed has 12, 24 or 25 words, and the checksum word only with 25. -/
theorem seedHasChecksum_thirtyTwo {seed : List (List UInt8)} {hasChecksum : Bool}
    (shape : seedHasChecksum seed 32 = .ok hasChecksum) :
    (seed.length = 12 ∨ seed.length = 24 ∨ seed.length = 25) ∧
      hasChecksum = (seed.length == 25) := by
  unfold seedHasChecksum at shape
  simp only [Nat.reduceMod, Nat.reduceMul, Nat.reduceDiv, Nat.reduceAdd, ne_eq,
    not_true_eq_false, if_false, OfNat.ofNat_ne_zero] at shape
  split at shape
  · cases shape
  · next sized =>
    obtain rfl := Except.ok.inj shape
    exact ⟨by omega, rfl⟩

theorem forall₂_of_mapM_eq_some {α β : Type} {f : α → Option β} :
    ∀ {l : List α} {l' : List β}, l.mapM f = some l' → List.Forall₂ (fun a b => f a = some b) l l'
  | [], l', walk => by
    rw [List.mapM_nil] at walk
    rw [← Option.some.inj walk]
    exact List.Forall₂.nil
  | a :: l, l', walk => by
    rw [List.mapM_cons] at walk
    cases first : f a with
    | none => rw [first] at walk; cases walk
    | some b =>
      cases rest : l.mapM f with
      | none => rw [first, rest] at walk; cases walk
      | some bs =>
        rw [first, rest] at walk
        rw [← Option.some.inj walk]
        exact List.Forall₂.cons first (forall₂_of_mapM_eq_some rest)

/-- The indices a language finds for a seed: one for each word, each of a word of its list that
has the seed word's prefix, or is the seed word. -/
theorem matchIndices_eq_some {seed : List (List UInt8)} {hasChecksum : Bool} {language : Language}
    {matched : List UInt32} (found : matchIndices seed hasChecksum language = some matched) :
    matched.length = seed.length ∧ ∀ j (inMatched : j < matched.length) (inSeed : j < seed.length),
      matched[j].toNat < NWORDS ∧
      (hasChecksum = true → trimmed language.uniquePrefixLength (language.word matched[j]) =
        trimmed language.uniquePrefixLength seed[j]) ∧
      (hasChecksum = false → language.word matched[j] = seed[j]) := by
  have each := forall₂_of_mapM_eq_some found
  refine ⟨each.length_eq.symm, fun j inMatched inSeed => ?_⟩
  have lookup := (List.forall₂_iff_get.mp each).2 j inSeed inMatched
  simp only [List.get_eq_getElem] at lookup
  cases hasChecksum with
  | true =>
    obtain ⟨below, same⟩ := Language.word_of_trimmedWordMap lookup
    exact ⟨below, fun _ => by rw [same, utf8prefixOf_eq_trimmed],
      fun no => absurd no.symm Bool.false_ne_true⟩
  | false =>
    obtain ⟨below, same⟩ := Language.word_of_wordMap lookup
    exact ⟨below, fun no => absurd no Bool.false_ne_true, fun _ => same⟩

/-- Every index a language finds for a seed is an index of its list. -/
theorem lt_of_mem_matchIndices {seed : List (List UInt8)} {hasChecksum : Bool}
    {language : Language} {matched : List UInt32}
    (found : matchIndices seed hasChecksum language = some matched) :
    ∀ i ∈ matched, i.toNat < NWORDS := by
  obtain ⟨count, each⟩ := matchIndices_eq_some found
  intro i mem
  obtain ⟨j, inMatched, rfl⟩ := List.mem_iff_getElem.mp mem
  exact (each j inMatched (count ▸ inMatched)).1

/-- A list of 25 is its first 24 and its last. -/
theorem eq_take_append_getElem {α : Type} {l : List α} (sized : l.length = 25) :
    l = l.take 24 ++ [l[24]] := by
  apply List.ext_getElem (by simp [sized])
  intro j inL inTake
  by_cases early : j < 24
  · rw [List.getElem_append_left (by simp [sized, early]), List.getElem_take]
  · have last : j = 24 := by simp [sized] at inTake; omega
    subst last
    rw [List.getElem_append_right (by simp [sized])]
    simp [sized]

/-- A seed without its checksum word, read as whole words, is the words at its indices. -/
theorem map_word_of_matchIndices {seed : List (List UInt8)} {language : Language}
    {matched : List UInt32} (found : matchIndices seed false language = some matched) :
    matched.map language.word = seed :=
  Blocks.map_of_mapM_eq_some (fun _ _ _ lookup => (Language.word_of_wordMap lookup).2) found

/-- A seed with its checksum word that passed the checksum test: the words at its first 24
indices, then the word at their checksum index, are the words at all 25. The checksum index of
those words is the seed's own, since they have the seed words' prefixes, and the word it picks has
the prefix of the seed's last word, so in a language without duplicate prefixes it is the word of
the last index. -/
theorem checksum_word_written_back {language : Language} (unique : language.Unique)
    {seed : List (List UInt8)} {matched : List UInt32}
    (found : matchIndices seed true language = some matched)
    (checked : checksumTest seed language.uniquePrefixLength = true) (sized : seed.length = 25) :
    (matched.take 24).map language.word ++
        [((matched.take 24).map language.word).getD
          (createChecksumIndex ((matched.take 24).map language.word) language.uniquePrefixLength) []] =
      matched.map language.word := by
  obtain ⟨count, each⟩ := matchIndices_eq_some found
  rw [sized] at count
  -- the words written have the prefixes of the seed's first 24 words
  have prefixes : ((matched.take 24).map language.word).map (trimmed language.uniquePrefixLength) =
      seed.dropLast.map (trimmed language.uniquePrefixLength) := by
    apply List.ext_getElem (by simp [count, sized])
    intro j inWritten inSeed
    have early : j < 24 := by simpa [count] using inWritten
    simp only [List.getElem_map, List.getElem_take, List.getElem_dropLast]
    exact (each j (by omega) (by omega)).2.1 rfl
  have sameIndex : createChecksumIndex ((matched.take 24).map language.word)
      language.uniquePrefixLength = createChecksumIndex seed.dropLast language.uniquePrefixLength := by
    unfold createChecksumIndex
    rw [List.flatMap_def, List.flatMap_def, prefixes]
  have picked : createChecksumIndex seed.dropLast language.uniquePrefixLength < 24 := by
    have := Nat.mod_lt (crc32 (seed.dropLast.flatMap (trimmed language.uniquePrefixLength))).toNat
      (by decide : 0 < seedLength)
    exact this
  -- the checksum test: the word at the checksum index has the prefix of the last word
  have lastWord : seed.getLast? = some seed[24] := by
    simp [List.getLast?_eq_getElem?, sized]
  have test := checked
  simp only [checksumTest, lastWord, beq_iff_eq] at test
  generalize createChecksumIndex seed.dropLast language.uniquePrefixLength = c at sameIndex picked test
  rw [List.getD_eq_getElem _ _ (by simp [sized]; omega), List.getElem_dropLast] at test
  have atC := each c (by omega) (by omega)
  have atLast := each 24 (by omega) (by omega)
  have sameIndex' : matched[c] = matched[24] := language.eq_of_trimmed_word_eq unique atC.1 atLast.1
    (by rw [atC.2.1 rfl, atLast.2.1 rfl, test])
  rw [sameIndex, List.getD_eq_getElem _ _ (by simp [count]; omega), List.getElem_map,
    List.getElem_take, sameIndex']
  conv_rhs => rw [eq_take_append_getElem count]
  rw [List.map_append, List.map_singleton]

/-- `bytes_to_words` of 32 bytes under the name of `EnglishOld` finds no language. -/
theorem bytesToWords_englishOld (langs : Languages) (key : Blob 32) :
    bytesToWordsSecretKey langs key [] LanguageId.englishOld.languageName = none := by
  have sized := key.length_eq
  rw [bytesToWordsSecretKey, bytesToWords, if_neg (by omega), langs.lookupLanguage_englishOld]

/-- A key restored from a seed: the language of the order that took the seed, the indices its
words matched there, the number of words, and the key decoded from the indices of the words
before the checksum word. -/
theorem wordsToBytesSecretKey_inv (langs : Languages) {words : List UInt8} {key : Blob 32}
    {name : String} (restored : wordsToBytesSecretKey langs words = .ok (key, name)) :
    ∃ id ∈ seedLanguageOrder, name = id.languageName ∧ ∃ matched,
      matchIndices (split words) ((split words).length == 25) (langs.table id) = some matched ∧
      ((split words).length = 25 →
        checksumTest (split words) (langs.table id).uniquePrefixLength = true) ∧
      ((split words).length = 12 ∨ (split words).length = 24 ∨ (split words).length = 25) ∧
      decodeIndices 1626 (matched.take
        ((if (split words).length = 25 then 24 else (split words).length) / 3 * 3)) =
          some key.bytes := by
  unfold wordsToBytesSecretKey at restored
  split at restored
  · cases restored
  · next s languageName converted =>
    split at restored
    · next size =>
      obtain ⟨rfl, rfl⟩ := Prod.mk.inj (Except.ok.inj restored)
      obtain ⟨hasChecksum, language, matched, bytes, shape, found, checked, decoded, out, named⟩ :=
        wordsToBytes_eq_ok converted
      obtain ⟨lengths, hasIs⟩ := seedHasChecksum_thirtyTwo shape
      -- the language is one of the order's, and it took the seed
      rcases findSeedLanguageLoop_result (fun l no => absurd no.symm (Option.some_ne_none l)) found
        with ⟨mem, matching, -⟩ | ⟨yes, failed⟩
      · obtain ⟨id, ordered, rfl⟩ := List.mem_map.mp mem
        have base : UInt32.ofNat (langs.table id).wordList.length = 1626 := by
          rw [(langs.table id).length_wordList]
          rfl
        -- the seed without its checksum word has 12 or 24 words, so nothing is duplicated
        have kept : (if hasChecksum then (split words).dropLast else split words).length =
            if (split words).length = 25 then 24 else (split words).length := by
          rw [hasIs]
          by_cases full : (split words).length = 25 <;> simp [full]
        rw [base, kept] at decoded
        rw [kept] at out
        have undoubled : s = bytes := by
          have notOne : ((if (split words).length = 25 then 24 else (split words).length) ==
              32 * 3 / 32 / 2) = false := by
            rw [beq_eq_false_iff_ne]
            split <;> omega
          rw [out, notOne, Bool.and_false, if_neg Bool.false_ne_true, List.nil_append]
        subst undoubled
        rw [hasIs] at matching
        exact ⟨id, ordered, by rw [named, Languages.languageName_table], matched, matching,
          fun full => checked (by rw [hasIs, full]; rfl), lengths, decoded⟩
      · exact absurd (checked yes) (by simp [failed])
    · cases restored

/-- Reading a `secret_key` from words and writing it back: a seed that `words_to_bytes` accepts
has 24 or 25 words and a language of `find_seed_language`'s order, and `bytes_to_words` writes the
key in that language as the 24 words with their checksum word added, or, for a seed of 25 words,
as the words of the list that its words' prefixes name. A seed read as `EnglishOld` cannot be
written back, since `get_language_list()` has no language of that name. -/
theorem restored_seed_written_back (langs : Languages) {words : List UInt8} {key : Blob 32}
    {name : String} (restored : wordsToBytesSecretKey langs words = .ok (key, name)) :
    ∃ id ∈ seedLanguageOrder, name = id.languageName ∧
      ((split words).length = 24 ∨ (split words).length = 25) ∧
      (id = .englishOld → bytesToWordsSecretKey langs key [] name = none) ∧
      (id ≠ .englishOld →
        ((split words).length = 25 ∧ ∃ matched,
          matchIndices (split words) true (langs.table id) = some matched ∧
          bytesToWordsSecretKey langs key [] name =
            some ([32].intercalate (matched.map (langs.table id).word))) ∨
        ((split words).length = 24 ∧ bytesToWordsSecretKey langs key [] name =
          some ([32].intercalate (split words ++
            [(split words).getD (createChecksumIndex (split words) id.uniquePrefixLength) []])))) := by
  obtain ⟨id, ordered, named, matched, matching, checked, lengths, decoded⟩ :=
    wordsToBytesSecretKey_inv langs restored
  have count := (matchIndices_eq_some matching).1
  have written := length_of_decodeIndices decoded
  rw [List.length_take, count, key.length_eq] at written
  -- 12 words decode to 16 bytes, not a key
  have sized : (split words).length = 24 ∨ (split words).length = 25 := by
    rcases lengths with twelve | twentyFour | twentyFive
    · rw [twelve] at written
      simp at written
    · exact Or.inl twentyFour
    · exact Or.inr twentyFive
  refine ⟨id, ordered, named, sized, fun old => ?_, fun old => ?_⟩
  · rw [named, old]
    exact bytesToWords_englishOld langs key
  · have unique := langs.unique_table old
    have lookup := langs.lookupLanguage_languageList (mem_languageList_iff.mpr old)
    have small := lt_of_mem_matchIndices matching
    have base : UInt32.ofNat (langs.table id).wordList.length = 1626 := by
      rw [(langs.table id).length_wordList]
      rfl
    rw [named]
    rcases sized with twentyFour | twentyFive
    · -- 24 words: whole words, and the checksum word is added
      rw [twentyFour] at matching count
      have whole : matched.take 24 = matched := List.take_of_length_le (by omega)
      rw [if_neg (by omega), twentyFour, whole] at decoded
      have back := encodeIndices_decodeIndices decoded small (by omega)
      refine Or.inr ⟨twentyFour, ?_⟩
      rw [bytesToWordsSecretKey, bytesToWords_eq (by simp [key.length_eq])
        (by simp [key.length_eq]) lookup (matched.map (langs.table id).word)
        (by rw [base, back]), map_word_of_matchIndices matching, List.nil_append,
        Languages.uniquePrefixLength_table]
    · -- 25 words: the words their prefixes name
      rw [twentyFive] at matching count
      rw [if_pos twentyFive] at decoded
      have back := encodeIndices_decodeIndices decoded
        (fun i mem => small i (List.mem_of_mem_take mem)) (by simp; omega)
      refine Or.inl ⟨twentyFive, matched, matching, ?_⟩
      rw [bytesToWordsSecretKey, bytesToWords_eq (by simp [key.length_eq])
        (by simp [key.length_eq]) lookup ((matched.take 24).map (langs.table id).word)
        (by rw [base, back]), List.nil_append,
        checksum_word_written_back unique matching (checked twentyFive) twentyFive]

/-- The seed of the counting key in English. -/
def countingKeySeed : List UInt8 :=
  [32].intercalate ((seedIndices sampleLanguages .english countingKey.bytes).map
    (sampleLanguages.table .english).word)

/-- The English seed of the counting key is read as that key, and written back as the theorem
says. -/
theorem counting_key_seed_written_back :
    wordsToBytesSecretKey sampleLanguages countingKeySeed =
        .ok (countingKey, LanguageId.english.languageName) ∧
      ∃ id ∈ seedLanguageOrder, LanguageId.english.languageName = id.languageName ∧
      ((split countingKeySeed).length = 24 ∨ (split countingKeySeed).length = 25) ∧
      (id = .englishOld → bytesToWordsSecretKey sampleLanguages countingKey []
        LanguageId.english.languageName = none) ∧
      (id ≠ .englishOld →
        ((split countingKeySeed).length = 25 ∧ ∃ matched,
          matchIndices (split countingKeySeed) true (sampleLanguages.table id) = some matched ∧
          bytesToWordsSecretKey sampleLanguages countingKey [] LanguageId.english.languageName =
            some ([32].intercalate (matched.map (sampleLanguages.table id).word))) ∨
        ((split countingKeySeed).length = 24 ∧ bytesToWordsSecretKey sampleLanguages countingKey []
          LanguageId.english.languageName =
          some ([32].intercalate (split countingKeySeed ++
            [(split countingKeySeed).getD (createChecksumIndex (split countingKeySeed)
              id.uniquePrefixLength) []])))) := by
  have sized : countingKey.bytes.length = 32 := countingKey.length_eq
  obtain ⟨i, rest, -, written⟩ := sample_seedIndices_words .english countingKey.bytes sized.ge
  -- the Chinese list, tried first, has none of the English words
  have decoded := wordsToBytes_seedIndices sampleLanguages .english (by decide) (by rw [sized])
    sized.ge (sample_table_spaceless _) true fun earlier before => by
      rw [takeWhile_english, List.mem_singleton] at before
      rw [before, written]
      exact sample_accepts_other (by decide) i rest true
  have restored : wordsToBytesSecretKey sampleLanguages countingKeySeed =
      .ok (countingKey, LanguageId.english.languageName) := by
    rw [sized] at decoded
    rw [wordsToBytesSecretKey, countingKeySeed, decoded]
    rfl
  exact ⟨restored, restored_seed_written_back sampleLanguages restored⟩

end GraftNetwork.Mnemonics

import GraftNetwork.Basic.IntUtil
import GraftNetwork.Lib.Blocks
import GraftNetwork.Lib.Radix
import GraftNetwork.Serialization.BinaryArchive

/-!
# Base58 (common/base58.cpp)

The Base58 of CryptoNote codes a byte string in blocks of eight bytes. Each block is read as a
big-endian number and written as its eleven base-58 digits, the most significant first; a last
block of `n < 8` bytes is written as `encoded_block_sizes[n]` digits, the fewest that hold every
`n`-byte number. Decoding reads the digits back with a 128-bit product and a carry check,
refuses a block whose value does not fit its bytes, and refuses a last block of a length that no
block encodes to.

* `decode_encode`: `decode (encode data) = some data` for every byte string.
* `encode_of_decode`: what `decode` accepts is the encoding of what it returns, so `encode` is a
  bijection between byte strings and the strings `decode` accepts.
* `decodeBlockLoop_eq`: the digit loop of decode_block computes the value of the digits and
  refuses exactly a character out of the alphabet or a value from `2 ^ 64` on.
-/

namespace GraftNetwork.Common.Base58

open GraftNetwork.Basic

/-! ## The alphabet and the block sizes -/

def alphabet : List Char := "123456789ABCDEFGHJKLMNPQRSTUVWXYZabcdefghijkmnopqrstuvwxyz".toList

/-- `alphabet_size`: the letters of the alphabet, without its terminating zero. -/
def alphabetSize : Nat := alphabet.length

def encodedBlockSizes : List Nat := [0, 2, 3, 5, 6, 7, 9, 10, 11]

/-- `full_block_size`: the number of encoded block sizes, less the one of the empty block. -/
def fullBlockSize : Nat := encodedBlockSizes.length - 1

def fullEncodedBlockSize : Nat := encodedBlockSizes.getD fullBlockSize 0

def addrChecksumSize : Nat := 4

/-- The letter of a digit. -/
def letter (digit : Nat) : Char := alphabet.getD digit ' '

/-- The table of reverse_alphabet: one entry for each character from the first letter of the
alphabet to its last, the index of the letter there and `-1` for the characters between that are
not letters. -/
def reverseAlphabetTable : List Int :=
  (List.range alphabetSize).foldl
    (fun table i => table.set ((letter i).toNat - (letter 0).toNat) i)
    (List.replicate ((letter (alphabetSize - 1)).toNat - (letter 0).toNat + 1) (-1))

/-- reverse_alphabet::operator(): the digit of a letter of the alphabet, `-1` for any other
character. The offset from the first letter is a `size_t`, so a character before the first
letter falls far outside the table. -/
def reverseAlphabet (c : Char) : Int :=
  if (letter 0).toNat ≤ c.toNat then reverseAlphabetTable.getD (c.toNat - (letter 0).toNat) (-1)
  else -1

/-- The table of decoded_block_sizes: for each block length up to a full encoded block, the
bytes it decodes to, and `-1` for a length that no block encodes to. -/
def decodedBlockSizesTable : List Int :=
  (List.range (fullBlockSize + 1)).foldl (fun table i => table.set (encodedBlockSizes.getD i 0) i)
    (List.replicate (fullEncodedBlockSize + 1) (-1))

/-- decoded_block_sizes::operator(); the source asserts the length is at most a full encoded
block. -/
def decodedBlockSize (encodedBlockSize : Nat) : Int :=
  decodedBlockSizesTable.getD encodedBlockSize (-1)

/-! ## Blocks -/

/-- uint_8be_to_64: one to eight bytes, the most significant first, as one number. -/
def uint8beTo64 (data : List UInt8) : Nat :=
  data.foldl (fun res byte => res <<< 8 ||| byte.toNat) 0

/-- uint_64_to_8be: the `size` low bytes of `num`, the most significant first. -/
def uint64To8be (num size : Nat) : List UInt8 :=
  (List.range size).reverse.map fun i => UInt8.ofNat (num >>> (8 * i))

/-- The `while (0 < num)` loop of encode_block: the base-58 digits of `num`, the least
significant first, written from position `i` down. A block has `fuel` positions. -/
def encodeBlockLoop : (fuel num i : Nat) → List Char → List Char
  | 0, _, _, res => res
  | fuel + 1, num, i, res =>
    if 0 < num then
      encodeBlockLoop fuel (num / alphabetSize) (i - 1) (res.set i (letter (num % alphabetSize)))
    else res

/-- encode_block, on the part of the result that it writes. encode fills the result with the
first letter before, so the positions the loop does not reach keep it. -/
def encodeBlock (block : List UInt8) : List Char :=
  let size := encodedBlockSizes.getD block.length 0
  encodeBlockLoop size (uint8beTo64 block) (size - 1) (List.replicate size (letter 0))

/-- The loop of decode_block over the block's characters from the last to the first: each
digit times its order is added to `res_num`, with `mul128` for the product. A character out of
the alphabet, a product of more than 64 bits or a carry out of the sum refuses the block. The
order is a `uint64_t`; it wraps only after the last digit of a block. -/
def decodeBlockLoop : List Char → (resNum order : Nat) → Option Nat
  | [], resNum, _ => some resNum
  | c :: rest, resNum, order =>
    let digit := reverseAlphabet c
    if digit < 0 then none
    else
      let (product, productHi) := mul128 order digit.toNat
      let tmp := (resNum + product) % 2 ^ 64
      if tmp < resNum ∨ productHi ≠ 0 then none
      else decodeBlockLoop rest tmp (order * alphabetSize % 2 ^ 64)

/-- decode_block: refused for a length that no block encodes to, or a value that does not fit
the block's bytes; otherwise the bytes of the value. -/
def decodeBlock (block : List Char) : Option (List UInt8) :=
  let resSize := decodedBlockSize block.length
  if resSize ≤ 0 then none
  else
    match decodeBlockLoop block.reverse 0 1 with
    | none => none
    | some resNum =>
      if resSize.toNat < fullBlockSize ∧ 2 ^ (8 * resSize.toNat) ≤ resNum then none
      else some (uint64To8be resNum resSize.toNat)

/-! ## Strings -/

/-- encode: the full blocks, then the last one if it is not empty. -/
def encode (data : List UInt8) : List Char :=
  if data = [] then []
  else
    let fullBlockCount := data.length / fullBlockSize
    let lastBlockSize := data.length % fullBlockSize
    (List.range fullBlockCount).flatMap (fun i => encodeBlock (Blocks.block fullBlockSize i data)) ++
      if 0 < lastBlockSize then encodeBlock (data.drop (fullBlockCount * fullBlockSize)) else []

/-- decode: `none` where it returns false. The length of the last block is checked first; every
byte of the result is written by one block. -/
def decode (enc : List Char) : Option (List UInt8) :=
  if enc = [] then some []
  else
    let fullBlockCount := enc.length / fullEncodedBlockSize
    let lastBlockSize := enc.length % fullEncodedBlockSize
    if decodedBlockSize lastBlockSize < 0 then none
    else
      ((List.range fullBlockCount).mapM fun i =>
          decodeBlock (Blocks.block fullEncodedBlockSize i enc)).bind fun full =>
        (if 0 < lastBlockSize then decodeBlock (enc.drop (fullBlockCount * fullEncodedBlockSize))
          else some []).map fun last => full.flatten ++ last

/-! ## Addresses -/

/-- encode_addr: the tag as a varint, the data, and the first four bytes of the cn_fast_hash of
both as a checksum, in Base58. -/
def encodeAddr (cnFastHash : List UInt8 → Serialization.Blob 32) (tag : UInt64)
    (data : List UInt8) : List Char :=
  let buf := Serialization.writeVarint tag ++ data
  let hash := cnFastHash buf
  encode (buf ++ hash.bytes.take addrChecksumSize)

/-- decode_addr: `none` where it returns false. The checksum is checked before the tag is read,
and the tag must take at least one byte. -/
def decodeAddr (cnFastHash : List UInt8 → Serialization.Blob 32) (addr : List Char) :
    Option (UInt64 × List UInt8) :=
  match decode addr with
  | none => none
  | some addrData =>
    if addrData.length ≤ addrChecksumSize then none
    else
      let checksum := addrData.drop (addrData.length - addrChecksumSize)
      let addrData := addrData.take (addrData.length - addrChecksumSize)
      let expectedChecksum := (cnFastHash addrData).bytes.take addrChecksumSize
      if expectedChecksum ≠ checksum then none
      else
        let (tag, read, _) := Serialization.readVarint 64 addrData
        if read ≤ 0 then none
        else some (UInt64.ofNat tag, addrData.drop read.toNat)

/-! ## The tables -/

theorem alphabetSize_eq : alphabetSize = 58 := by decide

theorem fullBlockSize_eq : fullBlockSize = 8 := rfl

theorem fullEncodedBlockSize_eq : fullEncodedBlockSize = 11 := rfl

/-- An entry of the reverse table at offset `k`: `-1`, or the digit of the letter at that
offset. -/
def ReverseEntry (k : Nat) (entry : Int) : Prop :=
  entry = -1 ∨ ∃ d < alphabetSize, entry = d ∧ (letter d).toNat - (letter 0).toNat = k

/-- Setting the entry of each letter keeps every entry `-1` or the digit of its letter. -/
theorem foldl_set_reverseEntry (k : Nat) : ∀ (digits : List Nat) (table : List Int),
    (∀ d ∈ digits, d < alphabetSize) → ReverseEntry k (table.getD k (-1)) →
    ReverseEntry k ((digits.foldl
      (fun table i => table.set ((letter i).toNat - (letter 0).toNat) i) table).getD k (-1))
  | [], _, _, entry => entry
  | i :: digits, table, below, entry => by
    rw [List.foldl_cons]
    apply foldl_set_reverseEntry k digits _ fun d mem => below d (List.mem_cons_of_mem i mem)
    rw [List.getD_eq_getElem?_getD, List.getElem?_set]
    split_ifs with here inside
    · exact Or.inr ⟨i, below i List.mem_cons_self, rfl, here⟩
    · exact Or.inl rfl
    · rw [← List.getD_eq_getElem?_getD]
      exact entry

theorem reverseAlphabetTable_entry (k : Nat) : ReverseEntry k (reverseAlphabetTable.getD k (-1)) := by
  apply foldl_set_reverseEntry k _ _ fun d mem => List.mem_range.mp mem
  rw [List.getD_eq_getElem?_getD, List.getElem?_replicate]
  split_ifs <;> exact Or.inl rfl

theorem reverseAlphabet_letter : ∀ d < 58, reverseAlphabet (letter d) = d := by decide

theorem letter_zero_le : ∀ d < 58, (letter 0).toNat ≤ (letter d).toNat := by decide

/-- A character with a digit is the letter of that digit. -/
theorem letter_reverseAlphabet {c : Char} (valid : 0 ≤ reverseAlphabet c) :
    (reverseAlphabet c).toNat < 58 ∧ letter (reverseAlphabet c).toNat = c := by
  unfold reverseAlphabet at valid ⊢
  split_ifs at valid ⊢ with above
  · rcases reverseAlphabetTable_entry (c.toNat - (letter 0).toNat) with
      none | ⟨d, digit, entry, offset⟩
    · rw [none] at valid
      exact absurd valid (by decide)
    · rw [alphabetSize_eq] at digit
      have low := letter_zero_le d digit
      rw [entry, Int.toNat_natCast]
      exact ⟨digit, Char.toNat_inj.mp (by omega)⟩
  · exact absurd valid (by decide)

theorem decodedBlockSize_encoded : ∀ n ≤ 8, decodedBlockSize (encodedBlockSizes.getD n 0) = n := by
  decide

/-- A length up to a full encoded block that decodes to some bytes is the encoded size of those
bytes. -/
theorem encoded_decodedBlockSize : ∀ k ≤ 11, 0 ≤ decodedBlockSize k →
    (decodedBlockSize k).toNat ≤ 8 ∧ encodedBlockSizes.getD (decodedBlockSize k).toNat 0 = k := by
  decide

/-- Every `n`-byte number has `encoded_block_sizes[n]` base-58 digits. -/
theorem pow_le_pow_encodedBlockSize : ∀ n ≤ 8, 256 ^ n ≤ 58 ^ encodedBlockSizes.getD n 0 := by
  decide

/-- Only a full block takes a full encoded block; only the empty block takes none. -/
theorem encodedBlockSize_lt : ∀ n < 8, 0 < n → 0 < encodedBlockSizes.getD n 0 ∧
    encodedBlockSizes.getD n 0 < 11 := by
  decide

theorem encodedBlockSize_eq_full {n : Nat} (full : encodedBlockSizes.getD n 0 = 11) : n = 8 := by
  by_cases short : n ≤ 8
  · revert full
    revert n
    decide
  · rw [List.getD_eq_getElem?_getD, List.getElem?_eq_none (by simp [encodedBlockSizes]; omega),
      Option.getD_none] at full
    cases full

/-! ## The bytes of a block -/

theorem foldl_shiftLeft_or : ∀ (data : List UInt8) (init : Nat),
    data.foldl (fun res byte => res <<< 8 ||| byte.toNat) init =
      init * 256 ^ data.length + Words.beValue data
  | [], init => by rw [List.foldl_nil, List.length_nil, Nat.pow_zero, Nat.mul_one, Words.beValue,
      Nat.add_zero]
  | byte :: data, init => by
    rw [List.foldl_cons, ← Nat.shiftLeft_add_eq_or_of_lt byte.toNat_lt, Nat.shiftLeft_eq,
      foldl_shiftLeft_or data, Words.beValue, List.length_cons, Nat.pow_succ]
    ring

/-- uint_8be_to_64 reads the big-endian number of the bytes. -/
theorem uint8beTo64_eq (data : List UInt8) : uint8beTo64 data = Words.beValue data := by
  rw [uint8beTo64, foldl_shiftLeft_or, Nat.zero_mul, Nat.zero_add]

theorem uint64To8be_succ (num size : Nat) :
    uint64To8be num (size + 1) = UInt8.ofNat (num >>> (8 * size)) :: uint64To8be num size := by
  rw [uint64To8be, uint64To8be, List.range_succ, List.reverse_append, List.map_append]
  rfl

theorem length_uint64To8be (num size : Nat) : (uint64To8be num size).length = size := by
  rw [uint64To8be, List.length_map, List.length_reverse, List.length_range]

/-- uint_64_to_8be keeps the number's low bytes. -/
theorem beValue_uint64To8be (num : Nat) :
    ∀ size, Words.beValue (uint64To8be num size) = num % 256 ^ size
  | 0 => by rw [Nat.pow_zero, Nat.mod_one]; rfl
  | size + 1 => by
    rw [Nat.mod_pow_succ (b := 256), uint64To8be_succ, Words.beValue, length_uint64To8be,
      beValue_uint64To8be num size, UInt8.toNat_ofNat', Nat.shiftRight_eq_div_pow, Nat.pow_mul]
    ring

theorem uint64To8be_beValue (bytes : List UInt8) :
    uint64To8be (Words.beValue bytes) bytes.length = bytes :=
  Words.beValue_injective (length_uint64To8be _ _)
    (by rw [beValue_uint64To8be, Nat.mod_eq_of_lt (Words.beValue_lt bytes)])

/-! ## encode_block -/

theorem length_encodeBlockLoop : ∀ (fuel num i : Nat) (res : List Char),
    (encodeBlockLoop fuel num i res).length = res.length
  | 0, _, _, _ => rfl
  | fuel + 1, num, i, res => by
    rw [encodeBlockLoop]
    split
    · rw [length_encodeBlockLoop, List.length_set]
    · rfl

theorem length_encodeBlock (block : List UInt8) :
    (encodeBlock block).length = encodedBlockSizes.getD block.length 0 := by
  rw [encodeBlock, length_encodeBlockLoop, List.length_replicate]

theorem set_replicate_append {α : Type} (a x : α) (n : Nat) (rest : List α) :
    (List.replicate (n + 1) a ++ rest).set n x = List.replicate n a ++ x :: rest := by
  rw [List.replicate_succ', List.append_assoc, List.set_append_right _ _ (by simp),
    List.length_replicate, Nat.sub_self]
  rfl

/-- The loop writes the `w` digits of a number below `58 ^ w` over `w` first letters, the most
significant first; the induction is on the digits left to write. -/
theorem encodeBlockLoop_eq : ∀ (w num : Nat) (rest : List Char), num < 58 ^ w →
    encodeBlockLoop w num (w - 1) (List.replicate w (letter 0) ++ rest) =
      (Radix.fixedDigits 58 w num).reverse.map letter ++ rest
  | 0, _, _, _ => rfl
  | w + 1, num, rest, fits => by
    rw [encodeBlockLoop, alphabetSize_eq]
    by_cases zero : num = 0
    · -- the digits left are zeros, which the buffer already holds
      subst zero
      rw [if_neg (Nat.lt_irrefl 0), Radix.fixedDigits_zero, List.reverse_replicate,
        List.map_replicate]
    · have next : num / 58 < 58 ^ w := by
        rw [Nat.div_lt_iff_lt_mul (by decide), ← Nat.pow_succ]
        exact fits
      rw [if_pos (Nat.pos_of_ne_zero zero), Nat.add_sub_cancel, set_replicate_append,
        encodeBlockLoop_eq w (num / 58) _ next, Radix.fixedDigits, List.reverse_cons,
        List.map_append, List.append_assoc]
      rfl

/-- encode_block writes the block's number as its `encoded_block_sizes[n]` base-58 digits, the
most significant first. -/
theorem encodeBlock_eq {block : List UInt8} (short : block.length ≤ 8) :
    encodeBlock block = (Radix.fixedDigits 58 (encodedBlockSizes.getD block.length 0)
      (Words.beValue block)).reverse.map letter := by
  have fits : Words.beValue block < 58 ^ encodedBlockSizes.getD block.length 0 :=
    Nat.lt_of_lt_of_le (Words.beValue_lt block) (pow_le_pow_encodedBlockSize _ short)
  have loop := encodeBlockLoop_eq _ _ [] fits
  rw [List.append_nil, List.append_nil] at loop
  rw [encodeBlock, uint8beTo64_eq]
  exact loop

example : encodeBlock [0xFF, 0xFF, 0xFF, 0xFF, 0xFF, 0xFF, 0xFF, 0xFF] = "jpXCZedGfVQ".toList := by
  decide

/-! ## decode_block -/

/-- The number the digits of a block's characters make, the first character the least
significant. -/
def digitsValue (cs : List Char) : Nat :=
  Nat.ofDigits 58 (cs.map fun c => (reverseAlphabet c).toNat)

theorem map_reverseAlphabet_letter {ds : List Nat} (below : ∀ d ∈ ds, d < 58) :
    (ds.map letter).map (fun c => (reverseAlphabet c).toNat) = ds := by
  rw [List.map_map]
  conv_rhs => rw [← List.map_id ds]
  exact List.map_congr_left fun d mem => by
    rw [Function.comp_apply, reverseAlphabet_letter d (below d mem), Int.toNat_natCast, id]

theorem map_letter_reverseAlphabet {cs : List Char} (valid : ∀ c ∈ cs, 0 ≤ reverseAlphabet c) :
    (cs.map fun c => (reverseAlphabet c).toNat).map letter = cs := by
  rw [List.map_map]
  conv_rhs => rw [← List.map_id cs]
  exact List.map_congr_left fun c mem => (letter_reverseAlphabet (valid c mem)).2

theorem digits_lt {cs : List Char} (valid : ∀ c ∈ cs, 0 ≤ reverseAlphabet c) :
    ∀ d ∈ cs.map fun c => (reverseAlphabet c).toNat, d < 58 := by
  intro d member
  obtain ⟨c, mem, rfl⟩ := List.mem_map.mp member
  exact (letter_reverseAlphabet (valid c mem)).1

theorem valid_map_letter {ds : List Nat} (below : ∀ d ∈ ds, d < 58) :
    ∀ c ∈ ds.map letter, 0 ≤ reverseAlphabet c := by
  intro c member
  obtain ⟨d, mem, rfl⟩ := List.mem_map.mp member
  rw [reverseAlphabet_letter d (below d mem)]
  exact Int.natCast_nonneg d

theorem digitsValue_map_letter {ds : List Nat} (below : ∀ d ∈ ds, d < 58) :
    digitsValue (ds.map letter) = Nat.ofDigits 58 ds := by
  rw [digitsValue, map_reverseAlphabet_letter below]

/-- The check of decode_block on one digit: with the product's high word, a carry out of the sum
is seen exactly when the true sum reaches `2 ^ 64`. -/
theorem carry_or_high_iff {resNum product : Nat} (fits : resNum < 2 ^ 64) :
    (resNum + product % 2 ^ 64) % 2 ^ 64 < resNum ∨ product / 2 ^ 64 ≠ 0 ↔
      2 ^ 64 ≤ resNum + product := by
  omega

theorem all_valid_iff {cs : List Char} :
    (cs.all fun c => 0 ≤ reverseAlphabet c) ↔ ∀ c ∈ cs, 0 ≤ reverseAlphabet c := by
  rw [List.all_eq_true]
  exact forall₂_congr fun c _ => decide_eq_true_iff

/-- The digit loop of decode_block adds the digits at their orders, and refuses exactly a
character out of the alphabet or a sum from `2 ^ 64` on. The orders it multiplies by stay below
`2 ^ 64`; the induction is on the characters left. -/
theorem decodeBlockLoop_eq : ∀ (cs : List Char) (resNum order : Nat), resNum < 2 ^ 64 →
    order * 58 ^ (cs.length - 1) < 2 ^ 64 →
    decodeBlockLoop cs resNum order =
      if (cs.all fun c => 0 ≤ reverseAlphabet c) ∧ resNum + order * digitsValue cs < 2 ^ 64 then
        some (resNum + order * digitsValue cs) else none
  | [], resNum, _, fits, _ => by
    have empty : digitsValue [] = 0 := rfl
    rw [decodeBlockLoop, empty, Nat.mul_zero, Nat.add_zero,
      if_pos ⟨List.all_nil, fits⟩]
  | c :: rest, resNum, order, fits, orderFits => by
    rw [decodeBlockLoop]
    by_cases invalid : reverseAlphabet c < 0
    · rw [if_pos invalid,
        if_neg fun ⟨valid, _⟩ =>
          absurd ((all_valid_iff.mp valid) c List.mem_cons_self) (Int.not_le.mpr invalid)]
    have valid : 0 ≤ reverseAlphabet c := Int.not_lt.mp invalid
    set d := (reverseAlphabet c).toNat with digitEq
    have digit : d < 58 := (letter_reverseAlphabet valid).1
    have orderLt : order < 2 ^ 64 :=
      Nat.lt_of_le_of_lt (Nat.le_mul_of_pos_right _ (Nat.pow_pos (by decide))) orderFits
    have value : order * digitsValue (c :: rest) = order * d + 58 * (order * digitsValue rest) := by
      rw [digitsValue, List.map_cons, Nat.ofDigits_cons, ← digitsValue]
      ring
    rw [if_neg invalid, mul128_eq orderLt (by omega)]
    dsimp only
    simp only [carry_or_high_iff fits, List.all_cons, valid, decide_true, Bool.true_and, value]
    by_cases overflow : 2 ^ 64 ≤ resNum + order * d
    · rw [if_pos overflow, if_neg (by omega)]
    have tmp : (resNum + order * d % 2 ^ 64) % 2 ^ 64 = resNum + order * d := by omega
    rw [if_neg overflow, tmp, alphabetSize_eq]
    -- after the last digit the order is not used again, so its wrap does not matter
    rcases rest with _ | ⟨c', rest'⟩
    · have empty : digitsValue [] = 0 := rfl
      rw [decodeBlockLoop, empty, Nat.mul_zero, Nat.mul_zero, Nat.add_zero,
        if_pos ⟨List.all_nil, by omega⟩]
    · rw [List.length_cons, Nat.add_sub_cancel, List.length_cons, Nat.pow_succ', ← Nat.mul_assoc]
        at orderFits
      have nextOrder : order * 58 < 2 ^ 64 :=
        Nat.lt_of_le_of_lt (Nat.le_mul_of_pos_right _ (Nat.pow_pos (by decide : 0 < 58))) orderFits
      have regroup : resNum + order * d + order * 58 * digitsValue (c' :: rest') =
          resNum + (order * d + 58 * (order * digitsValue (c' :: rest'))) := by ring
      rw [Nat.mod_eq_of_lt nextOrder, decodeBlockLoop_eq (c' :: rest') _ _ (by omega) (by
        rw [List.length_cons, Nat.add_sub_cancel]
        exact orderFits), regroup]

/-- The orders of a block's digits fit 64 bits. -/
theorem order_fits {cs : List Char} (short : cs.length ≤ 11) : 1 * 58 ^ (cs.length - 1) < 2 ^ 64 :=
  calc 1 * 58 ^ (cs.length - 1) ≤ 58 ^ 10 := by
        rw [Nat.one_mul]
        exact Nat.pow_le_pow_right (by decide) (by omega)
    _ < 2 ^ 64 := by decide

theorem encodedBlockSize_le_full : ∀ n ≤ 8, encodedBlockSizes.getD n 0 ≤ 11 := by decide

/-- decode_block reads back a block that encode_block wrote. -/
theorem decodeBlock_encodeBlock {block : List UInt8} (nonempty : block ≠ [])
    (short : block.length ≤ 8) : decodeBlock (encodeBlock block) = some block := by
  have sized := List.length_pos_iff.mpr nonempty
  have digits := Radix.fixedDigits_lt (b := 58) (by decide) (encodedBlockSizes.getD block.length 0)
    (Words.beValue block)
  have value : Words.beValue block < 2 ^ (8 * block.length) := by
    rw [Nat.pow_mul]
    exact Words.beValue_lt block
  have below : Words.beValue block < 2 ^ 64 :=
    Nat.lt_of_lt_of_le value (Nat.pow_le_pow_right (by decide) (by omega))
  have fitsDigits : Words.beValue block < 58 ^ encodedBlockSizes.getD block.length 0 :=
    Nat.lt_of_lt_of_le (Words.beValue_lt block) (pow_le_pow_encodedBlockSize _ short)
  have orders := @order_fits ((Radix.fixedDigits 58 (encodedBlockSizes.getD block.length 0)
    (Words.beValue block)).map letter) (by
      rw [List.length_map, Radix.length_fixedDigits]
      exact encodedBlockSize_le_full _ short)
  rw [decodeBlock]
  rw [length_encodeBlock, decodedBlockSize_encoded _ short, if_neg (by omega), encodeBlock_eq short,
    List.map_reverse, List.reverse_reverse, decodeBlockLoop_eq _ 0 1 (by decide) orders,
    digitsValue_map_letter digits, Radix.ofDigits_fixedDigits, Nat.mod_eq_of_lt fitsDigits,
    if_pos ⟨all_valid_iff.mpr (valid_map_letter digits), by omega⟩]
  dsimp only
  rw [Int.toNat_natCast, if_neg (by omega), Nat.zero_add, Nat.one_mul, uint64To8be_beValue]

/-- What decode_block accepts is the encoding of the bytes it returns, as many bytes as the table
gives for the block's length. -/
theorem encodeBlock_of_decodeBlock {block : List Char} {bytes : List UInt8}
    (short : block.length ≤ 11) (decoded : decodeBlock block = some bytes) :
    bytes.length = (decodedBlockSize block.length).toNat ∧ encodeBlock bytes = block := by
  rw [decodeBlock] at decoded
  split_ifs at decoded with empty
  obtain ⟨sizeLe, sized⟩ := encoded_decodedBlockSize _ short (by omega)
  cases loop : decodeBlockLoop block.reverse 0 1 with
  | none =>
    rw [loop] at decoded
    cases decoded
  | some v =>
    rw [loop] at decoded
    dsimp only at decoded
    rw [decodeBlockLoop_eq _ 0 1 (by decide) (order_fits (by rw [List.length_reverse]; exact short))]
      at loop
    split_ifs at loop with accepted
    obtain ⟨allValid, fits⟩ := accepted
    have valid := all_valid_iff.mp allValid
    rw [Nat.zero_add, Nat.one_mul] at loop fits
    have value := (Option.some.inj loop).symm
    split_ifs at decoded with large
    rw [← Option.some.inj decoded]
    -- the value fits the bytes: by the check for a short block, by 64 bits for a full one
    have fitsBytes : v < 256 ^ (decodedBlockSize block.length).toNat := by
      rw [show (256 : Nat) = 2 ^ 8 by rfl, ← Nat.pow_mul]
      rw [fullBlockSize_eq] at large
      by_cases full : (decodedBlockSize block.length).toNat = 8
      · rw [full]
        omega
      · omega
    have digitCount : (block.reverse.map fun c => (reverseAlphabet c).toNat).length = block.length := by
      rw [List.length_map, List.length_reverse]
    refine ⟨length_uint64To8be _ _, ?_⟩
    rw [encodeBlock_eq (by rw [length_uint64To8be]; exact sizeLe), length_uint64To8be,
      beValue_uint64To8be, Nat.mod_eq_of_lt fitsBytes, sized, ← digitCount, value, digitsValue,
      Radix.fixedDigits_ofDigits (digits_lt valid), List.map_reverse,
      map_letter_reverseAlphabet valid, List.reverse_reverse]

/-! ## Strings -/

/-- encode as the blocks it writes: the encoded full blocks, then the encoded last block. -/
theorem encode_eq {data : List UInt8} (nonempty : data ≠ []) :
    encode data =
      (((List.range (data.length / 8)).map fun i => Blocks.block 8 i data).map encodeBlock).flatten ++
        if 0 < data.length % 8 then encodeBlock (data.drop (data.length / 8 * 8)) else [] := by
  rw [encode, if_neg nonempty, fullBlockSize_eq]
  dsimp only
  rw [List.flatMap_def, List.map_map]
  rfl

/-- The full blocks of a string are full. -/
theorem length_of_mem_blocks {α : Type} {n q : Nat} {l : List α} (inside : q * n ≤ l.length) :
    ∀ x ∈ (List.range q).map fun i => Blocks.block n i l, x.length = n := by
  intro x member
  obtain ⟨i, mem, rfl⟩ := List.mem_map.mp member
  have before := List.mem_range.mp mem
  exact Blocks.length_block (Nat.le_trans (Nat.mul_le_mul_right n before) inside)

/-- The encoding of a full block is a full encoded block. -/
theorem length_of_mem_encoded_blocks {q : Nat} {data : List UInt8} (inside : q * 8 ≤ data.length) :
    ∀ y ∈ ((List.range q).map fun i => Blocks.block 8 i data).map encodeBlock, y.length = 11 := by
  intro y member
  obtain ⟨x, mem, rfl⟩ := List.mem_map.mp member
  rw [length_encodeBlock, length_of_mem_blocks inside x mem]
  rfl

/-- encode writes eleven letters for each full block and `encoded_block_sizes[n]` for a last
block of `n` bytes. -/
theorem length_encode (data : List UInt8) :
    (encode data).length = data.length / 8 * 11 + encodedBlockSizes.getD (data.length % 8) 0 := by
  by_cases empty : data = []
  · subst empty
    rfl
  rw [encode_eq empty, List.length_append,
    Blocks.length_flatten_of_length (length_of_mem_encoded_blocks (Nat.div_mul_le_self _ 8)),
    List.length_map, List.length_map, List.length_range]
  split_ifs with hasLast
  · rw [length_encodeBlock, List.length_drop,
      show data.length - data.length / 8 * 8 = data.length % 8 by omega]
  · rw [show data.length % 8 = 0 by omega]
    rfl

/-- decode reads back every string encode writes. -/
theorem decode_encode (data : List UInt8) : decode (encode data) = some data := by
  by_cases empty : data = []
  · subst empty
    rfl
  rw [encode_eq empty]
  set q := data.length / 8
  set r := data.length % 8
  set full := (List.range q).map fun i => Blocks.block 8 i data with fullEq
  set last := if 0 < r then encodeBlock (data.drop (q * 8)) else [] with lastEq
  have fullSized : ∀ x ∈ full, x.length = 8 := length_of_mem_blocks (by omega)
  have encodedSized : ∀ y ∈ full.map encodeBlock, y.length = 11 :=
    length_of_mem_encoded_blocks (by omega)
  have fullCount : (full.map encodeBlock).length = q := by
    rw [List.length_map, List.length_map, List.length_range]
  have restLength : (data.drop (q * 8)).length = r := by
    rw [List.length_drop]
    omega
  have lastSize : encodedBlockSizes.getD r 0 < 11 ∧ (0 < r ↔ 0 < encodedBlockSizes.getD r 0) := by
    by_cases zero : r = 0
    · rw [zero]
      decide
    · have := encodedBlockSize_lt r (by omega) (by omega)
      omega
  have lastLength : last.length = encodedBlockSizes.getD r 0 := by
    rw [lastEq]
    split_ifs with hasLast
    · rw [length_encodeBlock, restLength]
    · rw [show r = 0 by omega]
      rfl
  have fullLength : (full.map encodeBlock).flatten.length = q * 11 := by
    rw [Blocks.length_flatten_of_length encodedSized, fullCount]
  have whole : full.flatten ++ data.drop (q * 8) = data := by
    rw [fullEq, ← List.flatMap_def]
    exact Blocks.flatMap_range_block_append_drop 8 q data
  rw [decode, if_neg (by
    intro nothing
    have := congrArg List.length nothing
    rw [List.length_append, fullLength, lastLength, List.length_nil] at this
    have sized := List.length_pos_iff.mpr empty
    omega)]
  have length : ((full.map encodeBlock).flatten ++ last).length = q * 11 + encodedBlockSizes.getD r 0 := by
    rw [List.length_append, fullLength, lastLength]
  dsimp only
  rw [fullEncodedBlockSize_eq, length, show (q * 11 + encodedBlockSizes.getD r 0) / 11 = q by omega,
    show (q * 11 + encodedBlockSizes.getD r 0) % 11 = encodedBlockSizes.getD r 0 by omega,
    decodedBlockSize_encoded r (by omega), if_neg (by omega)]
  -- the full blocks are cut out of the encoding where encode wrote them, and each decodes back
  have blocks : (List.range q).map (fun i => Blocks.block 11 i ((full.map encodeBlock).flatten ++ last)) =
      full.map encodeBlock := by
    rw [← fullCount]
    exact Blocks.map_range_block_flatten last encodedSized
  rw [show ((List.range q).mapM fun i => decodeBlock (Blocks.block 11 i ((full.map encodeBlock).flatten ++ last))) =
      ((List.range q).map fun i => Blocks.block 11 i ((full.map encodeBlock).flatten ++ last)).mapM decodeBlock
      from (List.mapM_map (m := Option) (g := decodeBlock)).symm, blocks,
    Blocks.mapM_map_eq_some fun x mem => decodeBlock_encodeBlock
      (List.ne_nil_of_length_pos (by rw [fullSized x mem]; decide)) (by rw [fullSized x mem]),
    Option.bind_some, List.drop_left' fullLength]
  by_cases hasLast : 0 < r
  · rw [if_pos (lastSize.2.mp hasLast), lastEq, if_pos hasLast,
      decodeBlock_encodeBlock (List.ne_nil_of_length_pos (by omega)) (by omega)]
    exact congrArg some whole
  · rw [if_neg (by omega)]
    rw [List.drop_eq_nil_of_le (by omega), List.append_nil] at whole
    rw [Option.map_some, List.append_nil, whole]

/-- What decode accepts is the encoding of what it returns. -/
theorem encode_of_decode {enc : List Char} {data : List UInt8} (decoded : decode enc = some data) :
    encode data = enc := by
  rw [decode] at decoded
  by_cases empty : enc = []
  · rw [if_pos empty] at decoded
    rw [empty, ← Option.some.inj decoded]
    rfl
  rw [if_neg empty] at decoded
  dsimp only at decoded
  rw [fullEncodedBlockSize_eq] at decoded
  by_cases lastInvalid : decodedBlockSize (enc.length % 11) < 0
  · rw [if_pos lastInvalid] at decoded
    cases decoded
  rw [if_neg lastInvalid] at decoded
  set q := enc.length / 11 with qEq
  set k := enc.length % 11 with kEq
  obtain ⟨lastLe, lastSized⟩ := encoded_decodedBlockSize k (by omega) (by omega)
  set n := (decodedBlockSize k).toNat with nEq
  -- a last block shorter than a full encoded block decodes to fewer than eight bytes
  have lastShort : n < 8 := by
    by_contra full
    rw [show n = 8 by omega, show encodedBlockSizes.getD 8 0 = 11 from rfl] at lastSized
    omega
  have lastPos : 0 < k ↔ 0 < n := by
    by_cases zero : n = 0
    · rw [zero] at lastSized
      rw [zero, ← lastSized]
      decide
    · have := encodedBlockSize_lt n lastShort (by omega)
      omega
  set blocks := (List.range q).map fun i => Blocks.block 11 i enc with blocksEq
  have blocksSized : ∀ b ∈ blocks, b.length = 11 := length_of_mem_blocks (by omega)
  rw [show ((List.range q).mapM fun i => decodeBlock (Blocks.block 11 i enc)) =
      blocks.mapM decodeBlock from (List.mapM_map (m := Option) (g := decodeBlock)).symm] at decoded
  cases walk : blocks.mapM decodeBlock with
  | none =>
    rw [walk] at decoded
    cases decoded
  | some full =>
    rw [walk, Option.bind_some] at decoded
    -- the full blocks decode to eight bytes each and encode back
    have fullEnc : full.map encodeBlock = blocks := Blocks.map_of_mapM_eq_some (fun b mem bytes dec =>
      (encodeBlock_of_decodeBlock (by rw [blocksSized b mem]) dec).2) walk
    have fullSized : ∀ x ∈ full, x.length = 8 := by
      intro x mem
      have encoded := blocksSized (encodeBlock x) (fullEnc ▸ List.mem_map_of_mem mem)
      rw [length_encodeBlock] at encoded
      exact encodedBlockSize_eq_full encoded
    have fullCount : full.length = q := by
      rw [← List.length_map (f := encodeBlock), fullEnc, blocksEq, List.length_map, List.length_range]
    have fullLength : full.flatten.length = q * 8 := by
      rw [Blocks.length_flatten_of_length fullSized, fullCount]
    have blocksLength : blocks.flatten.length = q * 11 := by
      rw [Blocks.length_flatten_of_length blocksSized, blocksEq, List.length_map, List.length_range]
    have whole : blocks.flatten ++ enc.drop (q * 11) = enc := by
      rw [blocksEq, ← List.flatMap_def]
      exact Blocks.flatMap_range_block_append_drop 11 q enc
    have restLength : (enc.drop (q * 11)).length = k := by
      rw [List.length_drop]
      omega
    -- the bytes of the last block, with their encoding
    obtain ⟨last, dataEq, lastLength, lastEnc⟩ : ∃ last, data = full.flatten ++ last ∧
        last.length = n ∧ (if 0 < n then encodeBlock last else []) = enc.drop (q * 11) := by
      by_cases hasLast : 0 < k
      · rw [if_pos hasLast] at decoded
        cases lastDecoded : decodeBlock (enc.drop (q * 11)) with
        | none =>
          rw [lastDecoded] at decoded
          cases decoded
        | some last =>
          rw [lastDecoded, Option.map_some] at decoded
          obtain ⟨size, encoded⟩ := encodeBlock_of_decodeBlock (by omega) lastDecoded
          rw [restLength] at size
          exact ⟨last, (Option.some.inj decoded).symm, size, by rw [if_pos (lastPos.mp hasLast), encoded]⟩
      · rw [if_neg hasLast, Option.map_some] at decoded
        refine ⟨[], (Option.some.inj decoded).symm, by rw [List.length_nil]; omega, ?_⟩
        rw [if_neg (by omega), List.drop_eq_nil_of_le (by omega)]
    have nonempty : data ≠ [] := by
      intro nothing
      have := congrArg List.length nothing
      rw [dataEq, List.length_append, fullLength, lastLength, List.length_nil] at this
      exact empty (List.eq_nil_of_length_eq_zero (by omega))
    have dataLength : data.length = q * 8 + n := by rw [dataEq, List.length_append, fullLength, lastLength]
    rw [encode_eq nonempty, show data.length / 8 = q by omega, show data.length % 8 = n by omega]
    have cut : (List.range q).map (fun i => Blocks.block 8 i data) = full := by
      rw [dataEq, ← fullCount]
      exact Blocks.map_range_block_flatten last fullSized
    rw [cut, fullEnc, dataEq, List.drop_left' fullLength, lastEnc, whole]

/-- Base58 is a bijection between byte strings and the strings decode accepts: decode reads back
every encoding, and accepts nothing but encodings. -/
theorem base58_encode_decode_bijection :
    (∀ data : List UInt8, decode (encode data) = some data) ∧
      ∀ (enc : List Char) (data : List UInt8), decode enc = some data → encode data = enc :=
  ⟨decode_encode, fun _ _ decoded => encode_of_decode decoded⟩

theorem base58_encodes_ff : encode [0xFF] = "5Q".toList :=
  base58_encode_decode_bijection.2 _ _ (by decide)

/-! ## Addresses -/

/-- decode_addr reads back the tag and the data of every address encode_addr writes: the varint
of the tag ends where the data begins. -/
theorem decodeAddr_encodeAddr (cnFastHash : List UInt8 → Serialization.Blob 32) (tag : UInt64)
    (data : List UInt8) :
    decodeAddr cnFastHash (encodeAddr cnFastHash tag data) = some (tag, data) := by
  rw [decodeAddr, encodeAddr]
  dsimp only
  rw [decode_encode]
  dsimp only
  set buf := Serialization.writeVarint tag ++ data with bufEq
  set checksum := (cnFastHash buf).bytes.take addrChecksumSize with checksumEq
  have checksumLength : checksum.length = addrChecksumSize := by
    rw [checksumEq, List.length_take, (cnFastHash buf).length_eq]
    rfl
  have length : (buf ++ checksum).length - addrChecksumSize = buf.length := by
    rw [List.length_append, checksumLength, Nat.add_sub_cancel]
  have tagged : 0 < (Serialization.writeVarint tag).length :=
    List.length_pos_iff.mpr (Serialization.writeVarint_ne_nil tag)
  rw [if_neg (by rw [List.length_append, checksumLength, bufEq, List.length_append]; omega), length,
    List.take_left, List.drop_left, if_neg (not_not.mpr rfl), bufEq,
    Serialization.readVarint_writeVarint]
  dsimp only
  rw [if_neg (by omega), Int.toNat_natCast, List.drop_left, UInt64.ofNat_toNat]

/-- The length of an address with a one-byte tag: the data and five bytes more, in blocks. -/
theorem length_encodeAddr (cnFastHash : List UInt8 → Serialization.Blob 32) {tag : UInt64}
    (small : tag.toNat < 128) (data : List UInt8) :
    (encodeAddr cnFastHash tag data).length =
      (data.length + 5) / 8 * 11 + encodedBlockSizes.getD ((data.length + 5) % 8) 0 := by
  have tagByte : (Serialization.writeVarint tag).length = 1 := by
    rw [Serialization.writeVarint, Serialization.writeVarintLoop_of_lt small, List.length_singleton]
  have checksum : ((cnFastHash (Serialization.writeVarint tag ++ data)).bytes.take
      addrChecksumSize).length = 4 := by
    rw [List.length_take, (cnFastHash _).length_eq]
    rfl
  rw [encodeAddr, length_encode, List.length_append, List.length_append, tagByte, checksum,
    show 1 + data.length + 4 = data.length + 5 by omega]

end GraftNetwork.Common.Base58

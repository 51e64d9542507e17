import GraftNetwork.Lib.Radix
import GraftNetwork.Serialization.RctTypes

/-!
# Amount conversions of RingCT (ringct/rctTypes.cpp)

An amount (`xmr_amount`, a `uint64_t`) has three forms: the integer, a 32-byte `key` holding it
little-endian in its first eight bytes, and a `bits` array of `ATOMS = 64` unsigned integers
holding its bits, the lowest first. `d2h` and `d2b` write an amount out, `h2d` and `b2d` read it
back, and `h2b` and `b2h` convert between the key and the bits.

Each conversion is its loop as the source writes it. The writers stop when the value reaches
zero: `d2h` leaves the zeros of `sc_0` after the bytes it writes, while `d2b`, and `h2b` for each
byte, write zeros to the end of their range (`writeBits`). The readers take the digits from the
most significant down in a machine word (`readDigitsLoop`).

* `d2h_bytes`, `d2b_values`, `h2b_values`: what the writers write, as fixed-width digits.
* `h2d_toNat`, `b2d_toNat`, `b2h_bytes`: what the readers compute from any key or array; `h2d`
  reads bytes 0 to 7 only.
* `amount_encodings_inverse`: on the amounts the conversions are mutually inverse.
-/

namespace GraftNetwork.Ringct

open GraftNetwork.Serialization (Key Blob)

/-- `ATOMS`, the number of bits of an amount. -/
def ATOMS : Nat := 64

/-- rct::bits: `unsigned int[ATOMS]`. -/
@[ext] structure Bits where
  values : List UInt32
  length_eq : values.length = ATOMS
deriving DecidableEq, Repr

/-! ## The loops -/

/-- The loop of `d2h` from byte `i` on: while the value is not zero, byte `i` takes its low byte
and the value is divided by 256; the bytes after keep what they held. -/
def d2hLoop : UInt64 → List UInt8 → List UInt8
  | _, [] => []
  | val, byte :: rest =>
    if val ≠ 0 then (val &&& 0xFF).toUInt8 :: d2hLoop (val / 256) rest else byte :: rest

/-- The two loops of `d2b` over the whole array, and of `h2b` over the eight entries of one byte:
while the value is not zero, entry `i` takes its low bit and the value is shifted right; the
entries left are then set to zero. -/
def writeBits : Nat → List UInt32 → List UInt32
  | _, [] => []
  | val, entry :: rest =>
    if val ≠ 0 then UInt32.ofNat (val &&& 1) :: writeBits (val >>> 1) rest
    else (entry :: rest).map fun _ => 0

/-- The loop of `h2b` over the bytes `j = 0 .. 7` of the key: byte `j` is written by `writeBits`
to entries `8 j` to `8 j + 7`. -/
def h2bLoop : List UInt8 → List UInt32 → List UInt32
  | [], amountb2 => amountb2
  | byte :: bytes, amountb2 =>
    writeBits byte.toNat (amountb2.take 8) ++ h2bLoop bytes (amountb2.drop 8)

/-- The loops of `h2d`, `b2d` and `b2h` that read a number from its digits, the most significant
first, `for (j = n - 1; j >= 0; j--) v = v * base + digit(j)`, in a word of `width` bits. -/
def readDigitsLoop (width base : Nat) (digit : Nat → Nat) : Nat → Nat → Nat
  | 0, v => v
  | j + 1, v => readDigitsLoop width base digit j ((v * base + digit j) % 2 ^ width)

theorem length_d2hLoop :
    ∀ (val : UInt64) (bytes : List UInt8), (d2hLoop val bytes).length = bytes.length
  | _, [] => rfl
  | val, byte :: rest => by
    rw [d2hLoop]
    split
    · rw [List.length_cons, List.length_cons, length_d2hLoop]
    · rfl

theorem length_writeBits :
    ∀ (val : Nat) (entries : List UInt32), (writeBits val entries).length = entries.length
  | _, [] => rfl
  | val, entry :: rest => by
    rw [writeBits]
    split
    · rw [List.length_cons, List.length_cons, length_writeBits]
    · rw [List.length_map]

theorem length_h2bLoop :
    ∀ (bytes : List UInt8) (amountb2 : List UInt32), (h2bLoop bytes amountb2).length = amountb2.length
  | [], _ => rfl
  | byte :: bytes, amountb2 => by
    rw [h2bLoop, List.length_append, length_writeBits, length_h2bLoop, List.length_take,
      List.length_drop]
    omega

/-! ## The conversions -/

/-- d2h(in): both overloads clear the key with `sc_0` and run the loop from byte 0. -/
def d2h (amount : UInt64) : Key :=
  ⟨d2hLoop amount (List.replicate 32 0), by rw [length_d2hLoop, List.length_replicate]⟩

/-- d2b(amountb, val): every entry of the array is written. -/
def d2b (amountb : Bits) (val : UInt64) : Bits :=
  ⟨writeBits val.toNat amountb.values, by rw [length_writeBits, amountb.length_eq]⟩

/-- h2d(test): bytes 7 down to 0, in a `uint64_t`. -/
def h2d (test : Key) : UInt64 :=
  UInt64.ofNat (readDigitsLoop 64 256 (fun j => (test.bytes.getD j 0).toNat) 8 0)

/-- h2b(amountb2, test): the eight bits of each of bytes 0 to 7, the byte held in an `int`. -/
def h2b (amountb2 : Bits) (test : Key) : Bits :=
  ⟨h2bLoop (test.bytes.take 8) amountb2.values, by rw [length_h2bLoop, amountb2.length_eq]⟩

/-- b2h(amountdh, amountb2): byte `j < 8` gathers entries `8 j + 7` down to `8 j` in an `int`,
which adding the `unsigned int` entries makes a 32-bit unsigned word, and is cut to a byte; bytes
8 to 31 are zero. Every byte of `amountdh` is written, so the key is the result alone. -/
def b2h (amountb2 : Bits) : Key :=
  ⟨(List.range 8).map (fun j => UInt8.ofNat
      (readDigitsLoop 32 2 (fun i => (amountb2.values.getD (8 * j + i) 0).toNat) 8 0)) ++
    List.replicate 24 0,
    by rw [List.length_append, List.length_map, List.length_range, List.length_replicate]⟩

/-- b2d(amountb): entries 63 down to 0, in a `uint64_t`. -/
def b2d (amountb : Bits) : UInt64 :=
  UInt64.ofNat (readDigitsLoop 64 2 (fun j => (amountb.values.getD j 0).toNat) 64 0)

theorem key_ext {k k' : Key} (same : k.bytes = k'.bytes) : k = k' := by
  cases k
  cases k'
  subst same
  rfl

/-! ## The writers -/

/-- `(unsigned char)(val & 0xFF)` is the low byte of the value. -/
theorem toUInt8_and_mask (val : UInt64) : (val &&& 0xFF).toUInt8 = UInt8.ofNat (val.toNat % 256) := by
  apply UInt8.toNat_inj.mp
  have mask : (0xFF : UInt64).toNat = 2 ^ 8 - 1 := rfl
  rw [UInt64.toNat_toUInt8, UInt64.toNat_and, mask, Nat.and_two_pow_sub_one_eq_mod, UInt8.toNat_ofNat']

/-- From a cleared key the loop writes the fixed-width base-256 digits of the value: the bytes
it does not reach are the digits of zero. -/
theorem d2hLoop_replicate : ∀ (n : Nat) (val : UInt64),
    d2hLoop val (List.replicate n 0) = (Radix.fixedDigits 256 n val.toNat).map UInt8.ofNat
  | 0, _ => rfl
  | n + 1, val => by
    rw [List.replicate_succ, d2hLoop, Radix.fixedDigits, List.map_cons]
    by_cases spent : val = 0
    · -- the value is spent: the rest of the key stays cleared
      subst spent
      rw [if_neg (not_not.mpr rfl), UInt64.toNat_zero, Nat.zero_div, Radix.fixedDigits_zero,
        List.map_replicate]
      rfl
    · rw [if_pos spent, d2hLoop_replicate n (val / 256), UInt64.toNat_div, toUInt8_and_mask]
      rfl

/-- The bit loop writes the fixed-width binary digits of the value over the whole range, whatever
the range held. -/
theorem writeBits_eq : ∀ (val : Nat) (entries : List UInt32),
    writeBits val entries = (Radix.fixedDigits 2 entries.length val).map UInt32.ofNat
  | _, [] => rfl
  | val, entry :: rest => by
    rw [writeBits, List.length_cons]
    by_cases spent : val = 0
    · -- the second loop: zeros to the end of the range
      subst spent
      rw [if_neg (not_not.mpr rfl), List.map_const', Radix.fixedDigits_zero, List.map_replicate,
        List.length_cons]
      rfl
    · rw [if_pos spent, Radix.fixedDigits, List.map_cons, writeBits_eq (val >>> 1) rest,
        Nat.and_one_is_mod, Nat.shiftRight_eq_div_pow, Nat.pow_one]

/-- Over as many entries as eight per byte, `h2b`'s loop writes the bits of each byte in turn. -/
theorem h2bLoop_eq : ∀ (bytes : List UInt8) (amountb2 : List UInt32),
    amountb2.length = 8 * bytes.length →
      h2bLoop bytes amountb2 =
        (bytes.flatMap fun byte => Radix.fixedDigits 2 8 byte.toNat).map UInt32.ofNat
  | [], amountb2, sized => by
    rw [List.length_nil, Nat.mul_zero, List.length_eq_zero_iff] at sized
    subst sized
    rfl
  | byte :: bytes, amountb2, sized => by
    rw [List.length_cons] at sized
    rw [h2bLoop, writeBits_eq, List.length_take, Nat.min_eq_left (by omega),
      h2bLoop_eq bytes _ (by rw [List.length_drop]; omega), List.flatMap_cons, List.map_append]

theorem d2h_bytes (amount : UInt64) :
    (d2h amount).bytes = (Radix.fixedDigits 256 32 amount.toNat).map UInt8.ofNat :=
  d2hLoop_replicate 32 amount

theorem d2b_values (amountb : Bits) (val : UInt64) :
    (d2b amountb val).values = (Radix.fixedDigits 2 64 val.toNat).map UInt32.ofNat := by
  show writeBits val.toNat amountb.values = _
  rw [writeBits_eq, amountb.length_eq]
  rfl

theorem h2b_values (amountb2 : Bits) (test : Key) :
    (h2b amountb2 test).values =
      ((test.bytes.take 8).flatMap fun byte => Radix.fixedDigits 2 8 byte.toNat).map UInt32.ofNat :=
  h2bLoop_eq _ _ (by rw [amountb2.length_eq, List.length_take, test.length_eq]; rfl)

/-! ## The readers -/

/-- Reading `j` digits from the top into a word: the value so far moves up `j` places, the digits
come in below it, and the word keeps the sum modulo `2 ^ width`. -/
theorem readDigitsLoop_eq (width base : Nat) (digit : Nat → Nat) :
    ∀ j v, v < 2 ^ width → readDigitsLoop width base digit j v =
      (v * base ^ j + Nat.ofDigits base ((List.range j).map digit)) % 2 ^ width
  | 0, v, fits => by
    rw [readDigitsLoop, Nat.pow_zero, Nat.mul_one, List.range_zero, List.map_nil,
      Nat.ofDigits_nil, Nat.add_zero, Nat.mod_eq_of_lt fits]
  | j + 1, v, _ => by
    rw [readDigitsLoop, readDigitsLoop_eq width base digit j _ (Nat.mod_lt _ (Nat.two_pow_pos width)),
      Radix.ofDigits_map_range_succ, Nat.add_mod, Nat.mod_mul_mod, ← Nat.add_mod]
    -- the word wraps only modulo `2 ^ width`, so the wrap of each step can wait to the end
    congr 1
    ring

/-- A list read at the indices below `n` by `getD` is its first `n` entries. -/
theorem map_range_getD {α β : Type} (f : α → β) (d : α) {n : Nat} {l : List α}
    (long : n ≤ l.length) : (List.range n).map (fun j => f (l.getD j d)) = (l.take n).map f := by
  apply List.ext_getElem
  · rw [List.length_map, List.length_range, List.length_map, List.length_take, Nat.min_eq_left long]
  · intro i inRange _
    rw [List.length_map, List.length_range] at inRange
    simp [List.getD_eq_getElem?_getD, List.getElem?_eq_getElem (Nat.lt_of_lt_of_le inRange long)]

/-- `h2d` is the little-endian value of the key's first eight bytes; no other byte is read. -/
theorem h2d_toNat (test : Key) :
    (h2d test).toNat = Nat.ofDigits 256 ((test.bytes.take 8).map UInt8.toNat) := by
  have digits : (List.range 8).map (fun j => (test.bytes.getD j 0).toNat) =
      (test.bytes.take 8).map UInt8.toNat :=
    map_range_getD UInt8.toNat 0 (by rw [test.length_eq]; omega)
  have below : Nat.ofDigits 256 ((test.bytes.take 8).map UInt8.toNat) < 2 ^ 64 := by
    have bytes := Nat.ofDigits_lt_base_pow_length (b := 256) (by norm_num)
      (l := (test.bytes.take 8).map UInt8.toNat) (fun d mem => by
        obtain ⟨byte, -, rfl⟩ := List.mem_map.mp mem
        exact byte.toNat_lt)
    rwa [List.length_map, List.length_take, test.length_eq] at bytes
  rw [h2d, UInt64.toNat_ofNat', readDigitsLoop_eq _ _ _ 8 0 (by norm_num), Nat.zero_mul,
    Nat.zero_add, digits, Nat.mod_mod, Nat.mod_eq_of_lt below]

/-- `b2d` is the binary value of the entries, wrapped to 64 bits: an entry above one carries into
the places above it. -/
theorem b2d_toNat (amountb : Bits) :
    (b2d amountb).toNat = Nat.ofDigits 2 (amountb.values.map UInt32.toNat) % 2 ^ 64 := by
  have digits : (List.range 64).map (fun j => (amountb.values.getD j 0).toNat) =
      amountb.values.map UInt32.toNat := by
    rw [map_range_getD UInt32.toNat 0 (by rw [amountb.length_eq]; rfl),
      List.take_of_length_le (by rw [amountb.length_eq]; rfl)]
  rw [b2d, UInt64.toNat_ofNat', readDigitsLoop_eq _ _ _ 64 0 (by norm_num), Nat.zero_mul,
    Nat.zero_add, digits, Nat.mod_mod]

/-- Byte `j` of `b2h` is the binary value of entries `8 j` to `8 j + 7`, cut to a byte. -/
theorem b2h_bytes (amountb2 : Bits) :
    (b2h amountb2).bytes = (List.range 8).map (fun j => UInt8.ofNat
        (Nat.ofDigits 2 ((List.range 8).map fun i => (amountb2.values.getD (8 * j + i) 0).toNat))) ++
      List.replicate 24 0 := by
  -- the 32-bit word is cut to its low byte, which it holds unchanged
  have cut : ∀ j, UInt8.ofNat
      (readDigitsLoop 32 2 (fun i => (amountb2.values.getD (8 * j + i) 0).toNat) 8 0) =
      UInt8.ofNat (Nat.ofDigits 2 ((List.range 8).map fun i =>
        (amountb2.values.getD (8 * j + i) 0).toNat)) := by
    intro j
    apply UInt8.toNat_inj.mp
    rw [UInt8.toNat_ofNat', UInt8.toNat_ofNat', readDigitsLoop_eq _ _ _ 8 0 (by norm_num),
      Nat.zero_mul, Nat.zero_add, Nat.mod_mod_of_dvd _ (by norm_num)]
  show (List.range 8).map (fun j => UInt8.ofNat
      (readDigitsLoop 32 2 (fun i => (amountb2.values.getD (8 * j + i) 0).toNat) 8 0)) ++
    List.replicate 24 0 = _
  simp only [cut]

/-! ## The round trips -/

/-- Fixed-width digits below the base survive the trip through bytes. -/
theorem toNat_bytes_fixedDigits (w n : Nat) :
    ((Radix.fixedDigits 256 w n).map UInt8.ofNat).map UInt8.toNat = Radix.fixedDigits 256 w n := by
  rw [List.map_map]
  conv_rhs => rw [← List.map_id (Radix.fixedDigits 256 w n)]
  refine List.map_congr_left fun d mem => ?_
  rw [Function.comp_apply, UInt8.toNat_ofNat', id,
    Nat.mod_eq_of_lt (Radix.fixedDigits_lt (by norm_num) w n d mem)]

/-- Binary digits survive the trip through `unsigned int` entries. -/
theorem toNat_bits_fixedDigits (w n : Nat) :
    ((Radix.fixedDigits 2 w n).map UInt32.ofNat).map UInt32.toNat = Radix.fixedDigits 2 w n := by
  rw [List.map_map]
  conv_rhs => rw [← List.map_id (Radix.fixedDigits 2 w n)]
  refine List.map_congr_left fun d mem => ?_
  have bit := Radix.fixedDigits_lt (by norm_num) w n d mem
  rw [Function.comp_apply, UInt32.toNat_ofNat', id, Nat.mod_eq_of_lt (by omega)]

theorem h2d_d2h (amount : UInt64) : h2d (d2h amount) = amount := by
  apply UInt64.toNat_inj.mp
  have low : amount.toNat % 256 ^ 8 = amount.toNat :=
    Nat.mod_eq_of_lt (by have := amount.toNat_lt; norm_num at this ⊢; omega)
  rw [h2d_toNat, d2h_bytes, ← List.map_take, Radix.take_fixedDigits 256 _ (by norm_num),
    toNat_bytes_fixedDigits, Radix.ofDigits_fixedDigits, low]

theorem b2d_d2b (amountb : Bits) (amount : UInt64) : b2d (d2b amountb amount) = amount := by
  apply UInt64.toNat_inj.mp
  rw [b2d_toNat, d2b_values, toNat_bits_fixedDigits, Radix.ofDigits_fixedDigits, Nat.mod_mod,
    Nat.mod_eq_of_lt amount.toNat_lt]

/-- The bits of the bytes are the bits of the amount. -/
theorem h2b_d2h (amountb amountb2 : Bits) (amount : UInt64) :
    h2b amountb2 (d2h amount) = d2b amountb amount := by
  apply Bits.ext
  -- a byte read back is its digit modulo `2 ^ 8`, which its eight bits do not see
  have byteBits : (fun d : Nat => Radix.fixedDigits 2 8 (UInt8.ofNat d).toNat) =
      Radix.fixedDigits 2 8 := by
    funext d
    rw [UInt8.toNat_ofNat', Radix.fixedDigits_mod_pow]
  have split : (Radix.fixedDigits 256 8 amount.toNat).flatMap (Radix.fixedDigits 2 8) =
      Radix.fixedDigits 2 64 amount.toNat := Radix.flatMap_fixedDigits 2 8 8 amount.toNat
  rw [h2b_values, d2b_values, d2h_bytes, ← List.map_take, Radix.take_fixedDigits 256 _ (by norm_num),
    List.flatMap_map, byteBits, split]

/-- Entry `k` of an array of binary digits is digit `k`. -/
theorem toNat_getD_bits {w k : Nat} (n : Nat) (inside : k < w) :
    (((Radix.fixedDigits 2 w n).map UInt32.ofNat).getD k 0).toNat = n / 2 ^ k % 2 := by
  have bit : n / 2 ^ k % 2 < 2 := Nat.mod_lt _ (by norm_num)
  simp only [List.getD_eq_getElem?_getD, List.getElem?_map, Radix.fixedDigits_eq_map_range,
    List.getElem?_range inside, Option.map_some, Option.getD_some, UInt32.toNat_ofNat']
  omega

/-- The bytes gathered from the bits of the amount are the bytes of the amount. -/
theorem b2h_d2b (amountb : Bits) (amount : UInt64) : b2h (d2b amountb amount) = d2h amount := by
  apply key_ext
  -- the key's bytes: the eight digits of the amount, then the digits of zero above them
  have digits : Radix.fixedDigits 256 32 amount.toNat =
      (List.range 8).map (fun j => amount.toNat / 256 ^ j % 256) ++ List.replicate 24 0 := by
    have high : amount.toNat / 256 ^ 8 = 0 :=
      Nat.div_eq_of_lt (by have := amount.toNat_lt; norm_num at this ⊢; omega)
    rw [show 32 = 8 + 24 from rfl, Radix.fixedDigits_add, high, Radix.fixedDigits_zero,
      Radix.fixedDigits_eq_map_range]
  -- byte `j` reads the eight bits of digit `j`
  have byte : ∀ j ∈ List.range 8,
      Nat.ofDigits 2 ((List.range 8).map fun i =>
          (((Radix.fixedDigits 2 64 amount.toNat).map UInt32.ofNat).getD (8 * j + i) 0).toNat) =
        amount.toNat / 256 ^ j % 256 := by
    intro j inRange
    rw [List.mem_range] at inRange
    have bits : ((List.range 8).map fun i =>
          (((Radix.fixedDigits 2 64 amount.toNat).map UInt32.ofNat).getD (8 * j + i) 0).toNat) =
        Radix.fixedDigits 2 8 (amount.toNat / 256 ^ j) := by
      rw [Radix.fixedDigits_eq_map_range 2 8]
      refine List.map_congr_left fun i below => ?_
      rw [List.mem_range] at below
      rw [toNat_getD_bits _ (by omega), Nat.pow_add, ← Nat.div_div_eq_div_mul, Nat.pow_mul]
    rw [bits, Radix.ofDigits_fixedDigits]
    rfl
  rw [b2h_bytes, d2h_bytes, d2b_values, digits, List.map_append, List.map_map, List.map_replicate]
  exact congrArg₂ (· ++ ·) (List.map_congr_left fun j inRange => by rw [byte j inRange]; rfl) rfl

/-- The RingCT amount encodings are mutually inverse: an amount written to a key or to bits
reads back, the key's bits are the amount's bits and the bits' key is the amount's key, whatever
the arrays written held, and a key holds the amount in bytes 0 to 7 with zeros above; `h2d` of
any key is the value of its first eight bytes. -/
theorem amount_encodings_inverse :
    (∀ (amount : UInt64) (amountb amountb2 : Bits),
      h2d (d2h amount) = amount ∧ b2d (d2b amountb amount) = amount ∧
        h2b amountb2 (d2h amount) = d2b amountb amount ∧ b2h (d2b amountb amount) = d2h amount ∧
        (d2h amount).bytes.drop 8 = List.replicate 24 0) ∧
    ∀ test : Key, (h2d test).toNat = Nat.ofDigits 256 ((test.bytes.take 8).map UInt8.toNat) := by
  refine ⟨fun amount amountb amountb2 => ⟨h2d_d2h amount, b2d_d2b amountb amount,
    h2b_d2h amountb amountb2 amount, b2h_d2b amountb amount, ?_⟩, h2d_toNat⟩
  -- the bytes above the eighth are those of `b2h`, which writes zeros there
  rw [← b2h_d2b amountb amount]
  exact List.drop_left' (by rw [List.length_map, List.length_range])

end GraftNetwork.Ringct

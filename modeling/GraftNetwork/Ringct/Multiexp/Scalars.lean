import GraftNetwork.Lib.MultiScalar
import GraftNetwork.Lib.Words
import GraftNetwork.Ringct.Amounts

/-!
# The scalars and points of a multi-exponentiation

multiexp.cc sums `scalar • point` over a vector of `MultiexpData`. Its scalars are `rct::key`s,
32 bytes read as a little-endian number, compared, halved and probed bit by bit by the helpers at
the top of the file; its points are `ge_p3` points operated on by the `ge_*` functions of
crypto-ops, which the model takes as the operations of an additive monoid `G`: `ge_add` is `+`,
`ge_p2_dbl` is doubling, `ge_p3_identity` is `0`, `ge_p3_is_point_at_infinity` is the test for
`0`, and `ge_scalarmult` is `•` by the scalar's value. The encoding `ge_p3_tobytes` is a
parameter `encode : G → Key` of the algorithms.

* `keyLess_iff`, `value_div2`, `value_pow2`, `test_ne_zero_iff`: `operator<`, `div2`, `pow2` and
  `test` are the order, halving, powers of two and bits of the scalars' values.
* `value_le_maxScalar`: the running maximum of straus and pippenger bounds every scalar.
* `doubleTimes_eq`: the doubling loops multiply by a power of two.
* `basic`: the sum the algorithms compute, as the unit tests' `basic` computes it.
-/

namespace GraftNetwork.Ringct.Multiexp

open GraftNetwork.Serialization (Key Blob zeroBlob)

/-- The number a scalar stores, least significant byte first. -/
def scalarValue (k : Key) : Nat := Words.leValue k.bytes

theorem scalarValue_lt (k : Key) : scalarValue k < 2 ^ 256 := by
  have bound := Words.leValue_lt k.bytes
  rw [k.length_eq] at bound
  exact Nat.lt_of_lt_of_le bound (by norm_num)

/-- rct::zero(). -/
def zero : Key := zeroBlob 32

/-- rct::identity(): the scalar one. -/
def identity : Key := ⟨1 :: List.replicate 31 0, rfl⟩

theorem leValue_replicate_zero : ∀ n, Words.leValue (List.replicate n 0) = 0
  | 0 => rfl
  | n + 1 => by rw [List.replicate_succ, Words.leValue_cons, leValue_replicate_zero n]; rfl

theorem scalarValue_zero : scalarValue zero = 0 := leValue_replicate_zero 32

theorem scalarValue_identity : scalarValue identity = 1 := by
  show Words.leValue (1 :: List.replicate 31 0) = 1
  rw [Words.leValue_cons, leValue_replicate_zero]
  rfl

/-- A key is `rct::zero()` exactly when it stores zero. -/
theorem eq_zero_iff (k : Key) : k = zero ↔ scalarValue k = 0 := by
  constructor
  · intro same
    rw [same, scalarValue_zero]
  · intro value
    apply Ringct.key_ext
    have bytes : ∀ {l : List UInt8}, Words.leValue l = 0 → l = List.replicate l.length 0 := by
      intro l
      induction l with
      | nil => intro _; rfl
      | cons byte rest ih =>
        intro zeroValue
        rw [Words.leValue_cons] at zeroValue
        have low : byte.toNat = 0 := by omega
        rw [List.length_cons, List.replicate_succ, ih (by omega), List.length_replicate,
          UInt8.toNat_inj.mp (low.trans UInt8.toNat_zero.symm)]
    rw [bytes value, k.length_eq]
    rfl

/-! ## operator< -/

/-- The loop of `operator<` from byte `n - 1` down: the first byte that differs decides. -/
def lessFrom (k0 k1 : Key) : Nat → Bool
  | 0 => false
  | n + 1 =>
    if k0.bytes.getD n 0 < k1.bytes.getD n 0 then true
    else if k0.bytes.getD n 0 > k1.bytes.getD n 0 then false
    else lessFrom k0 k1 n

/-- `operator<` on keys, the comparator of Bos-Coster's heap and of the running maxima. -/
def keyLess (k0 k1 : Key) : Bool := lessFrom k0 k1 32

/-- The first `n + 1` bytes of a key: the first `n`, then byte `n` above them. -/
theorem leValue_take_succ (k : Key) {n : Nat} (inside : n < 32) :
    Words.leValue (k.bytes.take (n + 1)) =
      Words.leValue (k.bytes.take n) + 256 ^ n * (k.bytes.getD n 0).toNat := by
  have long : n < k.bytes.length := by rw [k.length_eq]; exact inside
  rw [List.take_add_one, List.getElem?_eq_getElem long, Option.toList_some, Words.leValue_append,
    List.length_take, Nat.min_eq_left (Nat.le_of_lt long), Words.leValue_cons, Words.leValue_nil,
    Nat.mul_zero, Nat.add_zero, List.getD_eq_getElem?_getD, List.getElem?_eq_getElem long,
    Option.getD_some]

/-- The loop compares the numbers the first `n` bytes store. -/
theorem lessFrom_eq (k0 k1 : Key) : ∀ n, n ≤ 32 →
    lessFrom k0 k1 n = decide (Words.leValue (k0.bytes.take n) < Words.leValue (k1.bytes.take n))
  | 0, _ => by simp [lessFrom]
  | n + 1, inside => by
    have low0 := Words.leValue_take_lt k0.bytes n
    have low1 := Words.leValue_take_lt k1.bytes n
    rw [lessFrom, leValue_take_succ k0 (by omega), leValue_take_succ k1 (by omega),
      lessFrom_eq k0 k1 n (by omega)]
    rw [Nat.mul_comm (256 ^ n), Nat.mul_comm (256 ^ n)]
    by_cases less : k0.bytes.getD n 0 < k1.bytes.getD n 0
    · -- a smaller byte at place `n` outweighs the bytes below it
      have digit := UInt8.lt_iff_toNat_lt.mp less
      have := Words.lt_of_digit_lt (s := Words.leValue (k1.bytes.take n)) low0 digit
      rw [if_pos less, decide_eq_true (by omega)]
    · rw [if_neg less]
      by_cases greater : k0.bytes.getD n 0 > k1.bytes.getD n 0
      · have digit := UInt8.lt_iff_toNat_lt.mp greater
        have := Words.lt_of_digit_lt (s := Words.leValue (k0.bytes.take n)) low1 digit
        rw [if_pos greater, decide_eq_false (by omega)]
      · have same : (k0.bytes.getD n 0).toNat = (k1.bytes.getD n 0).toNat := by
          have := UInt8.lt_iff_toNat_lt.not.mp less
          have := UInt8.lt_iff_toNat_lt.not.mp greater
          omega
        rw [if_neg greater, same]
        exact decide_eq_decide.mpr Nat.add_lt_add_iff_right.symm

theorem keyLess_iff (k0 k1 : Key) : keyLess k0 k1 = true ↔ scalarValue k0 < scalarValue k1 := by
  rw [keyLess, lessFrom_eq k0 k1 32 le_rfl, decide_eq_true_iff, List.take_of_length_le
    (Nat.le_of_eq k0.length_eq), List.take_of_length_le (Nat.le_of_eq k1.length_eq)]
  exact Iff.rfl

/-! ## div2 -/

/-- The loop of `div2` over the bytes from the most significant down: each byte halved, with the
low bit of the byte above, `carry`, as its top bit. -/
def div2Bytes : List UInt8 → Nat → List UInt8
  | [], _ => []
  | byte :: lower, carry =>
    UInt8.ofNat (byte.toNat / 2 + carry) :: div2Bytes lower ((byte.toNat &&& 1) <<< 7)

theorem length_div2Bytes : ∀ (bytes : List UInt8) (carry : Nat),
    (div2Bytes bytes carry).length = bytes.length
  | [], _ => rfl
  | _ :: lower, _ => by rw [div2Bytes, List.length_cons, List.length_cons, length_div2Bytes]

/-- div2: the key halved, its bytes visited from 31 down to 0. -/
def div2 (k : Key) : Key :=
  ⟨(div2Bytes k.bytes.reverse 0).reverse, by
    rw [List.length_reverse, length_div2Bytes, List.length_reverse, k.length_eq]⟩

theorem carry_eq (byte : UInt8) : (byte.toNat &&& 1) <<< 7 = byte.toNat % 2 * 128 := by
  rw [Nat.and_one_is_mod, Nat.shiftLeft_eq]

/-- With the low bit `top` of the byte above, the loop halves the big-endian number of the
bytes. -/
theorem beValue_div2Bytes : ∀ (bytes : List UInt8) (top : Nat), top < 2 →
    Words.beValue (div2Bytes bytes (top * 128)) =
      (top * 256 ^ bytes.length + Words.beValue bytes) / 2
  | [], top, _ => by simp [div2Bytes, Words.beValue]; omega
  | byte :: lower, top, small => by
    have byteBound := byte.toNat_lt
    have half : byte.toNat / 2 + top * 128 < 256 := by omega
    rw [div2Bytes, carry_eq, Words.beValue, beValue_div2Bytes lower _ (Nat.mod_lt _ (by norm_num)),
      length_div2Bytes, Words.beValue, UInt8.toNat_ofNat', Nat.mod_eq_of_lt half, List.length_cons,
      Nat.pow_succ]
    -- the low bit of `byte` moves into the top of the bytes below it
    have byteSplit := Nat.div_add_mod byte.toNat 2
    have split : top * (256 ^ lower.length * 256) + (byte.toNat * 256 ^ lower.length +
        Words.beValue lower) = (byte.toNat % 2 * 256 ^ lower.length + Words.beValue lower) +
          2 * ((byte.toNat / 2 + top * 128) * 256 ^ lower.length) := by
      conv_lhs => rw [← byteSplit]
      ring
    rw [split, Nat.add_mul_div_left _ _ (by norm_num), Nat.add_comm]

/-- A little-endian string is the big-endian reading of its reverse. -/
theorem leValue_eq_beValue_reverse : ∀ bytes : List UInt8,
    Words.leValue bytes = Words.beValue bytes.reverse
  | [] => rfl
  | byte :: bytes => by
    rw [Words.leValue_cons, List.reverse_cons, leValue_eq_beValue_reverse bytes]
    have append : ∀ l : List UInt8, Words.beValue (l ++ [byte]) = Words.beValue l * 256 + byte.toNat := by
      intro l
      induction l with
      | nil => simp [Words.beValue]
      | cons x l ih =>
        rw [List.cons_append, Words.beValue, ih, List.length_append, List.length_singleton,
          Nat.pow_succ, Words.beValue]
        ring
    rw [append]
    ring

theorem value_div2 (k : Key) : scalarValue (div2 k) = scalarValue k / 2 := by
  have start := beValue_div2Bytes k.bytes.reverse 0 (by norm_num)
  rw [Nat.zero_mul, Nat.zero_mul, Nat.zero_add] at start
  rw [scalarValue, scalarValue, div2, leValue_eq_beValue_reverse, List.reverse_reverse, start,
    ← leValue_eq_beValue_reverse]

/-! ## pow2 and test -/

/-- pow2(n): the key with only bit `n` set. Both callers test `n < 256` first, so its
`CHECK_AND_ASSERT_THROW_MES(n < 256, ...)` never throws; the model takes the test's outcome. -/
def pow2 (n : Nat) (_valid : n < 256) : Key :=
  ⟨(zero.bytes).set (n >>> 3) ((zero.bytes.getD (n >>> 3) 0) ||| (1 <<< (n &&& 7)).toUInt8), by
    rw [List.length_set, zero.length_eq]⟩

/-- A zero string with one byte set stores that byte at its place. -/
theorem leValue_set_replicate (v : UInt8) : ∀ m q, q < m →
    Words.leValue ((List.replicate m 0).set q v) = 256 ^ q * v.toNat
  | 0, _, outside => absurd outside (Nat.not_lt_zero _)
  | m + 1, 0, _ => by
    rw [List.replicate_succ, List.set_cons_zero, Words.leValue_cons, leValue_replicate_zero,
      Nat.pow_zero, Nat.one_mul, Nat.mul_zero, Nat.add_zero]
  | m + 1, q + 1, inside => by
    rw [List.replicate_succ, List.set_cons_succ, Words.leValue_cons,
      leValue_set_replicate v m q (by omega), Nat.pow_succ]
    simp only [UInt8.toNat_zero, Nat.zero_add]
    ring

theorem shiftRight_three (n : Nat) : n >>> 3 = n / 8 := Nat.shiftRight_eq_div_pow n 3

theorem and_seven (n : Nat) : n &&& 7 = n % 8 := Nat.and_two_pow_sub_one_eq_mod n 3

theorem value_pow2 (n : Nat) (valid : n < 256) : scalarValue (pow2 n valid) = 2 ^ n := by
  have bit : ((0 : UInt8) ||| (1 <<< (n &&& 7)).toUInt8).toNat = 2 ^ (n % 8) := by
    rw [UInt8.zero_or, and_seven, Nat.shiftLeft_eq, Nat.one_mul, Nat.toUInt8_eq,
      UInt8.toNat_ofNat', Nat.mod_eq_of_lt (Nat.pow_lt_pow_right (by norm_num) (Nat.mod_lt _
        (by norm_num)))]
  have place : 256 ^ (n / 8) * 2 ^ (n % 8) = 2 ^ n := by
    rw [show (256 : Nat) = 2 ^ 8 by rfl, ← Nat.pow_mul, ← Nat.pow_add, Nat.div_add_mod]
  show Words.leValue ((List.replicate 32 0).set (n >>> 3)
    (((List.replicate 32 (0 : UInt8)).getD (n >>> 3) 0) ||| (1 <<< (n &&& 7)).toUInt8)) = 2 ^ n
  have inside : n >>> 3 < 32 := by
    rw [shiftRight_three]
    omega
  rw [List.getD_replicate _ inside, leValue_set_replicate _ 32 _ inside, bit, shiftRight_three,
    place]

/-- test(k, n): bit `n` of the key, as its byte masked to that bit; `0` from bit 256 on. -/
def test (k : Key) (n : Nat) : Nat :=
  if n ≥ 256 then 0 else (k.bytes.getD (n >>> 3) 0).toNat &&& (1 <<< (n &&& 7))

/-- Dropping the first `p` bytes of a string divides its number by `256 ^ p`. -/
theorem leValue_div_pow (bytes : List UInt8) (p : Nat) :
    Words.leValue bytes / 256 ^ p = Words.leValue (bytes.drop p) := by
  rw [Words.leValue_take_drop bytes p, Nat.add_mul_div_left _ _ (Nat.pow_pos (by norm_num)),
    Nat.div_eq_of_lt (Words.leValue_take_lt bytes p), Nat.zero_add]

/-- The bytes from `p` on: byte `p`, then the bytes above it. -/
theorem leValue_drop (bytes : List UInt8) (p : Nat) :
    Words.leValue (bytes.drop p) = (bytes.getD p 0).toNat + 256 * Words.leValue (bytes.drop (p + 1)) := by
  by_cases inside : p < bytes.length
  · rw [List.drop_eq_getElem_cons inside, Words.leValue_cons, List.getD_eq_getElem?_getD,
      List.getElem?_eq_getElem inside, Option.getD_some]
  · rw [List.drop_eq_nil_of_le (by omega), List.drop_eq_nil_of_le (by omega),
      List.getD_eq_getElem?_getD, List.getElem?_eq_none (by omega)]
    rfl

/-- Bit `8 p + r` of a number is bit `r` of its byte `p`. -/
theorem bit_of_byte (bytes : List UInt8) (p r : Nat) (low : r < 8) :
    Words.leValue bytes / 2 ^ (8 * p + r) % 2 = (bytes.getD p 0).toNat / 2 ^ r % 2 := by
  have above : 256 = 2 ^ r * (2 * 2 ^ (7 - r)) := by
    rw [← Nat.pow_succ', ← Nat.pow_add, show r + (7 - r + 1) = 8 by omega]
  rw [Nat.pow_add, Nat.pow_mul, ← Nat.div_div_eq_div_mul, leValue_div_pow, leValue_drop, above,
    Nat.mul_assoc, Nat.add_mul_div_left _ _ (Nat.pow_pos (by norm_num)), Nat.mul_assoc,
    Nat.add_mul_mod_self_left]

theorem test_ne_zero_iff (k : Key) (n : Nat) :
    test k n ≠ 0 ↔ scalarValue k / 2 ^ n % 2 = 1 := by
  rw [test]
  by_cases high : n ≥ 256
  · -- no scalar has bits from 256 on
    have small : scalarValue k / 2 ^ n = 0 :=
      Nat.div_eq_of_lt (Nat.lt_of_lt_of_le (scalarValue_lt k) (Nat.pow_le_pow_right (by norm_num) high))
    rw [if_pos high, small]
    simp
  · have bit := bit_of_byte k.bytes (n / 8) (n % 8) (Nat.mod_lt _ (by norm_num))
    rw [Nat.div_add_mod] at bit
    rw [if_neg high, shiftRight_three, and_seven, Nat.shiftLeft_eq, Nat.one_mul, Nat.and_two_pow,
      scalarValue, bit, Nat.testBit_eq_decide_div_mod_eq]
    simp

/-! ## sc_sub -/

/-- The order `l` of the prime-order subgroup, the modulus of the `sc_*` functions. -/
def L : Nat := 2 ^ 252 + 27742317777372353535851937790883648493

/-- The key storing `n` modulo `2 ^ 256`, least significant byte first. -/
def keyOfNat (n : Nat) : Key :=
  ⟨(Radix.fixedDigits 256 32 n).map UInt8.ofNat, by rw [List.length_map, Radix.length_fixedDigits]⟩

/-- sc_sub: the difference of two scalars modulo `l`. The limb arithmetic of crypto-ops is not
modelled; this is what it computes on scalars below `l`. -/
def scSub (a b : Key) : Key := keyOfNat (((scalarValue a : Int) - scalarValue b) % L).toNat

theorem leValue_eq_ofDigits : ∀ bytes : List UInt8,
    Words.leValue bytes = Nat.ofDigits 256 (bytes.map UInt8.toNat)
  | [] => rfl
  | byte :: bytes => by
    rw [Words.leValue_cons, List.map_cons, Nat.ofDigits_cons, leValue_eq_ofDigits bytes]

theorem scalarValue_keyOfNat (n : Nat) : scalarValue (keyOfNat n) = n % 256 ^ 32 := by
  rw [scalarValue, keyOfNat, leValue_eq_ofDigits, Ringct.toNat_bytes_fixedDigits,
    Radix.ofDigits_fixedDigits]

/-- Below `l`, sc_sub of a scalar and a smaller one is their difference. -/
theorem scalarValue_scSub {a b : Key} (le : scalarValue b ≤ scalarValue a)
    (below : scalarValue a < L) : scalarValue (scSub a b) = scalarValue a - scalarValue b := by
  have difference : ((scalarValue a : Int) - scalarValue b) % L = (scalarValue a - scalarValue b : Nat) := by
    rw [← Int.ofNat_sub le]
    exact Int.emod_eq_of_lt (Int.natCast_nonneg _) (by unfold L at below ⊢; omega)
  have fits : scalarValue a - scalarValue b < 256 ^ 32 :=
    Nat.lt_of_le_of_lt (Nat.sub_le _ _) (Nat.lt_of_lt_of_le below (by unfold L; norm_num))
  rw [scSub, difference, Int.toNat_natCast, scalarValue_keyOfNat, Nat.mod_eq_of_lt fits]

/-! ## Points -/

/-- rct::MultiexpData: a scalar and a point. -/
structure MultiexpData (G : Type) where
  scalar : Key
  point : G

section Points

variable {G : Type}

/-- One step of the running maximum of straus and pippenger: `if (maxscalar < data[i].scalar)
maxscalar = data[i].scalar`. -/
def maxStep (maxscalar : Key) (d : MultiexpData G) : Key :=
  if keyLess maxscalar d.scalar then d.scalar else maxscalar

/-- `maxscalar`, from rct::zero(), after every scalar of the data. -/
def maxScalar (data : List (MultiexpData G)) : Key := data.foldl maxStep zero

theorem le_foldl_maxStep : ∀ (data : List (MultiexpData G)) (maxscalar : Key),
    scalarValue maxscalar ≤ scalarValue (data.foldl maxStep maxscalar) ∧
      ∀ d ∈ data, scalarValue d.scalar ≤ scalarValue (data.foldl maxStep maxscalar)
  | [], _ => ⟨le_rfl, fun _ absent => absurd absent List.not_mem_nil⟩
  | d :: rest, maxscalar => by
    have step : scalarValue maxscalar ≤ scalarValue (maxStep maxscalar d) ∧
        scalarValue d.scalar ≤ scalarValue (maxStep maxscalar d) := by
      rw [maxStep]
      by_cases larger : keyLess maxscalar d.scalar
      · rw [if_pos larger]
        exact ⟨Nat.le_of_lt ((keyLess_iff _ _).mp larger), le_rfl⟩
      · rw [if_neg larger]
        exact ⟨le_rfl, Nat.le_of_not_lt (larger ∘ (keyLess_iff _ _).mpr)⟩
    obtain ⟨first, others⟩ := le_foldl_maxStep rest (maxStep maxscalar d)
    rw [List.foldl_cons]
    refine ⟨Nat.le_trans step.1 first, fun e member => ?_⟩
    rcases List.mem_cons.mp member with here | there
    · rw [here]
      exact Nat.le_trans step.2 first
    · exact others e there

theorem value_le_maxScalar {data : List (MultiexpData G)} {d : MultiexpData G} (member : d ∈ data) :
    scalarValue d.scalar ≤ scalarValue (maxScalar data) :=
  (le_foldl_maxStep data zero).2 d member

variable [AddCommMonoid G]

/-- The unit tests' `basic`: the sum of every point times its scalar, one `ge_scalarmult` each. -/
def basic (data : List (MultiexpData G)) : G := (data.map fun d => scalarValue d.scalar • d.point).sum

/-- `data[j].point`. -/
def pointAt (data : List (MultiexpData G)) (j : Nat) : G := (data.getD j ⟨zero, 0⟩).point

/-- `data[j]` is the entry `j` of the data, read the way `pointAt` reads it. -/
theorem getD_mem {data : List (MultiexpData G)} {j : Nat} (inside : j < data.length) :
    data.getD j ⟨zero, 0⟩ ∈ data := by
  rw [List.getD_eq_getElem _ _ inside]
  exact List.getElem_mem inside

theorem getD_map_of_lt {α β : Type} (f : α → β) {l : List α} {j : Nat} (d : α) (e : β)
    (inside : j < l.length) : (l.map f).getD j e = f (l.getD j d) := by
  rw [List.getD_eq_getElem _ _ (by rw [List.length_map]; exact inside), List.getElem_map,
    List.getD_eq_getElem _ _ inside]

/-- A vector whose points start with the data's has the data's points first. -/
theorem pointAt_of_isPrefix {data base : List (MultiexpData G)}
    (starts : (data.map (·.point)).IsPrefix (base.map (·.point))) {j : Nat}
    (inside : j < data.length) : pointAt base j = pointAt data j := by
  obtain ⟨rest, join⟩ := starts
  have longer : j < base.length := by
    have lengths := congrArg List.length join
    rw [List.length_append, List.length_map, List.length_map] at lengths
    omega
  have atJ : (base.map (·.point))[j]? = (data.map (·.point))[j]? := by
    rw [← join, List.getElem?_append_left (by rw [List.length_map]; exact inside)]
  rw [List.getElem?_map, List.getElem?_map, List.getElem?_eq_getElem inside,
    List.getElem?_eq_getElem longer, Option.map_some, Option.map_some, Option.some.injEq] at atJ
  rw [pointAt, pointAt, List.getD_eq_getElem _ _ inside, List.getD_eq_getElem _ _ longer, atJ]

/-- `for (i = 0; i < c; ++i) ge_p2_dbl(...)`: a point doubled `c` times. -/
def doubleTimes : Nat → G → G
  | 0, P => P
  | c + 1, P => doubleTimes c (P + P)

theorem doubleTimes_eq : ∀ (c : Nat) (P : G), doubleTimes c P = 2 ^ c • P
  | 0, P => by rw [doubleTimes, pow_zero, one_nsmul]
  | c + 1, P => by rw [doubleTimes, doubleTimes_eq c, ← two_nsmul, ← mul_nsmul', ← pow_succ]

/-- The test a `ge_p3_is_point_at_infinity` guard makes before an addition changes nothing: adding
the identity is no addition. -/
theorem add_unless_zero [DecidableEq G] (acc P : G) : (if P ≠ 0 then acc + P else acc) = acc + P := by
  by_cases identity : P = 0
  · rw [if_neg (not_not.mpr identity), identity, add_zero]
  · rw [if_pos identity]

end Points

end GraftNetwork.Ringct.Multiexp

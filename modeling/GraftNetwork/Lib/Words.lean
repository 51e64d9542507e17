import Mathlib.Data.List.Basic
import Mathlib.Tactic.Ring

/-!
# Machine words as natural numbers

A word is a natural number below a base `W` (`2 ^ 64` for `uint64_t`), and the machine's sum of
two words is the natural sum modulo `W`. Multiword code detects carries by comparing a wrapped
sum with an addend; this module says what those comparisons mean, and how a byte string reads as
a little-endian number.

* `carry_iff`: a wrapped sum is below an addend exactly when the exact sum needs a carry.
* `split_div`, `split_mod`: the high and low words of a number made of two.
* `carryIn_iff`: with a carry in, the carry out is a carry of the two words, or a wrapped sum of
  all ones that the carry in completes.
* `leValue`: the little-endian value of a byte string, with `leValue_append`, `leValue_lt` and
  `leValue_take_drop`, the split of a string into a prefix and the bytes above it.
* `toNat_foldl_add`: a running `uint64_t` sum is the exact sum wrapped once.
* `memcmp`: on strings of one length it compares their big-endian values (`memcmp_pos_iff`),
  which tell the strings apart (`beValue_injective`).
-/

namespace Words

variable {W a b : Nat}

/-- The sum of two words wrapped to one word. -/
theorem add_mod_eq (ha : a < W) (hb : b < W) :
    (a + b) % W = if W ≤ a + b then a + b - W else a + b := by
  split
  · next exceeds =>
    rw [Nat.mod_eq_sub_mod exceeds, Nat.mod_eq_of_lt (by omega)]
  · next within =>
    exact Nat.mod_eq_of_lt (Nat.lt_of_not_le within)

/-- `a + b < a` on words: the sum wrapped. -/
theorem carry_iff (ha : a < W) (hb : b < W) : (a + b) % W < a ↔ W ≤ a + b := by
  rw [add_mod_eq ha hb]
  split <;> omega

/-- `a + b < a || (c && a + b == W - 1)` on words: the sum with the carry in `c` wrapped. -/
theorem carryIn_iff (ha : a < W) (hb : b < W) (c : Bool) :
    ((a + b) % W < a ∨ (c = true ∧ (a + b) % W = W - 1)) ↔ W ≤ a + b + c.toNat := by
  rw [carry_iff ha hb, add_mod_eq ha hb]
  cases c <;> split <;> simp <;> omega

/-- The high word of `high * W + low`. -/
theorem split_div {high low : Nat} (below : low < W) : (high * W + low) / W = high := by
  rw [Nat.add_comm, Nat.add_mul_div_right _ _ (by omega), Nat.div_eq_of_lt below, Nat.zero_add]

/-- The low word of `high * W + low`. -/
theorem split_mod {high low : Nat} (below : low < W) : (high * W + low) % W = low := by
  rw [Nat.add_comm, Nat.add_mul_mod_self_right, Nat.mod_eq_of_lt below]

/-- A running `uint64_t` sum, from `acc`, is the exact sum wrapped once. -/
theorem toNat_foldl_add {β : Type} (f : β → UInt64) :
    ∀ (l : List β) (acc : UInt64),
      (l.foldl (fun sum x => sum + f x) acc).toNat =
        (acc.toNat + (l.map fun x => (f x).toNat).sum) % 2 ^ 64
  | [], acc => by
    rw [List.foldl_nil, List.map_nil, List.sum_nil, Nat.add_zero, Nat.mod_eq_of_lt acc.toNat_lt]
  | x :: l, acc => by
    rw [List.foldl_cons, toNat_foldl_add f l, UInt64.toNat_add, List.map_cons, List.sum_cons,
      Nat.mod_add_mod, Nat.add_assoc]

/-! ## Little-endian byte strings -/

/-- The number a byte string stores with its least significant byte first. -/
def leValue (bytes : List UInt8) : Nat :=
  bytes.foldr (fun byte value => byte.toNat + 256 * value) 0

@[simp] theorem leValue_nil : leValue [] = 0 := rfl

@[simp] theorem leValue_cons (byte : UInt8) (bytes : List UInt8) :
    leValue (byte :: bytes) = byte.toNat + 256 * leValue bytes := rfl

theorem leValue_append (first rest : List UInt8) :
    leValue (first ++ rest) = leValue first + 256 ^ first.length * leValue rest := by
  induction first with
  | nil => simp
  | cons byte first ih =>
    rw [List.cons_append, leValue_cons, leValue_cons, ih, List.length_cons, Nat.pow_succ]
    ring

theorem leValue_lt (bytes : List UInt8) : leValue bytes < 256 ^ bytes.length := by
  induction bytes with
  | nil => simp
  | cons byte bytes ih =>
    rw [leValue_cons, List.length_cons, Nat.pow_succ]
    have := byte.toNat_lt
    omega

/-- A byte string read as its first `n` bytes and the bytes above them. -/
theorem leValue_take_drop (bytes : List UInt8) (n : Nat) :
    leValue bytes = leValue (bytes.take n) + 256 ^ n * leValue (bytes.drop n) := by
  conv_lhs => rw [← List.take_append_drop n bytes]
  rw [leValue_append, List.length_take]
  by_cases short : bytes.length ≤ n
  · rw [List.drop_eq_nil_of_le short, leValue_nil, Nat.mul_zero, Nat.mul_zero]
  · rw [Nat.min_eq_left (by omega)]

theorem leValue_take_lt (bytes : List UInt8) (n : Nat) : leValue (bytes.take n) < 256 ^ n :=
  Nat.lt_of_lt_of_le (leValue_lt _) (Nat.pow_le_pow_right (by norm_num) (List.length_take_le n bytes))

/-! ## Comparing byte strings -/

/-- `memcmp`: the sign of the first pair of bytes that differ, 0 if none does. -/
def memcmp : List UInt8 → List UInt8 → Int
  | a :: as, b :: bs => if a = b then memcmp as bs else if a < b then -1 else 1
  | _, _ => 0

/-- The number a byte string stores with its most significant byte first. -/
def beValue : List UInt8 → Nat
  | [] => 0
  | byte :: bytes => byte.toNat * 256 ^ bytes.length + beValue bytes

theorem beValue_lt (bytes : List UInt8) : beValue bytes < 256 ^ bytes.length := by
  induction bytes with
  | nil => simp [beValue]
  | cons byte bytes ih =>
    have byteBound := byte.toNat_lt
    calc beValue (byte :: bytes) = byte.toNat * 256 ^ bytes.length + beValue bytes := rfl
      _ < byte.toNat * 256 ^ bytes.length + 256 ^ bytes.length := by omega
      _ = (byte.toNat + 1) * 256 ^ bytes.length := by ring
      _ ≤ 256 * 256 ^ bytes.length := Nat.mul_le_mul_right _ byteBound
      _ = 256 ^ (byte :: bytes).length := by rw [List.length_cons, Nat.pow_succ, Nat.mul_comm]

/-- A higher leading digit outweighs any lower digits. -/
theorem lt_of_digit_lt {x y r s W : Nat} (below : r < W) (digit : x < y) :
    x * W + r < y * W + s :=
  calc x * W + r < x * W + W := by omega
    _ = (x + 1) * W := by ring
    _ ≤ y * W := Nat.mul_le_mul_right _ digit
    _ ≤ y * W + s := Nat.le_add_right _ _

/-- On strings of one length, `memcmp` is positive exactly when the first stores the larger
big-endian number. -/
theorem memcmp_pos_iff : ∀ {a b : List UInt8}, a.length = b.length →
    (0 < memcmp a b ↔ beValue b < beValue a)
  | [], [], _ => by simp [memcmp, beValue]
  | x :: as, y :: bs, same => by
    have sameTail : as.length = bs.length := by simpa using same
    have tail := memcmp_pos_iff sameTail
    have asBound : beValue as < 256 ^ bs.length := sameTail ▸ beValue_lt as
    simp only [memcmp, beValue]
    rw [sameTail]
    by_cases equal : x = y
    · subst equal
      rw [if_pos rfl, tail]
      omega
    · -- the first differing byte decides
      rw [if_neg equal]
      have values : x.toNat ≠ y.toNat := fun same => equal (UInt8.toNat_inj.mp same)
      by_cases less : x < y
      · have digit : x.toNat < y.toNat := UInt8.lt_iff_toNat_lt.mp less
        rw [if_pos less]
        have := lt_of_digit_lt (s := beValue bs) asBound digit
        omega
      · have digit : y.toNat < x.toNat := by
          have := UInt8.lt_iff_toNat_lt.not.mp less
          omega
        rw [if_neg less]
        have := lt_of_digit_lt (s := beValue as) (beValue_lt bs) digit
        omega
  | [], _ :: _, same => absurd same (by simp)
  | _ :: _, [], same => absurd same (by simp)

/-- Strings of one length that store the same big-endian number are equal. -/
theorem beValue_injective : ∀ {a b : List UInt8}, a.length = b.length → beValue a = beValue b →
    a = b
  | [], [], _, _ => rfl
  | x :: as, y :: bs, same, values => by
    have sameTail : as.length = bs.length := by simpa using same
    have asBound : beValue as < 256 ^ bs.length := sameTail ▸ beValue_lt as
    simp only [beValue] at values
    rw [sameTail] at values
    -- the leading digits agree, or the larger one would outweigh the rest
    have digits : x.toNat = y.toNat := by
      by_contra differ
      rcases Nat.lt_or_gt_of_ne differ with less | greater
      · have := lt_of_digit_lt (s := beValue bs) asBound less
        omega
      · have := lt_of_digit_lt (s := beValue as) (beValue_lt bs) greater
        omega
    rw [digits] at values
    rw [UInt8.toNat_inj.mp digits, beValue_injective sameTail (by omega)]
  | [], _ :: _, same, _ => absurd same (by simp)
  | _ :: _, [], same, _ => absurd same (by simp)

end Words

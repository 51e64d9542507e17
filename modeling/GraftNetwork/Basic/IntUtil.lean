import GraftNetwork.Lib.Words

/-!
# Wide multiplication and division (common/int-util.h)

`mul128` multiplies two `uint64_t` through their 32-bit halves and returns the 128-bit product as
a low and a high word; `div128_32` divides a 128-bit number by a 32-bit divisor by long division in
base `2 ^ 32`. Words are natural numbers below `2 ^ 64`, and every `uint64_t` sum and shift of the
source wraps modulo `2 ^ 64`.

* `mul128_eq`: the two words of `mul128 a b` are those of the product; `mul128_words` puts them
  back together.
* `div128_32_eq`: the quotient words and the remainder of `div128_32` are those of the division,
  for a divisor that is nonzero and below `2 ^ 32`; `div128_32_words` chains such divisions, and
  `div128_32_recombine` multiplies the quotient back.
-/

namespace GraftNetwork.Basic

/-- `hi_dword`. -/
def hiDword (val : Nat) : Nat := val >>> 32

/-- `lo_dword`. -/
def loDword (val : Nat) : Nat := val &&& 0xFFFFFFFF

/-- `mul128(multiplier, multiplicand, &product_hi)`: the low word of the product, with the high
word that it writes. -/
def mul128 (multiplier multiplicand : Nat) : Nat × Nat :=
  let a := hiDword multiplier
  let b := loDword multiplier
  let c := hiDword multiplicand
  let d := loDword multiplicand
  let ac := a * c
  let ad := a * d
  let bc := b * c
  let bd := b * d
  let adbc := (ad + bc) % 2 ^ 64
  let adbcCarry := if adbc < ad then 1 else 0
  let productLo := (bd + (adbc <<< 32) % 2 ^ 64) % 2 ^ 64
  let productLoCarry := if productLo < bd then 1 else 0
  let productHi := (ac + (adbc >>> 32) + (adbcCarry <<< 32) + productLoCarry) % 2 ^ 64
  (productLo, productHi)

/-- `div_with_reminder(dividend, divisor, &remainder)`: the remainder of the previous digit
becomes the high half of the dividend; the quotient, with the new remainder. -/
def divWithReminder (dividend divisor remainder : Nat) : Nat × Nat :=
  let dividend := dividend ||| (remainder <<< 32) % 2 ^ 64
  (dividend / divisor, dividend % divisor)

/-- `div128_32(dividend_hi, dividend_lo, divisor, &quotient_hi, &quotient_lo)`: long division of
the four 32-bit digits, the most significant first; the quotient words, with the remainder it
returns. -/
def div128_32 (dividendHi dividendLo divisor : Nat) : Nat × Nat × Nat :=
  let (q3, r) := divWithReminder (hiDword dividendHi) divisor 0
  let (q2, r) := divWithReminder (loDword dividendHi) divisor r
  let (q1, r) := divWithReminder (hiDword dividendLo) divisor r
  let (q0, r) := divWithReminder (loDword dividendLo) divisor r
  ((q3 <<< 32) % 2 ^ 64 ||| q2, (q1 <<< 32) % 2 ^ 64 ||| q0, r)

/-! ## The halves of a word -/

theorem hiDword_eq (val : Nat) : hiDword val = val / 2 ^ 32 := Nat.shiftRight_eq_div_pow val 32

theorem loDword_eq (val : Nat) : loDword val = val % 2 ^ 32 :=
  Nat.and_two_pow_sub_one_eq_mod val 32

/-- A digit below `2 ^ 32` placed under a shifted one adds to it. -/
theorem shiftLeft_or_eq {high low : Nat} (fits : high < 2 ^ 32) (below : low < 2 ^ 32) :
    (high <<< 32) % 2 ^ 64 ||| low = high * 2 ^ 32 + low := by
  have shifted : (high <<< 32) % 2 ^ 64 = 2 ^ 32 * high := by
    rw [Nat.shiftLeft_eq, Nat.mod_eq_of_lt (by omega)]
    ring
  rw [shifted, ← Nat.two_pow_add_eq_or_of_lt below]
  ring

/-! ## `mul128` -/

/-- The product of the halves: the schoolbook identity the algorithm follows. -/
theorem mul_halves (x y : Nat) :
    x * y = x / 2 ^ 32 * (y / 2 ^ 32) * 2 ^ 64 +
      (x / 2 ^ 32 * (y % 2 ^ 32) + x % 2 ^ 32 * (y / 2 ^ 32)) * 2 ^ 32 +
      x % 2 ^ 32 * (y % 2 ^ 32) := by
  conv_lhs => rw [← Nat.div_add_mod x (2 ^ 32), ← Nat.div_add_mod y (2 ^ 32)]
  ring

/-- `mul128` computes the product: its low word and its high word. -/
theorem mul128_eq {x y : Nat} (hx : x < 2 ^ 64) (hy : y < 2 ^ 64) :
    mul128 x y = (x * y % 2 ^ 64, x * y / 2 ^ 64) := by
  -- the four partial products of the halves, each below `2 ^ 64`
  have halves : ∀ {u v : Nat}, u < 2 ^ 32 → v < 2 ^ 32 → u * v < 2 ^ 64 := fun hu hv =>
    Nat.lt_of_lt_of_le (Nat.mul_lt_mul'' hu hv) (by norm_num)
  have a := halves (show x / 2 ^ 32 < 2 ^ 32 by omega) (show y % 2 ^ 32 < 2 ^ 32 by omega)
  have b := halves (show x % 2 ^ 32 < 2 ^ 32 by omega) (show y / 2 ^ 32 < 2 ^ 32 by omega)
  have c := halves (show x % 2 ^ 32 < 2 ^ 32 by omega) (show y % 2 ^ 32 < 2 ^ 32 by omega)
  have product := mul_halves x y
  have bounded : x * y < 2 ^ 128 :=
    Nat.lt_of_lt_of_le (Nat.mul_lt_mul'' hx hy) (by norm_num)
  -- the middle sum and its carry, then the low word and its carry
  have middle := Words.carry_iff a b
  have low := Words.carry_iff c (Nat.mod_lt
    ((x / 2 ^ 32 * (y % 2 ^ 32) + x % 2 ^ 32 * (y / 2 ^ 32)) % 2 ^ 64 * 2 ^ 32) (by norm_num))
  simp only [mul128, hiDword_eq, loDword_eq, Nat.shiftLeft_eq, Nat.shiftRight_eq_div_pow,
    Prod.mk.injEq]
  -- the low word does not depend on the carries; the high word adds both
  refine ⟨by omega, ?_⟩
  split <;> split <;> omega

/-- The two words of `mul128 a b` are words, and `hi * 2 ^ 64 + lo` is the product. -/
theorem mul128_words {x y : Nat} (hx : x < 2 ^ 64) (hy : y < 2 ^ 64) :
    (mul128 x y).2 * 2 ^ 64 + (mul128 x y).1 = x * y ∧ (mul128 x y).1 < 2 ^ 64 ∧
      (mul128 x y).2 < 2 ^ 64 := by
  have bounded : x * y < 2 ^ 128 :=
    Nat.lt_of_lt_of_le (Nat.mul_lt_mul'' hx hy) (by norm_num)
  rw [mul128_eq hx hy]
  exact ⟨Nat.div_add_mod' _ _, Nat.mod_lt _ (by norm_num), by omega⟩

/-! ## `div128_32` -/

/-- One digit of the long division: the remainder so far above the digit, divided. -/
theorem divWithReminder_eq {dividend divisor remainder : Nat} (digit : dividend < 2 ^ 32)
    (carried : remainder < divisor) (fits : divisor < 2 ^ 32) :
    divWithReminder dividend divisor remainder =
      ((remainder * 2 ^ 32 + dividend) / divisor, (remainder * 2 ^ 32 + dividend) % divisor) := by
  unfold divWithReminder
  rw [Nat.or_comm, shiftLeft_or_eq (by omega) digit]

/-- With the remainder below the divisor, each quotient digit fits in 32 bits. -/
theorem digit_lt {dividend divisor remainder : Nat} (digit : dividend < 2 ^ 32)
    (carried : remainder < divisor) : (remainder * 2 ^ 32 + dividend) / divisor < 2 ^ 32 := by
  rw [Nat.div_lt_iff_lt_mul (by omega)]
  have : (remainder + 1) * 2 ^ 32 ≤ divisor * 2 ^ 32 := Nat.mul_le_mul_right _ carried
  rw [Nat.add_mul, Nat.one_mul] at this
  omega

/-- Long division of a number of four 32-bit digits, the most significant first: the digits of
the quotient, each from the remainder of the one before, and the last remainder. -/
theorem longDivision (d3 d2 d1 d0 m : Nat) :
    let n2 := d3 % m * 2 ^ 32 + d2
    let n1 := n2 % m * 2 ^ 32 + d1
    let n0 := n1 % m * 2 ^ 32 + d0
    d3 * 2 ^ 96 + d2 * 2 ^ 64 + d1 * 2 ^ 32 + d0 =
      m * ((d3 / m * 2 ^ 32 + n2 / m) * 2 ^ 64 + (n1 / m * 2 ^ 32 + n0 / m)) + n0 % m := by
  intro n2 n1 n0
  have e3 := Nat.div_add_mod d3 m
  have e2 : m * (n2 / m) + n2 % m = d3 % m * 2 ^ 32 + d2 := Nat.div_add_mod n2 m
  have e1 : m * (n1 / m) + n1 % m = n2 % m * 2 ^ 32 + d1 := Nat.div_add_mod n1 m
  have e0 : m * (n0 / m) + n0 % m = n1 % m * 2 ^ 32 + d0 := Nat.div_add_mod n0 m
  have distrib : m * ((d3 / m * 2 ^ 32 + n2 / m) * 2 ^ 64 + (n1 / m * 2 ^ 32 + n0 / m)) =
      m * (d3 / m) * 2 ^ 96 + m * (n2 / m) * 2 ^ 64 + m * (n1 / m) * 2 ^ 32 + m * (n0 / m) := by
    ring
  omega

/-- `div128_32` divides the 128-bit number of the two words by a nonzero 32-bit divisor: the
high and low words of the quotient, and the remainder. -/
theorem div128_32_eq {hi lo divisor : Nat} (hiFits : hi < 2 ^ 64) (loFits : lo < 2 ^ 64)
    (pos : 0 < divisor) (fits : divisor < 2 ^ 32) :
    div128_32 hi lo divisor =
      ((2 ^ 64 * hi + lo) / divisor / 2 ^ 64, (2 ^ 64 * hi + lo) / divisor % 2 ^ 64,
        (2 ^ 64 * hi + lo) % divisor) := by
  have d3 : hiDword hi < 2 ^ 32 := by rw [hiDword_eq]; omega
  have d2 : loDword hi < 2 ^ 32 := by rw [loDword_eq]; omega
  have d1 : hiDword lo < 2 ^ 32 := by rw [hiDword_eq]; omega
  have d0 : loDword lo < 2 ^ 32 := by rw [loDword_eq]; omega
  -- the remainders carried from digit to digit
  have r3 : hiDword hi % divisor < divisor := Nat.mod_lt _ pos
  have r2 : (hiDword hi % divisor * 2 ^ 32 + loDword hi) % divisor < divisor := Nat.mod_lt _ pos
  have r1 : ((hiDword hi % divisor * 2 ^ 32 + loDword hi) % divisor * 2 ^ 32 + hiDword lo) %
      divisor < divisor := Nat.mod_lt _ pos
  have first : divWithReminder (hiDword hi) divisor 0 = (hiDword hi / divisor, hiDword hi % divisor) := by
    rw [divWithReminder_eq d3 pos fits, Nat.zero_mul, Nat.zero_add]
  unfold div128_32
  rw [first]
  dsimp only
  rw [divWithReminder_eq d2 r3 fits]
  dsimp only
  rw [divWithReminder_eq d1 r2 fits]
  dsimp only
  rw [divWithReminder_eq d0 r1 fits]
  dsimp only
  rw [shiftLeft_or_eq (Nat.lt_of_le_of_lt (Nat.div_le_self _ _) d3) (digit_lt d2 r3),
    shiftLeft_or_eq (digit_lt d1 r2) (digit_lt d0 r1)]
  -- the dividend is the four digits, and the long division divides them
  have digits : 2 ^ 64 * hi + lo =
      hiDword hi * 2 ^ 96 + loDword hi * 2 ^ 64 + hiDword lo * 2 ^ 32 + loDword lo := by
    rw [hiDword_eq, loDword_eq, hiDword_eq, loDword_eq]
    omega
  have divided := longDivision (hiDword hi) (loDword hi) (hiDword lo) (loDword lo) divisor
  dsimp only at divided
  obtain ⟨quotient, remainder⟩ := (Nat.div_mod_unique pos).mpr
    ⟨(Nat.add_comm _ _).trans (divided.symm.trans digits.symm), Nat.mod_lt _ pos⟩
  -- the low word of the quotient is its two low digits
  have lowWord : ((hiDword hi % divisor * 2 ^ 32 + loDword hi) % divisor * 2 ^ 32 + hiDword lo) /
      divisor * 2 ^ 32 + (((hiDword hi % divisor * 2 ^ 32 + loDword hi) % divisor * 2 ^ 32 +
      hiDword lo) % divisor * 2 ^ 32 + loDword lo) / divisor < 2 ^ 64 := by
    have := digit_lt d0 r1
    have := digit_lt d1 r2
    omega
  rw [quotient, remainder, Words.split_div lowWord, Words.split_mod lowWord]

/-- The quotient words of `div128_32` are words, and with the remainder below the divisor they
give the dividend back: `(qhi * 2 ^ 64 + qlo) * divisor + r = hi * 2 ^ 64 + lo`. -/
theorem div128_32_recombine {hi lo divisor : Nat} (hiFits : hi < 2 ^ 64) (loFits : lo < 2 ^ 64)
    (pos : 0 < divisor) (fits : divisor < 2 ^ 32) :
    ((div128_32 hi lo divisor).1 * 2 ^ 64 + (div128_32 hi lo divisor).2.1) * divisor +
        (div128_32 hi lo divisor).2.2 = hi * 2 ^ 64 + lo ∧
      (div128_32 hi lo divisor).2.2 < divisor ∧ (div128_32 hi lo divisor).1 < 2 ^ 64 ∧
      (div128_32 hi lo divisor).2.1 < 2 ^ 64 := by
  have quotientFits : (2 ^ 64 * hi + lo) / divisor < 2 ^ 128 :=
    Nat.lt_of_le_of_lt (Nat.div_le_self _ _) (by omega)
  rw [div128_32_eq hiFits loFits pos fits]
  refine ⟨?_, Nat.mod_lt _ pos, by omega, Nat.mod_lt _ (by norm_num)⟩
  rw [Nat.div_add_mod', Nat.div_add_mod', Nat.mul_comm hi]

/-- `div128_32` on the two words of a 128-bit number gives the two words of its quotient, so
divisions chain: the quotient words, with the remainder. -/
theorem div128_32_words {n divisor : Nat} (fits : n < 2 ^ 128) (pos : 0 < divisor)
    (small : divisor < 2 ^ 32) :
    div128_32 (n / 2 ^ 64) (n % 2 ^ 64) divisor = (n / divisor / 2 ^ 64, n / divisor % 2 ^ 64, n % divisor) := by
  rw [div128_32_eq (by omega) (Nat.mod_lt _ (by decide)) pos small, Nat.div_add_mod]

end GraftNetwork.Basic

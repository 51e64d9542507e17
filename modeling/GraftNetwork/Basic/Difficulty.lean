import Mathlib.Algebra.Order.Floor.Div
import Mathlib.Data.List.Sort
import GraftNetwork.Basic.IntUtil
import GraftNetwork.Serialization.BinaryArchive

/-!
# Proof of work and the next difficulty (cryptonote_basic/difficulty.cpp)

`check_hash` accepts a hash for a difficulty when the product of the hash, read as a 256-bit
little-endian number, and the difficulty has no bit at or above `2 ^ 256`. It multiplies each
64-bit word of the hash by the difficulty with `mul`, gives up early when the top word's product
has a high word, and adds the middle words only for their carries (`cadd`, `cadc`).

`next_difficulty` is the difficulty algorithm of the first versions: the window cut to
`DIFFICULTY_WINDOW` blocks, the timestamps sorted and `DIFFICULTY_CUT` outliers dropped from each
end, and the work of the blocks kept divided by the time they span, rounded up, or zero when that
does not fit in a word.

`mul` is `mul128` on x86-64 and a portable product of 32-bit halves elsewhere (`mulPortable`).
The platform is a parameter: both compute the product (`mul_eq`), so every result holds on both.
`wide_arithmetic_exact` gathers what the wide arithmetic of both files computes.

* `check_hash_iff`: `checkHash` decides `hash * difficulty < 2 ^ 256`.
* `next_difficulty_eq`: on a window of at least two blocks with increasing cumulative
  difficulties, the cut lies inside the window and `nextDifficulty` is the rounded-up quotient of
  the work times the target by the time span when the rounding fits in a word, and zero otherwise.
-/

namespace GraftNetwork.Basic

open GraftNetwork.Serialization

/-! ## `mul` -/

/-- The portable `mul(a, b, low, high)`: the four products of the 32-bit halves, added 32 bits at
a time with their carries. -/
def mulPortable (a b : Nat) : Nat × Nat :=
  let aLow := a &&& 0xFFFFFFFF
  let aHigh := a >>> 32
  let bLow := b &&& 0xFFFFFFFF
  let bHigh := b >>> 32
  let res := aLow * bLow % 2 ^ 64
  let lowRes1 := res &&& 0xFFFFFFFF
  let carry := res >>> 32
  let res := (aHigh * bLow + carry) % 2 ^ 64
  let highResHigh1 := res >>> 32
  let highResLow1 := res &&& 0xFFFFFFFF
  let res := aLow * bHigh % 2 ^ 64
  let lowRes2 := res &&& 0xFFFFFFFF
  let carry := res >>> 32
  let res := (aHigh * bHigh + carry) % 2 ^ 64
  let highResHigh2 := res >>> 32
  let highResLow2 := res &&& 0xFFFFFFFF
  let r := (highResLow1 + lowRes2) % 2 ^ 64
  let carry := r >>> 32
  let low := (r <<< 32) % 2 ^ 64 ||| lowRes1
  let r := (highResHigh1 + highResLow2 + carry) % 2 ^ 64
  let d3 := r &&& 0xFFFFFFFF
  let carry := r >>> 32
  let r := (highResHigh2 + carry) % 2 ^ 64
  (low, d3 ||| (r <<< 32) % 2 ^ 64)

/-- `mul(a, b, low, high)`: `mul128` on x86-64 and `mulPortable` elsewhere; the low word, with
the high word. -/
def mul (x86_64 : Bool) (a b : UInt64) : UInt64 × UInt64 :=
  let (low, high) := if x86_64 then mul128 a.toNat b.toNat else mulPortable a.toNat b.toNat
  (UInt64.ofNat low, UInt64.ofNat high)

/-- `cadd(a, b)`: the sum of two words wraps. -/
def cadd (a b : UInt64) : Bool := a + b < a

/-- `cadc(a, b, c)`: the sum of two words and the carry `c` wraps. -/
def cadc (a b : UInt64) (c : Bool) : Bool := a + b < a || (c && a + b == 0xFFFFFFFFFFFFFFFF)

/-! ## `check_hash` -/

/-- `swap64le(((const uint64_t *) &hash)[i])`: the `i`-th word of the hash, its bytes read lowest
first on every platform. -/
def hashWord (hash : Blob 32) (i : Nat) : UInt64 :=
  UInt64.ofNat (Words.leValue ((hash.bytes.drop (8 * i)).take 8))

/-- `check_hash(hash, difficulty)`. -/
def checkHash (x86_64 : Bool) (hash : Blob 32) (difficulty : UInt64) : Bool :=
  -- the highest word first: a random hash most likely fails there
  let (top, high) := mul x86_64 (hashWord hash 3) difficulty
  if high ≠ 0 then false
  else
    let (_, cur) := mul x86_64 (hashWord hash 0) difficulty
    let (low, high) := mul x86_64 (hashWord hash 1) difficulty
    let carry := cadd cur low
    let cur := high
    let (low, high) := mul x86_64 (hashWord hash 2) difficulty
    let carry := cadc cur low carry
    let carry := cadc high top carry
    !carry

/-! ## `next_difficulty` -/

/-- `DIFFICULTY_WINDOW`: blocks. -/
def difficultyWindow : Nat := 720

/-- `DIFFICULTY_CUT`: timestamps cut from each end after sorting. -/
def difficultyCut : Nat := 60

/-- `std::vector<uint64_t>::resize(n)`: the first `n` elements, padded with zeros. -/
def resize (v : List UInt64) (n : Nat) : List UInt64 :=
  v.take n ++ List.replicate (n - v.length) 0

/-- `cut_begin` and `cut_end`: the middle `DIFFICULTY_WINDOW - 2 * DIFFICULTY_CUT` timestamps of a
longer window, the odd one left at the start. -/
def cutIndices (length : Nat) : Nat × Nat :=
  if length ≤ difficultyWindow - 2 * difficultyCut then (0, length)
  else
    let cutBegin := (length - (difficultyWindow - 2 * difficultyCut) + 1) / 2
    (cutBegin, cutBegin + (difficultyWindow - 2 * difficultyCut))

/-- `next_difficulty(timestamps, cumulative_difficulties, target_seconds)`. `std::sort` sorts the
timestamps; the vectors are read at `cut_begin` and `cut_end - 1`, inside them by the assert. -/
def nextDifficulty (x86_64 : Bool) (timestamps cumulativeDifficulties : List UInt64)
    (targetSeconds : UInt64) : UInt64 :=
  let (timestamps, cumulativeDifficulties) :=
    if timestamps.length > difficultyWindow then
      (resize timestamps difficultyWindow, resize cumulativeDifficulties difficultyWindow)
    else (timestamps, cumulativeDifficulties)
  let length := timestamps.length
  if length ≤ 1 then 1
  else
    let timestamps := timestamps.insertionSort (· ≤ ·)
    let (cutBegin, cutEnd) := cutIndices length
    let timeSpan := timestamps.getD (cutEnd - 1) 0 - timestamps.getD cutBegin 0
    let timeSpan := if timeSpan = 0 then 1 else timeSpan
    let totalWork :=
      cumulativeDifficulties.getD (cutEnd - 1) 0 - cumulativeDifficulties.getD cutBegin 0
    let (low, high) := mul x86_64 totalWork targetSeconds
    -- a zero difficulty makes the blockchain report "difficulty overhead"
    if high ≠ 0 ∨ low + timeSpan - 1 < low then 0
    else (low + timeSpan - 1) / timeSpan

/-! ## The product of two words -/

/-- A digit shifted into the upper half of a word, with a digit below it: only the low 32 bits of
the shifted one stay. -/
theorem shiftLeft_mod_or_eq (high low : Nat) :
    (high <<< 32) % 2 ^ 64 ||| low % 2 ^ 32 = high % 2 ^ 32 * 2 ^ 32 + low % 2 ^ 32 := by
  have wrapped : (high <<< 32) % 2 ^ 64 = ((high % 2 ^ 32) <<< 32) % 2 ^ 64 := by
    simp only [Nat.shiftLeft_eq]
    omega
  rw [wrapped, shiftLeft_or_eq (Nat.mod_lt _ (by norm_num)) (Nat.mod_lt _ (by norm_num))]

/-- A product of two halves leaves room for a half below it. -/
theorem halves_mul_le {u v : Nat} (hu : u < 2 ^ 32) (hv : v < 2 ^ 32) :
    u * v ≤ (2 ^ 32 - 1) * (2 ^ 32 - 1) :=
  Nat.mul_le_mul (by omega) (by omega)

/-- The portable `mul` computes the product: its low word and its high word. -/
theorem mulPortable_eq {x y : Nat} (hx : x < 2 ^ 64) (hy : y < 2 ^ 64) :
    mulPortable x y = (x * y % 2 ^ 64, x * y / 2 ^ 64) := by
  have mask : ∀ v : Nat, v &&& 0xFFFFFFFF = v % 2 ^ 32 := loDword_eq
  have a := halves_mul_le (show x / 2 ^ 32 < 2 ^ 32 by omega) (show y / 2 ^ 32 < 2 ^ 32 by omega)
  have b := halves_mul_le (show x / 2 ^ 32 < 2 ^ 32 by omega) (show y % 2 ^ 32 < 2 ^ 32 by omega)
  have c := halves_mul_le (show x % 2 ^ 32 < 2 ^ 32 by omega) (show y / 2 ^ 32 < 2 ^ 32 by omega)
  have d := halves_mul_le (show x % 2 ^ 32 < 2 ^ 32 by omega) (show y % 2 ^ 32 < 2 ^ 32 by omega)
  have product := mul_halves x y
  -- no sum of the algorithm wraps: each is a product of halves and at most a half more
  simp only [mulPortable, mask, shiftLeft_mod_or_eq, Nat.or_comm (_ % 2 ^ 32),
    Nat.shiftRight_eq_div_pow, Prod.mk.injEq]
  constructor <;> omega

theorem mul_eq (x86_64 : Bool) (a b : UInt64) :
    mul x86_64 a b =
      (UInt64.ofNat (a.toNat * b.toNat % 2 ^ 64), UInt64.ofNat (a.toNat * b.toNat / 2 ^ 64)) := by
  have exact : (if x86_64 then mul128 a.toNat b.toNat else mulPortable a.toNat b.toNat) =
      (a.toNat * b.toNat % 2 ^ 64, a.toNat * b.toNat / 2 ^ 64) := by
    cases x86_64
    · exact mulPortable_eq a.toNat_lt b.toNat_lt
    · exact mul128_eq a.toNat_lt b.toNat_lt
  unfold mul
  rw [exact]

/-- The hand-written wide arithmetic is exact: `mul128` returns the two words of the product and
the portable `mul` the same pair, and `div128_32` by a nonzero 32-bit divisor returns quotient
words and a remainder below the divisor that multiply back to the dividend. -/
theorem wide_arithmetic_exact :
    (∀ a b : Nat, a < 2 ^ 64 → b < 2 ^ 64 →
      (mul128 a b).2 * 2 ^ 64 + (mul128 a b).1 = a * b ∧ (mul128 a b).1 < 2 ^ 64 ∧
        (mul128 a b).2 < 2 ^ 64 ∧ mulPortable a b = mul128 a b) ∧
    (∀ hi lo d : Nat, hi < 2 ^ 64 → lo < 2 ^ 64 → 0 < d → d < 2 ^ 32 →
      ((div128_32 hi lo d).1 * 2 ^ 64 + (div128_32 hi lo d).2.1) * d + (div128_32 hi lo d).2.2 =
          hi * 2 ^ 64 + lo ∧ (div128_32 hi lo d).2.2 < d ∧
        (div128_32 hi lo d).1 < 2 ^ 64 ∧ (div128_32 hi lo d).2.1 < 2 ^ 64) := by
  refine ⟨fun a b ha hb => ?_, fun hi lo d hiFits loFits pos fits =>
    div128_32_recombine hiFits loFits pos fits⟩
  obtain ⟨recombined, lowFits, highFits⟩ := mul128_words ha hb
  exact ⟨recombined, lowFits, highFits, (mulPortable_eq ha hb).trans (mul128_eq ha hb).symm⟩

/-- At the word limits: the largest product and the largest dividend by the largest divisor. -/
theorem wide_arithmetic_at_word_limits :
    mulPortable 0xFFFFFFFFFFFFFFFF 0xFFFFFFFFFFFFFFFF = mul128 0xFFFFFFFFFFFFFFFF 0xFFFFFFFFFFFFFFFF ∧
      (div128_32 0xFFFFFFFFFFFFFFFF 0xFFFFFFFFFFFFFFFF 0xFFFFFFFF).2.2 < 0xFFFFFFFF :=
  ⟨(wide_arithmetic_exact.1 _ _ (by decide) (by decide)).2.2.2,
    (wide_arithmetic_exact.2 _ _ _ (by decide) (by decide) (by decide) (by decide)).2.1⟩

/-- The product of two words is below `2 ^ 128`, so its high word is a word. -/
theorem toNat_mul_lt (a b : UInt64) : a.toNat * b.toNat < 2 ^ 128 :=
  Nat.lt_of_lt_of_le (Nat.mul_lt_mul'' a.toNat_lt b.toNat_lt) (by norm_num)

/-! ## Carries -/

theorem cadd_toNat (a b : UInt64) : (cadd a b).toNat = (a.toNat + b.toNat) / 2 ^ 64 := by
  have carried : cadd a b = true ↔ 2 ^ 64 ≤ a.toNat + b.toNat := by
    rw [← Words.carry_iff a.toNat_lt b.toNat_lt]
    simp [cadd, UInt64.lt_iff_toNat_lt, UInt64.toNat_add]
  have := a.toNat_lt
  have := b.toNat_lt
  cases h : cadd a b <;> simp [h] at carried ⊢ <;> omega

theorem cadc_toNat (a b : UInt64) (c : Bool) :
    (cadc a b c).toNat = (a.toNat + b.toNat + c.toNat) / 2 ^ 64 := by
  have carried : cadc a b c = true ↔ 2 ^ 64 ≤ a.toNat + b.toNat + c.toNat := by
    rw [← Words.carryIn_iff a.toNat_lt b.toNat_lt c]
    simp [cadc, UInt64.lt_iff_toNat_lt, UInt64.toNat_add, ← UInt64.toNat_inj]
  have := a.toNat_lt
  have := b.toNat_lt
  have := c.toNat_le
  cases h : cadc a b c <;> simp [h] at carried ⊢ <;> omega

/-! ## The hash as a 256-bit number -/

theorem hashWord_toNat (hash : Blob 32) (i : Nat) :
    (hashWord hash i).toNat = Words.leValue ((hash.bytes.drop (8 * i)).take 8) := by
  have fits := Words.leValue_take_lt (hash.bytes.drop (8 * i)) 8
  rw [hashWord, UInt64.toNat_ofNat', Nat.mod_eq_of_lt (by norm_num at fits ⊢; omega)]

/-- The bytes from `n` on: a word, then the bytes above it. -/
theorem leValue_drop_eq (bytes : List UInt8) (n : Nat) :
    Words.leValue (bytes.drop n) =
      Words.leValue ((bytes.drop n).take 8) + 2 ^ 64 * Words.leValue (bytes.drop (n + 8)) := by
  rw [Words.leValue_take_drop (bytes.drop n) 8, List.drop_drop]
  norm_num

/-- The hash as a 256-bit little-endian number: its four words, the lowest first. -/
theorem leValue_hash (hash : Blob 32) :
    Words.leValue hash.bytes = (hashWord hash 0).toNat + 2 ^ 64 * (hashWord hash 1).toNat +
      2 ^ 128 * (hashWord hash 2).toNat + 2 ^ 192 * (hashWord hash 3).toNat := by
  have word0 := leValue_drop_eq hash.bytes 0
  have word1 := leValue_drop_eq hash.bytes 8
  have word2 := leValue_drop_eq hash.bytes 16
  have word3 := leValue_drop_eq hash.bytes 24
  have above : Words.leValue (hash.bytes.drop 32) = 0 := by
    rw [List.drop_eq_nil_of_le (by rw [hash.length_eq]), Words.leValue_nil]
  simp only [List.drop_zero, Nat.reduceAdd] at word0 word1 word2 word3
  simp only [hashWord_toNat, Nat.reduceMul, List.drop_zero]
  omega

/-- `check_hash` decides the proof-of-work inequality: the product of the hash, read as a 256-bit
little-endian number, and the difficulty is below `2 ^ 256`. -/
theorem check_hash_iff (x86_64 : Bool) (hash : Blob 32) (difficulty : UInt64) :
    checkHash x86_64 hash difficulty = true ↔
      Words.leValue hash.bytes * difficulty.toNat < 2 ^ 256 := by
  -- the product is the four products of a word and the difficulty, each below `2 ^ 128`
  have value : Words.leValue hash.bytes * difficulty.toNat =
      (hashWord hash 0).toNat * difficulty.toNat +
        2 ^ 64 * ((hashWord hash 1).toNat * difficulty.toNat) +
        2 ^ 128 * ((hashWord hash 2).toNat * difficulty.toNat) +
        2 ^ 192 * ((hashWord hash 3).toNat * difficulty.toNat) := by
    rw [leValue_hash]
    ring
  have p0 := toNat_mul_lt (hashWord hash 0) difficulty
  have p1 := toNat_mul_lt (hashWord hash 1) difficulty
  have p2 := toNat_mul_lt (hashWord hash 2) difficulty
  have p3 := toNat_mul_lt (hashWord hash 3) difficulty
  simp only [checkHash, mul_eq]
  split
  · next high =>
    -- the top word's product has a high word: the product reaches `2 ^ 256`
    have high : (hashWord hash 3).toNat * difficulty.toNat / 2 ^ 64 % 2 ^ 64 ≠ 0 := by
      simpa [← UInt64.toNat_inj] using high
    simp only [Bool.false_eq_true, false_iff]
    omega
  · next noHigh =>
    have noHigh : (hashWord hash 3).toNat * difficulty.toNat / 2 ^ 64 % 2 ^ 64 = 0 := by
      simpa [← UInt64.toNat_inj] using noHigh
    -- the carry out of the top word is the product's part above `2 ^ 256`
    rw [Bool.not_eq_true', ← Bool.toNat_eq_zero, cadc_toNat, cadc_toNat, cadd_toNat]
    simp only [UInt64.toNat_ofNat']
    omega

/-! ## The window of `next_difficulty` -/

theorem resize_of_le {v : List UInt64} {n : Nat} (within : n ≤ v.length) : resize v n = v.take n := by
  rw [resize, Nat.sub_eq_zero_of_le within, List.replicate_zero, List.append_nil]

/-- With the two vectors of one length, the resize keeps the first `DIFFICULTY_WINDOW` of each. -/
theorem window_eq {timestamps cumulativeDifficulties : List UInt64}
    (sameLength : timestamps.length = cumulativeDifficulties.length) :
    (if timestamps.length > difficultyWindow then
        (resize timestamps difficultyWindow, resize cumulativeDifficulties difficultyWindow)
      else (timestamps, cumulativeDifficulties)) =
      (timestamps.take difficultyWindow, cumulativeDifficulties.take difficultyWindow) := by
  split
  · next long => rw [resize_of_le (by omega), resize_of_le (by omega)]
  · next short => rw [List.take_of_length_le (by omega), List.take_of_length_le (by omega)]

/-- The cut keeps at least two timestamps of a window of at least two. -/
theorem cutIndices_bounds {length : Nat} (two : 2 ≤ length) (within : length ≤ difficultyWindow) :
    (cutIndices length).1 + 2 ≤ (cutIndices length).2 ∧ (cutIndices length).2 ≤ length := by
  unfold cutIndices
  unfold difficultyWindow difficultyCut at *
  split <;> simp only <;> omega

/-- `std::sort` gives the one sorted permutation. -/
theorem insertionSort_eq_of_perm {l sorted : List UInt64} (perm : sorted.Perm l)
    (ordered : sorted.Pairwise (· ≤ ·)) : l.insertionSort (· ≤ ·) = sorted :=
  List.Perm.eq_of_pairwise' (List.pairwise_insertionSort _ l) ordered
    ((List.perm_insertionSort _ l).trans perm.symm)

/-- Two entries of a list whose elements are related in order. -/
theorem getD_rel_of_pairwise {α : Type} {R : α → α → Prop} {l : List α} (ordered : l.Pairwise R)
    {i j : Nat} (d : α) (lt : i < j) (inRange : j < l.length) : R (l.getD i d) (l.getD j d) := by
  rw [List.getD_eq_getElem?_getD, List.getElem?_eq_getElem (by omega),
    List.getD_eq_getElem?_getD, List.getElem?_eq_getElem inRange]
  exact List.pairwise_iff_getElem.mp ordered i j _ _ lt

/-- The window is read inside its first `n` entries. -/
theorem getD_take {α : Type} (l : List α) {n i : Nat} (d : α) (lt : i < n) :
    (l.take n).getD i d = l.getD i d := by
  rw [List.getD_eq_getElem?_getD, List.getElem?_take, if_pos lt, ← List.getD_eq_getElem?_getD]

/-- The end of `next_difficulty`: the product of the work and the target, refused when it has a
high word or when its rounding up wraps, and otherwise divided rounding up. -/
theorem roundUp_toNat {work : Nat} {timeSpan : UInt64} (fits : work < 2 ^ 128) (pos : timeSpan ≠ 0) :
    (if UInt64.ofNat (work / 2 ^ 64) ≠ 0 ∨
          UInt64.ofNat (work % 2 ^ 64) + timeSpan - 1 < UInt64.ofNat (work % 2 ^ 64) then 0
        else (UInt64.ofNat (work % 2 ^ 64) + timeSpan - 1) / timeSpan).toNat =
      if work + timeSpan.toNat - 1 < 2 ^ 64 then work ⌈/⌉ timeSpan.toNat else 0 := by
  have positive : 0 < timeSpan.toNat := by
    rw [Nat.pos_iff_ne_zero, ne_eq, ← UInt64.toNat_zero, UInt64.toNat_inj]
    exact pos
  have span := timeSpan.toNat_lt
  have rounded : (UInt64.ofNat (work % 2 ^ 64) + timeSpan - 1).toNat =
      (work % 2 ^ 64 + timeSpan.toNat - 1) % 2 ^ 64 := by
    simp only [UInt64.toNat_sub, UInt64.toNat_add, UInt64.toNat_ofNat', UInt64.toNat_one]
    omega
  have high : UInt64.ofNat (work / 2 ^ 64) ≠ 0 ↔ 2 ^ 64 ≤ work := by
    rw [ne_eq, ← UInt64.toNat_inj, UInt64.toNat_ofNat', UInt64.toNat_zero]
    omega
  have wraps : UInt64.ofNat (work % 2 ^ 64) + timeSpan - 1 < UInt64.ofNat (work % 2 ^ 64) ↔
      2 ^ 64 ≤ work % 2 ^ 64 + timeSpan.toNat - 1 := by
    rw [UInt64.lt_iff_toNat_lt, rounded, UInt64.toNat_ofNat', Nat.mod_mod]
    omega
  rw [Nat.ceilDiv_eq_add_pred_div]
  by_cases fitsWord : work + timeSpan.toNat - 1 < 2 ^ 64
  · rw [if_neg (by rw [high, wraps]; omega), if_pos fitsWord, UInt64.toNat_div, rounded, Nat.mod_eq_of_lt (by omega),
      Nat.mod_eq_of_lt (by omega)]
  · rw [if_pos (by rw [high, wraps]; omega), if_neg fitsWord, UInt64.toNat_zero]

/-- `next_difficulty` on a window of at least two blocks with increasing cumulative difficulties:
the cut lies inside the window (the assert), and the result is the work of the kept blocks times
the target divided by their time span rounded up, when the rounding fits in a word, and zero
otherwise. `sorted` is the window's timestamps sorted. -/
theorem next_difficulty_eq (x86_64 : Bool) (timestamps cumulativeDifficulties sorted : List UInt64)
    (targetSeconds : UInt64) (sameLength : timestamps.length = cumulativeDifficulties.length)
    (enough : 2 ≤ timestamps.length) (increasing : cumulativeDifficulties.Pairwise (· < ·))
    (sortedPerm : sorted.Perm (timestamps.take difficultyWindow))
    (ordered : sorted.Pairwise (· ≤ ·)) :
    let length := (timestamps.take difficultyWindow).length
    let cutBegin := (cutIndices length).1
    let cutEnd := (cutIndices length).2
    let totalWork := (cumulativeDifficulties.getD (cutEnd - 1) 0).toNat -
      (cumulativeDifficulties.getD cutBegin 0).toNat
    let timeSpan := max 1 ((sorted.getD (cutEnd - 1) 0).toNat - (sorted.getD cutBegin 0).toNat)
    cutBegin + 2 ≤ cutEnd ∧ cutEnd ≤ length ∧
      (nextDifficulty x86_64 timestamps cumulativeDifficulties targetSeconds).toNat =
        if totalWork * targetSeconds.toNat + timeSpan - 1 < 2 ^ 64 then
          totalWork * targetSeconds.toNat ⌈/⌉ timeSpan
        else 0 := by
  have within : (timestamps.take difficultyWindow).length ≤ difficultyWindow := List.length_take_le _ _
  have two : 2 ≤ (timestamps.take difficultyWindow).length := by
    rw [List.length_take]
    unfold difficultyWindow
    omega
  have sortedLength : sorted.length = (timestamps.take difficultyWindow).length := sortedPerm.length_eq
  have cut := cutIndices_bounds two within
  unfold nextDifficulty
  rw [window_eq sameLength]
  dsimp only
  rw [if_neg (by omega), insertionSort_eq_of_perm sortedPerm ordered]
  generalize cutIndices (timestamps.take difficultyWindow).length = indices at cut ⊢
  obtain ⟨cutBegin, cutEnd⟩ := indices
  dsimp only at cut ⊢
  refine ⟨cut.1, cut.2, ?_⟩
  -- the sorted timestamps and the cumulative difficulties read at both ends of the cut
  have inWindow : cutEnd - 1 < difficultyWindow := by omega
  rw [getD_take _ _ inWindow, getD_take _ _ (by omega)]
  have spanOrdered : sorted.getD cutBegin 0 ≤ sorted.getD (cutEnd - 1) 0 :=
    getD_rel_of_pairwise ordered 0 (by omega) (by omega)
  have workIncreasing :
      cumulativeDifficulties.getD cutBegin 0 < cumulativeDifficulties.getD (cutEnd - 1) 0 :=
    getD_rel_of_pairwise increasing 0 (by omega) (by rw [List.length_take] at cut; omega)
  set first := sorted.getD cutBegin 0
  set last := sorted.getD (cutEnd - 1) 0
  -- no subtraction wraps; a zero time span counts as one second
  have span : (if last - first = 0 then 1 else last - first).toNat =
      max 1 (last.toNat - first.toNat) := by
    rw [← UInt64.toNat_sub_of_le _ _ spanOrdered]
    split
    · next zero =>
      rw [zero, UInt64.toNat_zero, UInt64.toNat_one]
      rfl
    · next nonzero =>
      have : (last - first).toNat ≠ 0 := by rwa [ne_eq, ← UInt64.toNat_zero, UInt64.toNat_inj]
      omega
  have spanPos : (if last - first = 0 then 1 else last - first) ≠ 0 := by
    split
    · decide
    · assumption
  rw [← span, ← UInt64.toNat_sub_of_le _ _ (UInt64.le_of_lt workIncreasing), mul_eq]
  exact roundUp_toNat (toNat_mul_lt _ _) spanPos

/-- Two blocks a second apart that did two units of work: twice the target. -/
theorem next_difficulty_of_two_blocks : (nextDifficulty true [1, 2] [1, 3] 120).toNat = 240 := by
  rw [(next_difficulty_eq true [1, 2] [1, 3] [1, 2] 120 rfl (by decide) (by decide) (by decide)
    (by decide)).2.2]
  decide

end GraftNetwork.Basic

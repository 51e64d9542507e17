import GraftNetwork.Lib.Blocks
import GraftNetwork.Ringct.Multiexp.Scalars

/-!
# Straus

`straus` (multiexp.cc) precomputes the multiples `1 • P, …, 15 • P` of every point
(`straus_init_cache`, or a cache the caller built), cuts every scalar into 4-bit digits, and then,
for bands of `STEP` points, runs Horner's rule over the windows from the highest window that any
scalar reaches: sixteen times the band so far, plus the multiple of every point by its digit.

* `cacheOffset_strausInitCache`: the cache holds multiple `d` of point `j` at `CACHE_OFFSET(j, d)`.
* `digit_scalarDigits`: digit `i` of a scalar is the four bits from bit `i` of its value.
* `strausBand_eq`: a band adds up its points times their scalars.
* `straus_eq_basic`: straus returns the encoding of the sum of the multiples, for every `STEP`
  and every cache built over the data's points.
-/

namespace GraftNetwork.Ringct.Multiexp

open GraftNetwork.Serialization (Key)

/-- The window width of straus. -/
def STRAUS_C : Nat := 4

/-- straus_cached_data under RAW_MEMORY_BLOCK: the number of points and the block of their
multiples. -/
structure StrausCachedData (G : Type) where
  size : Nat
  multiples : Nat → G

section Straus

variable {G : Type} [AddCommMonoid G]

/-- CACHE_OFFSET(cache, point, digit) of the default layout: the multiples of one digit are stored
together, point after point. -/
def cacheOffset (cache : StrausCachedData G) (point digit : Nat) : G :=
  cache.multiples (point + cache.size * (digit - 1))

/-- The loop of straus_init_cache for point `j` with `P = data[j].point`: multiple `1` is the point,
and multiple `i` is the point plus multiple `i - 1`, for `i` from 2 below `1 << STRAUS_C`. -/
def fillMultiples (N : Nat) (P : G) (j : Nat) (multiples : Nat → G) : Nat → G :=
  (List.range' 2 ((1 <<< STRAUS_C) - 2)).foldl
    (fun multiples i =>
      Function.update multiples (j + N * (i - 1)) (P + multiples (j + N * (i - 1 - 1))))
    (Function.update multiples (j + N * (1 - 1)) P)

/-- straus_init_cache(data, N): the multiples of the first `N` points (all of them for `N = 0`) in
a fresh block. The block's other entries are never read; the model starts it at `0`. -/
def strausInitCache (data : List (MultiexpData G)) (N : Nat) :
    Except String (StrausCachedData G) :=
  let N := if N = 0 then data.length else N
  if N ≤ data.length then
    .ok ⟨N, (List.range N).foldl (fun multiples j => fillMultiples N (pointAt data j) j multiples)
      fun _ => 0⟩
  else .error "Bad cache base data"

/-- The digits of one scalar, `digits[j*256+i]` for `i < 256`: from byte `i / 8` and the byte
above it (a zero byte above the last), the four bits from bit `i`. -/
def scalarDigits (scalar : Key) : List Nat :=
  let bytes33 := scalar.bytes ++ [0]
  (List.range 32).flatMap fun p =>
    let b0 := (bytes33.getD p 0).toNat
    let b1 := (bytes33.getD (p + 1) 0).toNat
    [b0 &&& 0xf, (b0 >>> 1) &&& 0xf, (b0 >>> 2) &&& 0xf, (b0 >>> 3) &&& 0xf,
      ((b0 >>> 4) ||| (b1 <<< 4)) &&& 0xf, ((b0 >>> 5) ||| (b1 <<< 3)) &&& 0xf,
      ((b0 >>> 6) ||| (b1 <<< 2)) &&& 0xf, ((b0 >>> 7) ||| (b1 <<< 1)) &&& 0xf]

/-- `while (start_i < 256 && !(maxscalar < pow2(start_i))) start_i += STRAUS_C;` -/
def startLoop (maxscalar : Key) (startI : Nat) : Nat :=
  if h : startI < 256 then
    if !(keyLess maxscalar (pow2 startI h)) then startLoop maxscalar (startI + STRAUS_C) else startI
  else startI
termination_by 256 - startI
decreasing_by unfold STRAUS_C; omega

/-- The loop over the points of a band at window `i`: a point whose digit there is not zero adds
its multiple of that digit. -/
def addDigits (digits : List (List Nat)) (cache : StrausCachedData G) (startOffset numPoints : Nat)
    (i : Nat) (band : G) : G :=
  (List.range' startOffset numPoints).foldl
    (fun band j =>
      let digit := (digits.getD j []).getD i 0
      if digit ≠ 0 then band + cacheOffset cache j digit else band)
    band

/-- `while (!(i < STRAUS_C))` of a band: sixteen times the band (`STRAUS_C` doublings), then the
digits of the next window down. -/
def bandLoop (add : Nat → G → G) (i : Nat) (band : G) : G :=
  if _done : i < STRAUS_C then band
  else bandLoop add (i - STRAUS_C) (add (i - STRAUS_C) (doubleTimes STRAUS_C band))
termination_by i
decreasing_by unfold STRAUS_C at *; omega

/-- One band of straus from `start_i`: the first pass enters the loop at `skipfirst`, after the
doublings, which would double the identity. -/
def strausBand (digits : List (List Nat)) (cache : StrausCachedData G) (startI startOffset
    numPoints : Nat) : G :=
  let add := addDigits digits cache startOffset numPoints
  if startI < STRAUS_C then 0
  else bandLoop add (startI - STRAUS_C) (add (startI - STRAUS_C) 0)

/-- `local_cache = cache == NULL ? straus_init_cache(data) : cache`. -/
def strausLocalCache (data : List (MultiexpData G)) :
    Option (StrausCachedData G) → Except String (StrausCachedData G)
  | none => strausInitCache data 0
  | some c => pure c

/-- straus(data, cache, STEP) with the encoding `ge_p3_tobytes` as `encode`. -/
def straus (encode : G → Key) (data : List (MultiexpData G)) (cache : Option (StrausCachedData G))
    (STEP : Nat) : Except String Key := do
  unless cache.all (fun c => decide (data.length ≤ c.size)) do throw "Cache is too small"
  let STEP := if STEP = 0 then 192 else STEP
  let localCache ← strausLocalCache data cache
  let digits := data.map fun d => scalarDigits d.scalar
  let startI := startLoop (maxScalar data) 0
  let res := (List.range' 0 ((data.length + STEP - 1) / STEP) STEP).foldl
    (fun res startOffset =>
      res + strausBand digits localCache startI startOffset (min (data.length - startOffset) STEP))
    0
  pure (encode res)

/-! ## Digits -/

theorem mask_eq (x : Nat) : x &&& 0xf = x % 16 := Nat.and_two_pow_sub_one_eq_mod x 4

/-- Digit `t` of the two bytes `b0 + 256 * b1`, for a low digit that `b0` holds alone. -/
theorem low_digit_eq {b0 : Nat} (b1 : Nat) {t : Nat} (low : t ≤ 3) :
    (b0 >>> t) &&& 0xf = (b0 + 256 * b1) / 2 ^ t % 16 := by
  have above : 256 = 2 ^ t * (16 * 2 ^ (4 - t)) := by
    rw [show 16 = 2 ^ 4 by rfl, ← Nat.pow_add, ← Nat.pow_add, show t + (4 + (4 - t)) = 8 by omega]
  rw [mask_eq, Nat.shiftRight_eq_div_pow, above, Nat.mul_assoc,
    Nat.add_mul_div_left _ _ (Nat.two_pow_pos t), Nat.mul_assoc, Nat.add_mul_mod_self_left]

/-- Digit `t` of the two bytes `b0 + 256 * b1`, the low bits from `b0` and the high ones from
`b1`. -/
theorem digit_eq {b0 : Nat} (b1 : Nat) (small : b0 < 256) {t : Nat} (low : t < 8) :
    ((b0 >>> t) ||| (b1 <<< (8 - t))) &&& 0xf = (b0 + 256 * b1) / 2 ^ t % 16 := by
  have above : 256 = 2 ^ t * 2 ^ (8 - t) := by rw [← Nat.pow_add, show t + (8 - t) = 8 by omega]
  have shifted : b0 >>> t < 2 ^ (8 - t) := by
    rw [Nat.shiftRight_eq_div_pow, Nat.div_lt_iff_lt_mul (Nat.two_pow_pos t), Nat.mul_comm,
      ← above]
    exact small
  rw [Nat.lor_comm, ← Nat.shiftLeft_add_eq_or_of_lt shifted, mask_eq, Nat.shiftLeft_eq,
    Nat.shiftRight_eq_div_pow, above, Nat.mul_assoc, Nat.add_mul_div_left _ _ (Nat.two_pow_pos t),
    Nat.mul_comm (2 ^ (8 - t)), Nat.add_comm]

/-- The digits of bit `8 p + t` come from bytes `p` and `p + 1`: the bytes above them are a
multiple of `2 ^ 16`, and shift out of the digit. -/
theorem value_digit (bytes : List UInt8) (p : Nat) {t : Nat} (low : t < 8) :
    Words.leValue bytes / 2 ^ (8 * p + t) % 16 =
      ((bytes.getD p 0).toNat + 256 * (bytes.getD (p + 1) 0).toNat) / 2 ^ t % 16 := by
  have above : 65536 = 2 ^ t * (16 * 2 ^ (12 - t)) := by
    rw [show 16 = 2 ^ 4 by rfl, ← Nat.pow_add, ← Nat.pow_add,
      show t + (4 + (12 - t)) = 16 by omega]
  rw [Nat.pow_add, Nat.pow_mul, ← Nat.div_div_eq_div_mul, show (2 : Nat) ^ 8 = 256 by rfl,
    leValue_div_pow, leValue_drop, leValue_drop,
    show ∀ x y z : Nat, x + 256 * (y + 256 * z) = x + 256 * y + 65536 * z by intros; ring, above,
    Nat.mul_assoc, Nat.add_mul_div_left _ _ (Nat.two_pow_pos t), Nat.mul_assoc,
    Nat.add_mul_mod_self_left]

/-- Digit `i` of a scalar is the four bits of its value from bit `i`. -/
theorem digit_scalarDigits (scalar : Key) {i : Nat} (inside : i < 256) :
    (scalarDigits scalar).getD i 0 = scalarValue scalar / 2 ^ i % 16 := by
  have padded : scalarValue scalar = Words.leValue (scalar.bytes ++ [0]) := by
    rw [Words.leValue_append, Words.leValue_cons, Words.leValue_nil]
    rfl
  have split : i = 8 * (i / 8) + i % 8 := (Nat.div_add_mod i 8).symm
  have within : i % 8 < 8 := Nat.mod_lt i (by norm_num)
  rw [scalarDigits, split, Blocks.getD_flatMap_range (w := 8) (fun _ => rfl) 0 within (by omega), padded,
    value_digit _ _ within]
  -- the eight digits of a byte, one formula each
  have small := ((scalar.bytes ++ [0]).getD (i / 8) 0).toNat_lt
  generalize (scalar.bytes ++ [0]).getD (i / 8) 0 = b0 at small ⊢
  generalize ((scalar.bytes ++ [0]).getD (i / 8 + 1) 0).toNat = b1
  generalize i % 8 = t at within ⊢
  interval_cases t
  · exact low_digit_eq (t := 0) b1 (by norm_num)
  · exact low_digit_eq b1 (by norm_num)
  · exact low_digit_eq b1 (by norm_num)
  · exact low_digit_eq b1 (by norm_num)
  · exact digit_eq b1 small (by norm_num)
  · exact digit_eq b1 small (by norm_num)
  · exact digit_eq b1 small (by norm_num)
  · exact digit_eq b1 small (by norm_num)

/-! ## The start window -/

/-- The loop stops at a multiple of four, at 256 at most, with every bit of `maxscalar` below it. -/
theorem startLoop_spec (maxscalar : Key) (startI : Nat) (aligned : startI % 4 = 0)
    (bounded : startI ≤ 256) :
    startLoop maxscalar startI % 4 = 0 ∧ startLoop maxscalar startI ≤ 256 ∧
      scalarValue maxscalar < 2 ^ startLoop maxscalar startI := by
  rw [startLoop]
  by_cases inside : startI < 256
  · rw [dif_pos inside]
    by_cases above : keyLess maxscalar (pow2 startI inside) = true
    · -- `maxscalar < pow2(start_i)` ends the loop
      rw [above, Bool.not_true, if_neg Bool.false_ne_true]
      have below := (keyLess_iff _ _).mp above
      rw [value_pow2] at below
      exact ⟨aligned, bounded, below⟩
    · rw [if_pos (by simpa using above)]
      exact startLoop_spec maxscalar (startI + STRAUS_C) (by unfold STRAUS_C; omega)
        (by unfold STRAUS_C; omega)
  · rw [dif_neg inside, show startI = 256 by omega]
    exact ⟨rfl, le_rfl, scalarValue_lt maxscalar⟩
termination_by 256 - startI
decreasing_by unfold STRAUS_C; omega

/-! ## The cache -/

/-- The writes for point `k` stay at the offsets of point `k`. -/
theorem fillMultiples_other (N : Nat) (P : G) {k : Nat} (multiples : Nat → G) {x : Nat}
    (elsewhere : x % N ≠ k % N) : fillMultiples N P k multiples x = multiples x := by
  have away : ∀ i, x ≠ k + N * i := fun i same => elsewhere (by rw [same, Nat.add_mul_mod_self_left])
  rw [fillMultiples]
  generalize List.range' 2 ((1 <<< STRAUS_C) - 2) = steps
  induction steps using List.reverseRecOn with
  | nil => rw [List.foldl_nil, Function.update_of_ne (away _)]
  | append_singleton steps i ih => rw [List.foldl_append, List.foldl_cons, List.foldl_nil,
      Function.update_of_ne (away _), ih]

/-- The inner loop of straus_init_cache: after the multiples up to `n + 1`, multiple `d` of the
point stands at its offset. -/
theorem fill_own (N : Nat) (positive : 0 < N) (P : G) (k : Nat) (multiples : Nat → G) :
    ∀ n d, 0 < d → d ≤ n + 1 →
      ((List.range' 2 n).foldl
          (fun multiples i =>
            Function.update multiples (k + N * (i - 1)) (P + multiples (k + N * (i - 1 - 1))))
          (Function.update multiples (k + N * (1 - 1)) P)) (k + N * (d - 1)) = d • P
  | 0, d, low, high => by
    rw [show d = 1 by omega, List.range'_zero, List.foldl_nil, Function.update_self, one_nsmul]
  | n + 1, d, low, high => by
    rw [List.range'_concat, List.foldl_append, List.foldl_cons, List.foldl_nil]
    by_cases newest : d = n + 2
    · -- multiple `n + 2` is the point plus multiple `n + 1`
      rw [newest, Nat.one_mul, show 2 + n - 1 = n + 2 - 1 by omega, Function.update_self,
        show n + 2 - 1 - 1 = n + 1 - 1 by omega, fill_own N positive P k multiples n (n + 1)
          (by omega) le_rfl, ← succ_nsmul']
    · have apart : k + N * (d - 1) ≠ k + N * (2 + 1 * n - 1) := by
        intro same
        have := Nat.eq_of_mul_eq_mul_left positive (Nat.add_left_cancel same)
        omega
      rw [Function.update_of_ne apart, fill_own N positive P k multiples n d low (by omega)]

/-- straus_init_cache(data, N) holds multiple `d` of point `j` at `CACHE_OFFSET(j, d)`, for every
point it covers and every digit from 1 to 15. -/
theorem cacheOffset_strausInitCache {data : List (MultiexpData G)} {N : Nat}
    {cache : StrausCachedData G} (built : strausInitCache data N = .ok cache) {j d : Nat}
    (point : j < cache.size) (low : 0 < d) (high : d < 16) :
    cacheOffset cache j d = d • pointAt data j := by
  rw [strausInitCache] at built
  generalize (if N = 0 then data.length else N) = M at built
  split_ifs at built with covered
  cases built
  rw [cacheOffset]
  have positive : 0 < M := by
    change j < M at point
    omega
  -- the points filled so far hold their multiples, and the later ones do not disturb them
  have filled : ∀ n, n ≤ M → ∀ j < n, ∀ d, 0 < d → d < 16 →
      ((List.range n).foldl (fun multiples j => fillMultiples M (pointAt data j) j multiples)
        fun _ => 0) (j + M * (d - 1)) = d • pointAt data j := by
    intro n
    induction n with
    | zero => intro _ j outside; exact absurd outside (Nat.not_lt_zero j)
    | succ n ih =>
      intro fits j below d low high
      rw [List.range_succ, List.foldl_append, List.foldl_cons, List.foldl_nil]
      by_cases newest : j = n
      · rw [newest, fillMultiples, fill_own M positive _ n _ _ d low (by unfold STRAUS_C; omega)]
      · have apart : (j + M * (d - 1)) % M ≠ n % M := by
          rw [Nat.add_mul_mod_self_left, Nat.mod_eq_of_lt (by omega), Nat.mod_eq_of_lt (by omega)]
          exact newest
        rw [fillMultiples_other M _ _ apart, ih (by omega) j (by omega) d low high]
  exact filled M le_rfl j point d low high

/-- straus_init_cache(data) with `N = 0` covers all the data. -/
theorem strausInitCache_zero (data : List (MultiexpData G)) :
    ∃ cache, strausInitCache data 0 = .ok cache ∧ cache.size = data.length :=
  ⟨_, by rw [strausInitCache, if_pos rfl, if_pos le_rfl], rfl⟩

/-! ## A band -/

/-- The digit loop of a band adds every point times its digit, when the cache holds the multiples
of the points `Q`. -/
theorem foldl_addDigit (digit : Nat → Nat) (cache : StrausCachedData G) (Q : Nat → G) :
    ∀ (js : List Nat) (band : G), (∀ j ∈ js, digit j < 16) →
      (∀ j ∈ js, ∀ d, 0 < d → d < 16 → cacheOffset cache j d = d • Q j) →
      js.foldl (fun band j => if digit j ≠ 0 then band + cacheOffset cache j (digit j) else band)
          band = band + (js.map fun j => digit j • Q j).sum
  | [], band, _, _ => by rw [List.foldl_nil, List.map_nil, List.sum_nil, add_zero]
  | j :: js, band, small, multiple => by
    have step : (if digit j ≠ 0 then band + cacheOffset cache j (digit j) else band) =
        band + digit j • Q j := by
      by_cases zeroDigit : digit j = 0
      · rw [if_neg (not_not.mpr zeroDigit), zeroDigit, zero_nsmul, add_zero]
      · rw [if_pos zeroDigit, multiple j List.mem_cons_self _ (Nat.pos_of_ne_zero zeroDigit)
          (small j List.mem_cons_self)]
    rw [List.foldl_cons, step, foldl_addDigit digit cache Q js _
      (fun k mem => small k (List.mem_cons_of_mem j mem))
      (fun k mem => multiple k (List.mem_cons_of_mem j mem)), List.map_cons, List.sum_cons,
      add_assoc]

/-- The loop over the windows `4 (m - 1), …, 0` of a band is Horner's rule in base 16 over the
window sums `F`. The induction is on the number of windows left. -/
theorem bandLoop_eq (add : Nat → G → G) (F : Nat → G) :
    ∀ (m : Nat) (band : G), (∀ w < m, ∀ acc, add (4 * w) acc = acc + F w) →
      bandLoop add (4 * m) band = (List.range m).reverse.foldl (fun acc t => 16 • acc + F t) band
  | 0, band, _ => by rw [bandLoop, dif_pos (by unfold STRAUS_C; omega)]; rfl
  | m + 1, band, adds => by
    rw [bandLoop, dif_neg (by unfold STRAUS_C; omega), show 4 * (m + 1) - STRAUS_C = 4 * m by
        unfold STRAUS_C; omega, adds m (by omega), doubleTimes_eq,
      bandLoop_eq add F m _ fun w below => adds w (by omega), List.range_succ, List.reverse_append,
      List.reverse_singleton, List.singleton_append, List.foldl_cons]
    rfl

/-- A band of straus from a start window above every scalar adds up its points times their
scalars. -/
theorem strausBand_eq (digits : List (List Nat)) (cache : StrausCachedData G) (Q : Nat → G)
    (value : Nat → Nat) {startI startOffset numPoints : Nat} (aligned : startI % 4 = 0)
    (bounded : startI ≤ 256)
    (small : ∀ j ∈ List.range' startOffset numPoints, value j < 2 ^ startI)
    (digitOf : ∀ j ∈ List.range' startOffset numPoints, ∀ i < 256,
      (digits.getD j []).getD i 0 = value j / 2 ^ i % 16)
    (multiple : ∀ j ∈ List.range' startOffset numPoints, ∀ d, 0 < d → d < 16 →
      cacheOffset cache j d = d • Q j) :
    strausBand digits cache startI startOffset numPoints =
      ((List.range' startOffset numPoints).map fun j => value j • Q j).sum := by
  obtain ⟨m, rfl⟩ : ∃ m, startI = 4 * m := ⟨startI / 4, by omega⟩
  have windows : ∀ j ∈ List.range' startOffset numPoints, value j < 16 ^ m := by
    intro j member
    rw [show (16 : Nat) = 2 ^ 4 by rfl, ← Nat.pow_mul]
    exact small j member
  let F : Nat → G := fun t =>
    ((List.range' startOffset numPoints).map fun j => (value j / 16 ^ t % 16) • Q j).sum
  -- window `t` reads digit `4 t`, the base-16 digit `t` of every scalar
  have adds : ∀ t < m, ∀ acc,
      addDigits digits cache startOffset numPoints (4 * t) acc = acc + F t := by
    intro t below acc
    have digitAt : ∀ j ∈ List.range' startOffset numPoints,
        (digits.getD j []).getD (4 * t) 0 = value j / 16 ^ t % 16 := by
      intro j member
      rw [digitOf j member _ (by omega), Nat.pow_mul]
    have loop := foldl_addDigit (fun j => (digits.getD j []).getD (4 * t) 0) cache Q
      (List.range' startOffset numPoints) acc
      (fun j member => by rw [digitAt j member]; exact Nat.mod_lt _ (by norm_num)) multiple
    rw [addDigits]
    refine loop.trans ?_
    simp only [F]
    congr 2
    exact List.map_congr_left fun j member => by rw [digitAt j member]
  have horner := MultiScalar.foldl_horner 16 F m 0
  rw [smul_zero, zero_add, MultiScalar.sum_range_smul_windows 16 m value Q windows] at horner
  rw [← horner, strausBand]
  rcases m with _ | m
  · rw [if_pos (by unfold STRAUS_C; omega)]
    rfl
  · rw [if_neg (by unfold STRAUS_C; omega), show 4 * (m + 1) - STRAUS_C = 4 * m by
        unfold STRAUS_C; omega, adds m (by omega), bandLoop_eq _ F m _ fun w below =>
        adds w (by omega), List.range_succ, List.reverse_append, List.reverse_singleton,
      List.singleton_append, List.foldl_cons, smul_zero, zero_add]

/-! ## The bands -/

/-- The bands of `STEP` points from offset `o` on cover the points from `o` to `n`, when there
are enough of them. The induction is on the number of bands. -/
theorem foldl_bands (g : Nat → G) (n STEP : Nat) :
    ∀ (k o : Nat) (acc : G), n ≤ o + STEP * k →
      (List.range' o k STEP).foldl
          (fun res startOffset => res + ((List.range' startOffset (min (n - startOffset) STEP)).map g).sum)
          acc =
        acc + ((List.range' o (n - o)).map g).sum
  | 0, o, acc, covered => by
    rw [List.range'_zero, List.foldl_nil, show n - o = 0 by omega, List.range'_zero, List.map_nil,
      List.sum_nil, add_zero]
  | k + 1, o, acc, covered => by
    rw [List.range'_succ, List.foldl_cons, foldl_bands g n STEP k (o + STEP) _ (by
      rw [Nat.mul_succ] at covered; omega), add_assoc, ← List.sum_append, ← List.map_append]
    by_cases last : n - o ≤ STEP
    · rw [Nat.min_eq_left last, show n - (o + STEP) = 0 by omega, List.range'_zero,
        List.append_nil]
    · have joined := @List.range'_append o STEP (n - (o + STEP)) 1
      rw [Nat.one_mul, show STEP + (n - (o + STEP)) = n - o by omega] at joined
      rw [Nat.min_eq_right (by omega), joined]

/-- Straus returns the encoding of the sum of the points times their scalars, for every `STEP`
and for the cache it builds or a cache that straus_init_cache built over a vector of points that
starts with the data's. -/
theorem straus_eq_basic (encode : G → Key) (data : List (MultiexpData G))
    (cache : Option (StrausCachedData G)) (STEP : Nat)
    (cached : ∀ c, cache = some c → ∃ base N, strausInitCache base N = .ok c ∧
      (data.map (·.point)).IsPrefix (base.map (·.point)) ∧ data.length ≤ c.size) :
    straus encode data cache STEP = .ok (encode (basic data)) := by
  have check : cache.all (fun c => decide (data.length ≤ c.size)) = true := by
    cases cache with
    | none => rfl
    | some c =>
      obtain ⟨_, _, _, _, covered⟩ := cached c rfl
      exact decide_eq_true covered
  -- the cache straus reads holds the multiples of the data's own points
  obtain ⟨localCache, localOk, multiple⟩ : ∃ localCache,
      strausLocalCache data cache = Except.ok localCache ∧
      ∀ j < data.length, ∀ d, 0 < d → d < 16 → cacheOffset localCache j d = d • pointAt data j := by
    cases cache with
    | none =>
      obtain ⟨c, built, sized⟩ := strausInitCache_zero data
      refine ⟨c, built, fun j inside d low high => ?_⟩
      exact cacheOffset_strausInitCache built (sized ▸ inside) low high
    | some c =>
      obtain ⟨base, N, built, starts, covered⟩ := cached c rfl
      refine ⟨c, rfl, fun j inside d low high => ?_⟩
      rw [cacheOffset_strausInitCache built (Nat.lt_of_lt_of_le inside covered) low high,
        pointAt_of_isPrefix starts inside]
  have start := startLoop_spec (maxScalar data) 0 rfl (by norm_num)
  have bandSum : ∀ o,
      strausBand (data.map fun d => scalarDigits d.scalar) localCache (startLoop (maxScalar data) 0)
          o (min (data.length - o) (if STEP = 0 then 192 else STEP)) =
        ((List.range' o (min (data.length - o) (if STEP = 0 then 192 else STEP))).map fun j =>
          scalarValue (data.getD j ⟨zero, 0⟩).scalar • pointAt data j).sum := by
    intro o
    have inside : ∀ j ∈ List.range' o (min (data.length - o) (if STEP = 0 then 192 else STEP)),
        j < data.length := by
      intro j member
      rw [List.mem_range'_1] at member
      omega
    refine strausBand_eq _ localCache (pointAt data) _ start.1 start.2.1
      (fun j member => ?_) (fun j member i below => ?_)
      (fun j member => multiple j (inside j member))
    · exact Nat.lt_of_le_of_lt (value_le_maxScalar (getD_mem (inside j member))) start.2.2
    · rw [getD_map_of_lt (fun d => scalarDigits d.scalar) ⟨zero, 0⟩ [] (inside j member),
        digit_scalarDigits _ below]
  have positive : 0 < (if STEP = 0 then 192 else STEP) := by split_ifs <;> omega
  rw [straus, check, if_pos rfl]
  dsimp only
  rw [localOk]
  show Except.ok (encode _) = Except.ok (encode _)
  simp only [bandSum]
  generalize (if STEP = 0 then 192 else STEP) = S at positive ⊢
  -- enough bands of `S` points to cover the data
  have covers : data.length ≤ 0 + S * ((data.length + S - 1) / S) := by
    have split := Nat.div_add_mod (data.length + S - 1) S
    have rest := Nat.mod_lt (data.length + S - 1) positive
    omega
  rw [foldl_bands _ data.length S _ 0 0 covers, zero_add, Nat.sub_zero, ← List.range_eq_range']
  have reindexed := Ringct.map_range_getD (fun d : MultiexpData G => scalarValue d.scalar • d.point)
    ⟨zero, 0⟩ (le_refl data.length)
  simp only [List.take_length] at reindexed
  simp only [pointAt]
  rw [basic, reindexed]

end Straus

end GraftNetwork.Ringct.Multiexp

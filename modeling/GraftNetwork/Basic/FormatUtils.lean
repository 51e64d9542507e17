import Mathlib.Data.List.DropRight
import Mathlib.Data.Nat.Find
import Mathlib.Tactic.Ring
import GraftNetwork.Lib.Radix

/-!
# Amounts in decimal (cryptonote_format_utils)

The functions of `cryptonote_basic/cryptonote_format_utils` that take an amount of atomic units
apart in decimal, or read and write it as text.

* decompose_amount_into_digits hands the decimal digits of an amount to two handlers. The low
  digits go to the dust handler as one value, as many as stay within the threshold; every other
  nonzero digit `d` at place `k` goes to the chunk handler as `d * 10 ^ k`. The handlers of a
  caller see a sequence of calls (`decomposeAmountIntoDigits_eq_foldl`), and
  `decomposeCalls_eq` says which sequence, for every amount and threshold: the dust of the
  largest count `j ≤ 20` of low digits within the threshold, if it is not zero, then the nonzero
  digits from place `j` on, from the lowest place up.
-/

namespace GraftNetwork.Basic.FormatUtils

/-! ## decompose_amount_into_digits -/

/-- A call of one of the two handlers of decompose_amount_into_digits, with the value it is
given. -/
inductive DecomposeCall where
  | chunk (value : UInt64)
  | dust (value : UInt64)
deriving DecidableEq, Repr

namespace DecomposeCall

variable {σ : Type}

def value : DecomposeCall → UInt64
  | chunk value => value
  | dust value => value

def isDust : DecomposeCall → Bool
  | chunk _ => false
  | dust _ => true

/-- The value given to the chunk handler, if this is its call. -/
def chunkValue? : DecomposeCall → Option Nat
  | chunk value => some value.toNat
  | dust _ => none

/-- The call made, on the state the handlers share. -/
def run (chunkHandler dustHandler : σ → UInt64 → σ) (s : σ) : DecomposeCall → σ
  | chunk value => chunkHandler s value
  | dust value => dustHandler s value

end DecomposeCall

section Loop

variable {σ : Type} (chunkHandler dustHandler : σ → UInt64 → σ)

/-- `if (!is_dust_handled && 0 != dust) dust_handler(dust);` -/
def handOutDust (dust : UInt64) (isDustHandled : Bool) (s : σ) : σ :=
  if !isDustHandled && dust != 0 then dustHandler s dust else s

/-- The `while (0 != amount)` loop of decompose_amount_into_digits, one decimal digit a round;
a `uint64_t` has at most twenty. The chunk of the digit at its order joins the dust while the
sum stays within the threshold; otherwise the dust is handed out, once, and the chunk after it if
it is not zero. The dust is not reset once handed out. -/
def decomposeLoop (dustThreshold : UInt64) :
    (fuel : Nat) → (amount order dust : UInt64) → (isDustHandled : Bool) → σ → σ
  | 0, _, _, dust, isDustHandled, s => handOutDust dustHandler dust isDustHandled s
  | fuel + 1, amount, order, dust, isDustHandled, s =>
    if amount = 0 then handOutDust dustHandler dust isDustHandled s
    else
      let chunk := amount % 10 * order
      if dust + chunk ≤ dustThreshold then
        decomposeLoop dustThreshold fuel (amount / 10) (order * 10) (dust + chunk) isDustHandled s
      else
        let s := handOutDust dustHandler dust isDustHandled s
        let s := if chunk != 0 then chunkHandler s chunk else s
        decomposeLoop dustThreshold fuel (amount / 10) (order * 10) dust
          (isDustHandled || dust != 0) s

/-- decompose_amount_into_digits, with the handlers acting on a state they share. -/
def decomposeAmountIntoDigits (amount dustThreshold : UInt64) (s : σ) : σ :=
  if amount = 0 then s
  else decomposeLoop chunkHandler dustHandler dustThreshold 20 amount 1 0 false s

end Loop

/-- Handlers that record their calls. -/
def recordChunk (calls : List DecomposeCall) (chunk : UInt64) : List DecomposeCall :=
  calls ++ [.chunk chunk]

def recordDust (calls : List DecomposeCall) (dust : UInt64) : List DecomposeCall :=
  calls ++ [.dust dust]

/-- The calls decompose_amount_into_digits makes, in order. -/
def decomposeCalls (amount dustThreshold : UInt64) : List DecomposeCall :=
  decomposeAmountIntoDigits recordChunk recordDust amount dustThreshold []

/-! ### What the calls are -/

/-- How many low digits go to the dust: the largest `j ≤ 20` whose `amount % 10 ^ j` is within
the threshold. -/
def dustDigits (amount dustThreshold : Nat) : Nat :=
  Nat.findGreatest (fun j => amount % 10 ^ j ≤ dustThreshold) 20

/-- The chunk of digit `k` of `amount`, if that digit is not zero. -/
def digitChunk (amount k : Nat) : Option DecomposeCall :=
  if amount / 10 ^ k % 10 = 0 then none
  else some (.chunk (UInt64.ofNat (amount / 10 ^ k % 10 * 10 ^ k)))

/-- The chunks of the digits of `amount` from place `k` to place 19. -/
def chunkCalls (amount k : Nat) : List DecomposeCall :=
  (List.range' k (20 - k)).filterMap (digitChunk amount)

def dustCall (dust : Nat) : List DecomposeCall :=
  if dust = 0 then [] else [.dust (UInt64.ofNat dust)]

/-- The calls of the decomposition: the dust of the low `dustDigits` digits, if it is not zero,
then the chunks of the digits above them. -/
def decomposition (amount dustThreshold : Nat) : List DecomposeCall :=
  dustCall (amount % 10 ^ dustDigits amount dustThreshold) ++
    chunkCalls amount (dustDigits amount dustThreshold)

/-! ### The handlers see a sequence of calls -/

section Trace

variable {σ : Type} {chunkHandler dustHandler : σ → UInt64 → σ} {dustThreshold : UInt64}

theorem handOutDust_record (dust : UInt64) (isDustHandled : Bool) (calls : List DecomposeCall) :
    handOutDust recordDust dust isDustHandled calls =
      calls ++ handOutDust recordDust dust isDustHandled [] := by
  unfold handOutDust
  split <;> simp [recordDust]

theorem handOutDust_eq_foldl (dust : UInt64) (isDustHandled : Bool) (s : σ) :
    handOutDust dustHandler dust isDustHandled s =
      (handOutDust recordDust dust isDustHandled []).foldl
        (DecomposeCall.run chunkHandler dustHandler) s := by
  unfold handOutDust
  split <;> simp [recordDust, DecomposeCall.run]

/-- The recording loop appends to what was recorded before it. -/
theorem decomposeLoop_record :
    ∀ fuel amount order dust isDustHandled (calls : List DecomposeCall),
      decomposeLoop recordChunk recordDust dustThreshold fuel amount order dust isDustHandled calls =
        calls ++ decomposeLoop recordChunk recordDust dustThreshold fuel amount order dust
          isDustHandled []
  | 0, _, _, dust, isDustHandled, calls => handOutDust_record dust isDustHandled calls
  | fuel + 1, amount, order, dust, isDustHandled, calls => by
    rw [decomposeLoop, decomposeLoop]
    by_cases done : amount = 0
    · rw [if_pos done, if_pos done]
      exact handOutDust_record dust isDustHandled calls
    rw [if_neg done, if_neg done]
    by_cases within : dust + amount % 10 * order ≤ dustThreshold
    · rw [if_pos within, if_pos within]
      exact decomposeLoop_record fuel _ _ _ _ calls
    rw [if_neg within, if_neg within]
    dsimp only
    conv_lhs => rw [decomposeLoop_record fuel]
    conv_rhs => rw [decomposeLoop_record fuel]
    rw [handOutDust_record dust isDustHandled calls]
    split <;> simp [recordChunk]

/-- Whatever the handlers do, they do it along the recorded calls. -/
theorem decomposeLoop_eq_foldl :
    ∀ fuel amount order dust isDustHandled (s : σ),
      decomposeLoop chunkHandler dustHandler dustThreshold fuel amount order dust isDustHandled s =
        (decomposeLoop recordChunk recordDust dustThreshold fuel amount order dust isDustHandled
          []).foldl (DecomposeCall.run chunkHandler dustHandler) s
  | 0, _, _, dust, isDustHandled, s => handOutDust_eq_foldl dust isDustHandled s
  | fuel + 1, amount, order, dust, isDustHandled, s => by
    rw [decomposeLoop, decomposeLoop]
    by_cases done : amount = 0
    · rw [if_pos done, if_pos done]
      exact handOutDust_eq_foldl dust isDustHandled s
    rw [if_neg done, if_neg done]
    by_cases within : dust + amount % 10 * order ≤ dustThreshold
    · rw [if_pos within, if_pos within]
      exact decomposeLoop_eq_foldl fuel _ _ _ _ s
    rw [if_neg within, if_neg within]
    dsimp only
    conv_lhs => rw [decomposeLoop_eq_foldl fuel]
    conv_rhs => rw [decomposeLoop_record fuel, List.foldl_append]
    congr 1
    rw [@handOutDust_eq_foldl σ chunkHandler dustHandler dust isDustHandled s]
    split <;> simp [recordChunk, DecomposeCall.run]

theorem decomposeAmountIntoDigits_eq_foldl (amount dustThreshold : UInt64) (s : σ) :
    decomposeAmountIntoDigits chunkHandler dustHandler amount dustThreshold s =
      (decomposeCalls amount dustThreshold).foldl (DecomposeCall.run chunkHandler dustHandler) s := by
  unfold decomposeCalls decomposeAmountIntoDigits
  split
  · rfl
  · exact decomposeLoop_eq_foldl 20 amount 1 0 false s

end Trace

/-! ### The loop's registers -/

/-- The loop's `amount` and `order` after `k` rounds over the amount `A`: the digits of `A` from
place `k` on, and `10 ^ k` in `uint64_t`. -/
structure Reading (A k : Nat) (amount order : UInt64) : Prop where
  amount_eq : amount.toNat = A / 10 ^ k
  order_eq : order.toNat = 10 ^ k % 2 ^ 64

namespace Reading

variable {A k : Nat} {amount order : UInt64}

theorem start (amount : UInt64) : Reading amount.toNat 0 amount 1 :=
  ⟨by simp, by simp⟩

theorem next (r : Reading A k amount order) : Reading A (k + 1) (amount / 10) (order * 10) where
  amount_eq := by rw [UInt64.toNat_div, r.amount_eq, ← Radix.div_pow_div]; rfl
  order_eq := by
    rw [UInt64.toNat_mul, r.order_eq, Nat.pow_succ, Nat.mod_mul_mod]
    rfl

theorem eq_zero_iff (r : Reading A k amount order) : amount = 0 ↔ A < 10 ^ k := by
  rw [← UInt64.toNat_inj, r.amount_eq, UInt64.toNat_zero, Nat.div_eq_zero_iff]
  simp

/-- While digits remain, the order is exact and the chunk is the digit at its place. -/
theorem chunk_toNat (fits : A < 2 ^ 64) (r : Reading A k amount order) (h : amount ≠ 0) :
    (amount % 10 * order).toNat = A / 10 ^ k % 10 * 10 ^ k := by
  have reached : 10 ^ k ≤ A := Nat.le_of_not_lt (mt r.eq_zero_iff.mpr h)
  have placed := Radix.digit_mul_pow_le 10 A k
  have low : A % 10 ^ (k + 1) ≤ A := Nat.mod_le _ _
  have ten : (10 : UInt64).toNat = 10 := rfl
  rw [UInt64.toNat_mul, UInt64.toNat_mod, r.amount_eq, r.order_eq, ten,
    Nat.mod_eq_of_lt (Nat.lt_of_le_of_lt reached fits)]
  exact Nat.mod_eq_of_lt (by omega)

end Reading

/-! ### The calls, digit by digit -/

section Spec

variable {A T k : Nat}

theorem dustDigits_le : dustDigits A T ≤ 20 := Nat.findGreatest_le 20

theorem mod_dustDigits_le : A % 10 ^ dustDigits A T ≤ T :=
  @Nat.findGreatest_spec 0 (fun j => A % 10 ^ j ≤ T) _ 20 (Nat.zero_le _)
    (by rw [Nat.pow_zero, Nat.mod_one]; exact Nat.zero_le _)

theorem lt_mod_of_dustDigits_lt (h : dustDigits A T < k) (hk : k ≤ 20) : T < A % 10 ^ k :=
  Nat.lt_of_not_le (@Nat.findGreatest_is_greatest k (fun j => A % 10 ^ j ≤ T) _ 20 h hk)

theorem chunkCalls_of_lt (h : A < 10 ^ k) : chunkCalls A k = [] := by
  rw [chunkCalls, List.filterMap_eq_nil_iff]
  intro i mem
  rw [List.mem_range'_1] at mem
  simp [digitChunk, Radix.digit_eq_zero_of_lt (by decide) h mem.1]

theorem chunkCalls_of_lt_twenty (hk : k < 20) :
    chunkCalls A k = (digitChunk A k).toList ++ chunkCalls A (k + 1) := by
  rw [chunkCalls, chunkCalls, show 20 - k = 20 - (k + 1) + 1 by omega, List.range'_succ,
    List.filterMap_cons]
  cases digitChunk A k <;> rfl

theorem dustCall_toNat (dust : UInt64) :
    handOutDust recordDust dust false [] = dustCall dust.toNat := by
  by_cases zero : dust = 0
  · simp [handOutDust, dustCall, zero]
  · have : dust.toNat ≠ 0 := fun h => zero (UInt64.toNat_inj.mp (by simpa using h))
    simp [handOutDust, dustCall, zero, this, recordDust]

/-- Once the dust is handed out (or found to be zero), the dust stays as it is and every nonzero
digit above it is a chunk: a digit of the amount at place `k > j` is worth at least `10 ^ k`,
more than digit `j` added to the dust, which already passed the threshold. -/
theorem decomposeLoop_after_dust {j : Nat} {dustThreshold dust : UInt64} (fits : A < 2 ^ 64)
    (dust_eq : dust.toNat = A % 10 ^ j) (within : A % 10 ^ j ≤ dustThreshold.toNat)
    (beyond : ∀ k, j < k → k ≤ 20 → dustThreshold.toNat < A % 10 ^ k) :
    ∀ n k amount order (calls : List DecomposeCall), k + n = 20 → j < k →
      Reading A k amount order →
      decomposeLoop recordChunk recordDust dustThreshold n amount order dust (dust != 0) calls =
        calls ++ chunkCalls A k
  | 0, k, amount, order, calls, hn, _, _ => by
    obtain rfl : k = 20 := by omega
    simp [decomposeLoop, handOutDust, chunkCalls]
  | n + 1, k, amount, order, calls, hn, hjk, r => by
    have tail := decomposeLoop_after_dust fits dust_eq within beyond n (k + 1) (amount / 10)
      (order * 10)
    rw [decomposeLoop]
    by_cases done : amount = 0
    · rw [if_pos done, chunkCalls_of_lt (r.eq_zero_iff.mp done)]
      simp [handOutDust]
    rw [if_neg done, chunkCalls_of_lt_twenty (by omega)]
    dsimp only
    have chunk := r.chunk_toNat fits done
    have grows : A % 10 ^ j ≤ A % 10 ^ k := Radix.mod_pow_le_mod_pow (Nat.le_of_lt hjk)
    have low : A % 10 ^ (k + 1) ≤ A := Nat.mod_le _ _
    have succ : A % 10 ^ (k + 1) = A % 10 ^ k + A / 10 ^ k % 10 * 10 ^ k := by
      rw [Nat.mod_pow_succ, Nat.mul_comm]
    have sum : (dust + amount % 10 * order).toNat = A % 10 ^ j + A / 10 ^ k % 10 * 10 ^ k := by
      rw [UInt64.toNat_add, dust_eq, chunk, Nat.mod_eq_of_lt (by omega)]
    by_cases zero : A / 10 ^ k % 10 = 0
    · -- a zero digit joins the dust and changes nothing
      have none : amount % 10 * order = 0 := UInt64.toNat_inj.mp (by rw [chunk, zero, Nat.zero_mul]; rfl)
      rw [none, UInt64.add_zero, if_pos (UInt64.le_iff_toNat_le.mpr (by rw [dust_eq]; exact within)),
        tail calls (by omega) (by omega) r.next]
      simp [digitChunk, zero]
    · have passed : dustThreshold.toNat < A % 10 ^ (j + 1) := beyond (j + 1) (by omega) (by omega)
      have step := Radix.mod_pow_succ_lt (b := 10) (n := A) (k := j) (by decide)
      have place : 10 ^ (j + 1) ≤ 10 ^ k := Nat.pow_le_pow_right (by decide) hjk
      have over_threshold : ¬dust + amount % 10 * order ≤ dustThreshold := by
        rw [UInt64.le_iff_toNat_le, sum]
        have : 10 ^ k ≤ A / 10 ^ k % 10 * 10 ^ k := Nat.le_mul_of_pos_left _ (Nat.pos_of_ne_zero zero)
        omega
      have nonzero : (amount % 10 * order != 0) = true := by
        rw [bne_iff_ne, ne_eq, ← UInt64.toNat_inj, chunk, UInt64.toNat_zero]
        exact Nat.mul_ne_zero zero (Nat.pow_pos (by decide)).ne'
      have handed : handOutDust recordDust dust (dust != 0) calls = calls := by simp [handOutDust]
      rw [if_neg over_threshold, if_pos nonzero, Bool.or_self, tail _ (by omega) (by omega) r.next,
        handed, digitChunk, if_neg zero, ← chunk, UInt64.ofNat_toNat]
      simp [recordChunk]

/-- Before the dust is handed out, the digits read so far are all in the dust; at the digit that
would take it past the threshold, place `dustDigits`, the dust goes to its handler and the digit
to the chunk handler. -/
theorem decomposeLoop_absorbing {dustThreshold : UInt64} (fits : A < 2 ^ 64) :
    ∀ n k amount order dust, k + n = 20 → k ≤ dustDigits A dustThreshold.toNat →
      Reading A k amount order → dust.toNat = A % 10 ^ k →
      decomposeLoop recordChunk recordDust dustThreshold n amount order dust false [] =
        decomposition A dustThreshold.toNat
  | 0, k, amount, order, dust, hn, hk, _, dust_eq => by
    obtain rfl : k = 20 := by omega
    have all : dustDigits A dustThreshold.toNat = 20 := Nat.le_antisymm dustDigits_le hk
    rw [decomposeLoop, dustCall_toNat, decomposition, all, dust_eq]
    simp [chunkCalls]
  | n + 1, k, amount, order, dust, hn, hk, r, dust_eq => by
    have absorbing := @decomposeLoop_absorbing dustThreshold fits n (k + 1) (amount / 10)
      (order * 10)
    rw [decomposeLoop]
    by_cases done : amount = 0
    · -- no digit is left from place `k` on: all of the amount is in the dust
      have short := r.eq_zero_iff.mp done
      have reach : 10 ^ k ≤ 10 ^ dustDigits A dustThreshold.toNat :=
        Nat.pow_le_pow_right (by decide) hk
      rw [if_pos done, dustCall_toNat, dust_eq, decomposition, chunkCalls_of_lt (by omega),
        Nat.mod_eq_of_lt short, Nat.mod_eq_of_lt (by omega), List.append_nil]
    rw [if_neg done]
    dsimp only
    have chunk := r.chunk_toNat fits done
    have low : A % 10 ^ (k + 1) ≤ A := Nat.mod_le _ _
    have succ : A % 10 ^ (k + 1) = A % 10 ^ k + A / 10 ^ k % 10 * 10 ^ k := by
      rw [Nat.mod_pow_succ, Nat.mul_comm]
    have sum : (dust + amount % 10 * order).toNat = A % 10 ^ (k + 1) := by
      rw [UInt64.toNat_add, dust_eq, chunk, ← succ, Nat.mod_eq_of_lt (by omega)]
    obtain below | same := Nat.lt_or_eq_of_le hk
    · -- digit `k` joins the dust, which stays within the threshold up to place `dustDigits`
      have within : dust + amount % 10 * order ≤ dustThreshold := by
        rw [UInt64.le_iff_toNat_le, sum]
        exact Nat.le_trans (Radix.mod_pow_le_mod_pow below) mod_dustDigits_le
      rw [if_pos within]
      exact absorbing _ (by omega) below r.next sum
    · -- digit `dustDigits` would take the dust past the threshold
      have passed : dustThreshold.toNat < A % 10 ^ (k + 1) :=
        lt_mod_of_dustDigits_lt (by omega) (by omega)
      have within : A % 10 ^ k ≤ dustThreshold.toNat := same ▸ mod_dustDigits_le
      have over_threshold : ¬dust + amount % 10 * order ≤ dustThreshold := by
        rw [UInt64.le_iff_toNat_le, sum]
        omega
      have zero : A / 10 ^ k % 10 ≠ 0 := fun zero => by
        rw [succ, zero, Nat.zero_mul, Nat.add_zero] at passed
        omega
      have nonzero : (amount % 10 * order != 0) = true := by
        rw [bne_iff_ne, ne_eq, ← UInt64.toNat_inj, chunk, UInt64.toNat_zero]
        exact Nat.mul_ne_zero zero (Nat.pow_pos (by decide)).ne'
      have beyond : ∀ k', k < k' → k' ≤ 20 → dustThreshold.toNat < A % 10 ^ k' :=
        fun k' lt le => lt_mod_of_dustDigits_lt (by omega) le
      rw [if_neg over_threshold, if_pos nonzero, Bool.false_or,
        decomposeLoop_after_dust fits dust_eq within beyond n (k + 1) _ _ _ (by omega) (by omega)
          r.next,
        dustCall_toNat, decomposition, ← same, chunkCalls_of_lt_twenty (k := k) (by omega), digitChunk,
        if_neg zero, ← chunk, UInt64.ofNat_toNat, dust_eq]
      simp [recordChunk]

/-- What decompose_amount_into_digits hands out, for every amount and threshold. -/
theorem decomposeCalls_eq (amount dustThreshold : UInt64) :
    decomposeCalls amount dustThreshold = decomposition amount.toNat dustThreshold.toNat := by
  unfold decomposeCalls decomposeAmountIntoDigits
  split
  · next zero =>
    subst zero
    rw [UInt64.toNat_zero, decomposition, chunkCalls_of_lt (Nat.pow_pos (by decide))]
    simp [dustCall]
  · exact decomposeLoop_absorbing amount.toNat_lt 20 0 amount 1 0 rfl (Nat.zero_le _)
      (Reading.start amount) (by rw [Nat.pow_zero, Nat.mod_one]; rfl)

/-- The example of the source's comment: 62387455827 with a dust threshold of 500000. -/
example : decomposeCalls 62387455827 500000 =
    [.dust 455827, .chunk 7000000, .chunk 80000000, .chunk 300000000, .chunk 2000000000,
      .chunk 60000000000] := by
  decide

/-! ### The decomposition -/

theorem digit_mul_pow_lt (fits : A < 2 ^ 64) (i : Nat) : A / 10 ^ i % 10 * 10 ^ i < 2 ^ 64 :=
  Nat.lt_of_le_of_lt (Nat.le_trans (Radix.digit_mul_pow_le 10 A i) (Nat.mod_le _ _)) fits

theorem sum_values_filterMap_digitChunk (fits : A < 2 ^ 64) :
    ∀ places : List Nat, ((places.filterMap (digitChunk A)).map fun call => call.value.toNat).sum =
      (places.map fun i => A / 10 ^ i % 10 * 10 ^ i).sum
  | [] => rfl
  | i :: places => by
    have rest := sum_values_filterMap_digitChunk fits places
    by_cases zero : A / 10 ^ i % 10 = 0
    · simp [digitChunk, zero, rest]
    · rw [List.filterMap_cons, digitChunk, if_neg zero, List.map_cons, List.map_cons,
        List.sum_cons, List.sum_cons, rest, DecomposeCall.value,
        UInt64.toNat_ofNat_of_lt' (digit_mul_pow_lt fits i)]

theorem chunkValues_filterMap_digitChunk (fits : A < 2 ^ 64) :
    ∀ places : List Nat, (places.filterMap (digitChunk A)).filterMap DecomposeCall.chunkValue? =
      (places.filter fun i => A / 10 ^ i % 10 != 0).map fun i => A / 10 ^ i % 10 * 10 ^ i
  | [] => rfl
  | i :: places => by
    have rest := chunkValues_filterMap_digitChunk fits places
    by_cases zero : A / 10 ^ i % 10 = 0
    · simp [digitChunk, zero, rest]
    · simpa [digitChunk, zero, rest, DecomposeCall.chunkValue?] using digit_mul_pow_lt fits i

theorem filter_isDust_chunkCalls : (chunkCalls A k).filter DecomposeCall.isDust = [] := by
  rw [List.filter_eq_nil_iff]
  intro call mem
  obtain ⟨i, -, chunk⟩ := List.mem_filterMap.mp mem
  unfold digitChunk at chunk
  split at chunk
  · cases chunk
  · cases chunk
    simp [DecomposeCall.isDust]

/-- The values handed out add up to the amount: the dust is the low `j` digits, the chunks the
digits from place `j` to place 19, and a `uint64_t` has no digit at place 20. -/
theorem sum_values_decomposition (fits : A < 2 ^ 64) :
    ((decomposition A T).map fun call => call.value.toNat).sum = A := by
  have le := dustDigits_le (A := A) (T := T)
  have dust_lt : A % 10 ^ dustDigits A T < 2 ^ 64 := Nat.lt_of_le_of_lt (Nat.mod_le _ _) fits
  have dust_sum : ((dustCall (A % 10 ^ dustDigits A T)).map fun call => call.value.toNat).sum =
      A % 10 ^ dustDigits A T := by
    unfold dustCall
    split
    · next zero => simp [zero]
    · simp [DecomposeCall.value, UInt64.toNat_ofNat_of_lt' dust_lt]
  rw [decomposition, List.map_append, List.sum_append, dust_sum, chunkCalls,
    sum_values_filterMap_digitChunk fits, Radix.mod_pow_add_sum_digits,
    Nat.add_sub_cancel' le, Nat.mod_eq_of_lt (Nat.lt_trans fits (by decide))]

theorem filter_isDust_decomposition :
    (decomposition A T).filter DecomposeCall.isDust = dustCall (A % 10 ^ dustDigits A T) := by
  rw [decomposition, List.filter_append, filter_isDust_chunkCalls, List.append_nil, dustCall]
  split <;> rfl

theorem chunkValues_decomposition (fits : A < 2 ^ 64) :
    (decomposition A T).filterMap DecomposeCall.chunkValue? =
      ((List.range' (dustDigits A T) (20 - dustDigits A T)).filter
        fun i => A / 10 ^ i % 10 != 0).map fun i => A / 10 ^ i % 10 * 10 ^ i := by
  have dust : (dustCall (A % 10 ^ dustDigits A T)).filterMap DecomposeCall.chunkValue? = [] := by
    unfold dustCall
    split <;> rfl
  rw [decomposition, List.filterMap_append, dust, List.nil_append, chunkCalls,
    chunkValues_filterMap_digitChunk fits]

/-- A nonzero digit at a higher place is worth more than any digit at a lower one. -/
theorem digit_mul_pow_lt_digit_mul_pow {i i' : Nat} (lt : i < i') (nonzero : A / 10 ^ i' % 10 ≠ 0) :
    A / 10 ^ i % 10 * 10 ^ i < A / 10 ^ i' % 10 * 10 ^ i' :=
  calc A / 10 ^ i % 10 * 10 ^ i < 10 ^ (i + 1) := Radix.digit_mul_pow_lt_pow (by decide)
    _ ≤ 10 ^ i' := Nat.pow_le_pow_right (by decide) lt
    _ ≤ A / 10 ^ i' % 10 * 10 ^ i' := Nat.le_mul_of_pos_left _ (Nat.pos_of_ne_zero nonzero)

theorem pairwise_lt_digits (j : Nat) :
    (((List.range' j (20 - j)).filter fun i => A / 10 ^ i % 10 != 0).map
      fun i => A / 10 ^ i % 10 * 10 ^ i).Pairwise (· < ·) := by
  rw [List.pairwise_map]
  refine ((List.pairwise_lt_range' (s := j) (n := 20 - j)).filter _).imp_of_mem ?_
  intro i i' _ mem' lt
  have nonzero : A / 10 ^ i' % 10 ≠ 0 := by simpa using (List.mem_filter.mp mem').2
  exact digit_mul_pow_lt_digit_mul_pow lt nonzero

end Spec

/-- decompose_amount_into_digits loses nothing: `j` is the largest count of low digits within the
threshold; the values handed out add up to the amount; the dust handler is called once with the
low `j` digits if they are not zero and never otherwise; the chunk handler gets one call per
nonzero digit from place `j` on, each the digit at its place, from the lowest place up. -/
theorem decompose_amount_into_digits_exact (amount dustThreshold : UInt64) :
    (dustDigits amount.toNat dustThreshold.toNat ≤ 20 ∧
      amount.toNat % 10 ^ dustDigits amount.toNat dustThreshold.toNat ≤ dustThreshold.toNat ∧
      ∀ k, dustDigits amount.toNat dustThreshold.toNat < k → k ≤ 20 →
        dustThreshold.toNat < amount.toNat % 10 ^ k) ∧
    ((decomposeCalls amount dustThreshold).map fun call => call.value.toNat).sum = amount.toNat ∧
    (decomposeCalls amount dustThreshold).filter DecomposeCall.isDust =
      (if amount.toNat % 10 ^ dustDigits amount.toNat dustThreshold.toNat = 0 then []
        else [.dust (UInt64.ofNat (amount.toNat % 10 ^ dustDigits amount.toNat dustThreshold.toNat))]) ∧
    (decomposeCalls amount dustThreshold).filterMap DecomposeCall.chunkValue? =
      ((List.range' (dustDigits amount.toNat dustThreshold.toNat)
        (20 - dustDigits amount.toNat dustThreshold.toNat)).filter
          fun k => amount.toNat / 10 ^ k % 10 != 0).map
        (fun k => amount.toNat / 10 ^ k % 10 * 10 ^ k) ∧
    (∀ chunk ∈ (decomposeCalls amount dustThreshold).filterMap DecomposeCall.chunkValue?,
      ∃ k d, dustDigits amount.toNat dustThreshold.toNat ≤ k ∧ k < 20 ∧ 1 ≤ d ∧ d ≤ 9 ∧
        amount.toNat / 10 ^ k % 10 = d ∧ chunk = d * 10 ^ k) ∧
    ((decomposeCalls amount dustThreshold).filterMap DecomposeCall.chunkValue?).Pairwise (· < ·) := by
  have fits := amount.toNat_lt
  have chunks := chunkValues_decomposition (T := dustThreshold.toNat) fits
  rw [← decomposeCalls_eq] at chunks
  refine ⟨⟨dustDigits_le, mod_dustDigits_le, fun k lt le => lt_mod_of_dustDigits_lt lt le⟩,
    ?_, ?_, chunks, ?_, chunks ▸ pairwise_lt_digits _⟩
  · rw [decomposeCalls_eq]
    exact sum_values_decomposition fits
  · rw [decomposeCalls_eq]
    exact filter_isDust_decomposition
  · -- each chunk is a nonzero digit `d ≤ 9` of the amount at a place from `j` on
    intro chunk mem
    rw [chunks, List.mem_map] at mem
    obtain ⟨k, mem, rfl⟩ := mem
    obtain ⟨place, nonzero⟩ := List.mem_filter.mp mem
    rw [List.mem_range'_1] at place
    have digit : amount.toNat / 10 ^ k % 10 < 10 := Nat.mod_lt _ (by decide)
    have positive : amount.toNat / 10 ^ k % 10 ≠ 0 := by simpa using nonzero
    exact ⟨k, _, place.1, by omega, by omega, by omega, rfl, rfl⟩

/-! ## parse_amount and print_money -/

/-- std::isspace in the "C" locale: the space, and the characters from tab to carriage return. -/
def isSpace (c : Char) : Bool := c == ' ' || decide (9 ≤ c.toNat ∧ c.toNat ≤ 13)

/-- boost::algorithm::trim: the spaces at the end removed, then those at the start. -/
def trim (s : List Char) : List Char := (s.rdropWhile isSpace).dropWhile isSpace

/-- The `while (default_decimal_point < fraction_size && '0' == str_amount.back())` loop of
parse_amount: trailing zeros of the fraction dropped while it is longer than the decimals. -/
def dropFractionZeros (defaultDecimalPoint : Nat) : List Char → Nat → List Char × Nat
  | strAmount, 0 => (strAmount, 0)
  | strAmount, fractionSize + 1 =>
    if defaultDecimalPoint < fractionSize + 1 ∧ strAmount.getLast? = some '0' then
      dropFractionZeros defaultDecimalPoint strAmount.dropLast fractionSize
    else (strAmount, fractionSize + 1)

/-- boost::lexical_cast<uint64_t> of a string of decimal digits: its value, refused for the empty
string and from 2^64 on. Only strings of digits reach it, since get_xtype_from_string checks them
first. -/
def lexicalCastUint64 (s : List Char) : Option UInt64 :=
  if s ≠ [] ∧ Nat.ofDigitChars 10 s 0 < 2 ^ 64 then some (UInt64.ofNat (Nat.ofDigitChars 10 s 0))
  else none

/-- get_xtype_from_string for `uint64_t`: every character a digit, then the cast. -/
def getXtypeFromString (strId : List Char) : Option UInt64 :=
  if strId.all Char.isDigit then lexicalCastUint64 strId else none

/-- The branch of parse_amount on the first point, at `pointIndex`: the fraction after it
shortened by `dropFractionZeros`, refused if still longer than the decimals, and the point
erased. -/
def dropPoint (defaultDecimalPoint : Nat) (strAmount : List Char) (pointIndex : Nat) :
    Option (List Char × Nat) :=
  let trimmed :=
    dropFractionZeros defaultDecimalPoint strAmount (strAmount.length - pointIndex - 1)
  if defaultDecimalPoint < trimmed.2 then none
  else some (trimmed.1.eraseIdx pointIndex, trimmed.2)

/-- The end of parse_amount: refused if nothing is left, zeros appended for the decimals the
fraction does not have, and the digits read. -/
def readDigits (defaultDecimalPoint : Nat) (strAmount : List Char) (fractionSize : Nat) :
    Option UInt64 :=
  if strAmount = [] then none
  else
    getXtypeFromString
      (if fractionSize < defaultDecimalPoint then
        strAmount ++ List.replicate (defaultDecimalPoint - fractionSize) '0'
      else strAmount)

/-- parse_amount, with `default_decimal_point` as a parameter; `none` where it returns false. -/
def parseAmount (defaultDecimalPoint : Nat) (strAmount : List Char) : Option UInt64 :=
  let strAmount := trim strAmount
  match strAmount.idxOf? '.' with
  | some pointIndex =>
    (dropPoint defaultDecimalPoint strAmount pointIndex).bind fun read =>
      readDigits defaultDecimalPoint read.1 read.2
  | none => readDigits defaultDecimalPoint strAmount 0

/-- print_money: the decimal digits of the amount, padded with zeros to more than the decimals,
with the point before the last `decimal_point` of them. `(unsigned int)-1` stands for
`default_decimal_point`. -/
def printMoney (defaultDecimalPoint : Nat) (amount : UInt64) (decimalPoint : UInt32) : List Char :=
  let decimalPoint := if decimalPoint = 4294967295 then defaultDecimalPoint else decimalPoint.toNat
  let s := Nat.toDigits 10 amount.toNat
  let s := if s.length < decimalPoint + 1 then List.replicate (decimalPoint + 1 - s.length) '0' ++ s
    else s
  if 0 < decimalPoint then s.take (s.length - decimalPoint) ++ '.' :: s.drop (s.length - decimalPoint)
  else s

/-- `text` is a decimal amount of `value` atomic units at `decimalPoint` decimals: digits, or digits,
a point and digits, not both empty, whose fraction without its trailing zeros has at most
`decimalPoint` digits; `value` is the amount scaled by `10 ^ decimalPoint`, below 2^64. -/
inductive DecimalAmount (decimalPoint : Nat) : List Char → Nat → Prop
  | integer {whole : List Char} : whole ≠ [] → (∀ c ∈ whole, c.isDigit) →
      Nat.ofDigitChars 10 whole 0 * 10 ^ decimalPoint < 2 ^ 64 →
      DecimalAmount decimalPoint whole (Nat.ofDigitChars 10 whole 0 * 10 ^ decimalPoint)
  | point {whole fraction : List Char} {value : Nat} : whole ≠ [] ∨ fraction ≠ [] →
      (∀ c ∈ whole ++ fraction, c.isDigit) →
      (fraction.rdropWhile (· == '0')).length ≤ decimalPoint →
      value * 10 ^ fraction.length = Nat.ofDigitChars 10 (whole ++ fraction) 0 * 10 ^ decimalPoint →
      value < 2 ^ 64 → DecimalAmount decimalPoint (whole ++ '.' :: fraction) value

/-! ### Reading the text -/

section Parse

variable {dp : Nat}

theorem isSpace_eq_false {c : Char} (h : c.isDigit ∨ c = '.') : isSpace c = false := by
  rcases h with digit | rfl
  · simp only [Char.isDigit, Bool.and_eq_true, decide_eq_true_eq, UInt32.le_iff_toNat_le] at digit
    have zero : ('0' : Char).val.toNat = 48 := rfl
    have nine : ('9' : Char).val.toNat = 57 := rfl
    have space : (' ' : Char).val.toNat = 32 := rfl
    rw [zero, nine] at digit
    simp only [isSpace, Bool.or_eq_false_iff, beq_eq_false_iff_ne, ne_eq, decide_eq_false_iff_not,
      Char.toNat]
    refine ⟨fun e => ?_, by omega⟩
    rw [e, space] at digit
    omega
  · decide

/-- Text with no space is its own trim. -/
theorem trim_of_not_space {s : List Char} (h : ∀ c ∈ s, isSpace c = false) : trim s = s := by
  have right : s.rdropWhile isSpace = s :=
    List.rdropWhile_eq_self_iff.mpr fun ne => by simp [h _ (List.getLast_mem ne)]
  rw [trim, right, List.dropWhile_eq_self_iff]
  intro pos
  simp [h _ (List.getElem_mem pos)]

theorem rdropWhile_append_zeros (l : List Char) :
    ∀ zeros, (l ++ List.replicate zeros '0').rdropWhile (· == '0') = l.rdropWhile (· == '0')
  | 0 => by rw [List.replicate_zero, List.append_nil]
  | zeros + 1 => by
    rw [List.replicate_succ', ← List.append_assoc, List.rdropWhile_concat_pos _ _ _ (by decide),
      rdropWhile_append_zeros l zeros]

/-- What the trailing-zero loop leaves of a fraction after `front`: the fraction is what it keeps
followed by zeros, it stopped at the decimals or at a digit that is not zero, and it dropped
zeros only while the fraction was longer than the decimals. -/
theorem dropFractionZeros_append (dp : Nat) (front : List Char) :
    ∀ n (fraction : List Char), fraction.length = n → ∃ kept zeros,
      dropFractionZeros dp (front ++ fraction) n = (front ++ kept, kept.length) ∧
      fraction = kept ++ List.replicate zeros '0' ∧
      (kept.length ≤ dp ∨ kept.getLast? ≠ some '0') ∧ (zeros = 0 ∨ dp ≤ kept.length)
  | 0, fraction, length => by
    obtain rfl := List.eq_nil_of_length_eq_zero length
    exact ⟨[], 0, rfl, rfl, .inl (Nat.zero_le _), .inl rfl⟩
  | n + 1, fraction, length => by
    obtain ⟨init, last, rfl⟩ : ∃ init last, fraction = init ++ [last] := by
      rcases List.eq_nil_or_concat fraction with nil | ⟨init, last, concat⟩
      · simp [nil] at length
      · exact ⟨init, last, by rw [concat, List.concat_eq_append]⟩
    have initLength : init.length = n := by simpa using length
    rw [dropFractionZeros, ← List.append_assoc, List.getLast?_concat]
    by_cases drop : dp < n + 1 ∧ last = '0'
    · -- one more zero dropped, while the fraction was longer than the decimals
      obtain ⟨long, rfl⟩ := drop
      obtain ⟨kept, zeros, loop, split, stop, dropped⟩ :=
        dropFractionZeros_append dp front n init initLength
      rw [if_pos ⟨long, rfl⟩, List.dropLast_concat, loop]
      refine ⟨kept, zeros + 1, rfl, by rw [split, List.replicate_succ', List.append_assoc], stop,
        .inr ?_⟩
      rcases dropped with none | short
      · subst none
        rw [split, List.replicate_zero, List.append_nil] at initLength
        omega
      · exact short
    · rw [if_neg (by simpa using drop)]
      refine ⟨init ++ [last], 0, by rw [← length, List.append_assoc], by simp, ?_, .inl rfl⟩
      by_cases short : (init ++ [last]).length ≤ dp
      · exact .inl short
      · exact .inr (by simp only [List.getLast?_concat]; simp_all)

theorem idxOf?_append_point {whole : List Char} (fraction : List Char) (h : '.' ∉ whole) :
    (whole ++ '.' :: fraction).idxOf? '.' = some whole.length := by
  induction whole with
  | nil => simp [List.idxOf?_cons]
  | cons c whole ih =>
    have notPoint : c ≠ '.' := fun e => h (e ▸ List.mem_cons_self)
    rw [List.cons_append, List.idxOf?_cons, if_neg (by simpa using notPoint),
      ih fun mem => h (List.mem_cons_of_mem c mem)]
    rfl

theorem exists_first_point :
    ∀ text : List Char, '.' ∈ text → ∃ whole fraction, text = whole ++ '.' :: fraction ∧ '.' ∉ whole
  | [], mem => absurd mem List.not_mem_nil
  | c :: text, mem => by
    by_cases point : c = '.'
    · exact ⟨[], text, by rw [point]; rfl, List.not_mem_nil⟩
    · obtain ⟨whole, fraction, split, first⟩ :=
        exists_first_point text ((List.mem_cons.mp mem).resolve_left (Ne.symm point))
      refine ⟨c :: whole, fraction, by rw [split]; rfl, ?_⟩
      simp only [List.mem_cons, not_or]
      exact ⟨Ne.symm point, first⟩

/-- The first point splits a text one way only. -/
theorem append_point_inj :
    ∀ {w₁ w₂ f₁ f₂ : List Char}, '.' ∉ w₁ → '.' ∉ w₂ → w₁ ++ '.' :: f₁ = w₂ ++ '.' :: f₂ →
      w₁ = w₂ ∧ f₁ = f₂
  | [], [], _, _, _, _, h => ⟨rfl, by simpa using h⟩
  | [], c :: _, _, _, _, h₂, h => absurd (by simp at h; exact h.1 ▸ List.mem_cons_self) h₂
  | c :: _, [], _, _, h₁, _, h => absurd (by simp at h; exact h.1 ▸ List.mem_cons_self) h₁
  | c :: w₁, d :: w₂, f₁, f₂, h₁, h₂, h => by
    simp only [List.cons_append, List.cons.injEq] at h
    obtain ⟨rfl, rest⟩ := h
    obtain ⟨rfl, rfl⟩ := append_point_inj (fun m => h₁ (List.mem_cons_of_mem c m))
      (fun m => h₂ (List.mem_cons_of_mem c m)) rest
    exact ⟨rfl, rfl⟩

theorem not_point_of_digits {l : List Char} (h : ∀ c ∈ l, c.isDigit) : '.' ∉ l :=
  fun mem => absurd (h _ mem) (by decide)

theorem getXtypeFromString_eq_some_iff {s : List Char} {a : UInt64} :
    getXtypeFromString s = some a ↔ s ≠ [] ∧ (∀ c ∈ s, c.isDigit) ∧
      Nat.ofDigitChars 10 s 0 < 2 ^ 64 ∧ a.toNat = Nat.ofDigitChars 10 s 0 := by
  unfold getXtypeFromString lexicalCastUint64
  by_cases digits : s.all Char.isDigit
  · have all : ∀ c ∈ s, c.isDigit := by simpa using digits
    rw [if_pos digits]
    by_cases accepted : s ≠ [] ∧ Nat.ofDigitChars 10 s 0 < 2 ^ 64
    · rw [if_pos accepted, Option.some.injEq, ← UInt64.toNat_inj,
        UInt64.toNat_ofNat_of_lt' accepted.2]
      exact ⟨fun e => ⟨accepted.1, all, accepted.2, e.symm⟩, fun h => h.2.2.2.symm⟩
    · rw [if_neg accepted]
      simp only [reduceCtorEq, false_iff]
      exact fun h => accepted ⟨h.1, h.2.2.1⟩
  · rw [if_neg digits]
    simp only [reduceCtorEq, false_iff]
    exact fun h => digits (by simpa using h.2.1)

theorem ofDigitChars_append_zeros (s : List Char) (zeros : Nat) :
    Nat.ofDigitChars 10 (s ++ List.replicate zeros '0') 0 = Nat.ofDigitChars 10 s 0 * 10 ^ zeros := by
  rw [Nat.ofDigitChars_append, Nat.ofDigitChars_replicate_zero, Nat.mul_comm]

/-- The end of parse_amount on what is left of the text, with no more fraction digits than
decimals. -/
theorem readDigits_eq_some_iff {str : List Char} {fractionSize : Nat} {a : UInt64}
    (h : fractionSize ≤ dp) :
    readDigits dp str fractionSize = some a ↔ str ≠ [] ∧ (∀ c ∈ str, c.isDigit) ∧
      Nat.ofDigitChars 10 str 0 * 10 ^ (dp - fractionSize) < 2 ^ 64 ∧
      a.toNat = Nat.ofDigitChars 10 str 0 * 10 ^ (dp - fractionSize) := by
  have padded : (if fractionSize < dp then str ++ List.replicate (dp - fractionSize) '0' else str) =
      str ++ List.replicate (dp - fractionSize) '0' := by
    split
    · rfl
    · rw [show dp - fractionSize = 0 by omega, List.replicate_zero, List.append_nil]
  unfold readDigits
  by_cases empty : str = []
  · simp [empty]
  rw [if_neg empty, padded, getXtypeFromString_eq_some_iff, ofDigitChars_append_zeros]
  have digits : (∀ c ∈ str ++ List.replicate (dp - fractionSize) '0', c.isDigit) ↔
      ∀ c ∈ str, c.isDigit := by
    simp only [List.mem_append, List.mem_replicate]
    exact ⟨fun all c mem => all c (.inl mem), fun all c mem => mem.elim (all c) (by
      rintro ⟨-, rfl⟩
      decide)⟩
  rw [digits]
  simp [empty]

theorem parseAmount_of_no_point {s : List Char} (h : '.' ∉ trim s) :
    parseAmount dp s = readDigits dp (trim s) 0 := by
  unfold parseAmount
  dsimp only
  rw [List.idxOf?_eq_none_iff.mpr h]

/-- parse_amount on a text with a first point: what the trailing-zero loop keeps of the
fraction decides. -/
theorem parseAmount_of_point {s whole fraction : List Char} (text : trim s = whole ++ '.' :: fraction)
    (first : '.' ∉ whole) : ∃ kept zeros, fraction = kept ++ List.replicate zeros '0' ∧
      (kept.length ≤ dp ∨ kept.getLast? ≠ some '0') ∧ (zeros = 0 ∨ dp ≤ kept.length) ∧
      parseAmount dp s =
        if dp < kept.length then none else readDigits dp (whole ++ kept) kept.length := by
  obtain ⟨kept, zeros, loop, split, stop, dropped⟩ :=
    dropFractionZeros_append dp (whole ++ ['.']) fraction.length fraction rfl
  refine ⟨kept, zeros, split, stop, dropped, ?_⟩
  unfold parseAmount dropPoint
  dsimp only
  have remaining : (whole ++ '.' :: fraction).length - whole.length - 1 = fraction.length := by
    simp only [List.length_append, List.length_cons]
    omega
  rw [text, idxOf?_append_point fraction first]
  dsimp only
  rw [remaining, List.append_cons whole, loop]
  dsimp only
  split
  · rfl
  · rw [Option.bind_some, List.append_assoc, List.singleton_append,
      List.eraseIdx_append_of_length_le (Nat.le_refl _), Nat.sub_self, List.eraseIdx_cons_zero]

theorem decimalAmount_of_no_point_iff {text : List Char} {value : Nat} (h : '.' ∉ text) :
    DecimalAmount dp text value ↔ text ≠ [] ∧ (∀ c ∈ text, c.isDigit) ∧
      Nat.ofDigitChars 10 text 0 * 10 ^ dp < 2 ^ 64 ∧
      value = Nat.ofDigitChars 10 text 0 * 10 ^ dp := by
  constructor
  · intro amount
    cases amount with
    | integer ne digits fits => exact ⟨ne, digits, fits, rfl⟩
    | point _ _ _ _ _ => exact absurd (List.mem_append_right _ List.mem_cons_self) h
  · rintro ⟨ne, digits, fits, rfl⟩
    exact .integer ne digits fits

theorem decimalAmount_point_iff {whole fraction : List Char} {value : Nat} (first : '.' ∉ whole) :
    DecimalAmount dp (whole ++ '.' :: fraction) value ↔ (whole ≠ [] ∨ fraction ≠ []) ∧
      (∀ c ∈ whole ++ fraction, c.isDigit) ∧ (fraction.rdropWhile (· == '0')).length ≤ dp ∧
      value * 10 ^ fraction.length = Nat.ofDigitChars 10 (whole ++ fraction) 0 * 10 ^ dp ∧
      value < 2 ^ 64 := by
  constructor
  · intro amount
    generalize split : whole ++ '.' :: fraction = text at amount
    cases amount with
    | integer _ digits _ =>
      exact absurd (split ▸ List.mem_append_right _ List.mem_cons_self) (not_point_of_digits digits)
    | point ne digits decimals scaled fits =>
      obtain ⟨rfl, rfl⟩ := append_point_inj first
        (not_point_of_digits fun c mem => digits c (List.mem_append_left _ mem)) split
      exact ⟨ne, digits, decimals, scaled, fits⟩
  · rintro ⟨ne, digits, decimals, scaled, fits⟩
    exact .point ne digits decimals scaled fits

/-- Scaling by the decimals the fraction has or lacks. -/
theorem scaled_iff {value digits kept zeros : Nat} (h : kept ≤ dp) :
    value * 10 ^ (kept + zeros) = digits * 10 ^ zeros * 10 ^ dp ↔
      value = digits * 10 ^ (dp - kept) := by
  have split : digits * 10 ^ zeros * 10 ^ dp = digits * 10 ^ (dp - kept) * 10 ^ (kept + zeros) :=
    calc digits * 10 ^ zeros * 10 ^ dp = digits * 10 ^ zeros * 10 ^ (dp - kept + kept) := by
          rw [Nat.sub_add_cancel h]
      _ = digits * 10 ^ (dp - kept) * 10 ^ (kept + zeros) := by
          rw [Nat.pow_add, Nat.pow_add]
          ring
  rw [split]
  exact ⟨Nat.eq_of_mul_eq_mul_right (Nat.pow_pos (by decide)), fun e => e ▸ rfl⟩

/-- A text that starts with a point has no digits before it. -/
theorem head?_append_point {whole fraction : List Char} (first : '.' ∉ whole) :
    (whole ++ '.' :: fraction).head? ≠ some '.' ↔ whole ≠ [] := by
  cases whole with
  | nil => simp
  | cons c rest =>
    simp only [List.cons_append, List.head?_cons, ne_eq, Option.some.injEq, reduceCtorEq,
      not_false_eq_true, iff_true]
    exact fun point => first (point ▸ List.mem_cons_self)

/-- parse_amount accepts exactly the decimal amounts of its trimmed text, and reads their value
in atomic units, but at zero decimals a text that starts with its point: the trailing-zero loop
drops the whole fraction, and nothing is left once the point is erased. -/
theorem parseAmount_eq_some_iff (s : List Char) (a : UInt64) :
    parseAmount dp s = some a ↔
      DecimalAmount dp (trim s) a.toNat ∧ (dp = 0 → (trim s).head? ≠ some '.') := by
  by_cases hasPoint : '.' ∈ trim s
  · obtain ⟨whole, fraction, text, first⟩ := exists_first_point _ hasPoint
    obtain ⟨kept, zeros, rfl, stop, dropped, parse⟩ := @parseAmount_of_point dp s whole fraction text first
    rw [parse, text, decimalAmount_point_iff first, head?_append_point first]
    have trailing : ((kept ++ List.replicate zeros '0').rdropWhile (· == '0')).length ≤ dp ↔
        kept.length ≤ dp := by
      rw [rdropWhile_append_zeros]
      constructor
      · intro short
        by_contra long
        have self : kept.rdropWhile (· == '0') = kept :=
          List.rdropWhile_eq_self_iff.mpr fun ne => by
            have last := stop.resolve_left long
            rw [List.getLast?_eq_some_getLast ne] at last
            simpa using last
        rw [self] at short
        exact long short
      · exact fun short => Nat.le_trans (List.IsPrefix.length_le (List.rdropWhile_prefix _ _)) short
    have value : Nat.ofDigitChars 10 (whole ++ (kept ++ List.replicate zeros '0')) 0 =
        Nat.ofDigitChars 10 (whole ++ kept) 0 * 10 ^ zeros := by
      rw [← List.append_assoc, ofDigitChars_append_zeros]
    have digits : (∀ c ∈ whole ++ (kept ++ List.replicate zeros '0'), c.isDigit) ↔
        ∀ c ∈ whole ++ kept, c.isDigit := by
      simp only [← List.append_assoc, List.mem_append, List.mem_replicate]
      exact ⟨fun all c mem => all c (.inl mem), fun all c mem => mem.elim (all c) (by
        rintro ⟨-, rfl⟩
        decide)⟩
    by_cases short : kept.length ≤ dp
    · -- the fraction fits the decimals: the digits left are the amount, zeros appended; at zero
      -- decimals nothing of the fraction is kept, so the digits before the point must be there
      have nonempty : whole ++ kept ≠ [] ↔
          (whole ≠ [] ∨ kept ++ List.replicate zeros '0' ≠ []) ∧ (dp = 0 → whole ≠ []) := by
        by_cases zero : dp = 0
        · have none : kept = [] := List.eq_nil_of_length_eq_zero (by omega)
          simp only [none, List.append_nil, zero, forall_const]
          exact ⟨fun ne => ⟨.inl ne, ne⟩, fun both => both.2⟩
        · simp only [zero, false_implies, and_true]
          rcases dropped with none | long
          · rw [none, List.replicate_zero, List.append_nil, ne_eq, List.append_eq_nil_iff,
              not_and_or]
          · have : kept ≠ [] := List.ne_nil_of_length_pos (by omega)
            simp [this]
      rw [if_neg (Nat.not_lt.mpr short), readDigits_eq_some_iff short, nonempty, digits, trailing,
        value, List.length_append, List.length_replicate, scaled_iff short]
      constructor
      · rintro ⟨⟨ne, before⟩, all, fits, scaled⟩
        exact ⟨⟨ne, all, short, scaled, a.toNat_lt⟩, before⟩
      · rintro ⟨⟨ne, all, -, scaled, fits⟩, before⟩
        exact ⟨⟨ne, before⟩, all, scaled ▸ fits, scaled⟩
    · rw [if_pos (Nat.lt_of_not_le short), trailing]
      simp only [reduceCtorEq, false_iff, not_and]
      exact fun ⟨_, _, within, _⟩ => absurd within short
  · -- no point: nothing starts with one
    have noHead : (trim s).head? ≠ some '.' := fun head => hasPoint (List.mem_of_head? head)
    rw [parseAmount_of_no_point hasPoint, readDigits_eq_some_iff (Nat.zero_le dp), Nat.sub_zero,
      decimalAmount_of_no_point_iff hasPoint]
    simp only [noHead, ne_eq, not_false_eq_true, implies_true, and_true]

theorem isDigit_of_mem_padded {digits : List Char} (h : ∀ c ∈ digits, c.isDigit) (zeros : Nat) :
    ∀ c ∈ List.replicate zeros '0' ++ digits, c.isDigit := by
  intro c mem
  rcases List.mem_append.mp mem with zero | digit
  · rw [(List.mem_replicate.mp zero).2]
    decide
  · exact h c digit

/-- What print_money writes, padded with zeros ahead of the digits: digits with the value of the
amount, more of them than decimals. -/
theorem printMoney_digits (dp : Nat) (x : UInt64) :
    let s := Nat.toDigits 10 x.toNat
    let s := if s.length < dp + 1 then List.replicate (dp + 1 - s.length) '0' ++ s else s
    (∀ c ∈ s, c.isDigit) ∧ Nat.ofDigitChars 10 s 0 = x.toNat ∧ dp + 1 ≤ s.length := by
  intro digits padded
  have all : ∀ c ∈ digits, c.isDigit := fun c mem => Nat.isDigit_of_mem_toDigits (by decide)
    (by decide) mem
  by_cases short : digits.length < dp + 1
  · have unpadded : padded = List.replicate (dp + 1 - digits.length) '0' ++ digits := if_pos short
    rw [unpadded]
    refine ⟨isDigit_of_mem_padded all _, ?_, by simp; omega⟩
    rw [Nat.ofDigitChars_append, Nat.ofDigitChars_replicate_zero, Nat.mul_zero,
      Nat.ofDigitChars_ten_toDigits]
  · have unpadded : padded = digits := if_neg short
    rw [unpadded]
    exact ⟨all, Nat.ofDigitChars_ten_toDigits, by omega⟩

/-- parse_amount reads back what print_money writes, at every number of decimals. -/
theorem parseAmount_printMoney (dp : Nat) (x : UInt64) :
    parseAmount dp (printMoney dp x 4294967295) = some x := by
  obtain ⟨all, value, long⟩ := printMoney_digits dp x
  unfold printMoney
  dsimp only
  rw [if_pos rfl]
  generalize (if (Nat.toDigits 10 x.toNat).length < dp + 1 then _ else _) = s at all value long
  have notSpace : ∀ {c}, c.isDigit → isSpace c = false := fun digit => isSpace_eq_false (.inl digit)
  by_cases pos : 0 < dp
  · -- the point goes before the last `dp` digits
    rw [if_pos pos]
    have whole : s.take (s.length - dp) ≠ [] :=
      List.ne_nil_of_length_pos (by rw [List.length_take]; omega)
    have split := List.take_append_drop (s.length - dp) s
    refine (parseAmount_eq_some_iff _ x).mpr ⟨?_, fun zero => absurd zero (Nat.pos_iff_ne_zero.mp pos)⟩
    rw [trim_of_not_space]
    · refine .point (.inl whole) (by rw [split]; exact all) ?_ ?_ x.toNat_lt
      · refine Nat.le_trans (List.IsPrefix.length_le (List.rdropWhile_prefix _ _)) ?_
        rw [List.length_drop]
        omega
      · rw [split, value, List.length_drop, Nat.sub_sub_self (by omega)]
    · intro c mem
      rcases List.mem_append.mp mem with front | back
      · exact notSpace (all c (List.mem_of_mem_take front))
      · rcases List.mem_cons.mp back with rfl | back
        · decide
        · exact notSpace (all c (List.mem_of_mem_drop back))
  · -- no point at zero decimals: the digits are read as they are
    rw [if_neg pos, show dp = 0 by omega]
    have noPoint : '.' ∉ trim s := by
      rw [trim_of_not_space fun c mem => notSpace (all c mem)]
      exact not_point_of_digits all
    rw [parseAmount_of_no_point noPoint, trim_of_not_space fun c mem => notSpace (all c mem)]
    refine (readDigits_eq_some_iff (Nat.le_refl 0)).mpr ⟨?_, all, ?_, ?_⟩
    · exact List.ne_nil_of_length_pos (by omega)
    · rw [value, Nat.sub_self, Nat.pow_zero, Nat.mul_one]
      exact x.toNat_lt
    · rw [value, Nat.sub_self, Nat.pow_zero, Nat.mul_one]

end Parse

/-- parse_amount reads exactly the decimal amounts of its trimmed text, at every number of
decimals, but at zero decimals those that start with their point (`.0`, `.00`, ..), and reads
back what print_money writes. -/
theorem parse_amount_reads_decimal_amounts (defaultDecimalPoint : Nat) :
    (∀ s a, parseAmount defaultDecimalPoint s = some a ↔
      DecimalAmount defaultDecimalPoint (trim s) a.toNat ∧
        (defaultDecimalPoint = 0 → (trim s).head? ≠ some '.')) ∧
    ∀ x : UInt64, parseAmount defaultDecimalPoint (printMoney defaultDecimalPoint x 4294967295) =
      some x :=
  ⟨parseAmount_eq_some_iff, parseAmount_printMoney defaultDecimalPoint⟩

/-- At zero decimals `.0` is a decimal amount of nothing, but parse_amount refuses it: the
trailing-zero loop drops the one zero, and nothing is left once the point is erased. -/
theorem parse_amount_refuses_point_zero :
    DecimalAmount 0 ['.', '0'] 0 ∧ parseAmount 0 ['.', '0'] = none :=
  ⟨@DecimalAmount.point 0 [] ['0'] 0 (.inr (List.cons_ne_nil _ _)) (fun c mem => by
      rw [List.nil_append, List.mem_singleton] at mem
      subst mem
      rfl) (by decide) rfl (by decide),
    by decide⟩

end GraftNetwork.Basic.FormatUtils

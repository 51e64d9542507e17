import GraftNetwork.Lib.MultiScalar
import GraftNetwork.Ringct.Multiexp.Scalars

/-!
# Pippenger

`pippenger` (multiexp.cc) cuts every scalar into windows of `c` bits (`get_pippenger_c` picks `c`
from the number of points), and for each window from the highest one down doubles the result `c`
times, sorts the points into `2 ^ c` buckets by their digit in the window, and adds the buckets to
the result through a running total, from the highest bucket down.

* `bucketOf_eq`: the bucket of a point in window `k` is its scalar's digit there.
* `foldlM_partitionStep`: the partition adds every point to the digit-weighted sum of the buckets.
* `sumBuckets_eq`: the running total adds the digit-weighted sum of the buckets to the result.
* `pippengerGroup_eq`: one window is a step of Horner's rule.
* `pippenger_eq_basic`: pippenger returns the encoding of the sum of the multiples, for every
  `c ≤ 9` and every cache built over the data's points.
-/

namespace GraftNetwork.Ringct.Multiexp

open GraftNetwork.Serialization (Key)
open Finset

/-- get_pippenger_c(N): the window width for `N` points. -/
def getPippengerC (N : Nat) : Nat :=
  if N ≤ 2 then 1
  else if N ≤ 8 then 2
  else if N ≤ 16 then 3
  else if N ≤ 64 then 4
  else if N ≤ 128 then 5
  else if N ≤ 256 then 6
  else if N ≤ 1024 then 7
  else if N ≤ 2048 then 8
  else 9

/-- pippenger_cached_data: the number of points and their cached forms. -/
structure PippengerCachedData (G : Type) where
  size : Nat
  cached : Nat → G

/-- `while (groups < 256 && !(maxscalar < pow2(groups))) ++groups;` -/
def groupsLoop (maxscalar : Key) (groups : Nat) : Nat :=
  if h : groups < 256 then
    if !(keyLess maxscalar (pow2 groups h)) then groupsLoop maxscalar (groups + 1) else groups
  else groups
termination_by 256 - groups

/-- The bucket of a scalar in window `k`: `bucket |= 1 << j` for every bit `k*c+j` it has. -/
def bucketOf (scalar : Key) (c k : Nat) : Nat :=
  (List.range c).foldl
    (fun bucket j => if test scalar (k * c + j) ≠ 0 then bucket ||| 1 <<< j else bucket) 0

section Pippenger

variable {G : Type} [AddCommMonoid G]

/-- pippenger_init_cache(data, N): the first `N` points (all of them for `N = 0`). The block's
other entries are never read; the model starts it at `0`. -/
def pippengerInitCache (data : List (MultiexpData G)) (N : Nat) :
    Except String (PippengerCachedData G) :=
  let N := if N = 0 then data.length else N
  if N ≤ data.length then
    .ok ⟨N, (List.range N).foldl (fun cached i => Function.update cached i (pointAt data i))
      fun _ => 0⟩
  else .error "Bad cache base data"

/-- `local_cache = cache == NULL ? pippenger_init_cache(data) : cache`. -/
def pippengerLocalCache (data : List (MultiexpData G)) :
    Option (PippengerCachedData G) → Except String (PippengerCachedData G)
  | none => pippengerInitCache data 0
  | some c => pure c

variable [DecidableEq G]

/-- One pass of the partition loop for point `i` in window `k`: a point with a nonzero digit joins
its bucket, through its cached form when the bucket already holds a point. -/
def partitionStep (data : List (MultiexpData G)) (localCache : PippengerCachedData G) (c k : Nat)
    (buckets : Nat → G) (i : Nat) : Except String (Nat → G) :=
  let bucket := bucketOf (data.getD i ⟨zero, 0⟩).scalar c k
  if bucket = 0 then pure buckets
  else if bucket < 1 <<< c then
    if buckets bucket ≠ 0 then
      pure (Function.update buckets bucket (buckets bucket + localCache.cached i))
    else pure (Function.update buckets bucket (pointAt data i))
  else throw "bucket overflow"

/-- The bucket sum: buckets `(1 << c) - 1, …, 1` added to the running total `pail`, and the
running total to the result, each only when it is not the identity. -/
def sumBuckets (buckets : Nat → G) (c : Nat) (result : G) : G :=
  ((List.range' 1 ((1 <<< c) - 1)).reverse.foldl
    (fun (state : G × G) i =>
      let pail := if buckets i ≠ 0 then state.1 + buckets i else state.1
      (pail, if pail ≠ 0 then state.2 + pail else state.2))
    (0, result)).2

/-- One pass of the loop over the windows, for window `k`. -/
def pippengerGroup (data : List (MultiexpData G)) (localCache : PippengerCachedData G) (c : Nat)
    (result : G) (k : Nat) : Except String G := do
  let result := if result ≠ 0 then doubleTimes c result else result
  let buckets ← (List.range data.length).foldlM (partitionStep data localCache c k) fun _ => 0
  pure (sumBuckets buckets c result)

/-- pippenger(data, cache, c) with the encoding `ge_p3_tobytes` as `encode`. -/
def pippenger (encode : G → Key) (data : List (MultiexpData G))
    (cache : Option (PippengerCachedData G)) (c : Nat) : Except String Key := do
  unless cache.all (fun cc => decide (data.length ≤ cc.size)) do throw "Cache is too small"
  let c := if c = 0 then getPippengerC data.length else c
  unless decide (c ≤ 9) do throw "c is too large"
  let localCache ← pippengerLocalCache data cache
  let groups := groupsLoop (maxScalar data) 0
  let groups := (groups + c - 1) / c
  let result ← (List.range groups).reverse.foldlM (pippengerGroup data localCache c) 0
  pure (encode result)

end Pippenger

/-! ## The window width and the windows -/

theorem getPippengerC_pos (N : Nat) : 0 < getPippengerC N := by
  unfold getPippengerC
  split_ifs <;> omega

theorem getPippengerC_le (N : Nat) : getPippengerC N ≤ 9 := by
  unfold getPippengerC
  split_ifs <;> omega

/-- The loop stops at 256 at most, with every bit of `maxscalar` below it. -/
theorem groupsLoop_spec (maxscalar : Key) (groups : Nat) (bounded : groups ≤ 256) :
    groupsLoop maxscalar groups ≤ 256 ∧ scalarValue maxscalar < 2 ^ groupsLoop maxscalar groups := by
  rw [groupsLoop]
  by_cases inside : groups < 256
  · rw [dif_pos inside]
    by_cases above : keyLess maxscalar (pow2 groups inside) = true
    · -- `maxscalar < pow2(groups)` ends the loop
      rw [above, Bool.not_true, if_neg Bool.false_ne_true]
      have below := (keyLess_iff _ _).mp above
      rw [value_pow2] at below
      exact ⟨bounded, below⟩
    · rw [if_pos (by simpa using above)]
      exact groupsLoop_spec maxscalar (groups + 1) inside
  · rw [dif_neg inside, show groups = 256 by omega]
    exact ⟨le_rfl, scalarValue_lt maxscalar⟩
termination_by 256 - groups

/-- The first `m` bits of window `k` make the low `m` bits of the scalar's value shifted down by
`k * c`; the induction adds one bit at the top. -/
theorem foldl_bucket (scalar : Key) (c k : Nat) : ∀ m,
    (List.range m).foldl
        (fun bucket j => if test scalar (k * c + j) ≠ 0 then bucket ||| 1 <<< j else bucket) 0 =
      scalarValue scalar / 2 ^ (k * c) % 2 ^ m
  | 0 => by rw [List.range_zero, List.foldl_nil, Nat.pow_zero, Nat.mod_one]
  | m + 1 => by
    rw [List.range_succ, List.foldl_append, List.foldl_cons, List.foldl_nil, foldl_bucket scalar c k m,
      Nat.mod_pow_succ, Nat.div_div_eq_div_mul, ← Nat.pow_add, Nat.one_shiftLeft]
    have low := Nat.mod_lt (scalarValue scalar / 2 ^ (k * c)) (Nat.two_pow_pos m)
    by_cases bit : test scalar (k * c + m) ≠ 0
    · rw [if_pos bit, (test_ne_zero_iff scalar _).mp bit, Nat.mul_one]
      exact Nat.or_two_pow_eq_add_of_lt low
    · rw [if_neg bit]
      have zero : scalarValue scalar / 2 ^ (k * c + m) % 2 = 0 := by
        have notOne := mt (test_ne_zero_iff scalar (k * c + m)).mpr bit
        omega
      rw [zero, Nat.mul_zero, Nat.add_zero]

/-- The bucket of a point in window `k` is its scalar's digit there in base `2 ^ c`. -/
theorem bucketOf_eq (scalar : Key) (c k : Nat) :
    bucketOf scalar c k = scalarValue scalar / (2 ^ c) ^ k % 2 ^ c := by
  rw [bucketOf, foldl_bucket, ← Nat.pow_mul, Nat.mul_comm c k]

theorem bucketOf_lt (scalar : Key) (c k : Nat) : bucketOf scalar c k < 2 ^ c := by
  rw [bucketOf_eq]
  exact Nat.mod_lt _ (Nat.two_pow_pos c)

/-! ## The cache -/

section Cache

variable {G : Type}

/-- The loop of pippenger_init_cache writes point `i` at entry `i`, for every `i` below `N`. -/
theorem foldl_update_range (f g : Nat → G) : ∀ N i,
    (List.range N).foldl (fun cached j => Function.update cached j (f j)) g i =
      if i < N then f i else g i
  | 0, i => by rw [List.range_zero, List.foldl_nil, if_neg (Nat.not_lt_zero i)]
  | N + 1, i => by
    rw [List.range_succ, List.foldl_append, List.foldl_cons, List.foldl_nil]
    by_cases here : i = N
    · rw [here, Function.update_self, if_pos (Nat.lt_succ_self N)]
    · rw [Function.update_of_ne here, foldl_update_range f g N i]
      by_cases below : i < N
      · rw [if_pos below, if_pos (by omega)]
      · rw [if_neg below, if_neg (by omega)]

variable [AddCommMonoid G]

/-- A cache that pippenger_init_cache built holds the points it was built from. -/
theorem cached_pippengerInitCache {data : List (MultiexpData G)} {N : Nat}
    {cache : PippengerCachedData G} (built : pippengerInitCache data N = .ok cache) {i : Nat}
    (inside : i < cache.size) : cache.cached i = pointAt data i := by
  rw [pippengerInitCache] at built
  generalize (if N = 0 then data.length else N) = M at built
  split_ifs at built with fits
  cases built
  dsimp only at inside ⊢
  rw [foldl_update_range, if_pos inside]

/-- pippenger_init_cache(data) with `N = 0` covers all the data. -/
theorem pippengerInitCache_zero (data : List (MultiexpData G)) :
    ∃ cache, pippengerInitCache data 0 = .ok cache ∧ cache.size = data.length :=
  ⟨_, by rw [pippengerInitCache, if_pos rfl, if_pos le_rfl], rfl⟩

end Cache

/-! ## One window -/

section Window

variable {G : Type} [AddCommMonoid G] [DecidableEq G]

/-- The digit-weighted sum of the `2 ^ c` buckets. -/
def weighted (c : Nat) (buckets : Nat → G) : G := ∑ b ∈ range (2 ^ c), b • buckets b

variable {data : List (MultiexpData G)} {localCache : PippengerCachedData G}

/-- Point `i` joins the bucket of its digit: the weighted sum of the buckets grows by the point
times the digit, whether the bucket was empty, held points, or the digit is zero. -/
theorem partitionStep_spec
    (cachedOk : ∀ i < data.length, localCache.cached i = pointAt data i) (c k : Nat)
    (buckets : Nat → G) {i : Nat} (inside : i < data.length) :
    ∃ next, partitionStep data localCache c k buckets i = .ok next ∧
      weighted c next =
        weighted c buckets + bucketOf (data.getD i ⟨zero, 0⟩).scalar c k • pointAt data i := by
  have fits := bucketOf_lt (data.getD i ⟨zero, 0⟩).scalar c k
  unfold partitionStep
  dsimp only
  generalize bucketOf (data.getD i ⟨zero, 0⟩).scalar c k = d at fits ⊢
  by_cases empty : d = 0
  · refine ⟨buckets, by rw [if_pos empty]; rfl, ?_⟩
    rw [empty, zero_nsmul, add_zero]
  · rw [if_neg empty, if_pos (by rw [Nat.one_shiftLeft]; exact fits)]
    by_cases held : buckets d ≠ 0
    · -- `add(buckets[bucket], local_cache->cached[i])`
      refine ⟨_, by rw [if_pos held]; rfl, ?_⟩
      rw [cachedOk i inside, weighted, MultiScalar.sum_range_smul_update buckets fits, weighted]
    · -- the bucket takes the point itself
      refine ⟨_, by rw [if_neg held]; rfl, ?_⟩
      have same : pointAt data i = buckets d + pointAt data i := by
        rw [not_not.mp held, zero_add]
      rw [weighted, same, MultiScalar.sum_range_smul_update buckets fits, weighted, ← same]

/-- The partition loop over points `l` succeeds and adds every point times its digit to the
weighted sum of the buckets; the induction is on the points with the buckets generalised. -/
theorem foldlM_partitionStep
    (cachedOk : ∀ i < data.length, localCache.cached i = pointAt data i) (c k : Nat) :
    ∀ (l : List Nat), (∀ i ∈ l, i < data.length) → ∀ buckets : Nat → G,
      ∃ next, l.foldlM (partitionStep data localCache c k) buckets = .ok next ∧
        weighted c next = weighted c buckets +
          (l.map fun i => bucketOf (data.getD i ⟨zero, 0⟩).scalar c k • pointAt data i).sum
  | [], _, buckets => ⟨buckets, rfl, by rw [List.map_nil, List.sum_nil, add_zero]⟩
  | i :: l, inside, buckets => by
    obtain ⟨step, stepOk, stepSum⟩ :=
      partitionStep_spec cachedOk c k buckets (inside i List.mem_cons_self)
    obtain ⟨next, restOk, restSum⟩ := foldlM_partitionStep cachedOk c k l
      (fun j member => inside j (List.mem_cons_of_mem i member)) step
    refine ⟨next, ?_, ?_⟩
    · rw [List.foldlM_cons, stepOk]
      exact restOk
    · rw [restSum, stepSum, List.map_cons, List.sum_cons, add_assoc]

/-- The running total adds every bucket to the result as many times as its digit. -/
theorem sumBuckets_eq (buckets : Nat → G) (c : Nat) (result : G) :
    sumBuckets buckets c result = result + weighted c buckets := by
  -- the tests for the identity change no sum
  have step : (fun (state : G × G) i =>
      ((if buckets i ≠ 0 then state.1 + buckets i else state.1),
        if (if buckets i ≠ 0 then state.1 + buckets i else state.1) ≠ 0
        then state.2 + (if buckets i ≠ 0 then state.1 + buckets i else state.1)
        else state.2)) =
      fun (state : G × G) i => (state.1 + buckets i, state.2 + (state.1 + buckets i)) := by
    funext state i
    rw [add_unless_zero, add_unless_zero]
  have count : 2 ^ c = (2 ^ c - 1) + 1 := (Nat.sub_add_cancel (Nat.one_le_two_pow)).symm
  rw [sumBuckets, step, Nat.one_shiftLeft, MultiScalar.foldl_running_sum, smul_zero, add_zero,
    weighted, count, sum_range_succ', zero_nsmul, add_zero, Nat.add_sub_cancel]

/-- Doubling the result `c` times unless it is the identity multiplies it by `2 ^ c`. -/
theorem doubled_eq (c : Nat) (result : G) :
    (if result ≠ 0 then doubleTimes c result else result) = 2 ^ c • result := by
  by_cases identity : result = 0
  · rw [if_neg (not_not.mpr identity), identity, smul_zero]
  · rw [if_pos identity, doubleTimes_eq]

/-- One window is a step of Horner's rule in base `2 ^ c`: the result times `2 ^ c`, plus every
point times its scalar's digit in window `k`. -/
theorem pippengerGroup_eq (cachedOk : ∀ i < data.length, localCache.cached i = pointAt data i)
    (c : Nat) (result : G) (k : Nat) :
    pippengerGroup data localCache c result k =
      .ok (2 ^ c • result +
        (data.map fun d => (scalarValue d.scalar / (2 ^ c) ^ k % 2 ^ c) • d.point).sum) := by
  obtain ⟨buckets, partitioned, bucketSum⟩ := foldlM_partitionStep cachedOk c k
    (List.range data.length) (fun i member => List.mem_range.mp member) fun _ => 0
  have empty : weighted c (fun _ => (0 : G)) = 0 := by
    rw [weighted]
    exact sum_eq_zero fun b _ => smul_zero b
  have reindexed := Ringct.map_range_getD
    (fun d : MultiexpData G => (scalarValue d.scalar / (2 ^ c) ^ k % 2 ^ c) • d.point)
    ⟨zero, 0⟩ (le_refl data.length)
  simp only [List.take_length] at reindexed
  simp only [bucketOf_eq, pointAt] at bucketSum
  rw [pippengerGroup, doubled_eq, partitioned]
  show Except.ok (sumBuckets buckets c _) = Except.ok _
  rw [sumBuckets_eq, bucketSum, empty, zero_add, reindexed]

end Window

/-! ## Pippenger -/

section Main

variable {G : Type} [AddCommMonoid G] [DecidableEq G]

/-- Pippenger returns the encoding of the sum of the points times their scalars, for every window
width up to 9 (`0` picks get_pippenger_c's) and for the cache it builds or a cache that
pippenger_init_cache built over a vector of points that starts with the data's. -/
theorem pippenger_eq_basic (encode : G → Key) (data : List (MultiexpData G))
    (cache : Option (PippengerCachedData G)) (c : Nat) (window : c ≤ 9)
    (cached : ∀ cc, cache = some cc → ∃ base N, pippengerInitCache base N = .ok cc ∧
      (data.map (·.point)).IsPrefix (base.map (·.point)) ∧ data.length ≤ cc.size) :
    pippenger encode data cache c = .ok (encode (basic data)) := by
  have check : cache.all (fun cc => decide (data.length ≤ cc.size)) = true := by
    cases cache with
    | none => rfl
    | some cc =>
      obtain ⟨_, _, _, _, covered⟩ := cached cc rfl
      exact decide_eq_true covered
  -- the cache pippenger reads holds the data's own points
  obtain ⟨localCache, localOk, cachedOk⟩ : ∃ localCache,
      pippengerLocalCache data cache = Except.ok localCache ∧
      ∀ i < data.length, localCache.cached i = pointAt data i := by
    cases cache with
    | none =>
      obtain ⟨cc, built, sized⟩ := pippengerInitCache_zero data
      exact ⟨cc, built, fun i inside => cached_pippengerInitCache built (sized ▸ inside)⟩
    | some cc =>
      obtain ⟨base, N, built, starts, covered⟩ := cached cc rfl
      refine ⟨cc, rfl, fun i inside => ?_⟩
      rw [cached_pippengerInitCache built (Nat.lt_of_lt_of_le inside covered),
        pointAt_of_isPrefix starts inside]
  have width : 0 < (if c = 0 then getPippengerC data.length else c) ∧
      (if c = 0 then getPippengerC data.length else c) ≤ 9 := by
    split_ifs with default
    · exact ⟨getPippengerC_pos _, getPippengerC_le _⟩
    · exact ⟨Nat.pos_of_ne_zero default, window⟩
  have groups := groupsLoop_spec (maxScalar data) 0 (Nat.zero_le _)
  rw [pippenger, check, if_pos rfl]
  dsimp only
  rw [if_pos (decide_eq_true width.2), localOk]
  show Except.bind (List.foldlM _ 0 _) (fun result => Except.ok (encode result)) = _
  generalize (if c = 0 then getPippengerC data.length else c) = w at width ⊢
  generalize groupsLoop (maxScalar data) 0 = g at groups ⊢
  -- every window is a step of Horner's rule, so the loop over the windows is Horner's rule
  have horner : pippengerGroup data localCache w = fun result k =>
      pure (2 ^ w • result +
        (data.map fun d => (scalarValue d.scalar / (2 ^ w) ^ k % 2 ^ w) • d.point).sum) := by
    funext result k
    exact pippengerGroup_eq cachedOk w result k
  -- the windows reach every bit of every scalar
  have covers : g ≤ w * ((g + w - 1) / w) := by
    have split := Nat.div_add_mod (g + w - 1) w
    have rest := Nat.mod_lt (g + w - 1) width.1
    omega
  have small : ∀ d ∈ data, scalarValue d.scalar < (2 ^ w) ^ ((g + w - 1) / w) := by
    intro d member
    calc scalarValue d.scalar ≤ scalarValue (maxScalar data) := value_le_maxScalar member
      _ < 2 ^ g := groups.2
      _ ≤ 2 ^ (w * ((g + w - 1) / w)) := Nat.pow_le_pow_right (by norm_num) covers
      _ = (2 ^ w) ^ ((g + w - 1) / w) := Nat.pow_mul 2 w _
  have windows := MultiScalar.sum_range_smul_windows (2 ^ w) _ (fun d : MultiexpData G =>
    scalarValue d.scalar) (·.point) small
  beta_reduce at windows
  rw [horner, List.foldlM_pure, MultiScalar.foldl_horner, smul_zero, zero_add, windows]
  rfl

end Main

end GraftNetwork.Ringct.Multiexp

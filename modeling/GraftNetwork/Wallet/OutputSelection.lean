import Mathlib.Data.List.Perm.Basic
import Mathlib.Data.List.Sort

/-!
# Picking the least related output (wallet/wallet2.cpp)

`pop_best_value_from` chooses, among the unused outputs of a transfer, one whose largest
`get_output_relatedness` to the outputs already selected is least, and removes it from
`unused_indices` with `pop_index`, which moves the last index into its place. With `smallest` it
takes the first of those candidates with the least amount, otherwise the one a random draw
names; the draw is an input.

`get_output_relatedness` returns one of the `float`s `0.0f`, `0.2f`, `0.8f`, `0.9f` and `1.0f`,
and they are only compared with each other, so they are kept as tenths: `0`, `2`, `8`, `9`, `10`.

* `relatednessLoop_eq`: the inner loop computes `maxRelatedness`, the largest relatedness to a
  selected output; breaking at `1.0f` loses nothing, since nothing is more related.
* `candidatesLoop_eq`: the outer loop keeps exactly the positions whose relatedness is the least.
* `smallestIdx_spec`: the `smallest` loop finds the first candidate with the least amount.
* `popIndex_perm`: `pop_index` removes one occurrence of the index it returns.
* `pop_best_value_from_pops_least_related`: the whole selection, for every container, every
  non-empty list of unused indices, every selection and every draw.

An index outside the transfer container is undefined behaviour in the source; the model reads a
default transfer there, and nothing proved depends on which.
-/

namespace GraftNetwork.Wallet.OutputSelection

/-- The fields of `transfer_details` that the selection reads. -/
structure TransferDetails (H : Type) where
  txid : H
  blockHeight : UInt64
  amount : UInt64
deriving DecidableEq, Repr, Inhabited

variable {H : Type} [DecidableEq H] [Inhabited H]

/-- get_output_relatedness: outputs of one transaction are fully related, then outputs of one
block, of adjacent blocks and of blocks less than ten apart. `int dh` receives the 64-bit
difference of the heights, which keeps its low 32 bits, read as signed. -/
def getOutputRelatedness (td0 td1 : TransferDetails H) : Nat :=
  if td0.txid = td1.txid then 10
  else
    let dh : Int32 := (if td0.blockHeight > td1.blockHeight then td0.blockHeight - td1.blockHeight
      else td1.blockHeight - td0.blockHeight).toUInt32.toInt32
    if dh = 0 then 9
    else if dh = 1 then 8
    else if dh < 10 then 2
    else 0

/-- pop_index(vec, idx): the entry at `idx`, with the last entry moved into its place and the
vector shortened by one. An empty vector or an index out of range returns `T()` and changes
nothing. -/
def popIndex {α : Type} [Inhabited α] (vec : List α) (idx : Nat) : α × List α :=
  if vec = [] then (default, vec)
  else if inside : idx < vec.length then
    let res := vec[idx]
    let vec := if idx + 1 ≠ vec.length then vec.set idx (vec.getLastD default) else vec
    (res, vec.dropLast)
  else (default, vec)

/-- The inner loop of `pop_best_value_from` over `selected_transfers`: the largest relatedness of
the candidate to a selected transfer, from `relatedness`; it breaks once it reaches `1.0f`. -/
def relatednessLoop (transfers : List (TransferDetails H)) (candidate : TransferDetails H) :
    List Nat → Nat → Nat
  | [], relatedness => relatedness
  | i :: rest, relatedness =>
    let r := getOutputRelatedness candidate (transfers.getD i default)
    if r > relatedness then
      if r = 10 then r else relatednessLoop transfers candidate rest r
    else relatednessLoop transfers candidate rest relatedness

/-- The outer loop over `unused_indices` from position `n`, with the candidate positions and the
best relatedness so far. After a strict improvement the candidates are cleared and the new best
is equal to this relatedness, so this position is the one candidate. -/
def candidatesLoop (transfers : List (TransferDetails H)) (selectedTransfers : List Nat) :
    Nat → List Nat → List Nat → Nat → List Nat
  | _, [], candidates, _ => candidates
  | n, u :: rest, candidates, bestRelatedness =>
    let relatedness := relatednessLoop transfers (transfers.getD u default) selectedTransfers 0
    if relatedness < bestRelatedness then
      candidatesLoop transfers selectedTransfers (n + 1) rest [n] relatedness
    else if relatedness = bestRelatedness then
      candidatesLoop transfers selectedTransfers (n + 1) rest (candidates ++ [n]) bestRelatedness
    else candidatesLoop transfers selectedTransfers (n + 1) rest candidates bestRelatedness

/-- The amount of the transfer at candidate position `c` of `unused_indices`. -/
def candidateAmount (transfers : List (TransferDetails H)) (unusedIndices : List Nat) (c : Nat) :
    UInt64 :=
  (transfers.getD (unusedIndices.getD c 0) default).amount

/-- The `smallest` loop: `idx` moves to a candidate whose amount is strictly less. -/
def smallestIdx (transfers : List (TransferDetails H)) (unusedIndices candidates : List Nat) : Nat :=
  (List.range candidates.length).foldl (fun idx n =>
    if candidateAmount transfers unusedIndices (candidates.getD n 0) <
        candidateAmount transfers unusedIndices (candidates.getD idx 0) then n
    else idx) 0

/-- wallet2::pop_best_value_from, with `rand` the value of `crypto::rand<size_t>()`: the index
popped, and `unused_indices` after. -/
def popBestValueFrom (transfers : List (TransferDetails H)) (unusedIndices selectedTransfers : List Nat)
    (smallest : Bool) (rand : UInt64) : Nat × List Nat :=
  let candidates := candidatesLoop transfers selectedTransfers 0 unusedIndices [] 10
  let idx := if smallest then smallestIdx transfers unusedIndices candidates
    else rand.toNat % candidates.length
  popIndex unusedIndices (candidates.getD idx 0)

/-! ## The specification -/

/-- The largest relatedness of a candidate to the selected transfers, `0` when none is
selected. -/
def maxRelatedness (transfers : List (TransferDetails H)) (selectedTransfers : List Nat)
    (candidate : TransferDetails H) : Nat :=
  (selectedTransfers.map fun i => getOutputRelatedness candidate (transfers.getD i default)).foldr
    max 0

/-- The positions, counted from `n`, of the entries of `rest` whose value under `rel` is
`best`. -/
def positionsOf (rel : Nat → Nat) (best : Nat) (rest : List Nat) (n : Nat) : List Nat :=
  ((rest.zipIdx n).filter fun e => rel e.1 = best).map Prod.snd

/-- The largest relatedness of the output at index `u` of the container. -/
def indexRelatedness (transfers : List (TransferDetails H)) (selectedTransfers : List Nat) (u : Nat) :
    Nat :=
  maxRelatedness transfers selectedTransfers (transfers.getD u default)

/-! ## Relatedness -/

omit [Inhabited H] in
theorem getOutputRelatedness_le (td0 td1 : TransferDetails H) : getOutputRelatedness td0 td1 ≤ 10 := by
  simp only [getOutputRelatedness]
  split_ifs <;> omega

theorem maxRelatedness_cons (transfers : List (TransferDetails H)) (i : Nat) (rest : List Nat)
    (candidate : TransferDetails H) :
    maxRelatedness transfers (i :: rest) candidate =
      max (getOutputRelatedness candidate (transfers.getD i default))
        (maxRelatedness transfers rest candidate) := rfl

theorem maxRelatedness_le (transfers : List (TransferDetails H)) (candidate : TransferDetails H) :
    ∀ selectedTransfers, maxRelatedness transfers selectedTransfers candidate ≤ 10
  | [] => Nat.zero_le _
  | i :: rest => by
    rw [maxRelatedness_cons]
    have head := getOutputRelatedness_le candidate (transfers.getD i default)
    have tail := maxRelatedness_le transfers candidate rest
    omega

/-- The inner loop is the largest relatedness: the break at `1.0f` loses nothing, as no
relatedness is above it. -/
theorem relatednessLoop_eq (transfers : List (TransferDetails H)) (candidate : TransferDetails H) :
    ∀ selectedTransfers relatedness, relatedness ≤ 10 →
      relatednessLoop transfers candidate selectedTransfers relatedness =
        max relatedness (maxRelatedness transfers selectedTransfers candidate)
  | [], relatedness, _ => by
    rw [relatednessLoop, maxRelatedness, List.map_nil, List.foldr_nil, Nat.max_zero]
  | i :: rest, relatedness, atMost => by
    have head := getOutputRelatedness_le candidate (transfers.getD i default)
    have tail := maxRelatedness_le transfers candidate rest
    rw [relatednessLoop, maxRelatedness_cons]
    split
    · split
      · omega
      · rw [relatednessLoop_eq transfers candidate rest _ head]
        omega
    · rw [relatednessLoop_eq transfers candidate rest relatedness atMost]
      omega

/-! ## The candidates -/

theorem foldr_min_le_init (l : List Nat) (c : Nat) : l.foldr min c ≤ c := by
  induction l with
  | nil => exact Nat.le_refl c
  | cons x l ih =>
    rw [List.foldr_cons]
    omega

theorem foldr_min_le {l : List Nat} {x : Nat} (c : Nat) (mem : x ∈ l) : l.foldr min c ≤ x := by
  induction l with
  | nil => exact absurd mem List.not_mem_nil
  | cons y l ih =>
    rw [List.foldr_cons]
    rcases List.mem_cons.mp mem with rfl | later
    · exact Nat.min_le_left _ _
    · exact Nat.le_trans (Nat.min_le_right _ _) (ih later)

/-- Below a bound that every entry respects, the least entry is attained. -/
theorem foldr_min_mem {l : List Nat} {c : Nat} (nonEmpty : l ≠ []) (below : ∀ x ∈ l, x ≤ c) :
    l.foldr min c ∈ l := by
  induction l with
  | nil => exact absurd rfl nonEmpty
  | cons x l ih =>
    rw [List.foldr_cons]
    by_cases last : l = []
    · subst last
      rw [List.foldr_nil, Nat.min_eq_left (below x List.mem_cons_self)]
      exact List.mem_cons_self
    · have rest := ih last fun y mem => below y (List.mem_cons_of_mem x mem)
      rcases Nat.le_total x (l.foldr min c) with first | later
      · rw [Nat.min_eq_left first]
        exact List.mem_cons_self
      · rw [Nat.min_eq_right later]
        exact List.mem_cons_of_mem x rest

theorem foldr_min_init (l : List Nat) (a b : Nat) : l.foldr min (min a b) = min a (l.foldr min b) := by
  induction l with
  | nil => rfl
  | cons x l ih =>
    rw [List.foldr_cons, List.foldr_cons, ih]
    omega

theorem positionsOf_cons (rel : Nat → Nat) (best u : Nat) (rest : List Nat) (n : Nat) :
    positionsOf rel best (u :: rest) n =
      if rel u = best then n :: positionsOf rel best rest (n + 1)
      else positionsOf rel best rest (n + 1) := by
  unfold positionsOf
  rw [List.zipIdx_cons, List.filter_cons]
  split <;> simp_all

theorem mem_positionsOf {rel : Nat → Nat} {best p : Nat} {l : List Nat} :
    p ∈ positionsOf rel best l 0 ↔ ∃ inside : p < l.length, rel l[p] = best := by
  simp only [positionsOf, List.mem_map, List.mem_filter, List.mem_zipIdx_iff_getElem?,
    decide_eq_true_eq]
  constructor
  · rintro ⟨⟨u, q⟩, ⟨found, same⟩, rfl⟩
    obtain ⟨inside, entry⟩ := List.getElem?_eq_some_iff.mp found
    exact ⟨inside, entry ▸ same⟩
  · rintro ⟨inside, same⟩
    exact ⟨(l[p], p), ⟨List.getElem?_eq_getElem inside, same⟩, rfl⟩

/-- The positions come in increasing order. -/
theorem positionsOf_sorted (rel : Nat → Nat) (best : Nat) (l : List Nat) (n : Nat) :
    (positionsOf rel best l n).Pairwise (· < ·) := by
  have within : (positionsOf rel best l n).Sublist (List.range' n l.length) := by
    rw [← List.zipIdx_map_snd]
    exact (List.filter_sublist).map Prod.snd
  exact (List.pairwise_lt_range').sublist within

/-- The outer loop from position `n` keeps the candidates so far unless a later entry is less
related than the best so far, and adds the positions of the entries as related as the least. -/
theorem candidatesLoop_eq (transfers : List (TransferDetails H)) (selectedTransfers : List Nat) :
    ∀ (rest : List Nat) (n : Nat) (candidates : List Nat) (best : Nat),
      candidatesLoop transfers selectedTransfers n rest candidates best =
        (if (rest.map (indexRelatedness transfers selectedTransfers)).foldr min best < best then []
          else candidates) ++
        positionsOf (indexRelatedness transfers selectedTransfers)
          ((rest.map (indexRelatedness transfers selectedTransfers)).foldr min best) rest n
  | [], n, candidates, best => by
    simp [candidatesLoop, positionsOf]
  | u :: rest, n, candidates, best => by
    have computed : relatednessLoop transfers (transfers.getD u default) selectedTransfers 0 =
        indexRelatedness transfers selectedTransfers u := by
      rw [relatednessLoop_eq _ _ _ 0 (Nat.zero_le _), Nat.zero_max]
      rfl
    have least := foldr_min_le_init (rest.map (indexRelatedness transfers selectedTransfers)) best
    rw [candidatesLoop, computed, List.map_cons, List.foldr_cons, positionsOf_cons]
    split
    · -- a strict improvement: the least relatedness from here on starts from this one
      next better =>
      rw [candidatesLoop_eq transfers selectedTransfers rest (n + 1) [n], ← Nat.min_eq_left (Nat.le_of_lt better),
        foldr_min_init, Nat.min_eq_left (Nat.le_of_lt better)]
      split_ifs <;> first | omega | rfl
    · split
      · next notBetter same =>
        rw [candidatesLoop_eq transfers selectedTransfers rest (n + 1), same, Nat.min_eq_right least]
        split_ifs <;> first | omega | simp
      · next notBetter other =>
        rw [candidatesLoop_eq transfers selectedTransfers rest (n + 1), Nat.min_eq_right (by omega)]
        split_ifs <;> first | omega | rfl

/-! ## The smallest amount -/

/-- After the first `n` candidates, `idx` is one of them (candidate 0 before any), its amount is
the least so far, and every candidate before it has a larger amount. -/
theorem smallestLoop_spec (amount : Nat → UInt64) :
    ∀ n, (List.range n).foldl (fun idx m => if amount m < amount idx then m else idx) 0 < max n 1 ∧
      (∀ k < n, amount ((List.range n).foldl (fun idx m => if amount m < amount idx then m else idx) 0)
        ≤ amount k) ∧
      ∀ k < (List.range n).foldl (fun idx m => if amount m < amount idx then m else idx) 0,
        amount ((List.range n).foldl (fun idx m => if amount m < amount idx then m else idx) 0) <
          amount k
  | 0 => ⟨Nat.zero_lt_one, fun _ none => absurd none (Nat.not_lt_zero _),
      fun _ none => absurd none (Nat.not_lt_zero _)⟩
  | n + 1 => by
    obtain ⟨inside, least, first⟩ := smallestLoop_spec amount n
    rw [List.range_succ, List.foldl_append, List.foldl_cons, List.foldl_nil]
    generalize (List.range n).foldl (fun idx m => if amount m < amount idx then m else idx) 0 = idx
      at inside least first
    split
    · -- a strictly smaller amount: every candidate so far has a larger one
      next smaller =>
      refine ⟨by omega, fun k below => ?_, fun k before => ?_⟩
      · rcases Nat.lt_succ_iff_lt_or_eq.mp below with earlier | rfl
        · exact UInt64.le_of_lt (UInt64.lt_of_lt_of_le smaller (least k earlier))
        · exact UInt64.le_refl _
      · exact UInt64.lt_of_lt_of_le smaller (least k before)
    · next notSmaller =>
      refine ⟨by omega, fun k below => ?_, first⟩
      rcases Nat.lt_succ_iff_lt_or_eq.mp below with earlier | rfl
      · exact least k earlier
      · exact UInt64.not_lt.mp notSmaller

omit [DecidableEq H] in
/-- The `smallest` loop picks a candidate, with the least amount, and the first such. -/
theorem smallestIdx_spec (transfers : List (TransferDetails H)) (unusedIndices : List Nat)
    {candidates : List Nat} (nonEmpty : candidates ≠ []) :
    smallestIdx transfers unusedIndices candidates < candidates.length ∧
      (∀ k < candidates.length,
        candidateAmount transfers unusedIndices
            (candidates.getD (smallestIdx transfers unusedIndices candidates) 0) ≤
          candidateAmount transfers unusedIndices (candidates.getD k 0)) ∧
      ∀ k < smallestIdx transfers unusedIndices candidates,
        candidateAmount transfers unusedIndices
            (candidates.getD (smallestIdx transfers unusedIndices candidates) 0) <
          candidateAmount transfers unusedIndices (candidates.getD k 0) := by
  have positive : 0 < candidates.length := List.length_pos_iff.mpr nonEmpty
  obtain ⟨inside, least, first⟩ :=
    smallestLoop_spec (fun k => candidateAmount transfers unusedIndices (candidates.getD k 0))
      candidates.length
  exact ⟨by rw [Nat.max_eq_left positive] at inside; exact inside, least, first⟩

/-! ## `pop_index` -/

omit [DecidableEq H] [Inhabited H] in
/-- Moving the last entry into position `idx` and dropping the last is erasing position `idx`, up
to order. -/
theorem set_getLast_dropLast_perm {α : Type} [Inhabited α] {vec : List α} {idx : Nat}
    (inside : idx + 1 < vec.length) :
    (vec.set idx (vec.getLastD default)).dropLast.Perm (vec.eraseIdx idx) := by
  obtain ⟨init, last, rfl⟩ : ∃ init last, vec = init ++ [last] := by
    rcases List.eq_nil_or_concat vec with empty | ⟨init, last, rfl⟩
    · subst empty
      exact absurd inside (by simp)
    · exact ⟨init, last, List.concat_eq_append⟩
  rw [List.length_append, List.length_singleton] at inside
  rw [List.getLastD_eq_getLast?, List.getLast?_concat, Option.getD_some,
    List.set_append_left _ _ (by omega), List.dropLast_concat,
    List.eraseIdx_append_of_lt_length (by omega), List.set_eq_take_cons_drop _ (by omega),
    List.eraseIdx_eq_take_drop_succ]
  -- the last entry moves from the end to the gap
  exact List.perm_middle.trans (List.perm_append_singleton _ _).symm

omit [DecidableEq H] [Inhabited H] in
/-- `pop_index` at a position in range returns its entry and removes one occurrence of it. -/
theorem popIndex_perm {α : Type} [DecidableEq α] [Inhabited α] {vec : List α} {idx : Nat}
    (inside : idx < vec.length) :
    (popIndex vec idx).1 = vec[idx] ∧ (popIndex vec idx).2.Perm (vec.erase vec[idx]) := by
  have nonEmpty : vec ≠ [] := List.ne_nil_of_length_pos (Nat.lt_of_le_of_lt (Nat.zero_le _) inside)
  -- erasing the position is erasing the first occurrence of its entry, up to order
  have erased : (vec.eraseIdx idx).Perm (vec.erase vec[idx]) :=
    ((List.getElem_cons_eraseIdx_perm inside).trans
      (List.perm_cons_erase (List.getElem_mem inside))).cons_inv
  unfold popIndex
  rw [if_neg nonEmpty, dif_pos inside]
  refine ⟨rfl, ?_⟩
  dsimp only
  split
  · next notLast => exact (set_getLast_dropLast_perm (by omega)).trans erased
  · next last =>
    have dropped : vec.dropLast = vec.eraseIdx idx := by
      rw [show idx = vec.length - 1 by omega, List.eraseIdx_length_sub_one]
    rw [dropped]
    exact erased

/-! ## `pop_best_value_from` -/

omit [DecidableEq H] [Inhabited H] in
theorem getD_of_lt {α : Type} {l : List α} {i : Nat} (inside : i < l.length) (d : α) :
    l.getD i d = l[i] := by
  rw [List.getD_eq_getElem?_getD, List.getElem?_eq_getElem inside, Option.getD_some]

/-- The candidates are the positions of the least related unused outputs. -/
theorem candidates_eq (transfers : List (TransferDetails H)) (unusedIndices selectedTransfers : List Nat) :
    candidatesLoop transfers selectedTransfers 0 unusedIndices [] 10 =
      positionsOf (indexRelatedness transfers selectedTransfers)
        ((unusedIndices.map (indexRelatedness transfers selectedTransfers)).foldr min 10)
        unusedIndices 0 := by
  rw [candidatesLoop_eq, ite_self, List.nil_append]

/-- Some unused output is as little related as the least: relatedness never exceeds `1.0f`, the
best relatedness the loop starts from. -/
theorem least_attained (transfers : List (TransferDetails H)) {unusedIndices : List Nat}
    (selectedTransfers : List Nat) (nonEmpty : unusedIndices ≠ []) :
    ∃ p, ∃ inside : p < unusedIndices.length,
      indexRelatedness transfers selectedTransfers unusedIndices[p] =
        (unusedIndices.map (indexRelatedness transfers selectedTransfers)).foldr min 10 := by
  have attained := foldr_min_mem (l := unusedIndices.map (indexRelatedness transfers selectedTransfers))
      (c := 10) (List.map_eq_nil_iff.not.mpr nonEmpty) fun r mem => by
    obtain ⟨u, -, rfl⟩ := List.mem_map.mp mem
    exact maxRelatedness_le transfers _ selectedTransfers
  obtain ⟨u, mem, least⟩ := List.mem_map.mp attained
  obtain ⟨p, inside, rfl⟩ := List.getElem_of_mem mem
  exact ⟨p, inside, least⟩

/-- pop_best_value_from returns an unused index, at some position `p`, and removes one occurrence
of it; its output is as little related to the selected outputs as any unused output, and with
`smallest` it has the least amount of those as little related, every earlier one having a larger
amount. -/
theorem pop_best_value_from_pops_least_related {transfers : List (TransferDetails H)}
    {unusedIndices selectedTransfers : List Nat} {smallest : Bool} {rand : UInt64} {x : Nat}
    {rest : List Nat} (nonEmpty : unusedIndices ≠ [])
    (popped : popBestValueFrom transfers unusedIndices selectedTransfers smallest rand = (x, rest)) :
    ∃ p, ∃ inside : p < unusedIndices.length, unusedIndices[p] = x ∧
      rest.Perm (unusedIndices.erase x) ∧
      (∀ u ∈ unusedIndices, maxRelatedness transfers selectedTransfers (transfers.getD x default) ≤
        maxRelatedness transfers selectedTransfers (transfers.getD u default)) ∧
      (smallest = true → ∀ (q : Nat) (atQ : q < unusedIndices.length),
        maxRelatedness transfers selectedTransfers (transfers.getD unusedIndices[q] default) =
            maxRelatedness transfers selectedTransfers (transfers.getD x default) →
          (transfers.getD x default).amount ≤ (transfers.getD unusedIndices[q] default).amount ∧
            (q < p → (transfers.getD x default).amount <
              (transfers.getD unusedIndices[q] default).amount)) := by
  have exact := candidates_eq transfers unusedIndices selectedTransfers
  obtain ⟨p0, inside0, attained⟩ := least_attained transfers selectedTransfers nonEmpty
  unfold popBestValueFrom at popped
  dsimp only at popped
  generalize candidatesLoop transfers selectedTransfers 0 unusedIndices [] 10 = candidates
    at exact popped
  generalize leastDef : (unusedIndices.map (indexRelatedness transfers selectedTransfers)).foldr
    min 10 = least at exact attained
  -- the candidates are the positions of the least related outputs, in increasing order
  have member : ∀ {q}, q ∈ candidates ↔ ∃ inside : q < unusedIndices.length,
      indexRelatedness transfers selectedTransfers unusedIndices[q] = least := by
    rw [exact]
    exact mem_positionsOf
  have sorted : candidates.Pairwise (· < ·) := exact ▸ positionsOf_sorted _ _ _ _
  have nonEmptyCandidates : candidates ≠ [] := List.ne_nil_of_mem (member.mpr ⟨inside0, attained⟩)
  -- the draw, or the `smallest` loop, names a candidate
  generalize drawn : (if smallest then smallestIdx transfers unusedIndices candidates
    else rand.toNat % candidates.length) = idx at popped
  have idxInside : idx < candidates.length := by
    rw [← drawn]
    split
    · exact (smallestIdx_spec transfers unusedIndices nonEmptyCandidates).1
    · exact Nat.mod_lt _ (List.length_pos_iff.mpr nonEmptyCandidates)
  rw [getD_of_lt idxInside] at popped
  obtain ⟨pInside, pLeast⟩ := member.mp (List.getElem_mem idxInside)
  obtain ⟨value, perm⟩ := popIndex_perm pInside
  simp only [popped] at value perm
  subst value
  refine ⟨candidates[idx], pInside, rfl, perm, fun u mem => ?_, fun small q atQ sameRel => ?_⟩
  · -- no unused output is less related than the least
    show indexRelatedness transfers selectedTransfers _ ≤ indexRelatedness transfers selectedTransfers u
    rw [pLeast, ← leastDef]
    exact foldr_min_le 10 (List.mem_map_of_mem mem)
  · -- an output as little related is a candidate, and the loop compared their amounts
    obtain ⟨k, kInside, rfl⟩ := List.getElem_of_mem (member.mpr ⟨atQ, sameRel.trans pLeast⟩)
    obtain ⟨-, leastAmount, first⟩ := smallestIdx_spec transfers unusedIndices nonEmptyCandidates
    have isSmallest : smallestIdx transfers unusedIndices candidates = idx := by
      rw [← drawn, if_pos small]
    rw [isSmallest] at leastAmount first
    have amountAt : ∀ j (inside : j < candidates.length) (valid : candidates[j] < unusedIndices.length),
        candidateAmount transfers unusedIndices (candidates.getD j 0) =
          (transfers.getD unusedIndices[candidates[j]] default).amount := fun j inside valid => by
      rw [candidateAmount, getD_of_lt inside, getD_of_lt valid]
    have leastHere := leastAmount k kInside
    rw [amountAt idx idxInside pInside, amountAt k kInside atQ] at leastHere
    refine ⟨leastHere, fun before => ?_⟩
    -- the candidates increase, so an earlier position is an earlier candidate
    have earlier : k < idx := by
      by_contra notEarlier
      rcases Nat.lt_or_eq_of_le (Nat.le_of_not_lt notEarlier) with later | same
      · have := List.pairwise_iff_getElem.mp sorted idx k idxInside kInside later
        omega
      · subst same
        omega
    have firstHere := first k earlier
    rwa [amountAt idx idxInside pInside, amountAt k kInside atQ] at firstHere

/-- Output 1 shares the selected output's transaction and output 2 is in the next block; outputs
3 and 4 are unrelated, and output 4 has the smaller amount. -/
theorem pop_best_value_from_skips_related_outputs :
    popBestValueFrom ([⟨10, 100, 5⟩, ⟨10, 100, 7⟩, ⟨11, 101, 9⟩, ⟨12, 200, 4⟩, ⟨13, 300, 3⟩] :
        List (TransferDetails Nat)) [3, 1, 4, 2] [0] true 0 = (4, [3, 1, 2]) ∧
      ∃ p, ∃ inside : p < [3, 1, 4, 2].length, [3, 1, 4, 2][p] = 4 ∧
        [3, 1, 2].Perm ([3, 1, 4, 2].erase 4) := by
  have popped : popBestValueFrom ([⟨10, 100, 5⟩, ⟨10, 100, 7⟩, ⟨11, 101, 9⟩, ⟨12, 200, 4⟩,
      ⟨13, 300, 3⟩] : List (TransferDetails Nat)) [3, 1, 4, 2] [0] true 0 = (4, [3, 1, 2]) := by
    decide
  refine ⟨popped, ?_⟩
  obtain ⟨p, inside, found, perm, -⟩ := pop_best_value_from_pops_least_related (by decide) popped
  exact ⟨p, inside, found, perm⟩

end GraftNetwork.Wallet.OutputSelection

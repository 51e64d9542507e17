import GraftNetwork.Ringct.Multiexp.Straus
import GraftNetwork.Ringct.Multiexp.Pippenger

/-!
# Bos-Coster

`bos_coster_heap_conv_robust` (multiexp.cc) keeps the entries whose scalar and point are not zero
in a heap ordered by scalar. While two entries remain, it takes out the two largest, halves the
larger one and doubles its point while the other is below its half (an odd scalar leaves a new
entry `1 • P` in the heap), adds the larger one's point to the other's, subtracts the other's
scalar from the larger's, and puts back the larger one, unless its scalar became zero, and the
other one. The last entry is multiplied out.

At the top of every pass the heap holds distinct entries with nonzero scalars below `L` whose
multiples add up to the sum of the data's; each pass lowers the total of the heap's scalars by
the second scalar, so the loop ends.

* `popHeap_spec`: a pop takes out an index with a largest scalar.
* `halveLoop_spec`: the halving keeps the sum and does not raise the total.
* `bosCosterStep_spec`: a pass keeps the invariant and the sum and lowers the total.
* `bosCosterLoop_spec`: with more fuel than the total, the loop ends with one entry, which holds
  the sum.
* `bosCosterHeapConvRobust_eq_basic`: the encoding of the sum of the multiples, for non-empty data
  with scalars below `L`.
-/

namespace GraftNetwork.Ringct.Multiexp

open GraftNetwork.Serialization (Key)

/-! ## Lists written in place -/

theorem getD_set_self {α : Type} (l : List α) (x d : α) {i : Nat} (inside : i < l.length) :
    (l.set i x).getD i d = x := by
  rw [List.getD_eq_getElem?_getD, List.getElem?_set_self inside, Option.getD_some]

theorem getD_set_ne {α : Type} (l : List α) (x d : α) {i j : Nat} (apart : i ≠ j) :
    (l.set i x).getD j d = l.getD j d := by
  rw [List.getD_eq_getElem?_getD, List.getElem?_set_ne apart, ← List.getD_eq_getElem?_getD]

theorem getD_append_length {α : Type} (l : List α) (x d : α) : (l ++ [x]).getD l.length d = x := by
  rw [List.getD_append_right _ _ _ _ le_rfl, Nat.sub_self, List.getD_cons_zero]

section BosCoster

variable {G : Type} [AddCommMonoid G]

/-- `data[e].scalar`. -/
def scalarAt (data : List (MultiexpData G)) (e : Nat) : Key := (data.getD e ⟨zero, 0⟩).scalar

/-- std::push_heap after heap.push_back(e): the heap, as the multiset of its indices, gains `e`. -/
def pushHeap (heap : List Nat) (e : Nat) : List Nat := heap ++ [e]

/-- The index that `Comp` ranks highest among `top` and `rest`, the first one on ties. -/
def heapTop (data : List (MultiexpData G)) (top : Nat) (rest : List Nat) : Nat :=
  rest.foldl (fun best e => if keyLess (scalarAt data best) (scalarAt data e) then e else best) top

/-- std::pop_heap, heap.back() and heap.pop_back(): an index whose scalar is largest leaves the
heap. The standard fixes no more than that; of several largest scalars the model takes the
first. -/
def popHeap (data : List (MultiexpData G)) : List Nat → Nat × List Nat
  | [] => (0, [])
  | e :: rest => (heapTop data e rest, (e :: rest).erase (heapTop data e rest))

/-- One pass of the halving loop on `index1`: an odd scalar leaves a new entry `1 • P` whose index
joins the heap (`data.resize`), then the scalar is halved (div2) and the point doubled
(ge_p2_dbl). -/
def halveStep (index1 : Nat) (data : List (MultiexpData G)) (heap : List Nat) :
    List (MultiexpData G) × List Nat :=
  let s1 := scalarAt data index1
  let P1 := pointAt data index1
  if s1.bytes.getD 0 0 &&& 1 ≠ 0 then
    ((data ++ [MultiexpData.mk identity P1]).set index1 ⟨div2 s1, P1 + P1⟩,
      pushHeap heap data.length)
  else (data.set index1 ⟨div2 s1, P1 + P1⟩, heap)

/-- An index past the data reads the zero scalar. -/
theorem lt_length_of_pos {data : List (MultiexpData G)} {e : Nat}
    (positive : 0 < scalarValue (scalarAt data e)) : e < data.length := by
  by_contra outside
  rw [scalarAt, List.getD_eq_default _ _ (Nat.le_of_not_lt outside), scalarValue_zero] at positive
  exact Nat.lt_irrefl 0 positive

theorem halveStep_self {index1 : Nat} {data : List (MultiexpData G)} (heap : List Nat)
    (inside : index1 < data.length) :
    (halveStep index1 data heap).1.getD index1 ⟨zero, 0⟩ =
      ⟨div2 (scalarAt data index1), pointAt data index1 + pointAt data index1⟩ := by
  dsimp only [halveStep]
  split_ifs
  · exact getD_set_self _ _ _ (by rw [List.length_append]; omega)
  · exact getD_set_self _ _ _ inside

/-- A halving pass runs only while the half of the scalar is above another scalar, so the scalar
is positive and its half smaller: the measure of the halving loop. -/
theorem halveStep_decreases {index1 : Nat} {data : List (MultiexpData G)} {heap : List Nat}
    {s2 : Key} (below : keyLess s2 (div2 (scalarAt data index1)) = true) :
    scalarValue (scalarAt (halveStep index1 data heap).1 index1) <
      scalarValue (scalarAt data index1) := by
  have half := (keyLess_iff _ _).mp below
  rw [value_div2] at half
  have positive : 0 < scalarValue (scalarAt data index1) := by omega
  rw [scalarAt, halveStep_self heap (lt_length_of_pos positive)]
  show scalarValue (div2 _) < _
  rw [value_div2]
  omega

/-- The halving loop, `while (1) { if (!(data[index2].scalar < div2(data[index1].scalar)))
break; ... }`. -/
def halveLoop (index1 index2 : Nat) (data : List (MultiexpData G)) (heap : List Nat) :
    List (MultiexpData G) × List Nat :=
  if _below : keyLess (scalarAt data index2) (div2 (scalarAt data index1)) then
    halveLoop index1 index2 (halveStep index1 data heap).1 (halveStep index1 data heap).2
  else (data, heap)
termination_by scalarValue (scalarAt data index1)
decreasing_by exact halveStep_decreases (by assumption)

/-- The end of a pass: `data[index2].point` gains `data[index1].point` (ge_add), sc_sub takes
`index2`'s scalar off `index1`'s, and `index1`, unless its scalar is now zero, and `index2` go
back into the heap. -/
def settle (index1 index2 : Nat) (data : List (MultiexpData G)) (heap : List Nat) :
    List (MultiexpData G) × List Nat :=
  let added := data.set index2 ⟨scalarAt data index2, pointAt data index2 + pointAt data index1⟩
  let data := added.set index1
    ⟨scSub (scalarAt added index1) (scalarAt added index2), pointAt added index1⟩
  let heap := if scalarAt data index1 ≠ zero then pushHeap heap index1 else heap
  (data, pushHeap heap index2)

/-- One pass of the while loop. -/
def bosCosterStep (data : List (MultiexpData G)) (heap : List Nat) :
    List (MultiexpData G) × List Nat :=
  let index1 := (popHeap data heap).1
  let index2 := (popHeap data (popHeap data heap).2).1
  let halved := halveLoop index1 index2 data (popHeap data (popHeap data heap).2).2
  settle index1 index2 halved.1 halved.2

/-- `while (heap.size() > 1)` for `fuel` passes at most; `none` when the fuel ran out. -/
def bosCosterLoop : Nat → List (MultiexpData G) → List Nat →
    Option (List (MultiexpData G) × List Nat)
  | 0, _, _ => none
  | fuel + 1, data, heap =>
    if 1 < heap.length then
      bosCosterLoop fuel (bosCosterStep data heap).1 (bosCosterStep data heap).2
    else some (data, heap)

/-- The last entry of the heap multiplied out: ge_scalarmult as the scalar's value times the
point, and ge_tobytes as `encode`. -/
def scalarmultTop (encode : G → Key) (data : List (MultiexpData G)) (heap : List Nat) : Key :=
  encode (scalarValue (scalarAt data (popHeap data heap).1) • pointAt data (popHeap data heap).1)

variable [DecidableEq G]

/-- The setup loop: the indices of the entries whose scalar is not zero and whose point is not
the point at infinity. -/
def initialHeap (data : List (MultiexpData G)) : List Nat :=
  (List.range data.length).filter fun n => scalarAt data n ≠ zero ∧ pointAt data n ≠ 0

/-- bos_coster_heap_conv_robust(data). The C++ loop has no bound; the model runs it for one pass
more than the total of the scalars, which `bosCosterLoop_spec` shows to be enough, since every
pass lowers the total of the heap's scalars. -/
def bosCosterHeapConvRobust (encode : G → Key) (data : List (MultiexpData G)) :
    Except String Key :=
  if 0 < data.length then
    let heap := initialHeap data
    if heap.length = 0 then pure identity
    else if heap.length < 2 then pure (scalarmultTop encode data heap)
    else
      match bosCosterLoop ((data.map fun d => scalarValue d.scalar).sum + 1) data heap with
      | some (data, heap) => pure (scalarmultTop encode data heap)
      | none => throw "out of fuel"
  else throw "Not enough points"

end BosCoster

/-! ## The heap -/

section Heap

variable {G : Type} [AddCommMonoid G]

/-- `data[e].scalar * data[e].point`. -/
def term (data : List (MultiexpData G)) (e : Nat) : G :=
  scalarValue (scalarAt data e) • pointAt data e

/-- The sum of the multiples of the heap's entries. -/
def heapSum (data : List (MultiexpData G)) (heap : List Nat) : G := (heap.map (term data)).sum

/-- The total of the heap's scalars, the measure of the while loop. -/
def heapTotal (data : List (MultiexpData G)) (heap : List Nat) : Nat :=
  (heap.map fun e => scalarValue (scalarAt data e)).sum

/-- The scan keeps the larger scalar, so it ends at an index of the list with a largest scalar.
The induction is on the rest of the list, from the larger of the first two. -/
theorem heapTop_spec (data : List (MultiexpData G)) : ∀ (rest : List Nat) (top : Nat),
    heapTop data top rest ∈ top :: rest ∧
      ∀ e ∈ top :: rest,
        scalarValue (scalarAt data e) ≤ scalarValue (scalarAt data (heapTop data top rest))
  | [], top => by
    rw [heapTop, List.foldl_nil]
    exact ⟨List.mem_singleton_self top, fun e member => by rw [List.mem_singleton.mp member]⟩
  | e :: rest, top => by
    have step : heapTop data top (e :: rest) =
        heapTop data (if keyLess (scalarAt data top) (scalarAt data e) then e else top) rest := by
      rw [heapTop, List.foldl_cons, heapTop]
    obtain ⟨best, chosen, aboveTop, aboveE⟩ : ∃ best,
        (if keyLess (scalarAt data top) (scalarAt data e) then e else top) = best ∧
        scalarValue (scalarAt data top) ≤ scalarValue (scalarAt data best) ∧
        scalarValue (scalarAt data e) ≤ scalarValue (scalarAt data best) := by
      by_cases less : keyLess (scalarAt data top) (scalarAt data e) = true
      · have larger := (keyLess_iff _ _).mp less
        exact ⟨e, if_pos less, by omega, le_rfl⟩
      · have notLarger := mt (keyLess_iff _ _).mpr less
        exact ⟨top, if_neg less, le_rfl, by omega⟩
    have fromPair : best = top ∨ best = e := by
      rw [← chosen]
      split_ifs
      · exact Or.inr rfl
      · exact Or.inl rfl
    obtain ⟨found, largest⟩ := heapTop_spec data rest best
    rw [step, chosen]
    refine ⟨?_, fun x member => ?_⟩
    · rcases List.mem_cons.mp found with here | later
      · rcases fromPair with isTop | isE
        · rw [here, isTop]
          exact List.mem_cons_self
        · rw [here, isE]
          exact List.mem_cons_of_mem top List.mem_cons_self
      · exact List.mem_cons_of_mem top (List.mem_cons_of_mem e later)
    · have atBest := largest best List.mem_cons_self
      rcases List.mem_cons.mp member with isTop | other
      · rw [isTop]
        omega
      · rcases List.mem_cons.mp other with isE | later
        · rw [isE]
          omega
        · exact largest x (List.mem_cons_of_mem best later)

/-- A pop takes out an index of the heap with a largest scalar and leaves the others. -/
theorem popHeap_spec (data : List (MultiexpData G)) {heap : List Nat} (nonempty : heap ≠ []) :
    (popHeap data heap).1 ∈ heap ∧ (popHeap data heap).2 = heap.erase (popHeap data heap).1 ∧
      ∀ e ∈ heap,
        scalarValue (scalarAt data e) ≤ scalarValue (scalarAt data (popHeap data heap).1) := by
  cases heap with
  | nil => exact absurd rfl nonempty
  | cons top rest =>
    obtain ⟨found, largest⟩ := heapTop_spec data rest top
    exact ⟨found, rfl, largest⟩

theorem heapSum_pushHeap (data : List (MultiexpData G)) (heap : List Nat) (e : Nat) :
    heapSum data (pushHeap heap e) = heapSum data heap + term data e := by
  rw [heapSum, pushHeap, List.map_append, List.sum_append, List.map_singleton,
    List.sum_singleton, heapSum]

theorem heapTotal_pushHeap (data : List (MultiexpData G)) (heap : List Nat) (e : Nat) :
    heapTotal data (pushHeap heap e) = heapTotal data heap + scalarValue (scalarAt data e) := by
  rw [heapTotal, pushHeap, List.map_append, List.sum_append, List.map_singleton,
    List.sum_singleton, heapTotal]

theorem mem_pushHeap {heap : List Nat} {e x : Nat} : x ∈ pushHeap heap e ↔ x ∈ heap ∨ x = e := by
  rw [pushHeap, List.mem_append, List.mem_singleton]

theorem nodup_pushHeap {heap : List Nat} {e : Nat} (nodup : heap.Nodup) (fresh : e ∉ heap) :
    (pushHeap heap e).Nodup := by
  rw [pushHeap, ← List.concat_eq_append]
  exact nodup.concat fresh

/-- Entries that agree on the heap give it the same sum and the same total. -/
theorem heap_congr {data data' : List (MultiexpData G)} {heap : List Nat}
    (same : ∀ e ∈ heap, data'.getD e ⟨zero, 0⟩ = data.getD e ⟨zero, 0⟩) :
    heapSum data' heap = heapSum data heap ∧ heapTotal data' heap = heapTotal data heap := by
  constructor
  · exact congrArg List.sum (List.map_congr_left fun e member => by
      rw [term, term, scalarAt, scalarAt, pointAt, pointAt, same e member])
  · exact congrArg List.sum (List.map_congr_left fun e member => by
      rw [scalarAt, scalarAt, same e member])

/-- The heap at the top of the while loop: distinct indices of entries whose scalars are nonzero
and below `L`. -/
structure HeapInv (data : List (MultiexpData G)) (heap : List Nat) : Prop where
  nodup : heap.Nodup
  positive : ∀ e ∈ heap, 0 < scalarValue (scalarAt data e)
  reduced : ∀ e ∈ heap, scalarValue (scalarAt data e) < L

theorem HeapInv.congr {data data' : List (MultiexpData G)} {heap : List Nat}
    (inv : HeapInv data heap)
    (same : ∀ e ∈ heap, data'.getD e ⟨zero, 0⟩ = data.getD e ⟨zero, 0⟩) : HeapInv data' heap :=
  ⟨inv.nodup, fun e member => by rw [scalarAt, same e member]; exact inv.positive e member,
    fun e member => by rw [scalarAt, same e member]; exact inv.reduced e member⟩

/-- Between the pops and the pushes: the heap without the two popped indices, the larger scalar
first, both nonzero and below `L`. -/
structure Popped (data : List (MultiexpData G)) (heap : List Nat) (index1 index2 : Nat) :
    Prop where
  inv : HeapInv data heap
  distinct : index1 ≠ index2
  out1 : index1 ∉ heap
  out2 : index2 ∉ heap
  positive2 : 0 < scalarValue (scalarAt data index2)
  ordered : scalarValue (scalarAt data index2) ≤ scalarValue (scalarAt data index1)
  reduced1 : scalarValue (scalarAt data index1) < L

/-- What the halving keeps from `(data, heap)` to `(data', heap')`: the popped pair's invariant,
the entry of `index2`, the sum with the multiple of `index1`, and a total with the scalar of
`index1` that is no larger. -/
structure Halved (data : List (MultiexpData G)) (heap : List Nat)
    (data' : List (MultiexpData G)) (heap' : List Nat) (index1 index2 : Nat) : Prop where
  popped : Popped data' heap' index1 index2
  second : data'.getD index2 ⟨zero, 0⟩ = data.getD index2 ⟨zero, 0⟩
  sum : heapSum data' heap' + term data' index1 = heapSum data heap + term data index1
  total : heapTotal data' heap' + scalarValue (scalarAt data' index1) ≤
    heapTotal data heap + scalarValue (scalarAt data index1)

theorem Halved.refl {data : List (MultiexpData G)} {heap : List Nat} {index1 index2 : Nat}
    (popped : Popped data heap index1 index2) : Halved data heap data heap index1 index2 :=
  ⟨popped, rfl, rfl, le_rfl⟩

theorem Halved.trans {data data' data'' : List (MultiexpData G)} {heap heap' heap'' : List Nat}
    {index1 index2 : Nat} (first : Halved data heap data' heap' index1 index2)
    (next : Halved data' heap' data'' heap'' index1 index2) :
    Halved data heap data'' heap'' index1 index2 :=
  ⟨next.popped, next.second.trans first.second, next.sum.trans first.sum,
    next.total.trans first.total⟩

/-! ## The halving loop -/

/-- Halving a scalar and doubling the point, with the odd unit apart, keeps the multiple. -/
theorem halve_nsmul (v : Nat) (P : G) : (v % 2) • P + (v / 2) • (P + P) = v • P := by
  rw [← two_nsmul, ← mul_nsmul', ← add_nsmul, Nat.mod_add_div']

/-- A byte test of the lowest bit: `bytes[0] & 1` is the parity of the value. -/
theorem odd_iff (k : Key) : k.bytes.getD 0 0 &&& 1 ≠ 0 ↔ scalarValue k % 2 = 1 := by
  have bit := test_ne_zero_iff k 0
  rw [Nat.pow_zero, Nat.div_one] at bit
  rw [← bit, test, if_neg (by norm_num), ne_eq, ne_eq, ← UInt8.toNat_inj, UInt8.toNat_and]
  rfl

/-- The halving pass leaves the other entries of the data as they were. -/
theorem halveStep_frame {index1 : Nat} {data : List (MultiexpData G)} (heap : List Nat)
    {e : Nat} (apart : index1 ≠ e) (inside : e < data.length) :
    (halveStep index1 data heap).1.getD e ⟨zero, 0⟩ = data.getD e ⟨zero, 0⟩ := by
  dsimp only [halveStep]
  split_ifs
  · rw [getD_set_ne _ _ _ apart, List.getD_append _ _ _ _ inside]
  · rw [getD_set_ne _ _ _ apart]

variable {data : List (MultiexpData G)} {heap : List Nat} {index1 index2 : Nat}

/-- One halving pass from a popped pair whose second scalar is below half the first. The new
entry of an odd scalar sits past the data, out of the way of every index in use. -/
theorem halveStep_spec (popped : Popped data heap index1 index2)
    (below : keyLess (scalarAt data index2) (div2 (scalarAt data index1)) = true) :
    Halved data heap (halveStep index1 data heap).1 (halveStep index1 data heap).2
      index1 index2 := by
  have half := (keyLess_iff _ _).mp below
  rw [value_div2] at half
  have inside1 : index1 < data.length := lt_length_of_pos (by omega)
  have inside2 : index2 < data.length := lt_length_of_pos popped.positive2
  have members : ∀ e ∈ heap, e < data.length ∧ index1 ≠ e := fun e member =>
    ⟨lt_length_of_pos (popped.inv.positive e member),
      fun same => popped.out1 (same ▸ member)⟩
  have kept : ∀ e ∈ heap, (halveStep index1 data heap).1.getD e ⟨zero, 0⟩ = data.getD e ⟨zero, 0⟩ :=
    fun e member => halveStep_frame heap (members e member).2 (members e member).1
  have second := halveStep_frame heap popped.distinct inside2
  have self := halveStep_self heap inside1
  have halfValue : scalarValue (scalarAt (halveStep index1 data heap).1 index1) =
      scalarValue (scalarAt data index1) / 2 := by
    rw [scalarAt, self]
    exact value_div2 _
  have halfTerm : term (halveStep index1 data heap).1 index1 =
      (scalarValue (scalarAt data index1) / 2) • (pointAt data index1 + pointAt data index1) := by
    rw [term, halfValue, pointAt, self]
  have secondValue : scalarAt (halveStep index1 data heap).1 index2 = scalarAt data index2 := by
    rw [scalarAt, second, scalarAt]
  obtain ⟨sameSum, sameTotal⟩ := heap_congr kept
  have reducedHalf : scalarValue (scalarAt data index1) / 2 < L := by
    have := popped.reduced1
    omega
  by_cases odd : (scalarAt data index1).bytes.getD 0 0 &&& 1 ≠ 0
  · -- the new entry `1 • P1` joins the heap at index `data.length`
    have parity := (odd_iff _).mp odd
    have grown : (halveStep index1 data heap).2 = pushHeap heap data.length := by
      dsimp only [halveStep]
      rw [if_pos odd]
    have fresh : (halveStep index1 data heap).1.getD data.length ⟨zero, 0⟩ =
        ⟨identity, pointAt data index1⟩ := by
      dsimp only [halveStep]
      rw [if_pos odd, getD_set_ne _ _ _ (Nat.ne_of_lt inside1), getD_append_length]
    have freshValue : scalarValue (scalarAt (halveStep index1 data heap).1 data.length) = 1 := by
      rw [scalarAt, fresh]
      exact scalarValue_identity
    have freshTerm : term (halveStep index1 data heap).1 data.length = pointAt data index1 := by
      rw [term, freshValue, one_nsmul, pointAt, fresh]
    have one_lt_L : 1 < L := by
      unfold L
      norm_num
    rw [grown]
    refine ⟨⟨⟨nodup_pushHeap popped.inv.nodup fun member => Nat.lt_irrefl _ (members _ member).1,
      fun e member => ?_, fun e member => ?_⟩, popped.distinct, fun member => ?_,
      fun member => ?_, by rw [secondValue]; exact popped.positive2,
      by rw [secondValue, halfValue]; omega, by rw [halfValue]; exact reducedHalf⟩,
      second, ?_, ?_⟩
    · rcases mem_pushHeap.mp member with old | rfl
      · exact (popped.inv.congr kept).positive e old
      · rw [freshValue]
        exact Nat.one_pos
    · rcases mem_pushHeap.mp member with old | rfl
      · exact (popped.inv.congr kept).reduced e old
      · rw [freshValue]
        exact one_lt_L
    · rcases mem_pushHeap.mp member with old | last
      · exact popped.out1 old
      · exact Nat.ne_of_lt inside1 last
    · rcases mem_pushHeap.mp member with old | last
      · exact popped.out2 old
      · exact Nat.ne_of_lt inside2 last
    · rw [heapSum_pushHeap, sameSum, freshTerm, halfTerm, add_assoc, term,
        ← halve_nsmul (scalarValue (scalarAt data index1)), parity, one_nsmul]
    · rw [heapTotal_pushHeap, sameTotal, freshValue]
      omega
  · -- an even scalar halves with nothing left over
    have parity : scalarValue (scalarAt data index1) % 2 = 0 := by
      have := mt (odd_iff (scalarAt data index1)).mpr odd
      omega
    have same : (halveStep index1 data heap).2 = heap := by
      dsimp only [halveStep]
      rw [if_neg odd]
    rw [same]
    refine ⟨⟨popped.inv.congr kept, popped.distinct, popped.out1, popped.out2,
      by rw [secondValue]; exact popped.positive2, by rw [secondValue, halfValue]; omega,
      by rw [halfValue]; exact reducedHalf⟩, second, ?_, ?_⟩
    · rw [sameSum, halfTerm, term, ← halve_nsmul (scalarValue (scalarAt data index1)), parity,
        zero_nsmul, zero_add]
    · rw [sameTotal]
      omega

/-- The halving loop keeps what one pass keeps; the recursion is the loop's own. -/
theorem halveLoop_spec {data : List (MultiexpData G)} {heap : List Nat}
    (popped : Popped data heap index1 index2) :
    Halved data heap (halveLoop index1 index2 data heap).1 (halveLoop index1 index2 data heap).2
      index1 index2 := by
  rw [halveLoop]
  by_cases below : keyLess (scalarAt data index2) (div2 (scalarAt data index1)) = true
  · rw [dif_pos below]
    have first := halveStep_spec popped below
    exact first.trans (halveLoop_spec first.popped)
  · rw [dif_neg below]
    exact Halved.refl popped
termination_by scalarValue (scalarAt data index1)
decreasing_by exact halveStep_decreases below

/-! ## A pass -/

/-- Subtracting the second scalar from the first and adding the first point to the second keeps
the two multiples' sum. -/
theorem subtract_nsmul {a b : Nat} (le : b ≤ a) (P Q : G) :
    (a - b) • P + b • (Q + P) = a • P + b • Q := by
  rw [nsmul_add, add_comm (b • Q), ← add_assoc, ← add_nsmul, Nat.sub_add_cancel le]

/-- The entries after the end of a pass: the first with the difference of the scalars, the
second with the sum of the points, the others as they were. -/
theorem settle_getD (popped : Popped data heap index1 index2) (e : Nat) :
    (settle index1 index2 data heap).1.getD e ⟨zero, 0⟩ =
      if e = index1 then ⟨scSub (scalarAt data index1) (scalarAt data index2), pointAt data index1⟩
      else if e = index2 then
        ⟨scalarAt data index2, pointAt data index2 + pointAt data index1⟩
      else data.getD e ⟨zero, 0⟩ := by
  have inside1 : index1 < data.length :=
    lt_length_of_pos (Nat.lt_of_lt_of_le popped.positive2 popped.ordered)
  have inside2 : index2 < data.length := lt_length_of_pos popped.positive2
  have other1 : (data.set index2 ⟨scalarAt data index2, pointAt data index2 + pointAt data index1⟩).getD
      index1 ⟨zero, 0⟩ = data.getD index1 ⟨zero, 0⟩ := getD_set_ne _ _ _ popped.distinct.symm
  have own2 : (data.set index2 ⟨scalarAt data index2, pointAt data index2 + pointAt data index1⟩).getD
      index2 ⟨zero, 0⟩ = ⟨scalarAt data index2, pointAt data index2 + pointAt data index1⟩ :=
    getD_set_self _ _ _ inside2
  dsimp only [settle]
  simp only [scalarAt, pointAt] at other1 own2 ⊢
  rw [other1, own2]
  split_ifs with first secondIndex
  · rw [first]
    exact getD_set_self _ _ _ (by rw [List.length_set]; exact inside1)
  · rw [secondIndex, getD_set_ne _ _ _ popped.distinct, own2]
  · rw [getD_set_ne _ _ _ (Ne.symm first), getD_set_ne _ _ _ (Ne.symm secondIndex)]

theorem settle_heap (popped : Popped data heap index1 index2) :
    (settle index1 index2 data heap).2 = pushHeap
      (if scSub (scalarAt data index1) (scalarAt data index2) ≠ zero then pushHeap heap index1
        else heap) index2 := by
  have first := settle_getD popped index1
  rw [if_pos rfl] at first
  have firstScalar : scalarAt (settle index1 index2 data heap).1 index1 =
      scSub (scalarAt data index1) (scalarAt data index2) := by
    rw [scalarAt, first]
  rw [← firstScalar]
  rfl

/-- The end of a pass puts both entries back with the sum of their multiples and the first
scalar as their total, and keeps the invariant. -/
theorem settle_spec (popped : Popped data heap index1 index2) :
    HeapInv (settle index1 index2 data heap).1 (settle index1 index2 data heap).2 ∧
      heapSum (settle index1 index2 data heap).1 (settle index1 index2 data heap).2 =
        heapSum data heap + term data index1 + term data index2 ∧
      heapTotal (settle index1 index2 data heap).1 (settle index1 index2 data heap).2 =
        heapTotal data heap + scalarValue (scalarAt data index1) := by
  have entries := settle_getD popped
  have difference := scalarValue_scSub popped.ordered popped.reduced1
  have kept : ∀ e ∈ heap, (settle index1 index2 data heap).1.getD e ⟨zero, 0⟩ =
      data.getD e ⟨zero, 0⟩ := by
    intro e member
    rw [entries, if_neg fun same : e = index1 => popped.out1 (same ▸ member),
      if_neg fun same : e = index2 => popped.out2 (same ▸ member)]
  have firstValue : scalarValue (scalarAt (settle index1 index2 data heap).1 index1) =
      scalarValue (scalarAt data index1) - scalarValue (scalarAt data index2) := by
    rw [scalarAt, entries, if_pos rfl]
    exact difference
  have firstPoint : pointAt (settle index1 index2 data heap).1 index1 = pointAt data index1 := by
    rw [pointAt, entries, if_pos rfl]
  have secondEntry := entries index2
  rw [if_neg popped.distinct.symm, if_pos rfl] at secondEntry
  have secondValue : scalarAt (settle index1 index2 data heap).1 index2 = scalarAt data index2 := by
    rw [scalarAt, secondEntry]
  have secondTerm : term (settle index1 index2 data heap).1 index2 =
      scalarValue (scalarAt data index2) • (pointAt data index2 + pointAt data index1) := by
    rw [term, secondValue, pointAt, secondEntry]
  obtain ⟨sameSum, sameTotal⟩ := heap_congr kept
  have reduced2 := Nat.lt_of_le_of_lt popped.ordered popped.reduced1
  have fresh2 : index2 ∉ pushHeap heap index1 := fun member =>
    (mem_pushHeap.mp member).elim popped.out2 popped.distinct.symm
  rw [settle_heap popped]
  show _ ∧ _ = heapSum data heap + scalarValue (scalarAt data index1) • pointAt data index1 +
    scalarValue (scalarAt data index2) • pointAt data index2 ∧ _
  by_cases nonzero : scSub (scalarAt data index1) (scalarAt data index2) ≠ zero
  · -- the first entry goes back with the difference of the scalars
    have positive1 : 0 < scalarValue (scalarAt data index1) - scalarValue (scalarAt data index2) := by
      have notZero := mt (eq_zero_iff _).mpr nonzero
      rw [difference] at notZero
      omega
    rw [if_pos nonzero]
    refine ⟨⟨nodup_pushHeap (nodup_pushHeap popped.inv.nodup popped.out1) fresh2,
      fun e member => ?_, fun e member => ?_⟩, ?_, ?_⟩
    · rcases mem_pushHeap.mp member with inner | rfl
      · rcases mem_pushHeap.mp inner with old | rfl
        · exact (popped.inv.congr kept).positive e old
        · rw [firstValue]
          exact positive1
      · rw [secondValue]
        exact popped.positive2
    · rcases mem_pushHeap.mp member with inner | rfl
      · rcases mem_pushHeap.mp inner with old | rfl
        · exact (popped.inv.congr kept).reduced e old
        · rw [firstValue]
          have := popped.reduced1
          omega
      · rw [secondValue]
        exact reduced2
    · rw [heapSum_pushHeap, heapSum_pushHeap, sameSum, term, firstValue, firstPoint, secondTerm,
        add_assoc, subtract_nsmul popped.ordered, ← add_assoc]
    · rw [heapTotal_pushHeap, heapTotal_pushHeap, sameTotal, firstValue, secondValue]
      have := popped.ordered
      omega
  · -- the scalars were equal: only the second entry goes back
    have equal : scalarValue (scalarAt data index1) - scalarValue (scalarAt data index2) = 0 := by
      rw [← difference]
      exact (eq_zero_iff _).mp (not_not.mp nonzero)
    rw [if_neg nonzero]
    refine ⟨⟨nodup_pushHeap popped.inv.nodup popped.out2, fun e member => ?_,
      fun e member => ?_⟩, ?_, ?_⟩
    · rcases mem_pushHeap.mp member with old | rfl
      · exact (popped.inv.congr kept).positive e old
      · rw [secondValue]
        exact popped.positive2
    · rcases mem_pushHeap.mp member with old | rfl
      · exact (popped.inv.congr kept).reduced e old
      · rw [secondValue]
        exact reduced2
    · rw [heapSum_pushHeap, sameSum, secondTerm, add_assoc, ← subtract_nsmul popped.ordered, equal,
        zero_nsmul, zero_add]
    · rw [heapTotal_pushHeap, sameTotal, secondValue]
      have := popped.ordered
      omega

theorem pushHeap_ne_nil (heap : List Nat) (e : Nat) : pushHeap heap e ≠ [] := by
  rw [pushHeap]
  exact List.append_ne_nil_of_right_ne_nil heap (List.cons_ne_nil e [])

/-- The two pops of a pass take out two distinct indices, the first with a largest scalar, and
split the heap's sum and total between them and the rest. -/
theorem popTwo_spec (inv : HeapInv data heap) (several : 1 < heap.length) :
    Popped data (popHeap data (popHeap data heap).2).2 (popHeap data heap).1
        (popHeap data (popHeap data heap).2).1 ∧
      heapSum data heap = heapSum data (popHeap data (popHeap data heap).2).2 +
        term data (popHeap data heap).1 + term data (popHeap data (popHeap data heap).2).1 ∧
      heapTotal data heap = heapTotal data (popHeap data (popHeap data heap).2).2 +
        scalarValue (scalarAt data (popHeap data heap).1) +
        scalarValue (scalarAt data (popHeap data (popHeap data heap).2).1) := by
  obtain ⟨found1, rest1, largest1⟩ := popHeap_spec data (List.length_pos_iff.mp (by omega : 0 < heap.length))
  rw [rest1]
  generalize (popHeap data heap).1 = index1 at found1 largest1 ⊢
  have nonempty1 : heap.erase index1 ≠ [] := by
    rw [← List.length_pos_iff, List.length_erase_of_mem found1]
    omega
  obtain ⟨found2, rest2, largest2⟩ := popHeap_spec data nonempty1
  rw [rest2]
  generalize (popHeap data (heap.erase index1)).1 = index2 at found2 largest2 ⊢
  have nodup1 := inv.nodup.erase index1
  have member2 : index2 ∈ heap := List.erase_subset found2
  have inside : ∀ e ∈ (heap.erase index1).erase index2, e ∈ heap := fun e member =>
    List.erase_subset (List.erase_subset member)
  refine ⟨⟨⟨nodup1.erase index2, fun e member => inv.positive e (inside e member),
    fun e member => inv.reduced e (inside e member)⟩,
    fun same => inv.nodup.not_mem_erase (same ▸ found2),
    fun member => inv.nodup.not_mem_erase (List.erase_subset member),
    nodup1.not_mem_erase, inv.positive index2 member2, largest1 index2 member2,
    inv.reduced index1 found1⟩, ?_, ?_⟩
  · rw [heapSum, ← List.sum_map_erase (term data) found1, ← List.sum_map_erase (term data) found2,
      heapSum]
    abel
  · rw [heapTotal, ← List.sum_map_erase _ found1, ← List.sum_map_erase _ found2, heapTotal]
    omega

/-- A pass keeps the invariant and the sum, lowers the total by the second scalar at least, and
leaves the heap non-empty. -/
theorem bosCosterStep_spec (inv : HeapInv data heap) (several : 1 < heap.length) :
    HeapInv (bosCosterStep data heap).1 (bosCosterStep data heap).2 ∧
      heapSum (bosCosterStep data heap).1 (bosCosterStep data heap).2 = heapSum data heap ∧
      heapTotal (bosCosterStep data heap).1 (bosCosterStep data heap).2 < heapTotal data heap ∧
      (bosCosterStep data heap).2 ≠ [] := by
  obtain ⟨popped, sum, total⟩ := popTwo_spec inv several
  dsimp only [bosCosterStep]
  generalize (popHeap data (popHeap data heap).2).1 = index2 at popped sum total ⊢
  generalize (popHeap data (popHeap data heap).2).2 = rest at popped sum total ⊢
  generalize (popHeap data heap).1 = index1 at popped sum total ⊢
  have halved := halveLoop_spec popped
  generalize halveLoop index1 index2 data rest = after at halved ⊢
  obtain ⟨settledInv, settledSum, settledTotal⟩ := settle_spec halved.popped
  have secondTerm : term after.1 index2 = term data index2 := by
    rw [term, term, scalarAt, scalarAt, pointAt, pointAt, halved.second]
  refine ⟨settledInv, ?_, ?_, ?_⟩
  · rw [settledSum, halved.sum, secondTerm]
    exact sum.symm
  · rw [settledTotal]
    have lower := halved.total
    have positive := popped.positive2
    omega
  · rw [settle_heap halved.popped]
    exact pushHeap_ne_nil _ _

/-- The run: with more fuel than the total of the heap's scalars, the loop ends with one index,
whose multiple is the heap's sum. The induction is on the fuel; each pass lowers the total. -/
theorem bosCosterLoop_spec : ∀ (fuel : Nat) (data : List (MultiexpData G)) (heap : List Nat),
    HeapInv data heap → heap ≠ [] → heapTotal data heap < fuel →
      ∃ data' e, bosCosterLoop fuel data heap = some (data', [e]) ∧
        term data' e = heapSum data heap
  | 0, _, _, _, _, short => absurd short (Nat.not_lt_zero _)
  | fuel + 1, data, heap, inv, nonempty, short => by
    rw [bosCosterLoop]
    by_cases several : 1 < heap.length
    · rw [if_pos several]
      obtain ⟨inv', sum, lower, nonempty'⟩ := bosCosterStep_spec inv several
      obtain ⟨data', e, ran, last⟩ := bosCosterLoop_spec fuel (bosCosterStep data heap).1
        (bosCosterStep data heap).2 inv' nonempty' (by omega)
      exact ⟨data', e, ran, last.trans sum⟩
    · rw [if_neg several]
      obtain ⟨e, single⟩ := List.length_eq_one_iff.mp
        (by have := List.length_pos_iff.mpr nonempty; omega : heap.length = 1)
      rw [single]
      exact ⟨data, e, rfl, by rw [heapSum, List.map_singleton, List.sum_singleton]⟩

/-- One index left: its multiple is what ge_scalarmult computes. -/
theorem scalarmultTop_single (encode : G → Key) (data : List (MultiexpData G)) (e : Nat) :
    scalarmultTop encode data [e] = encode (term data e) := rfl

end Heap

/-! ## Bos-Coster -/

section Main

variable {G : Type} [AddCommMonoid G] [DecidableEq G] {data : List (MultiexpData G)}

theorem initialHeap_inv (reduced : ∀ d ∈ data, scalarValue d.scalar < L) :
    HeapInv data (initialHeap data) := by
  refine ⟨List.nodup_range.filter _, fun e member => ?_, fun e member => ?_⟩
  · rw [initialHeap, List.mem_filter, decide_eq_true_iff] at member
    exact Nat.pos_of_ne_zero (mt (eq_zero_iff _).mpr member.2.1)
  · rw [initialHeap, List.mem_filter, List.mem_range] at member
    exact reduced _ (getD_mem member.1)

/-- The entries the setup leaves out have zero multiples, so the heap starts with the sum of
the data's multiples. -/
theorem initialHeap_sum (data : List (MultiexpData G)) :
    heapSum data (initialHeap data) = basic data := by
  have dropped : (((List.range data.length).filter fun n =>
      decide ¬(scalarAt data n ≠ zero ∧ pointAt data n ≠ 0)).map (term data)).sum = 0 := by
    refine List.sum_eq_zero fun y member => ?_
    obtain ⟨n, kept, rfl⟩ := List.mem_map.mp member
    rw [List.mem_filter, decide_eq_true_iff, not_and_or, not_not, not_not] at kept
    rcases kept.2 with zeroScalar | zeroPoint
    · rw [term, zeroScalar, scalarValue_zero, zero_nsmul]
    · rw [term, zeroPoint, smul_zero]
  have split := List.sum_map_filter_add_sum_map_filter_not
    (fun n => scalarAt data n ≠ zero ∧ pointAt data n ≠ 0) (term data) (List.range data.length)
  rw [dropped, add_zero] at split
  have reindexed := Ringct.map_range_getD
    (fun d : MultiexpData G => scalarValue d.scalar • d.point) ⟨zero, 0⟩ (le_refl data.length)
  simp only [List.take_length] at reindexed
  rw [heapSum, initialHeap, split, basic, ← reindexed]
  rfl

theorem initialHeap_total (data : List (MultiexpData G)) :
    heapTotal data (initialHeap data) ≤ (data.map fun d => scalarValue d.scalar).sum := by
  have reindexed := Ringct.map_range_getD (fun d : MultiexpData G => scalarValue d.scalar)
    ⟨zero, 0⟩ (le_refl data.length)
  simp only [List.take_length] at reindexed
  rw [heapTotal, initialHeap, ← reindexed]
  exact (List.filter_sublist.map _).sum_le_sum fun _ _ => Nat.zero_le _

/-- bos_coster_heap_conv_robust returns the encoding of the sum of the points times their
scalars, for non-empty data with scalars below `L`, when the identity point encodes as
`rct::identity()`. -/
theorem bosCosterHeapConvRobust_eq_basic (encode : G → Key) (encodeIdentity : encode 0 = identity)
    (data : List (MultiexpData G)) (nonempty : data ≠ [])
    (reduced : ∀ d ∈ data, scalarValue d.scalar < L) :
    bosCosterHeapConvRobust encode data = .ok (encode (basic data)) := by
  have inv := initialHeap_inv reduced
  have total := initialHeap_total data
  rw [bosCosterHeapConvRobust, if_pos (List.length_pos_iff.mpr nonempty), ← initialHeap_sum data]
  dsimp only
  generalize initialHeap data = heap at inv total ⊢
  by_cases empty : heap.length = 0
  · -- nothing to multiply: `rct::identity()`
    rw [if_pos empty, List.length_eq_zero_iff.mp empty, heapSum, List.map_nil, List.sum_nil,
      encodeIdentity]
    rfl
  · rw [if_neg empty]
    by_cases single : heap.length < 2
    · obtain ⟨e, rfl⟩ := List.length_eq_one_iff.mp (by omega : heap.length = 1)
      rw [if_pos single, scalarmultTop_single, heapSum, List.map_singleton, List.sum_singleton]
      rfl
    · rw [if_neg single]
      obtain ⟨data', e, ran, last⟩ :=
        bosCosterLoop_spec ((data.map fun d => scalarValue d.scalar).sum + 1) data heap inv
          (List.length_pos_iff.mp (by omega : 0 < heap.length)) (by omega)
      rw [ran, ← last]
      rfl

end Main

/-! ## The three multi-exponentiations -/

section Agreement

variable {G : Type} [AddCommMonoid G] [DecidableEq G]

/-- Straus for every `STEP` and every cache built over a vector that starts with the data's
points, Pippenger for every window from 1 to 9 and every such cache, and the robust Bos-Coster
for non-empty data, all return the encoding of the sum of the points times their scalars, for
scalars below `L` and an encoding that sends the identity point to `rct::identity()`. -/
theorem multiexp_eq_basic (encode : G → Key) (encodeIdentity : encode 0 = identity)
    (data : List (MultiexpData G)) (reduced : ∀ d ∈ data, scalarValue d.scalar < L) :
    (∀ (cache : Option (StrausCachedData G)) (STEP : Nat),
      (∀ c, cache = some c → ∃ base N, strausInitCache base N = .ok c ∧
        (data.map (·.point)).IsPrefix (base.map (·.point)) ∧ data.length ≤ c.size) →
      straus encode data cache STEP = .ok (encode (basic data))) ∧
    (∀ (cache : Option (PippengerCachedData G)) (c : Nat), 1 ≤ c → c ≤ 9 →
      (∀ cc, cache = some cc → ∃ base N, pippengerInitCache base N = .ok cc ∧
        (data.map (·.point)).IsPrefix (base.map (·.point)) ∧ data.length ≤ cc.size) →
      pippenger encode data cache c = .ok (encode (basic data))) ∧
    (data ≠ [] → bosCosterHeapConvRobust encode data = .ok (encode (basic data))) :=
  ⟨fun cache STEP cached => straus_eq_basic encode data cache STEP cached,
    fun cache c _ window cached => pippenger_eq_basic encode data cache c window cached,
    fun nonempty => bosCosterHeapConvRobust_eq_basic encode encodeIdentity data nonempty reduced⟩

end Agreement

/-- Points `5`, `7` and `11` with scalars `2`, `3` and `4`, in the integers with an encoding
that sends `n` to the key of `n + 1`: Straus in bands of two points and Pippenger in windows of
two bits read caches precomputed over these points and a fourth, and Bos-Coster starts its loop
from a heap of three. -/
theorem multiexp_agree_on_three_points :
    let encode : ℤ → Key := fun n => keyOfNat (n.toNat + 1)
    let data : List (MultiexpData ℤ) := [⟨keyOfNat 2, 5⟩, ⟨keyOfNat 3, 7⟩, ⟨keyOfNat 4, 11⟩]
    let base := data ++ [⟨keyOfNat 1, 13⟩]
    (∃ cache, strausInitCache base 0 = .ok cache ∧
      straus encode data (some cache) 2 = .ok (keyOfNat 76)) ∧
    (∃ cache, pippengerInitCache base 0 = .ok cache ∧
      pippenger encode data (some cache) 2 = .ok (keyOfNat 76)) ∧
    (initialHeap data).length = 3 ∧
    bosCosterHeapConvRobust encode data = .ok (keyOfNat 76) := by
  intro encode data base
  have encodeIdentity : encode 0 = identity := by decide
  have reduced : ∀ d ∈ data, scalarValue d.scalar < L := by
    intro d member
    simp only [data, List.mem_cons, List.not_mem_nil, or_false] at member
    rcases member with rfl | rfl | rfl <;> rw [scalarValue_keyOfNat] <;> unfold L <;> norm_num
  -- `2 • 5 + 3 • 7 + 4 • 11 = 75`
  have summed : encode (basic data) = keyOfNat 76 := by
    simp [encode, basic, data, scalarValue_keyOfNat]
  obtain ⟨strausOk, pippengerOk, bosCosterOk⟩ :=
    multiexp_eq_basic encode encodeIdentity data reduced
  rw [summed] at strausOk pippengerOk bosCosterOk
  have prefixed : (data.map (·.point)).IsPrefix (base.map (·.point)) := by
    rw [List.map_append]
    exact List.prefix_append _ _
  refine ⟨⟨_, rfl, strausOk _ 2 fun c built => ⟨base, 0, ?_, prefixed, ?_⟩⟩,
    ⟨_, rfl, pippengerOk _ 2 (by norm_num) (by norm_num) fun c built =>
      ⟨base, 0, ?_, prefixed, ?_⟩⟩, by decide, bosCosterOk (List.cons_ne_nil _ _)⟩
  -- each cache is the one built over the four points
  all_goals cases Option.some.inj built
  exacts [rfl, by decide, rfl, by decide]

/-- The robust Bos-Coster refuses empty data, where the sum of the multiples is the identity. -/
theorem bosCosterHeapConvRobust_empty :
    bosCosterHeapConvRobust (fun _ : ℤ => identity) [] = .error "Not enough points" := rfl

end GraftNetwork.Ringct.Multiexp

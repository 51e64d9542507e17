import Mathlib.Data.List.Pairwise
import Mathlib.Data.List.Perm.Basic
import Mathlib.Logic.Function.Basic

/-!
# The block queue (cryptonote_protocol/block_queue.cpp)

`block_queue` keeps the spans of blocks being downloaded, a `std::set` ordered by the span's
start height, and `requested_hashes`, the hashes of the blocks asked for. Its bookkeeping should
say that a hash is requested exactly when a span holds it, and that no two spans hold one hash
(`BlockQueue.Consistent`).

* Every operation that erases spans, the two forms of `add_blocks`, and `set_span_hashes` and
  `reserve_span` when the hashes they record are requested by no span, keep the bookkeeping
  (`Consistent.perform`, over a whole run in `consistent_performCalls`).
* `reserve_span` skips only the requested hashes at the front of its list: a requested hash
  after them is reserved a second time, and removing either span then forgets it while the other
  still holds it (`reserve_span_reserves_requested_hash`). A span whose start is taken is not
  added, yet `reserve_span` reports it.

The hash, block and connection id types are parameters; the spans' rate, size and time, which
no modelled operation reads, are left out.
-/

namespace GraftNetwork.Protocol

variable {H B C : Type}

/-! ## The state -/

structure Span (H B C : Type) where
  startBlockHeight : UInt64
  hashes : List H
  blocks : List B
  connectionId : C
  nblocks : UInt64

/-- `std::set<span>::insert`: no span is added where one with the same start is. -/
def insertSpan (s : Span H B C) : List (Span H B C) → List (Span H B C)
  | [] => [s]
  | t :: rest =>
    if s.startBlockHeight < t.startBlockHeight then s :: t :: rest
    else if s.startBlockHeight = t.startBlockHeight then t :: rest
    else t :: insertSpan s rest

theorem mem_insertSpan {s x : Span H B C} :
    ∀ {l : List (Span H B C)}, x ∈ insertSpan s l → x = s ∨ x ∈ l
  | [], mem => .inl (List.mem_singleton.mp mem)
  | t :: rest, mem => by
    rw [insertSpan] at mem
    split_ifs at mem
    · exact List.mem_cons.mp mem
    · exact .inr mem
    · rcases List.mem_cons.mp mem with rfl | mem
      · exact .inr List.mem_cons_self
      · exact (mem_insertSpan mem).imp_right (List.mem_cons_of_mem t)

theorem pairwise_insertSpan (s : Span H B C) :
    ∀ {l : List (Span H B C)}, l.Pairwise (fun a b => a.startBlockHeight < b.startBlockHeight) →
      (insertSpan s l).Pairwise fun a b => a.startBlockHeight < b.startBlockHeight
  | [], _ => List.pairwise_singleton _ s
  | t :: rest, sorted => by
    obtain ⟨after, sortedRest⟩ := List.pairwise_cons.mp sorted
    rw [insertSpan]
    split_ifs with before same
    · exact List.Pairwise.cons (fun x mem => by
        rcases List.mem_cons.mp mem with rfl | mem
        · exact before
        · exact UInt64.lt_trans before (after x mem)) sorted
    · exact sorted
    · refine List.Pairwise.cons (fun x mem => ?_) (pairwise_insertSpan s sortedRest)
      rcases mem_insertSpan mem with rfl | mem
      · exact UInt64.lt_of_le_of_ne (UInt64.not_lt.mp before) (Ne.symm same)
      · exact after x mem

/-- A new start is added. -/
theorem insertSpan_perm {s : Span H B C} :
    ∀ {l : List (Span H B C)}, (∀ t ∈ l, t.startBlockHeight ≠ s.startBlockHeight) →
      (insertSpan s l).Perm (s :: l)
  | [], _ => List.Perm.refl _
  | t :: rest, absent => by
    rw [insertSpan]
    split_ifs with before same
    · exact List.Perm.refl _
    · exact absurd same.symm (absent t List.mem_cons_self)
    · exact ((insertSpan_perm fun u mem => absent u (List.mem_cons_of_mem t mem)).cons t).trans
        (List.Perm.swap s t rest)

/-- Where a span has the start, nothing is added. -/
theorem insertSpan_of_taken {s t : Span H B C} :
    ∀ {l : List (Span H B C)}, l.Pairwise (fun a b => a.startBlockHeight < b.startBlockHeight) →
      t ∈ l → t.startBlockHeight = s.startBlockHeight → insertSpan s l = l
  | x :: rest, sorted, mem, same => by
    obtain ⟨after, sortedRest⟩ := List.pairwise_cons.mp sorted
    rw [insertSpan]
    rcases List.mem_cons.mp mem with rfl | mem
    · rw [if_neg (by rw [same]; exact UInt64.lt_irrefl _), if_pos same.symm]
    · have before : x.startBlockHeight < s.startBlockHeight := same ▸ after t mem
      rw [if_neg (UInt64.not_lt.mpr (UInt64.le_of_lt before)), if_neg (UInt64.ne_of_lt before).symm,
        insertSpan_of_taken sortedRest mem same]

/-- The new span is the one found at its start. -/
theorem find?_insertSpan {p : Span H B C → Bool} {s : Span H B C} :
    ∀ {l : List (Span H B C)}, (∀ t ∈ l, t.startBlockHeight ≠ s.startBlockHeight) →
      (∀ t ∈ l, p t = false) → p s = true → (insertSpan s l).find? p = some s
  | [], _, _, found => by rw [insertSpan, List.find?_cons_of_pos found]
  | t :: rest, absent, others, found => by
    rw [insertSpan]
    split_ifs with before same
    · rw [List.find?_cons_of_pos found]
    · exact absurd same.symm (absent t List.mem_cons_self)
    · rw [List.find?_cons_of_neg (by rw [others t List.mem_cons_self]; decide),
        find?_insertSpan (fun u mem => absent u (List.mem_cons_of_mem t mem))
          (fun u mem => others u (List.mem_cons_of_mem t mem)) found]

/-- block_queue: `blocks` is ordered by start, so no two spans share one. -/
structure BlockQueue (H B C : Type) where
  blocks : List (Span H B C)
  sorted : blocks.Pairwise fun s t => s.startBlockHeight < t.startBlockHeight
  requestedHashes : H → Bool

namespace BlockQueue

section Operations

variable [DecidableEq H] [DecidableEq C]

def empty : BlockQueue H B C := ⟨[], List.Pairwise.nil, fun _ => false⟩

def insert (s : Span H B C) (q : BlockQueue H B C) : BlockQueue H B C :=
  ⟨insertSpan s q.blocks, pairwise_insertSpan s q.sorted, q.requestedHashes⟩

/-- `requested_hashes.insert(h)` for each of the hashes. -/
def insertHashes (hashes : List H) (requestedHashes : H → Bool) : H → Bool :=
  hashes.foldl (fun requested h => Function.update requested h true) requestedHashes

def eraseHashes (hashes : List H) (requestedHashes : H → Bool) : H → Bool :=
  hashes.foldl (fun requested h => Function.update requested h false) requestedHashes

def withRequested (requestedHashes : H → Bool) (q : BlockQueue H B C) : BlockQueue H B C :=
  ⟨q.blocks, q.sorted, requestedHashes⟩

/-- erase_block: the span's hashes are no longer requested. The span is the one at its start. -/
def eraseBlock (j : Span H B C) (q : BlockQueue H B C) : BlockQueue H B C :=
  ⟨q.blocks.filter (fun s => s.startBlockHeight != j.startBlockHeight), q.sorted.filter _,
    eraseHashes j.hashes q.requestedHashes⟩

/-- The loops of flush_spans, flush_stale_spans and remove_spans: over the spans they walk, each
one the condition holds of is erased. The walk goes on from the next span, so it sees the spans
as they were. -/
def eraseBlocksWhere (condition : Span H B C → Bool) (spans : List (Span H B C))
    (q : BlockQueue H B C) : BlockQueue H B C :=
  spans.foldl (fun q j => if condition j then eraseBlock j q else q) q

def flushSpans (connectionId : C) (all : Bool) (q : BlockQueue H B C) : BlockQueue H B C :=
  eraseBlocksWhere (fun j => j.connectionId == connectionId && (all || j.blocks.isEmpty))
    q.blocks q

/-- is_blockchain_placeholder: the span of the blocks already in the chain has the nil uuid. -/
def isBlockchainPlaceholder (nilUuid : C) (span : Span H B C) : Bool :=
  span.connectionId == nilUuid

/-- flush_stale_spans: the first span is passed over when it is the placeholder. -/
def flushStaleSpans (nilUuid : C) (liveConnections : List C) (q : BlockQueue H B C) :
    BlockQueue H B C :=
  let spans := match q.blocks with
    | i :: rest => if isBlockchainPlaceholder nilUuid i then rest else i :: rest
    | [] => []
  eraseBlocksWhere (fun j => !liveConnections.contains j.connectionId && j.blocks.isEmpty) spans q

/-- remove_span: whether a span started there, the hashes it held, and the queue without it. -/
def removeSpan (startBlockHeight : UInt64) (q : BlockQueue H B C) :
    Bool × List H × BlockQueue H B C :=
  match q.blocks.find? (fun i => i.startBlockHeight == startBlockHeight) with
  | some i => (true, i.hashes, eraseBlock i q)
  | none => (false, [], q)

def removeSpans (connectionId : C) (startBlockHeight : UInt64) (q : BlockQueue H B C) :
    BlockQueue H B C :=
  eraseBlocksWhere
    (fun j => j.connectionId == connectionId && j.startBlockHeight ≤ startBlockHeight) q.blocks q

/-- set_span_hashes: the span of that start and connection, if there is one, is erased and put
back with the new hashes, which are requested. -/
def setSpanHashes (startHeight : UInt64) (connectionId : C) (hashes : List H)
    (q : BlockQueue H B C) : BlockQueue H B C :=
  match q.blocks.find? (fun i => i.startBlockHeight == startHeight && i.connectionId == connectionId)
    with
  | some i =>
    let q := eraseBlock i q
    let s := { i with hashes := hashes }
    let q := q.withRequested (insertHashes s.hashes q.requestedHashes)
    q.insert s
  | none => q

/-- add_blocks with the downloaded blocks: the span there is replaced by the filled one, which
keeps its hashes. -/
def addBlocks (height : UInt64) (bcel : List B) (connectionId : C) (q : BlockQueue H B C) :
    BlockQueue H B C :=
  let removed := q.removeSpan height
  let q := removed.2.2.insert ⟨height, [], bcel, connectionId, UInt64.ofNat bcel.length⟩
  if removed.1 then
    let q := q.withRequested (insertHashes removed.2.1 q.requestedHashes)
    q.setSpanHashes height connectionId removed.2.1
  else q

/-- add_blocks with a count: a span scheduled for download. `none` where it throws. -/
def addBlocksScheduled (height nblocks : UInt64) (connectionId : C) (q : BlockQueue H B C) :
    Option (BlockQueue H B C) :=
  if nblocks = 0 then none
  else some (q.insert ⟨height, [], [], connectionId, nblocks⟩)

/-- The first loop of reserve_span: the requested hashes at the front are skipped, each moving
the start up one. -/
def skipRequested (requestedHashes : H → Bool) : List H → UInt64 → List H × UInt64
  | h :: rest, spanStartHeight =>
    if requestedHashes h then skipRequested requestedHashes rest (spanStartHeight + 1)
    else (h :: rest, spanStartHeight)
  | [], spanStartHeight => ([], spanStartHeight)

/-- The second loop of reserve_span: the next hashes, at most `maxBlocks` of them. -/
def takeSpan (maxBlocks : UInt64) : List H → UInt64 → List H → List H × UInt64
  | h :: rest, spanLength, hashes =>
    if spanLength < maxBlocks then takeSpan maxBlocks rest (spanLength + 1) (hashes ++ [h])
    else (hashes, spanLength)
  | [], spanLength, hashes => (hashes, spanLength)

/-- reserve_span: the span it reserves, `(0, 0)` for none, and the queue after. -/
def reserveSpan (firstBlockHeight lastBlockHeight maxBlocks : UInt64) (connectionId : C)
    (blockHashes : List H) (q : BlockQueue H B C) : (UInt64 × UInt64) × BlockQueue H B C :=
  if lastBlockHeight < firstBlockHeight ∨ maxBlocks = 0 then ((0, 0), q)
  else
    let skipped := skipRequested q.requestedHashes blockHashes
      (lastBlockHeight - UInt64.ofNat blockHashes.length + 1)
    let span := takeSpan maxBlocks skipped.1 0 []
    if span.2 = 0 then ((0, 0), q)
    else
      match q.addBlocksScheduled skipped.2 span.2 connectionId with
      | none => ((0, 0), q)
      | some q => ((skipped.2, span.2), q.setSpanHashes skipped.2 connectionId span.1)

def requested (hash : H) (q : BlockQueue H B C) : Bool := q.requestedHashes hash

end Operations

variable {q : BlockQueue H B C} {s j : Span H B C}

/-! ## What each operation does -/

@[simp] theorem insert_blocks : (q.insert s).blocks = insertSpan s q.blocks := rfl

@[simp] theorem insert_requestedHashes : (q.insert s).requestedHashes = q.requestedHashes := rfl

@[simp] theorem withRequested_blocks (r : H → Bool) : (q.withRequested r).blocks = q.blocks := rfl

@[simp] theorem withRequested_requestedHashes (r : H → Bool) :
    (q.withRequested r).requestedHashes = r := rfl

/-- Two spans of the queue with one start are one span. -/
theorem eq_of_start_eq {s t : Span H B C} :
    ∀ {l : List (Span H B C)}, l.Pairwise (fun a b => a.startBlockHeight < b.startBlockHeight) →
      s ∈ l → t ∈ l → s.startBlockHeight = t.startBlockHeight → s = t
  | x :: rest, sorted, sMem, tMem, same => by
    obtain ⟨after, sortedRest⟩ := List.pairwise_cons.mp sorted
    rcases List.mem_cons.mp sMem with rfl | sRest <;> rcases List.mem_cons.mp tMem with rfl | tRest
    · rfl
    · exact absurd same (UInt64.ne_of_lt (after t tRest))
    · exact absurd same.symm (UInt64.ne_of_lt (after s sRest))
    · exact eq_of_start_eq sortedRest sRest tRest same

/-- A sorted list of spans is one of them and the spans of other starts. -/
theorem perm_filter_start (j : Span H B C) :
    ∀ {l : List (Span H B C)}, l.Pairwise (fun a b => a.startBlockHeight < b.startBlockHeight) →
      j ∈ l → l.Perm (j :: l.filter fun s => s.startBlockHeight != j.startBlockHeight)
  | x :: rest, sorted, mem => by
    obtain ⟨after, sortedRest⟩ := List.pairwise_cons.mp sorted
    rcases List.mem_cons.mp mem with rfl | mem
    · -- the spans after the erased one start later, so the filter keeps them all
      rw [List.filter_cons_of_neg (by simp), List.filter_eq_self.mpr fun t tMem => by
        simpa using (UInt64.ne_of_lt (after t tMem)).symm]
    · have before : x.startBlockHeight ≠ j.startBlockHeight := UInt64.ne_of_lt (after j mem)
      rw [List.filter_cons_of_pos (by simpa using before)]
      exact ((perm_filter_start j sortedRest mem).cons x).trans (List.Perm.swap j x _)

/-! ### The loops of reserve_span -/

/-- The first loop of reserve_span leaves the hashes after the requested ones at the front. -/
theorem skipRequested_fst (r : H → Bool) :
    ∀ (hs : List H) (spanStartHeight : UInt64),
      (skipRequested r hs spanStartHeight).1 = hs.dropWhile r
  | [], _ => rfl
  | h :: rest, spanStartHeight => by
    rw [skipRequested, List.dropWhile_cons]
    cases r h with
    | true => exact skipRequested_fst r rest _
    | false => rfl

/-- The second loop of reserve_span takes the next hashes, as many as there is room for. -/
theorem takeSpan_fst (maxBlocks : UInt64) :
    ∀ (hs : List H) (spanLength : UInt64) (hashes : List H), spanLength ≤ maxBlocks →
      (takeSpan maxBlocks hs spanLength hashes).1 =
        hashes ++ hs.take (maxBlocks.toNat - spanLength.toNat)
  | [], _, hashes, _ => by rw [takeSpan, List.take_nil, List.append_nil]
  | h :: rest, spanLength, hashes, within => by
    have atMost := UInt64.le_iff_toNat_le.mp within
    rw [takeSpan]
    by_cases room : spanLength < maxBlocks
    · have below := UInt64.lt_iff_toNat_lt.mp room
      have next : (spanLength + 1).toNat = spanLength.toNat + 1 := by
        have := maxBlocks.toNat_lt
        rw [UInt64.toNat_add, UInt64.toNat_one]
        exact Nat.mod_eq_of_lt (by omega)
      have stillWithin : spanLength + 1 ≤ maxBlocks := UInt64.le_iff_toNat_le.mpr (by omega)
      have left : maxBlocks.toNat - spanLength.toNat =
          maxBlocks.toNat - (spanLength.toNat + 1) + 1 := by omega
      rw [if_pos room, takeSpan_fst maxBlocks rest _ _ stillWithin, next, List.append_assoc,
        List.singleton_append, left, List.take_succ_cons]
    · -- the span is full: the loop stops with nothing more
      have full : maxBlocks.toNat - spanLength.toNat = 0 := by
        have := UInt64.not_lt.mp room
        have := UInt64.le_iff_toNat_le.mp this
        omega
      rw [if_neg room, full, List.take_zero, List.append_nil]

/-! ## The bookkeeping -/

/-- No hash of one span is a hash of the other. -/
def HashesDisjoint (s t : Span H B C) : Prop := ∀ h ∈ s.hashes, h ∉ t.hashes

theorem HashesDisjoint.symm {s t : Span H B C} (disjoint : HashesDisjoint s t) :
    HashesDisjoint t s :=
  fun h inT inS => disjoint h inS inT

instance : Std.Symm (HashesDisjoint (H := H) (B := B) (C := C)) := ⟨fun _ _ => HashesDisjoint.symm⟩

/-- What block_queue's bookkeeping should keep: a hash is requested exactly when a span holds
it, and no two spans hold one hash. -/
structure Consistent (q : BlockQueue H B C) : Prop where
  requested_iff : ∀ h, q.requestedHashes h = true ↔ ∃ s ∈ q.blocks, h ∈ s.hashes
  disjoint : q.blocks.Pairwise HashesDisjoint

theorem consistent_empty : (empty : BlockQueue H B C).Consistent :=
  ⟨fun _ => ⟨fun requested => absurd requested Bool.false_ne_true, fun ⟨_, mem, _⟩ =>
    absurd mem List.not_mem_nil⟩, List.Pairwise.nil⟩

/-- The bookkeeping only depends on the hashes of the spans and on which hashes are requested. -/
theorem Consistent.of_perm {q' : BlockQueue H B C} (c : q.Consistent)
    (perm : (q'.blocks.map Span.hashes).Perm (q.blocks.map Span.hashes))
    (same : ∀ h, q'.requestedHashes h = q.requestedHashes h) : q'.Consistent where
  requested_iff h := by
    have held : ∀ l : List (Span H B C), (∃ s ∈ l, h ∈ s.hashes) ↔ ∃ hs ∈ l.map Span.hashes, h ∈ hs :=
      fun l => ⟨fun ⟨s, mem, inS⟩ => ⟨s.hashes, List.mem_map_of_mem mem, inS⟩, fun ⟨_, mem, inHs⟩ =>
        let ⟨s, sMem, eq⟩ := List.mem_map.mp mem
        ⟨s, sMem, eq ▸ inHs⟩⟩
    rw [same, c.requested_iff, held, held]
    exact ⟨fun ⟨hs, mem, inHs⟩ => ⟨hs, perm.mem_iff.mpr mem, inHs⟩,
      fun ⟨hs, mem, inHs⟩ => ⟨hs, perm.mem_iff.mp mem, inHs⟩⟩
  disjoint := by
    have disjointLists : ∀ l : List (Span H B C), l.Pairwise HashesDisjoint ↔
        (l.map Span.hashes).Pairwise fun a b => ∀ h ∈ a, h ∉ b :=
      fun _ => (List.pairwise_map (R := fun a b => ∀ h ∈ a, h ∉ b) (f := Span.hashes)).symm
    rw [disjointLists, perm.pairwise_iff fun disjoint h inB inA => disjoint h inA inB]
    exact (disjointLists _).mp c.disjoint

/-- A hash a span holds is held by no other span. -/
theorem Consistent.not_mem_of_mem (c : q.Consistent) {s t : Span H B C} (sMem : s ∈ q.blocks)
    (tMem : t ∈ q.blocks) (other : s.startBlockHeight ≠ t.startBlockHeight) {h : H}
    (held : h ∈ s.hashes) : h ∉ t.hashes :=
  c.disjoint.forall sMem tMem (fun same => other (congrArg Span.startBlockHeight same)) h held

/-! ## Erasing and inserting spans keep the bookkeeping -/

variable [DecidableEq H]

@[simp] theorem eraseBlock_blocks :
    (q.eraseBlock j).blocks = q.blocks.filter fun s => s.startBlockHeight != j.startBlockHeight :=
  rfl

@[simp] theorem eraseBlock_requestedHashes :
    (q.eraseBlock j).requestedHashes = eraseHashes j.hashes q.requestedHashes := rfl

theorem insertHashes_apply :
    ∀ (hashes : List H) (r : H → Bool) (h : H), insertHashes hashes r h = (r h || hashes.contains h)
  | [], r, h => by rw [insertHashes, List.foldl_nil, List.contains_nil, Bool.or_false]
  | x :: hashes, r, h => by
    rw [insertHashes, List.foldl_cons, ← insertHashes, insertHashes_apply hashes, List.contains_cons]
    by_cases same : h = x
    · subst same
      simp
    · rw [Function.update_of_ne same, beq_false_of_ne same, Bool.false_or]

theorem eraseHashes_apply :
    ∀ (hashes : List H) (r : H → Bool) (h : H), eraseHashes hashes r h = (r h && !hashes.contains h)
  | [], r, h => by rw [eraseHashes, List.foldl_nil, List.contains_nil, Bool.not_false, Bool.and_true]
  | x :: hashes, r, h => by
    rw [eraseHashes, List.foldl_cons, ← eraseHashes, eraseHashes_apply hashes, List.contains_cons]
    by_cases same : h = x
    · subst same
      simp
    · rw [Function.update_of_ne same, beq_false_of_ne same, Bool.false_or]

theorem perm_eraseBlock (mem : j ∈ q.blocks) : q.blocks.Perm (j :: (q.eraseBlock j).blocks) :=
  perm_filter_start j q.sorted mem

theorem mem_eraseBlock {t : Span H B C} :
    t ∈ (q.eraseBlock j).blocks ↔ t ∈ q.blocks ∧ t.startBlockHeight ≠ j.startBlockHeight := by
  rw [eraseBlock_blocks, List.mem_filter, bne_iff_ne]

theorem Consistent.eraseBlock (c : q.Consistent) (mem : j ∈ q.blocks) :
    (q.eraseBlock j).Consistent where
  requested_iff h := by
    rw [eraseBlock_requestedHashes, eraseHashes_apply, Bool.and_eq_true, c.requested_iff,
      Bool.not_eq_true', Bool.eq_false_iff, ne_eq, List.contains_iff_mem]
    constructor
    · -- the span that holds the hash is not the erased one, which does not hold it
      rintro ⟨⟨s, sMem, held⟩, notErased⟩
      refine ⟨s, mem_eraseBlock.mpr ⟨sMem, fun same => notErased ?_⟩, held⟩
      rwa [← eq_of_start_eq q.sorted sMem mem same]
    · rintro ⟨s, sMem, held⟩
      obtain ⟨sKept, other⟩ := mem_eraseBlock.mp sMem
      exact ⟨⟨s, sKept, held⟩, c.not_mem_of_mem sKept mem other held⟩
  disjoint := c.disjoint.filter _

/-- The loop of erase_block's callers erases spans that are still in the queue: the walk is over
spans of the queue, and those after an erased one start later. -/
theorem Consistent.eraseBlocksWhere (condition : Span H B C → Bool) :
    ∀ {spans : List (Span H B C)} {q : BlockQueue H B C}, q.Consistent → spans.Sublist q.blocks →
      (q.eraseBlocksWhere condition spans).Consistent
  | [], _, c, _ => c
  | j :: spans, q, c, sub => by
    have mem : j ∈ q.blocks := sub.subset List.mem_cons_self
    have rest := List.sublist_of_cons_sublist sub
    rw [BlockQueue.eraseBlocksWhere, List.foldl_cons, ← BlockQueue.eraseBlocksWhere]
    split_ifs
    · have later : ∀ t ∈ spans, t.startBlockHeight ≠ j.startBlockHeight := fun t tMem =>
        (UInt64.ne_of_lt (List.rel_of_pairwise_cons (q.sorted.sublist sub) tMem)).symm
      have kept : spans.Sublist (q.eraseBlock j).blocks := by
        rw [eraseBlock_blocks]
        have filtered := rest.filter fun s => s.startBlockHeight != j.startBlockHeight
        rwa [List.filter_eq_self.mpr fun t tMem => bne_iff_ne.mpr (later t tMem)] at filtered
      exact Consistent.eraseBlocksWhere condition (c.eraseBlock mem) kept
    · exact Consistent.eraseBlocksWhere condition c rest

theorem removeSpan_of_find {start : UInt64} {i : Span H B C}
    (found : q.blocks.find? (fun i => i.startBlockHeight == start) = some i) :
    q.removeSpan start = (true, i.hashes, q.eraseBlock i) := by
  rw [removeSpan, found]

theorem removeSpan_of_none {start : UInt64}
    (found : q.blocks.find? (fun i => i.startBlockHeight == start) = none) :
    q.removeSpan start = (false, [], q) := by
  rw [removeSpan, found]

theorem Consistent.removeSpan (c : q.Consistent) (start : UInt64) :
    (q.removeSpan start).2.2.Consistent := by
  cases found : q.blocks.find? (fun i => i.startBlockHeight == start) with
  | none => rw [removeSpan_of_none found]; exact c
  | some i => rw [removeSpan_of_find found]; exact c.eraseBlock (List.mem_of_find?_eq_some found)

/-- A span at a free start whose hashes no span holds. -/
theorem Consistent.insertFresh (c : q.Consistent)
    (absent : ∀ t ∈ q.blocks, t.startBlockHeight ≠ s.startBlockHeight)
    (fresh : ∀ h ∈ s.hashes, q.requestedHashes h = false) :
    ((q.withRequested (insertHashes s.hashes q.requestedHashes)).insert s).Consistent where
  requested_iff h := by
    have perm := insertSpan_perm absent
    rw [insert_requestedHashes, withRequested_requestedHashes, insertHashes_apply,
      Bool.or_eq_true, c.requested_iff, List.contains_iff_mem, insert_blocks, withRequested_blocks]
    constructor
    · rintro (⟨t, mem, held⟩ | held)
      · exact ⟨t, perm.mem_iff.mpr (List.mem_cons_of_mem s mem), held⟩
      · exact ⟨s, perm.mem_iff.mpr List.mem_cons_self, held⟩
    · rintro ⟨t, mem, held⟩
      rcases List.mem_cons.mp (perm.mem_iff.mp mem) with rfl | mem
      · exact .inr held
      · exact .inl ⟨t, mem, held⟩
  disjoint := by
    rw [insert_blocks, withRequested_blocks,
      (insertSpan_perm absent).pairwise_iff fun disjoint => disjoint.symm, List.pairwise_cons]
    refine ⟨fun t mem h held inT => ?_, c.disjoint⟩
    have requested := (c.requested_iff h).mpr ⟨t, mem, inT⟩
    rw [fresh h held] at requested
    exact Bool.false_ne_true requested

/-- A span with no hashes: added, or dropped where its start is taken. -/
theorem Consistent.insert (c : q.Consistent) (noHashes : s.hashes = []) :
    (q.insert s).Consistent := by
  by_cases taken : ∃ t ∈ q.blocks, t.startBlockHeight = s.startBlockHeight
  · obtain ⟨t, mem, same⟩ := taken
    exact c.of_perm (by rw [insert_blocks, insertSpan_of_taken q.sorted mem same]) fun _ => rfl
  · have absent : ∀ t ∈ q.blocks, t.startBlockHeight ≠ s.startBlockHeight :=
      fun t mem same => taken ⟨t, mem, same⟩
    have added := c.insertFresh absent (by rw [noHashes]; exact fun h mem => absurd mem List.not_mem_nil)
    rw [noHashes] at added
    exact added

/-- add_blocks with a count adds an empty span, unless it throws. -/
theorem Consistent.addBlocksScheduled (c : q.Consistent) {height nblocks : UInt64}
    {connectionId : C} {q' : BlockQueue H B C}
    (done : q.addBlocksScheduled height nblocks connectionId = some q') : q'.Consistent := by
  rw [BlockQueue.addBlocksScheduled] at done
  by_cases empty : nblocks = 0
  · rw [if_pos empty] at done
    cases done
  · rw [if_neg empty] at done
    cases done
    exact c.insert rfl

/-! ## The operations of a connection keep it, when the hashes they record are new -/

variable [DecidableEq C]

theorem Consistent.flushSpans (c : q.Consistent) (connectionId : C) (all : Bool) :
    (q.flushSpans connectionId all).Consistent :=
  c.eraseBlocksWhere _ (List.Sublist.refl _)

theorem Consistent.flushStaleSpans (c : q.Consistent) (nilUuid : C) (liveConnections : List C) :
    (q.flushStaleSpans nilUuid liveConnections).Consistent := by
  apply c.eraseBlocksWhere
  split
  · next i rest walked =>
    rw [walked]
    split_ifs
    · exact List.sublist_cons_self i rest
    · exact List.Sublist.refl _
  · exact List.nil_sublist _

theorem Consistent.removeSpans (c : q.Consistent) (connectionId : C) (startBlockHeight : UInt64) :
    (q.removeSpans connectionId startBlockHeight).Consistent :=
  c.eraseBlocksWhere _ (List.Sublist.refl _)

theorem setSpanHashes_of_find {startHeight : UInt64} {connectionId : C} {hashes : List H}
    {i : Span H B C}
    (found : q.blocks.find? (fun i => i.startBlockHeight == startHeight &&
      i.connectionId == connectionId) = some i) :
    q.setSpanHashes startHeight connectionId hashes =
      ((q.eraseBlock i).withRequested (insertHashes hashes (q.eraseBlock i).requestedHashes)).insert
        { i with hashes := hashes } := by
  rw [setSpanHashes, found]

/-- set_span_hashes keeps the bookkeeping when no other span holds the new hashes. -/
theorem Consistent.setSpanHashes (c : q.Consistent) {startHeight : UInt64} {connectionId : C}
    {hashes : List H}
    (fresh : ∀ h ∈ hashes, ∀ t ∈ q.blocks, h ∈ t.hashes →
      t.startBlockHeight = startHeight ∧ t.connectionId = connectionId) :
    (q.setSpanHashes startHeight connectionId hashes).Consistent := by
  cases found : q.blocks.find? (fun i => i.startBlockHeight == startHeight &&
      i.connectionId == connectionId) with
  | none => rw [BlockQueue.setSpanHashes, found]; exact c
  | some i =>
    have mem := List.mem_of_find?_eq_some found
    have atStart : i.startBlockHeight = startHeight := by
      have matched := List.find?_some found
      simp only [Bool.and_eq_true, beq_iff_eq] at matched
      exact matched.1
    have erased := c.eraseBlock mem
    rw [setSpanHashes_of_find found]
    refine erased.insertFresh (fun t tMem => (mem_eraseBlock.mp tMem).2) fun h held => ?_
    -- a span that held a new hash would be at the start of the erased one
    cases requested : (q.eraseBlock i).requestedHashes h with
    | false => rfl
    | true =>
      obtain ⟨t, tMem, inT⟩ := (erased.requested_iff h).mp requested
      obtain ⟨tKept, other⟩ := mem_eraseBlock.mp tMem
      exact absurd ((fresh h held t tKept inT).1.trans atStart.symm) other

/-- add_blocks with the blocks: the span at that start, if any, is replaced by the filled span
with its hashes, so the same hashes stay requested. -/
theorem Consistent.addBlocks (c : q.Consistent) (height : UInt64) (bcel : List B)
    (connectionId : C) : (q.addBlocks height bcel connectionId).Consistent := by
  cases found : q.blocks.find? (fun i => i.startBlockHeight == height) with
  | none =>
    rw [BlockQueue.addBlocks, removeSpan_of_none found]
    exact c.insert rfl
  | some i =>
    have mem := List.mem_of_find?_eq_some found
    have atHeight : i.startBlockHeight = height := by simpa using List.find?_some found
    let new : Span H B C := ⟨height, [], bcel, connectionId, UInt64.ofNat bcel.length⟩
    have absent : ∀ t ∈ (q.eraseBlock i).blocks, t.startBlockHeight ≠ new.startBlockHeight :=
      fun t tMem => by
        show t.startBlockHeight ≠ height
        rw [← atHeight]
        exact (mem_eraseBlock.mp tMem).2
    -- set_span_hashes finds the filled span, the only one at that start
    have refound : (((q.eraseBlock i).insert new).withRequested (insertHashes i.hashes
        ((q.eraseBlock i).insert new).requestedHashes)).blocks.find?
          (fun i => i.startBlockHeight == height && i.connectionId == connectionId) = some new := by
      rw [withRequested_blocks, insert_blocks]
      refine find?_insertSpan absent (fun t tMem => ?_) (by simp [new])
      have other : t.startBlockHeight ≠ height := absent t tMem
      simp [other]
    rw [BlockQueue.addBlocks, removeSpan_of_find found]
    dsimp only
    rw [if_pos rfl, setSpanHashes_of_find refound]
    apply c.of_perm
    · -- the filled span takes the place of the erased one, with its hashes
      let filled : Span H B C := { new with hashes := i.hashes }
      have kept : ((insertSpan new (q.eraseBlock i).blocks).filter
          fun s => s.startBlockHeight != new.startBlockHeight).Perm (q.eraseBlock i).blocks := by
        have others : (q.eraseBlock i).blocks.filter
            (fun s => s.startBlockHeight != new.startBlockHeight) = (q.eraseBlock i).blocks :=
          List.filter_eq_self.mpr fun t tMem => by simpa using absent t tMem
        have perm := (insertSpan_perm absent).filter
          (fun s => s.startBlockHeight != new.startBlockHeight)
        rwa [List.filter_cons_of_neg (by simp), others] at perm
      have fresh : ∀ t ∈ (insertSpan new (q.eraseBlock i).blocks).filter
          (fun s => s.startBlockHeight != new.startBlockHeight),
          t.startBlockHeight ≠ filled.startBlockHeight := fun t tMem => by
        simpa using (List.mem_filter.mp tMem).2
      have placed := (insertSpan_perm fresh).trans (kept.cons filled)
      exact (placed.map Span.hashes).trans ((perm_eraseBlock mem).map Span.hashes).symm
    · intro h
      simp only [insert_requestedHashes, withRequested_requestedHashes, eraseBlock_requestedHashes,
        insertHashes_apply, eraseHashes_apply]
      cases held : i.hashes.contains h
      · simp [new]
      · have requested : q.requestedHashes h = true :=
          (c.requested_iff h).mpr ⟨i, mem, List.contains_iff_mem.mp held⟩
        simp [requested, new]

/-- reserve_span keeps the bookkeeping when the hashes it records, those after the requested ones
it skips, are requested by no span. -/
theorem Consistent.reserveSpan (c : q.Consistent)
    (firstBlockHeight lastBlockHeight maxBlocks : UInt64) (connectionId : C)
    (blockHashes : List H)
    (fresh : ∀ h ∈ (blockHashes.dropWhile q.requestedHashes).take maxBlocks.toNat,
      q.requestedHashes h = false) :
    (q.reserveSpan firstBlockHeight lastBlockHeight maxBlocks connectionId blockHashes).2.Consistent := by
  rw [BlockQueue.reserveSpan]
  by_cases early : lastBlockHeight < firstBlockHeight ∨ maxBlocks = 0
  · rw [if_pos early]
    exact c
  rw [if_neg early]
  dsimp only
  by_cases nothing : (takeSpan maxBlocks (skipRequested q.requestedHashes blockHashes
      (lastBlockHeight - UInt64.ofNat blockHashes.length + 1)).1 0 []).2 = 0
  · rw [if_pos nothing]
    exact c
  rw [if_neg nothing, BlockQueue.addBlocksScheduled, if_neg nothing]
  dsimp only
  refine (c.insert rfl).setSpanHashes fun h held t tMem inT => ?_
  rw [takeSpan_fst _ _ _ _ UInt64.zero_le, List.nil_append, UInt64.toNat_zero, Nat.sub_zero,
    skipRequested_fst] at held
  -- the scheduled span holds no hash, and no older span holds a recorded one
  rcases mem_insertSpan tMem with rfl | older
  · exact absurd inT List.not_mem_nil
  · have requested := (c.requested_iff h).mpr ⟨t, older, inT⟩
    rw [fresh h held] at requested
    exact absurd requested Bool.false_ne_true

/-- Without that condition reserve_span breaks the bookkeeping, since it skips only the requested
hashes at the front of its list. Connection 1 reserves hash 2 at height 1; connection 2 then
reserves hashes 1 and 2 from height 0, so two spans hold 2, and removing the span at 1 marks 2 as
not requested while the span at 0 still holds it. A span whose start is taken is not added, yet
reserve_span reports it: with blocks from connection 0 at height 0, connection 1 is told it
reserved height 0, and the queue has no span of it. -/
theorem reserve_span_reserves_requested_hash :
    ((empty : BlockQueue Nat Unit Nat).reserveSpan 0 1 10 1 [2]).2.requested 2 = true ∧
    (((empty : BlockQueue Nat Unit Nat).reserveSpan 0 1 10 1 [2]).2.reserveSpan 0 1 10 2
      [1, 2]).1 = (0, 2) ∧
    ((((empty : BlockQueue Nat Unit Nat).reserveSpan 0 1 10 1 [2]).2.reserveSpan 0 1 10 2
      [1, 2]).2.blocks.map fun s => (s.startBlockHeight, s.connectionId, s.hashes)) =
        [(0, 2, [1, 2]), (1, 1, [2])] ∧
    ((((empty : BlockQueue Nat Unit Nat).reserveSpan 0 1 10 1 [2]).2.reserveSpan 0 1 10 2
      [1, 2]).2.removeSpan 1).2.2.requested 2 = false ∧
    (((((empty : BlockQueue Nat Unit Nat).reserveSpan 0 1 10 1 [2]).2.reserveSpan 0 1 10 2
      [1, 2]).2.removeSpan 1).2.2.blocks.map fun s => (s.startBlockHeight, s.connectionId, s.hashes)) =
        [(0, 2, [1, 2])] ∧
    (((empty : BlockQueue Nat Unit Nat).addBlocks 0 [()] 0).reserveSpan 0 0 10 1 [7]).1 = (0, 1) ∧
    ((((empty : BlockQueue Nat Unit Nat).addBlocks 0 [()] 0).reserveSpan 0 0 10 1 [7]).2.blocks.map
      fun s => (s.startBlockHeight, s.connectionId, s.hashes)) = [(0, 0, [])] := by
  decide

/-! ## Runs of the public operations -/

/-- The public operations of block_queue that change its spans. -/
inductive Call (H B C : Type) where
  | addBlocks (height : UInt64) (bcel : List B) (connectionId : C)
  | addBlocksScheduled (height nblocks : UInt64) (connectionId : C)
  | reserveSpan (firstBlockHeight lastBlockHeight maxBlocks : UInt64) (connectionId : C)
      (blockHashes : List H)
  | setSpanHashes (startHeight : UInt64) (connectionId : C) (hashes : List H)
  | removeSpan (startBlockHeight : UInt64)
  | removeSpans (connectionId : C) (startBlockHeight : UInt64)
  | flushSpans (connectionId : C) (all : Bool)
  | flushStaleSpans (liveConnections : List C)

/-- One call on the queue; `none` where it throws. -/
def Call.perform (nilUuid : C) : Call H B C → BlockQueue H B C → Option (BlockQueue H B C)
  | .addBlocks height bcel connectionId, q => some (q.addBlocks height bcel connectionId)
  | .addBlocksScheduled height nblocks connectionId, q =>
    q.addBlocksScheduled height nblocks connectionId
  | .reserveSpan firstBlockHeight lastBlockHeight maxBlocks connectionId blockHashes, q =>
    some (q.reserveSpan firstBlockHeight lastBlockHeight maxBlocks connectionId blockHashes).2
  | .setSpanHashes startHeight connectionId hashes, q =>
    some (q.setSpanHashes startHeight connectionId hashes)
  | .removeSpan startBlockHeight, q => some (q.removeSpan startBlockHeight).2.2
  | .removeSpans connectionId startBlockHeight, q => some (q.removeSpans connectionId startBlockHeight)
  | .flushSpans connectionId all, q => some (q.flushSpans connectionId all)
  | .flushStaleSpans liveConnections, q => some (q.flushStaleSpans nilUuid liveConnections)

/-- A run of calls, stopping where one throws. -/
def performCalls (nilUuid : C) : List (Call H B C) → BlockQueue H B C → Option (BlockQueue H B C)
  | [], q => some q
  | call :: calls, q => (call.perform nilUuid q).bind (performCalls nilUuid calls)

/-- Whether the hashes a call records are new: those reserve_span takes after the requested ones
it skips are requested by no span, and those set_span_hashes sets are held by no span but the one
it sets. -/
def Call.recordsFresh (q : BlockQueue H B C) : Call H B C → Bool
  | .reserveSpan _ _ maxBlocks _ blockHashes =>
    ((blockHashes.dropWhile q.requestedHashes).take maxBlocks.toNat).all (!q.requestedHashes ·)
  | .setSpanHashes startHeight connectionId hashes =>
    q.blocks.all fun t => (t.startBlockHeight == startHeight && t.connectionId == connectionId) ||
      hashes.all (!t.hashes.contains ·)
  | _ => true

/-- Every call of the run records new hashes, in the queue it is called on. -/
def freshRun (nilUuid : C) : List (Call H B C) → BlockQueue H B C → Bool
  | [], _ => true
  | call :: calls, q => call.recordsFresh q && (call.perform nilUuid q).all (freshRun nilUuid calls)

/-- One call keeps the bookkeeping when the hashes it records are new. -/
theorem Consistent.perform (c : q.Consistent) (nilUuid : C) {call : Call H B C}
    (fresh : call.recordsFresh q = true) {q' : BlockQueue H B C}
    (done : call.perform nilUuid q = some q') : q'.Consistent := by
  cases call with
  | addBlocks height bcel connectionId => cases done; exact c.addBlocks height bcel connectionId
  | addBlocksScheduled height nblocks connectionId => exact c.addBlocksScheduled done
  | reserveSpan firstBlockHeight lastBlockHeight maxBlocks connectionId blockHashes =>
    cases done
    refine c.reserveSpan firstBlockHeight lastBlockHeight maxBlocks connectionId blockHashes
      fun h held => ?_
    simpa using List.all_eq_true.mp fresh h held
  | setSpanHashes startHeight connectionId hashes =>
    cases done
    refine c.setSpanHashes fun h held t tMem inT => ?_
    -- a span that holds a new hash is the one being set
    have other := List.all_eq_true.mp fresh t tMem
    simp only [Bool.or_eq_true, Bool.and_eq_true, beq_iff_eq, List.all_eq_true,
      Bool.not_eq_true'] at other
    rcases other with same | notHere
    · exact same
    · exact absurd (List.contains_iff_mem.mpr inT) (Bool.eq_false_iff.mp (notHere h held))
  | removeSpan startBlockHeight => cases done; exact c.removeSpan startBlockHeight
  | removeSpans connectionId startBlockHeight =>
    cases done; exact c.removeSpans connectionId startBlockHeight
  | flushSpans connectionId all => cases done; exact c.flushSpans connectionId all
  | flushStaleSpans liveConnections => cases done; exact c.flushStaleSpans nilUuid liveConnections

/-- Over every run whose calls record new hashes, block_queue's bookkeeping holds after each call:
a hash is requested exactly when a span holds it, and no two spans hold one hash. -/
theorem consistent_performCalls (nilUuid : C) :
    ∀ (calls : List (Call H B C)) (q q' : BlockQueue H B C), q.Consistent →
      freshRun nilUuid calls q = true → performCalls nilUuid calls q = some q' → q'.Consistent
  | [], q, q', c, _, done => by
    rw [performCalls] at done
    cases done
    exact c
  | call :: calls, q, q', c, fresh, done => by
    rw [performCalls] at done
    obtain ⟨next, first, rest⟩ := Option.bind_eq_some_iff.mp done
    rw [freshRun, Bool.and_eq_true, first, Option.all_some] at fresh
    exact consistent_performCalls nilUuid calls next q' (c.perform nilUuid fresh.1 first) fresh.2 rest

/-- Two connections reserve the first ten hashes four at a time, the second span is filled, and
the first is removed. -/
theorem consistent_after_two_reservations :
    ∃ q', performCalls 0 [.reserveSpan 0 9 4 1 [1, 2, 3, 4, 5, 6, 7, 8, 9, 10],
      .reserveSpan 0 9 4 2 [1, 2, 3, 4, 5, 6, 7, 8, 9, 10], .addBlocks 4 [(), (), (), ()] 2,
      .removeSpan 0, .flushStaleSpans [2]] (empty : BlockQueue Nat Unit Nat) = some q' ∧
      q'.Consistent :=
  ⟨_, rfl, consistent_performCalls 0 [.reserveSpan 0 9 4 1 [1, 2, 3, 4, 5, 6, 7, 8, 9, 10],
    .reserveSpan 0 9 4 2 [1, 2, 3, 4, 5, 6, 7, 8, 9, 10], .addBlocks 4 [(), (), (), ()] 2,
    .removeSpan 0, .flushStaleSpans [2]] empty _ consistent_empty (by decide) rfl⟩

end BlockQueue

end GraftNetwork.Protocol

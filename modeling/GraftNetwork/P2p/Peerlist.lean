import GraftNetwork.Lib.MultiIndex

/-!
# The peer lists (p2p/net_peerlist.h)

`peerlist_manager` keeps a white list of peers it has talked to, a gray list of peers it has
heard of, and a list of anchor peers. Each is a `boost::multi_index_container` by address and
by time, modelled as a `MultiIndex` (`Lib/MultiIndex.lean`), so each list is ordered by time and
holds an address once by construction.

* `Valid`: no address is on both lists, each list is within its limit, and every address on them
  passes `is_host_allowed`. Every public operation keeps it (`Valid.perform`), so it holds in
  every state a node reaches from a new manager (`peerlist_invariant`).
* `get_white_peer_by_index` and `get_gray_peer_by_index` give an entry exactly below the list's
  size, the most recently seen first (`getPeerByIndex_isSome`,
  `lastSeen_le_of_getPeerByIndex`).

The anchor list is no part of the invariant: append_with_peer_anchor checks no address. The
addresses are a type with its `is_loopback` and `is_local` tests as parameters; times are
`Int`, since they are only compared. The random index of `get_random_gray_peer` and the clock of
`set_peer_just_seen` are inputs. `find_peer`, which walks the lists in address order, and the
archive that saves and loads the lists are left out.
-/

namespace GraftNetwork.P2p

/-- cryptonote_config.h -/
def P2P_LOCAL_WHITE_PEERLIST_LIMIT : Nat := 1000

def P2P_LOCAL_GRAY_PEERLIST_LIMIT : Nat := 5000

/-- peerlist_entry: a peer's address, its id, and when it was last seen. -/
structure PeerlistEntry (A : Type) where
  adr : A
  id : UInt64
  lastSeen : Int
  deriving DecidableEq, Repr

/-- anchor_peerlist_entry: a peer's address, its id, and when it was first seen. -/
structure AnchorPeerlistEntry (A : Type) where
  adr : A
  id : UInt64
  firstSeen : Int
  deriving DecidableEq, Repr

/-- peers_indexed: ordered_unique by address, ordered_non_unique by last_seen. -/
abbrev PeersIndexed (A : Type) := MultiIndex (PeerlistEntry.adr (A := A)) PeerlistEntry.lastSeen

/-- anchor_peers_indexed: ordered_unique by address, ordered_non_unique by first_seen. -/
abbrev AnchorPeersIndexed (A : Type) :=
  MultiIndex (AnchorPeerlistEntry.adr (A := A)) AnchorPeerlistEntry.firstSeen

structure PeerlistManager (A : Type) where
  allowLocalIp : Bool
  peersGray : PeersIndexed A
  peersWhite : PeersIndexed A
  peersAnchor : AnchorPeersIndexed A

namespace PeerlistManager

variable {A : Type}

section Operations

variable [DecidableEq A]

/-! ## The operations -/

/-- A new manager, with no peers; m_allow_local_ip is set by init before the lists are used. -/
def empty : PeerlistManager A := ⟨false, .empty, .empty, .empty⟩

def init (allowLocalIp : Bool) (m : PeerlistManager A) : PeerlistManager A :=
  { m with allowLocalIp := allowLocalIp }

def getWhitePeersCount (m : PeerlistManager A) : Nat := m.peersWhite.size

def getGrayPeersCount (m : PeerlistManager A) : Nat := m.peersGray.size

/-- The loop of trim_white_peerlist and trim_gray_peerlist: while the list holds more than
`limit` entries, the first of the by_time index, the least recently seen, is erased. Each round
erases one entry, so as many rounds as entries are enough. -/
def trimLoop (limit : Nat) : Nat → PeersIndexed A → PeersIndexed A
  | 0, peers => peers
  | fuel + 1, peers => if peers.size > limit then trimLoop limit fuel peers.eraseFirst else peers

def trimPeerlist (limit : Nat) (peers : PeersIndexed A) : PeersIndexed A :=
  trimLoop limit peers.size peers

def trimGrayPeerlist (m : PeerlistManager A) : PeerlistManager A :=
  { m with peersGray := trimPeerlist P2P_LOCAL_GRAY_PEERLIST_LIMIT m.peersGray }

def trimWhitePeerlist (m : PeerlistManager A) : PeerlistManager A :=
  { m with peersWhite := trimPeerlist P2P_LOCAL_WHITE_PEERLIST_LIMIT m.peersWhite }

/-- get_white_peer_by_index and get_gray_peer_by_index: entry `i` back from the end of the
by_time index. -/
def getPeerByIndex (peers : PeersIndexed A) (i : Nat) : Option (PeerlistEntry A) :=
  if i ≥ peers.size then none
  else peers.elements[peers.size - 1 - i]?

def getWhitePeerByIndex (m : PeerlistManager A) (i : Nat) : Option (PeerlistEntry A) :=
  getPeerByIndex m.peersWhite i

def getGrayPeerByIndex (m : PeerlistManager A) (i : Nat) : Option (PeerlistEntry A) :=
  getPeerByIndex m.peersGray i

/-- get_random_gray_peer, with the random size_t as input. -/
def getRandomGrayPeer (random : UInt64) (m : PeerlistManager A) : Option (PeerlistEntry A) :=
  if m.peersGray.size = 0 then none
  else
    let randomIndex := random.toNat % m.peersGray.size
    m.peersGray.elements[m.peersGray.size - 1 - randomIndex]?

/-- The loop of get_peerlist_head over the white list from its most recent end: entries never
seen are passed over, and the loop stops after `depth` entries. -/
def peerlistHeadLoop (depth : UInt32) :
    List (PeerlistEntry A) → UInt32 → List (PeerlistEntry A) → List (PeerlistEntry A)
  | [], _, bsHead => bsHead
  | vl :: rest, cnt, bsHead =>
    if vl.lastSeen = 0 then peerlistHeadLoop depth rest cnt bsHead
    else if cnt ≥ depth then bsHead
    else peerlistHeadLoop depth rest (cnt + 1) (bsHead ++ [vl])

def getPeerlistHead (bsHead : List (PeerlistEntry A)) (depth : UInt32) (m : PeerlistManager A) :
    List (PeerlistEntry A) :=
  peerlistHeadLoop depth m.peersWhite.elements.reverse 0 bsHead

def getPeerlistFull (plGray plWhite : List (PeerlistEntry A)) (m : PeerlistManager A) :
    List (PeerlistEntry A) × List (PeerlistEntry A) :=
  (plGray ++ m.peersGray.elements.reverse, plWhite ++ m.peersWhite.elements.reverse)

def appendWithPeerAnchor (ple : AnchorPeerlistEntry A) (m : PeerlistManager A) :
    PeerlistManager A :=
  match m.peersAnchor.find ple.adr with
  | none => { m with peersAnchor := m.peersAnchor.insert ple }
  | some _ => m

def removeFromPeerGray (pe : PeerlistEntry A) (m : PeerlistManager A) : PeerlistManager A :=
  match m.peersGray.find pe.adr with
  | some _ => { m with peersGray := m.peersGray.erase pe.adr }
  | none => m

/-- get_and_empty_anchor_peerlist: the anchors, in by_time order, after those in `apl`. -/
def getAndEmptyAnchorPeerlist (apl : List (AnchorPeerlistEntry A)) (m : PeerlistManager A) :
    List (AnchorPeerlistEntry A) × PeerlistManager A :=
  (apl ++ m.peersAnchor.elements, { m with peersAnchor := .empty })

def removeFromPeerAnchor (addr : A) (m : PeerlistManager A) : PeerlistManager A :=
  match m.peersAnchor.find addr with
  | some _ => { m with peersAnchor := m.peersAnchor.erase addr }
  | none => m

section Address

variable (isLoopback isLocal : A → Bool)

/-- is_host_allowed: never a loopback address, and a local one only where allowed. -/
def isHostAllowed (m : PeerlistManager A) (address : A) : Bool :=
  if isLoopback address then false
  else if !m.allowLocalIp && isLocal address then false
  else true

/-- append_with_peer_white: a new address is added, and the list trimmed; a known one is
updated. The address leaves the gray list. -/
def appendWithPeerWhite (ple : PeerlistEntry A) (m : PeerlistManager A) : PeerlistManager A :=
  if !m.isHostAllowed isLoopback isLocal ple.adr then m
  else
    let m := match m.peersWhite.find ple.adr with
      | none => trimWhitePeerlist { m with peersWhite := m.peersWhite.insert ple }
      | some _ => { m with peersWhite := m.peersWhite.replace ple }
    match m.peersGray.find ple.adr with
    | some _ => { m with peersGray := m.peersGray.erase ple.adr }
    | none => m

/-- append_with_peer_gray: nothing for an address on the white list; else a new address is
added, and the list trimmed, and a known one updated. -/
def appendWithPeerGray (ple : PeerlistEntry A) (m : PeerlistManager A) : PeerlistManager A :=
  if !m.isHostAllowed isLoopback isLocal ple.adr then m
  else
    match m.peersWhite.find ple.adr with
    | some _ => m
    | none =>
      match m.peersGray.find ple.adr with
      | none => trimGrayPeerlist { m with peersGray := m.peersGray.insert ple }
      | some _ => { m with peersGray := m.peersGray.replace ple }

/-- set_peer_just_seen, with the clock's `time(NULL)` as input. -/
def setPeerJustSeen (peer : UInt64) (addr : A) (now : Int) (m : PeerlistManager A) :
    PeerlistManager A :=
  appendWithPeerWhite isLoopback isLocal ⟨addr, peer, now⟩ m

def mergePeerlist (outerBs : List (PeerlistEntry A)) (m : PeerlistManager A) :
    PeerlistManager A :=
  trimGrayPeerlist (outerBs.foldl (fun m be => appendWithPeerGray isLoopback isLocal be m) m)

end Address

/-! ## Runs -/

/-- The public operations that change the lists; the others only read them. -/
inductive Call (A : Type) where
  | appendWithPeerWhite (ple : PeerlistEntry A)
  | appendWithPeerGray (ple : PeerlistEntry A)
  | appendWithPeerAnchor (ple : AnchorPeerlistEntry A)
  | setPeerJustSeen (peer : UInt64) (addr : A) (now : Int)
  | mergePeerlist (outerBs : List (PeerlistEntry A))
  | removeFromPeerGray (pe : PeerlistEntry A)
  | getAndEmptyAnchorPeerlist
  | removeFromPeerAnchor (addr : A)

section Address

variable (isLoopback isLocal : A → Bool)

def Call.perform : Call A → PeerlistManager A → PeerlistManager A
  | .appendWithPeerWhite ple, m => PeerlistManager.appendWithPeerWhite isLoopback isLocal ple m
  | .appendWithPeerGray ple, m => PeerlistManager.appendWithPeerGray isLoopback isLocal ple m
  | .appendWithPeerAnchor ple, m => PeerlistManager.appendWithPeerAnchor ple m
  | .setPeerJustSeen peer addr now, m =>
    PeerlistManager.setPeerJustSeen isLoopback isLocal peer addr now m
  | .mergePeerlist outerBs, m => PeerlistManager.mergePeerlist isLoopback isLocal outerBs m
  | .removeFromPeerGray pe, m => PeerlistManager.removeFromPeerGray pe m
  | .getAndEmptyAnchorPeerlist, m => (PeerlistManager.getAndEmptyAnchorPeerlist [] m).2
  | .removeFromPeerAnchor addr, m => PeerlistManager.removeFromPeerAnchor addr m

/-- The states of a node's peer lists: a new manager after init, then any calls. -/
inductive Reachable (allowLocalIp : Bool) : PeerlistManager A → Prop
  | init : Reachable allowLocalIp (empty.init allowLocalIp)
  | perform {m : PeerlistManager A} (call : Call A) :
      Reachable allowLocalIp m → Reachable allowLocalIp (call.perform isLoopback isLocal m)

/-- What peerlist_manager should keep: no address on both lists, each list within its limit,
and only allowed addresses. -/
structure Valid (m : PeerlistManager A) : Prop where
  disjoint : ∀ e ∈ m.peersWhite.elements, ∀ f ∈ m.peersGray.elements, e.adr ≠ f.adr
  whiteLimit : m.getWhitePeersCount ≤ P2P_LOCAL_WHITE_PEERLIST_LIMIT
  grayLimit : m.getGrayPeersCount ≤ P2P_LOCAL_GRAY_PEERLIST_LIMIT
  whiteAllowed : ∀ e ∈ m.peersWhite.elements, m.isHostAllowed isLoopback isLocal e.adr = true
  grayAllowed : ∀ e ∈ m.peersGray.elements, m.isHostAllowed isLoopback isLocal e.adr = true

end Address

end Operations

/-! ## Trimming and reading by index -/

/-- The trim loop keeps the most recent entries, as many as the limit allows. -/
theorem trimLoop_elements (limit : Nat) :
    ∀ (fuel : Nat) (peers : PeersIndexed A), peers.size ≤ fuel + limit →
      (trimLoop limit fuel peers).elements = peers.elements.drop (peers.size - limit)
  | 0, peers, within => by
    rw [trimLoop, Nat.sub_eq_zero_of_le (by omega), List.drop_zero]
  | fuel + 1, peers, within => by
    rw [trimLoop]
    split_ifs with tooMany
    · have shrunk : peers.eraseFirst.size = peers.size - 1 := MultiIndex.size_eraseFirst
      rw [trimLoop_elements limit fuel _ (by omega), shrunk,
        show peers.eraseFirst.elements = peers.elements.drop 1 from List.drop_one.symm,
        List.drop_drop]
      congr 1
      omega
    · rw [Nat.sub_eq_zero_of_le (by omega), List.drop_zero]

theorem trimPeerlist_elements (limit : Nat) (peers : PeersIndexed A) :
    (trimPeerlist limit peers).elements = peers.elements.drop (peers.size - limit) :=
  trimLoop_elements limit peers.size peers (Nat.le_add_right _ _)

theorem size_trimPeerlist (limit : Nat) (peers : PeersIndexed A) :
    (trimPeerlist limit peers).size = min peers.size limit := by
  have length := congrArg List.length (trimPeerlist_elements limit peers)
  rw [List.length_drop] at length
  change (trimPeerlist limit peers).size = peers.size - (peers.size - limit) at length
  omega

theorem mem_trimPeerlist {limit : Nat} {peers : PeersIndexed A} {e : PeerlistEntry A}
    (mem : e ∈ (trimPeerlist limit peers).elements) : e ∈ peers.elements := by
  rw [trimPeerlist_elements] at mem
  exact List.mem_of_mem_drop mem

theorem getPeerByIndex_isSome (peers : PeersIndexed A) (i : Nat) :
    (getPeerByIndex peers i).isSome ↔ i < peers.size := by
  unfold getPeerByIndex
  split_ifs with beyond
  · simp only [Option.isSome_none, Bool.false_eq_true, false_iff]
    omega
  · have inside : peers.size - 1 - i < peers.elements.length := by
      change peers.size - 1 - i < peers.size
      omega
    rw [List.getElem?_eq_getElem inside, Option.isSome_some]
    simp only [true_iff]
    omega

/-- Entries further back from the end of the by_time index were seen no later. -/
theorem lastSeen_le_of_getPeerByIndex {peers : PeersIndexed A} {i j : Nat}
    {e f : PeerlistEntry A} (le : i ≤ j) (atI : getPeerByIndex peers i = some e)
    (atJ : getPeerByIndex peers j = some f) : f.lastSeen ≤ e.lastSeen := by
  by_cases same : i = j
  · subst same
    rw [atI] at atJ
    cases atJ
    exact le_refl _
  unfold getPeerByIndex at atI atJ
  split_ifs at atI atJ with iBeyond jBeyond
  obtain ⟨iInside, rfl⟩ := List.getElem?_eq_some_iff.mp atI
  obtain ⟨jInside, rfl⟩ := List.getElem?_eq_some_iff.mp atJ
  -- the later index stands earlier in the by_time order
  have earlier : peers.size - 1 - j < peers.size - 1 - i := by omega
  exact List.pairwise_iff_getElem.mp peers.sorted _ _ jInside iInside earlier

section Address

variable (isLoopback isLocal : A → Bool)

/-- is_host_allowed reads only m_allow_local_ip of the manager. -/
theorem isHostAllowed_congr {m m' : PeerlistManager A} (flag : m'.allowLocalIp = m.allowLocalIp) :
    m'.isHostAllowed isLoopback isLocal = m.isHostAllowed isLoopback isLocal := by
  funext address
  unfold isHostAllowed
  rw [flag]

/-! ## The invariant -/

variable {isLoopback isLocal} {m : PeerlistManager A}

theorem valid_init (allowLocalIp : Bool) :
    ((empty : PeerlistManager A).init allowLocalIp).Valid isLoopback isLocal where
  disjoint _ mem := absurd mem List.not_mem_nil
  whiteLimit := Nat.zero_le _
  grayLimit := Nat.zero_le _
  whiteAllowed _ mem := absurd mem List.not_mem_nil
  grayAllowed _ mem := absurd mem List.not_mem_nil

/-- A state with fewer entries on each list, and the same flag, is valid too. -/
theorem Valid.mono {m' : PeerlistManager A} (valid : m.Valid isLoopback isLocal)
    (flag : m'.allowLocalIp = m.allowLocalIp)
    (white : ∀ e ∈ m'.peersWhite.elements, e ∈ m.peersWhite.elements)
    (gray : ∀ f ∈ m'.peersGray.elements, f ∈ m.peersGray.elements)
    (whiteCount : m'.getWhitePeersCount ≤ m.getWhitePeersCount)
    (grayCount : m'.getGrayPeersCount ≤ m.getGrayPeersCount) : m'.Valid isLoopback isLocal where
  disjoint e eMem f fMem := valid.disjoint e (white e eMem) f (gray f fMem)
  whiteLimit := whiteCount.trans valid.whiteLimit
  grayLimit := grayCount.trans valid.grayLimit
  whiteAllowed e eMem := by
    rw [isHostAllowed_congr isLoopback isLocal flag]
    exact valid.whiteAllowed e (white e eMem)
  grayAllowed f fMem := by
    rw [isHostAllowed_congr isLoopback isLocal flag]
    exact valid.grayAllowed f (gray f fMem)

/-- The anchors are no part of the invariant. -/
theorem Valid.withAnchors (valid : m.Valid isLoopback isLocal) (anchors : AnchorPeersIndexed A) :
    ({ m with peersAnchor := anchors } : PeerlistManager A).Valid isLoopback isLocal :=
  ⟨valid.disjoint, valid.whiteLimit, valid.grayLimit, valid.whiteAllowed, valid.grayAllowed⟩

theorem Valid.trimGrayPeerlist (valid : m.Valid isLoopback isLocal) :
    m.trimGrayPeerlist.Valid isLoopback isLocal :=
  valid.mono rfl (fun _ mem => mem) (fun _ mem => mem_trimPeerlist mem) (le_refl _)
    (by
      change (trimPeerlist _ m.peersGray).size ≤ m.peersGray.size
      rw [size_trimPeerlist]
      exact min_le_left _ _)

end Address

/-! ## What each operation does to the lists -/

variable [DecidableEq A]

@[simp] theorem removeFromPeerGray_peersWhite (pe : PeerlistEntry A) (m : PeerlistManager A) :
    (m.removeFromPeerGray pe).peersWhite = m.peersWhite := by
  unfold removeFromPeerGray
  split <;> rfl

@[simp] theorem removeFromPeerGray_allowLocalIp (pe : PeerlistEntry A) (m : PeerlistManager A) :
    (m.removeFromPeerGray pe).allowLocalIp = m.allowLocalIp := by
  unfold removeFromPeerGray
  split <;> rfl

/-- remove_from_peer_gray leaves the gray list without the address, whether or not it was there. -/
theorem mem_removeFromPeerGray {pe f : PeerlistEntry A} {m : PeerlistManager A} :
    f ∈ (m.removeFromPeerGray pe).peersGray.elements ↔
      f ∈ m.peersGray.elements ∧ f.adr ≠ pe.adr := by
  unfold removeFromPeerGray
  cases found : m.peersGray.find pe.adr with
  | some _ => exact MultiIndex.mem_erase
  | none =>
    have absent := MultiIndex.find_eq_none.mp found
    exact ⟨fun mem => ⟨mem, absent f mem⟩, And.left⟩

theorem grayCount_removeFromPeerGray_le (pe : PeerlistEntry A) (m : PeerlistManager A) :
    (m.removeFromPeerGray pe).getGrayPeersCount ≤ m.getGrayPeersCount := by
  unfold removeFromPeerGray
  split
  · exact MultiIndex.size_erase_le _
  · exact le_refl _

section Address

variable (isLoopback isLocal : A → Bool)

/-- Everything append_with_peer_white does: for an allowed address, a white list of the old
entries and `ple`, within the limit if the old one was, and then the address leaves the gray
list. -/
theorem appendWithPeerWhite_cases (ple : PeerlistEntry A) (m : PeerlistManager A) :
    m.appendWithPeerWhite isLoopback isLocal ple = m ∨
      ∃ white : PeersIndexed A, m.isHostAllowed isLoopback isLocal ple.adr = true ∧
        (∀ e ∈ white.elements, e = ple ∨ e ∈ m.peersWhite.elements) ∧
        (m.getWhitePeersCount ≤ P2P_LOCAL_WHITE_PEERLIST_LIMIT →
          white.size ≤ P2P_LOCAL_WHITE_PEERLIST_LIMIT) ∧
        m.appendWithPeerWhite isLoopback isLocal ple =
          ({ m with peersWhite := white } : PeerlistManager A).removeFromPeerGray ple := by
  unfold appendWithPeerWhite
  by_cases allowed : m.isHostAllowed isLoopback isLocal ple.adr = true
  · rw [if_neg (by rw [allowed]; decide)]
    right
    cases found : m.peersWhite.find ple.adr with
    | none =>
      -- a new address: inserted, then the list is trimmed
      refine ⟨trimPeerlist P2P_LOCAL_WHITE_PEERLIST_LIMIT (m.peersWhite.insert ple), allowed,
        fun e mem => MultiIndex.mem_insert (mem_trimPeerlist mem), fun _ => ?_, rfl⟩
      rw [size_trimPeerlist]
      exact min_le_right _ _
    | some _ =>
      -- a known address: its entry is replaced, and the size stays
      exact ⟨m.peersWhite.replace ple, allowed, fun e mem => MultiIndex.mem_replace mem,
        fun within => (MultiIndex.size_replace ple).trans_le within, rfl⟩
  · left
    rw [if_pos (by simpa using allowed)]

/-- Everything append_with_peer_gray does: for an allowed address not on the white list, a gray
list of the old entries and `ple`, within the limit if the old one was. -/
theorem appendWithPeerGray_cases (ple : PeerlistEntry A) (m : PeerlistManager A) :
    m.appendWithPeerGray isLoopback isLocal ple = m ∨
      ∃ gray : PeersIndexed A, m.isHostAllowed isLoopback isLocal ple.adr = true ∧
        (∀ e ∈ m.peersWhite.elements, e.adr ≠ ple.adr) ∧
        (∀ f ∈ gray.elements, f = ple ∨ f ∈ m.peersGray.elements) ∧
        (m.getGrayPeersCount ≤ P2P_LOCAL_GRAY_PEERLIST_LIMIT →
          gray.size ≤ P2P_LOCAL_GRAY_PEERLIST_LIMIT) ∧
        m.appendWithPeerGray isLoopback isLocal ple = { m with peersGray := gray } := by
  unfold appendWithPeerGray
  by_cases allowed : m.isHostAllowed isLoopback isLocal ple.adr = true
  · rw [if_neg (by rw [allowed]; decide)]
    cases onWhite : m.peersWhite.find ple.adr with
    | some _ => exact .inl rfl
    | none =>
      right
      have absent := MultiIndex.find_eq_none.mp onWhite
      cases found : m.peersGray.find ple.adr with
      | none =>
        refine ⟨trimPeerlist P2P_LOCAL_GRAY_PEERLIST_LIMIT (m.peersGray.insert ple), allowed,
          absent, fun f mem => MultiIndex.mem_insert (mem_trimPeerlist mem), fun _ => ?_, rfl⟩
        rw [size_trimPeerlist]
        exact min_le_right _ _
      | some _ =>
        exact ⟨m.peersGray.replace ple, allowed, absent, fun f mem => MultiIndex.mem_replace mem,
          fun within => (MultiIndex.size_replace ple).trans_le within, rfl⟩
  · left
    rw [if_pos (by simpa using allowed)]

/-! ## Every operation keeps the lists valid -/

variable {isLoopback isLocal} {m : PeerlistManager A}

theorem Valid.removeFromPeerGray (valid : m.Valid isLoopback isLocal) (pe : PeerlistEntry A) :
    (m.removeFromPeerGray pe).Valid isLoopback isLocal :=
  valid.mono (removeFromPeerGray_allowLocalIp pe m)
    (fun e mem => by rwa [removeFromPeerGray_peersWhite] at mem)
    (fun f mem => (mem_removeFromPeerGray.mp mem).1)
    (by rw [getWhitePeersCount, removeFromPeerGray_peersWhite]; rfl)
    (grayCount_removeFromPeerGray_le pe m)

theorem Valid.appendWithPeerWhite (valid : m.Valid isLoopback isLocal) (ple : PeerlistEntry A) :
    (m.appendWithPeerWhite isLoopback isLocal ple).Valid isLoopback isLocal := by
  rcases appendWithPeerWhite_cases isLoopback isLocal ple m with
    same | ⟨white, allowed, fromOld, within, result⟩
  · rw [same]
    exact valid
  rw [result]
  have flag : (({ m with peersWhite := white } : PeerlistManager A).removeFromPeerGray
      ple).allowLocalIp = m.allowLocalIp := removeFromPeerGray_allowLocalIp _ _
  constructor
  · -- the white list gained only `ple`, whose address has left the gray list
    intro e eMem f fMem
    rw [removeFromPeerGray_peersWhite] at eMem
    obtain ⟨fOld, fOther⟩ := mem_removeFromPeerGray.mp fMem
    rcases fromOld e eMem with rfl | eOld
    · exact fOther.symm
    · exact valid.disjoint e eOld f fOld
  · rw [getWhitePeersCount, removeFromPeerGray_peersWhite]
    exact within valid.whiteLimit
  · exact (grayCount_removeFromPeerGray_le _ _).trans valid.grayLimit
  · intro e eMem
    rw [isHostAllowed_congr isLoopback isLocal flag]
    rw [removeFromPeerGray_peersWhite] at eMem
    rcases fromOld e eMem with rfl | eOld
    · exact allowed
    · exact valid.whiteAllowed e eOld
  · intro f fMem
    rw [isHostAllowed_congr isLoopback isLocal flag]
    exact valid.grayAllowed f (mem_removeFromPeerGray.mp fMem).1

theorem Valid.appendWithPeerGray (valid : m.Valid isLoopback isLocal) (ple : PeerlistEntry A) :
    (m.appendWithPeerGray isLoopback isLocal ple).Valid isLoopback isLocal := by
  rcases appendWithPeerGray_cases isLoopback isLocal ple m with
    same | ⟨gray, allowed, offWhite, fromOld, within, result⟩
  · rw [same]
    exact valid
  rw [result]
  constructor
  · -- the gray list gained only `ple`, whose address is on no white entry
    intro e eMem f fMem
    rcases fromOld f fMem with rfl | fOld
    · exact offWhite e eMem
    · exact valid.disjoint e eMem f fOld
  · exact valid.whiteLimit
  · exact within valid.grayLimit
  · exact valid.whiteAllowed
  · intro f fMem
    rcases fromOld f fMem with rfl | fOld
    · exact allowed
    · exact valid.grayAllowed f fOld

theorem Valid.mergePeerlist (valid : m.Valid isLoopback isLocal)
    (outerBs : List (PeerlistEntry A)) :
    (m.mergePeerlist isLoopback isLocal outerBs).Valid isLoopback isLocal := by
  unfold PeerlistManager.mergePeerlist
  apply Valid.trimGrayPeerlist
  -- each entry of the list goes through append_with_peer_gray
  induction outerBs generalizing m with
  | nil => exact valid
  | cons be rest ih => exact ih (valid.appendWithPeerGray be)

theorem Valid.appendWithPeerAnchor (valid : m.Valid isLoopback isLocal)
    (ple : AnchorPeerlistEntry A) : (m.appendWithPeerAnchor ple).Valid isLoopback isLocal := by
  unfold PeerlistManager.appendWithPeerAnchor
  split
  · exact valid.withAnchors _
  · exact valid

theorem Valid.removeFromPeerAnchor (valid : m.Valid isLoopback isLocal) (addr : A) :
    (m.removeFromPeerAnchor addr).Valid isLoopback isLocal := by
  unfold PeerlistManager.removeFromPeerAnchor
  split
  · exact valid.withAnchors _
  · exact valid

/-- Every public operation keeps the lists valid. -/
theorem Valid.perform (valid : m.Valid isLoopback isLocal) (call : Call A) :
    (call.perform isLoopback isLocal m).Valid isLoopback isLocal := by
  cases call with
  | appendWithPeerWhite ple => exact valid.appendWithPeerWhite ple
  | appendWithPeerGray ple => exact valid.appendWithPeerGray ple
  | appendWithPeerAnchor ple => exact valid.appendWithPeerAnchor ple
  | setPeerJustSeen peer addr now => exact valid.appendWithPeerWhite _
  | mergePeerlist outerBs => exact valid.mergePeerlist outerBs
  | removeFromPeerGray pe => exact valid.removeFromPeerGray pe
  | getAndEmptyAnchorPeerlist => exact valid.withAnchors _
  | removeFromPeerAnchor addr => exact valid.removeFromPeerAnchor addr

variable (isLoopback isLocal)

/-- In every state a node's peer lists reach, no address is on both lists, each list is within
its limit, every address on them is allowed, and get_white_peer_by_index and
get_gray_peer_by_index give an entry exactly below the list's size, the most recently seen
first. -/
theorem peerlist_invariant (allowLocalIp : Bool) {m : PeerlistManager A}
    (reached : Reachable isLoopback isLocal allowLocalIp m) :
    m.Valid isLoopback isLocal ∧
      (∀ i, (m.getWhitePeerByIndex i).isSome ↔ i < m.getWhitePeersCount) ∧
      (∀ i, (m.getGrayPeerByIndex i).isSome ↔ i < m.getGrayPeersCount) ∧
      (∀ i j e f, i ≤ j → m.getWhitePeerByIndex i = some e → m.getWhitePeerByIndex j = some f →
        f.lastSeen ≤ e.lastSeen) ∧
      (∀ i j e f, i ≤ j → m.getGrayPeerByIndex i = some e → m.getGrayPeerByIndex j = some f →
        f.lastSeen ≤ e.lastSeen) := by
  refine ⟨?_, fun i => getPeerByIndex_isSome _ i, fun i => getPeerByIndex_isSome _ i,
    fun _ _ _ _ => lastSeen_le_of_getPeerByIndex, fun _ _ _ _ => lastSeen_le_of_getPeerByIndex⟩
  -- the invariant, by induction on the calls that reach the state
  induction reached with
  | init => exact valid_init allowLocalIp
  | perform call _ valid => exact valid.perform call

/-- Two peers seen at times 100 and 200, where 127 is the loopback address and the addresses
below 10 are local: the peer seen last comes first on the white list. -/
theorem peerlist_invariant_after_two_peers_seen :
    ((Call.setPeerJustSeen 2 30 200).perform (· == 127) (fun a => decide (a < 10))
      ((Call.setPeerJustSeen 1 20 100).perform (· == 127) (fun a => decide (a < 10))
        ((empty : PeerlistManager Nat).init false))).Valid (· == 127) (fun a => decide (a < 10)) ∧
    ((Call.setPeerJustSeen 2 30 200).perform (· == 127) (fun a => decide (a < 10))
      ((Call.setPeerJustSeen 1 20 100).perform (· == 127) (fun a => decide (a < 10))
        ((empty : PeerlistManager Nat).init false))).getWhitePeerByIndex 2 = none ∧
    (⟨20, 1, 100⟩ : PeerlistEntry Nat).lastSeen ≤ (⟨30, 2, 200⟩ : PeerlistEntry Nat).lastSeen := by
  have facts := peerlist_invariant (· == 127) (fun a => decide (a < 10)) false
    (.perform (.setPeerJustSeen 2 30 200) (.perform (.setPeerJustSeen 1 20 100) .init))
  refine ⟨facts.1, Option.not_isSome_iff_eq_none.mp fun present => ?_,
    facts.2.2.2.1 0 1 _ _ (by decide) (by decide) (by decide)⟩
  exact absurd ((facts.2.1 2).mp present) (by decide)

end Address

end PeerlistManager

end GraftNetwork.P2p

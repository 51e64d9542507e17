import GraftNetwork.Lib.EStateM
import GraftNetwork.Lib.Index

/-!
# The wallet's transfers across a reorganisation

A model of how `wallet2` (`src/wallet/wallet2.cpp`) records the outputs it receives and spends,
and how it forgets them when the daemon reports a reorganisation:

* `processNewTransaction`: the received outputs of a transaction, each added as a new transfer
  or, when a transfer of its public key is there and unspent, replacing that transfer in place;
  then the inputs that spend a known key image mark its transfer spent.
* `processNewBlockchainEntry`: the transactions of a block, and its hash on the hash chain.
* `detachBlockchain`: the spent status of the transfers spent at or above the height is reset,
  the transfers from the first one at or above the height on are erased with their public keys
  and key images, and the hash chain is cropped to the height.

The scan of outputs against the account's keys is not modelled: a transaction is the outputs
it pays to the wallet, with their public keys, key images and amounts, and the key images and
amounts of its inputs.

`Consistent` states what the indexes should be. It holds across appended outputs and a
reorganisation (`consistent_detachBlockchain`), and a reorganisation then erases exactly the
transfers at or above its height. Replacing a transfer in place moves it to the height of the
new output, which breaks the order the reorganisation relies on.
-/

namespace GraftNetwork.Wallet

open EStateM ListIndex

variable {P I Hs : Type} [DecidableEq P] [DecidableEq I]

/-! ## 1. The state -/

/-- `transfer_details`, the fields the indexes and a reorganisation read. The public key is the
one `get_public_key()` reads from the output the transfer records. -/
structure TransferDetails (P I : Type) where
  blockHeight : Nat
  pubKey : P
  keyImage : I
  keyImageKnown : Bool
  keyImagePartial : Bool
  amount : Nat
  spent : Bool
  spentHeight : Nat
deriving DecidableEq, Repr

/-- `hashchain`: the block hashes from `offset` on. -/
structure Hashchain (Hs : Type) where
  offset : Nat
  blockchain : List Hs
deriving DecidableEq, Repr

namespace Hashchain

def size (c : Hashchain Hs) : Nat := c.blockchain.length + c.offset

def pushBack (hash : Hs) (c : Hashchain Hs) : Hashchain Hs :=
  { c with blockchain := c.blockchain ++ [hash] }

/-- `crop(height)`: `std::deque::resize(height - m_offset)`, which pads with null hashes. -/
def crop [Inhabited Hs] (height : Nat) (c : Hashchain Hs) : Hashchain Hs :=
  let n := height - c.offset
  { c with blockchain := c.blockchain.take n ++ List.replicate (n - c.blockchain.length) default }

end Hashchain

/-- The state of `wallet2` that receiving, spending and a reorganisation touch. -/
structure Wallet2 (P I Hs : Type) where
  transfers : List (TransferDetails P I)
  /-- `m_pub_keys`: `none` where the map has no entry. -/
  pubKeys : P → Option Nat
  /-- `m_key_images`. -/
  keyImages : I → Option Nat
  blockchain : Hashchain Hs
  watchOnly : Bool
  multisig : Bool

/-- An output of a transaction that pays the wallet: its one-time public key, the key image of
the wallet's key for it and its amount. -/
structure ReceivedOutput (P I : Type) where
  pubKey : P
  keyImage : I
  amount : Nat
deriving DecidableEq, Repr

/-! ## 2. Receiving and spending -/

/-- The transfer `process_new_transaction` pushes for an output whose public key the wallet has
not seen, unspent: its key image is known unless the wallet is watch-only or multisig, and partial
when it is multisig. -/
def Wallet2.receivedTransfer (height : Nat) (out : ReceivedOutput P I) (w : Wallet2 P I Hs) :
    TransferDetails P I :=
  { blockHeight := height, pubKey := out.pubKey, keyImage := out.keyImage,
    keyImageKnown := !w.watchOnly && !w.multisig, keyImagePartial := w.multisig,
    amount := out.amount, spent := false, spentHeight := 0 }

/-- The new transfer of an output whose public key the wallet has not seen:
`m_transfers.push_back`, then the key image (unless the wallet is multisig or watch-only) and the
public key are indexed at it. -/
def Wallet2.addTransfer (height : Nat) (out : ReceivedOutput P I) (w : Wallet2 P I Hs) :
    Wallet2 P I Hs :=
  let idx := w.transfers.length
  { w with
    transfers := w.transfers ++ [w.receivedTransfer height out]
    keyImages :=
      if !w.multisig && !w.watchOnly then Function.update w.keyImages out.keyImage (some idx)
      else w.keyImages
    pubKeys := Function.update w.pubKeys out.pubKey (some idx) }

/-- The replacement of the unspent transfer `i` by an output of the same public key: the
transfer takes the output, its amount and the height of its block, in place. -/
def Wallet2.replaceTransfer (i height : Nat) (td : TransferDetails P I) (out : ReceivedOutput P I)
    (w : Wallet2 P I Hs) : Wallet2 P I Hs :=
  { w with
    transfers := w.transfers.set i
      { td with blockHeight := height, pubKey := out.pubKey, amount := out.amount } }

/-- The body of the output loop of `process_new_transaction` for one output, outside the pool.
A new public key gets a new transfer at the end; a public key that has an unspent transfer
replaces it in place, and one whose transfer is spent is ignored. -/
def receiveOutput (height : Nat) (out : ReceivedOutput P I) : EStateM String (Wallet2 P I Hs) Unit := do
  let w ← get
  match w.pubKeys out.pubKey with
  | none => set (w.addTransfer height out)
  | some i =>
    match w.transfers[i]? with
    | none => throw "Unexpected transfer index from public key"
    | some td =>
      if td.spent then pure ()
      else if out.amount < td.amount then throw "Unexpected values of new and old outputs"
      else set (w.replaceTransfer i height td out)

/-- The body of the input loop of `process_new_transaction` for an input that spends a key
image, outside the pool: the transfer of a known key image is spent at this height, with the
input's amount when it has one. -/
def spendInput (height : Nat) (input : I × Nat) : EStateM String (Wallet2 P I Hs) Unit :=
  modify fun w =>
    match w.keyImages input.1 with
    | none => w
    | some i =>
      { w with
        transfers := w.transfers.modify i fun td =>
          { td with
            amount := if 0 < input.2 then input.2 else td.amount
            spent := true
            spentHeight := height } }

def receiveOutputs (height : Nat) : List (ReceivedOutput P I) → EStateM String (Wallet2 P I Hs) Unit
  | [] => pure ()
  | out :: outs => do
    receiveOutput height out
    receiveOutputs height outs

def spendInputs (height : Nat) : List (I × Nat) → EStateM String (Wallet2 P I Hs) Unit
  | [] => pure ()
  | input :: inputs => do
    spendInput height input
    spendInputs height inputs

/-- `process_new_transaction` outside the pool, for a transaction that pays the outputs `outs`
to the wallet and whose inputs spend the key images `ins`, with their amounts. -/
def processNewTransaction (height : Nat) (outs : List (ReceivedOutput P I)) (ins : List (I × Nat)) :
    EStateM String (Wallet2 P I Hs) Unit := do
  receiveOutputs height outs
  spendInputs height ins

/-- `process_new_blockchain_entry` of a block of hash `blId` whose transactions, the miner
transaction first, pay and spend as given. -/
def processNewBlockchainEntry (height : Nat) (blId : Hs) :
    List (List (ReceivedOutput P I) × List (I × Nat)) → EStateM String (Wallet2 P I Hs) Unit
  | [] => modify fun w => { w with blockchain := w.blockchain.pushBack blId }
  | (outs, ins) :: txs => do
    processNewTransaction height outs ins
    processNewBlockchainEntry height blId txs

/-! ## 3. A reorganisation -/

/-- `set_unspent` of the transfers spent at or above the height. -/
def resetSpent (height : Nat) (td : TransferDetails P I) : TransferDetails P I :=
  if td.spent ∧ height ≤ td.spentHeight then { td with spent := false, spentHeight := 0 } else td

/-- Where `detach_blockchain` cuts the transfers: at the first one at or above the height. -/
def detachStart (height : Nat) (transfers : List (TransferDetails P I)) : Nat :=
  transfers.findIdx fun td => height ≤ td.blockHeight

/-- The first loop of erasures of `detach_blockchain`: the key image of each detached transfer
whose key image is known and not partial must be in `m_key_images`, and leaves it. -/
def eraseKeyImages : List (TransferDetails P I) → EStateM String (Wallet2 P I Hs) Unit
  | [] => pure ()
  | td :: tds => do
    if !td.keyImageKnown || td.keyImagePartial then eraseKeyImages tds
    else
      let w ← get
      match w.keyImages td.keyImage with
      | none => throw "key image not found"
      | some _ =>
        set { w with keyImages := Function.update w.keyImages td.keyImage none }
        eraseKeyImages tds

/-- The second loop: the public key of each detached transfer must be in `m_pub_keys`, and
leaves it. -/
def erasePubKeys : List (TransferDetails P I) → EStateM String (Wallet2 P I Hs) Unit
  | [] => pure ()
  | td :: tds => do
    let w ← get
    match w.pubKeys td.pubKey with
    | none => throw "public key not found"
    | some _ =>
      set { w with pubKeys := Function.update w.pubKeys td.pubKey none }
      erasePubKeys tds

/-- `detach_blockchain(height)`. A height below the last checkpoint is refused while the chain
holds blocks above it; below the offset of an empty chain, `crop` resizes the deque to a wrapped
`size_t` and throws. -/
def detachBlockchain [Inhabited Hs] (height : Nat) : EStateM String (Wallet2 P I Hs) Unit := do
  let w ← get
  if height < w.blockchain.offset ∧ w.blockchain.offset < w.blockchain.size then
    throw "Daemon claims reorg below last checkpoint"
  let transfers := w.transfers.map (resetSpent height)
  set { w with transfers }
  let iStart := detachStart height transfers
  eraseKeyImages (transfers.drop iStart)
  erasePubKeys (transfers.drop iStart)
  modify fun w => { w with transfers := w.transfers.take iStart }
  let w ← get
  if height < w.blockchain.offset then throw "deque::_M_new_elements_at_back"
  set { w with blockchain := w.blockchain.crop height }

/-- A call of the wallet's refresh (`process_parsed_blocks`) that changes the transfers: a block
processed at a height, or a reorganisation at a height. -/
inductive Call (P I Hs : Type)
  | newBlock (height : Nat) (blId : Hs) (txs : List (List (ReceivedOutput P I) × List (I × Nat)))
  | detach (height : Nat)

def Call.perform [Inhabited Hs] : Call P I Hs → EStateM String (Wallet2 P I Hs) Unit
  | .newBlock height blId txs => processNewBlockchainEntry height blId txs
  | .detach height => detachBlockchain height

/-- The calls one after another; the first that throws ends the run. -/
def performCalls [Inhabited Hs] : List (Call P I Hs) → EStateM String (Wallet2 P I Hs) Unit
  | [] => pure ()
  | call :: calls => do
    call.perform
    performCalls calls

/-! ## 4. What the indexes should be -/

/-- Whether `m_key_images` indexes a transfer: its key image is known and not partial. -/
def TransferDetails.indexed (td : TransferDetails P I) : Bool :=
  td.keyImageKnown && !td.keyImagePartial

/-- `m_pub_keys` maps the public key of each transfer to its index and nothing else, and
`m_key_images` maps the key image of each transfer whose key image is known and not partial to its
index and nothing else. -/
structure Wallet2.IndexesExact (w : Wallet2 P I Hs) : Prop where
  pubKeys_exact : Indexes w.pubKeys w.transfers (·.pubKey) fun _ => true
  keyImages_exact : Indexes w.keyImages w.transfers (·.keyImage) (·.indexed)

/-- The indexes are exact and the transfers are ordered by height, which `detach_blockchain`
relies on when it erases the transfers from the first one at or above a height on. -/
structure Wallet2.Consistent (w : Wallet2 P I Hs) : Prop extends Wallet2.IndexesExact w where
  sorted : (w.transfers.map (·.blockHeight)).Pairwise (· ≤ ·)

/-- Every transfer's key image is the one `keyImageOf` derives from its public key: the wallet
derives the key image of an output from the output's key and its own secret key. -/
def Wallet2.KeyImagesDerived (keyImageOf : P → I) (w : Wallet2 P I Hs) : Prop :=
  ∀ td ∈ w.transfers, td.keyImage = keyImageOf td.pubKey

/-- The indexes are exact and the key images are derived from the public keys. -/
structure Wallet2.Indexed (keyImageOf : P → I) (w : Wallet2 P I Hs) : Prop
    extends Wallet2.IndexesExact w where
  derived : w.KeyImagesDerived keyImageOf

/-- The outputs a call receives have the key images derived from their public keys. -/
def Call.OutputsDerived (keyImageOf : P → I) : Call P I Hs → Prop
  | .newBlock _ _ txs => ∀ tx ∈ txs, ∀ out ∈ tx.1, out.keyImage = keyImageOf out.pubKey
  | .detach _ => True

/-- A wallet with no transfers, on a hash chain of ten blocks. -/
def freshWallet : Wallet2 Nat Nat Nat :=
  { transfers := [], pubKeys := fun _ => none, keyImages := fun _ => none,
    blockchain := ⟨0, List.range 10⟩, watchOnly := false, multisig := false }

/-! ## 5. Running the operations -/

omit [DecidableEq P] [DecidableEq I] in
/-- The test of the erasure loop is that the transfer is not indexed. -/
theorem TransferDetails.skipped_eq (td : TransferDetails P I) :
    (!td.keyImageKnown || td.keyImagePartial) = !td.indexed := by
  unfold TransferDetails.indexed
  cases td.keyImageKnown <;> cases td.keyImagePartial <;> rfl

theorem receiveOutput_run_of_none {height : Nat} {out : ReceivedOutput P I} {w : Wallet2 P I Hs}
    (fresh : w.pubKeys out.pubKey = none) :
    (receiveOutput height out).run w = .ok () (w.addTransfer height out) := by
  simp [receiveOutput, fresh]

theorem receiveOutput_run_of_unspent {height i : Nat} {out : ReceivedOutput P I}
    {w : Wallet2 P I Hs} {td : TransferDetails P I} (found : w.pubKeys out.pubKey = some i)
    (recorded : w.transfers[i]? = some td) (unspent : td.spent = false)
    (larger : td.amount ≤ out.amount) :
    (receiveOutput height out).run w = .ok () (w.replaceTransfer i height td out) := by
  simp [receiveOutput, found, recorded, unspent, Nat.not_lt.mpr larger]

omit [DecidableEq P] in
/-- The erasure of key images in `detach_blockchain` erases the key images of the indexed
transfers when they are distinct and all in the map. -/
theorem eraseKeyImages_run :
    ∀ (tds : List (TransferDetails P I)) (w : Wallet2 P I Hs),
      ((tds.filter (·.indexed)).map (·.keyImage)).Nodup →
      (∀ td ∈ tds, td.indexed = true → (w.keyImages td.keyImage).isSome) →
      (eraseKeyImages tds).run w =
        .ok () { w with keyImages := eraseAll w.keyImages ((tds.filter (·.indexed)).map (·.keyImage)) }
  | [], w, _, _ => by simp [eraseKeyImages]
  | td :: tds, w, nodup, present => by
    have rest : ∀ td' ∈ tds, td'.indexed = true → (w.keyImages td'.keyImage).isSome :=
      fun td' mem => present td' (List.mem_cons_of_mem _ mem)
    by_cases indexed : td.indexed = true
    · -- the transfer's key image goes, and the others stay in the map
      obtain ⟨j, found⟩ := Option.isSome_iff_exists.mp (present td List.mem_cons_self indexed)
      rw [List.filter_cons_of_pos indexed, List.map_cons, List.nodup_cons] at nodup
      have skip : (!td.keyImageKnown || td.keyImagePartial) = false := by
        rw [td.skipped_eq, indexed, Bool.not_true]
      have others : ∀ td' ∈ tds, td'.indexed = true →
          (Function.update w.keyImages td.keyImage none td'.keyImage).isSome := by
        intro td' mem indexed'
        have distinct : td'.keyImage ≠ td.keyImage := fun same =>
          nodup.1 (same ▸ List.mem_map_of_mem (List.mem_filter.mpr ⟨mem, indexed'⟩))
        rw [Function.update_of_ne distinct]
        exact rest td' mem indexed'
      simp only [eraseKeyImages, skip, Bool.false_eq_true, if_false, EStateM.run_bind,
        EStateM.run_get, found, EStateM.run_set]
      rw [eraseKeyImages_run tds _ nodup.2 others, List.filter_cons_of_pos indexed, List.map_cons,
        eraseAll_cons]
    · have skip : (!td.keyImageKnown || td.keyImagePartial) = true := by
        rw [td.skipped_eq, Bool.eq_false_iff.mpr indexed, Bool.not_false]
      rw [List.filter_cons_of_neg indexed] at nodup ⊢
      simp only [eraseKeyImages, skip, if_true]
      exact eraseKeyImages_run tds w nodup rest

omit [DecidableEq I] in
/-- The erasure of public keys in `detach_blockchain` erases them when they are distinct and all
in the map. -/
theorem erasePubKeys_run :
    ∀ (tds : List (TransferDetails P I)) (w : Wallet2 P I Hs), (tds.map (·.pubKey)).Nodup →
      (∀ td ∈ tds, (w.pubKeys td.pubKey).isSome) →
      (erasePubKeys tds).run w = .ok () { w with pubKeys := eraseAll w.pubKeys (tds.map (·.pubKey)) }
  | [], w, _, _ => by simp [erasePubKeys]
  | td :: tds, w, nodup, present => by
    obtain ⟨j, found⟩ := Option.isSome_iff_exists.mp (present td List.mem_cons_self)
    rw [List.map_cons, List.nodup_cons] at nodup
    have others : ∀ td' ∈ tds, (Function.update w.pubKeys td.pubKey none td'.pubKey).isSome := by
      intro td' mem
      have distinct : td'.pubKey ≠ td.pubKey := fun same =>
        nodup.1 (same ▸ List.mem_map_of_mem mem)
      rw [Function.update_of_ne distinct]
      exact present td' (List.mem_cons_of_mem _ mem)
    simp only [erasePubKeys, EStateM.run_bind, EStateM.run_get, found, EStateM.run_set]
    rw [erasePubKeys_run tds _ nodup.2 others, List.map_cons, eraseAll_cons]

/-- The transfers `detach_blockchain` erases: from the cut on, with their spent status reset. -/
def detached (height : Nat) (transfers : List (TransferDetails P I)) : List (TransferDetails P I) :=
  let transfers := transfers.map (resetSpent height)
  transfers.drop (detachStart height transfers)

/-- `detach_blockchain` at or above the offset of the hash chain, when the public keys and the
indexed key images of the transfers it erases are distinct and in the maps: the transfers before
the cut stay, with their spent status reset, the maps lose the keys of the others, and the hash
chain is cropped. -/
theorem detachBlockchain_run [Inhabited Hs] {height : Nat} {w : Wallet2 P I Hs}
    (aboveOffset : w.blockchain.offset ≤ height)
    (keyImagesNodup : (((detached height w.transfers).filter (·.indexed)).map (·.keyImage)).Nodup)
    (keyImagesPresent : ∀ td ∈ detached height w.transfers, td.indexed = true →
      (w.keyImages td.keyImage).isSome)
    (pubKeysNodup : ((detached height w.transfers).map (·.pubKey)).Nodup)
    (pubKeysPresent : ∀ td ∈ detached height w.transfers, (w.pubKeys td.pubKey).isSome) :
    (detachBlockchain height).run w = .ok ()
      { transfers := (w.transfers.map (resetSpent height)).take
          (detachStart height (w.transfers.map (resetSpent height)))
        pubKeys := eraseAll w.pubKeys ((detached height w.transfers).map (·.pubKey))
        keyImages := eraseAll w.keyImages
          (((detached height w.transfers).filter (·.indexed)).map (·.keyImage))
        blockchain := w.blockchain.crop height
        watchOnly := w.watchOnly
        multisig := w.multisig } := by
  have notBelow : ¬(height < w.blockchain.offset ∧ w.blockchain.offset < w.blockchain.size) :=
    fun below => absurd below.1 (Nat.not_lt.mpr aboveOffset)
  simp only [detached] at keyImagesNodup keyImagesPresent pubKeysNodup pubKeysPresent ⊢
  simp only [detachBlockchain, EStateM.run_bind, EStateM.run_get, notBelow, if_false,
    EStateM.run_set]
  rw [eraseKeyImages_run _ _ ?keyImagesNodup ?keyImagesPresent]
  · dsimp only
    rw [erasePubKeys_run _ _ ?pubKeysNodup ?pubKeysPresent]
    · simp [Nat.not_lt.mpr aboveOffset]
    · exact pubKeysNodup
    · exact pubKeysPresent
  · exact keyImagesNodup
  · exact keyImagesPresent

theorem receiveOutputs_run_cons {height : Nat} {out : ReceivedOutput P I}
    {outs : List (ReceivedOutput P I)} {w w' : Wallet2 P I Hs}
    (first : (receiveOutput height out).run w = .ok () w') :
    (receiveOutputs height (out :: outs)).run w = (receiveOutputs height outs).run w' := by
  rw [receiveOutputs, EStateM.run_bind_of_ok first]

theorem processNewTransaction_run_of_receive {height : Nat} {out : ReceivedOutput P I}
    {w w' : Wallet2 P I Hs} (received : (receiveOutput height out).run w = .ok () w') :
    (processNewTransaction height [out] []).run w = .ok () w' := by
  have outputs : (receiveOutputs height [out]).run w = .ok () w' := by
    rw [receiveOutputs_run_cons received]
    rfl
  rw [processNewTransaction, EStateM.run_bind_of_ok outputs]
  rfl

/-! ## 6. Receiving and a reorganisation on a consistent wallet -/

/-- The new transfer of a new public key, with a new key image, is indexed at the end. -/
theorem indexesExact_addTransfer {height : Nat} {out : ReceivedOutput P I} {w : Wallet2 P I Hs}
    (exact : w.IndexesExact) (newKey : w.pubKeys out.pubKey = none)
    (newImage : w.keyImages out.keyImage = none) : (w.addTransfer height out).IndexesExact := by
  -- `m_key_images` is written exactly when the new transfer's key image is known and not partial
  have sameTest : (w.receivedTransfer height out).indexed = (!w.multisig && !w.watchOnly) := by
    unfold Wallet2.receivedTransfer TransferDetails.indexed
    cases w.multisig <;> cases w.watchOnly <;> rfl
  have keyImages := exact.keyImages_exact.append (a := w.receivedTransfer height out) fun _ => newImage
  rw [sameTest] at keyImages
  have pubKeys := exact.pubKeys_exact.append (a := w.receivedTransfer height out) fun _ => newKey
  rw [if_pos rfl] at pubKeys
  exact ⟨pubKeys, keyImages⟩

/-- On a consistent wallet, the new transfer of a new public key at a height no lower than every
transfer's keeps it consistent: the append path of `process_new_transaction` keeps the order. -/
theorem consistent_addTransfer {height : Nat} {out : ReceivedOutput P I} {w : Wallet2 P I Hs}
    (consistent : w.Consistent) (newKey : w.pubKeys out.pubKey = none)
    (newImage : w.keyImages out.keyImage = none)
    (above : ∀ td ∈ w.transfers, td.blockHeight ≤ height) : (w.addTransfer height out).Consistent := by
  refine ⟨indexesExact_addTransfer consistent.toIndexesExact newKey newImage, ?_⟩
  show ((w.transfers ++ [w.receivedTransfer height out]).map (·.blockHeight)).Pairwise (· ≤ ·)
  rw [List.map_append, List.pairwise_append]
  refine ⟨consistent.sorted, List.pairwise_singleton _ _, fun a mem b last => ?_⟩
  obtain ⟨td, recorded, rfl⟩ := List.mem_map.mp mem
  rw [List.mem_singleton.mp last]
  exact above td recorded

theorem Hashchain.size_crop [Inhabited Hs] {c : Hashchain Hs} {height : Nat}
    (above : c.offset ≤ height) : (c.crop height).size = height := by
  simp only [Hashchain.crop, Hashchain.size, List.length_append, List.length_take,
    List.length_replicate]
  omega

omit [DecidableEq P] [DecidableEq I] in
@[simp] theorem resetSpent_blockHeight (height : Nat) (td : TransferDetails P I) :
    (resetSpent height td).blockHeight = td.blockHeight := by
  unfold resetSpent
  split <;> rfl

omit [DecidableEq P] [DecidableEq I] in
@[simp] theorem resetSpent_pubKey (height : Nat) (td : TransferDetails P I) :
    (resetSpent height td).pubKey = td.pubKey := by
  unfold resetSpent
  split <;> rfl

omit [DecidableEq P] [DecidableEq I] in
@[simp] theorem resetSpent_keyImage (height : Nat) (td : TransferDetails P I) :
    (resetSpent height td).keyImage = td.keyImage := by
  unfold resetSpent
  split <;> rfl

omit [DecidableEq P] [DecidableEq I] in
@[simp] theorem resetSpent_indexed (height : Nat) (td : TransferDetails P I) :
    (resetSpent height td).indexed = td.indexed := by
  unfold resetSpent
  split <;> rfl

omit [DecidableEq P] [DecidableEq I] in
/-- Resetting the spent status keeps the indexes. -/
theorem Wallet2.IndexesExact.map_resetSpent {w : Wallet2 P I Hs} (exact : w.IndexesExact)
    (height : Nat) :
    ({ w with transfers := w.transfers.map (resetSpent height) } : Wallet2 P I Hs).IndexesExact :=
  ⟨exact.pubKeys_exact.map (resetSpent_pubKey height) fun _ => rfl,
    exact.keyImages_exact.map (resetSpent_keyImage height) (resetSpent_indexed height)⟩

omit [DecidableEq P] [DecidableEq I] in
/-- The keys of the transfers `detach_blockchain` erases are distinct and in the maps, since they
are keys of a part of the list the maps index exactly. -/
theorem Wallet2.IndexesExact.detachedKeys {w : Wallet2 P I Hs} (exact : w.IndexesExact) (height : Nat) :
    (((detached height w.transfers).filter (·.indexed)).map (·.keyImage)).Nodup ∧
      (∀ td ∈ detached height w.transfers, td.indexed = true →
        (w.keyImages td.keyImage).isSome) ∧
      ((detached height w.transfers).map (·.pubKey)).Nodup ∧
      ∀ td ∈ detached height w.transfers, (w.pubKeys td.pubKey).isSome := by
  have reset := exact.map_resetSpent height
  have pubKeysNodup := reset.pubKeys_exact.nodup
  rw [List.filter_eq_self.mpr fun _ _ => rfl] at pubKeysNodup
  have erased : (detached height w.transfers).Sublist (w.transfers.map (resetSpent height)) :=
    List.drop_sublist _ _
  refine ⟨reset.keyImages_exact.nodup.sublist ((erased.filter _).map _), ?_,
    pubKeysNodup.sublist (erased.map _), ?_⟩
  · exact fun td mem indexed => reset.keyImages_exact.isSome_of_mem (erased.subset mem) indexed
  · exact fun td mem => reset.pubKeys_exact.isSome_of_mem (erased.subset mem) rfl

/-- `detach_blockchain` at or above the offset of the hash chain succeeds on a wallet whose indexes
are exact, and keeps them exact: whatever the cut, the maps lose exactly the keys of the transfers
erased. -/
theorem indexesExact_detachBlockchain [Inhabited Hs] {height : Nat} {w : Wallet2 P I Hs}
    (exact : w.IndexesExact) (aboveOffset : w.blockchain.offset ≤ height) :
    ∃ w', (detachBlockchain height).run w = .ok () w' ∧ w'.IndexesExact ∧
      w'.transfers = (w.transfers.map (resetSpent height)).take
        (detachStart height (w.transfers.map (resetSpent height))) ∧
      w'.blockchain = w.blockchain.crop height := by
  have reset := exact.map_resetSpent height
  obtain ⟨keyImagesNodup, keyImagesPresent, pubKeysNodup, pubKeysPresent⟩ := exact.detachedKeys height
  have cut := reset.pubKeys_exact.take (detachStart height (w.transfers.map (resetSpent height)))
  rw [List.filter_eq_self.mpr fun _ _ => rfl] at cut
  exact ⟨_, detachBlockchain_run aboveOffset keyImagesNodup keyImagesPresent pubKeysNodup
    pubKeysPresent, ⟨cut, reset.keyImages_exact.take _⟩, rfl, rfl⟩

/-- `detach_blockchain(height)` at or above the offset of the hash chain, on a consistent wallet,
keeps it consistent, keeps exactly the transfers below the height, with the spent status reset
for those spent at or above it, and crops the hash chain to the height. -/
theorem consistent_detachBlockchain [Inhabited Hs] {height : Nat} {w : Wallet2 P I Hs}
    (consistent : w.Consistent) (aboveOffset : w.blockchain.offset ≤ height) :
    ∃ w', (detachBlockchain height).run w = .ok () w' ∧ w'.Consistent ∧
      w'.transfers = (w.transfers.filter (·.blockHeight < height)).map (resetSpent height) ∧
      w'.blockchain.size = height := by
  obtain ⟨w', ran, exact, kept, cropped⟩ :=
    indexesExact_detachBlockchain consistent.toIndexesExact aboveOffset
  have sortedReset :
      ((w.transfers.map (resetSpent height)).map (·.blockHeight)).Pairwise (· ≤ ·) := by
    rw [List.map_map]
    simpa [Function.comp_def] using consistent.sorted
  -- on transfers ordered by height, the cut keeps exactly those below the height
  have below : w'.transfers =
      (w.transfers.filter (·.blockHeight < height)).map (resetSpent height) := by
    rw [kept, detachStart, take_findIdx_eq_filter (f := TransferDetails.blockHeight) sortedReset,
      List.filter_map]
    simp [Function.comp_def]
  refine ⟨w', ran, ⟨exact, ?_⟩, below, ?_⟩
  · rw [kept]
    exact sortedReset.sublist ((List.take_sublist _ _).map _)
  · rw [cropped]
    exact Hashchain.size_crop aboveOffset

/-- Outputs received at heights 5 and 7, then a reorganisation at 6: the transfer of height 7 goes. -/
theorem consistent_detachBlockchain_after_two_outputs :
    ∃ w', (detachBlockchain 6).run
        ((freshWallet.addTransfer 5 ⟨1, 101, 10⟩).addTransfer 7 ⟨2, 102, 10⟩) = .ok () w' ∧
      w'.Consistent ∧
      w'.transfers = ((((freshWallet.addTransfer 5 ⟨1, 101, 10⟩).addTransfer 7
        ⟨2, 102, 10⟩).transfers.filter (·.blockHeight < 6)).map (resetSpent 6)) ∧
      w'.blockchain.size = 6 := by
  have fresh : freshWallet.Consistent := ⟨⟨Indexes.nil, Indexes.nil⟩, List.Pairwise.nil⟩
  have first : (freshWallet.addTransfer 5 ⟨1, 101, 10⟩).Consistent :=
    consistent_addTransfer fresh rfl rfl (by simp [freshWallet])
  have second : ((freshWallet.addTransfer 5 ⟨1, 101, 10⟩).addTransfer 7 ⟨2, 102, 10⟩).Consistent :=
    consistent_addTransfer first (by decide) (by decide) (by decide)
  exact consistent_detachBlockchain second (by decide)

/-! ## 7. The indexes across every run -/

/-- Below the offset of the hash chain `detach_blockchain` throws: at once when the chain holds
blocks above the offset, and otherwise when it crops the chain, after its erasures. -/
theorem detachBlockchain_throws_of_lt [Inhabited Hs] {height : Nat} {w : Wallet2 P I Hs}
    (exact : w.IndexesExact) (belowOffset : height < w.blockchain.offset) :
    ∃ e w', (detachBlockchain height).run w = .error e w' := by
  obtain ⟨keyImagesNodup, keyImagesPresent, pubKeysNodup, pubKeysPresent⟩ :=
    exact.detachedKeys height
  by_cases claimed : w.blockchain.offset < w.blockchain.size
  · simp [detachBlockchain, belowOffset, claimed]
  · -- the erasures go through, and cropping below the offset throws
    have notClaimed : ¬(height < w.blockchain.offset ∧ w.blockchain.offset < w.blockchain.size) :=
      fun below => claimed below.2
    simp only [detached] at keyImagesNodup keyImagesPresent pubKeysNodup pubKeysPresent
    simp only [detachBlockchain, EStateM.run_bind, EStateM.run_get, notClaimed, if_false,
      EStateM.run_set]
    rw [eraseKeyImages_run _ _ ?keyImagesNodup ?keyImagesPresent]
    · dsimp only
      rw [erasePubKeys_run _ _ ?pubKeysNodup ?pubKeysPresent]
      · simp [belowOffset]
      · exact pubKeysNodup
      · exact pubKeysPresent
    · exact keyImagesNodup
    · exact keyImagesPresent

/-- One output that returns adds a transfer for a new public key; for a known one it leaves the
wallet as it is (the transfer is spent) or replaces the transfer in place. -/
theorem receiveOutput_run_ok {height : Nat} {out : ReceivedOutput P I} {w w' : Wallet2 P I Hs}
    (ran : (receiveOutput height out).run w = .ok () w') :
    (w.pubKeys out.pubKey = none ∧ w' = w.addTransfer height out) ∨
      ∃ i td, w.pubKeys out.pubKey = some i ∧ w.transfers[i]? = some td ∧
        (w' = w ∨ w' = w.replaceTransfer i height td out) := by
  cases found : w.pubKeys out.pubKey with
  | none =>
    rw [receiveOutput_run_of_none found] at ran
    cases ran
    exact Or.inl ⟨rfl, rfl⟩
  | some i =>
    cases recorded : w.transfers[i]? with
    | none => simp [receiveOutput, found, recorded] at ran
    | some td =>
      refine Or.inr ⟨i, td, rfl, recorded, ?_⟩
      by_cases spent : td.spent = true
      · simp [receiveOutput, found, recorded, spent] at ran
        exact Or.inl ran.symm
      · by_cases smaller : out.amount < td.amount
        · simp [receiveOutput, found, recorded, spent, smaller] at ran
        · simp [receiveOutput, found, recorded, spent, smaller] at ran
          exact Or.inr ran.symm

omit [DecidableEq P] [DecidableEq I] in
/-- With exact indexes and derived key images, an output of a new public key has a new key image:
a transfer of that key image would have that public key. -/
theorem keyImages_eq_none_of_new {keyImageOf : P → I} (injective : Function.Injective keyImageOf)
    {out : ReceivedOutput P I} {w : Wallet2 P I Hs} (indexed : w.Indexed keyImageOf)
    (outDerived : out.keyImage = keyImageOf out.pubKey) (newKey : w.pubKeys out.pubKey = none) :
    w.keyImages out.keyImage = none := by
  cases found : w.keyImages out.keyImage with
  | none => rfl
  | some i =>
    obtain ⟨td, at_i, sameImage, _⟩ := (indexed.keyImages_exact out.keyImage i).mp found
    dsimp only at sameImage
    have derived := indexed.derived td (List.mem_of_getElem? at_i)
    have samePubKey : td.pubKey = out.pubKey :=
      injective (by rw [← derived, sameImage, outDerived])
    have known := indexed.pubKeys_exact.position at_i rfl
    rw [samePubKey, newKey] at known
    cases known

theorem indexed_addTransfer {keyImageOf : P → I} (injective : Function.Injective keyImageOf)
    {height : Nat} {out : ReceivedOutput P I} {w : Wallet2 P I Hs} (indexed : w.Indexed keyImageOf)
    (outDerived : out.keyImage = keyImageOf out.pubKey) (newKey : w.pubKeys out.pubKey = none) :
    (w.addTransfer height out).Indexed keyImageOf := by
  refine ⟨indexesExact_addTransfer indexed.toIndexesExact newKey
    (keyImages_eq_none_of_new injective indexed outDerived newKey), ?_⟩
  intro td mem
  rcases List.mem_append.mp mem with old | added
  · exact indexed.derived td old
  · rw [List.mem_singleton.mp added]
    exact outDerived

omit [DecidableEq P] [DecidableEq I] in
/-- Replacing a transfer by an output of its public key keeps the indexes: the transfer keeps its
position, its public key and its key image. -/
theorem indexed_replaceTransfer {keyImageOf : P → I} {i height : Nat} {td : TransferDetails P I}
    {out : ReceivedOutput P I} {w : Wallet2 P I Hs} (indexed : w.Indexed keyImageOf)
    (found : w.pubKeys out.pubKey = some i) (recorded : w.transfers[i]? = some td) :
    (w.replaceTransfer i height td out).Indexed keyImageOf := by
  -- the transfer the map finds has the output's public key
  obtain ⟨td', at_i, sameKey, -⟩ := (indexed.pubKeys_exact out.pubKey i).mp found
  dsimp only at sameKey
  rw [recorded, Option.some.injEq] at at_i
  subst at_i
  refine ⟨⟨indexed.pubKeys_exact.set recorded sameKey.symm rfl,
    indexed.keyImages_exact.set recorded rfl rfl⟩, fun td' mem => ?_⟩
  rcases List.mem_or_eq_of_mem_set mem with old | replaced
  · exact indexed.derived td' old
  · subst replaced
    have derived := indexed.derived td (List.mem_of_getElem? recorded)
    rw [sameKey] at derived
    exact derived

theorem preserves_receiveOutput {keyImageOf : P → I} (injective : Function.Injective keyImageOf)
    (height : Nat) {out : ReceivedOutput P I} (outDerived : out.keyImage = keyImageOf out.pubKey) :
    Preserves (Wallet2.Indexed keyImageOf)
      (receiveOutput height out : EStateM String (Wallet2 P I Hs) Unit) := by
  intro w _ w' indexed ran
  rcases receiveOutput_run_ok ran with ⟨newKey, rfl⟩ | ⟨i, td, found, recorded, rfl | rfl⟩
  · exact indexed_addTransfer injective indexed outDerived newKey
  · exact indexed
  · exact indexed_replaceTransfer indexed found recorded

omit [DecidableEq P] [DecidableEq I] in
/-- Spending a transfer changes its amount and spent status only. -/
theorem preserves_spendInput {keyImageOf : P → I} (height : Nat) (input : I × Nat) :
    Preserves (Wallet2.Indexed keyImageOf)
      (spendInput height input : EStateM String (Wallet2 P I Hs) Unit) := by
  refine preserves_modify fun w indexed => ?_
  split
  · exact indexed
  · rename_i i _
    refine ⟨⟨indexed.pubKeys_exact.modify i (fun _ => rfl) (fun _ => rfl),
      indexed.keyImages_exact.modify i (fun _ => rfl) (fun _ => rfl)⟩, ?_⟩
    show ∀ td ∈ w.transfers.modify i _, td.keyImage = keyImageOf td.pubKey
    refine forall_mem_modify ?_ i indexed.derived
    exact fun _ derived => derived

theorem preserves_receiveOutputs {keyImageOf : P → I} (injective : Function.Injective keyImageOf)
    (height : Nat) :
    ∀ outs : List (ReceivedOutput P I), (∀ out ∈ outs, out.keyImage = keyImageOf out.pubKey) →
      Preserves (Wallet2.Indexed keyImageOf)
        (receiveOutputs height outs : EStateM String (Wallet2 P I Hs) Unit)
  | [], _ => preserves_pure ()
  | out :: outs, derived =>
    (preserves_receiveOutput injective height (derived out List.mem_cons_self)).bind fun _ =>
      preserves_receiveOutputs injective height outs fun out' mem =>
        derived out' (List.mem_cons_of_mem out mem)

omit [DecidableEq P] [DecidableEq I] in
theorem preserves_spendInputs {keyImageOf : P → I} (height : Nat) :
    ∀ ins : List (I × Nat), Preserves (Wallet2.Indexed keyImageOf)
      (spendInputs height ins : EStateM String (Wallet2 P I Hs) Unit)
  | [] => preserves_pure ()
  | input :: ins => (preserves_spendInput height input).bind fun _ => preserves_spendInputs height ins

theorem preserves_processNewBlockchainEntry {keyImageOf : P → I}
    (injective : Function.Injective keyImageOf) (height : Nat) (blId : Hs) :
    ∀ txs : List (List (ReceivedOutput P I) × List (I × Nat)),
      (∀ tx ∈ txs, ∀ out ∈ tx.1, out.keyImage = keyImageOf out.pubKey) →
      Preserves (Wallet2.Indexed keyImageOf) (processNewBlockchainEntry height blId txs)
  | [], _ => preserves_modify fun _ indexed =>
    ⟨⟨indexed.pubKeys_exact, indexed.keyImages_exact⟩, indexed.derived⟩
  | (outs, ins) :: txs, derived =>
    (((preserves_receiveOutputs injective height outs (derived _ List.mem_cons_self)).bind
      fun _ => preserves_spendInputs height ins)).bind fun _ =>
        preserves_processNewBlockchainEntry injective height blId txs fun tx mem =>
          derived tx (List.mem_cons_of_mem _ mem)

theorem preserves_detachBlockchain [Inhabited Hs] {keyImageOf : P → I} (height : Nat) :
    Preserves (Wallet2.Indexed keyImageOf)
      (detachBlockchain height : EStateM String (Wallet2 P I Hs) Unit) := by
  intro w _ w' indexed ran
  by_cases aboveOffset : w.blockchain.offset ≤ height
  · obtain ⟨w'', detachedRun, exact, kept, -⟩ :=
      indexesExact_detachBlockchain indexed.toIndexesExact aboveOffset
    rw [detachedRun] at ran
    cases ran
    refine ⟨exact, fun td mem => ?_⟩
    -- a transfer kept is one of the wallet's, with its spent status reset
    rw [kept] at mem
    obtain ⟨td₀, recorded, rfl⟩ := List.mem_map.mp (List.mem_of_mem_take mem)
    rw [resetSpent_keyImage, resetSpent_pubKey]
    exact indexed.derived td₀ recorded
  · obtain ⟨e, w'', threw⟩ :=
      detachBlockchain_throws_of_lt indexed.toIndexesExact (Nat.not_le.mp aboveOffset)
    rw [threw] at ran
    cases ran

/-- Over every sequence of processed blocks and reorganisations that returns, `m_pub_keys` and
`m_key_images` stay exact, when the key image of every output received is derived from its
public key. -/
theorem indexed_performCalls [Inhabited Hs] {keyImageOf : P → I}
    (injective : Function.Injective keyImageOf) :
    ∀ (calls : List (Call P I Hs)), (∀ call ∈ calls, call.OutputsDerived keyImageOf) →
      ∀ {w w' : Wallet2 P I Hs}, w.Indexed keyImageOf → (performCalls calls).run w = .ok () w' →
        w'.Indexed keyImageOf
  | [], _, _, _, indexed, ran => preserves_pure () _ _ _ indexed ran
  | call :: calls, derived, _, _, indexed, ran => by
    obtain ⟨_, w₁, first, rest⟩ := run_bind_ok ran
    have performed : w₁.Indexed keyImageOf := by
      cases call with
      | newBlock height blId txs =>
        exact preserves_processNewBlockchainEntry injective height blId txs
          (derived _ List.mem_cons_self) _ _ _ indexed first
      | detach height => exact preserves_detachBlockchain height _ _ _ indexed first
    exact indexed_performCalls injective calls (fun call' mem => derived call' (List.mem_cons_of_mem _ mem))
      performed rest

/-- Outputs of public keys 1 and 2 at height 10; at height 11 a larger output of public key 1,
which replaces its transfer; at height 12 a spend of that transfer's key image; then a
reorganisation at 12. -/
def replaceSpendDetach : List (Call Nat Nat Nat) :=
  [.newBlock 10 10 [([⟨1, 101, 10⟩, ⟨2, 102, 5⟩], [])], .newBlock 11 11 [([⟨1, 101, 20⟩], [])],
    .newBlock 12 12 [([], [(101, 20)])], .detach 12]

/-- Before the reorganisation the replaced transfer is at height 11 and spent; the reorganisation
resets its spend and keeps both transfers, with the indexes exact. -/
theorem indexed_performCalls_replace_spend_detach :
    (∃ w, (performCalls (replaceSpendDetach.take 3)).run freshWallet = .ok () w ∧
      w.transfers.map (fun td => (td.blockHeight, td.pubKey, td.amount, td.spent)) =
        [(11, 1, 20, true), (10, 2, 5, false)]) ∧
    ∃ w', (performCalls replaceSpendDetach).run freshWallet = .ok () w' ∧
      w'.Indexed (· + 100) ∧
      w'.transfers.map (fun td => (td.blockHeight, td.pubKey, td.amount, td.spent)) =
        [(11, 1, 20, false), (10, 2, 5, false)] := by
  have fresh : freshWallet.Indexed (· + 100) :=
    ⟨⟨Indexes.nil, Indexes.nil⟩, fun _ mem => nomatch mem⟩
  refine ⟨⟨_, rfl, rfl⟩, _, rfl, ?_, rfl⟩
  exact indexed_performCalls (fun _ _ same => Nat.add_right_cancel same) replaceSpendDetach
    (by simp [replaceSpendDetach, Call.OutputsDerived]) fresh rfl

/-! ## 8. A replaced transfer breaks the order -/

/-- Outputs received at heights 5 and 7, then at height 9 an output of the first public key with
a larger amount, which replaces the transfer of height 5. -/
def receiveWithReplacement : EStateM String (Wallet2 Nat Nat Nat) Unit := do
  processNewTransaction 5 [⟨1, 101, 10⟩] []
  processNewTransaction 7 [⟨2, 102, 10⟩] []
  processNewTransaction 9 [⟨1, 101, 20⟩] []

theorem detach_after_replacement_erases_lower_transfer :
    freshWallet.Consistent ∧
      ∃ w, receiveWithReplacement.run freshWallet = .ok () w ∧
        w.transfers.map (·.blockHeight) = [9, 7] ∧
        ∃ w', (detachBlockchain 8).run w = .ok () w' ∧ w'.transfers = [] ∧
          w'.blockchain.size = 8 := by
  -- the two outputs of new public keys, then the replacement of the first transfer
  let first := freshWallet.addTransfer 5 ⟨1, 101, 10⟩
  let second := first.addTransfer 7 ⟨2, 102, 10⟩
  let oldTransfer : TransferDetails Nat Nat :=
    { blockHeight := 5, pubKey := 1, keyImage := 101, keyImageKnown := true,
      keyImagePartial := false, amount := 10, spent := false, spentHeight := 0 }
  let replaced := second.replaceTransfer 0 9 oldTransfer ⟨1, 101, 20⟩
  have ran : receiveWithReplacement.run freshWallet = .ok () replaced := by
    have toFirst : (processNewTransaction 5 [⟨1, 101, 10⟩] []).run freshWallet = .ok () first :=
      processNewTransaction_run_of_receive (receiveOutput_run_of_none rfl)
    have toSecond : (processNewTransaction 7 [⟨2, 102, 10⟩] []).run first = .ok () second :=
      processNewTransaction_run_of_receive (receiveOutput_run_of_none (by decide))
    have toReplaced : (processNewTransaction 9 [⟨1, 101, 20⟩] []).run second = .ok () replaced :=
      processNewTransaction_run_of_receive (receiveOutput_run_of_unspent (i := 0) (by decide)
        (show second.transfers[0]? = some oldTransfer by decide) rfl (by decide))
    rw [receiveWithReplacement, EStateM.run_bind_of_ok toFirst, EStateM.run_bind_of_ok toSecond,
      toReplaced]
  have detachedRun := detachBlockchain_run (show replaced.blockchain.offset ≤ 8 by decide)
    (by decide) (by decide) (by decide) (by decide)
  refine ⟨⟨⟨Indexes.nil, Indexes.nil⟩, List.Pairwise.nil⟩, _, ran, by decide, _, detachedRun,
    by decide, by decide⟩

end GraftNetwork.Wallet

import GraftNetwork.Serialization.BinaryArchive

/-!
# RingCT signatures in the binary format

The parts of `rct::rctSig` that a transaction carries (ringct/rctTypes.h) and the two halves of
their serialization, `serialize_rctsig_base` and `serialize_rctsig_prunable`, read and written by
the binary archive. Neither half writes a count: each vector has the size the transaction gives it
(its numbers of inputs and outputs and the mixin of its first input), or, for the bulletproofs,
the `uint32_t` count `nbp` in front of them.

* `RctSig.WellSized`: the sizes the writer checks, for a type other than RCTTypeNull.
* `RctSig.serializedPart`: the fields the format carries for the signature's type; a reader fills
  the others with the values a fresh `rctSig` has.
* `readsBack_loadRctSignatures`: a well-sized signature is written, and the reader gives back its
  serialized part.

Fields that the binary format leaves out (`message`, `mixRing`, `senderPk`, the `dest` of `outPk`,
the commitments `V` of a bulletproof, the key images `II` of an MG signature) are not modelled.
-/

namespace GraftNetwork.Serialization

open Decoder

/-- rct::key. -/
abbrev Key := Blob 32

/-- rct::key64: sixty-four keys. -/
abbrev Key64 := Blob 2048

/-- rct::boroSig: `s0` and `s1` (a key64 each) and `ee`, written as one blob. -/
abbrev BoroSig := Blob 4128

structure EcdhTuple where
  mask : Key
  amount : Key
deriving DecidableEq, Repr

structure RangeSig where
  asig : BoroSig
  Ci : Key64
deriving DecidableEq, Repr

structure Bulletproof where
  A : Key
  S : Key
  T1 : Key
  T2 : Key
  taux : Key
  mu : Key
  L : List Key
  R : List Key
  a : Key
  b : Key
  t : Key
deriving DecidableEq, Repr

structure MgSig where
  ss : List (List Key)
  cc : Key
deriving DecidableEq, Repr

def RCTTypeNull : UInt8 := 0

def RCTTypeFull : UInt8 := 1

def RCTTypeSimple : UInt8 := 2

def RCTTypeBulletproof : UInt8 := 3

/-- rct::rctSigBase; `outPk` holds the masks of the output commitments. -/
structure RctSigBase where
  type : UInt8
  pseudoOuts : List Key
  ecdhInfo : List EcdhTuple
  outPk : List Key
  txnFee : UInt64
deriving DecidableEq, Repr

structure RctSigPrunable where
  rangeSigs : List RangeSig
  bulletproofs : List Bulletproof
  MGs : List MgSig
  pseudoOuts : List Key
deriving DecidableEq, Repr

structure RctSig extends RctSigBase where
  p : RctSigPrunable
deriving DecidableEq, Repr

/-- The prunable part of a fresh `rctSig`. -/
def RctSigPrunable.empty : RctSigPrunable := ⟨[], [], [], []⟩

/-- A fresh `rctSig`, as `transaction::set_null` leaves it: type RCTTypeNull, nothing else. -/
def RctSig.null : RctSig := ⟨⟨RCTTypeNull, [], [], [], 0⟩, RctSigPrunable.empty⟩

/-! ## Bulletproof amounts -/

/-- rct::n_bulletproof_max_amounts of one proof: `1 << (L.size() - 6)` for six to ten rounds. -/
def Bulletproof.nBulletproofMaxAmounts (proof : Bulletproof) : Nat :=
  if proof.L.length < 6 then 0
  else if proof.L.length ≠ proof.R.length then 0
  else if 6 + 4 < proof.L.length then 0
  else 1 <<< (proof.L.length - 6)

/-- The loop of rct::n_bulletproof_max_amounts over a vector, with the amounts `n` counted so far:
0 when a proof has none or the total would reach the `uint32_t` maximum. -/
def nBulletproofMaxAmountsLoop (n : Nat) : List Bulletproof → Nat
  | [] => n
  | proof :: proofs =>
    let n2 := proof.nBulletproofMaxAmounts
    if ¬n2 < 0xffffffff - n then 0
    else if n2 = 0 then 0
    else nBulletproofMaxAmountsLoop (n + n2) proofs

def nBulletproofMaxAmounts (proofs : List Bulletproof) : Nat := nBulletproofMaxAmountsLoop 0 proofs

/-- The loop ends below the `uint32_t` maximum, and every proof it counts adds at least one. -/
theorem nBulletproofMaxAmountsLoop_bounds :
    ∀ (proofs : List Bulletproof) {n : Nat}, n < 0xffffffff →
      nBulletproofMaxAmountsLoop n proofs < 0xffffffff ∧
      (nBulletproofMaxAmountsLoop n proofs = 0 ∨
        n + proofs.length ≤ nBulletproofMaxAmountsLoop n proofs)
  | [], n, below => ⟨below, .inr (by simp [nBulletproofMaxAmountsLoop])⟩
  | proof :: proofs, n, below => by
    simp only [nBulletproofMaxAmountsLoop]
    by_cases room : proof.nBulletproofMaxAmounts < 0xffffffff - n
    · by_cases none : proof.nBulletproofMaxAmounts = 0
      · simp [none]
      · rw [if_neg (not_not_intro room), if_neg none]
        have further := nBulletproofMaxAmountsLoop_bounds proofs
          (n := n + proof.nBulletproofMaxAmounts) (by omega)
        refine ⟨further.1, further.2.imp_right fun counted => ?_⟩
        rw [List.length_cons]
        omega
    · simp [room]

/-- A vector of bulletproofs with amounts for `outputs` outputs has fewer than 2^32 proofs, when
there are at least as many outputs as proofs. -/
theorem length_lt_of_le_nBulletproofMaxAmounts {proofs : List Bulletproof} {outputs : Nat}
    (fewer : proofs.length ≤ outputs) (amounts : outputs ≤ nBulletproofMaxAmounts proofs) :
    proofs.length < 2 ^ 32 := by
  obtain ⟨below, zero | counted⟩ := nBulletproofMaxAmountsLoop_bounds proofs (n := 0) (by decide)
  · rw [nBulletproofMaxAmounts, zero] at amounts
    omega
  · rw [nBulletproofMaxAmounts] at amounts
    omega

/-! ## The sizes the transaction gives -/

/-- `mg_elements`: one MG signature per input for the simple and bulletproof types, one for all
inputs otherwise. -/
def mgElements (type : UInt8) (inputs : Nat) : Nat :=
  if type = RCTTypeSimple ∨ type = RCTTypeBulletproof then inputs else 1

/-- `mg_ss2_elements`, a `size_t`: the keys of one ring member in an MG signature. -/
def mgSs2Elements (type : UInt8) (inputs : Nat) : Nat :=
  ((if type = RCTTypeSimple ∨ type = RCTTypeBulletproof then 1 else inputs) + 1) % 2 ^ 64

/-- `mixin + 1` as a `size_t`: the ring members of an MG signature. -/
def ringSize (mixin : Nat) : Nat := (mixin + 1) % 2 ^ 64

/-- The sizes `serialize_rctsig_base` and `serialize_rctsig_prunable` check when they write a
signature of a type other than RCTTypeNull, with the lengths of the bulletproof rounds within a
`size_t` count. -/
structure RctSig.Sized (rv : RctSig) (inputs outputs mixin : Nat) : Prop where
  type_valid : rv.type = RCTTypeFull ∨ rv.type = RCTTypeSimple ∨ rv.type = RCTTypeBulletproof
  pseudoOuts_length : rv.type = RCTTypeSimple → rv.pseudoOuts.length = inputs
  ecdhInfo_length : rv.ecdhInfo.length = outputs
  outPk_length : rv.outPk.length = outputs
  rangeSigs_length : rv.type ≠ RCTTypeBulletproof → rv.p.rangeSigs.length = outputs
  bulletproofs_length : rv.type = RCTTypeBulletproof → rv.p.bulletproofs.length ≤ outputs
  bulletproofs_rounds : rv.type = RCTTypeBulletproof → ∀ proof ∈ rv.p.bulletproofs,
    proof.L ≠ [] ∧ proof.L.length = proof.R.length ∧ proof.L.length < 2 ^ 64
  max_amounts : rv.type = RCTTypeBulletproof → outputs ≤ nBulletproofMaxAmounts rv.p.bulletproofs
  MGs_length : rv.p.MGs.length = mgElements rv.type inputs
  ss_length : ∀ mg ∈ rv.p.MGs, mg.ss.length = ringSize mixin
  ss_row_length : ∀ mg ∈ rv.p.MGs, ∀ row ∈ mg.ss, row.length = mgSs2Elements rv.type inputs
  prunable_pseudoOuts_length : rv.type = RCTTypeBulletproof → rv.p.pseudoOuts.length = inputs

/-- A signature the writer accepts: of type RCTTypeNull, or of a valid type and sized. -/
def RctSig.WellSized (rv : RctSig) (inputs outputs mixin : Nat) : Prop :=
  rv.type = RCTTypeNull ∨ rv.Sized inputs outputs mixin

/-- The fields of a signature that the binary format carries: only the type for RCTTypeNull, and
for the other types everything but the vectors of the types it is not. -/
def RctSig.serializedPart (rv : RctSig) : RctSig :=
  if rv.type = RCTTypeNull then RctSig.null
  else
    { type := rv.type
      pseudoOuts := if rv.type = RCTTypeSimple then rv.pseudoOuts else []
      ecdhInfo := rv.ecdhInfo
      outPk := rv.outPk
      txnFee := rv.txnFee
      p :=
        { rangeSigs := if rv.type = RCTTypeBulletproof then [] else rv.p.rangeSigs
          bulletproofs := if rv.type = RCTTypeBulletproof then rv.p.bulletproofs else []
          MGs := rv.p.MGs
          pseudoOuts := if rv.type = RCTTypeBulletproof then rv.p.pseudoOuts else [] } }

/-! ## Writing -/

def storeEcdhTuple (e : EcdhTuple) : List UInt8 := storeBlob e.mask ++ storeBlob e.amount

def storeRangeSig (r : RangeSig) : List UInt8 := storeBlob r.asig ++ storeBlob r.Ci

/-- rct::Bulletproof's serializer: its keys and the vectors `L` and `R`, refused when `L` is empty
or longer or shorter than `R`. -/
def storeBulletproof (proof : Bulletproof) : Option (List UInt8) :=
  if proof.L = [] ∨ proof.L.length ≠ proof.R.length then none
  else some (storeBlob proof.A ++ storeBlob proof.S ++ storeBlob proof.T1 ++ storeBlob proof.T2 ++
    storeBlob proof.taux ++ storeBlob proof.mu ++ storeContainer storeBlob proof.L ++
    storeContainer storeBlob proof.R ++ storeBlob proof.a ++ storeBlob proof.b ++ storeBlob proof.t)

/-- One MG signature as serialize_rctsig_prunable writes it, with no size prefix: the rows of
`ss`, `ringSize` of them with `ss2` keys each, then `cc`. -/
def storeMgSig (ringSize ss2 : Nat) (mg : MgSig) : Option (List UInt8) :=
  if mg.ss.length ≠ ringSize then none
  else do
    let rows ← mg.ss.mapM fun row => if row.length ≠ ss2 then none else some (row.flatMap storeBlob)
    some (rows.flatten ++ storeBlob mg.cc)

/-- rctSigBase::serialize_rctsig_base for the writing archive. -/
def storeRctsigBase (rv : RctSigBase) (inputs outputs : Nat) : Option (List UInt8) :=
  if rv.type = RCTTypeNull then some (storeUint8 rv.type)
  else if rv.type ≠ RCTTypeFull ∧ rv.type ≠ RCTTypeSimple ∧ rv.type ≠ RCTTypeBulletproof then none
  else if rv.type = RCTTypeSimple ∧ rv.pseudoOuts.length ≠ inputs then none
  else if rv.ecdhInfo.length ≠ outputs then none
  else if rv.outPk.length ≠ outputs then none
  else some (storeUint8 rv.type ++ writeVarint rv.txnFee ++
    (if rv.type = RCTTypeSimple then rv.pseudoOuts.flatMap storeBlob else []) ++
    rv.ecdhInfo.flatMap storeEcdhTuple ++ rv.outPk.flatMap storeBlob)

/-- The range proofs of serialize_rctsig_prunable for the writing archive: the count `nbp` as a
`uint32_t` and the first `nbp` bulletproofs for RCTTypeBulletproof, the range signatures
otherwise. -/
def storeRangeProofs (p : RctSigPrunable) (type : UInt8) (outputs : Nat) : Option (List UInt8) :=
  if type = RCTTypeBulletproof then
    let nbp := p.bulletproofs.length % 2 ^ 32
    if outputs < nbp then none
    else do
      let proofs ← (p.bulletproofs.take nbp).mapM storeBulletproof
      if nBulletproofMaxAmounts p.bulletproofs < outputs then none
      else some (storeUint 4 nbp ++ proofs.flatten)
  else if p.rangeSigs.length ≠ outputs then none
  else some (p.rangeSigs.flatMap storeRangeSig)

/-- rctSigPrunable::serialize_rctsig_prunable for the writing archive. -/
def storeRctsigPrunable (p : RctSigPrunable) (type : UInt8) (inputs outputs mixin : Nat) :
    Option (List UInt8) :=
  if type = RCTTypeNull then some []
  else if type ≠ RCTTypeFull ∧ type ≠ RCTTypeSimple ∧ type ≠ RCTTypeBulletproof then none
  else do
    let proofs ← storeRangeProofs p type outputs
    if p.MGs.length ≠ mgElements type inputs then none
    else do
      let mgs ← p.MGs.mapM (storeMgSig (ringSize mixin) (mgSs2Elements type inputs))
      if type = RCTTypeBulletproof ∧ p.pseudoOuts.length ≠ inputs then none
      else some (proofs ++ mgs.flatten ++
        (if type = RCTTypeBulletproof then p.pseudoOuts.flatMap storeBlob else []))

/-- The `rct_signatures` block of transaction::serialize for the writing archive: the base, then
the prunable part unless the type is RCTTypeNull. -/
def storeRctSignatures (rv : RctSig) (inputs outputs mixin : Nat) : Option (List UInt8) := do
  let base ← storeRctsigBase rv.toRctSigBase inputs outputs
  if rv.type = RCTTypeNull then some base
  else do
    let prunable ← storeRctsigPrunable rv.p rv.type inputs outputs mixin
    some (base ++ prunable)

/-! ## Reading -/

def loadEcdhTuple : Decoder UInt8 EcdhTuple := do
  let mask ← loadBlob 32
  let amount ← loadBlob 32
  pure ⟨mask, amount⟩

def loadRangeSig : Decoder UInt8 RangeSig := do
  let asig ← loadBlob 4128
  let Ci ← loadBlob 2048
  pure ⟨asig, Ci⟩

def loadBulletproof : Decoder UInt8 Bulletproof := do
  let A ← loadBlob 32
  let S ← loadBlob 32
  let T1 ← loadBlob 32
  let T2 ← loadBlob 32
  let taux ← loadBlob 32
  let mu ← loadBlob 32
  let L ← loadContainer (loadBlob 32)
  let R ← loadContainer (loadBlob 32)
  let a ← loadBlob 32
  let b ← loadBlob 32
  let t ← loadBlob 32
  if L = [] ∨ L.length ≠ R.length then failure
  else pure ⟨A, S, T1, T2, taux, mu, L, R, a, b, t⟩

def loadMgSig (ringSize ss2 : Nat) : Decoder UInt8 MgSig := do
  let ss ← Decoder.count ringSize (Decoder.count ss2 (loadBlob 32))
  let cc ← loadBlob 32
  pure ⟨ss, cc⟩

/-- rctSigBase::serialize_rctsig_base for the reading archive, into a fresh signature. -/
def loadRctsigBase (inputs outputs : Nat) : Decoder UInt8 RctSigBase := do
  let type ← loadUint8
  if type = RCTTypeNull then pure ⟨type, [], [], [], 0⟩
  else if type ≠ RCTTypeFull ∧ type ≠ RCTTypeSimple ∧ type ≠ RCTTypeBulletproof then failure
  else do
    let txnFee ← loadVarint
    let pseudoOuts ← (if type = RCTTypeSimple then Decoder.count inputs (loadBlob 32) else pure [])
    let ecdhInfo ← Decoder.count outputs loadEcdhTuple
    let outPk ← Decoder.count outputs (loadBlob 32)
    pure ⟨type, pseudoOuts, ecdhInfo, outPk, txnFee⟩

/-- The range proofs for the reading archive: the range signatures and the bulletproofs. The count
`nbp` is checked against the outputs before the proofs are read, their amounts after. -/
def loadRangeProofs (type : UInt8) (outputs : Nat) : Decoder UInt8 (List RangeSig × List Bulletproof) :=
  if type = RCTTypeBulletproof then do
    let nbp ← loadUint 4
    if outputs < nbp then failure
    else do
      let bulletproofs ← Decoder.count nbp loadBulletproof
      if nBulletproofMaxAmounts bulletproofs < outputs then failure
      else pure ([], bulletproofs)
  else do
    let rangeSigs ← Decoder.count outputs loadRangeSig
    pure (rangeSigs, [])

/-- rctSigPrunable::serialize_rctsig_prunable for the reading archive, into a fresh signature. -/
def loadRctsigPrunable (type : UInt8) (inputs outputs mixin : Nat) : Decoder UInt8 RctSigPrunable :=
  if type = RCTTypeNull then pure RctSigPrunable.empty
  else if type ≠ RCTTypeFull ∧ type ≠ RCTTypeSimple ∧ type ≠ RCTTypeBulletproof then failure
  else do
    let proofs ← loadRangeProofs type outputs
    let MGs ← Decoder.count (mgElements type inputs) (loadMgSig (ringSize mixin) (mgSs2Elements type inputs))
    let pseudoOuts ← (if type = RCTTypeBulletproof then Decoder.count inputs (loadBlob 32) else pure [])
    pure ⟨proofs.1, proofs.2, MGs, pseudoOuts⟩

/-- The `rct_signatures` block of transaction::serialize for the reading archive. -/
def loadRctSignatures (inputs outputs mixin : Nat) : Decoder UInt8 RctSig := do
  let base ← loadRctsigBase inputs outputs
  if base.type = RCTTypeNull then pure ⟨base, RctSigPrunable.empty⟩
  else do
    let p ← loadRctsigPrunable base.type inputs outputs mixin
    pure ⟨base, p⟩

/-! ## Round trips -/

theorem readsBack_loadEcdhTuple (e : EcdhTuple) : ReadsBack loadEcdhTuple (storeEcdhTuple e) e :=
  (readsBack_loadBlob e.mask).bind (readsBack_loadBlob e.amount).bind_pure

theorem readsBack_loadRangeSig (r : RangeSig) : ReadsBack loadRangeSig (storeRangeSig r) r :=
  (readsBack_loadBlob r.asig).bind (readsBack_loadBlob r.Ci).bind_pure

/-- A vector of keys with a count, as `L` and `R` are written. -/
theorem readsBack_loadKeys {keys : List Key} (fits : keys.length < 2 ^ 64) :
    ReadsBack (loadContainer (loadBlob 32)) (storeContainer storeBlob keys) keys :=
  readsBack_loadContainer (fun key _ => readsBack_loadBlob key)
    (fun key => by rw [storeBlob_length]; decide) fits

theorem readsBack_loadBulletproof {proof : Bulletproof}
    (rounds : proof.L ≠ [] ∧ proof.L.length = proof.R.length ∧ proof.L.length < 2 ^ 64) :
    ∃ w, storeBulletproof proof = some w ∧ ReadsBack loadBulletproof w proof := by
  have checked : ¬(proof.L = [] ∨ proof.L.length ≠ proof.R.length) := by
    rintro (empty | differ)
    · exact rounds.1 empty
    · exact differ rounds.2.1
  refine ⟨_, by rw [storeBulletproof, if_neg checked], ?_⟩
  simp only [List.append_assoc]
  have L := readsBack_loadKeys rounds.2.2
  have R := readsBack_loadKeys (rounds.2.1 ▸ rounds.2.2)
  refine (readsBack_loadBlob proof.A).bind ((readsBack_loadBlob proof.S).bind
    ((readsBack_loadBlob proof.T1).bind ((readsBack_loadBlob proof.T2).bind
    ((readsBack_loadBlob proof.taux).bind ((readsBack_loadBlob proof.mu).bind
    (L.bind (R.bind ((readsBack_loadBlob proof.a).bind ((readsBack_loadBlob proof.b).bind
    ((readsBack_loadBlob proof.t).bind_nil ?_))))))))))
  -- the check after the fields, on the vectors just read
  rw [if_neg checked]
  exact ReadsBack.pure _

theorem readsBack_loadMgSig {ringSize ss2 : Nat} {mg : MgSig} (rows : mg.ss.length = ringSize)
    (columns : ∀ row ∈ mg.ss, row.length = ss2) :
    ∃ w, storeMgSig ringSize ss2 mg = some w ∧ ReadsBack (loadMgSig ringSize ss2) w mg := by
  have eachRow : ∀ row ∈ mg.ss, ∃ w,
      (if row.length ≠ ss2 then none else some (row.flatMap storeBlob)) = some w ∧
      ReadsBack (Decoder.count ss2 (loadBlob 32)) w row := by
    intro row mem
    refine ⟨_, if_neg (not_not_intro (columns row mem)), ?_⟩
    rw [← columns row mem]
    exact ReadsBack.count fun key _ => readsBack_loadBlob key
  obtain ⟨ws, wrote, read⟩ := ReadsBack.exists_mapM eachRow
  refine ⟨ws.flatten ++ storeBlob mg.cc, ?_, ?_⟩
  · rw [storeMgSig, if_neg (not_not_intro rows), wrote]
    rfl
  · rw [← rows]
    exact read.bind (readsBack_loadBlob mg.cc).bind_pure

/-- The serialized part of a signature of a type other than RCTTypeNull. -/
theorem serializedPart_of_ne {rv : RctSig} (notNull : rv.type ≠ RCTTypeNull) :
    rv.serializedPart =
      { type := rv.type
        pseudoOuts := if rv.type = RCTTypeSimple then rv.pseudoOuts else []
        ecdhInfo := rv.ecdhInfo
        outPk := rv.outPk
        txnFee := rv.txnFee
        p :=
          { rangeSigs := if rv.type = RCTTypeBulletproof then [] else rv.p.rangeSigs
            bulletproofs := if rv.type = RCTTypeBulletproof then rv.p.bulletproofs else []
            MGs := rv.p.MGs
            pseudoOuts := if rv.type = RCTTypeBulletproof then rv.p.pseudoOuts else [] } } := by
  rw [RctSig.serializedPart, if_neg notNull]

theorem RctSig.Sized.type_ne_null {rv : RctSig} {inputs outputs mixin : Nat}
    (sized : rv.Sized inputs outputs mixin) : rv.type ≠ RCTTypeNull := by
  rcases sized.type_valid with full | simple | bulletproof <;> simp_all [RCTTypeNull,
    RCTTypeFull, RCTTypeSimple, RCTTypeBulletproof]

theorem RctSig.Sized.not_invalid {rv : RctSig} {inputs outputs mixin : Nat}
    (sized : rv.Sized inputs outputs mixin) :
    ¬(rv.type ≠ RCTTypeFull ∧ rv.type ≠ RCTTypeSimple ∧ rv.type ≠ RCTTypeBulletproof) := by
  rintro ⟨notFull, notSimple, notBulletproof⟩
  rcases sized.type_valid with full | simple | bulletproof
  · exact notFull full
  · exact notSimple simple
  · exact notBulletproof bulletproof

/-- The pseudo outputs of a simple signature, or nothing, as the base writes them. -/
theorem readsBack_basePseudoOuts {rv : RctSig} {inputs outputs mixin : Nat}
    (sized : rv.Sized inputs outputs mixin) :
    ReadsBack (if rv.type = RCTTypeSimple then Decoder.count inputs (loadBlob 32) else pure [])
      (if rv.type = RCTTypeSimple then rv.pseudoOuts.flatMap storeBlob else [])
      (if rv.type = RCTTypeSimple then rv.pseudoOuts else []) := by
  by_cases simple : rv.type = RCTTypeSimple
  · simp only [if_pos simple]
    rw [← sized.pseudoOuts_length simple]
    exact ReadsBack.count fun key _ => readsBack_loadBlob key
  · simp only [if_neg simple]
    exact ReadsBack.pure []

theorem readsBack_loadRctsigBase {rv : RctSig} {inputs outputs mixin : Nat}
    (sized : rv.WellSized inputs outputs mixin) :
    ∃ w, storeRctsigBase rv.toRctSigBase inputs outputs = some w ∧
      ReadsBack (loadRctsigBase inputs outputs) w rv.serializedPart.toRctSigBase := by
  rcases sized with null | sized
  · -- only the type is written
    refine ⟨storeUint8 rv.type, if_pos null, ?_⟩
    rw [RctSig.serializedPart, if_pos null]
    refine (readsBack_loadUint8 rv.type).bind_nil ?_
    rw [if_pos null, null]
    exact ReadsBack.pure _
  · have notNull := sized.type_ne_null
    have simpleSized : ¬(rv.type = RCTTypeSimple ∧ rv.pseudoOuts.length ≠ inputs) :=
      fun ⟨simple, differ⟩ => differ (sized.pseudoOuts_length simple)
    refine ⟨_, by
      rw [storeRctsigBase, if_neg notNull, if_neg sized.not_invalid, if_neg simpleSized,
        if_neg (not_not_intro sized.ecdhInfo_length), if_neg (not_not_intro sized.outPk_length)],
      ?_⟩
    rw [serializedPart_of_ne notNull]
    simp only [List.append_assoc]
    refine (readsBack_loadUint8 rv.type).bind ?_
    rw [if_neg notNull, if_neg sized.not_invalid]
    have ecdhInfo : ReadsBack (Decoder.count outputs loadEcdhTuple)
        (rv.ecdhInfo.flatMap storeEcdhTuple) rv.ecdhInfo :=
      sized.ecdhInfo_length ▸ ReadsBack.count fun e _ => readsBack_loadEcdhTuple e
    have outPk : ReadsBack (Decoder.count outputs (loadBlob 32)) (rv.outPk.flatMap storeBlob)
        rv.outPk :=
      sized.outPk_length ▸ ReadsBack.count fun key _ => readsBack_loadBlob key
    exact (readsBack_loadVarint rv.txnFee).bind ((readsBack_basePseudoOuts sized).bind
      (ecdhInfo.bind outPk.bind_pure))

theorem readsBack_loadRangeProofs {rv : RctSig} {inputs outputs mixin : Nat}
    (sized : rv.Sized inputs outputs mixin) :
    ∃ w, storeRangeProofs rv.p rv.type outputs = some w ∧
      ReadsBack (loadRangeProofs rv.type outputs) w
        (if rv.type = RCTTypeBulletproof then [] else rv.p.rangeSigs,
          if rv.type = RCTTypeBulletproof then rv.p.bulletproofs else []) := by
  by_cases bulletproof : rv.type = RCTTypeBulletproof
  · -- the count `nbp` fits its `uint32_t`, so every bulletproof is written
    have fewer := sized.bulletproofs_length bulletproof
    have below := length_lt_of_le_nBulletproofMaxAmounts fewer (sized.max_amounts bulletproof)
    have nbp : rv.p.bulletproofs.length % 2 ^ 32 = rv.p.bulletproofs.length := Nat.mod_eq_of_lt below
    obtain ⟨ws, wrote, read⟩ := ReadsBack.exists_mapM fun proof mem =>
      readsBack_loadBulletproof (sized.bulletproofs_rounds bulletproof proof mem)
    have amounts : ¬nBulletproofMaxAmounts rv.p.bulletproofs < outputs :=
      Nat.not_lt.mpr (sized.max_amounts bulletproof)
    refine ⟨storeUint 4 rv.p.bulletproofs.length ++ ws.flatten, ?_, ?_⟩
    · rw [storeRangeProofs, if_pos bulletproof]
      simp only [nbp, List.take_length, wrote, if_neg (Nat.not_lt.mpr fewer)]
      rw [Option.bind_eq_bind, Option.bind_some, if_neg amounts]
    · simp only [loadRangeProofs, if_pos bulletproof]
      refine (readsBack_loadUint below).bind ?_
      rw [if_neg (Nat.not_lt.mpr fewer)]
      refine read.bind_nil ?_
      rw [if_neg amounts]
      exact ReadsBack.pure _
  · have rangeSigs := sized.rangeSigs_length bulletproof
    refine ⟨rv.p.rangeSigs.flatMap storeRangeSig, ?_, ?_⟩
    · rw [storeRangeProofs, if_neg bulletproof, if_neg (not_not_intro rangeSigs)]
    · simp only [loadRangeProofs, if_neg bulletproof]
      rw [← rangeSigs]
      exact (ReadsBack.count fun r _ => readsBack_loadRangeSig r).bind_pure

/-- The pseudo outputs of a bulletproof signature, or nothing, as the prunable part writes them. -/
theorem readsBack_prunablePseudoOuts {rv : RctSig} {inputs outputs mixin : Nat}
    (sized : rv.Sized inputs outputs mixin) :
    ReadsBack (if rv.type = RCTTypeBulletproof then Decoder.count inputs (loadBlob 32) else pure [])
      (if rv.type = RCTTypeBulletproof then rv.p.pseudoOuts.flatMap storeBlob else [])
      (if rv.type = RCTTypeBulletproof then rv.p.pseudoOuts else []) := by
  by_cases bulletproof : rv.type = RCTTypeBulletproof
  · simp only [if_pos bulletproof]
    rw [← sized.prunable_pseudoOuts_length bulletproof]
    exact ReadsBack.count fun key _ => readsBack_loadBlob key
  · simp only [if_neg bulletproof]
    exact ReadsBack.pure []

theorem readsBack_loadRctsigPrunable {rv : RctSig} {inputs outputs mixin : Nat}
    (sized : rv.Sized inputs outputs mixin) :
    ∃ w, storeRctsigPrunable rv.p rv.type inputs outputs mixin = some w ∧
      ReadsBack (loadRctsigPrunable rv.type inputs outputs mixin) w rv.serializedPart.p := by
  have notNull := sized.type_ne_null
  obtain ⟨proofs, wroteProofs, readProofs⟩ := readsBack_loadRangeProofs sized
  obtain ⟨mgs, wroteMGs, readMGs⟩ := ReadsBack.exists_mapM fun mg mem =>
    readsBack_loadMgSig (sized.ss_length mg mem) (sized.ss_row_length mg mem)
  have bulletproofSized : ¬(rv.type = RCTTypeBulletproof ∧ rv.p.pseudoOuts.length ≠ inputs) :=
    fun ⟨bulletproof, differ⟩ => differ (sized.prunable_pseudoOuts_length bulletproof)
  refine ⟨_, by
    rw [storeRctsigPrunable, if_neg notNull, if_neg sized.not_invalid, wroteProofs,
      Option.bind_eq_bind, Option.bind_some, if_neg (not_not_intro sized.MGs_length), wroteMGs,
      Option.bind_eq_bind, Option.bind_some, if_neg bulletproofSized],
    ?_⟩
  rw [serializedPart_of_ne notNull]
  simp only [List.append_assoc]
  rw [loadRctsigPrunable, if_neg notNull, if_neg sized.not_invalid, ← sized.MGs_length]
  exact readProofs.bind (readMGs.bind (readsBack_prunablePseudoOuts sized).bind_pure)

/-- A well-sized signature is written, and the reader gives back its serialized part. -/
theorem readsBack_loadRctSignatures {rv : RctSig} {inputs outputs mixin : Nat}
    (sized : rv.WellSized inputs outputs mixin) :
    ∃ w, storeRctSignatures rv inputs outputs mixin = some w ∧
      ReadsBack (loadRctSignatures inputs outputs mixin) w rv.serializedPart := by
  obtain ⟨base, wroteBase, readBase⟩ := readsBack_loadRctsigBase sized
  rcases sized with null | sized
  · refine ⟨base, by
      rw [storeRctSignatures, wroteBase, Option.bind_eq_bind, Option.bind_some, if_pos null], ?_⟩
    refine readBase.bind_nil ?_
    rw [RctSig.serializedPart, if_pos null]
    exact ReadsBack.pure _
  · have notNull := sized.type_ne_null
    obtain ⟨prunable, wrotePrunable, readPrunable⟩ := readsBack_loadRctsigPrunable sized
    refine ⟨base ++ prunable, by
      rw [storeRctSignatures, wroteBase, Option.bind_eq_bind, Option.bind_some, if_neg notNull,
        wrotePrunable]
      rfl, ?_⟩
    refine readBase.bind ?_
    have sameType : rv.serializedPart.type = rv.type := by rw [serializedPart_of_ne notNull]
    rw [sameType, if_neg notNull]
    exact readPrunable.bind_pure

end GraftNetwork.Serialization

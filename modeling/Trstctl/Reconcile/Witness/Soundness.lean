import Trstctl.Reconcile.Digest.Soundness
import Trstctl.Reconcile.Witness.Verify

/-!
# Soundness of presence entries

An accepted entry of class presence is assembled from inclusion proofs, an
absence proof and a record key.  `VerifyOffline` checks each proof against the
digest of its authority, and none of the proofs against the record key of the
entry.  Where the pieces do belong together, an accepted entry says what it
claims.
-/

namespace Trstctl.Reconcile.Witness

open Go (Bytes bytes)
open Hash (digestOf)
open Digest (SignedDigest Leaf AllNew buildTree buildInputs recordKeyBytes leafInput pairEncoding
  buildLevels sortLeaves)

variable {crypto : Crypto}
variable {json : Json}
variable {order : Go.MapOrder}

theorem verifyOffline_spec {request : OfflineVerifyRequest}
    (accepted : verifyOffline crypto json order request = .ok ()) :
    ∃ digests,
      verifyDigestRefs crypto request.evidence.body request.digests
          request.trustedDigestKeys = .ok digests ∧
        ∀ entry ∈ request.evidence.body.entries,
          verifyEntry crypto order digests entry = .ok () := by
  simp only [verifyOffline, Result.bind_eq_ok, Result.guard_eq_ok] at accepted
  obtain ⟨-, -, payload, -, digests, checked, -, -, -, -, -, -, -, -, entries⟩ := accepted
  exact ⟨digests, checked, Result.forM_eq_ok.mp entries⟩

/-- What an accepted entry of class presence has passed: every inclusion proof
verifies for the authority it names, and the absence proof for an authority
other than the present one. -/
theorem verifyPresence_spec {digests : Go.Map SignedDigest} {entry : Entry}
    (presence : entry.recordClass = bytes "presence")
    (accepted : verifyEntry crypto order digests entry = .ok ()) :
    (∀ ref ∈ entry.inclusions, ∃ signed, digests.lookup ref.authorityID = some signed ∧
        ref.proof.verifyInclusion crypto.sha256Sum signed.body.merkleRoot = true) ∧
      ∃ absence authority signed, entry.absence = some absence ∧
        authority ≠ entry.presentAuthority ∧ digests.lookup authority = some signed ∧
        absence.verify crypto.sha256Sum signed.body.merkleRoot = true := by
  rw [verifyEntry, if_pos presence] at accepted
  unfold verifyPresence at accepted
  split at accepted
  · simp at accepted
  · rename_i absence absence_eq
    split at accepted
    · simp at accepted
    · split at accepted
      · simp at accepted
      · rename_i inclusions
        split at accepted
        · simp at accepted
        · rename_i authority found
          dsimp only at accepted
          split at accepted
          · rename_i verified
            refine ⟨?_, ?_⟩
            · intro ref member
              have checked := Result.forM_eq_ok.mp inclusions ref member
              unfold verifyInclusionRef at checked
              split at checked
              · simp at checked
              · rename_i signed signed_eq
                split at checked
                · rename_i verifies
                  exact ⟨signed, signed_eq, verifies⟩
                · simp at checked
            · have other : authority ≠ entry.presentAuthority := by
                simpa using List.find?_some found
              have member : authority ∈ digests.keys :=
                (order.perm _).mem_iff.mp (List.mem_of_find?_eq_some found)
              obtain ⟨signed, signed_eq⟩ := Go.Map.mem_keys.mp member
              rw [signed_eq] at verified
              exact ⟨absence, authority, signed, absence_eq, other, signed_eq, verified⟩
          · simp at accepted

theorem between_of_verify {hash : Bytes → Bytes} {absence : AbsenceProof} {root : Bytes}
    (verified : absence.verify hash root = true) :
    (absence.lower = none ∧ absence.upper = none ∧ root = Digest.emptyRoot hash) ∨
      (absence.lower ≠ none ∨ absence.upper ≠ none) ∧
        Digest.Between (absence.lower.map BracketProof.recordKeyBytes)
          (absence.upper.map BracketProof.recordKeyBytes) absence.targetKeyBytes := by
  obtain ⟨target, lower, upper⟩ := absence
  cases lower with
  | none =>
      cases upper with
      | none =>
          simp [AbsenceProof.verify] at verified
          exact Or.inl ⟨rfl, rfl, verified.2⟩
      | some upper =>
          simp [AbsenceProof.verify] at verified
          exact Or.inr ⟨by simp, by simpa [Digest.Between] using verified.2.1⟩
  | some lower =>
      cases upper with
      | none =>
          simp [AbsenceProof.verify] at verified
          exact Or.inr ⟨by simp, by simpa [Digest.Between] using verified.2.1⟩
      | some upper =>
          simp [AbsenceProof.verify] at verified
          refine Or.inr ⟨by simp, ?_⟩
          simpa [Digest.Between] using ⟨verified.2.1.1.1, verified.2.1.2.1⟩

/-- The bindings between the pieces of a presence entry that `VerifyOffline`
leaves unchecked, for an entry with the given key bytes and the leaves of the
absent authority. -/
structure Bound (entry : Entry) (key : Bytes) (absent : List Leaf) : Prop where
  keyed : recordKeyBytes entry.recordKey = .ok key
  included : ∃ ref ∈ entry.inclusions,
    ref.authorityID = entry.presentAuthority ∧ ref.proof.recordKeyBytes = key
  targeted : ∀ absence ∈ entry.absence, absence.targetKeyBytes = key
  adjacent : ∀ absence ∈ entry.absence, absence.lower ≠ none ∨ absence.upper ≠ none →
    ∀ leaf ∈ absent,
      ¬ Digest.Between (absence.lower.map BracketProof.recordKeyBytes)
        (absence.upper.map BracketProof.recordKeyBytes) leaf.recordKeyBytes

/-- A list of records built by `NewLeaf` with distinct keys, its tree and a
hash that binds it. -/
structure State {Record : Type} (hash : Bytes → Bytes) (encoding : Encoding Record)
    (leaves : List Leaf) (built : Digest.Tree) : Prop where
  made : AllNew hash encoding leaves
  distinct : (leaves.map Leaf.recordKeyBytes).Nodup
  assembled : buildTree hash leaves = .ok built
  binds : Hash.Binds hash {text | text ∈ buildInputs hash leaves}

/-- The digests are one of the present authority, over the first tree, and one
of the other authority, over the second. -/
structure Describes (digests : Go.Map SignedDigest) (presentAuthority : Bytes)
    (presentTree absentTree : Digest.Tree) : Prop where
  present : ∃ signed, digests.lookup presentAuthority = some signed ∧
    signed.body.merkleRoot = presentTree.root
  absent : ∀ authority signed, authority ≠ presentAuthority →
    digests.lookup authority = some signed → signed.body.merkleRoot = absentTree.root

/-- A presence entry of an accepted witness is true of the states behind the
two digests, for entries whose pieces belong together. -/
theorem presence_sound
    {Record : Type}
    (encoding : Encoding Record)
    (crypto : Crypto)
    (json : Json)
    (order : Go.MapOrder)
    (request : OfflineVerifyRequest)
    (accepted : verifyOffline crypto json order request = .ok ())
    (digests : Go.Map SignedDigest)
    (checked : verifyDigestRefs crypto request.evidence.body request.digests
      request.trustedDigestKeys = .ok digests)
    (entry : Entry)
    (member : entry ∈ request.evidence.body.entries)
    (presence : entry.recordClass = bytes "presence")
    (present absent : List Leaf)
    (presentTree absentTree : Digest.Tree)
    (presentState : State crypto.sha256Sum encoding present presentTree)
    (absentState : State crypto.sha256Sum encoding absent absentTree)
    (described : Describes digests entry.presentAuthority presentTree absentTree)
    (key : Bytes)
    (bound : Bound entry key absent)
    (addressable : key.length < 2 ^ 63)
    (leavesAddressable : ∀ leaf ∈ present, leaf.recordKeyBytes.length < 2 ^ 63) :
    (∃ leaf ∈ present, leaf.recordKeyBytes = key) ∧
      ∀ leaf ∈ absent, leaf.recordKeyBytes ≠ key := by
  obtain ⟨digests', checked', entries⟩ := verifyOffline_spec accepted
  obtain rfl := Except.ok.inj (checked'.symm.trans checked)
  obtain ⟨inclusions, absence, authority, signed, absence_eq, other, signed_eq, verified⟩ :=
    verifyPresence_spec presence (entries entry member)
  constructor
  · obtain ⟨ref, refMember, named, carried⟩ := bound.included
    obtain ⟨presentDigest, digest_eq, verifies⟩ := inclusions ref refMember
    obtain ⟨presentSigned, presentSigned_eq, presentRoot⟩ := described.present
    rw [named, presentSigned_eq] at digest_eq
    rw [← Option.some.inj digest_eq, presentRoot] at verifies
    obtain ⟨leaf, leafMember, input_eq⟩ := Digest.exists_leaf_of_verifyInclusion
      crypto.sha256Sum presentState.made presentState.distinct presentState.binds
      presentState.assembled verifies
    refine ⟨leaf, leafMember, ?_⟩
    rw [carried] at input_eq
    exact (Digest.leafInput_injective (leavesAddressable leaf leafMember) addressable input_eq).1
  · intro leaf leafMember equal
    rw [described.absent authority signed other signed_eq] at verified
    rcases between_of_verify verified with ⟨-, -, empty⟩ | ⟨brackets, between⟩
    · rw [Digest.eq_nil_of_root_eq_emptyRoot crypto.sha256Sum absentState.made
        absentState.distinct absentState.binds absentState.assembled empty] at leafMember
      exact absurd leafMember List.not_mem_nil
    · rw [bound.targeted absence absence_eq, ← equal] at between
      exact bound.adjacent absence absence_eq brackets leaf leafMember between

/-- The strings hashed for two states of one record each. -/
def oneRecordInputs : List Bytes :=
  [leafInput (bytes "t\x00key\x00a") (bytes "1"), leafInput (bytes "t\x00key\x00b") (bytes "1")]

/-- The hash that numbers these strings, with signatures that are all valid. -/
def oneRecordCrypto : Crypto where
  sha256Sum := Hash.numbering oneRecordInputs
  verifyDigest _ _ _ := true

/-- The leaf of the first record. -/
def oneLeaf : Leaf :=
  ⟨bytes "t\x00key\x00a", bytes "1", digestOf 0⟩

/-- The leaf of the record behind it. -/
def nextLeaf : Leaf :=
  ⟨bytes "t\x00key\x00b", bytes "1", digestOf 1⟩

/-- The signed digest of an authority, with the given root. -/
def digestOver (authorityID root : Bytes) : SignedDigest where
  body := {
    version := bytes "xrec.digest/v1"
    specVersion := bytes "v1"
    authorityID := authorityID
    tenantID := bytes "t"
    merkleRoot := root
    recordCount := 1
    hashAlg := bytes "sha-256"
    postureSummary := { policySetHash := digestOf 0, perRule := [] }
    watermark := { position := bytes "1", observedAt := 1 }
    generatedAt := 1 }
  digestHash := digestOf 2
  keyID := bytes "k"
  algorithm := bytes "ECDSA-P256"
  publicKeyDER := [1]
  signature := [1]

/-- The digests of an authority that has the first record and of one that has the
next. -/
def oneRecordDigests : List SignedDigest :=
  [digestOver (bytes "p") (digestOf 0), digestOver (bytes "q") (digestOf 1)]

/-- The reference to a digest. -/
def refTo (signed : SignedDigest) : DigestRef where
  authorityID := signed.body.authorityID
  digestHash := signed.digestHash
  keyID := signed.keyID
  algorithm := signed.algorithm
  publicKeyDER := signed.publicKeyDER
  signature := signed.signature
  watermark := signed.body.watermark

/-- The proofs that authority `p` has the record and `q` has not, in an entry
for the given record key. -/
def presenceEntry (recordKey : RecordKey) : Entry where
  recordKey := recordKey
  recordClass := bytes "presence"
  presentAuthority := bytes "p"
  inclusions := [⟨bytes "p", ⟨bytes "t\x00key\x00a", bytes "1", []⟩⟩]
  absence := some ⟨bytes "t\x00key\x00a", none, some ⟨bytes "t\x00key\x00b", digestOf 1, []⟩⟩
  disclosedRecords := []
  policy := none
  staleness := none

/-- Fixed texts of a witness; the hash numbers none of them. -/
def oneRecordJson : Json where
  content _ := some (bytes "content")
  body _ := some (bytes "body")
  dispute _ := some (bytes "dispute")

/-- The signed witness with that entry. -/
def presenceRequest (recordKey : RecordKey) : OfflineVerifyRequest where
  evidence := {
    body := {
      witnessID := Go.hexEncode (digestOf 2)
      roundID := bytes "r"
      tenantID := bytes "t"
      specVersion := bytes "v1"
      digestRefs := oneRecordDigests.map refTo
      entries := [presenceEntry recordKey]
      generatedAt := 1 }
    signatures := [{
      witnessID := Go.hexEncode (digestOf 2)
      authorityID := bytes "xrec-witness"
      contentHash := digestOf 2
      keyID := bytes "w"
      algorithm := bytes "ECDSA-P256"
      publicKeyDER := [1]
      signature := [1]
      signedAt := 1 }]
    counterSignatures := []
    disputes := [] }
  digests := oneRecordDigests
  trustedDigestKeys := [(bytes "k", ⟨bytes "ECDSA-P256", [1]⟩)]
  trustedWitnessKeys := [(bytes "w", ⟨bytes "ECDSA-P256", [1]⟩)]
  verifierAuthority := []
  requireCountersignFrom := []

/-- The digests of the request by authority. -/
def oneRecordMap : Go.Map SignedDigest :=
  [(bytes "q", digestOver (bytes "q") (digestOf 1)),
    (bytes "p", digestOver (bytes "p") (digestOf 0))]

theorem verifyDigestRefs_oneRecord (recordKey : RecordKey) :
    verifyDigestRefs oneRecordCrypto (presenceRequest recordKey).evidence.body oneRecordDigests
      [(bytes "k", ⟨bytes "ECDSA-P256", [1]⟩)] = .ok oneRecordMap := by
  have first : (digestOver (bytes "p") (digestOf 0)).verify oneRecordCrypto
      [(bytes "k", ⟨bytes "ECDSA-P256", [1]⟩)] = .ok () := by decide +kernel
  have second : (digestOver (bytes "q") (digestOf 1)).verify oneRecordCrypto
      [(bytes "k", ⟨bytes "ECDSA-P256", [1]⟩)] = .ok () := by decide +kernel
  have collected : digestsByAuthority oneRecordCrypto [(bytes "k", ⟨bytes "ECDSA-P256", [1]⟩)]
      [] oneRecordDigests = .ok oneRecordMap := by
    simp only [digestsByAuthority, oneRecordDigests, first, second]
    decide
  rw [verifyDigestRefs, collected]
  rfl

theorem verifyOffline_oneRecord (recordKey : RecordKey) :
    verifyOffline oneRecordCrypto oneRecordJson Go.MapOrder.listed
      (presenceRequest recordKey) = .ok () := by
  have identified : (presenceRequest recordKey).evidence.body.verifyWitnessID oneRecordCrypto
      oneRecordJson = true := by
    rfl
  have shape : (presenceRequest recordKey).evidence.validateShape oneRecordCrypto
      oneRecordJson = .ok () := by
    rw [Evidence.validateShape, identified]
    rfl
  have payload : (presenceRequest recordKey).evidence.body.canonicalBytes oneRecordCrypto
      oneRecordJson = .ok (bytes "body") := by
    rw [Body.canonicalBytes, identified]
    rfl
  unfold verifyOffline
  rw [shape, payload, show (presenceRequest recordKey).digests = oneRecordDigests from rfl,
    show (presenceRequest recordKey).trustedDigestKeys =
      [(bytes "k", ⟨bytes "ECDSA-P256", [1]⟩)] from rfl,
    verifyDigestRefs_oneRecord]
  rfl

/-- The tree of one leaf. -/
def treeOf (leaf : Leaf) : Digest.Tree :=
  ⟨[leaf], [[leaf.hash]], leaf.hash⟩

theorem singleLeaf_state {leaf : Leaf} {record : RecordKey × Bytes}
    (made : Digest.newLeaf oneRecordCrypto.sha256Sum pairEncoding record = .ok leaf)
    (listed : leaf.input ∈ oneRecordInputs) :
    State oneRecordCrypto.sha256Sum pairEncoding [leaf] (treeOf leaf) where
  made other member := ⟨record, List.eq_of_mem_singleton member ▸ made⟩
  distinct := List.nodup_singleton _
  assembled := by
    have levels : buildLevels oneRecordCrypto.sha256Sum ([leaf].map Leaf.hash) =
        [[leaf.hash]] := by
      rw [buildLevels, if_neg (by simp)]
      rfl
    unfold buildTree
    simp only [show sortLeaves [leaf] = [leaf] from rfl, levels]
    rfl
  binds := by
    refine (Hash.numbering_binds oneRecordInputs (by decide)).mono ?_
    intro text member
    rw [Set.mem_ofPred_eq, buildInputs, show sortLeaves [leaf] = [leaf] from rfl,
      buildLevels, if_neg (by simp), if_neg (by simp)] at member
    rw [List.eq_of_mem_singleton member]
    exact listed

theorem oneLeaf_state :
    State oneRecordCrypto.sha256Sum pairEncoding [oneLeaf] (treeOf oneLeaf) :=
  @singleLeaf_state _ (⟨bytes "t", bytes "key", bytes "a"⟩, bytes "1") (by decide) (by decide)

theorem nextLeaf_state :
    State oneRecordCrypto.sha256Sum pairEncoding [nextLeaf] (treeOf nextLeaf) :=
  @singleLeaf_state _ (⟨bytes "t", bytes "key", bytes "b"⟩, bytes "1") (by decide) (by decide)

theorem oneRecord_describes :
    Describes oneRecordMap (bytes "p") (treeOf oneLeaf) (treeOf nextLeaf) where
  present := ⟨_, rfl, rfl⟩
  absent authority signed other found := by
    simp only [oneRecordMap, List.lookup_cons, List.lookup_nil] at found
    split at found
    · rw [← Option.some.inj found]
      rfl
    · rw [beq_eq_false_iff_ne.mpr other] at found
      exact absurd found (by simp)

/-- The verifier accepts an entry for a record that the present authority does
not have: the proofs of the entry are about another record. -/
theorem presence_of_mislabelled_entry :
    ¬ ∀ (crypto : Crypto) (json : Json) (order : Go.MapOrder) (request : OfflineVerifyRequest)
        (digests : Go.Map SignedDigest) (entry : Entry) (present absent : List Leaf)
        (presentTree absentTree : Digest.Tree) (key : Bytes),
      verifyOffline crypto json order request = .ok () →
      verifyDigestRefs crypto request.evidence.body request.digests
        request.trustedDigestKeys = .ok digests →
      entry ∈ request.evidence.body.entries →
      entry.recordClass = bytes "presence" →
      State crypto.sha256Sum pairEncoding present presentTree →
      State crypto.sha256Sum pairEncoding absent absentTree →
      Describes digests entry.presentAuthority presentTree absentTree →
      recordKeyBytes entry.recordKey = .ok key →
      (∃ leaf ∈ present, leaf.recordKeyBytes = key) ∧
        ∀ leaf ∈ absent, leaf.recordKeyBytes ≠ key := by
  intro claim
  let mislabelled : RecordKey := ⟨bytes "t", bytes "key", bytes "c"⟩
  obtain ⟨⟨leaf, member, key_eq⟩, -⟩ := claim oneRecordCrypto oneRecordJson Go.MapOrder.listed
    (presenceRequest mislabelled) oneRecordMap (presenceEntry mislabelled) [oneLeaf] [nextLeaf]
    (treeOf oneLeaf) (treeOf nextLeaf) (bytes "t\x00key\x00c") (verifyOffline_oneRecord _)
    (verifyDigestRefs_oneRecord _) (List.mem_singleton.mpr rfl) rfl oneLeaf_state nextLeaf_state
    oneRecord_describes (by decide)
  rw [List.eq_of_mem_singleton member] at key_eq
  exact absurd key_eq (by decide)

/-- The entry for the record the proofs are about, whose absence the next record
brackets. -/
theorem presence_sound_bracketed :
    (∃ leaf ∈ [oneLeaf], leaf.recordKeyBytes = bytes "t\x00key\x00a") ∧
      ∀ leaf ∈ [nextLeaf], leaf.recordKeyBytes ≠ bytes "t\x00key\x00a" :=
  presence_sound pairEncoding oneRecordCrypto oneRecordJson Go.MapOrder.listed
    (presenceRequest ⟨bytes "t", bytes "key", bytes "a"⟩) (verifyOffline_oneRecord _)
    oneRecordMap (verifyDigestRefs_oneRecord _)
    (presenceEntry ⟨bytes "t", bytes "key", bytes "a"⟩) (List.mem_singleton.mpr rfl) rfl
    [oneLeaf] [nextLeaf] (treeOf oneLeaf) (treeOf nextLeaf) oneLeaf_state nextLeaf_state
    oneRecord_describes (bytes "t\x00key\x00a")
    { keyed := by decide
      included := ⟨_, List.mem_singleton.mpr rfl, rfl, rfl⟩
      targeted := by
        intro absence found
        rw [← Option.some.inj found]
      adjacent := by
        intro absence found brackets leaf member
        rw [← Option.some.inj found, List.eq_of_mem_singleton member]
        exact fun between => absurd between.2 (by decide) }
    (by decide) (by decide)

end Trstctl.Reconcile.Witness

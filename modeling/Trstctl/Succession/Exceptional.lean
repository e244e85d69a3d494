import Trstctl.Succession.Chain
import Trstctl.Succession.Minter.Spec

/-!
# Exceptional records

Revocations, ceremonies and emergencies are records of the chain with a type of
their own (`internal/succession/exceptional.go`).  A revocation leads from a key
to the same key: it is linked and signed as every other record, so a chain that
is accepted is accepted with the revocation of its head.  Two records of one
identity and epoch prove a misissuance (`internal/translog/misissuance.go`).
-/

namespace Trstctl.Succession

open Go (Bytes bytes)
open Minter (Signer)

def recRevocation : RecordType := bytes "revocation"

/-- `Revoked`: the head of the chain is a revocation. -/
def revoked (chain : List SuccessionRecord) : Bool :=
  match chain.getLast? with
  | none => false
  | some head => head.recordType = recRevocation

/-- A record that says it is a revocation, to its readers or in its
commitment. -/
def Tombstone (record : SuccessionRecord) : Prop :=
  record.recordType = recRevocation ∨ record.fields.recordType = recRevocation

instance (record : SuccessionRecord) : Decidable (Tombstone record) :=
  inferInstanceAs (Decidable (_ ∨ _))

/-- Why an exceptional record was not built. -/
inductive BuildError where
  | ordinaryType
  | commitment (error : CommitError)
  | sign (text : Bytes)
  | attest (error : AttestError)
deriving DecidableEq

def buildExceptional (crypto : Crypto) (fields : CommitmentFields) (predecessor successor : Signer)
    (recordType : RecordType) (attestSign : Bytes → Except Bytes Bytes)
    (signerID : Bytes) : Except BuildError SuccessionRecord := do
  if recordType = recOrdinary then throw .ordinaryType
  let fields :=
    { fields with
      successorAlg := successor.algorithm
      successorPub := successor.publicDER
      commitmentVersion := 2
      recordType := recordType }
  let commitment ← (commit crypto fields).mapError .commitment
  let predecessorSignature ← (predecessor.sign commitment).mapError .sign
  let successorSignature ← (successor.sign commitment).mapError .sign
  let record : SuccessionRecord :=
    { fields := fields
      predecessorAtt := predecessorSignature
      possession :=
        { kind := .successorSignature, signature := successorSignature, transcript := [] }
      signerAttestation := []
      inclusionProof := []
      authzDigest := []
      breakGlassAuth := []
      recordType := recordType
      attestationEvidenceDigest := []
      attestationType := [] }
  let attestation ← (attest crypto attestSign signerID record).mapError .attest
  return { record with signerAttestation := attestation }

/-- The fields of a revocation before its successor is set. -/
def revocationFields (current : Signer) (deploymentScope identityID tenantID : Bytes)
    (predecessorEpoch : UInt64) (notBefore notAfter : Int) : CommitmentFields where
  deploymentScope := deploymentScope
  identityID := identityID
  tenantID := tenantID
  predecessorEpoch := predecessorEpoch
  epoch := predecessorEpoch + 1
  predecessorAlg := current.algorithm
  predecessorPub := current.publicDER
  successorAlg := []
  successorPub := []
  policyRef := []
  hashAlg := hashAlgSHA256
  notBefore := notBefore
  notAfter := notAfter
  commitmentVersion := 0
  recordType := recOrdinary
  authzDigest := []
  attestationEvidenceDigest := []
  attestationType := []
  delegationPath := []

def buildRevocation (crypto : Crypto) (current : Signer)
    (deploymentScope identityID tenantID : Bytes) (predecessorEpoch : UInt64)
    (notBefore notAfter : Int) (attestSign : Bytes → Except Bytes Bytes)
    (signerID : Bytes) : Except BuildError SuccessionRecord :=
  buildExceptional crypto
    (revocationFields current deploymentScope identityID tenantID predecessorEpoch notBefore
      notAfter)
    current current recRevocation attestSign signerID

theorem buildRevocation_continues {crypto : Crypto} {current : Signer}
    {deploymentScope identityID tenantID signerID : Bytes} {predecessorEpoch : UInt64}
    {notBefore notAfter : Int} {attestSign : Bytes → Except Bytes Bytes} {record : SuccessionRecord}
    (honest : current.Honest crypto) (nextEpoch : predecessorEpoch < predecessorEpoch + 1)
    (built : buildRevocation crypto current deploymentScope identityID tenantID predecessorEpoch
      notBefore notAfter attestSign signerID = .ok record) :
    Continues crypto ⟨current.algorithm, current.publicDER, predecessorEpoch⟩ record ∧
      record.recordType = recRevocation ∧ record.fields.recordType = recRevocation := by
  simp only [buildRevocation, buildExceptional, Result.guard_eq_ok, Result.bind_eq_ok,
    Result.mapError_eq_ok] at built
  obtain ⟨-, commitment, committed, first, firstSigned, second, secondSigned, attestation, -,
    built⟩ := built
  obtain rfl := Except.ok.inj built
  obtain ⟨firstSome, firstVerifies⟩ := honest _ _ firstSigned
  obtain ⟨secondSome, secondVerifies⟩ := honest _ _ secondSigned
  refine ⟨⟨rfl, rfl, nextEpoch, rfl, rfl, verifyRecord_eq_ok.mpr ⟨commitment, ?_⟩⟩, rfl, rfl⟩
  exact ⟨committed, firstSome, firstVerifies, rfl, secondSome, secondVerifies,
    fun _ => ⟨rfl, rfl, rfl, rfl⟩⟩

/-- The revocation of the key an accepted chain ends with extends the chain to one
that is accepted again. -/
theorem verifyChain_append_revocation
    {crypto : Crypto} {genesis : GenesisRecord} {chain : List SuccessionRecord}
    {lastAccepted : UInt64} {current : Signer}
    {deploymentScope identityID tenantID signerID : Bytes} {predecessorEpoch : UInt64}
    {notBefore notAfter : Int} {attestSign : Bytes → Except Bytes Bytes} {record : SuccessionRecord}
    (accepted : verifyChain crypto genesis chain lastAccepted = .ok ())
    (head : headPosture genesis.posture chain =
      ⟨current.algorithm, current.publicDER, predecessorEpoch⟩)
    (honest : current.Honest crypto)
    (nextEpoch : predecessorEpoch < predecessorEpoch + 1)
    (built : buildRevocation crypto current deploymentScope identityID tenantID predecessorEpoch
      notBefore notAfter attestSign signerID = .ok record) :
    verifyChain crypto genesis (chain ++ [record]) lastAccepted = .ok () := by
  obtain ⟨registered, linked, newer⟩ := verifyChain_eq_ok.mp accepted
  obtain ⟨continued, -, -⟩ := buildRevocation_continues honest nextEpoch built
  rw [← head] at continued
  refine verifyChain_eq_ok.mpr ⟨registered, linked_concat.mpr ⟨linked, continued⟩, ?_⟩
  intro positive
  rw [headPosture_concat]
  exact UInt64.lt_trans (newer positive) continued.monotonic

theorem revoked_prefix_iff {chain : List SuccessionRecord} :
    (∀ front, front <+: chain → revoked front = false) ↔
      ∀ record ∈ chain, record.recordType ≠ recRevocation := by
  constructor
  · intro notRevoked record member
    obtain ⟨before, after, rfl⟩ := List.append_of_mem member
    have front : before ++ [record] <+: before ++ record :: after :=
      ⟨after, by rw [List.append_assoc, List.singleton_append]⟩
    have ends := notRevoked _ front
    simpa [revoked, List.getLast?_concat] using ends
  · intro ordinary front isFront
    unfold revoked
    cases last : front.getLast? with
    | none => rfl
    | some head =>
        have member : head ∈ chain := isFront.subset (List.mem_of_getLast? last)
        simpa using ordinary head member

/-- `EpochCollision`: one identity and epoch with two commitments. -/
def epochCollision (crypto : Crypto) (a b : SuccessionRecord) : Bool :=
  if a.fields.identityID ≠ b.fields.identityID ∨ a.fields.epoch ≠ b.fields.epoch then false
  else
    match commit crypto a.fields, commit crypto b.fields with
    | .ok ca, .ok cb => ca != cb
    | _, _ => false

/-- Two records presented as a collision. -/
structure MisissuanceProof where
  recordA : SuccessionRecord
  recordB : SuccessionRecord

/-- Why two records are no proof. -/
inductive MisissuanceError where
  | recordA (error : VerifyError)
  | recordB (error : VerifyError)
  | noConflict

/-- Both records verify and they collide. -/
def verifyMisissuanceProof (crypto : Crypto) (proof : MisissuanceProof) :
    Except MisissuanceError Unit := do
  (verifyRecord crypto proof.recordA).mapError .recordA
  (verifyRecord crypto proof.recordB).mapError .recordB
  if !epochCollision crypto proof.recordA proof.recordB then throw .noConflict

/-- The proof from two records that collide. -/
def buildMisissuanceProof (crypto : Crypto) (a b : SuccessionRecord) :
    Except MisissuanceError MisissuanceProof := do
  (verifyRecord crypto a).mapError .recordA
  (verifyRecord crypto b).mapError .recordB
  if !epochCollision crypto a b then throw .noConflict
  return ⟨a, b⟩

/-- What the records of a chain commit to. -/
def commitments (crypto : Crypto) (chain : List SuccessionRecord) :
    List (Except CommitError Bytes) :=
  chain.map fun record => commit crypto record.fields

section

variable {crypto : Crypto} {a b : SuccessionRecord} {previous other : Posture}
  {chain fork : List SuccessionRecord}

theorem verifyMisissuanceProof_eq_ok :
    verifyMisissuanceProof crypto ⟨a, b⟩ = .ok () ↔
      verifyRecord crypto a = .ok () ∧ verifyRecord crypto b = .ok () ∧
        epochCollision crypto a b = true := by
  simp [verifyMisissuanceProof, Result.bind_eq_ok, Result.mapError_eq_ok, Result.lastGuard_eq_ok,
    Unique.exists_iff]

theorem buildMisissuanceProof_eq :
    buildMisissuanceProof crypto a b =
      (verifyMisissuanceProof crypto ⟨a, b⟩).map fun _ => ⟨a, b⟩ := by
  unfold buildMisissuanceProof verifyMisissuanceProof
  cases verifyRecord crypto a with
  | error error => rfl
  | ok first =>
      cases verifyRecord crypto b with
      | error error => rfl
      | ok second => cases epochCollision crypto a b <;> rfl

theorem epochCollision_iff
    (verifiesA : verifyRecord crypto a = .ok ())
    (verifiesB : verifyRecord crypto b = .ok ()) :
    epochCollision crypto a b = true ↔
      (a.fields.identityID = b.fields.identityID ∧ a.fields.epoch = b.fields.epoch) ∧
        commit crypto a.fields ≠ commit crypto b.fields := by
  obtain ⟨first, signedA⟩ := verifyRecord_eq_ok.mp verifiesA
  obtain ⟨second, signedB⟩ := verifyRecord_eq_ok.mp verifiesB
  rw [epochCollision, signedA.committed, signedB.committed]
  split_ifs with apart
  · simp only [← not_and_or] at apart
    simp [apart]
  · rw [not_or, not_ne_iff, not_ne_iff] at apart
    simp [apart]

theorem epochCollision_of_epoch_ne
    (apart : a.fields.epoch ≠ b.fields.epoch) :
    epochCollision crypto a b ≠ true := by
  rw [epochCollision, if_pos (Or.inr apart)]
  exact Bool.false_ne_true

theorem Linked.epoch_lt
    (linked : Linked crypto previous chain) :
    ∀ record ∈ chain, previous.epoch < record.fields.epoch := by
  induction chain generalizing previous with
  | nil => exact List.forall_mem_nil _
  | cons first rest ih =>
      have start := linked.1.monotonic
      refine List.forall_mem_cons.mpr ⟨start, fun record member => ?_⟩
      exact UInt64.lt_trans start (ih linked.2 record member)

theorem exists_collision_cons_iff
    (linked : Linked crypto a.posture chain)
    (forked : Linked crypto b.posture fork)
    (epochs : a.fields.epoch = b.fields.epoch) :
    (∃ first ∈ a :: chain, ∃ second ∈ b :: fork, epochCollision crypto first second = true) ↔
      epochCollision crypto a b = true ∨
        ∃ first ∈ chain, ∃ second ∈ fork, epochCollision crypto first second = true := by
  constructor
  · rintro ⟨first, inChain, second, inFork, collision⟩
    rcases List.mem_cons.mp inChain with rfl | inChain
    · rcases List.mem_cons.mp inFork with rfl | inFork
      · exact .inl collision
      · have newer := forked.epoch_lt second inFork
        exact absurd collision (epochCollision_of_epoch_ne (epochs ▸ UInt64.ne_of_lt newer))
    · rcases List.mem_cons.mp inFork with rfl | inFork
      · have newer := linked.epoch_lt first inChain
        exact absurd collision
          (epochCollision_of_epoch_ne (epochs ▸ (UInt64.ne_of_lt newer).symm))
      · exact .inr ⟨first, inChain, second, inFork, collision⟩
  · rintro (collision | ⟨first, inChain, second, inFork, collision⟩)
    · exact ⟨a, List.mem_cons_self, b, List.mem_cons_self, collision⟩
    · exact ⟨first, List.mem_cons_of_mem _ inChain, second, List.mem_cons_of_mem _ inFork,
        collision⟩

theorem Linked.exists_collision_iff
    (linked : Linked crypto previous chain)
    (forked : Linked crypto other fork)
    (start : previous.epoch = other.epoch)
    (same : ∀ a ∈ chain, ∀ b ∈ fork, a.fields.identityID = b.fields.identityID) :
    (∃ a ∈ chain, ∃ b ∈ fork, epochCollision crypto a b = true) ↔
      ¬ (commitments crypto chain <+: commitments crypto fork ∨
        commitments crypto fork <+: commitments crypto chain) := by
  induction chain generalizing previous other fork with
  | nil => simp [commitments]
  | cons a chain ih =>
      cases fork with
      | nil => simp [commitments]
      | cons b fork =>
          have epochs : a.fields.epoch = b.fields.epoch := by
            rw [linked.1.increment, linked.1.predecessorEpoch, start, forked.1.increment,
              forked.1.predecessorEpoch]
          have later := ih linked.2 forked.2 epochs fun a inChain b inFork =>
            same a (List.mem_cons_of_mem _ inChain) b (List.mem_cons_of_mem _ inFork)
          rw [exists_collision_cons_iff linked.2 forked.2 epochs,
            epochCollision_iff linked.1.verifies forked.1.verifies, later]
          by_cases committed : commit crypto a.fields = commit crypto b.fields
          · simp [commitments, List.cons_prefix_cons, committed]
          · simp [commitments, List.cons_prefix_cons, committed, Ne.symm committed, epochs,
              same a List.mem_cons_self b List.mem_cons_self]

/-- Two accepted chains of one identity that start at one genesis record give a
proof of misissuance exactly when neither commits to the start of the other. -/
theorem exists_misissuanceProof_iff
    {genesis : GenesisRecord} {lastAccepted otherAccepted : UInt64}
    (accepted : verifyChain crypto genesis chain lastAccepted = .ok ())
    (forked : verifyChain crypto genesis fork otherAccepted = .ok ())
    (same : ∀ a ∈ chain, ∀ b ∈ fork, a.fields.identityID = b.fields.identityID) :
    (∃ a ∈ chain, ∃ b ∈ fork, buildMisissuanceProof crypto a b = .ok ⟨a, b⟩ ∧
        verifyMisissuanceProof crypto ⟨a, b⟩ = .ok ()) ↔
      ¬ (commitments crypto chain <+: commitments crypto fork ∨
        commitments crypto fork <+: commitments crypto chain) := by
  have linked := (verifyChain_eq_ok.mp accepted).linked
  have linkedFork := (verifyChain_eq_ok.mp forked).linked
  rw [← linked.exists_collision_iff linkedFork rfl same]
  refine exists_congr fun a => and_congr_right fun inChain =>
    exists_congr fun b => and_congr_right fun inFork => ?_
  have proves := @verifyMisissuanceProof_eq_ok crypto a b
  simp only [linked.verifies a inChain, linkedFork.verifies b inFork, true_and] at proves
  rw [proves, buildMisissuanceProof_eq]
  refine ⟨And.right, fun collision => ⟨?_, collision⟩⟩
  rw [proves.mpr collision]
  rfl

end

/-- The genesis key signed successions for two tenants. -/
theorem exists_misissuanceProof_iff_foreignRecord :
    ∃ a ∈ [ownRecord], ∃ b ∈ [foreignRecord],
      buildMisissuanceProof plainCrypto a b = .ok ⟨a, b⟩ ∧
        verifyMisissuanceProof plainCrypto ⟨a, b⟩ = .ok () :=
  (@exists_misissuanceProof_iff plainCrypto [ownRecord] [foreignRecord] tenantGenesis 0 0
    (by decide +kernel) (by decide +kernel) (by decide +kernel)).mpr (by decide +kernel)

end Trstctl.Succession

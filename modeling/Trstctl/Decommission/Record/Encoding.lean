import Trstctl.Decommission.Gate.Verify

/-!
# Destruction records of single keys

`SignedRecord` of `internal/decommission/record` with its canonical encoding:
`EncodeRecord` normalizes a record and writes it as JSON, and `Vector` takes the
digest of the text.
-/

namespace Trstctl.Decommission.Record

open Go (Bytes bytes trimSpace decimal jsonPair jsonObject jsonArray jsonString jsonBool
  jsonByteSlice jsonOptional)

/-- `gate.QuorumEvidence`, whose approvers may be redacted. -/
structure QuorumEvidence where
  keyClass : Bytes
  threshold : Int
  authorizedCount : Int
  approvalCount : Int
  approvers : List Bytes
  approversRedacted : Bool
  approverDigest : Bytes

structure EvidenceBinding where
  kind : Bytes
  digest : Bytes
  recordDigest : Bytes
  attestationClassID : Bytes

structure SuccessorKey where
  id : Bytes
  epoch : UInt64
  algorithm : Bytes
  publicDER : Bytes
  digest : Bytes

structure TransparencyProof where
  logID : Bytes
  treeSize : UInt64
  checkpointEpoch : UInt64
  leafDigest : Bytes
  rootDigest : Bytes
  proof : List Bytes

/-- `Commitment`, without the version and the domain, which are fixed. -/
structure Commitment where
  tenantID : Bytes
  stableKeyID : Bytes
  finalEpoch : UInt64
  completionEventsDigest : Bytes
  requiredSetDigest : Bytes
  quorumEvidence : Option QuorumEvidence
  revocationCompletionDigest : Bytes
  destructionEvidence : EvidenceBinding
  auditChainHead : Bytes
  successors : List SuccessorKey
  policyRef : Bytes
  policyDecisionDigest : Bytes
  mintedAtUnix : Int
  transparency : TransparencyProof

/-- `Countersignature`, without the version and the domain, which are fixed. -/
structure Countersignature where
  authorityID : Bytes
  keyID : Bytes
  algorithm : Bytes
  publicKeyDER : Bytes
  commitmentDigest : Bytes
  mintingSignatureDigest : Bytes
  signedAtUnix : Int
  signature : Bytes

/-- `SignedRecord`, without the version, which is fixed. -/
structure SignedRecord where
  type : Bytes
  commitment : Commitment
  commitmentDigest : Bytes
  signerID : Bytes
  attestationAlgorithm : Bytes
  attestationPublicKeyDER : Bytes
  signature : Bytes
  countersignatures : List Countersignature

/-- `gate.NormalizeQuorumEvidence`. -/
def QuorumEvidence.normalize (codec : Gate.Codec) (evidence : QuorumEvidence) : QuorumEvidence :=
  let keyClass := trimSpace evidence.keyClass
  if evidence.approversRedacted then { evidence with keyClass := keyClass, approvers := [] }
  else
    let approvers := Gate.distinctSortedStrings evidence.approvers
    { evidence with
      keyClass := keyClass
      approvers := approvers
      approvalCount := approvers.length
      approverDigest := Gate.quorumApproverDigest codec keyClass approvers }

/-- `normalizeEvidence`. -/
def EvidenceBinding.normalize (evidence : EvidenceBinding) : EvidenceBinding :=
  { evidence with
    kind := trimSpace evidence.kind
    attestationClassID := trimSpace evidence.attestationClassID }

/-- A successor with its name trimmed and its digest filled in. -/
def SuccessorKey.normalize (codec : Gate.Codec) (successor : SuccessorKey) : SuccessorKey :=
  let id := trimSpace successor.id
  { successor with
    id := id
    digest :=
      if successor.digest = [] then
        codec.sha256Sum (jsonObject [jsonPair "id" (jsonString id),
          jsonPair "epoch" (decimal successor.epoch.toNat),
          jsonPair "algorithm" (jsonString successor.algorithm),
          jsonPair "public_der" (jsonByteSlice successor.publicDER)])
      else successor.digest }

/-- The order of `normalizeSuccessors`. -/
def successorLess (left right : SuccessorKey) : Bool :=
  if left.id ≠ right.id then left.id < right.id
  else if left.epoch ≠ right.epoch then left.epoch < right.epoch
  else if left.algorithm ≠ right.algorithm then left.algorithm < right.algorithm
  else left.publicDER < right.publicDER

def normalizeSuccessors (codec : Gate.Codec) (successors : List SuccessorKey) :
    List SuccessorKey :=
  (successors.map (SuccessorKey.normalize codec)).insertionSort fun left right =>
    successorLess right left = false

/-- `normalizeCommitment`. -/
def Commitment.normalize (codec : Gate.Codec) (commitment : Commitment) : Commitment :=
  { commitment with
    tenantID := trimSpace commitment.tenantID
    stableKeyID := trimSpace commitment.stableKeyID
    quorumEvidence := commitment.quorumEvidence.map (QuorumEvidence.normalize codec)
    destructionEvidence := commitment.destructionEvidence.normalize
    auditChainHead := trimSpace commitment.auditChainHead
    successors := normalizeSuccessors codec commitment.successors
    policyRef := trimSpace commitment.policyRef
    transparency :=
      { commitment.transparency with logID := trimSpace commitment.transparency.logID } }

/-- `normalizeCountersignature`. -/
def Countersignature.normalize (countersignature : Countersignature) : Countersignature :=
  { countersignature with
    authorityID := trimSpace countersignature.authorityID
    keyID := trimSpace countersignature.keyID }

/-- `normalizeRecord`. -/
def SignedRecord.normalize (codec : Gate.Codec) (record : SignedRecord) : SignedRecord :=
  { record with
    type := if record.type = [] then bytes "destruction_record.minted" else record.type
    commitment := record.commitment.normalize codec
    countersignatures := record.countersignatures.map Countersignature.normalize }

/-! ## Encoding

Every byte slice of a normalized record has been copied by `append` to nil, so
that an empty one is written as `null`. -/

/-- A byte slice that `omitempty` leaves out. -/
def optionalBytes (key : String) (value : Bytes) : List Bytes :=
  jsonOptional (!value.isEmpty) (jsonPair key (jsonByteSlice value))

/-- A string that `omitempty` leaves out. -/
def optionalString (key : String) (value : Bytes) : List Bytes :=
  jsonOptional (!value.isEmpty) (jsonPair key (jsonString value))

/-- A number that `omitempty` leaves out. -/
def optionalNumber (key : String) (value : UInt64) : List Bytes :=
  jsonOptional (value != 0) (jsonPair key (decimal value.toNat))

/-- An array that `omitempty` leaves out. -/
def optionalArray (key : String) (members : List Bytes) : List Bytes :=
  jsonOptional (!members.isEmpty) (jsonPair key (jsonArray members))

def QuorumEvidence.json (evidence : QuorumEvidence) : Bytes :=
  jsonObject ([jsonPair "version" (decimal 1),
      jsonPair "domain" (jsonString Gate.quorumEvidenceDomain),
      jsonPair "key_class" (jsonString evidence.keyClass),
      jsonPair "threshold" (decimal evidence.threshold),
      jsonPair "authorized_count" (decimal evidence.authorizedCount),
      jsonPair "approval_count" (decimal evidence.approvalCount)] ++
    optionalArray "approvers" (evidence.approvers.map jsonString) ++
    jsonOptional evidence.approversRedacted (jsonPair "approvers_redacted" (jsonBool true)) ++
    [jsonPair "approver_digest" (jsonByteSlice evidence.approverDigest),
      jsonPair "satisfied"
        (jsonBool (decide (0 < evidence.threshold ∧ evidence.threshold ≤ evidence.approvalCount)))])

def EvidenceBinding.json (evidence : EvidenceBinding) : Bytes :=
  jsonObject ([jsonPair "kind" (jsonString evidence.kind),
      jsonPair "digest" (jsonByteSlice evidence.digest)] ++
    optionalBytes "record_digest" evidence.recordDigest ++
    [jsonPair "attestation_class_id" (jsonString evidence.attestationClassID)])

def SuccessorKey.json (successor : SuccessorKey) : Bytes :=
  jsonObject ([jsonPair "id" (jsonString successor.id),
      jsonPair "epoch" (decimal successor.epoch.toNat),
      jsonPair "algorithm" (jsonString successor.algorithm),
      jsonPair "public_der" (jsonByteSlice successor.publicDER)] ++
    optionalBytes "digest" successor.digest)

def TransparencyProof.json (proof : TransparencyProof) : Bytes :=
  jsonObject (optionalString "log_id" proof.logID ++
    optionalNumber "tree_size" proof.treeSize ++
    optionalNumber "checkpoint_epoch" proof.checkpointEpoch ++
    optionalBytes "leaf_digest" proof.leafDigest ++
    optionalBytes "root_digest" proof.rootDigest ++
    optionalArray "proof" (proof.proof.map jsonByteSlice))

def Commitment.json (commitment : Commitment) : Bytes :=
  jsonObject ([jsonPair "version" (decimal 1),
      jsonPair "domain" (jsonString (bytes "trstctl/vdec/destruction-record/commitment/v1")),
      jsonPair "tenant_id" (jsonString commitment.tenantID),
      jsonPair "stable_key_id" (jsonString commitment.stableKeyID),
      jsonPair "final_epoch" (decimal commitment.finalEpoch.toNat),
      jsonPair "completion_events_digest" (jsonByteSlice commitment.completionEventsDigest)] ++
    optionalBytes "required_set_digest" commitment.requiredSetDigest ++
    (commitment.quorumEvidence.map fun evidence =>
      jsonPair "quorum_evidence" evidence.json).toList ++
    optionalBytes "revocation_completion_digest" commitment.revocationCompletionDigest ++
    [jsonPair "destruction_evidence" commitment.destructionEvidence.json,
      jsonPair "audit_chain_head" (jsonString commitment.auditChainHead)] ++
    optionalArray "successors" (commitment.successors.map SuccessorKey.json) ++
    optionalString "policy_ref" commitment.policyRef ++
    optionalBytes "policy_decision_digest" commitment.policyDecisionDigest ++
    [jsonPair "minted_at_unix" (decimal commitment.mintedAtUnix),
      jsonPair "transparency" commitment.transparency.json])

def Countersignature.json (countersignature : Countersignature) : Bytes :=
  jsonObject [jsonPair "version" (decimal 1),
    jsonPair "domain" (jsonString (bytes "trstctl/vdec/destruction-record/countersignature/v1")),
    jsonPair "authority_id" (jsonString countersignature.authorityID),
    jsonPair "key_id" (jsonString countersignature.keyID),
    jsonPair "algorithm" (jsonString countersignature.algorithm),
    jsonPair "public_key_der" (jsonByteSlice countersignature.publicKeyDER),
    jsonPair "commitment_digest" (jsonByteSlice countersignature.commitmentDigest),
    jsonPair "minting_signature_digest" (jsonByteSlice countersignature.mintingSignatureDigest),
    jsonPair "signed_at_unix" (decimal countersignature.signedAtUnix),
    jsonPair "signature" (jsonByteSlice countersignature.signature)]

/-- `EncodeRecord`; the encoding of a record does not fail. -/
def encodeRecord (codec : Gate.Codec) (record : SignedRecord) : Bytes :=
  let record := record.normalize codec
  jsonObject ([jsonPair "version" (decimal 1),
      jsonPair "type" (jsonString record.type),
      jsonPair "commitment" record.commitment.json,
      jsonPair "commitment_digest" (jsonByteSlice record.commitmentDigest),
      jsonPair "signer_id" (jsonString record.signerID),
      jsonPair "attestation_algorithm" (jsonString record.attestationAlgorithm),
      jsonPair "attestation_public_key_der" (jsonByteSlice record.attestationPublicKeyDER),
      jsonPair "signature" (jsonByteSlice record.signature)] ++
    optionalArray "countersignatures" (record.countersignatures.map Countersignature.json))

/-- The field `EncodedRecordDigest` of `Vector`. -/
def encodedRecordDigest (codec : Gate.Codec) (record : SignedRecord) : Bytes :=
  codec.sha256Sum (encodeRecord codec record)

end Trstctl.Decommission.Record

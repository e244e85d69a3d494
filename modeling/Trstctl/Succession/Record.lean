import Mathlib.Algebra.Group.Int.Defs
import Trstctl.Go.Encoding
import Trstctl.Library.Result

/-!
# Succession records

The dual-signed record that moves an identity to its next algorithm epoch
(`internal/succession`): the committed fields with their canonical encoding,
the record with its text, the names of signer-held keys, the strength classes
of algorithms, the signer's countersignature and refusal artifact, and the
verification of one record.  The hash and the signature check of package
`crypto` are parameters.
-/

namespace Trstctl.Succession

open Go (Bytes bytes bigEndian64 hexEncode decimal jsonObject jsonPair jsonString jsonByteSlice
  throughJson)

/-- The hash and the signature check of package `crypto`.
`verifyAlgorithmMessage` takes an algorithm, a public key, a message and a
signature. -/
structure Crypto where
  sha256Sum : Bytes → Bytes
  verifyAlgorithmMessage : Bytes → Bytes → Bytes → Bytes → Bool

def Crypto.sha256Hex (crypto : Crypto) (text : Bytes) : Bytes :=
  hexEncode (crypto.sha256Sum text)

/-- `algRegistry`: the identifiers bound in commitments. -/
def algRegistry : List (Bytes × Nat) :=
  [(bytes "RSA-2048", 1), (bytes "RSA-3072", 2), (bytes "RSA-4096", 3),
    (bytes "ECDSA-P256", 10), (bytes "ECDSA-P384", 11), (bytes "ECDSA-P521", 12),
    (bytes "Ed25519", 20),
    (bytes "ML-DSA-44", 30), (bytes "ML-DSA-65", 31), (bytes "ML-DSA-87", 32),
    (bytes "SLH-DSA-SHA2-128s", 33), (bytes "SLH-DSA-SHA2-128f", 34),
    (bytes "SLH-DSA-SHA2-192s", 35), (bytes "SLH-DSA-SHA2-256s", 36),
    (bytes "Hybrid-Ed25519-Dilithium3", 40), (bytes "Hybrid-ML-DSA-44-ECDSA-P256", 41),
    (bytes "ML-KEM-512", 50), (bytes "ML-KEM-768", 51), (bytes "ML-KEM-1024", 52)]

/-- Why fields have no commitment. -/
inductive CommitError where
  | predecessorAlg (name : Bytes)
  | successorAlg (name : Bytes)
  | hashAlg (name : Bytes)
deriving DecidableEq

def registryID (algorithm : Bytes) : Option Nat :=
  algRegistry.lookup algorithm

inductive StrengthClass where
  | unknownStrength
  | classical
  | hybrid
  | purePQ
deriving DecidableEq

/-- The position of a class in the order of classes. -/
def StrengthClass.rank : StrengthClass → Nat
  | .unknownStrength => 0
  | .classical => 1
  | .hybrid => 2
  | .purePQ => 3

def classByAlg : List (Bytes × StrengthClass) :=
  [(bytes "RSA-2048", .classical), (bytes "RSA-3072", .classical), (bytes "RSA-4096", .classical),
    (bytes "ECDSA-P256", .classical), (bytes "ECDSA-P384", .classical),
    (bytes "ECDSA-P521", .classical), (bytes "Ed25519", .classical),
    (bytes "ML-DSA-44", .purePQ), (bytes "ML-DSA-65", .purePQ), (bytes "ML-DSA-87", .purePQ),
    (bytes "SLH-DSA-SHA2-128s", .purePQ), (bytes "SLH-DSA-SHA2-128f", .purePQ),
    (bytes "SLH-DSA-SHA2-192s", .purePQ), (bytes "SLH-DSA-SHA2-256s", .purePQ),
    (bytes "Hybrid-Ed25519-Dilithium3", .hybrid), (bytes "Hybrid-ML-DSA-44-ECDSA-P256", .hybrid)]

def classOf (algorithm : Bytes) : StrengthClass :=
  (classByAlg.lookup algorithm).getD .unknownStrength

def isStrengthDowngrade (predecessor successor : Bytes) : Bool :=
  if classOf predecessor = .unknownStrength ∨ classOf successor = .unknownStrength then false
  else decide ((classOf successor).rank < (classOf predecessor).rank)

abbrev RecordType := Bytes

def recOrdinary : RecordType := []

def hashAlgSHA256 : Bytes := bytes "SHA-256"

/-- `CommitmentFields`.  Times are in seconds of the Unix epoch. -/
structure CommitmentFields where
  deploymentScope : Bytes
  identityID : Bytes
  tenantID : Bytes
  predecessorEpoch : UInt64
  epoch : UInt64
  predecessorAlg : Bytes
  predecessorPub : Bytes
  successorAlg : Bytes
  successorPub : Bytes
  policyRef : Bytes
  hashAlg : Bytes
  notBefore : Int
  notAfter : Int
  commitmentVersion : UInt32
  recordType : RecordType
  authzDigest : Bytes
  attestationEvidenceDigest : Bytes
  attestationType : Bytes
  delegationPath : Bytes
deriving DecidableEq

/-- `writeField`: the length of the field and the field. -/
def writeField (value : Bytes) : Bytes :=
  bigEndian64 value.length ++ value

def writeUint (value : UInt64) : Bytes :=
  bigEndian64 value.toNat

/-- `writeInt`: two's complement. -/
def writeInt (value : Int) : Bytes :=
  bigEndian64 (value % 2 ^ 64).toNat

/-- The fields both versions of the encoding have in common, between the
version and what the second version adds. -/
def CommitmentFields.encodeCore (fields : CommitmentFields)
    (predecessorID successorID : Nat) : Bytes :=
  writeField fields.deploymentScope ++
    writeField fields.identityID ++
    writeField fields.tenantID ++
    writeUint fields.predecessorEpoch ++
    writeUint fields.epoch ++
    bigEndian64 predecessorID ++
    writeField fields.predecessorPub ++
    bigEndian64 successorID ++
    writeField fields.successorPub ++
    writeField fields.policyRef ++
    writeField fields.hashAlg ++
    writeInt fields.notBefore ++
    writeInt fields.notAfter

def CommitmentFields.encodeV2 (fields : CommitmentFields)
    (predecessorID successorID : Nat) : Bytes :=
  writeField (bytes "trstctl/pcas/succession/commitment/v2") ++
    bigEndian64 fields.commitmentVersion.toNat ++
    fields.encodeCore predecessorID successorID ++
    writeField fields.recordType ++
    writeField fields.authzDigest ++
    writeField fields.attestationEvidenceDigest ++
    writeField fields.attestationType ++
    writeField fields.delegationPath

/-- The bytes that a record signs. -/
def CommitmentFields.encode (fields : CommitmentFields) : Except CommitError Bytes :=
  match registryID fields.predecessorAlg with
  | none => .error (.predecessorAlg fields.predecessorAlg)
  | some predecessorID =>
      match registryID fields.successorAlg with
      | none => .error (.successorAlg fields.successorAlg)
      | some successorID =>
          if fields.hashAlg ≠ hashAlgSHA256 then .error (.hashAlg fields.hashAlg)
          else if fields.commitmentVersion ≥ 2 then
            .ok (fields.encodeV2 predecessorID successorID)
          else
            .ok (writeField (bytes "trstctl/pcas/succession/commitment/v1") ++
              fields.encodeCore predecessorID successorID)

def commit (crypto : Crypto) (fields : CommitmentFields) : Except CommitError Bytes :=
  fields.encode.map crypto.sha256Sum

inductive PossessionProofKind where
  | successorSignature
  | decapTranscript
  | nizkPoP
  | other (name : Bytes)
deriving DecidableEq

/-- The value of a kind in the text of a record. -/
def PossessionProofKind.text : PossessionProofKind → Bytes
  | .successorSignature => bytes "successor_signature"
  | .decapTranscript => bytes "decap_transcript"
  | .nizkPoP => bytes "nizk_pop"
  | .other name => name

/-- A kind after `json.Marshal` and `json.Unmarshal`. -/
def PossessionProofKind.throughJson : PossessionProofKind → PossessionProofKind
  | .other name => .other (Go.throughJson name)
  | kind => kind

structure PossessionProof where
  kind : PossessionProofKind
  signature : Bytes
  transcript : Bytes
deriving DecidableEq

/-- A signed succession of one key by the next. -/
structure SuccessionRecord where
  fields : CommitmentFields
  predecessorAtt : Bytes
  possession : PossessionProof
  signerAttestation : Bytes
  inclusionProof : Bytes
  authzDigest : Bytes
  breakGlassAuth : Bytes
  recordType : RecordType
  attestationEvidenceDigest : Bytes
  attestationType : Bytes
deriving DecidableEq

def CommitmentFields.json (fields : CommitmentFields) : Bytes :=
  jsonObject
    [jsonPair "DeploymentScope" (jsonString fields.deploymentScope),
      jsonPair "IdentityID" (jsonString fields.identityID),
      jsonPair "TenantID" (jsonString fields.tenantID),
      jsonPair "PredecessorEpoch" (decimal fields.predecessorEpoch.toNat),
      jsonPair "Epoch" (decimal fields.epoch.toNat),
      jsonPair "PredecessorAlg" (jsonString fields.predecessorAlg),
      jsonPair "PredecessorPub" (jsonByteSlice fields.predecessorPub),
      jsonPair "SuccessorAlg" (jsonString fields.successorAlg),
      jsonPair "SuccessorPub" (jsonByteSlice fields.successorPub),
      jsonPair "PolicyRef" (jsonString fields.policyRef),
      jsonPair "HashAlg" (jsonString fields.hashAlg),
      jsonPair "NotBefore" (decimal fields.notBefore),
      jsonPair "NotAfter" (decimal fields.notAfter),
      jsonPair "CommitmentVersion" (decimal fields.commitmentVersion.toNat),
      jsonPair "RecordType" (jsonString fields.recordType),
      jsonPair "AuthzDigest" (jsonByteSlice fields.authzDigest),
      jsonPair "AttestationEvidenceDigest" (jsonByteSlice fields.attestationEvidenceDigest),
      jsonPair "AttestationType" (jsonString fields.attestationType),
      jsonPair "DelegationPath" (jsonString fields.delegationPath)]

def SuccessionRecord.json (record : SuccessionRecord) : Bytes :=
  jsonObject
    [jsonPair "Fields" record.fields.json,
      jsonPair "PredecessorAtt" (jsonByteSlice record.predecessorAtt),
      jsonPair "Possession" (jsonObject
        [jsonPair "Kind" (jsonString record.possession.kind.text),
          jsonPair "Signature" (jsonByteSlice record.possession.signature),
          jsonPair "Transcript" (jsonByteSlice record.possession.transcript)]),
      jsonPair "SignerAttestation" (jsonByteSlice record.signerAttestation),
      jsonPair "InclusionProof" (jsonByteSlice record.inclusionProof),
      jsonPair "AuthzDigest" (jsonByteSlice record.authzDigest),
      jsonPair "BreakGlassAuth" (jsonByteSlice record.breakGlassAuth),
      jsonPair "RecordType" (jsonString record.recordType),
      jsonPair "AttestationEvidenceDigest" (jsonByteSlice record.attestationEvidenceDigest),
      jsonPair "AttestationType" (jsonString record.attestationType)]

/-- The committed fields after `json.Marshal` and `json.Unmarshal`. -/
def CommitmentFields.throughJson (fields : CommitmentFields) : CommitmentFields :=
  { fields with
    deploymentScope := Go.throughJson fields.deploymentScope
    identityID := Go.throughJson fields.identityID
    tenantID := Go.throughJson fields.tenantID
    predecessorAlg := Go.throughJson fields.predecessorAlg
    successorAlg := Go.throughJson fields.successorAlg
    policyRef := Go.throughJson fields.policyRef
    hashAlg := Go.throughJson fields.hashAlg
    recordType := Go.throughJson fields.recordType
    attestationType := Go.throughJson fields.attestationType
    delegationPath := Go.throughJson fields.delegationPath }

/-- A record after `json.Marshal` and `json.Unmarshal`. -/
def SuccessionRecord.throughJson (record : SuccessionRecord) : SuccessionRecord :=
  { record with
    fields := record.fields.throughJson
    possession := { record.possession with kind := record.possession.kind.throughJson }
    recordType := Go.throughJson record.recordType
    attestationType := Go.throughJson record.attestationType }

def tenantIdentityKey (crypto : Crypto) (tenantID identityID : Bytes) : Bytes :=
  bytes "pcas:v2:" ++ crypto.sha256Hex
    (bytes "trstctl/pcas/tenant-identity/v2:" ++ decimal tenantID.length ++ bytes ":" ++ tenantID ++
      bytes ":" ++ decimal identityID.length ++ bytes ":" ++ identityID)

def tenantKeyHandle (crypto : Crypto) (tenantID identityID : Bytes) (epoch : UInt64) : Bytes :=
  tenantIdentityKey crypto tenantID identityID ++ bytes ":" ++ decimal epoch.toNat

def authzDigest (crypto : Crypto) (authorizationArtifact : Bytes) : Bytes :=
  crypto.sha256Sum (writeField (bytes "trstctl/pcas/authz-digest/v1") ++
    writeField authorizationArtifact)

def attestMessage (crypto : Crypto) (record : SuccessionRecord)
    (signerID : Bytes) : Except CommitError Bytes :=
  (commit crypto record.fields).map fun commitment =>
    writeField (bytes "trstctl/pcas/signer-attestation/v1") ++
      writeField signerID ++
      writeField commitment ++
      writeField record.authzDigest ++
      writeField record.recordType ++
      writeField record.attestationEvidenceDigest ++
      writeField record.attestationType

/-- Why a record was not countersigned. -/
inductive AttestError where
  | signerIDRequired
  | commitment (error : CommitError)
  | sign (text : Bytes)
deriving DecidableEq

def attest (crypto : Crypto) (sign : Bytes → Except Bytes Bytes) (signerID : Bytes)
    (record : SuccessionRecord) : Except AttestError Bytes := do
  if signerID.isEmpty then throw .signerIDRequired
  let message ← (attestMessage crypto record signerID).mapError .commitment
  let signature ← (sign message).mapError .sign
  return jsonObject
    [jsonPair "signer_id" (jsonString signerID), jsonPair "sig" (jsonByteSlice signature)]

inductive RefusalConstraint where
  | epoch
  | strength
  | policy
  | dualControl
  | tenant

/-- The identifier of a constraint. -/
def RefusalConstraint.text : RefusalConstraint → Bytes
  | .epoch => bytes "epoch_monotonicity"
  | .strength => bytes "strength_ordering"
  | .policy => bytes "policy"
  | .dualControl => bytes "dual_control"
  | .tenant => bytes "tenant"

structure RefusalArtifact where
  signerID : Bytes
  identityID : Bytes
  tenantID : Bytes
  requestDigest : Bytes
  constraint : RefusalConstraint
  issuedAt : Int
  signature : Bytes

def refusalMessage (artifact : RefusalArtifact) : Bytes :=
  writeField (bytes "trstctl/pcas/refusal/v1") ++
    writeField artifact.signerID ++
    writeField artifact.identityID ++
    writeField artifact.tenantID ++
    writeField artifact.requestDigest ++
    writeField artifact.constraint.text ++
    writeInt artifact.issuedAt

def signRefusal (sign : Bytes → Except Bytes Bytes)
    (artifact : RefusalArtifact) : Except Bytes RefusalArtifact :=
  (sign (refusalMessage { artifact with signature := [] })).map fun signature =>
    { artifact with signature := signature }

/-- Why a record does not verify. -/
inductive VerifyError where
  | commitment (error : CommitError)
  | predecessorAttestation
  | possessionProof
  | unsupportedProof (kind : PossessionProofKind)
  | recordFieldMismatch (field : String)
deriving DecidableEq

def verifyRecord (crypto : Crypto) (record : SuccessionRecord) : Except VerifyError Unit := do
  let commitment ← (commit crypto record.fields).mapError .commitment
  if record.predecessorAtt.isEmpty then throw .predecessorAttestation
  if !crypto.verifyAlgorithmMessage record.fields.predecessorAlg record.fields.predecessorPub
      commitment record.predecessorAtt then
    throw .predecessorAttestation
  match record.possession.kind with
  | .successorSignature =>
      if record.possession.signature.isEmpty then throw .possessionProof
      if !crypto.verifyAlgorithmMessage record.fields.successorAlg record.fields.successorPub
          commitment record.possession.signature then
        throw .possessionProof
  | kind => throw (.unsupportedProof kind)
  if record.fields.commitmentVersion ≥ 2 then
    if record.recordType ≠ record.fields.recordType then
      throw (.recordFieldMismatch "record type")
    if record.authzDigest ≠ record.fields.authzDigest then
      throw (.recordFieldMismatch "authz digest")
    if record.attestationEvidenceDigest ≠ record.fields.attestationEvidenceDigest then
      throw (.recordFieldMismatch "attestation evidence digest")
    if record.attestationType ≠ record.fields.attestationType then
      throw (.recordFieldMismatch "attestation type")

/-- The second version of the commitment binds the fields that readers consume. -/
structure Repeats (record : SuccessionRecord) : Prop where
  recordType : record.recordType = record.fields.recordType
  authzDigest : record.authzDigest = record.fields.authzDigest
  attestationEvidenceDigest :
    record.attestationEvidenceDigest = record.fields.attestationEvidenceDigest
  attestationType : record.attestationType = record.fields.attestationType

/-- Both keys of a record signed its commitment. -/
structure DualSigned (crypto : Crypto) (record : SuccessionRecord) (commitment : Bytes) : Prop where
  committed : commit crypto record.fields = .ok commitment
  attested : record.predecessorAtt.isEmpty = false
  predecessor : crypto.verifyAlgorithmMessage record.fields.predecessorAlg
    record.fields.predecessorPub commitment record.predecessorAtt = true
  kind : record.possession.kind = .successorSignature
  possessed : record.possession.signature.isEmpty = false
  successor : crypto.verifyAlgorithmMessage record.fields.successorAlg
    record.fields.successorPub commitment record.possession.signature = true
  repeats : record.fields.commitmentVersion ≥ 2 → Repeats record

theorem verifyRecord_eq_ok {crypto : Crypto} {record : SuccessionRecord} :
    verifyRecord crypto record = .ok () ↔ ∃ commitment, DualSigned crypto record commitment := by
  simp only [verifyRecord, Result.bind_eq_ok, Result.mapError_eq_ok, Result.guard_eq_ok,
    Bool.not_eq_true, Bool.not_eq_true', Bool.not_eq_false]
  constructor
  · rintro ⟨commitment, committed, attested, predecessor, rest⟩
    cases kind : record.possession.kind with
    | successorSignature =>
        simp only [kind, Result.guard_eq_ok, Bool.not_eq_true, Bool.not_eq_false] at rest
        obtain ⟨possessed, successor, rest⟩ := rest
        refine ⟨commitment, committed, attested, predecessor, kind, possessed, successor, ?_⟩
        intro bound
        simp only [bound, if_true, Result.guard_eq_ok, Result.lastGuard_eq_ok, not_not] at rest
        obtain ⟨recordType, authzDigest, evidenceDigest, attestationType, -⟩ := rest
        exact ⟨recordType, authzDigest, evidenceDigest, attestationType⟩
    | _ =>
        simp only [kind] at rest
        cases rest
  · rintro ⟨commitment, committed, attested, predecessor, kind, possessed, successor, repeats⟩
    refine ⟨commitment, committed, attested, predecessor, ?_⟩
    simp only [kind, Result.guard_eq_ok, Bool.not_eq_true, Bool.not_eq_false]
    refine ⟨possessed, successor, ?_⟩
    split
    · rename_i bound
      obtain ⟨recordType, authzDigest, evidenceDigest, attestationType⟩ := repeats bound
      simp only [Result.guard_eq_ok, Result.lastGuard_eq_ok, not_not]
      exact ⟨recordType, authzDigest, evidenceDigest, attestationType, trivial⟩
    · rfl

end Trstctl.Succession

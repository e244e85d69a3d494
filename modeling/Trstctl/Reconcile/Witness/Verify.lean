import Trstctl.Reconcile.Digest.State

/-!
# Offline verification of divergence witnesses

The functions of `internal/reconcile/witness/verify.go` with the proofs,
signatures and disputes they read.  The JSON texts of a witness come from
`encoding/json` and are parameters; so is the order in which the map of
digests is ranged over.
-/

namespace Trstctl.Reconcile.Witness

open Go (Bytes bytes)
open Digest (SignedDigest ProofNode Watermark)

/-- `BracketProof`: a bracketing leaf whose record is redacted to its hash. -/
structure BracketProof where
  recordKeyBytes : Bytes
  leafHash : Bytes
  siblings : List ProofNode
deriving DecidableEq

structure AbsenceProof where
  targetKeyBytes : Bytes
  lower : Option BracketProof
  upper : Option BracketProof
deriving DecidableEq

def BracketProof.verify (hash : Bytes → Bytes) (proof : BracketProof) (root : Bytes) : Bool :=
  if proof.recordKeyBytes.isEmpty || proof.leafHash.length != 32 then false
  else
    match Digest.climbSiblings hash proof.leafHash proof.siblings with
    | none => false
    | some current => current == root

def AbsenceProof.verify (hash : Bytes → Bytes) (proof : AbsenceProof) (root : Bytes) : Bool :=
  if proof.targetKeyBytes.isEmpty then false
  else
    match proof.lower, proof.upper with
    | none, none => root == Digest.emptyRoot hash
    | some lower, none =>
        decide (lower.recordKeyBytes < proof.targetKeyBytes) && lower.verify hash root
    | none, some upper =>
        decide (proof.targetKeyBytes < upper.recordKeyBytes) && upper.verify hash root
    | some lower, some upper =>
        decide (lower.recordKeyBytes < proof.targetKeyBytes) && lower.verify hash root &&
          (decide (proof.targetKeyBytes < upper.recordKeyBytes) && upper.verify hash root) &&
          decide (lower.recordKeyBytes < upper.recordKeyBytes)

structure DigestRef where
  authorityID : Bytes
  digestHash : Bytes
  keyID : Bytes
  algorithm : Bytes
  publicKeyDER : Bytes
  signature : Bytes
  watermark : Watermark
deriving DecidableEq

structure InclusionProofRef where
  authorityID : Bytes
  proof : Digest.InclusionProof
deriving DecidableEq

structure DisclosedRecord where
  authorityID : Bytes
  recordKey : RecordKey
  canonicalRecordBytes : Bytes
deriving DecidableEq

structure PolicyEvidence where
  authorityID : Bytes
  ruleID : Bytes
  policySetHash : Bytes
  recordKey : RecordKey
deriving DecidableEq

structure StalenessEvidence where
  authorityID : Bytes
  reason : Bytes
  watermark : Watermark
  livenessSec : Int
deriving DecidableEq

/-- `Entry`: one divergence. -/
structure Entry where
  recordKey : RecordKey
  recordClass : Bytes
  presentAuthority : Bytes
  inclusions : List InclusionProofRef
  absence : Option AbsenceProof
  disclosedRecords : List DisclosedRecord
  policy : Option PolicyEvidence
  staleness : Option StalenessEvidence
deriving DecidableEq

structure Body where
  witnessID : Bytes
  roundID : Bytes
  tenantID : Bytes
  specVersion : Bytes
  digestRefs : List DigestRef
  entries : List Entry
  generatedAt : Int

structure WitnessSignature where
  witnessID : Bytes
  authorityID : Bytes
  contentHash : Bytes
  keyID : Bytes
  algorithm : Bytes
  publicKeyDER : Bytes
  signature : Bytes
  signedAt : Int

structure DisputeRecord where
  witnessID : Bytes
  authorityID : Bytes
  digestHash : Bytes
  reason : Bytes
  contentHash : Bytes
  keyID : Bytes
  algorithm : Bytes
  publicKeyDER : Bytes
  signature : Bytes
  disputedAt : Int

/-- A witness with the signatures on it. -/
structure Evidence where
  body : Body
  signatures : List WitnessSignature
  counterSignatures : List WitnessSignature
  disputes : List DisputeRecord

structure OfflineVerifyRequest where
  evidence : Evidence
  digests : List SignedDigest
  trustedDigestKeys : Go.Map PublicKey
  trustedWitnessKeys : Go.Map PublicKey
  verifierAuthority : Bytes
  requireCountersignFrom : Bytes

/-- The part of a body that its witness ID is the hash of. -/
structure Content where
  roundID : Bytes
  tenantID : Bytes
  specVersion : Bytes
  digestRefs : List DigestRef
  entries : List Entry
  generatedAt : Int

/-- `disputeBody`: the signed part of a dispute. -/
structure DisputeBody where
  witnessID : Bytes
  authorityID : Bytes
  digestHash : Bytes
  reason : Bytes
  disputedAt : Int

/-- The JSON texts that `encoding/json` makes of a witness and a dispute. -/
structure Json where
  content : Content → Option Bytes
  body : Body → Option Bytes
  dispute : DisputeBody → Option Bytes

/-- The errors of the offline verification. -/
inductive WitnessError where
  | invalidWitness
  | json
  | digest (error : Digest.DigestError)
  | missingSignedDigest (authorityID : Bytes)
  | digestRefMismatch (authorityID : Bytes)
  | verifierAuthorityMissingDigest
  | contentHashMismatch
  | untrustedKey (keyID : Bytes)
  | publicKeyMismatch
  | signature
  | missingCountersignature
  | missingInclusionDigest (authorityID : Bytes)
  | inclusionProofFailed (authorityID : Bytes)
  | noAbsentAuthority
  | absenceProofFailed
  | unknownClass (recordClass : Bytes)
deriving DecidableEq

section Verification

variable (crypto : Crypto)
variable (json : Json)

def Body.content (body : Body) : Content where
  roundID := body.roundID
  tenantID := body.tenantID
  specVersion := body.specVersion
  digestRefs := body.digestRefs
  entries := body.entries
  generatedAt := body.generatedAt

def Body.witnessHash (body : Body) : Bytes :=
  match json.content body.content with
  | none => []
  | some content => crypto.sha256Sum content

def Body.verifyWitnessID (body : Body) : Bool :=
  if body.witnessID.isEmpty then false
  else body.witnessID == Go.hexEncode (body.witnessHash crypto json)

def Body.canonicalBytes (body : Body) : Except WitnessError Bytes :=
  if body.verifyWitnessID crypto json then
    match json.body body with
    | none => .error .json
    | some text => .ok text
  else .error .invalidWitness

def Evidence.validateShape (evidence : Evidence) : Except WitnessError Unit :=
  if !evidence.body.verifyWitnessID crypto json || evidence.signatures.isEmpty ||
      evidence.body.digestRefs.length < 2 || evidence.body.entries.isEmpty ||
      evidence.body.entries.any (fun entry => entry.recordClass.isEmpty) then
    .error .invalidWitness
  else .ok ()

/-- The check of a signature over a payload, shared by witness signatures and
disputes. -/
def verifySigned (payload contentHash keyID algorithm publicKeyDER signature : Bytes)
    (trusted : Go.Map PublicKey) : Except WitnessError Unit := do
  if keyID.isEmpty || signature.isEmpty || publicKeyDER.isEmpty then throw .invalidWitness
  let hash := crypto.sha256Sum payload
  if hash ≠ contentHash then throw .contentHashMismatch
  match trusted.lookup keyID with
  | none => throw (.untrustedKey keyID)
  | some key =>
      if key.algorithm ≠ algorithm ∨ key.der ≠ publicKeyDER then throw .publicKeyMismatch
      if !crypto.verifyDigest key hash signature then throw .signature

def WitnessSignature.verifyPayload (signature : WitnessSignature) (payload : Bytes)
    (trusted : Go.Map PublicKey) : Except WitnessError Unit :=
  verifySigned crypto payload signature.contentHash signature.keyID signature.algorithm
    signature.publicKeyDER signature.signature trusted

def verifyWitnessSignatures (payload : Bytes) (signatures : List WitnessSignature)
    (trusted : Go.Map PublicKey) : Except WitnessError Unit :=
  signatures.forM fun signature => signature.verifyPayload crypto payload trusted

def DisputeRecord.verify (dispute : DisputeRecord) (trusted : Go.Map PublicKey) :
    Except WitnessError Unit := do
  if dispute.witnessID.isEmpty || dispute.authorityID.isEmpty || dispute.digestHash.isEmpty ||
      dispute.reason.isEmpty || dispute.disputedAt == 0 then
    throw .invalidWitness
  match json.dispute {
      witnessID := dispute.witnessID
      authorityID := dispute.authorityID
      digestHash := dispute.digestHash
      reason := dispute.reason
      disputedAt := dispute.disputedAt } with
  | none => throw .json
  | some payload =>
      verifySigned crypto payload dispute.contentHash dispute.keyID dispute.algorithm
        dispute.publicKeyDER dispute.signature trusted

def hasSignatureFrom (signatures : List WitnessSignature) (authorityID : Bytes) : Bool :=
  signatures.any fun signature => signature.authorityID == authorityID

/-- The signed digests by the authority they name; a later digest of one
authority replaces an earlier one. -/
def digestsByAuthority (trusted : Go.Map PublicKey) :
    Go.Map SignedDigest → List SignedDigest → Except WitnessError (Go.Map SignedDigest)
  | byAuthority, [] => .ok byAuthority
  | byAuthority, signed :: rest =>
      match signed.verify crypto trusted with
      | .error error => .error (.digest error)
      | .ok () => digestsByAuthority trusted (byAuthority.set signed.body.authorityID signed) rest

/-- The comparison of one digest reference with the digest of its authority. -/
def verifyDigestRef (byAuthority : Go.Map SignedDigest) (ref : DigestRef) :
    Except WitnessError Unit :=
  match byAuthority.lookup ref.authorityID with
  | none => .error (.missingSignedDigest ref.authorityID)
  | some signed =>
      if signed.digestHash ≠ ref.digestHash ∨ signed.keyID ≠ ref.keyID ∨
          signed.algorithm ≠ ref.algorithm ∨ signed.publicKeyDER ≠ ref.publicKeyDER ∨
          signed.signature ≠ ref.signature then
        .error (.digestRefMismatch ref.authorityID)
      else .ok ()

def verifyDigestRefs (body : Body) (signed : List SignedDigest) (trusted : Go.Map PublicKey) :
    Except WitnessError (Go.Map SignedDigest) := do
  let byAuthority ← digestsByAuthority crypto trusted [] signed
  body.digestRefs.forM (verifyDigestRef byAuthority)
  return byAuthority

def verifyInclusionRef (digests : Go.Map SignedDigest) (ref : InclusionProofRef) :
    Except WitnessError Unit :=
  match digests.lookup ref.authorityID with
  | none => .error (.missingInclusionDigest ref.authorityID)
  | some signed =>
      if ref.proof.verifyInclusion crypto.sha256Sum signed.body.merkleRoot then .ok ()
      else .error (.inclusionProofFailed ref.authorityID)

/-- `otherAuthority`: the first authority of the map, in the order it is
ranged over, that is not the present one. -/
def otherAuthority (order : Go.MapOrder) (digests : Go.Map SignedDigest) (present : Bytes) :
    Option Bytes :=
  (order.arrange digests.keys).find? fun authorityID => authorityID != present

/-- The case of class presence. -/
def verifyPresence (order : Go.MapOrder) (digests : Go.Map SignedDigest) (entry : Entry) :
    Except WitnessError Unit :=
  match entry.absence with
  | none => .error .invalidWitness
  | some absence =>
      if entry.presentAuthority.isEmpty then .error .invalidWitness
      else
        match entry.inclusions.forM (verifyInclusionRef crypto digests) with
        | .error error => .error error
        | .ok () =>
            match otherAuthority order digests entry.presentAuthority with
            | none => .error .noAbsentAuthority
            | some absentAuthority =>
                let root := (digests.lookup absentAuthority).elim [] fun signed =>
                  signed.body.merkleRoot
                if absence.verify crypto.sha256Sum root then .ok ()
                else .error .absenceProofFailed

def verifyEntry (order : Go.MapOrder) (digests : Go.Map SignedDigest) (entry : Entry) :
    Except WitnessError Unit :=
  if entry.recordClass = bytes "presence" then verifyPresence crypto order digests entry
  else if entry.recordClass = bytes "attribute_conflict" ∨
      entry.recordClass = bytes "policy_violation" then
    if entry.inclusions.isEmpty then .error .invalidWitness
    else
      match entry.inclusions.forM (verifyInclusionRef crypto digests) with
      | .error error => .error error
      | .ok () =>
          if entry.recordClass = bytes "policy_violation" ∧ entry.policy.isNone then
            .error .invalidWitness
          else .ok ()
  else if entry.recordClass = bytes "staleness" then
    if entry.staleness.isNone then .error .invalidWitness else .ok ()
  else .error (.unknownClass entry.recordClass)

/-- The evidence verifies with nothing but its inputs. -/
def verifyOffline (order : Go.MapOrder) (request : OfflineVerifyRequest) :
    Except WitnessError Unit := do
  request.evidence.validateShape crypto json
  let bodyPayload ← request.evidence.body.canonicalBytes crypto json
  let digests ← verifyDigestRefs crypto request.evidence.body request.digests
    request.trustedDigestKeys
  if !request.verifierAuthority.isEmpty && (digests.lookup request.verifierAuthority).isNone then
    throw .verifierAuthorityMissingDigest
  verifyWitnessSignatures crypto bodyPayload request.evidence.signatures
    request.trustedWitnessKeys
  verifyWitnessSignatures crypto bodyPayload request.evidence.counterSignatures
    request.trustedWitnessKeys
  if !request.requireCountersignFrom.isEmpty &&
      !hasSignatureFrom request.evidence.counterSignatures request.requireCountersignFrom then
    throw .missingCountersignature
  request.evidence.disputes.forM fun dispute =>
    dispute.verify crypto json request.trustedWitnessKeys
  request.evidence.body.entries.forM (verifyEntry crypto order digests)

end Verification

end Trstctl.Reconcile.Witness

import Trstctl.Go.Encoding

/-!
# Events on the dependents of a key

The event vocabulary of `internal/decommission/depstate/events.go`, and the
dependencies that CA events imply by `ca_registrations.go` and package
`caevent`.  Payloads are read by `encoding/json`; its readings are a parameter,
as are the hashes.
-/

namespace Trstctl.Decommission.Depstate

open Go (Bytes bytes jsonPair jsonObject jsonString jsonBool decimal)

structure Actor where
  subject : Bytes
  roles : List Bytes
deriving DecidableEq

/-- `Event`, as far as the decommissioning reads it. -/
structure Event where
  id : Bytes
  type : Bytes
  tenantID : Bytes
  data : Bytes
  sequence : Nat
  actor : Option Actor
  schemaVersion : Int
deriving DecidableEq

/-- What depends on a key. -/
structure Dependent where
  dependentClass : Bytes
  id : Bytes
deriving DecidableEq

def Dependent.key (dependent : Dependent) : Bytes :=
  dependent.dependentClass ++ [0] ++ dependent.id

/-- The class of credentials. -/
def dependentCredential : Bytes :=
  bytes "credential"

structure DependencyRegisteredV1 where
  tenantID : Bytes
  keyID : Bytes
  dependent : Dependent
  origin : Bytes
deriving DecidableEq

structure DependencyReleasedV1 where
  tenantID : Bytes
  keyID : Bytes
  dependent : Dependent
  reason : Bytes
deriving DecidableEq

structure DependencyReleasedV2 where
  tenantID : Bytes
  keyID : Bytes
  dependent : Dependent
  sourceEventID : Bytes
  sourceSequence : Nat
  serial : Bytes
  certificateSHA256 : Bytes
  ceremonyID : Bytes
  actor : Bytes
  approvalEventIDs : List Bytes
  reason : Bytes
  riskAccepted : Bool
deriving DecidableEq

structure DependencyReleasedV3 extends DependencyReleasedV2 where
  revocationEventID : Bytes
  revocationSequence : Nat
deriving DecidableEq

structure DependencyErasureDesignatedV1 where
  tenantID : Bytes
  keyID : Bytes
  dependent : Dependent
  designationRef : Bytes
deriving DecidableEq

/-- `ReprotectionCompletedV1`, as far as the projection reads it. -/
structure ReprotectionCompletedV1 where
  tenantID : Bytes
  keyID : Bytes
  jobID : Bytes
  dependent : Dependent
deriving DecidableEq

/-- `RevocationCompletedV1`, as far as the projection reads it. -/
structure RevocationCompletedV1 where
  tenantID : Bytes
  keyID : Bytes
  jobID : Bytes
  dependent : Dependent
deriving DecidableEq

inductive Payload where
  | registered (payload : DependencyRegisteredV1)
  | releasedV1 (payload : DependencyReleasedV1)
  | releasedV2 (payload : DependencyReleasedV2)
  | releasedV3 (payload : DependencyReleasedV3)
  | erasureDesignated (payload : DependencyErasureDesignatedV1)
  | reprotectionCompleted (payload : ReprotectionCompletedV1)
  | revocationCompleted (payload : RevocationCompletedV1)
  | unknown (type : Bytes) (version : Int) (raw : Bytes)
deriving DecidableEq

/-- The payload of an issued certificate. -/
structure IssuedLeaf where
  id : Bytes
  caID : Bytes
  serial : Bytes

/-- The payload of a created or imported authority. -/
structure CreatedAuthority where
  caID : Bytes
  parentID : Option Bytes

structure RekeyedAuthority where
  id : Bytes
  predecessorID : Bytes
  parentID : Option Bytes
  newSignedByPreviousDER : Bytes

/-- The payload of a cross-signed certificate. -/
structure CrossSigned where
  caID : Bytes
  targetSHA256 : Bytes
  crossCertificateDER : Bytes

structure MintReceipt where
  serial : Bytes
  fingerprint : Bytes
  certificateDER : Bytes

/-- One outcome of a batch of revocations. -/
structure RevocationItem where
  id : Bytes
  matched : Bool
  status : Bytes
  caID : Bytes
  serial : Bytes
  fingerprint : Bytes

structure RevocationBatch where
  reason : Bytes
  items : List RevocationItem

structure CeremonyStarted where
  ceremonyID : Bytes
  purpose : Bytes
  threshold : Int
  opener : Bytes

/-- The payload of an approved or cancelled ceremony. -/
structure CeremonyAction where
  ceremonyID : Bytes
  custodian : Bytes

/-- The readings of `json.Unmarshal` by type, with its error texts, and the
functions of the standard library that the projection rests on: SHA-256, SHA-1
and `strings.EqualFold`. -/
structure Codec where
  registered : Bytes → Except Bytes DependencyRegisteredV1
  releasedV1 : Bytes → Except Bytes DependencyReleasedV1
  releasedV2 : Bytes → Except Bytes DependencyReleasedV2
  releasedV3 : Bytes → Except Bytes DependencyReleasedV3
  erasureDesignated : Bytes → Except Bytes DependencyErasureDesignatedV1
  reprotectionCompleted : Bytes → Except Bytes ReprotectionCompletedV1
  revocationCompleted : Bytes → Except Bytes RevocationCompletedV1
  issuedLeaf : Bytes → Except Bytes IssuedLeaf
  createdAuthority : Bytes → Except Bytes CreatedAuthority
  rekeyedAuthority : Bytes → Except Bytes RekeyedAuthority
  crossSigned : Bytes → Except Bytes CrossSigned
  mintReceipt : Bytes → Except Bytes MintReceipt
  revocationBatch : Bytes → Except Bytes RevocationBatch
  ceremonyStarted : Bytes → Except Bytes CeremonyStarted
  ceremonyAction : Bytes → Except Bytes CeremonyAction
  purposeKeyID : Bytes → Except Bytes Bytes
  sha256Sum : Bytes → Bytes
  sha1Sum : Bytes → Bytes
  equalFold : Bytes → Bytes → Bool

/-- A reading of one JSON text, and of others as `next` reads them. -/
def readText {α : Type} (text : Bytes) (value : α) (next : Bytes → Except Bytes α) (raw : Bytes) :
    Except Bytes α :=
  if raw = text then .ok value else next raw

/-- Readings of no text at all. -/
def Codec.unreadable : Codec where
  registered _ := .error (bytes "unexpected end of JSON input")
  releasedV1 _ := .error (bytes "unexpected end of JSON input")
  releasedV2 _ := .error (bytes "unexpected end of JSON input")
  releasedV3 _ := .error (bytes "unexpected end of JSON input")
  erasureDesignated _ := .error (bytes "unexpected end of JSON input")
  reprotectionCompleted _ := .error (bytes "unexpected end of JSON input")
  revocationCompleted _ := .error (bytes "unexpected end of JSON input")
  issuedLeaf _ := .error (bytes "unexpected end of JSON input")
  createdAuthority _ := .error (bytes "unexpected end of JSON input")
  rekeyedAuthority _ := .error (bytes "unexpected end of JSON input")
  crossSigned _ := .error (bytes "unexpected end of JSON input")
  mintReceipt _ := .error (bytes "unexpected end of JSON input")
  revocationBatch _ := .error (bytes "unexpected end of JSON input")
  ceremonyStarted _ := .error (bytes "unexpected end of JSON input")
  ceremonyAction _ := .error (bytes "unexpected end of JSON input")
  purposeKeyID _ := .error (bytes "unexpected end of JSON input")
  sha256Sum _ := List.replicate 32 0
  sha1Sum _ := List.replicate 20 0
  equalFold left right := left == right

/-- The version of an event's payload; zero is the first version. -/
def Event.version (event : Event) : Int :=
  if event.schemaVersion = 0 then 1 else event.schemaVersion

def decodeVersion {α : Type} (event : Event) (want : Int) (unmarshal : Bytes → Except Bytes α)
    (payload : α → Payload) : Except Bytes Payload :=
  if event.version ≠ want then .ok (.unknown event.type event.version event.data)
  else
    match unmarshal event.data with
    | .error detail =>
        .error (bytes "depstate: decode " ++ event.type ++ bytes " v" ++ decimal event.version ++
          bytes ": " ++ detail)
    | .ok value => .ok (payload value)

def decode (codec : Codec) (event : Event) : Except Bytes Payload :=
  if event.type = bytes "dependency.registered" then
    decodeVersion event 1 codec.registered .registered
  else if event.type = bytes "dependency.released" then
    if event.version = 3 then decodeVersion event 3 codec.releasedV3 .releasedV3
    else if event.version = 2 then decodeVersion event 2 codec.releasedV2 .releasedV2
    else decodeVersion event 1 codec.releasedV1 .releasedV1
  else if event.type = bytes "dependency.erasure_designated" then
    decodeVersion event 1 codec.erasureDesignated .erasureDesignated
  else if event.type = bytes "reprotection.completed" then
    decodeVersion event 1 codec.reprotectionCompleted .reprotectionCompleted
  else if event.type = bytes "revocation.completed" then
    decodeVersion event 1 codec.revocationCompleted .revocationCompleted
  else .ok (.unknown event.type event.version event.data)

def Dependent.json (dependent : Dependent) : Bytes :=
  jsonObject [jsonPair "class" (jsonString dependent.dependentClass),
    jsonPair "id" (jsonString dependent.id)]

/-- The members of a release purpose up to the certificate. -/
def DependencyReleasedV2.purposeMembers (release : DependencyReleasedV2) : List Bytes :=
  [jsonPair "tenant_id" (jsonString release.tenantID),
    jsonPair "key_id" (jsonString release.keyID),
    jsonPair "dependent" release.dependent.json,
    jsonPair "source_event_id" (jsonString release.sourceEventID),
    jsonPair "source_sequence" (decimal release.sourceSequence),
    jsonPair "serial" (jsonString release.serial),
    jsonPair "certificate_sha256" (jsonString release.certificateSHA256)]

def DependencyReleasedV2.riskMembers (release : DependencyReleasedV2) : List Bytes :=
  [jsonPair "reason" (jsonString (Go.trimSpace release.reason)),
    jsonPair "risk_accepted" (jsonBool release.riskAccepted)]

def releasePurposeV2 (release : DependencyReleasedV2) : Bytes :=
  bytes "release-managed-ca-leaf-v2:" ++
    jsonObject (release.purposeMembers ++ release.riskMembers)

def releasePurposeV3 (release : DependencyReleasedV3) : Bytes :=
  bytes "release-managed-ca-leaf-v3:" ++
    jsonObject (release.purposeMembers ++
      [jsonPair "revocation_event_id" (jsonString release.revocationEventID),
        jsonPair "revocation_sequence" (decimal release.revocationSequence)] ++
      release.riskMembers)

/-- `ca.certificate.issued`. -/
def eventCAIssuedCertificate : Bytes := bytes "ca.certificate.issued"
/-- `ca.authority.imported`. -/
def eventCAAuthorityImported : Bytes := bytes "ca.authority.imported"
/-- `ca.authority.rekeyed`. -/
def eventCAAuthorityRekeyed : Bytes := bytes "ca.authority.rekeyed"
/-- `ca.intermediate.created`. -/
def eventCAIntermediateCreated : Bytes := bytes "ca.intermediate.created"
/-- `ca.intermediate_csr.issued`. -/
def eventCAIntermediateCSRIssued : Bytes := bytes "ca.intermediate_csr.issued"
/-- `ca.endentity.issued`. -/
def eventCAEndEntityIssued : Bytes := bytes "ca.endentity.issued"
/-- `ca.cross_signed`. -/
def eventCACrossSigned : Bytes := bytes "ca.cross_signed"

/-- The versions that `ValidateSchemaVersion` accepts; other types of events
are not checked. -/
def acceptedVersion (event : Event) : Bool :=
  if event.type = eventCAIssuedCertificate ∨ event.type = eventCAEndEntityIssued then
    event.version == 1 || event.version == 2 || event.version == 3
  else if event.type = eventCAAuthorityImported ∨ event.type = eventCAIntermediateCreated then
    event.version == 1 || event.version == 2
  else if event.type = eventCAAuthorityRekeyed ∨ event.type = eventCAIntermediateCSRIssued ∨
      event.type = eventCACrossSigned then
    event.version == 1
  else true

def validateSchemaVersion (event : Event) : Except Bytes Unit :=
  if acceptedVersion event then .ok ()
  else
    .error (bytes "caevent: unknown event schema version: type \"" ++ event.type ++ bytes "\" v" ++
      decimal event.version ++ bytes " (seq " ++ decimal event.sequence ++ bytes ")")

def uuidv5OID (codec : Codec) (name : Bytes) : Bytes :=
  let digest := codec.sha1Sum ([0x6B, 0xA7, 0xB8, 0x12, 0x9D, 0xAD, 0x11, 0xD1, 0x80, 0xB4, 0x00,
    0xC0, 0x4F, 0xD4, 0x30, 0xC8] ++ name)
  let digest := digest.modify 6 fun byte => (byte &&& 0x0F) ||| 0x50
  let digest := digest.modify 8 fun byte => (byte &&& 0x3F) ||| 0x80
  let part := fun first last => Go.hexEncode ((digest.take last).drop first)
  part 0 4 ++ bytes "-" ++ part 4 6 ++ bytes "-" ++ part 6 8 ++ bytes "-" ++ part 8 10 ++
    bytes "-" ++ part 10 16

def legacyManagedCAInventoryID (codec : Codec) (event : Event) : Bytes :=
  uuidv5OID codec (bytes "managed-ca-legacy-inventory" ++ [0] ++ event.tenantID ++ [0] ++ event.id)

def secretPKIInventoryID (codec : Codec) (event : Event) : Bytes :=
  uuidv5OID codec (bytes "secret-pki-inventory" ++ [0] ++ event.tenantID ++ [0] ++ event.id)

def issuedRegistration (event : Event) (keyID dependentID : Bytes) : DependencyRegisteredV1 where
  tenantID := event.tenantID
  keyID := keyID
  dependent := ⟨dependentCredential, dependentID⟩
  origin := bytes "issued"

/-- The reading of a CA event, with the error text of its type. -/
def decodeCA {α : Type} (event : Event) (unmarshal : Bytes → Except Bytes α) : Except Bytes α :=
  match unmarshal event.data with
  | .error detail => .error (bytes "depstate: decode " ++ event.type ++ bytes ": " ++ detail)
  | .ok value => .ok value

def leafDependentID (codec : Codec) (event : Event) (leaf : IssuedLeaf) : Except Bytes Bytes :=
  if event.type = eventCAEndEntityIssued ∧ event.schemaVersion = 3 then
    if leaf.id = [] then .error (bytes "depstate: managed CA leaf requires inventory id")
    else .ok leaf.id
  else if event.type = eventCAEndEntityIssued ∧ event.schemaVersion = 2 then
    if event.id = [] then .error (bytes "depstate: historical managed CA leaf requires event id")
    else .ok (legacyManagedCAInventoryID codec event)
  else if event.type = eventCAIssuedCertificate ∧ event.schemaVersion = 3 then
    if event.id = [] then .error (bytes "depstate: PKI secret leaf requires event id")
    else .ok (secretPKIInventoryID codec event)
  else .ok (bytes "serial:" ++ leaf.serial)

def leafRegistrations (codec : Codec) (event : Event) :
    Except Bytes (List DependencyRegisteredV1) := do
  validateSchemaVersion event
  let leaf ← decodeCA event codec.issuedLeaf
  if leaf.caID = [] ∨ leaf.serial = [] then
    if event.type = eventCAIntermediateCSRIssued ∧ leaf.serial = [] then return []
    else throw (bytes "depstate: " ++ event.type ++ bytes " requires ca_id and serial")
  else
    let dependentID ← leafDependentID codec event leaf
    return [issuedRegistration event leaf.caID dependentID]

/-- The registrations of a created or imported authority. -/
def authorityRegistrations (codec : Codec) (event : Event) :
    Except Bytes (List DependencyRegisteredV1) := do
  validateSchemaVersion event
  if event.schemaVersion = 1 then return []
  else
    let authority ← decodeCA event codec.createdAuthority
    let parentID := authority.parentID.getD []
    if parentID = [] then return []
    else if authority.caID = [] then throw (bytes "depstate: child CA requires ca_id")
    else return [issuedRegistration event parentID authority.caID]

def rekeyRegistrations (codec : Codec) (event : Event) :
    Except Bytes (List DependencyRegisteredV1) := do
  validateSchemaVersion event
  let authority ← decodeCA event codec.rekeyedAuthority
  if authority.id = [] ∨ authority.predecessorID = [] then
    throw (bytes "depstate: rekeyed CA requires successor and predecessor ids")
  else
    let parentID := authority.parentID.getD []
    return (if authority.newSignedByPreviousDER = [] then []
        else [issuedRegistration event authority.predecessorID
          (bytes "successor-cross-sign:" ++ authority.id)]) ++
      (if parentID = [] ∨ parentID = authority.predecessorID then []
        else [issuedRegistration event parentID authority.id])

def crossSignRegistrations (codec : Codec) (event : Event) :
    Except Bytes (List DependencyRegisteredV1) := do
  validateSchemaVersion event
  let signed ← decodeCA event codec.crossSigned
  if signed.crossCertificateDER = [] ∧ signed.targetSHA256 = [] then return []
  else if signed.caID = [] ∨ signed.targetSHA256 = [] ∨ signed.crossCertificateDER = [] then
    throw (bytes "depstate: cross-sign requires exact issuer and public receipt")
  else return [issuedRegistration event signed.caID (bytes "cross-sign:" ++ signed.targetSHA256)]

def caRegistrations (codec : Codec) (event : Event) :
    Except Bytes (List DependencyRegisteredV1) :=
  if event.type = eventCAEndEntityIssued ∨ event.type = eventCAIssuedCertificate ∨
      event.type = eventCAIntermediateCSRIssued then
    leafRegistrations codec event
  else if event.type = eventCAIntermediateCreated ∨ event.type = eventCAAuthorityImported then
    authorityRegistrations codec event
  else if event.type = eventCAAuthorityRekeyed then rekeyRegistrations codec event
  else if event.type = eventCACrossSigned then crossSignRegistrations codec event
  else .ok []

end Trstctl.Decommission.Depstate

import Mathlib.Algebra.Group.Int.Defs
import Trstctl.Reconcile.Canon.Value
import Trstctl.Reconcile.Digest.Tree

/-!
# Canonical records

`internal/reconcile/canon/record.go`: the reduction of observed records to
canonical ones and the canonical bytes of a record.
-/

namespace Trstctl.Reconcile.Canon

open Go (Bytes bytes trimSpace toLower)

structure X509Identity where
  issuerNameDER : Bytes
  serialHex : Bytes

structure KeyIdentity where
  logicalID : Bytes
  spki : Bytes

structure SecretRefIdentity where
  space : Bytes
  path : Bytes

structure WorkloadIdentity where
  spiffeID : Bytes

/-- `ValidityInput`, in seconds since the epoch, and `Validity`. -/
structure Validity where
  createdAt : Option Int
  notBefore : Option Int
  notAfter : Option Int
  deletedAt : Option Int

structure Provenance where
  authorityID : Bytes
  nativeID : Bytes

structure ObservedRecord where
  tenantID : Bytes
  recordType : Bytes
  stableID : Bytes
  x509 : Option X509Identity
  key : Option KeyIdentity
  secretRef : Option SecretRefIdentity
  workload : Option WorkloadIdentity
  algorithm : Bytes
  validity : Validity
  status : Bytes
  provenance : Provenance
  attributes : List (Bytes × Value)

/-- A record as the digests see it. -/
structure CanonicalRecord where
  specVersion : Bytes
  recordKey : RecordKey
  recordType : Bytes
  tenantID : Bytes
  algorithm : Bytes
  validity : Validity
  status : Bytes
  provenance : Provenance
  attributes : List (Bytes × Value)

/-- `Set`: the canonical records of a tenant. -/
structure RecordSet where
  specVersion : Bytes
  tenantID : Bytes
  records : List CanonicalRecord

def specVersionV1 : Bytes :=
  bytes "xrec.canon/v1"

section Reduction

variable (primitives : Primitives)

def replaceByte (old new : UInt8) (text : Bytes) : Bytes :=
  text.map fun byte => if byte = old then new else byte

def normalizeRecordType (text : Bytes) : Bytes :=
  let token := normalizeToken primitives (replaceByte 0x2D 0x5F text)
  if token ∈ [bytes "x509", bytes "x509_cert", bytes "x509_certificate", bytes "certificate"] then
    bytes "x509_certificate"
  else if token ∈ [bytes "key", bytes "kms_key", bytes "public_key"] then bytes "key"
  else if token ∈ [bytes "secret", bytes "secret_ref", bytes "secret_reference"] then
    bytes "secret_ref"
  else if token ∈ [bytes "workload", bytes "workload_identity", bytes "spiffe",
      bytes "spiffe_id"] then
    bytes "workload_identity"
  else normalizeToken primitives text

def normalizeStatus (text : Bytes) : Bytes :=
  let token := normalizeToken primitives (replaceByte 0x2D 0x5F text)
  if token ∈ [bytes "active", bytes "enabled", bytes "valid", bytes "current", bytes "ok"] then
    bytes "active"
  else if token ∈ [bytes "disabled", bytes "inactive", bytes "suspended"] then bytes "disabled"
  else if token ∈ [bytes "revoked", bytes "revoke"] then bytes "revoked"
  else if token = bytes "expired" then bytes "expired"
  else if token ∈ [bytes "pending_deletion", bytes "pendingdelete", bytes "deleting",
      bytes "delete_pending"] then
    bytes "pending_deletion"
  else bytes "unknown"

def algorithmAliases : List (String × List String) :=
  [("rsa-2048", ["rsa-2048", "rsa2048", "rsaencryption-2048-oid", "rsa-encryption-2048-oid",
      "1.2.840.113549.1.1.1-2048", "oid-1.2.840.113549.1.1.1-2048"]),
    ("rsa-3072", ["rsa-3072", "rsa3072"]),
    ("rsa-4096", ["rsa-4096", "rsa4096"]),
    ("ecdsa-p256", ["ecc-nist-p256", "ec-p256", "ecdsa-p256", "secp256r1", "prime256v1",
      "nist-p256"]),
    ("ecdsa-p384", ["ecc-nist-p384", "ec-p384", "ecdsa-p384", "secp384r1", "nist-p384"]),
    ("ecdsa-p521", ["ecc-nist-p521", "ec-p521", "ecdsa-p521", "secp521r1", "nist-p521"]),
    ("ed25519", ["ed25519", "eddsa", "jose-ed25519", "cose-ed25519", "crv-ed25519",
      "1.3.101.112", "oid-1.3.101.112"]),
    ("ml-dsa-44", ["ml-dsa-44", "mldsa44", "ml-dsa44"]),
    ("ml-dsa-65", ["ml-dsa-65", "mldsa65", "ml-dsa65"]),
    ("ml-dsa-87", ["ml-dsa-87", "mldsa87", "ml-dsa87"])]

def collapseDashes : Bytes → Bytes
  | first :: second :: rest =>
      if first = 0x2D ∧ second = 0x2D then collapseDashes (second :: rest)
      else first :: collapseDashes (second :: rest)
  | text => text

/-- The name an algorithm is looked up by. -/
def algorithmKey (raw : Bytes) : Bytes :=
  let dashed := (toLower raw).map fun byte => if (bytes "_ /").contains byte then 0x2D else byte
  collapseDashes ((dashed.dropWhile (· == 0x2D)).rdropWhile (· == 0x2D))

def normalizeAlgorithm (native : Bytes) : Bytes :=
  let raw := normalizeText primitives (trimSpace native)
  match algorithmAliases.find? fun entry =>
      entry.2.any fun spelling => algorithmKey raw == bytes spelling with
  | some entry => bytes entry.1
  | none => bytes "unknown-" ++ Go.hexEncode (primitives.sha256Sum raw)

/-- The value of a 64-bit sum. -/
def wrapInt64 (value : Int) : Int :=
  (value + 2 ^ 63) % 2 ^ 64 - 2 ^ 63

/-- `floorUnix`, at the bucket size. -/
def floorUnix (seconds : Int) : Int :=
  wrapInt64 (seconds - seconds % 300)

/-- `ceilUnix`, at the bucket size. -/
def ceilUnix (seconds : Int) : Int :=
  if seconds % 300 = 0 then seconds else wrapInt64 (seconds + (300 - seconds % 300))

def bucketValidity (validity : Validity) : Validity where
  createdAt := validity.createdAt.map floorUnix
  notBefore := validity.notBefore.map floorUnix
  notAfter := validity.notAfter.map ceilUnix
  deletedAt := validity.deletedAt.map ceilUnix

def decodeSerialHex (serial : Bytes) : Except CanonError Bytes :=
  let clean := (trimSpace serial).filter fun byte => !(bytes ": -").contains byte
  if clean = [] then .error .emptySerial
  else
    match Go.hexDecode (if clean.length % 2 = 1 then bytes "0" ++ clean else clean) with
    | none => .error .serialHex
    | some decoded => .ok decoded

/-- The identity of a certificate. -/
def x509StableID (issuerNameDER serialHex : Bytes) : Except CanonError Bytes := do
  let serial ← decodeSerialHex serialHex
  pure (Go.hexEncode (primitives.sha256Sum (issuerNameDER ++ serial)))

def keyStableID (logicalID spki : Bytes) : Except CanonError Bytes :=
  let id := normalizeText primitives (trimSpace logicalID)
  if id ≠ [] then .ok id
  else if spki = [] then .error .missingKeyIdentity
  else .ok (Go.hexEncode (primitives.sha256Sum spki))

def deriveStableID (recordType : Bytes) (observed : ObservedRecord) : Except CanonError Bytes :=
  if observed.stableID ≠ [] then .ok (normalizeText primitives (trimSpace observed.stableID))
  else if recordType = bytes "x509_certificate" then
    match observed.x509 with
    | none => .error (.missingIdentity recordType)
    | some identity => x509StableID primitives identity.issuerNameDER identity.serialHex
  else if recordType = bytes "key" then
    match observed.key with
    | none => .error (.missingIdentity recordType)
    | some identity => keyStableID primitives identity.logicalID identity.spki
  else if recordType = bytes "secret_ref" then
    match observed.secretRef with
    | none => .error (.missingIdentity recordType)
    | some identity => .ok (normalizeSecretRef primitives identity.space identity.path)
  else if recordType = bytes "workload_identity" then
    match observed.workload with
    | none => .error (.missingIdentity recordType)
    | some identity => normalizeSPIFFEID primitives identity.spiffeID
  else .ok (normalizeText primitives (trimSpace observed.stableID))

/-- An identifier after trimming, in NFC. -/
def normalizeID (text : Bytes) : Bytes :=
  normalizeText primitives (trimSpace text)

def reduceOne (specVersion tenantID : Bytes) (observed : ObservedRecord) :
    Except CanonError CanonicalRecord := do
  if normalizeID primitives observed.tenantID ≠ tenantID then throw .tenantScope
  let recordType := normalizeRecordType primitives observed.recordType
  let stableID ← deriveStableID primitives recordType observed
  if hasSecretFieldName primitives observed.provenance.nativeID ∨
      hasSecretFieldName primitives observed.provenance.authorityID then
    throw .secretMaterial
  let _ ← canonicalizeAttributes primitives observed.attributes
  pure
    { specVersion := specVersion
      recordKey := ⟨tenantID, recordType, stableID⟩
      recordType := recordType
      tenantID := tenantID
      algorithm := normalizeAlgorithm primitives observed.algorithm
      validity := bucketValidity observed.validity
      status := normalizeStatus primitives observed.status
      provenance :=
        { authorityID := normalizeID primitives observed.provenance.authorityID
          nativeID := normalizeID primitives observed.provenance.nativeID }
      attributes := observed.attributes }

end Reduction

def tuple (key : RecordKey) : Bytes :=
  key.tenantID ++ [0] ++ key.recordType ++ [0] ++ key.stableID

/-- The records in the order of their keys. -/
def sortRecords (records : List CanonicalRecord) : List CanonicalRecord :=
  records.insertionSort fun left right => tuple left.recordKey ≤ tuple right.recordKey

/-- The first key of the sorted records that occurs twice. -/
def duplicateTuple : List CanonicalRecord → Option Bytes
  | first :: second :: rest =>
      if tuple first.recordKey = tuple second.recordKey then some (tuple second.recordKey)
      else duplicateTuple (second :: rest)
  | _ => none

def reduceTenant (primitives : Primitives) (specVersion tenantID : Bytes)
    (observed : List ObservedRecord) : Except CanonError RecordSet := do
  let specVersion := if specVersion = [] then specVersionV1 else specVersion
  let tenantID := normalizeID primitives tenantID
  if tenantID = [] then throw .emptyTenantID
  let reduced ← observed.mapM (reduceOne primitives specVersion tenantID)
  let records := sortRecords reduced
  match duplicateTuple records with
  | some key => throw (.duplicateKey key)
  | none => pure { specVersion := specVersion, tenantID := tenantID, records := records }

section Encoding

variable (primitives : Primitives)

def stringMember (name : String) (text : Bytes) : Bytes × Bytes :=
  (bytes name, writeJSONString primitives text)

/-- `Provenance.jsonValue`, written. -/
def Provenance.json (provenance : Provenance) : Bytes :=
  writeObject primitives [
    stringMember primitives "authority_id" (normalizeID primitives provenance.authorityID),
    stringMember primitives "native_id" (normalizeID primitives provenance.nativeID)]

/-- `RecordKey.jsonValue`, written. -/
def keyJSON (key : RecordKey) : Bytes :=
  writeObject primitives [
    stringMember primitives "record_type" key.recordType,
    stringMember primitives "stable_id" key.stableID,
    stringMember primitives "tenant_id" key.tenantID]

/-- A JSON member for an instant, if there is one. -/
def instantMember (name : String) (instant : Option Int) : List (Bytes × Bytes) :=
  (instant.map fun seconds => (bytes name, Go.decimal seconds)).toList

/-- `Validity.jsonValue`, written. -/
def Validity.json (validity : Validity) : Bytes :=
  writeObject primitives
    (instantMember "created_at" validity.createdAt ++
    instantMember "deleted_at" validity.deletedAt ++
      instantMember "not_after" validity.notAfter ++ instantMember "not_before" validity.notBefore)

/-- The members of the canonical object of a record with the given attributes. -/
def recordMembers (record : CanonicalRecord) (attributes : Go.Map Bytes) : Go.Map Bytes :=
  [stringMember primitives "algorithm" record.algorithm,
    (bytes "attributes", writeObject primitives attributes),
    (bytes "provenance", record.provenance.json primitives),
    (bytes "record_key", keyJSON primitives record.recordKey),
    stringMember primitives "record_type" record.recordType,
    stringMember primitives "spec_version" record.specVersion,
    stringMember primitives "status" record.status,
    stringMember primitives "tenant_id" record.tenantID,
    (bytes "validity", record.validity.json primitives)]

def CanonicalRecord.canonicalBytes (record : CanonicalRecord) : Except CanonError Bytes := do
  let attributes ← canonicalizeAttributes primitives record.attributes
  pure (writeObject primitives (recordMembers primitives record attributes))

def recordEncoding : Encoding CanonicalRecord where
  recordKey := CanonicalRecord.recordKey
  canonicalBytes record := (record.canonicalBytes primitives).toOption

end Encoding

end Trstctl.Reconcile.Canon

import Trstctl.Crypto.Leafca
import Trstctl.Go.Time

/-!
# Offline emergency approvals

`VerifyOfflineApprovals` and `ValidateOfflinePolicy` of
`internal/breakglass/offline/model.go`.  A policy lists custodians with their
public keys; a request passes with the signatures of a threshold of them.
-/

namespace Trstctl.Breakglass.Offline

open Go (Bytes Time bytes trimSpace decimal jsonPair jsonObject jsonString)

structure OfflineCustodian where
  id : Bytes
  publicKeyDER : Bytes

structure OfflinePolicy where
  tenantID : Bytes
  deploymentID : Bytes
  epoch : UInt64
  threshold : Int
  maxTTLSeconds : Int
  permittedDNSSuffixes : List Bytes
  permittedIPCIDRs : List Bytes
  permittedEmailDomains : List Bytes
  permittedURIPrefixes : List Bytes
  custodians : List OfflineCustodian

structure OfflineRequest where
  id : Bytes
  tenantID : Bytes
  deploymentID : Bytes
  epoch : UInt64
  caKeySHA256 : Bytes
  requester : Bytes
  subject : Bytes
  csrDER : Bytes
  reason : Bytes
  ttlSeconds : Int
  expiresAt : Time

structure OfflineApproval where
  custodianID : Bytes
  signature : Bytes

/-- Why a key or a signature is not accepted. -/
inductive KeyError where
  | parse (cause : Bytes)
  | notEd25519
  | signatureLength (length : Nat)
  | verification
deriving DecidableEq

/-- Why an offline policy or request is refused. -/
inductive OfflineError where
  | refused (text : String)
  | csr (cause : Bytes)
  | identityPolicy (cause : Crypto.LeafProfileError)
  | custodianKey (cause : KeyError)
  | custodianSignature (cause : KeyError)
deriving DecidableEq

/-- What `InspectCSR` returns of a request. -/
structure InspectedCSR extends Crypto.CSRInfo where
  commonName : Bytes

/-- The packages `crypto/x509` and `crypto/ed25519`, the hash and the parsers. -/
structure OfflineCrypto where
  /-- A key that is not an Ed25519 key is `none`. -/
  parsePKIXPublicKey : Bytes → Except Bytes (Option Bytes)
  ed25519Verify : Bytes → Bytes → Bytes → Bool
  inspectCSR : Bytes → Except Bytes InspectedCSR
  sha256Sum : Bytes → Bytes
  parsers : Crypto.Parsers

variable (crypto : OfflineCrypto)

/-- The Ed25519 key of a PKIX encoding. -/
def OfflineCrypto.ed25519Key (der : Bytes) : Except KeyError Bytes :=
  match crypto.parsePKIXPublicKey der with
  | .error cause => .error (.parse cause)
  | .ok none => .error .notEd25519
  | .ok (some key) => .ok key

def OfflineCrypto.validateEd25519PublicKeyDER (der : Bytes) : Except KeyError Unit := do
  let _ ← crypto.ed25519Key der

def OfflineCrypto.verifyEd25519 (pubDER message signature : Bytes) : Except KeyError Unit := do
  let key ← crypto.ed25519Key pubDER
  if signature.length ≠ 64 then throw (.signatureLength signature.length)
  if crypto.ed25519Verify key message signature = false then throw .verification

/-- The loop of `ValidateOfflinePolicy` over the custodians. -/
def validateCustodians : Go.Map Bytes → List OfflineCustodian → Except OfflineError Unit
  | _, [] => pure ()
  | roster, custodian :: rest => do
      if custodian.id = [] ∨ custodian.publicKeyDER = [] ∨
          (roster.lookup custodian.id).isSome then
        throw (.refused "breakglass: invalid or duplicate custodian in offline policy")
      (crypto.validateEd25519PublicKeyDER custodian.publicKeyDER).mapError .custodianKey
      validateCustodians (roster.set custodian.id custodian.publicKeyDER) rest

def validateOfflinePolicy (policy : OfflinePolicy) : Except OfflineError Unit := do
  if policy.tenantID = [] ∨ policy.deploymentID = [] ∨ policy.epoch = 0 ∨
      policy.threshold < 2 ∨ policy.threshold > policy.custodians.length ∨
      policy.maxTTLSeconds ≤ 0 then
    throw (.refused "breakglass: invalid offline policy")
  if policy.permittedDNSSuffixes.length + policy.permittedIPCIDRs.length +
      policy.permittedEmailDomains.length + policy.permittedURIPrefixes.length = 0 then
    throw (.refused "breakglass: offline policy must bound at least one SAN identity type")
  validateCustodians crypto [] policy.custodians

/-- The keys of the custodians by their names. -/
def OfflinePolicy.roster (policy : OfflinePolicy) : Go.Map Bytes :=
  policy.custodians.foldl (fun roster custodian => roster.set custodian.id custodian.publicKeyDER)
    []

/-- The profile that a policy sets for a certificate. -/
def OfflinePolicy.leafProfile (policy : OfflinePolicy) : Crypto.LeafProfile :=
  { permittedDNSSuffixes := policy.permittedDNSSuffixes
    permittedIPCIDRs := policy.permittedIPCIDRs
    permittedEmailDomains := policy.permittedEmailDomains
    permittedURIPrefixes := policy.permittedURIPrefixes }

/-- `Time.UnixNano`, on 64 bits. -/
def unixNano (time : Time) : Int :=
  (time.nanoseconds - 62135596800 * 10 ^ 9 + 2 ^ 63) % 2 ^ 64 - 2 ^ 63

/-- `time.Duration(seconds) * time.Second`, on 64 bits. -/
def secondsDuration (seconds : Int) : Int :=
  (seconds * 10 ^ 9 + 2 ^ 63) % 2 ^ 64 - 2 ^ 63

def OfflineRequest.canonicalBytes (request : OfflineRequest) : Except OfflineError Bytes :=
  if request.expiresAt.isZero then
    .error (.refused "breakglass: offline request expiry is required")
  else .ok (jsonObject [
    jsonPair "domain" (jsonString (bytes "trstctl.breakglass.offline.request.v2")),
    jsonPair "id" (jsonString request.id),
    jsonPair "tenant_id" (jsonString request.tenantID),
    jsonPair "deployment_id" (jsonString request.deploymentID),
    jsonPair "epoch" (decimal request.epoch.toNat),
    jsonPair "ca_public_key_sha256" (jsonString request.caKeySHA256),
    jsonPair "requester" (jsonString request.requester),
    jsonPair "subject" (jsonString request.subject),
    jsonPair "csr_sha256" (jsonString (Go.hexEncode (crypto.sha256Sum request.csrDER))),
    jsonPair "reason" (jsonString request.reason),
    jsonPair "ttl_seconds" (decimal request.ttlSeconds),
    jsonPair "expires_at_unix_nano" (decimal (unixNano request.expiresAt))])

def inspectEmergencyCSR (subject csrDER : Bytes) : Except OfflineError InspectedCSR := do
  let info ← (crypto.inspectCSR csrDER).mapError .csr
  if subject = [] ∨ info.commonName ≠ subject then
    throw (.refused
      "breakglass: CSR common name must exactly match emergency certificate subject")
  return info

/-- A fingerprint is the lower-case text of 32 bytes. -/
def canonicalFingerprint (text : Bytes) : Bool :=
  match Go.hexDecode text with
  | none => false
  | some decoded => decoded.length == 32 && text == Go.toLower text

/-- `VerifyOfflineApprovals` before the custodians are looked at. -/
def checkRequest (policy : OfflinePolicy) (request : OfflineRequest) (now : Time) :
    Except OfflineError Unit := do
  if request.tenantID ≠ policy.tenantID ∨ request.deploymentID ≠ policy.deploymentID ∨
      request.epoch ≠ policy.epoch then
    throw (.refused ("breakglass: offline request does not match installed tenant, " ++
      "deployment and policy epoch"))
  if trimSpace request.id = [] ∨ trimSpace request.requester = [] ∨
      trimSpace request.reason = [] ∨ request.ttlSeconds ≤ 0 ∨
      request.ttlSeconds > policy.maxTTLSeconds then
    throw (.refused "breakglass: offline request identity, reason or lifetime is invalid")
  if canonicalFingerprint request.caKeySHA256 = false then
    throw (.refused ("breakglass: offline request needs a canonical recovery CA " ++
      "public-key fingerprint"))
  if request.expiresAt.after now = false ∨
      request.expiresAt.after (now.add (24 * 3600 * 10 ^ 9)) = true then
    throw (.refused "breakglass: offline request has expired or exceeds the approval window")
  let info ← inspectEmergencyCSR crypto request.subject request.csrDER
  if info.dnsNames.length + info.ipAddresses.length + info.emailAddresses.length +
      info.uris.length = 0 then
    throw (.refused "breakglass: offline CSR must carry at least one policy-checked SAN")
  (Crypto.enforceLeafProfileInfo crypto.parsers info.toCSRInfo
    (secondsDuration request.ttlSeconds) policy.leafProfile).mapError .identityPolicy

/-- The loop of `VerifyOfflineApprovals` over the approvals. -/
def checkApprovals (roster : Go.Map Bytes) (requester message : Bytes) :
    List Bytes → List OfflineApproval → Except OfflineError Unit
  | _, [] => pure ()
  | seen, approval :: rest =>
      match roster.lookup approval.custodianID with
      | none =>
          .error (.refused "breakglass: unauthorized, repeated or self-approving custodian")
      | some pub => do
          if approval.custodianID ∈ seen ∨ approval.custodianID = requester then
            throw (.refused "breakglass: unauthorized, repeated or self-approving custodian")
          (crypto.verifyEd25519 pub message approval.signature).mapError .custodianSignature
          checkApprovals roster requester message (approval.custodianID :: seen) rest

def verifyOfflineApprovals (policy : OfflinePolicy) (request : OfflineRequest)
    (approvals : List OfflineApproval) (now : Time) : Except OfflineError Unit := do
  validateOfflinePolicy crypto policy
  checkRequest crypto policy request now
  if (approvals.length : Int) < policy.threshold ∨ approvals.length > policy.roster.length then
    throw (.refused "breakglass: offline custodian quorum not met")
  let message ← request.canonicalBytes crypto
  checkApprovals crypto policy.roster request.requester message [] approvals

end Trstctl.Breakglass.Offline

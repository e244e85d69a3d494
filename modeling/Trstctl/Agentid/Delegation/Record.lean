import Trstctl.Agentid.Delegation.Authority

/-!
# Delegation records, task envelopes and reachability verdicts

The signed structures an issuance request carries: delegation records
(`internal/agentid/delegation/record.go`), the task envelope the last record
may refer to (`internal/agentid/taskenv`) and the reachability verdict on its
authority (`internal/agentid/reach`).  Each has canonical bytes that its
signature is over.  The hash and the signature check of package `crypto` are
parameters.
-/

namespace Trstctl.Agentid

open Go (Bytes bytes bigEndian64)

/-- The hash and the signature check of package `crypto`.  `verifyMessage`
takes a public key, a message and a signature. -/
structure Crypto where
  sha256Sum : Bytes → Bytes
  verifyMessage : Bytes → Bytes → Bytes → Bool

namespace Delegation

structure KeyRef where
  id : Bytes
  algorithm : Bytes

/-- `Record`: one hop of a delegation chain. -/
structure Record where
  tenantID : Bytes
  delegatorID : Bytes
  delegatorKey : KeyRef
  delegateID : Bytes
  delegateKeyThumbprint : Bytes
  authority : Authority
  depthRemaining : UInt32
  validity : Window
  rootAnchor : Bool
  parentDigest : Bytes
  taskDigest : Bytes
  signature : Bytes

/-- `Record.ValidateLinkage`: a record is root-anchored or has a parent, not
both and not neither. -/
def Record.validateLinkage (record : Record) : Bool :=
  record.rootAnchor != !record.parentDigest.isEmpty

/-- `Record.CanonicalBytes`: everything but the signature. -/
def Record.canonicalBytes (record : Record) (registry : ToolRegistry) : Bytes :=
  bytes "agid/delegation/record/v1" ++
    writeStr (normToken record.tenantID) ++
    writeStr record.delegatorID ++
    writeStr record.delegatorKey.id ++
    writeStr record.delegatorKey.algorithm ++
    writeStr record.delegateID ++
    writeField "delegate_key_thumbprint" ++ writeStr record.delegateKeyThumbprint ++
    writeField "authority" ++ writeStr (record.authority.canonicalBytes registry) ++
    writeField "depth_remaining" ++ bigEndian64 record.depthRemaining.toNat ++
    writeField "validity" ++ writeI64 record.validity.notBefore ++
    writeI64 record.validity.notAfter ++
    writeField "linkage" ++
    (if record.rootAnchor then writeStr (bytes "root")
      else writeStr (bytes "parent") ++ writeStr record.parentDigest) ++
    writeField "task_digest" ++ writeStr record.taskDigest

def Record.digest (crypto : Crypto) (record : Record) (registry : ToolRegistry) : Bytes :=
  crypto.sha256Sum (record.canonicalBytes registry)

/-- `Record.Verify` against a public key. -/
def Record.verify (crypto : Crypto) (record : Record) (publicDER : Bytes)
    (registry : ToolRegistry) : Bool :=
  !record.signature.isEmpty &&
    crypto.verifyMessage publicDER (record.canonicalBytes registry) record.signature

def delegateKeyThumbprintOf (crypto : Crypto) (publicDER : Bytes) : Bytes :=
  if publicDER.isEmpty then [] else crypto.sha256Sum publicDER

/-- `withinNow`, shared by records and task envelopes: a window without bounds
is always open. -/
def withinNow (window : Window) (now : Int64) : Bool :=
  if window.notBefore = 0 ∧ window.notAfter = 0 then true
  else if window.notBefore ≠ 0 ∧ now < window.notBefore then false
  else if window.notAfter ≠ 0 ∧ now > window.notAfter then false
  else true

/-- `RecordEnvelope`: a hop with the public key it is signed by. -/
structure RecordEnvelope where
  record : Record
  delegatorPublicDER : Bytes

end Delegation

namespace Taskenv

open Delegation (KeyRef Window writeStr writeField writeI64 withinNow)

structure Commitment where
  name : Bytes
  digest : Bytes

structure TaskIntent where
  description : Bytes
  intentDigest : Bytes
  inputCommitments : List Commitment

structure Envelope where
  requesterID : Bytes
  requesterKey : KeyRef
  task : TaskIntent
  expiry : Window
  signature : Bytes

/-- The order of commitments by name, then by digest. -/
def commitmentLE (left right : Commitment) : Prop :=
  if left.name ≠ right.name then left.name ≤ right.name else left.digest ≤ right.digest

instance : DecidableRel commitmentLE := fun left right =>
  inferInstanceAs (Decidable
    (if left.name ≠ right.name then left.name ≤ right.name else left.digest ≤ right.digest))

def Envelope.canonicalBytes (envelope : Envelope) : Bytes :=
  let commitments := envelope.task.inputCommitments.insertionSort commitmentLE
  bytes "agid/taskenv/envelope/v1" ++
    writeStr envelope.requesterID ++
    writeStr envelope.requesterKey.id ++
    writeStr envelope.requesterKey.algorithm ++
    writeField "description" ++ writeStr envelope.task.description ++
    writeField "intent_digest" ++ writeStr envelope.task.intentDigest ++
    writeField "input_commitments" ++ bigEndian64 commitments.length ++
    commitments.flatMap (fun commitment =>
      writeStr commitment.name ++ writeStr commitment.digest) ++
    writeField "expiry" ++ writeI64 envelope.expiry.notBefore ++
    writeI64 envelope.expiry.notAfter

def Envelope.digest (crypto : Crypto) (envelope : Envelope) : Bytes :=
  crypto.sha256Sum envelope.canonicalBytes

inductive EnvelopeError where
  | noIntent
  | unknownRequester
  | signature
  | expired

def EnvelopeError.text : EnvelopeError → Bytes
  | .noIntent =>
      bytes "taskenv: envelope states no task intent (needs a description or an intent digest)"
  | .unknownRequester => bytes "taskenv: requester key id does not resolve to a trusted key"
  | .signature => bytes "taskenv: requester signature missing or invalid"
  | .expired => bytes "taskenv: task envelope is expired or not yet valid"

/-- `VerifySignatureAndExpiry`, with a lookup that is present. -/
def verifySignatureAndExpiry (crypto : Crypto) (envelope : Envelope) (now : Int64)
    (trustLookup : Bytes → Option Bytes) : Except EnvelopeError Unit :=
  if envelope.task.description.isEmpty && envelope.task.intentDigest.isEmpty then
    .error .noIntent
  else
    match trustLookup envelope.requesterKey.id with
    | none => .error .unknownRequester
    | some publicDER =>
        if publicDER.isEmpty then .error .unknownRequester
        else if envelope.signature.isEmpty ||
            !crypto.verifyMessage publicDER envelope.canonicalBytes envelope.signature then
          .error .signature
        else if withinNow envelope.expiry now then .ok ()
        else .error .expired

end Taskenv

namespace Reach

open Delegation (KeyRef writeStr writeI64)

structure Violation where
  ceiling : Bytes
  reason : Bytes
  offendingDigest : Bytes

structure Determination where
  requesterClass : Bytes
  exceeded : Bool
  violations : List Violation

structure Verdict where
  tenantID : Bytes
  subjectDigest : Bytes
  reachableDigest : Bytes
  cardinality : Int64
  maxSensitivity : Int64
  tenantSpan : Int64
  determination : Determination
  watermark : Bytes
  issuedAt : Int64
  key : KeyRef
  signature : Bytes

def Verdict.canonicalBytes (verdict : Verdict) : Bytes :=
  writeStr (bytes "agid/reach/verdict/v1") ++
    writeStr verdict.tenantID ++
    writeStr verdict.subjectDigest ++
    writeStr verdict.reachableDigest ++
    writeI64 verdict.cardinality ++
    writeI64 verdict.maxSensitivity ++
    writeI64 verdict.tenantSpan ++
    writeStr (bytes "determination") ++
    writeStr verdict.determination.requesterClass ++
    [if verdict.determination.exceeded then 1 else 0] ++
    bigEndian64 verdict.determination.violations.length ++
    verdict.determination.violations.flatMap (fun violation =>
      writeStr violation.ceiling ++ writeStr violation.reason ++
        writeStr violation.offendingDigest) ++
    writeStr verdict.watermark ++
    writeI64 verdict.issuedAt ++
    writeStr verdict.key.id ++
    writeStr verdict.key.algorithm

inductive VerdictError where
  | noVerdict
  | untrustedSigner
  | tenantMismatch
  | subjectMismatch
  | signature
  | stale
  | ceilingExceeded (violations : List Violation)

/-- The texts of the errors; a ceiling breach names its first ceiling. -/
def VerdictError.text : VerdictError → Bytes
  | .noVerdict => bytes "reach: no reachability verdict presented (fail-closed)"
  | .untrustedSigner => bytes "reach: verdict signer key id does not resolve to a trusted key"
  | .tenantMismatch => bytes "reach: verdict tenant does not match the request tenant"
  | .subjectMismatch =>
      bytes "reach: verdict subject digest does not match the requested authority"
  | .signature => bytes "reach: verdict signature missing or invalid"
  | .stale => bytes "reach: verdict graph watermark is stale or absent"
  | .ceilingExceeded [] => bytes "reach: reachable set exceeds a policy ceiling"
  | .ceilingExceeded (violation :: _) =>
      bytes "reach: reachable set exceeds a policy ceiling: " ++ violation.ceiling ++
        bytes " (" ++ violation.reason ++ bytes ")"

/-- `VerifyVerdict`, with a trust lookup that is present: the verdict is for
the request's tenant and for the authority at hand, signed, fresh and within
its ceilings. -/
def verifyVerdict (crypto : Crypto) (verdict : Verdict) (tenantID subjectDigest : Bytes)
    (trust : Bytes → Option Bytes) (watermark : Option (Bytes → Bytes → Bool)) :
    Except VerdictError Unit :=
  if verdict.signature.isEmpty && verdict.tenantID.isEmpty && verdict.reachableDigest.isEmpty then
    .error .noVerdict
  else if verdict.tenantID ≠ tenantID then .error .tenantMismatch
  else if verdict.subjectDigest.isEmpty || subjectDigest.isEmpty ||
      verdict.subjectDigest != subjectDigest then
    .error .subjectMismatch
  else
    match trust verdict.key.id with
    | none => .error .untrustedSigner
    | some publicDER =>
        if publicDER.isEmpty then .error .untrustedSigner
        else if verdict.signature.isEmpty ||
            !crypto.verifyMessage publicDER verdict.canonicalBytes verdict.signature then
          .error .signature
        else if verdict.watermark.isEmpty then .error .stale
        else if watermark.any (fun policy => !policy tenantID verdict.watermark) then
          .error .stale
        else if verdict.determination.exceeded then
          .error (.ceilingExceeded verdict.determination.violations)
        else .ok ()

end Reach
end Trstctl.Agentid

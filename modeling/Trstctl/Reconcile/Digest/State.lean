import Trstctl.Library.Result
import Trstctl.Reconcile.Canon.Record

/-!
# Signed state digests

The digest body of `internal/reconcile/digest/digest.go`, its canonical bytes
and the verification of its signature.  The hash and the signature check of
package `crypto` are parameters.
-/

namespace Trstctl.Reconcile

open Go (Bytes bytes jsonPair jsonObject jsonArray jsonString)

structure PublicKey where
  algorithm : Bytes
  der : Bytes

/-- The hash and the signature check of package `crypto`. -/
structure Crypto where
  sha256Sum : Bytes → Bytes
  verifyDigest : PublicKey → Bytes → Bytes → Bool

namespace Digest

structure RuleCount where
  ruleID : Bytes
  satisfyingCount : Nat
  violatingCount : Nat
deriving DecidableEq

structure PostureSummary where
  policySetHash : Bytes
  perRule : List RuleCount
deriving DecidableEq

structure Watermark where
  position : Bytes
  observedAt : Int
deriving DecidableEq

/-- `Body`: what a state digest says. -/
structure Body where
  version : Bytes
  specVersion : Bytes
  authorityID : Bytes
  tenantID : Bytes
  merkleRoot : Bytes
  recordCount : Nat
  hashAlg : Bytes
  postureSummary : PostureSummary
  watermark : Watermark
  generatedAt : Int
deriving DecidableEq

structure SignedDigest where
  body : Body
  digestHash : Bytes
  keyID : Bytes
  algorithm : Bytes
  publicKeyDER : Bytes
  signature : Bytes
deriving DecidableEq

inductive DigestError where
  | invalidDigest
  | secretEvidence
  | digestHashMismatch
  | untrustedKey (keyID : Bytes)
  | publicKeyMismatch (keyID : Bytes)
  | signature
deriving DecidableEq

def Body.withDefaults (body : Body) : Body :=
  { body with
    version := if body.version.isEmpty then bytes "xrec.digest/v1" else body.version
    hashAlg := if body.hashAlg.isEmpty then bytes "sha-256" else body.hashAlg }

def Body.validate (body : Body) : Bool :=
  !(body.version != bytes "xrec.digest/v1" || body.specVersion.isEmpty ||
    body.authorityID.isEmpty || body.tenantID.isEmpty ||
    body.merkleRoot.length != 32 || body.hashAlg != bytes "sha-256" ||
    body.postureSummary.policySetHash.length != 32 || body.watermark.position.isEmpty ||
    body.watermark.observedAt == 0 || body.generatedAt == 0)

/-- The texts that must not occur in signed evidence. -/
def secretMarkers : List Bytes :=
  [bytes "-----begin private key-----", bytes "super-secret-password",
    bytes "secret-value-sentinel", bytes "password=", bytes "token=", bytes "api_key="]

def containsSecretEvidence (text : Bytes) : Bool :=
  let low := Go.toLower text
  secretMarkers.any fun marker => Go.contains low marker

/-- `writePostureJSON`. -/
def postureJSON (summary : PostureSummary) : Bytes :=
  jsonObject [
    jsonPair "per_rule" (jsonArray (summary.perRule.map fun rule =>
      jsonObject [
        jsonPair "rule_id" (jsonString rule.ruleID),
        jsonPair "satisfying_count" (Go.decimal rule.satisfyingCount),
        jsonPair "violating_count" (Go.decimal rule.violatingCount)])),
    jsonPair "policy_set_hash" (jsonString (Go.hexEncode summary.policySetHash))]

/-- `writeWatermarkJSON`. -/
def watermarkJSON (watermark : Watermark) : Bytes :=
  jsonObject [
    jsonPair "observed_at" (Go.decimal watermark.observedAt),
    jsonPair "position" (jsonString watermark.position)]

def Body.json (body : Body) : Bytes :=
  jsonObject [
    jsonPair "authority_id" (jsonString body.authorityID),
    jsonPair "generated_at" (Go.decimal body.generatedAt),
    jsonPair "hash_alg" (jsonString body.hashAlg),
    jsonPair "merkle_root" (jsonString (Go.hexEncode body.merkleRoot)),
    jsonPair "posture_summary" (postureJSON body.postureSummary),
    jsonPair "record_count" (Go.decimal body.recordCount),
    jsonPair "spec_version" (jsonString body.specVersion),
    jsonPair "tenant_id" (jsonString body.tenantID),
    jsonPair "version" (jsonString body.version),
    jsonPair "watermark" (watermarkJSON body.watermark)]

def Body.canonicalBytes (body : Body) : Except DigestError Bytes :=
  let body := body.withDefaults
  if body.validate then
    if containsSecretEvidence body.json then .error .secretEvidence else .ok body.json
  else .error .invalidDigest

def SignedDigest.verify (crypto : Crypto) (signed : SignedDigest) (trusted : Go.Map PublicKey) :
    Except DigestError Unit := do
  if signed.keyID.isEmpty || signed.signature.isEmpty || signed.publicKeyDER.isEmpty then
    throw .invalidDigest
  let bodyBytes ← signed.body.canonicalBytes
  let hash := crypto.sha256Sum bodyBytes
  if hash ≠ signed.digestHash then throw .digestHashMismatch
  match trusted.lookup signed.keyID with
  | none => throw (.untrustedKey signed.keyID)
  | some key =>
      if key.algorithm ≠ signed.algorithm ∨ key.der ≠ signed.publicKeyDER then
        throw (.publicKeyMismatch signed.keyID)
      if !crypto.verifyDigest key hash signed.signature then throw .signature

/-!
## Building state digests

`digest.Build` (`internal/reconcile/digest/digest.go`) with the posture summary
of `posture.go`, and the comparison of two digest bodies by a round
(`internal/reconcile/rounds/scheduler.go`).
-/

open Go (Bytes bytes bigEndian64 trimSpace)
open Canon (CanonicalRecord RecordSet Primitives)

/-- `Rule`; a rule without a predicate is invalid. -/
structure Rule where
  id : Bytes
  expression : Bytes
  evaluate : Option (CanonicalRecord → Bool)

/-- The errors of `Build`. -/
inductive BuildError where
  | tree (error : TreeError)
  | invalidRule (id : Bytes)
  | duplicateRule (id : Bytes)
  | body (error : DigestError)

/-- `validateRules`, with the identifiers seen so far. -/
def validateRules : List Bytes → List Rule → Except BuildError Unit
  | _, [] => pure ()
  | seen, rule :: rest =>
      let id := trimSpace rule.id
      if id = [] ∨ id.contains 0 ∨ rule.evaluate.isNone then throw (.invalidRule rule.id)
      else if id ∈ seen then throw (.duplicateRule id)
      else validateRules (id :: seen) rest

def writeField (text : Bytes) : Bytes :=
  bigEndian64 text.length ++ text

def policySetHash (hash : Bytes → Bytes) (rules : List Rule) : Bytes :=
  hash (bytes "xrec/policy-set/v1" ++ bigEndian64 rules.length ++
    rules.flatMap fun rule =>
      writeField (trimSpace rule.id) ++ writeField (trimSpace rule.expression))

def countRule (records : List CanonicalRecord) (rule : Rule) : RuleCount where
  ruleID := trimSpace rule.id
  satisfyingCount := records.countP fun record => rule.evaluate.any fun holds => holds record
  violatingCount := records.countP fun record => !rule.evaluate.any fun holds => holds record

def summarizePosture (hash : Bytes → Bytes) (rules : List Rule) (records : List CanonicalRecord) :
    Except BuildError PostureSummary := do
  validateRules [] rules
  pure
    { policySetHash := policySetHash hash rules
      perRule := rules.map (countRule records) }

def leavesFromSet (primitives : Primitives) (set : RecordSet) : Except TreeError (List Leaf) := do
  let leaves ← set.records.mapM (newLeaf primitives.sha256Sum (Canon.recordEncoding primitives))
  let sorted := sortLeaves leaves
  match duplicateKey sorted with
  | some key => throw (.duplicateRecordKey key)
  | none => pure sorted

def buildTreeFromSet (primitives : Primitives) (set : RecordSet) : Except TreeError Tree := do
  let leaves ← leavesFromSet primitives set
  buildTree primitives.sha256Sum leaves

structure BuildRequest where
  set : RecordSet
  authorityID : Bytes
  rules : List Rule
  watermark : Watermark
  generatedAt : Int

/-- `Build`: the unsigned body and the tree it commits to. -/
def build (primitives : Primitives) (request : BuildRequest) : Except BuildError (Body × Tree) := do
  let tree ← (buildTreeFromSet primitives request.set).mapError .tree
  let posture ← summarizePosture primitives.sha256Sum request.rules request.set.records
  let body : Body :=
    { version := bytes "xrec.digest/v1"
      specVersion := request.set.specVersion
      authorityID := trimSpace request.authorityID
      tenantID := request.set.tenantID
      merkleRoot := tree.root
      recordCount := request.set.records.length
      hashAlg := bytes "sha-256"
      postureSummary := posture
      watermark := ⟨trimSpace request.watermark.position, request.watermark.observedAt⟩
      generatedAt := request.generatedAt }
  let _ ← body.canonicalBytes.mapError .body
  pure (body, tree)

end Digest

namespace Rounds

open Digest (Body RuleCount)

/-- The rule counts in the order of the rule identifiers. -/
def sortCounts (counts : List RuleCount) : List RuleCount :=
  counts.insertionSort fun left right => left.ruleID ≤ right.ruleID

/-- Two bodies report the same state. -/
def stateBodyEqual (first second : Body) : Bool :=
  if first.specVersion ≠ second.specVersion ∨ first.tenantID ≠ second.tenantID ∨
      first.recordCount ≠ second.recordCount ∨ first.hashAlg ≠ second.hashAlg then
    false
  else if first.merkleRoot ≠ second.merkleRoot ∨
      first.postureSummary.policySetHash ≠ second.postureSummary.policySetHash then
    false
  else decide (sortCounts first.postureSummary.perRule = sortCounts second.postureSummary.perRule)

end Rounds
end Trstctl.Reconcile

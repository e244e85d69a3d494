import Trstctl.Reconcile.Witness.Verify

/-!
# Completion records

`buildCompletion` and `VerifyCompletionChain`
(`internal/reconcile/quarantine/completion.go`) with the remediation plans of
`internal/reconcile/plan`.  What `encoding/json` makes of a witness, of a plan
and of a record is a parameter.
-/

namespace Trstctl.Reconcile

open Go (Bytes bytes trimSpace hexEncode jsonPair jsonString)

/-- `plan.Action`. -/
structure PlanAction where
  authorityID : Bytes
  recordKey : RecordKey
  operation : Bytes
  parameters : Go.Map Bytes
deriving DecidableEq

/-- `plan.Approval`. -/
structure PlanApproval where
  authorityID : Bytes
  approvedAt : Int
  signature : Bytes

structure Plan where
  planID : Bytes
  tenantID : Bytes
  witnessID : Bytes
  witnessHash : Bytes
  actions : List PlanAction
  approvals : List PlanApproval
  generatedAt : Int

/-- `plan.SignedPlan`, as far as a completion reads it. -/
structure SignedPlan where
  plan : Plan
  planHash : Bytes

def PlanAction.validate (tenantID : Bytes) (action : PlanAction) : Bool :=
  trimSpace action.authorityID != [] && trimSpace action.operation != [] &&
    trimSpace action.recordKey.tenantID != [] && trimSpace action.recordKey.recordType != [] &&
    trimSpace action.recordKey.stableID != [] && action.recordKey.tenantID == tenantID

def Plan.validate (plan : Plan) : Bool :=
  trimSpace plan.planID != [] && trimSpace plan.tenantID != [] &&
    trimSpace plan.witnessID != [] && plan.witnessHash != [] && plan.generatedAt != 0 &&
    plan.actions != [] && plan.actions.all (PlanAction.validate plan.tenantID)

/-- What a plan's canonical bytes are the JSON text of. -/
def Plan.content (plan : Plan) : Plan :=
  { plan with
    planID := trimSpace plan.planID
    tenantID := trimSpace plan.tenantID
    witnessID := trimSpace plan.witnessID }

namespace Quarantine

open Digest (SignedDigest Watermark)
open Witness (Evidence Entry)

structure CompletedProof where
  authorityID : Bytes
  proof : Digest.InclusionProof

structure CompletedRecordProof where
  recordKey : RecordKey
  proofs : List CompletedProof

/-- `CompletionRequest`, as far as `buildCompletion` reads it. -/
structure CompletionRequest where
  witness : Evidence
  plan : SignedPlan
  completingRoundID : Bytes
  completingDigests : List SignedDigest
  records : List CompletedRecordProof

structure CompletionDigestRef where
  authorityID : Bytes
  digestHash : Bytes
  merkleRoot : Bytes
  keyID : Bytes
  watermark : Watermark

structure CompletedRecordEvidence where
  recordKey : RecordKey
  canonicalRecordHash : Bytes
  proofs : List CompletedProof

/-- The event of a completion. -/
structure Completed where
  completionID : Bytes
  tenantID : Bytes
  witnessID : Bytes
  witnessHash : Bytes
  planID : Bytes
  planHash : Bytes
  completingRoundID : Bytes
  digestRefs : List CompletionDigestRef
  records : List CompletedRecordEvidence
  completedAt : Int

/-- Why a completion is refused: `ErrInvalidCompletion`, with what it wraps. -/
inductive CompletionError where
  | invalidCompletion
  | witness (error : Witness.WitnessError)
  | invalidPlan
  | planJson
  | recordKey (error : Digest.TreeError)

/-- What `encoding/json` makes of the texts of a completion: the JSON of a
witness, of the evidence and of a plan, the members of a record's text, none for
`null`, and the text of members. -/
structure CompletionJson where
  witness : Witness.Json
  evidence : Evidence → Option Bytes
  plan : Plan → Option Bytes
  unmarshalMembers : Bytes → Option (Option (Go.Map Bytes))
  marshalMembers : Option (Go.Map Bytes) → Option Bytes

section Completion

variable (crypto : Crypto)
variable (json : CompletionJson)

/-- `Evidence.CanonicalBytes`. -/
def evidenceBytes (evidence : Evidence) : Except Witness.WitnessError Bytes := do
  evidence.validateShape crypto json.witness
  match json.evidence evidence with
  | none => throw .json
  | some text => pure text

def contentHash (evidence : Evidence) : Bytes :=
  match evidence.body.canonicalBytes crypto json.witness with
  | .error _ => []
  | .ok payload => crypto.sha256Sum payload

/-- `Plan.Hash`. -/
def planHash (plan : Plan) : Except CompletionError Bytes :=
  if plan.validate then
    match json.plan plan.content with
    | none => .error .planJson
    | some payload => .ok (crypto.sha256Sum payload)
  else .error .invalidPlan

def materialRecordBytes (raw : Bytes) : Option Bytes :=
  if raw = [] then none
  else
    match json.unmarshalMembers raw with
    | none => none
    | some members =>
        json.marshalMembers (members.map fun object => object.delete (bytes "provenance"))

def recordKeyID (key : RecordKey) : Bytes :=
  trimSpace key.tenantID ++ 0x00 :: (trimSpace key.recordType ++ 0x00 :: trimSpace key.stableID)

def namedKey (entry : Entry) : RecordKey :=
  match entry.policy with
  | some policy => if entry.recordKey.tenantID = [] then policy.recordKey else entry.recordKey
  | none => entry.recordKey

def witnessRecordKeys (body : Witness.Body) : Except CompletionError (List Bytes) :=
  if body.entries = [] ∨ body.entries.any (fun entry =>
      (namedKey entry).tenantID == [] || (namedKey entry).recordType == [] ||
        (namedKey entry).stableID == []) then
    .error .invalidCompletion
  else .ok (body.entries.map fun entry => recordKeyID (namedKey entry))

/-- The string `completionID` hashes. -/
def completionPayload (tenantID witnessID planID roundID witnessHash planHash : Bytes) : Bytes :=
  Go.jsonObject [
    jsonPair "tenant_id" (jsonString (trimSpace tenantID)),
    jsonPair "witness_id" (jsonString (trimSpace witnessID)),
    jsonPair "witness_hash" (jsonString (hexEncode witnessHash)),
    jsonPair "plan_id" (jsonString (trimSpace planID)),
    jsonPair "plan_hash" (jsonString (hexEncode planHash)),
    jsonPair "round_id" (jsonString (trimSpace roundID))]

def completionID (tenantID witnessID planID roundID witnessHash planHash : Bytes) : Bytes :=
  hexEncode (crypto.sha256Sum
    (completionPayload tenantID witnessID planID roundID witnessHash planHash))

/-- The loop over the proofs of a record, shared by both functions: each proof
is one of an authority with a root, the first of that authority, under the
record's key and verified against that root; the material bytes of the records
proved are all the same. -/
def agreedMaterial (rootOf : Bytes → Option Bytes) (keyBytes : Bytes) :
    Bytes → List Bytes → List CompletedProof → Except CompletionError Bytes
  | material, _, [] => pure material
  | material, seen, proof :: rest =>
      let authorityID := trimSpace proof.authorityID
      match rootOf authorityID with
      | none => throw .invalidCompletion
      | some root =>
          if authorityID ∈ seen ∨ proof.proof.recordKeyBytes ≠ keyBytes ∨
              proof.proof.verifyInclusion crypto.sha256Sum root = false then
            throw .invalidCompletion
          else
            match materialRecordBytes json proof.proof.canonicalRecordBytes with
            | none => throw .invalidCompletion
            | some current =>
                if material = [] then
                  agreedMaterial rootOf keyBytes current (authorityID :: seen) rest
                else if material = current then
                  agreedMaterial rootOf keyBytes material (authorityID :: seen) rest
                else throw .invalidCompletion

/-- The roots of the digest references, by authority. -/
def completionRoots :
    Go.Map Bytes → List CompletionDigestRef → Except CompletionError (Go.Map Bytes)
  | roots, [] => pure roots
  | roots, ref :: rest =>
      match Go.hexDecode ref.merkleRoot with
      | none => throw .invalidCompletion
      | some root =>
          if root.length ≠ 32 ∨ trimSpace ref.authorityID = [] then throw .invalidCompletion
          else completionRoots (roots.set (trimSpace ref.authorityID) root) rest

def verifyCompletedRecord (roots : Go.Map Bytes)
    (record : CompletedRecordEvidence) : Except CompletionError Unit := do
  if record.proofs.length ≠ roots.length then throw .invalidCompletion
  let keyBytes ← (Digest.recordKeyBytes record.recordKey).mapError .recordKey
  let material ← agreedMaterial crypto json (fun authorityID => roots.lookup authorityID) keyBytes
    [] [] record.proofs
  if record.canonicalRecordHash ≠ hexEncode (crypto.sha256Sum material) then
    throw .invalidCompletion

def verifyCompletionChain (evidence : Evidence) (signedPlan : SignedPlan)
    (completed : Completed) : Except CompletionError Unit := do
  let _ ← (evidenceBytes crypto json evidence).mapError .witness
  let planDigest ← planHash crypto json signedPlan.plan
  let witnessHash := contentHash crypto json evidence
  if completed.tenantID ≠ trimSpace evidence.body.tenantID ∨
      completed.witnessID ≠ trimSpace evidence.body.witnessID ∨
      completed.witnessHash ≠ hexEncode witnessHash ∨
      completed.planID ≠ trimSpace signedPlan.plan.planID ∨
      completed.planHash ≠ hexEncode planDigest then
    throw .invalidCompletion
  if signedPlan.plan.witnessID ≠ evidence.body.witnessID ∨
      signedPlan.plan.witnessHash ≠ witnessHash then
    throw .invalidCompletion
  let roots ← completionRoots [] completed.digestRefs
  completed.records.forM (verifyCompletedRecord crypto json roots)

/-- The loop over the completing digests: by authority, and as references. -/
def collectDigests (tenantID : Bytes) :
    Go.Map SignedDigest → List CompletionDigestRef → List SignedDigest →
      Except CompletionError (Go.Map SignedDigest × List CompletionDigestRef)
  | digests, refs, [] => pure (digests, refs)
  | digests, refs, signed :: rest =>
      let authorityID := trimSpace signed.body.authorityID
      if authorityID = [] ∨ trimSpace signed.body.tenantID ≠ tenantID then
        throw .invalidCompletion
      else if (digests.lookup authorityID).isSome then throw .invalidCompletion
      else
        match signed.body.canonicalBytes with
        | .error _ => throw .invalidCompletion
        | .ok payload =>
            if crypto.sha256Sum payload ≠ signed.digestHash then throw .invalidCompletion
            else
              collectDigests tenantID (digests.set authorityID signed)
                (refs ++ [{
                  authorityID := authorityID
                  digestHash := hexEncode (crypto.sha256Sum payload)
                  merkleRoot := hexEncode signed.body.merkleRoot
                  keyID := trimSpace signed.keyID
                  watermark := signed.body.watermark }]) rest

def copyCompletedProof (proof : CompletedProof) : CompletedProof :=
  { proof with authorityID := trimSpace proof.authorityID }

/-- One round of the loop over the records of a request. -/
def completeRecord (digests : Go.Map SignedDigest) (requiredKeys : List Bytes)
    (record : CompletedRecordProof) : Except CompletionError CompletedRecordEvidence := do
  if recordKeyID record.recordKey ∉ requiredKeys then throw .invalidCompletion
  let keyBytes ← (Digest.recordKeyBytes record.recordKey).mapError .recordKey
  if record.proofs.length ≠ digests.length then throw .invalidCompletion
  let material ← agreedMaterial crypto json
    (fun authorityID => (digests.lookup authorityID).map fun signed => signed.body.merkleRoot)
    keyBytes [] [] record.proofs
  pure
    { recordKey := record.recordKey
      canonicalRecordHash := hexEncode (crypto.sha256Sum material)
      proofs := record.proofs.map copyCompletedProof }

/-- The completion of a witness by a later round. -/
def buildCompletion (request : CompletionRequest)
    (completedAt : Int) : Except CompletionError Completed := do
  let _ ← (evidenceBytes crypto json request.witness).mapError .witness
  let tenantID := trimSpace request.witness.body.tenantID
  let witnessID := trimSpace request.witness.body.witnessID
  let roundID := trimSpace request.completingRoundID
  if tenantID = [] ∨ witnessID = [] ∨ roundID = [] ∨ request.completingDigests.length < 2 ∨
      request.records = [] then
    throw .invalidCompletion
  let witnessHash := contentHash crypto json request.witness
  let planDigest ← planHash crypto json request.plan.plan
  if request.plan.planHash ≠ planDigest ∨ trimSpace request.plan.plan.tenantID ≠ tenantID ∨
      trimSpace request.plan.plan.witnessID ≠ witnessID ∨
      request.plan.plan.witnessHash ≠ witnessHash then
    throw .invalidCompletion
  let (digests, refs) ← collectDigests crypto tenantID [] [] request.completingDigests
  let requiredKeys ← witnessRecordKeys request.witness.body
  let records ← request.records.mapM (completeRecord crypto json digests requiredKeys)
  if ¬∀ key ∈ requiredKeys,
      key ∈ request.records.map fun record => recordKeyID record.recordKey then
    throw .invalidCompletion
  let completed : Completed :=
    { completionID :=
        completionID crypto tenantID witnessID request.plan.plan.planID roundID witnessHash
          planDigest
      tenantID := tenantID
      witnessID := witnessID
      witnessHash := hexEncode witnessHash
      planID := trimSpace request.plan.plan.planID
      planHash := hexEncode planDigest
      completingRoundID := roundID
      digestRefs := refs
      records := records
      completedAt := completedAt }
  verifyCompletionChain crypto json request.witness request.plan completed
  pure completed

end Completion

end Quarantine
end Trstctl.Reconcile

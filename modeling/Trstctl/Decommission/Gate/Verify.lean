import Mathlib.Data.List.Sort
import Trstctl.Decommission.Depstate.Projection

/-!
# The destruction gate

`Gate.VerifyGatedDestroy` of `internal/decommission/gate/gate.go` with the
evidence of `evidence.go` and the quorum of `quorum.go`.  The gate folds the
presented ledger segment up to the requested position and refuses while a
registered dependent is not accounted for.  Signing a refusal and appending it
to the ledger is a parameter of the gate.
-/

namespace Trstctl.Decommission.Gate

open Go (Bytes bytes jsonPair jsonObject jsonString jsonBytes jsonSlice jsonArray jsonBool
  jsonOptional decimal trimSpace)
open Depstate (Event Actor Dependent KeyState)

structure LedgerSegmentV1 where
  version : Int
  finalEpoch : Nat
  events : List Event
deriving DecidableEq

structure RequiredSetV1 where
  version : Int
  tenantID : Bytes
  subjectRef : Bytes
  ledgerPosition : Nat
  registered : List Dependent

structure DestroyContextV1 where
  version : Int
  keyClass : Bytes

structure QuorumApprovalsV1 where
  version : Int
  keyClass : Bytes
  approvals : List Bytes

/-- The readings of `json.Unmarshal` by type, with its error texts, and
`strconv.Quote`. -/
structure Codec extends Depstate.Codec where
  ledgerSegment : Bytes → Except Bytes LedgerSegmentV1
  requiredSet : Bytes → Except Bytes RequiredSetV1
  destroyContext : Bytes → Except Bytes DestroyContextV1
  quorumApprovals : Bytes → Except Bytes QuorumApprovalsV1
  quote : Bytes → Bytes

/-- An error that wraps `ErrInvalidEvidence`. -/
def invalidEvidence (detail : Bytes) : Bytes :=
  bytes "vdec gate: invalid evidence: " ++ detail

/-- An error that wraps `ErrQuorumNotMet`. -/
def quorumNotMet (detail : Bytes) : Bytes :=
  bytes "vdec gate: quorum not met: " ++ detail

def decodeLedgerSegment (codec : Codec) (raw : Bytes) : Except Bytes LedgerSegmentV1 :=
  if raw = [] then .error (invalidEvidence (bytes "missing ledger segment"))
  else
    match codec.ledgerSegment raw with
    | .error detail => .error (invalidEvidence (bytes "decode ledger segment: " ++ detail))
    | .ok segment =>
        if segment.version ≠ 0 ∧ segment.version ≠ 1 then
          .error (invalidEvidence
            (bytes "unsupported ledger segment version " ++ decimal segment.version))
        else .ok segment

/-- The order of `sortedDependents`. -/
def dependentLE (left right : Dependent) : Bool :=
  if left.dependentClass ≠ right.dependentClass then
    decide (left.dependentClass < right.dependentClass)
  else decide (left.id ≤ right.id)

def sortedDependents (dependents : List Dependent) : List Dependent :=
  dependents.insertionSort fun left right => dependentLE left right

/-- `json.Marshal` of a required set of the first version. -/
def requiredSetJSON (required : RequiredSetV1) : Bytes :=
  jsonObject [jsonPair "version" (decimal 1),
    jsonPair "tenant_id" (jsonString required.tenantID),
    jsonPair "subject_ref" (jsonString required.subjectRef),
    jsonPair "ledger_position" (decimal required.ledgerPosition),
    jsonPair "registered" (jsonSlice ((sortedDependents required.registered).map Dependent.json))]

def requiredSetBytes (state : KeyState) : Bytes :=
  requiredSetJSON ⟨1, state.tenantID, state.keyID, state.ledgerPosition, state.registered⟩

def requiredSetDigest (codec : Codec) (state : KeyState) : Bytes :=
  codec.sha256Sum (requiredSetBytes state)

def verifyRequiredSet (codec : Codec) (raw : Bytes) (state : KeyState) : Except Bytes Unit :=
  match codec.requiredSet raw with
  | .error detail => .error (invalidEvidence (bytes "decode required set: " ++ detail))
  | .ok got =>
      if requiredSetJSON got ≠ requiredSetBytes state then
        .error (invalidEvidence (bytes "required set body mismatch"))
      else .ok ()

def eventPosition (index : Nat) (event : Event) : Nat :=
  if event.sequence = 0 then index + 1 else event.sequence

/-- The loop of `BoundEvents`. -/
def boundEventsFrom (bound : Nat) : Nat → List Event → List Event
  | _, [] => []
  | index, event :: rest =>
      if bound < eventPosition index event then boundEventsFrom bound (index + 1) rest
      else { event with sequence := eventPosition index event } ::
        boundEventsFrom bound (index + 1) rest

def boundEvents (events : List Event) (bound : Nat) : List Event :=
  boundEventsFrom bound 0 events

def newAuditChainHead (codec : Codec) : Bytes :=
  codec.sha256Sum (bytes "trstctl/vdec/gated-destruction/audit-head/v1")

/-- `json.Marshal` of an actor. -/
def actorJSON (actor : Actor) : Bytes :=
  jsonObject (jsonPair "subject" (jsonString actor.subject) ::
    jsonOptional (!actor.roles.isEmpty) (jsonPair "roles" (jsonArray (actor.roles.map jsonString))))

def extendAuditChainHead (codec : Codec) (head : Bytes) (event : Event) : Bytes :=
  codec.sha256Sum (jsonObject ([jsonPair "previous" (jsonBytes head)] ++
    jsonOptional (!event.id.isEmpty) (jsonPair "id" (jsonString event.id)) ++
    [jsonPair "type" (jsonString event.type),
      jsonPair "tenant_id" (jsonString event.tenantID),
      jsonPair "sequence" (decimal event.sequence),
      jsonPair "schema_version" (decimal event.schemaVersion),
      jsonPair "data_digest" (jsonBytes (codec.sha256Sum event.data))] ++
    event.actor.toList.map fun actor => jsonPair "actor" (actorJSON actor)))

def auditChainHead (codec : Codec) (events : List Event) : Bytes :=
  events.foldl (extendAuditChainHead codec) (newAuditChainHead codec)

/-- `Quorum` of package `breakglass/quorum`. -/
structure Quorum where
  threshold : Int
  operators : List Bytes

/-- The loop of `Quorum.Verify` over the approvals: the number of distinct
ones. -/
def countApprovals (codec : Codec) (quorum : Quorum) :
    List Bytes → List Bytes → Nat → Except Bytes Nat
  | _, [], count => .ok count
  | seen, approval :: rest, count =>
      if !quorum.operators.contains approval then
        .error (bytes "breakglass: " ++ codec.quote approval ++
          bytes " is not an authorized break-glass operator")
      else if seen.contains approval then countApprovals codec quorum seen rest count
      else countApprovals codec quorum (approval :: seen) rest (count + 1)

def Quorum.verify (codec : Codec) (quorum : Quorum) (approvals : List Bytes) :
    Except Bytes Unit := do
  if quorum.threshold ≤ 0 then throw (bytes "breakglass: quorum threshold must be positive")
  let count ← countApprovals codec quorum [] approvals 0
  if (count : Int) < quorum.threshold then
    throw (bytes "breakglass: quorum not met (" ++ decimal count ++ bytes " of " ++
      decimal quorum.threshold ++ bytes " required)")

/-- `QuorumEvidence` with its approvers; `VerifyApprovals` never redacts them. -/
structure QuorumEvidence where
  keyClass : Bytes
  threshold : Int
  authorizedCount : Nat
  approvers : List Bytes

def distinctSortedStrings (texts : List Bytes) : List Bytes :=
  (((texts.map trimSpace).filter (· != [])).eraseDups).insertionSort (· ≤ ·)

def quorumEvidenceDomain : Bytes :=
  bytes "trstctl/vdec/gated-destruction/quorum-evidence/v1"

def quorumApproverDigest (codec : Codec) (keyClass : Bytes) (approvers : List Bytes) : Bytes :=
  codec.sha256Sum (jsonObject [
    jsonPair "domain" (jsonString (quorumEvidenceDomain ++ bytes "/approvers")),
    jsonPair "key_class" (jsonString (trimSpace keyClass)),
    jsonPair "approvers" (jsonArray ((distinctSortedStrings approvers).map jsonString))])

/-- `NormalizeQuorumEvidence`: the approvers are sorted and distinct; the other
normalized fields are functions of them. -/
def QuorumEvidence.normalize (evidence : QuorumEvidence) : QuorumEvidence :=
  { evidence with
    keyClass := trimSpace evidence.keyClass
    approvers := distinctSortedStrings evidence.approvers }

/-- The field `Satisfied` of normalized evidence. -/
def QuorumEvidence.satisfied (evidence : QuorumEvidence) : Bool :=
  decide (0 < evidence.threshold) && decide (evidence.threshold ≤ evidence.approvers.length)

/-- `ValidateQuorumEvidence` on normalized evidence. -/
def QuorumEvidence.validate (codec : Codec) (evidence : QuorumEvidence) : Except Bytes Unit := do
  if evidence.keyClass = [] ∨ evidence.threshold ≤ 0 ∨
      (evidence.authorizedCount : Int) < evidence.threshold then
    throw (invalidEvidence (bytes "key class, threshold, and authorized count are required"))
  if evidence.satisfied = false then
    throw (quorumNotMet (bytes "only " ++ decimal evidence.approvers.length ++
      bytes " distinct approvals for threshold " ++ decimal evidence.threshold))
  if (quorumApproverDigest codec evidence.keyClass evidence.approvers).length ≠ 32 then
    throw (invalidEvidence (bytes "approver digest is required"))

/-- `json.Marshal` of normalized quorum evidence. -/
def QuorumEvidence.json (codec : Codec) (evidence : QuorumEvidence) : Bytes :=
  jsonObject ([jsonPair "version" (decimal 1),
      jsonPair "domain" (jsonString quorumEvidenceDomain),
      jsonPair "key_class" (jsonString evidence.keyClass),
      jsonPair "threshold" (decimal evidence.threshold),
      jsonPair "authorized_count" (decimal evidence.authorizedCount),
      jsonPair "approval_count" (decimal evidence.approvers.length)] ++
    jsonOptional (!evidence.approvers.isEmpty)
      (jsonPair "approvers" (jsonArray (evidence.approvers.map jsonString))) ++
    [jsonPair "approver_digest"
        (jsonBytes (quorumApproverDigest codec evidence.keyClass evidence.approvers)),
      jsonPair "satisfied" (jsonBool evidence.satisfied)])

/-- `QuorumPolicy.VerifyApprovals` for a key class that requires a quorum. -/
def verifyApprovals (codec : Codec) (quorum : Quorum) (keyClass raw : Bytes) :
    Except Bytes QuorumEvidence := do
  if raw = [] then
    throw (quorumNotMet (bytes "approvals are required for key class " ++ keyClass))
  match codec.quorumApprovals raw with
  | .error detail => throw (invalidEvidence (bytes "decode quorum approvals: " ++ detail))
  | .ok approvals =>
      if approvals.version ≠ 0 ∧ approvals.version ≠ 1 then
        throw (invalidEvidence
          (bytes "unsupported quorum approval version " ++ decimal approvals.version))
      if trimSpace approvals.keyClass ≠ keyClass then
        throw (invalidEvidence (bytes "approval key class " ++
          codec.quote (trimSpace approvals.keyClass) ++
          bytes " does not match destroy key class " ++ codec.quote keyClass))
      match quorum.verify codec approvals.approvals with
      | .error detail => throw (quorumNotMet detail)
      | .ok () =>
          let evidence : QuorumEvidence :=
            { keyClass := keyClass
              threshold := quorum.threshold
              authorizedCount := quorum.operators.length
              approvers := approvals.approvals }
          evidence.normalize.validate codec
          return evidence.normalize

/-- `GatedDestroyRequest`, as far as the gate reads it. -/
structure GatedDestroyRequest where
  tenantID : Bytes
  subjectRef : Bytes
  assertedFinalEpoch : Nat
  ledgerPosition : Nat
  requiredSet : Bytes
  requiredSetDigest : Bytes
  satisfactionEvidence : Bytes
  approvals : Bytes
  auditChainHead : Bytes
  context : Bytes

structure GatedDestroyDecision where
  approved : Bool
  refusalRecord : Bytes
  authorization : Bytes
  evidence : Bytes
deriving DecidableEq

/-- `Gate`: the quorum of each trimmed key class, and the signed and appended
refusal, or why there is none. -/
structure DestructionGate where
  quorum : Go.Map Quorum
  refusal : GatedDestroyRequest → KeyState → List Dependent → Except Bytes (Bytes × Bytes)

def decodeDestroyContext (codec : Codec) (raw : Bytes) : Except Bytes DestroyContextV1 :=
  if raw = [] then .ok ⟨0, []⟩
  else
    match codec.destroyContext raw with
    | .error detail => .error (invalidEvidence (bytes "decode destroy context: " ++ detail))
    | .ok body =>
        if body.version ≠ 0 ∧ body.version ≠ 1 then
          .error (invalidEvidence
            (bytes "unsupported destroy context version " ++ decimal body.version))
        else .ok ⟨1, trimSpace body.keyClass⟩

/-- `Gate.verifyQuorum`: the encoded evidence, empty when none is required. -/
def verifyQuorum (codec : Codec) (gate : DestructionGate) (request : GatedDestroyRequest) :
    Except Bytes Bytes := do
  let context ← decodeDestroyContext codec request.context
  match gate.quorum.lookup (trimSpace context.keyClass) with
  | none => return []
  | some quorum =>
      let evidence ←
        verifyApprovals codec quorum (trimSpace context.keyClass) request.approvals
      return evidence.json codec

def refuse (gate : DestructionGate) (request : GatedDestroyRequest) (state : KeyState)
    (unaccounted : List Dependent) : Except Bytes GatedDestroyDecision := do
  let (raw, appended) ← gate.refusal request state unaccounted
  return { approved := false, refusalRecord := raw, authorization := [], evidence := appended }

def verifyGatedDestroyState (codec : Codec) (gate : DestructionGate) (request : GatedDestroyRequest)
    (state : KeyState) : Except Bytes GatedDestroyDecision := do
  let requiredDigest := requiredSetDigest codec state
  if request.requiredSetDigest ≠ [] ∧ request.requiredSetDigest ≠ requiredDigest then
    throw (invalidEvidence (bytes "required set digest mismatch"))
  if request.requiredSet ≠ [] then verifyRequiredSet codec request.requiredSet state
  if state.unaccounted ≠ [] then refuse gate request state state.unaccounted
  else
    let quorumEvidence ← verifyQuorum codec gate request
    return { approved := true, refusalRecord := [], authorization := quorumEvidence
             evidence := requiredDigest }

/-- `Gate.VerifyGatedDestroy`; the context of the call may have ended. -/
def verifyGatedDestroy (codec : Codec) (gate : DestructionGate) (contextError : Option Bytes)
    (request : GatedDestroyRequest) : Except Bytes GatedDestroyDecision := do
  match contextError with
  | some detail => throw detail
  | none => pure ()
  if trimSpace request.tenantID = [] ∨ trimSpace request.subjectRef = [] ∨
      request.ledgerPosition = 0 then
    throw (invalidEvidence (bytes "tenant, subject ref, and ledger position are required"))
  if request.assertedFinalEpoch = 0 then
    throw (invalidEvidence (bytes "asserted final epoch is required"))
  let segment ← decodeLedgerSegment codec request.satisfactionEvidence
  if segment.finalEpoch ≠ 0 ∧ segment.finalEpoch ≠ request.assertedFinalEpoch then
    throw (invalidEvidence (bytes "asserted final epoch " ++ decimal request.assertedFinalEpoch ++
      bytes " does not match evidence epoch " ++ decimal segment.finalEpoch))
  let bounded := boundEvents segment.events request.ledgerPosition
  if request.auditChainHead ≠ [] ∧ request.auditChainHead ≠ auditChainHead codec bounded then
    throw (invalidEvidence (bytes "audit chain head mismatch"))
  let projection ← Depstate.fold codec.toCodec bounded
  let state := (projection.lookup ⟨request.tenantID, request.subjectRef⟩).getD
    ⟨request.subjectRef, request.tenantID, [], [], [], [], request.ledgerPosition⟩
  verifyGatedDestroyState codec gate request state

end Trstctl.Decommission.Gate

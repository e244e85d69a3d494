import Trstctl.Decommission.Depstate.Events

/-!
# The dependency projection

`Fold` of `internal/decommission/depstate/projection.go` with the source-bound
releases of `release_v3.go`.  The events are folded into one builder for each
tenant and key.  A builder of the source keeps a set of keys beside each list
of dependents; the set holds the keys of the list and is not kept apart here.
-/

namespace Trstctl.Decommission.Depstate

open Go (Bytes bytes decimal)

structure KeyState where
  keyID : Bytes
  tenantID : Bytes
  registered : List Dependent
  accounted : List Dependent
  released : List Dependent
  erasureDesignated : List Dependent
  ledgerPosition : Nat
deriving DecidableEq

def hasKey (dependents : List Dependent) (dependent : Dependent) : Bool :=
  dependents.any fun other => other.key == dependent.key

def KeyState.unaccounted (state : KeyState) : List Dependent :=
  state.registered.filter fun dependent =>
    !hasKey (state.accounted ++ state.released ++ state.erasureDesignated) dependent

structure ProjectionKey where
  tenantID : Bytes
  keyID : Bytes
deriving DecidableEq

/-- The dependency state of every key. -/
abbrev Projection := Go.MapOf ProjectionKey KeyState

structure ReleaseCeremony where
  purpose : Bytes
  threshold : Int
  opener : Bytes
  approvals : Go.Map Bytes
  cancelled : Bool

/-- `managedLeafSource` and `managedLeafRevocation`: an event and the
certificate it is about. -/
structure LeafEvent where
  eventID : Bytes
  sequence : Nat
  serial : Bytes
  certificateSHA256 : Bytes
deriving DecidableEq

structure KeyBuilder where
  state : KeyState
  leafSources : Go.Map LeafEvent
  revocations : Go.Map LeafEvent
  ceremonies : Go.Map ReleaseCeremony

def newKeyBuilder (key : ProjectionKey) : KeyBuilder where
  state := ⟨key.keyID, key.tenantID, [], [], [], [], 0⟩
  leafSources := []
  revocations := []
  ceremonies := []

def appendUnique (dependents : List Dependent) (dependent : Dependent) : List Dependent :=
  if hasKey dependents dependent then dependents else dependents ++ [dependent]

def KeyState.advance (state : KeyState) (position : Nat) : KeyState :=
  { state with ledgerPosition := max state.ledgerPosition position }

def KeyState.register (state : KeyState) (dependent : Dependent) : KeyState :=
  { state with registered := appendUnique state.registered dependent }

def KeyState.account (state : KeyState) (dependent : Dependent) : KeyState :=
  { state with accounted := appendUnique state.accounted dependent }

def KeyState.release (state : KeyState) (dependent : Dependent) : KeyState :=
  if hasKey state.released dependent then state
  else { state with released := state.released ++ [dependent] }.account dependent

def KeyState.erase (state : KeyState) (dependent : Dependent) : KeyState :=
  let state := state.register dependent
  if hasKey state.erasureDesignated dependent then state
  else { state with erasureDesignated := state.erasureDesignated ++ [dependent] }.account dependent

/-- The operations of a change. -/
inductive Operation where
  | register
  | release
  | erase
  | account
deriving DecidableEq

def KeyState.apply (state : KeyState) (dependent : Dependent) : Operation → KeyState
  | .register => state.register dependent
  | .release => state.release dependent
  | .erase => state.erase dependent
  | .account => state.account dependent

structure Change where
  key : ProjectionKey
  dependent : Dependent
  operation : Operation

def payloadChange : Payload → Option Change
  | .registered payload => some ⟨⟨payload.tenantID, payload.keyID⟩, payload.dependent, .register⟩
  | .releasedV1 payload => some ⟨⟨payload.tenantID, payload.keyID⟩, payload.dependent, .release⟩
  | .releasedV2 payload => some ⟨⟨payload.tenantID, payload.keyID⟩, payload.dependent, .release⟩
  | .releasedV3 payload => some ⟨⟨payload.tenantID, payload.keyID⟩, payload.dependent, .release⟩
  | .erasureDesignated payload =>
      some ⟨⟨payload.tenantID, payload.keyID⟩, payload.dependent, .erase⟩
  | .reprotectionCompleted payload =>
      some ⟨⟨payload.tenantID, payload.keyID⟩, payload.dependent, .account⟩
  | .revocationCompleted payload =>
      some ⟨⟨payload.tenantID, payload.keyID⟩, payload.dependent, .account⟩
  | .unknown _ _ _ => none

def releasePurposeKey (codec : Codec) (purpose : Bytes) : Option Bytes :=
  let review := fun start : Bytes =>
    match codec.purposeKeyID (purpose.drop start.length) with
    | .ok keyID => if keyID = [] then none else some keyID
    | .error _ => none
  if Go.hasPrefix purpose (bytes "release-managed-ca-leaf-v3:") then
    review (bytes "release-managed-ca-leaf-v3:")
  else if Go.hasPrefix purpose (bytes "release-managed-ca-leaf-v2:") then
    review (bytes "release-managed-ca-leaf-v2:")
  else none

/-- The types of ceremony events. -/
def caCeremonyStarted : Bytes := bytes "ca.ceremony.started"
/-- An approval. -/
def caCeremonyApproved : Bytes := bytes "ca.ceremony.approved"
/-- A cancellation. -/
def caCeremonyCancelled : Bytes := bytes "ca.ceremony.cancelled"

def KeyBuilder.applyCeremonyAction (builder : KeyBuilder) (event : Event)
    (ceremonyID custodian : Bytes) : Except Bytes KeyBuilder :=
  match builder.ceremonies.lookup ceremonyID with
  | none => .ok builder
  | some ceremony =>
      if event.type = caCeremonyCancelled then
        .ok { builder with
          ceremonies := builder.ceremonies.set ceremonyID { ceremony with cancelled := true } }
      else if event.id = [] ∨ custodian = [] ∨ custodian = ceremony.opener ∨
          ceremony.cancelled = true then
        .error (bytes "release ceremony approval lacks distinct immutable evidence")
      else if (ceremony.approvals.lookup custodian).any (· != event.id) then
        .error (bytes "release ceremony repeats custodian")
      else
        .ok { builder with
          ceremonies := builder.ceremonies.set ceremonyID
            { ceremony with approvals := ceremony.approvals.set custodian event.id } }

def newCeremony (started : CeremonyStarted) : ReleaseCeremony where
  purpose := started.purpose
  threshold := started.threshold
  opener := started.opener
  approvals := []
  cancelled := false

def KeyBuilder.rememberManagedLeaf (codec : Codec) (builder : KeyBuilder) (event : Event)
    (dependent : Dependent) : Except Bytes KeyBuilder :=
  if event.type ≠ eventCAEndEntityIssued ∨
      (event.schemaVersion ≠ 2 ∧ event.schemaVersion ≠ 3) then .ok builder
  else do
    let issued ← codec.mintReceipt event.data
    if event.id = [] ∨ event.sequence = 0 ∨ issued.serial = [] ∨ issued.certificateDER = [] then
      return builder
    else
      let digest := Go.hexEncode (codec.sha256Sum issued.certificateDER)
      if codec.equalFold issued.fingerprint digest = false then return builder
      else
        let source : LeafEvent := ⟨event.id, event.sequence, issued.serial, digest⟩
        if (builder.leafSources.lookup dependent.key).any (· != source) then
          throw (bytes "conflicting managed CA leaf sources for dependent " ++ dependent.id)
        else
          return { builder with leafSources := builder.leafSources.set dependent.key source }

/-- The named revocation reasons of RFC 5280. -/
def validRevocationReasons : List Bytes :=
  [bytes "unspecified", bytes "keyCompromise", bytes "caCompromise", bytes "affiliationChanged",
    bytes "superseded", bytes "cessationOfOperation", bytes "certificateHold",
    bytes "removeFromCRL", bytes "privilegeWithdrawn", bytes "aaCompromise"]

/-- The loop of `rememberRevokedManagedLeaves`; `record` takes the key, the
certificate, its serial and its digest. -/
def recordRevoked {σ : Type} (record : Bytes → Bytes → Bytes → Bytes → σ → Except Bytes σ) :
    List Bytes → List RevocationItem → σ → Except Bytes σ
  | _, [], state => .ok state
  | seen, item :: rest, state =>
      if seen.contains item.id then
        .error (bytes "managed-leaf revocation repeats certificate")
      else if item.status ≠ bytes "revoked" then recordRevoked record (item.id :: seen) rest state
      else if item.matched = false ∨ item.id = [] ∨ item.caID = [] ∨ item.serial = [] ∨
          item.fingerprint.length ≠ 64 then
        .error (bytes "managed-leaf revocation has no exact local issuer binding")
      else do
        let state ← record item.caID item.id item.serial (Go.toLower item.fingerprint) state
        recordRevoked record (item.id :: seen) rest state

def rememberRevokedManagedLeaves {σ : Type} (codec : Codec) (event : Event)
    (record : Bytes → Bytes → Bytes → Bytes → σ → Except Bytes σ) (state : σ) :
    Except Bytes σ :=
  if event.type ≠ bytes "certificate.revocation.batch.applied" then .ok state
  else if event.id = [] ∨ event.sequence = 0 ∨
      (event.schemaVersion ≠ 1 ∧ event.schemaVersion ≠ 2) then
    .error (bytes "managed-leaf revocation has no immutable event identity")
  else do
    let batch ← codec.revocationBatch event.data
    if validRevocationReasons.contains batch.reason = false ∨
        batch.reason = bytes "removeFromCRL" then
      throw (bytes "managed-leaf revocation has no supported reason")
    else recordRevoked record [] batch.items state

def KeyBuilder.rememberRevocation (builder : KeyBuilder) (event : Event)
    (certID serial digest : Bytes) : Except Bytes KeyBuilder :=
  let key := Dependent.key ⟨dependentCredential, certID⟩
  match builder.leafSources.lookup key with
  | none => .ok builder
  | some source =>
      if event.sequence ≤ source.sequence ∨ serial ≠ source.serial ∨
          digest ≠ source.certificateSHA256 then
        .error (bytes "managed-leaf revocation differs from exact mint")
      else
        let revocation : LeafEvent := ⟨event.id, event.sequence, serial, digest⟩
        if (builder.revocations.lookup key).any (· != revocation) then
          .error (bytes "managed-leaf revocation has a competing outcome")
        else .ok { builder with revocations := builder.revocations.set key revocation }

def ReleaseCeremony.hasApproval (ceremony : ReleaseCeremony) (approval : Bytes) : Bool :=
  ceremony.approvals.any fun approved => approved.2 == approval

/-- The loop over the approvals of a release: none is empty or repeated, and
each is accepted. -/
def checkApprovals (release : Bytes) (accept : Bytes → Except Bytes Unit) :
    List Bytes → List Bytes → Except Bytes Unit
  | _, [] => .ok ()
  | seen, approval :: rest =>
      if approval = [] then .error (release ++ bytes " has empty approval evidence")
      else if seen.contains approval then
        .error (release ++ bytes " repeats approval evidence")
      else do
        accept approval
        checkApprovals release accept (approval :: seen) rest

/-- The fields that every source-bound release needs. -/
def DependencyReleasedV2.complete (release : DependencyReleasedV2) (event : Event) (keyID : Bytes)
    (reason : Bytes) : Bool :=
  !(event.tenantID.isEmpty || release.tenantID != event.tenantID || release.keyID != keyID ||
    release.dependent.dependentClass != dependentCredential || release.dependent.id.isEmpty ||
    release.sourceEventID.isEmpty || release.sourceSequence == 0 || release.serial.isEmpty ||
    release.certificateSHA256.isEmpty || release.ceremonyID.isEmpty || release.actor.isEmpty ||
    release.reason != reason || !release.riskAccepted ||
    decide (release.approvalEventIDs.length < 2))

/-- The event of a release's certificate. -/
def LeafEvent.isSource (source : LeafEvent) (release : DependencyReleasedV2) : Bool :=
  source.eventID == release.sourceEventID && source.sequence == release.sourceSequence &&
    source.serial == release.serial && source.certificateSHA256 == release.certificateSHA256

/-- The ceremony approves a purpose with a given number of approvals. -/
def ReleaseCeremony.approves (ceremony : ReleaseCeremony) (purpose : Bytes) (count : Nat) : Bool :=
  !(ceremony.cancelled || ceremony.purpose != purpose || decide (ceremony.threshold < 2) ||
    decide ((ceremony.approvals.length : Int) < ceremony.threshold) ||
    ceremony.approvals.length != count)

/-- The event precedes another; an event without a sequence follows all. -/
def LeafEvent.precedes (source : LeafEvent) (event : Event) : Bool :=
  event.sequence == 0 || decide (source.sequence < event.sequence)

def KeyBuilder.validateSourceBoundRelease (builder : KeyBuilder) (event : Event)
    (release : DependencyReleasedV2) : Except Bytes Unit := do
  if release.complete event builder.state.keyID
      (bytes "expired-requester-custody-external-use-risk-accepted") = false then
    throw (bytes ("source-bound certificate release lacks required identity, approvals, " ++
      "reason, or risk acceptance"))
  checkApprovals (bytes "source-bound certificate release") (fun _ => .ok ()) []
    release.approvalEventIDs
  if (builder.leafSources.lookup release.dependent.key).any (fun source =>
      source.isSource release && source.precedes event) = false then
    throw (bytes ("source-bound certificate release does not match an earlier exact managed CA " ++
      "mint"))
  if hasKey builder.state.accounted release.dependent = true then
    throw (bytes "source-bound certificate release repeats an accounted dependent")
  match builder.ceremonies.lookup release.ceremonyID with
  | none => throw (bytes "source-bound certificate release lacks its exact approved ceremony")
  | some ceremony =>
      if ceremony.approves (releasePurposeV2 release) release.approvalEventIDs.length = false then
        throw (bytes "source-bound certificate release lacks its exact approved ceremony")
      if release.approvalEventIDs.all ceremony.hasApproval = false then
        throw (bytes "source-bound certificate release approval event differs from ceremony")

def LeafEvent.isRevocation (revoked : LeafEvent) (release : DependencyReleasedV3) : Bool :=
  revoked.eventID == release.revocationEventID && revoked.sequence == release.revocationSequence &&
    revoked.serial == release.serial && revoked.certificateSHA256 == release.certificateSHA256

def KeyBuilder.validateRevokedSourceBoundRelease (builder : KeyBuilder) (event : Event)
    (release : DependencyReleasedV3) : Except Bytes Unit := do
  if release.complete event builder.state.keyID
      (bytes "revoked-unserved-host-custody-external-use-risk-accepted") = false ∨
      release.revocationEventID = [] ∨ release.revocationSequence = 0 then
    throw (bytes "revoked host release lacks exact identity, approval, or risk evidence")
  if (builder.leafSources.lookup release.dependent.key).any
        (fun source => source.isSource release.toDependencyReleasedV2) = false ∨
      (builder.revocations.lookup release.dependent.key).any
        (fun revoked => revoked.isRevocation release && revoked.precedes event) = false then
    throw (bytes "revoked host release differs from immutable mint or revocation")
  if hasKey builder.state.accounted release.dependent = true then
    throw (bytes "revoked host release repeats an accounted dependent")
  match builder.ceremonies.lookup release.ceremonyID with
  | none => throw (bytes "revoked host release lacks its exact approved ceremony")
  | some ceremony =>
      if ceremony.approves (releasePurposeV3 release) release.approvalEventIDs.length = false then
        throw (bytes "revoked host release lacks its exact approved ceremony")
      checkApprovals (bytes "revoked host release")
        (fun approval =>
          if ceremony.hasApproval approval then .ok ()
          else .error (bytes "revoked host release approval differs from ceremony"))
        [] release.approvalEventIDs

/-- The builders of a fold, and the builder of each open ceremony. -/
structure FoldState where
  builders : Go.MapOf ProjectionKey KeyBuilder
  ceremonyIndex : Go.Map ProjectionKey

/-- `builderFor`: the builder of a key, which is made when there is none. -/
def FoldState.builderFor (state : FoldState) (key : ProjectionKey) : KeyBuilder :=
  (state.builders.lookup key).getD (newKeyBuilder key)

def FoldState.setBuilder (state : FoldState) (key : ProjectionKey) (builder : KeyBuilder) :
    FoldState :=
  { state with builders := state.builders.set key builder }

/-- A started ceremony of `applyReleaseCeremonyEvent`. -/
def FoldState.startCeremony (codec : Codec) (state : FoldState) (event : Event) :
    Except Bytes FoldState := do
  let started ← codec.ceremonyStarted event.data
  match releasePurposeKey codec started.purpose with
  | none => return state
  | some keyID =>
      if started.ceremonyID = [] ∨ started.threshold < 2 then
        throw (bytes "release ceremony lacks ID or two-custodian floor")
      let key : ProjectionKey := ⟨event.tenantID, keyID⟩
      if (state.ceremonyIndex.lookup started.ceremonyID).isSome = true then
        throw (bytes "duplicate release ceremony identity")
      let builder := state.builderFor key
      let ceremonies := builder.ceremonies.set started.ceremonyID (newCeremony started)
      return { state.setBuilder key { builder with ceremonies := ceremonies } with
        ceremonyIndex := state.ceremonyIndex.set started.ceremonyID key }

def FoldState.closeCeremony (state : FoldState) (key : ProjectionKey) (ceremonyID : Bytes) :
    FoldState :=
  let builder := state.builderFor key
  { state.setBuilder key { builder with ceremonies := builder.ceremonies.delete ceremonyID } with
    ceremonyIndex := state.ceremonyIndex.delete ceremonyID }

/-- An approved or cancelled ceremony of `applyReleaseCeremonyEvent`. -/
def FoldState.actOnCeremony (codec : Codec) (state : FoldState) (event : Event) :
    Except Bytes FoldState := do
  let action ← codec.ceremonyAction event.data
  match state.ceremonyIndex.lookup action.ceremonyID with
  | none => return state
  | some key =>
      if key.tenantID ≠ event.tenantID then return state
      let builder ←
        (state.builderFor key).applyCeremonyAction event action.ceremonyID action.custodian
      let state := state.setBuilder key builder
      return if event.type = caCeremonyCancelled then state.closeCeremony key action.ceremonyID
        else state

def FoldState.applyReleaseCeremonyEvent (codec : Codec) (state : FoldState) (event : Event) :
    Except Bytes FoldState :=
  if event.type = caCeremonyStarted then state.startCeremony codec event
  else if event.type = caCeremonyApproved ∨ event.type = caCeremonyCancelled then
    state.actOnCeremony codec event
  else .ok state

def ledgerPosition (event : Event) (position : Nat) : Nat :=
  if event.sequence ≠ 0 then event.sequence else position

/-- The loop of `Fold` over the registrations of a CA event. -/
def FoldState.registerAll (codec : Codec) (event : Event) (position : Nat) :
    List DependencyRegisteredV1 → FoldState → Except Bytes FoldState
  | [], state => .ok state
  | registered :: rest, state => do
      let key : ProjectionKey := ⟨registered.tenantID, registered.keyID⟩
      let builder := state.builderFor key
      let builder := { builder with state := builder.state.register registered.dependent }
      let builder ← builder.rememberManagedLeaf codec event registered.dependent
      let builder :=
        { builder with state := builder.state.advance (ledgerPosition event position) }
      FoldState.registerAll codec event position rest (state.setBuilder key builder)

def FoldState.rememberRevocations (codec : Codec) (event : Event) (state : FoldState) :
    Except Bytes FoldState :=
  rememberRevokedManagedLeaves codec event
    (fun keyID certID serial digest state => do
      let key : ProjectionKey := ⟨event.tenantID, keyID⟩
      let builder ← (state.builderFor key).rememberRevocation event certID serial digest
      return state.setBuilder key builder)
    state

/-- The validation of a source-bound release. -/
def KeyBuilder.validateRelease (builder : KeyBuilder) (event : Event) :
    Payload → Except Bytes Unit
  | .releasedV2 release => builder.validateSourceBoundRelease event release
  | .releasedV3 release => builder.validateRevokedSourceBoundRelease event release
  | _ => .ok ()

/-- The ceremony that a source-bound release uses up. -/
def releasedCeremony : Payload → Option Bytes
  | .releasedV2 release => some release.ceremonyID
  | .releasedV3 release => some release.ceremonyID
  | _ => none

/-- The ceremony of a source-bound release is removed. -/
def FoldState.closeReleased (state : FoldState) (key : ProjectionKey) (payload : Payload) :
    FoldState :=
  match releasedCeremony payload with
  | none => state
  | some ceremonyID => state.closeCeremony key ceremonyID

/-- The change of a payload is applied. -/
def FoldState.applyPayload (event : Event) (position : Nat) (payload : Payload)
    (state : FoldState) : Except Bytes FoldState :=
  match payloadChange payload with
  | none => .ok state
  | some change => do
      let builder := state.builderFor change.key
      builder.validateRelease event payload
      let applied := builder.state.apply change.dependent change.operation
      let applied := applied.advance (ledgerPosition event position)
      let state := state.setBuilder change.key { builder with state := applied }
      return state.closeReleased change.key payload

/-- An error of an event, with its place in the sequence. -/
def atEvent {α : Type} (subject : Bytes) (index : Nat) (detail : Bytes) (result : Except Bytes α) :
    Except Bytes α :=
  match result with
  | .ok value => .ok value
  | .error error =>
      .error (bytes "depstate: fold " ++ subject ++ bytes " " ++ decimal index ++ detail ++
        bytes ": " ++ error)

/-- The step of `Fold` on the event at an index. -/
def foldEvent (codec : Codec) (index : Nat) (event : Event) (state : FoldState) :
    Except Bytes FoldState := do
  let typeDetail := bytes " (" ++ event.type ++ bytes ")"
  let state ← atEvent (bytes "ceremony event") index []
    (state.applyReleaseCeremonyEvent codec event)
  let registrations ← atEvent (bytes "CA event") index typeDetail (caRegistrations codec event)
  let state ← atEvent (bytes "CA event") index typeDetail
    (FoldState.registerAll codec event (index + 1) registrations state)
  let state ← atEvent (bytes "revocation event") index [] (state.rememberRevocations codec event)
  let payload ← atEvent (bytes "event") index typeDetail (decode codec event)
  atEvent (bytes "event") index typeDetail (state.applyPayload event (index + 1) payload)

/-- The loop of `Fold`. -/
def foldEvents (codec : Codec) : Nat → List Event → FoldState → Except Bytes FoldState
  | _, [], state => .ok state
  | index, event :: rest, state => do
      let state ← foldEvent codec index event state
      foldEvents codec (index + 1) rest state

/-- The state after the events. -/
def fold (codec : Codec) (events : List Event) : Except Bytes Projection := do
  let state ← foldEvents codec 0 events ⟨[], []⟩
  return state.builders.map fun binding => (binding.1, binding.2.state)

end Trstctl.Decommission.Depstate

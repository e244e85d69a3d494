import Trstctl.Succession.Minter.Journal

/-!
# Minting a successor

`Minter.MintSuccessor` (`internal/succession/minter/minter.go`) on the state of
the signer: the mint journal, the floors the minter holds in memory and the
floors of the floor store.  What the key store, the gates, the signers and the
file system answer during one call is that call's environment.
-/

namespace Trstctl.Succession.Minter

open Go (Bytes bytes Map decimal jsonObject jsonPair jsonString)

/-- The configuration of a minter: which of its optional parts are set. -/
structure Options where
  journal : Bool
  succStore : Bool
  enforceStrength : Bool
  breakGlass : Bool
  delegation : Bool
  policy : Bool
  provenance : Bool
  attestGate : Bool
  requireAuth : Bool
  attestSigner : Bool
  signerID : Bytes
  commitmentV2 : Bool

/-- `crypto.Signer`: a key the signer holds. -/
structure Signer where
  algorithm : Bytes
  publicDER : Bytes
  sign : Bytes → Except Bytes Bytes

/-- The answers of everything outside the minter during one call.  A gate that
is asked at most once in a call is given by its answer. -/
structure Environment where
  load : Option Bytes
  resolve : Bytes → Except Bytes Signer
  verifyBreakGlass : Except Bytes Unit
  checkAndBind : Except Bytes Bytes
  verifyPolicy : Except Bytes Unit
  verifyProvenance : Except Bytes Unit
  verifyAttestation : Except Bytes (Bytes × Bytes)
  verifyAuthorization : Except Bytes Unit
  beginning : Publication
  generateSuccessorKey : Except Bytes Signer
  attestSign : Bytes → Except Bytes Bytes
  reload : Option Bytes
  completion : Publication
  floorWrite : Option Bytes
  now : Int

/-- What the signer holds between calls. -/
structure State where
  disk : Disk
  floor : Map UInt64
  floors : Map UInt64

/-- The errors of the minter. -/
inductive MintError where
  | epochNotCurrent
  | strengthDowngrade
  | delegation (cause : Option Bytes)
  | policyRequired
  | policyInvalid (cause : Option Bytes)
  | attestation (cause : Bytes)
  | authorizationRequired
  | authorizationInvalid
  | refusal (artifact : RefusalArtifact) (sentinel : MintError)
  | boundToDifferentRequest
  | decodeCompleted
  | completedBindingMismatch
  | completedSignatureInvalid (cause : VerifyError)
  | predecessorHandle (cause : Bytes)
  | keygen (cause : Bytes)
  | commitment (cause : CommitError)
  | predecessorSign (cause : Bytes)
  | successorSign (cause : Bytes)
  | signerAttestation (cause : AttestError)
  | journal (cause : JournalError)
  | persistCompleted (cause : JournalError)
  | floorPersist (cause : Bytes)

/-- A computation of the minter. -/
abbrev Mint (α : Type) := Program State MintError α

def requestParamsDigest (crypto : Crypto) (request : MintRequest) : Bytes :=
  crypto.sha256Sum (jsonObject
    [jsonPair "IdentityID" (jsonString request.identityID),
      jsonPair "TenantID" (jsonString request.tenantID),
      jsonPair "DeploymentScope" (jsonString request.deploymentScope),
      jsonPair "AssertedPredecessorEpoch" (decimal request.assertedPredecessorEpoch.toNat),
      jsonPair "TargetAlgorithm" (jsonString request.targetAlgorithm),
      jsonPair "PolicyRef" (jsonString request.policyRef)])

/-- One call: the minter, its environment and the request. -/
structure Call where
  crypto : Crypto
  minter : Options
  environment : Environment
  request : MintRequest

def Call.refuse (call : Call) (constraint : RefusalConstraint) (sentinel : MintError) : MintError :=
  if !call.minter.attestSigner then sentinel
  else
    match signRefusal call.environment.attestSign
        { signerID := call.minter.signerID
          identityID := call.request.identityID
          tenantID := call.request.tenantID
          requestDigest := requestParamsDigest call.crypto call.request
          constraint := constraint
          issuedAt := call.environment.now
          signature := [] } with
    | .error _ => sentinel
    | .ok artifact => .refusal artifact sentinel

/-- The epoch a request asks for. -/
def Call.epoch (call : Call) : UInt64 :=
  call.request.assertedPredecessorEpoch + 1

def Call.floorKey (call : Call) : Bytes :=
  tenantIdentityKey call.crypto call.request.tenantID call.request.identityID

/-- The key of the journal entry, which is also the handle of the successor. -/
def Call.journalKey (call : Call) : Bytes :=
  tenantKeyHandle call.crypto call.request.tenantID call.request.identityID call.epoch

/-- The journal's part of the state. -/
def onDisk {α : Type} (raise : JournalError → MintError)
    (program : Program Disk JournalError α) : Mint α :=
  ExceptT.mk fun state =>
    let outcome := program.outcome state.disk
    (outcome.1.mapError raise, { state with disk := outcome.2 })

/-- `DurableFloorStore.Advance`, which never lowers a floor. -/
def Call.advanceStore (call : Call) : Mint Unit := do
  let stored ← Program.reading fun state => .ok ((state.floors.lookup call.floorKey).getD 0)
  if call.epoch ≤ stored then pure ()
  else
    match call.environment.floorWrite with
    | some error => throw (.floorPersist error)
    | none =>
        Program.update fun state =>
          { state with floors := state.floors.set call.floorKey call.epoch }

/-- The floor advances in the store and then in memory. -/
def Call.advanceFloor (call : Call) : Mint Unit := do
  call.advanceStore
  Program.update fun state =>
    { state with floor := state.floor.set call.floorKey call.epoch }

/-- The completed entry belongs to the request and its record verifies. -/
def Call.checkCompleted (call : Call) (entry : MintJournalEntry) : Except MintError MintResult :=
  match entry.result with
  | none => .error .decodeCompleted
  | some result => do
      let record := decodeRecord result.encodedRecord
      if record.fields.tenantID ≠ call.request.tenantID ∨
          record.fields.identityID ≠ call.request.identityID ∨
          record.fields.epoch ≠ call.epoch ∨
          record.fields.predecessorEpoch ≠ call.request.assertedPredecessorEpoch ∨
          record.fields.deploymentScope ≠ call.request.deploymentScope ∨
          record.fields.policyRef ≠ call.request.policyRef ∨
          record.fields.successorAlg ≠ call.request.targetAlgorithm ∨
          result.epoch ≠ call.epoch ∨
          result.successorAlgorithm ≠ call.request.targetAlgorithm ∨
          result.successorPublicDER ≠ record.fields.successorPub then
        throw .completedBindingMismatch
      (verifyRecord call.crypto record).mapError .completedSignatureInvalid
      return result

/-- The floor advances unless it has already. -/
def Call.catchUpFloor (call : Call) : Mint Unit := do
  let floor ← Program.reading fun state => .ok ((state.floor.lookup call.floorKey).getD 0)
  if floor < call.epoch then call.advanceFloor else pure ()

/-- A request whose mint is completed gets the result of the journal. -/
def Call.replayCompleted (call : Call) (entry : MintJournalEntry) : Mint MintResult := do
  let result ← Program.reading fun _ => call.checkCompleted entry
  call.catchUpFloor
  return result

/-- The verifications before the key of the successor is generated. -/
def Call.passGates (call : Call) (predecessor : Signer) : Except MintError Passed := do
  let environment := call.environment
  let request := call.request
  let mut breakGlassUsed := false
  if call.minter.enforceStrength ∧
      isStrengthDowngrade predecessor.algorithm request.targetAlgorithm then
    if call.minter.breakGlass = false ∨ request.breakGlass = [] then
      throw (call.refuse .strength .strengthDowngrade)
    environment.verifyBreakGlass.mapError fun _ => call.refuse .strength .strengthDowngrade
    breakGlassUsed := true
  let mut delegationPath : Bytes := []
  if request.delegationScope ≠ [] then
    if call.minter.delegation = false then throw (call.refuse .policy (.delegation none))
    delegationPath ← environment.checkAndBind.mapError fun cause =>
      call.refuse .policy (.delegation (some cause))
  if call.minter.policy then
    if request.policyDecision = [] then throw (call.refuse .policy .policyRequired)
    environment.verifyPolicy.mapError fun _ => call.refuse .policy (.policyInvalid none)
  if call.minter.provenance then
    environment.verifyProvenance.mapError fun cause =>
      call.refuse .policy (.policyInvalid (some cause))
  let mut evidence : Bytes × Bytes := ([], [])
  if call.minter.attestGate then
    evidence ← environment.verifyAttestation.mapError fun cause =>
      call.refuse .policy (.attestation cause)
  if call.minter.requireAuth then
    if request.authorization = [] then throw (call.refuse .dualControl .authorizationRequired)
    environment.verifyAuthorization.mapError fun _ =>
      call.refuse .dualControl .authorizationInvalid
  return {
    breakGlassUsed := breakGlassUsed
    delegationPath := delegationPath
    attestDigest := evidence.1
    attestType := evidence.2 }

/-- The key of the successor: on resuming the one that is stored under the
handle, if any. -/
def Call.successorKey (call : Call) (resumed : Bool) : Except MintError Signer :=
  let generated := call.environment.generateSuccessorKey.mapError .keygen
  if call.minter.succStore && resumed then
    match call.environment.resolve call.journalKey with
    | .ok successor => .ok successor
    | .error _ => generated
  else generated

/-- The committed fields of the new record. -/
def Call.commitmentFields (call : Call) (predecessor successor : Signer) (floor : UInt64)
    (passed : Passed) : CommitmentFields :=
  let request := call.request
  let bound := call.minter.commitmentV2
  { deploymentScope := request.deploymentScope
    identityID := request.identityID
    tenantID := request.tenantID
    predecessorEpoch := floor
    epoch := call.epoch
    predecessorAlg := predecessor.algorithm
    predecessorPub := predecessor.publicDER
    successorAlg := successor.algorithm
    successorPub := successor.publicDER
    policyRef := request.policyRef
    hashAlg := hashAlgSHA256
    notBefore := request.notBefore
    notAfter := request.notAfter
    commitmentVersion := if bound then 2 else 0
    recordType := recOrdinary
    authzDigest := if bound then authzDigest call.crypto request.authorization else []
    attestationEvidenceDigest := if bound then passed.attestDigest else []
    attestationType := if bound then passed.attestType else []
    delegationPath := if bound then passed.delegationPath else [] }

/-- The countersignature of a minter with an attestation key. -/
def Call.countersign (call : Call)
    (record : SuccessionRecord) : Except MintError SuccessionRecord :=
  if call.minter.attestSigner then
    match attest call.crypto call.environment.attestSign call.minter.signerID record with
    | .error cause => .error (.signerAttestation cause)
    | .ok attestation => .ok { record with signerAttestation := attestation }
  else .ok record

def Call.signRecord (call : Call) (predecessor : Signer) (floor : UInt64) (resumed : Bool)
    (passed : Passed) : Except MintError MintResult := do
  let successor ← call.successorKey resumed
  if successor.algorithm ≠ call.request.targetAlgorithm then
    throw (.keygen (bytes "resumed key algorithm mismatch"))
  let fields := call.commitmentFields predecessor successor floor passed
  let commitment ← (commit call.crypto fields).mapError .commitment
  let predecessorSignature ← (predecessor.sign commitment).mapError .predecessorSign
  let successorSignature ← (successor.sign commitment).mapError .successorSign
  let unattested : SuccessionRecord :=
    { fields := fields
      predecessorAtt := predecessorSignature
      possession :=
        { kind := .successorSignature, signature := successorSignature, transcript := [] }
      signerAttestation := []
      inclusionProof := []
      authzDigest := authzDigest call.crypto call.request.authorization
      breakGlassAuth := if passed.breakGlassUsed then call.request.breakGlass else []
      recordType := recOrdinary
      attestationEvidenceDigest := passed.attestDigest
      attestationType := passed.attestType }
  let record ← call.countersign unattested
  return {
    epoch := call.epoch
    successorAlgorithm := successor.algorithm
    successorPublicDER := successor.publicDER
    encodedRecord := encodeRecord record }

/-- The predecessor, when its epoch is the recorded floor. -/
def Call.currentPredecessor (call : Call) (state : State) : Except MintError Signer := do
  let predecessor ←
    (call.environment.resolve call.request.predecessorHandle).mapError .predecessorHandle
  if call.request.assertedPredecessorEpoch ≠ (state.floor.lookup call.floorKey).getD 0 then
    throw (call.refuse .epoch .epochNotCurrent)
  return predecessor

/-- The journal's intent of a mint that starts now. -/
def Call.sealIntent (call : Call) (passed : Passed) : Mint Unit :=
  if call.minter.journal then
    onDisk .journal (beginMint call.crypto call.environment.beginning call.journalKey
      (mintRequestHash call.crypto call.request) passed)
  else pure ()

/-- The journal's result of a mint. -/
def Call.sealResult (call : Call) (passed : Passed) (result : MintResult) : Mint Unit :=
  if call.minter.journal then
    onDisk .persistCompleted (completeMint call.crypto call.environment.reload
      call.environment.completion call.journalKey (mintRequestHash call.crypto call.request)
      passed result)
  else pure ()

/-- What the gates found: now, or when the intent that is `resumed` was
sealed. -/
def Call.authorize (call : Call) (predecessor : Signer) :
    Option Passed → Mint Passed
  | some passed => pure passed
  | none => do
      let passed ← Program.reading fun _ => call.passGates predecessor
      call.sealIntent passed
      return passed

/-- Mints the next epoch, for a new intent or for the one that is `resumed`. -/
def Call.mintNext (call : Call) (resumed : Option Passed) : Mint MintResult := do
  let predecessor ← Program.reading call.currentPredecessor
  let passed ← call.authorize predecessor resumed
  -- The floor is the asserted epoch, as the check of the predecessor says.
  let result ← Program.reading fun _ =>
    call.signRecord predecessor call.request.assertedPredecessorEpoch resumed.isSome passed
  call.sealResult passed result
  call.advanceFloor
  return result

/-- The journal's entry for the epoch, which must be of the same request. -/
def Call.lookup (call : Call) (state : State) : Except MintError (Option MintJournalEntry) :=
  if call.minter.journal then do
    let found ← (state.disk.load call.crypto call.environment.load call.journalKey).mapError
      .journal
    match found with
    | none => return none
    | some entry =>
        if entry.requestHash ≠ mintRequestHash call.crypto call.request then
          throw .boundToDifferentRequest
        return some entry
  else .ok none

/-- Replays, resumes or starts the mint. -/
def Call.proceed (call : Call) : Option MintJournalEntry → Mint MintResult
  | none => call.mintNext none
  | some entry =>
      if entry.state = .completed then call.replayCompleted entry
      else call.mintNext (some entry.passed)

def Call.mintSuccessor (call : Call) : Mint MintResult := do
  if call.request.assertedPredecessorEpoch = UInt64.ofNat (2 ^ 64 - 1) then
    throw (call.refuse .epoch .epochNotCurrent)
  let found ← Program.reading call.lookup
  call.proceed found

end Trstctl.Succession.Minter

import Trstctl.Go.Encoding

/-!
# Destruction of keys in hardware modules

`HSMCustodyBoundary` of `internal/decommission/gate/destroy.go` with the classes
of `attestclass.go`.  A destruction asks the module for an attestation, appends
a record of it to the evidence sink and only then marks the key as terminal.
What the module and the sink answer is part of a call.
-/

namespace Trstctl.Decommission.Gate

open Go (Bytes bytes trimSpace decimal jsonPair jsonObject jsonString jsonBytes jsonOptional)

/-- `AttestationClass`, an integer. -/
abbrev AttestationClass := Int

/-- `AttestationClass.ID`. -/
def attestationClassID (attestationClass : AttestationClass) : Bytes :=
  if attestationClass = 1 then bytes "software-zeroize"
  else if attestationClass = 2 then bytes "module"
  else if attestationClass = 3 then bytes "certified-hardware"
  else bytes "none"

structure HSMDestroyRequest where
  tenantID : Bytes
  stableKeyID : Bytes
  moduleKeyID : Bytes
  finalEpoch : UInt64

structure HSMDestroyAttestation where
  version : Int
  moduleID : Bytes
  keyID : Bytes
  finalEpoch : UInt64
  attestationClass : AttestationClass
  attestationClassID : Bytes
  statement : Bytes
  signature : Bytes
  issuedAtUnix : Int

/-- An error that wraps `ErrInvalidDestroyEvidence`. -/
def invalidDestroyEvidence (detail : Bytes) : Bytes :=
  bytes "custody destroy: invalid evidence: " ++ detail

/-- An error that wraps `ErrTerminalEpochReached`. -/
def terminalEpochReached (detail : Bytes) : Bytes :=
  bytes "custody destroy: terminal epoch reached: " ++ detail

def normalizeAttestation (attestation : HSMDestroyAttestation) : HSMDestroyAttestation :=
  { attestation with
    version := if attestation.version = 0 then 1 else attestation.version
    attestationClassID :=
      if attestation.attestationClassID = [] then attestationClassID attestation.attestationClass
      else attestation.attestationClassID }

def validateAttestation (request : HSMDestroyRequest) (attestation : HSMDestroyAttestation) :
    Except Bytes Unit :=
  if trimSpace attestation.moduleID = [] then
    .error (invalidDestroyEvidence (bytes "module id is required"))
  else if trimSpace attestation.keyID ≠ trimSpace request.moduleKeyID then
    .error (invalidDestroyEvidence (bytes "attestation key id mismatch"))
  else if attestation.finalEpoch ≠ request.finalEpoch then
    .error (invalidDestroyEvidence (bytes "attestation final epoch mismatch"))
  else if attestation.attestationClass ≤ 0 ∨ trimSpace attestation.attestationClassID = [] then
    .error (invalidDestroyEvidence (bytes "attestation class is required"))
  else if attestation.attestationClassID ≠ attestationClassID attestation.attestationClass then
    .error (invalidDestroyEvidence (bytes "attestation class id mismatch"))
  else if attestation.statement = [] ∧ attestation.signature = [] then
    .error (invalidDestroyEvidence (bytes "attestation statement or signature is required"))
  else .ok ()

def validateDestroyTarget (tenantID stableKeyID : Bytes) (epoch : UInt64) : Except Bytes Unit :=
  if trimSpace tenantID = [] ∨ trimSpace stableKeyID = [] ∨ epoch = 0 then
    .error (invalidDestroyEvidence (bytes "tenant, stable key id, and epoch are required"))
  else .ok ()

structure TerminalEpochState where
  tenantID : Bytes
  stableKeyID : Bytes
  moduleID : Bytes
  moduleKeyID : Bytes
  finalEpoch : UInt64
  attestationClassID : Bytes
  destroyedAtUnix : Int

/-- `json.Marshal` of an attestation. -/
def HSMDestroyAttestation.json (attestation : HSMDestroyAttestation) : Bytes :=
  jsonObject ([jsonPair "version" (decimal attestation.version),
      jsonPair "module_id" (jsonString attestation.moduleID),
      jsonPair "key_id" (jsonString attestation.keyID),
      jsonPair "final_epoch" (decimal attestation.finalEpoch.toNat),
      jsonPair "attestation_class" (decimal attestation.attestationClass),
      jsonPair "attestation_class_id" (jsonString attestation.attestationClassID)] ++
    jsonOptional (!attestation.statement.isEmpty)
      (jsonPair "statement" (jsonBytes attestation.statement)) ++
    jsonOptional (!attestation.signature.isEmpty)
      (jsonPair "signature" (jsonBytes attestation.signature)) ++
    [jsonPair "issued_at_unix" (decimal attestation.issuedAtUnix)])

/-- `json.Marshal` of a terminal state. -/
def TerminalEpochState.json (state : TerminalEpochState) : Bytes :=
  jsonObject [jsonPair "tenant_id" (jsonString state.tenantID),
    jsonPair "stable_key_id" (jsonString state.stableKeyID),
    jsonPair "module_id" (jsonString state.moduleID),
    jsonPair "module_key_id" (jsonString state.moduleKeyID),
    jsonPair "final_epoch" (decimal state.finalEpoch.toNat),
    jsonPair "attestation_class_id" (jsonString state.attestationClassID),
    jsonPair "destroyed_at_unix" (decimal state.destroyedAtUnix)]

/-- `json.Marshal` of an `HSMDestroyRecord`, which repeats fields of its state. -/
def hsmDestroyRecordJSON (state : TerminalEpochState) (attestation : HSMDestroyAttestation)
    (enforcerID : Bytes) : Bytes :=
  jsonObject [jsonPair "version" (decimal 1),
    jsonPair "tenant_id" (jsonString state.tenantID),
    jsonPair "stable_key_id" (jsonString state.stableKeyID),
    jsonPair "module_key_id" (jsonString state.moduleKeyID),
    jsonPair "final_epoch" (decimal state.finalEpoch.toNat),
    jsonPair "attestation" attestation.json,
    jsonPair "terminal_state" state.json,
    jsonPair "recorded_at_unix" (decimal state.destroyedAtUnix),
    jsonPair "enforcement_id" (jsonString enforcerID)]

structure DestructionEvidence where
  kind : Bytes
  tenantID : Bytes
  stableKeyID : Bytes
  finalEpoch : UInt64
  attestationClass : AttestationClass
  attestationClassID : Bytes
  record : Bytes
  digest : Bytes

/-- The parts of a boundary that do not change: its identity and the hash. -/
structure CustodyConfig where
  enforcerID : Bytes
  sha256Sum : Bytes → Bytes

def evidenceDigest (config : CustodyConfig) (kind record : Bytes) : Bytes :=
  config.sha256Sum (jsonObject [
    jsonPair "domain" (jsonString (bytes "trstctl/vdec/custody-destroy/evidence/v1")),
    jsonPair "kind" (jsonString kind),
    jsonPair "record" (jsonBytes record)])

/-- `HSMCustodyBoundary`, without what does not change. -/
structure HSMCustodyBoundary where
  terminal : Go.Map TerminalEpochState
  destroyed : Go.Map DestructionEvidence

/-- The boundary of `NewHSMCustodyBoundary`. -/
def newHSMCustodyBoundary : HSMCustodyBoundary :=
  ⟨[], []⟩

def terminalKey (tenantID stableKeyID : Bytes) : Bytes :=
  trimSpace tenantID ++ [0] ++ trimSpace stableKeyID

def destroyKey (tenantID stableKeyID : Bytes) (epoch : UInt64) : Bytes :=
  trimSpace tenantID ++ [0] ++ trimSpace stableKeyID ++ [0] ++ decimal epoch.toNat

/-- A call of `Destroy`: the context, the request, the time, and the answers of
the module and of the sink. -/
structure DestroyCall where
  contextError : Option Bytes
  request : HSMDestroyRequest
  attestation : Except Bytes HSMDestroyAttestation
  now : Int
  appended : Except Bytes Unit

/-- The error of the context. -/
def checkContext : Option Bytes → Except Bytes Unit
  | none => .ok ()
  | some error => .error error

/-- The comparison of a final epoch with the recorded terminal state. -/
def checkTerminal (epoch : UInt64) : Option TerminalEpochState → Except Bytes Unit
  | none => .ok ()
  | some state =>
      if epoch ≤ state.finalEpoch then
        .error (terminalEpochReached (bytes "final epoch " ++ decimal epoch.toNat ++
          bytes " <= recorded terminal epoch " ++ decimal state.finalEpoch.toNat))
      else .ok ()

/-- `Destroy` up to the call of the module: an error, evidence of an earlier
call, or neither. -/
def HSMCustodyBoundary.beforeModule (boundary : HSMCustodyBoundary) (call : DestroyCall) :
    Except Bytes (Option DestructionEvidence) := do
  let request := call.request
  checkContext call.contextError
  validateDestroyTarget request.tenantID request.stableKeyID request.finalEpoch
  if trimSpace request.moduleKeyID = [] then
    throw (invalidDestroyEvidence (bytes "module key id is required"))
  match boundary.destroyed.lookup
      (destroyKey request.tenantID request.stableKeyID request.finalEpoch) with
  | some existing => return some existing
  | none => do
      checkTerminal request.finalEpoch
        (boundary.terminal.lookup (terminalKey request.tenantID request.stableKeyID))
      return none

/-- The attestation of the module, if it is valid for the request. -/
def DestroyCall.attest (call : DestroyCall) : Except Bytes HSMDestroyAttestation := do
  let attestation ← call.attestation.mapError (bytes "custody destroy: HSM destroy: " ++ ·)
  validateAttestation call.request (normalizeAttestation attestation)
  return normalizeAttestation attestation

def DestroyCall.terminalState (call : DestroyCall) (attestation : HSMDestroyAttestation) :
    TerminalEpochState where
  tenantID := trimSpace call.request.tenantID
  stableKeyID := trimSpace call.request.stableKeyID
  moduleID := trimSpace attestation.moduleID
  moduleKeyID := trimSpace call.request.moduleKeyID
  finalEpoch := call.request.finalEpoch
  attestationClassID := attestation.attestationClassID
  destroyedAtUnix := call.now

/-- `newDestructionEvidence` for the record of a call. -/
def DestroyCall.evidence (config : CustodyConfig) (call : DestroyCall)
    (attestation : HSMDestroyAttestation) : DestructionEvidence :=
  let state := call.terminalState attestation
  let raw := hsmDestroyRecordJSON state attestation config.enforcerID
  { kind := bytes "custody_destroy.hsm_destroyed"
    tenantID := state.tenantID
    stableKeyID := state.stableKeyID
    finalEpoch := state.finalEpoch
    attestationClass := attestation.attestationClass
    attestationClassID := attestationClassID attestation.attestationClass
    record := raw
    digest := evidenceDigest config (bytes "custody_destroy.hsm_destroyed") raw }

/-- `HSMCustodyBoundary.Destroy`: what it returns, and the boundary after it. -/
def HSMCustodyBoundary.destroy (config : CustodyConfig) (boundary : HSMCustodyBoundary)
    (call : DestroyCall) : Except Bytes DestructionEvidence × HSMCustodyBoundary :=
  match boundary.beforeModule call with
  | .error error => (.error error, boundary)
  | .ok (some existing) => (.ok existing, boundary)
  | .ok none =>
      match call.attest with
      | .error error => (.error error, boundary)
      | .ok attestation =>
          match call.appended with
          | .error error =>
              (.error (bytes "custody destroy: append HSM destroy record: " ++ error), boundary)
          | .ok () =>
              let request := call.request
              let evidence := call.evidence config attestation
              (.ok evidence,
                { terminal := boundary.terminal.set
                    (terminalKey request.tenantID request.stableKeyID)
                    (call.terminalState attestation)
                  destroyed := boundary.destroyed.set
                    (destroyKey request.tenantID request.stableKeyID request.finalEpoch)
                    evidence })

structure CustodyOperationRequest where
  tenantID : Bytes
  stableKeyID : Bytes
  epoch : UInt64
  operation : Bytes

def HSMCustodyBoundary.authorizeOperation (boundary : HSMCustodyBoundary)
    (request : CustodyOperationRequest) : Except Bytes Unit := do
  validateDestroyTarget request.tenantID request.stableKeyID request.epoch
  match boundary.terminal.lookup (terminalKey request.tenantID request.stableKeyID) with
  | none => pure ()
  | some state =>
      if request.epoch ≤ state.finalEpoch then
        let operation := trimSpace request.operation
        throw (terminalEpochReached (
          (if operation = [] then bytes "key operation" else operation) ++ bytes " for " ++
            request.stableKeyID ++ bytes " epoch " ++ decimal request.epoch.toNat ++
            bytes " <= terminal epoch " ++ decimal state.finalEpoch.toNat))
      else pure ()

end Trstctl.Decommission.Gate

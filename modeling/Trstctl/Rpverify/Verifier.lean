import Trstctl.Succession.Exceptional
import Trstctl.Succession.Recovery
import Trstctl.Translog.Merkle

/-!
# The relying-party verifier

`Verify` (`internal/rpverify/verifier.go`): the genesis record, the chain, the
tenant, the strength of each successor and, where it is required, the inclusion
of each record in the transparency log.  The result is the posture at the head
of the chain.
-/

namespace Trstctl.Rpverify

open Go (Bytes bytes)
open Succession (GenesisRecord SuccessionRecord Posture ChainError CommitError verifyGenesis
  verifyChain verifyChain_eq_ok verifyRecord_eq_ok isStrengthDowngrade Authentic Linked
  headPosture headPosture_cons Tombstone recRevocation revoked revoked_prefix_iff commit classOf)
open Succession.Recovery (RecoveryRecord RecoveryError)

structure BreakGlassEnvelope where
  payload : Bytes
  sig : Bytes

/-- `breakGlassToken`, as far as it is compared. -/
structure BreakGlassToken where
  identityID : Bytes
  tenantID : Bytes
  deploymentScope : Bytes
  assertedPredecessorEpoch : UInt64
  targetAlgorithm : Bytes

/-- The functions outside the verifier: package `crypto`, whose `VerifyMessage`
takes a public key, a message and a signature, and `json.Unmarshal` for the two
parts of a break-glass authorization. -/
structure Primitives where
  crypto : Succession.Crypto
  verifyMessage : Bytes → Bytes → Bytes → Bool
  unmarshalEnvelope : Bytes → Option BreakGlassEnvelope
  unmarshalToken : Bytes → Option BreakGlassToken

/-- `EpochStore`, over the states of the store. -/
structure EpochStore (σ : Type) where
  lastAccepted : σ → Bytes → Except Bytes (Option UInt64)
  setLastAccepted : σ → Bytes → UInt64 → Except Bytes σ

structure InclusionEvidence where
  sth : Translog.STH
  proof : List Bytes
  index : Int

/-- `Options`.  The time is in nanoseconds of the Unix epoch. -/
structure Options where
  expectedTenant : Bytes
  requireInclusion : Bool
  sthVerifyKeyDER : Bytes
  preCRQCBefore : Int
  breakGlassAuthorityDER : Bytes

/-- What a relying party verifies. -/
structure Input where
  trustRootPubDER : Bytes
  genesis : GenesisRecord
  chain : List SuccessionRecord
  inclusion : List InclusionEvidence

/-- Why a presentation is not accepted. -/
inductive Rejection where
  | chain (error : ChainError)
  | genesisTenant (tenantID : Bytes)
  | wrongTenant (index : Nat) (tenantID : Bytes)
  | store (text : Bytes)
  | inclusionRequired
  | strengthRefusal (index : Nat)
  | commitment (error : CommitError)
  | inclusionInvalid
  | preCRQC (timestamp before : Int)
deriving DecidableEq

/-- The classical algorithms, whose records need an early log timestamp. -/
def classical : List Bytes :=
  [bytes "RSA-2048", bytes "RSA-3072", bytes "RSA-4096", bytes "ECDSA-P256", bytes "ECDSA-P384",
    bytes "ECDSA-P521", bytes "Ed25519"]

def verifyBreakGlass (primitives : Primitives) (record : SuccessionRecord)
    (authorityDER : Bytes) : Bool :=
  if authorityDER.isEmpty ∨ record.breakGlassAuth.isEmpty then false
  else
    match primitives.unmarshalEnvelope record.breakGlassAuth with
    | none => false
    | some envelope =>
        primitives.verifyMessage authorityDER envelope.payload envelope.sig &&
          match primitives.unmarshalToken envelope.payload with
          | none => false
          | some token =>
              token.identityID == record.fields.identityID &&
                token.tenantID == record.fields.tenantID &&
                token.deploymentScope == record.fields.deploymentScope &&
                token.assertedPredecessorEpoch == record.fields.predecessorEpoch &&
                token.targetAlgorithm == record.fields.successorAlg

def verifyInclusion (primitives : Primitives) (record : SuccessionRecord)
    (evidence : InclusionEvidence)
    (options : Options) : Except Rejection Unit := do
  let leaf ← (commit primitives.crypto record.fields).mapError .commitment
  if options.sthVerifyKeyDER.isEmpty then throw .inclusionInvalid
  if !Translog.verifySTH primitives.verifyMessage options.sthVerifyKeyDER evidence.sth then
    throw .inclusionInvalid
  if !Translog.verifyInclusion primitives.crypto.sha256Sum leaf evidence.index
      evidence.sth.treeSize evidence.proof evidence.sth.rootHash then
    throw .inclusionInvalid
  if options.preCRQCBefore > 0 ∧ record.fields.predecessorAlg ∈ classical ∧
      evidence.sth.timestamp ≥ options.preCRQCBefore then
    throw (.preCRQC evidence.sth.timestamp options.preCRQCBefore)

/-- The policy for one record, with the evidence at its position. -/
def checkRecord (primitives : Primitives) (options : Options) (index : Nat)
    (record : SuccessionRecord)
    (evidence : Option InclusionEvidence) : Except Rejection Unit := do
  if options.expectedTenant ≠ [] ∧ record.fields.tenantID ≠ options.expectedTenant then
    throw (.wrongTenant index record.fields.tenantID)
  if isStrengthDowngrade record.fields.predecessorAlg record.fields.successorAlg ∧
      !verifyBreakGlass primitives record options.breakGlassAuthorityDER then
    throw (.strengthRefusal index)
  if options.requireInclusion then
    match evidence with
    -- Not reached: the evidence is as long as the chain.
    | none => throw .inclusionRequired
    | some evidence => verifyInclusion primitives record evidence options

/-- The loop over the records. -/
def checkRecords (primitives : Primitives) (options : Options) :
    Nat → List SuccessionRecord → List InclusionEvidence → Except Rejection Unit
  | _, [], _ => .ok ()
  | index, record :: rest, inclusion => do
      checkRecord primitives options index record inclusion.head?
      checkRecords primitives options (index + 1) rest inclusion.tail

/-- The checks before the store is asked. -/
def checkGenesis (primitives : Primitives) (input : Input)
    (options : Options) : Except Rejection Unit := do
  (verifyGenesis primitives.crypto primitives.verifyMessage input.trustRootPubDER
    input.genesis).mapError .chain
  if options.expectedTenant ≠ [] ∧ input.genesis.tenantID ≠ options.expectedTenant then
    throw (.genesisTenant input.genesis.tenantID)

/-- The checks against the epoch that was accepted last, and the posture they
select. -/
def selectPosture (primitives : Primitives) (input : Input) (options : Options)
    (last : UInt64) : Except Rejection Posture := do
  (verifyChain primitives.crypto input.genesis input.chain last).mapError .chain
  if options.requireInclusion ∧ input.inclusion.length ≠ input.chain.length then
    throw .inclusionRequired
  checkRecords primitives options 0 input.chain input.inclusion
  return headPosture input.genesis.posture input.chain

/-- The epoch a store has for the identity, 0 for none and without a store. -/
def readLast {σ : Type} (store : Option (EpochStore σ)) (state : σ)
    (identity : Bytes) : Except Rejection UInt64 :=
  match store with
  | none => .ok 0
  | some store =>
      (store.lastAccepted state identity).mapError .store |>.map fun last => last.getD 0

/-- The store after the epoch was accepted. -/
def writeLast {σ : Type} (store : Option (EpochStore σ)) (state : σ) (identity : Bytes)
    (epoch : UInt64) : Except Rejection σ :=
  match store with
  | none => .ok state
  | some store => (store.setLastAccepted state identity epoch).mapError .store

/-- `Verify`, with the state of the store before and after. -/
def verify {σ : Type} (primitives : Primitives) (input : Input) (store : Option (EpochStore σ))
    (options : Options)
    (state : σ) : Except Rejection (Posture × σ) := do
  checkGenesis primitives input options
  let last ← readLast store state input.genesis.identityID
  let result ← selectPosture primitives input options last
  let state ← writeLast store state input.genesis.identityID result.epoch
  return (result, state)

/-- The policy for the records of an accepted chain. -/
structure Passes (primitives : Primitives) (options : Options)
    (record : SuccessionRecord) : Prop where
  tenant : options.expectedTenant ≠ [] → record.fields.tenantID = options.expectedTenant
  strength : isStrengthDowngrade record.fields.predecessorAlg record.fields.successorAlg = true →
    verifyBreakGlass primitives record options.breakGlassAuthorityDER = true

variable {primitives : Primitives} {options : Options}

theorem checkRecord_passes {index : Nat}
    {record : SuccessionRecord} {evidence : Option InclusionEvidence}
    (checked : checkRecord primitives options index record evidence = .ok ()) :
    Passes primitives options record := by
  simp only [checkRecord, Result.guard_eq_ok] at checked
  obtain ⟨tenant, strength, -⟩ := checked
  refine ⟨fun expected => ?_, fun downgrade => ?_⟩
  · by_contra other
    exact tenant ⟨expected, other⟩
  · by_contra refused
    exact strength ⟨downgrade, by simpa using refused⟩

theorem checkRecords_passes {index : Nat}
    {chain : List SuccessionRecord} {inclusion : List InclusionEvidence}
    (checked : checkRecords primitives options index chain inclusion = .ok ()) :
    ∀ record ∈ chain, Passes primitives options record := by
  induction chain generalizing index inclusion with
  | nil =>
      intro record member
      cases member
  | cons first rest ih =>
      rw [checkRecords, Result.bind_eq_ok] at checked
      obtain ⟨⟨⟩, first_checked, rest_checked⟩ := checked
      exact List.forall_mem_cons.mpr
        ⟨checkRecord_passes first_checked, ih rest_checked⟩

/-- What a relying party knows of a posture it accepted. -/
structure Accepted (primitives : Primitives) (input : Input) (options : Options)
    (posture : Posture) : Prop where
  authentic : ∃ last, Authentic primitives.crypto input.genesis input.chain last
  passes : ∀ record ∈ input.chain, Passes primitives options record
  head : posture = headPosture input.genesis.posture input.chain

theorem accepted_of_verify {σ : Type} {input : Input} {store : Option (EpochStore σ)}
    {state state' : σ} {posture : Posture}
    (verified : verify primitives input store options state = .ok (posture, state')) :
    Accepted primitives input options posture := by
  simp only [verify, selectPosture, Result.bind_eq_ok, Result.mapError_eq_ok,
    Result.guard_eq_ok] at verified
  obtain ⟨⟨⟩, -, last, -, selected, ⟨⟨⟩, verified, -, ⟨⟩, checked, head⟩, written, -, result⟩ :=
    verified
  obtain ⟨rfl, rfl⟩ := Prod.mk.inj (Except.ok.inj result)
  exact ⟨⟨last, verifyChain_eq_ok.mp verified⟩, checkRecords_passes checked,
    (Except.ok.inj head).symm⟩

/-!
## The relying party's policy for recovery records

`VerifyRecovery` (`internal/rpverify/recovery.go`).  The decoder of encoded
inclusion proofs is a parameter, and so is the answer of the hook that confirms
a recovery out of band.
-/

/-- `RecoveryOptions`, without the store.  The hook is the error it returns. -/
structure RecoveryOptions where
  trustRootPubDER : Bytes
  minThreshold : Int
  sthVerifyKeyDER : Bytes
  confirmOutOfBand : Option (Except Bytes Unit)

/-- Why a recovery record is not accepted. -/
inductive RecoveryRejection where
  | record (error : RecoveryError)
  | thresholdTooLow (threshold minimum : Int)
  | inclusionRequired
  | commitment (error : CommitError)
  | inclusion (error : Translog.ProofError)
  | store (text : Bytes)
  | staleEpoch (epoch last : UInt64)
  | outOfBand (text : Bytes)

def verifyEncodedInclusion (primitives : Primitives) (decodeProof : Bytes → Option Translog.Proof)
    (leaf proofBytes sthVerifyKeyDER : Bytes) : Except Translog.ProofError Unit :=
  match decodeProof proofBytes with
  | none => .error .malformed
  | some proof =>
      Translog.verifyLeafInclusion primitives.crypto.sha256Sum primitives.verifyMessage leaf proof
        sthVerifyKeyDER

/-- The checks before the store is asked. -/
def checkRecovery (primitives : Primitives) (decodeProof : Bytes → Option Translog.Proof)
    (record : RecoveryRecord)
    (options : RecoveryOptions) : Except RecoveryRejection Unit := do
  (Succession.Recovery.verifyRecord primitives.crypto primitives.verifyMessage record
    options.trustRootPubDER).mapError .record
  if options.minThreshold > 0 ∧ record.authorization.threshold < options.minThreshold then
    throw (.thresholdTooLow record.authorization.threshold options.minThreshold)
  if record.inclusionProof = [] then throw .inclusionRequired
  let leaf ← (commit primitives.crypto record.fields).mapError .commitment
  (verifyEncodedInclusion primitives decodeProof leaf record.inclusionProof
    options.sthVerifyKeyDER).mapError .inclusion

/-- The check against the epoch that was accepted last. -/
def checkRecoveryEpoch (record : RecoveryRecord) (last : Option UInt64) :
    Except RecoveryRejection Unit :=
  match last with
  | none => .ok ()
  | some last =>
      if record.fields.epoch ≤ last then .error (.staleEpoch record.fields.epoch last) else .ok ()

/-- The hook that confirms the recovery, where there is one. -/
def confirm (options : RecoveryOptions) : Except RecoveryRejection Unit :=
  match options.confirmOutOfBand with
  | none => .ok ()
  | some answer => answer.mapError .outOfBand

/-- `VerifyRecovery`, with the state of the store before and after. -/
def verifyRecovery {σ : Type} (primitives : Primitives)
    (decodeProof : Bytes → Option Translog.Proof) (record : RecoveryRecord)
    (store : Option (EpochStore σ)) (options : RecoveryOptions)
    (state : σ) : Except RecoveryRejection σ := do
  checkRecovery primitives decodeProof record options
  match store with
  | none =>
      confirm options
      return state
  | some store =>
      let last ← (store.lastAccepted state record.fields.identityID).mapError .store
      checkRecoveryEpoch record last
      confirm options
      (store.setLastAccepted state record.fields.identityID record.fields.epoch).mapError .store

end Trstctl.Rpverify

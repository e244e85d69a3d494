import Trstctl.Go.Hash
import Trstctl.Succession.Minter.Spec

/-!
# No equivocation by the minter

Runs of a minter with a journal: calls with any requests and any environments,
restarts of the process, which sync nothing, and power losses, which bring back
any part of what was not synced.  Both may find any floors.
A record that was returned for a tenant, an identity and an epoch is the only
one as long as every result that is replayed from the journal is durable.  The
minter does not check that: after a sync of the directory has failed, it
replays the result that a power loss may still forget.
-/

namespace Trstctl.Succession.Minter

open Go (Bytes bytes Map)
open Program (Triple)

/-- A record the minter returned. -/
structure Release where
  tenantID : Bytes
  identityID : Bytes
  epoch : UInt64
  record : EncodedRecord

/-- The record a call returned. -/
def Call.release (call : Call) (result : MintResult) : Release :=
  { tenantID := call.request.tenantID
    identityID := call.request.identityID
    epoch := result.epoch
    record := result.encodedRecord }

/-- The signer, and every record it has returned since the journal was
empty. -/
structure World where
  state : State
  released : List Release

/-- An empty journal, and floors. -/
def World.initial (floors : Map UInt64) : World :=
  { state := { disk := { visible := [], unsynced := [] }, floor := floors, floors := floors }
    released := [] }

/-- A call, a restart of the process that finds floors, or a power loss after
which the process finds a directory and floors. -/
inductive Action where
  | mint (environment : Environment) (request : MintRequest)
  | restart (floors : Map UInt64)
  | powerLoss (recovered : Directory) (floors : Map UInt64)

/-- A restart leaves the directory as it is, with the versions that are not
synced.  After a power loss the directory is read from the disk, so it is what
the disk holds. -/
def World.step (crypto : Crypto) (minter : Options) (world : World) : Action → World
  | .mint environment request =>
      let call : Call := ⟨crypto, minter, environment, request⟩
      match call.mintSuccessor.outcome world.state with
      | (.ok result, state) =>
          { state := state, released := call.release result :: world.released }
      | (.error _, state) => { world with state := state }
  | .restart floors =>
      { world with state := { world.state with floor := floors, floors := floors } }
  | .powerLoss recovered floors =>
      { world with
        state :=
          { disk := { visible := recovered, unsynced := [] }, floor := floors, floors := floors } }

/-- After a power loss the process finds what the disk may hold.  Any floors may
be found, so also earlier ones. -/
def Action.Possible (world : World) : Action → Prop
  | .mint _ _ => True
  | .restart _ => True
  | .powerLoss recovered _ => world.state.disk.Recovers recovered

/-- The worlds that possible actions lead to, each of which meets a condition
in the world it starts from. -/
inductive Reachable (crypto : Crypto) (minter : Options)
    (condition : World → Action → Prop) : World → Prop where
  | initial (floors : Map UInt64) :
      Reachable crypto minter condition (World.initial floors)
  | step {world : World} (action : Action) :
      Reachable crypto minter condition world →
      action.Possible world →
      condition world action →
      Reachable crypto minter condition (world.step crypto minter action)

/-- At most one record was returned for each tenant, identity and epoch. -/
def NoEquivocation (released : List Release) : Prop :=
  ∀ first ∈ released, ∀ second ∈ released,
    first.tenantID = second.tenantID → first.identityID = second.identityID →
      first.epoch = second.epoch → first.record.text = second.record.text

/-- A call that finds its mint completed finds it durable: no power loss can
forget it any more. -/
def ReplaysDurable (crypto : Crypto) (minter : Options) (world : World) : Action → Prop
  | .mint environment request =>
      let call : Call := ⟨crypto, minter, environment, request⟩
      ∀ entry, call.lookup world.state = .ok (some entry) → entry.state = .completed →
        world.state.disk.Durable call.fileName
  | .restart _ => True
  | .powerLoss _ _ => True

section

variable {crypto : Crypto}

/-- A file that holds the completed mint of a record. -/
def Completes (file : Option MintJournalEntry) (record : EncodedRecord) : Prop :=
  ∃ entry result, file = some entry ∧ entry.state = .completed ∧
    entry.result = some result ∧ result.encodedRecord = record

/-- Every version of the directory holds the completed mint of the release. -/
def Settled (crypto : Crypto) (disk : Disk) (release : Release) : Prop :=
  ∀ version ∈ disk.versions,
    Completes
      (version.lookup (path crypto (tenantKeyHandle crypto release.tenantID release.identityID
        release.epoch)))
      release.record

/-- Every release is settled. -/
def AllSettled (crypto : Crypto) (released : List Release) (disk : Disk) : Prop :=
  ∀ release ∈ released, Settled crypto disk release

theorem Completes.unique {file : Option MintJournalEntry} {first second : EncodedRecord}
    (firstCompletes : Completes file first) (secondCompletes : Completes file second) :
    first = second := by
  obtain ⟨entry, result, found, -, holds, rfl⟩ := firstCompletes
  obtain ⟨other, otherResult, otherFound, -, otherHolds, rfl⟩ := secondCompletes
  obtain rfl : entry = other := Option.some.inj (found.symm.trans otherFound)
  rw [Option.some.inj (holds.symm.trans otherHolds)]

theorem noEquivocation_of_allSettled {released : List Release} {disk : Disk}
    (settled : AllSettled crypto released disk) :
    NoEquivocation released := by
  intro first firstMember second secondMember sameTenant sameIdentity sameEpoch
  have firstVisible := settled first firstMember disk.visible List.mem_cons_self
  have secondVisible := settled second secondMember disk.visible List.mem_cons_self
  rw [sameTenant, sameIdentity, sameEpoch] at firstVisible
  rw [firstVisible.unique secondVisible]

/-- The entry completes the record. -/
def CompletesRecord (record : EncodedRecord) (entry : MintJournalEntry) : Prop :=
  entry.state = .completed ∧ ∃ result, entry.result = some result ∧ result.encodedRecord = record

theorem settled_iff {disk : Disk} {release : Release} :
    Settled crypto disk release ↔
      disk.Pledges
        (path crypto (tenantKeyHandle crypto release.tenantID release.identityID release.epoch))
        (CompletesRecord release.record) := by
  refine forall₂_congr fun version _ => ?_
  constructor
  · rintro ⟨entry, result, found, completed, held, same⟩
    exact ⟨entry, found, completed, result, held, same⟩
  · rintro ⟨entry, found, completed, result, held, same⟩
    exact ⟨entry, result, found, completed, held, same⟩

variable {released : List Release} {call : Call}

theorem allSettled_eq (crypto : Crypto) (released : List Release) :
    AllSettled crypto released = fun disk => ∀ release ∈ released,
      disk.Pledges
        (path crypto (tenantKeyHandle crypto release.tenantID release.identityID release.epoch))
        (CompletesRecord release.record) := by
  funext disk
  exact propext (forall₂_congr fun _ _ => settled_iff)

theorem Call.keeps_allSettled (call : Call) (released : List Release) :
    call.Keeps (AllSettled call.crypto released) fun _ => True := by
  rw [allSettled_eq]
  exact call.keeps_pledges fun _ _ completes => completes.1

/-- The release of the call is settled. -/
def Call.ReleaseSettled (call : Call) (result : MintResult) (disk : Disk) : Prop :=
  Settled call.crypto disk (call.release result)

/-- All releases are settled, this one too. -/
def Call.Establishes (call : Call) (released : List Release) (result : MintResult)
    (disk : Disk) : Prop :=
  AllSettled call.crypto released disk ∧ Settled call.crypto disk (call.release result)

theorem Call.Minted.settled {fit : Passed → Prop} {result : MintResult} {disk : Disk}
    (minted : call.Minted fit result disk) (journalled : call.minter.journal = true) :
    call.ReleaseSettled result disk := by
  obtain ⟨passed, -, mints, sealed⟩ := minted
  obtain ⟨synced, named⟩ := sealed journalled
  rw [Call.ReleaseSettled, settled_iff, Call.release, mints.epoch]
  exact Disk.pledges_of_synced synced named ⟨rfl, _, rfl, rfl⟩

theorem Call.Replays.settled {result : MintResult} {start : State}
    (replays : call.Replays result start)
    (durable : ∀ entry, call.lookup start = .ok (some entry) → entry.state = .completed →
      start.disk.Durable call.fileName) :
    call.ReleaseSettled result start.disk := by
  obtain ⟨entry, found, completed, checked⟩ := replays
  obtain ⟨held, epoch⟩ := Call.checkCompleted_eq_ok checked
  have visible := (Call.lookup_eq_some found).visible
  rw [Call.ReleaseSettled, settled_iff, Call.release, epoch]
  exact (durable entry found completed).pledges visible ⟨completed, result, held, rfl⟩

theorem Call.mintSuccessor_settles (call : Call) (journalled : call.minter.journal = true)
    (start : State)
    (durable : ∀ entry, call.lookup start = .ok (some entry) → entry.state = .completed →
      start.disk.Durable call.fileName) :
    Triple (fun state => state = start ∧ AllSettled call.crypto released state.disk)
      call.mintSuccessor
      (fun result => DiskMeets (call.Establishes released result))
      (DiskMeets (AllSettled call.crypto released)) := by
  refine (Call.mintSuccessor_spec (call.keeps_allSettled released) start).weaken
    (fun _ holds => holds) ?_
  rintro result state ⟨settled, -, minted | ⟨unchanged, replays⟩⟩
  · exact ⟨settled, minted.settled journalled⟩
  · refine ⟨settled, ?_⟩
    rw [unchanged]
    exact replays.settled durable

theorem World.step_allSettled {minter : Options} {world : World} {action : Action}
    (journalled : minter.journal = true)
    (settled : AllSettled crypto world.released world.state.disk) (possible : action.Possible world)
    (replaysDurable : ReplaysDurable crypto minter world action) :
    AllSettled crypto (world.step crypto minter action).released
      (world.step crypto minter action).state.disk := by
  cases action with
  | restart floors => exact settled
  | powerLoss recovered floors =>
      intro release member
      exact settled_iff.mpr ((settled_iff.mp (settled release member)).recovers possible)
  | mint environment request =>
      have afterwards :=
        Call.mintSuccessor_settles ⟨crypto, minter, environment, request⟩ journalled world.state
          replaysDurable world.state ⟨rfl, settled⟩
      simp only [World.step]
      generalize (Call.mintSuccessor _).outcome world.state = outcome at afterwards ⊢
      obtain ⟨result, state⟩ := outcome
      cases result with
      | error error => exact afterwards
      | ok result =>
          intro release member
          rcases List.mem_cons.mp member with rfl | earlier
          · exact afterwards.2
          · exact afterwards.1 release earlier

end

instance (released : List Release) : Decidable (NoEquivocation released) :=
  inferInstanceAs (Decidable (∀ first ∈ released, ∀ second ∈ released, _ → _ → _ → _))

/-- A checksum of 32 bytes for the hash; a signature is the public key, a nonce
and the message. -/
def sampleCrypto : Crypto where
  sha256Sum text :=
    Hash.digestOf (text.foldl (fun sum byte => (sum * 31 + byte.toNat) % 251) 7)
  verifyAlgorithmMessage _ publicDER message signature :=
    signature.take publicDER.length == publicDER &&
      signature.drop (publicDER.length + 1) == message

/-- A key that signs with a nonce. -/
def sampleSigner (algorithm : String) (publicDER : Bytes) (nonce : UInt8) : Signer where
  algorithm := bytes algorithm
  publicDER := publicDER
  sign message := .ok (publicDER ++ [nonce] ++ message)

def sampleMinter : Options where
  journal := true
  succStore := true
  enforceStrength := true
  breakGlass := false
  delegation := false
  policy := false
  provenance := false
  attestGate := false
  requireAuth := false
  attestSigner := false
  signerID := []
  commitmentV2 := true

/-- Nothing fails but, as given, the publication of the result. -/
def sampleEnvironment (nonce : UInt8) (completion : Publication) : Environment where
  load := none
  resolve handle :=
    if handle = bytes "genesis" then .ok (sampleSigner "ECDSA-P256" [1] nonce)
    else .ok (sampleSigner "ML-DSA-65" [2] nonce)
  verifyBreakGlass := .ok ()
  checkAndBind := .ok []
  verifyPolicy := .ok ()
  verifyProvenance := .ok ()
  verifyAttestation := .ok ([], [])
  verifyAuthorization := .ok ()
  beginning := .synced
  generateSuccessorKey := .ok (sampleSigner "ML-DSA-65" [2] nonce)
  attestSign _ := .error []
  reload := none
  completion := completion
  floorWrite := none
  now := 0

def sampleRequest : MintRequest where
  identityID := bytes "payments"
  tenantID := bytes "acme"
  deploymentScope := bytes "prod"
  predecessorHandle := bytes "genesis"
  assertedPredecessorEpoch := 0
  targetAlgorithm := bytes "ML-DSA-65"
  policyRef := bytes "policy-1"
  policyDecision := []
  authorization := []
  breakGlass := []
  attestation := []
  delegationScope := []
  notBefore := 0
  notAfter := 3600

/-- The result is sealed and returned. -/
def sealedWorld : World :=
  (World.initial []).step sampleCrypto sampleMinter
    (.mint (sampleEnvironment 1 .synced) sampleRequest)

/-- The power is lost after the result was returned, and the process restarts
with the floors of the start. -/
def restartedWorld : World :=
  (sealedWorld.step sampleCrypto sampleMinter
    (.powerLoss sealedWorld.state.disk.visible [])).step sampleCrypto sampleMinter (.restart [])

/-- The result is renamed into place, but the directory is not synced. -/
def unsyncedWorld : World :=
  (World.initial []).step sampleCrypto sampleMinter
    (.mint (sampleEnvironment 1 (.unsynced (bytes "input/output error"))) sampleRequest)

/-- The retry returns the result. -/
def replayedWorld : World :=
  unsyncedWorld.step sampleCrypto sampleMinter
    (.mint (sampleEnvironment 2 .synced) sampleRequest)

/-- The power loss brings back the intent, and the floors are rolled back to
those of the start. -/
def forgottenWorld : World :=
  replayedWorld.step sampleCrypto sampleMinter
    (.powerLoss (unsyncedWorld.state.disk.unsynced.headD []) [])

/-- The intent is resumed. -/
def resumedWorld : World :=
  forgottenWorld.step sampleCrypto sampleMinter
    (.mint (sampleEnvironment 3 .synced) sampleRequest)

/-- The minter does not equivocate in a run in which it replays only results
that no power loss can forget any more: at most one record is ever returned for
a tenant, an identity and an epoch, whatever fails and whatever the floors are
rolled back to. -/
theorem noEquivocation_of_replaysDurable
    (crypto : Crypto)
    (minter : Options)
    (journalled : minter.journal = true)
    (world : World)
    (reachable : Reachable crypto minter (ReplaysDurable crypto minter) world) :
    NoEquivocation world.released := by
  have settled : AllSettled crypto world.released world.state.disk := by
    induction reachable with
    | initial floors => exact fun release member => absurd member List.not_mem_nil
    | step action _ possible replaysDurable ih =>
        exact World.step_allSettled journalled ih possible replaysDurable
  exact noEquivocation_of_allSettled settled

theorem Disk.durable_of_synced {disk : Disk} (synced : disk.unsynced = []) (name : Bytes) :
    disk.Durable name := by
  intro version member
  rw [Disk.versions, synced] at member
  rw [List.mem_singleton.mp member]

/-- The request is answered before and after a power loss and a restart. -/
theorem noEquivocation_of_replaysDurable_restarted :
    let world := restartedWorld.step sampleCrypto sampleMinter
      (.mint (sampleEnvironment 2 .synced) sampleRequest)
    world.released.length = 2 ∧ NoEquivocation world.released := by
  have sealed : Reachable sampleCrypto sampleMinter (ReplaysDurable sampleCrypto sampleMinter)
      sealedWorld :=
    .step _ (.initial []) trivial fun _ _ _ => Disk.durable_of_synced rfl _
  have restarted : Reachable sampleCrypto sampleMinter (ReplaysDurable sampleCrypto sampleMinter)
      restartedWorld :=
    .step _ (.step _ sealed (fun name => ⟨_, List.mem_cons_self, rfl⟩) trivial) trivial trivial
  exact ⟨by decide +kernel, noEquivocation_of_replaysDurable sampleCrypto sampleMinter rfl _
    (.step _ restarted trivial fun _ _ _ => Disk.durable_of_synced rfl _)⟩

/-- Without the condition the minter equivocates. -/
theorem not_noEquivocation_resumedWorld :
    sampleMinter.journal = true ∧
      Reachable sampleCrypto sampleMinter (fun _ _ => True) resumedWorld ∧
      ¬ NoEquivocation resumedWorld.released := by
  have recovers : replayedWorld.state.disk.Recovers
      (unsyncedWorld.state.disk.unsynced.headD []) := by
    have kept : unsyncedWorld.state.disk.unsynced.headD [] ∈
        replayedWorld.state.disk.versions := by
      decide +kernel
    exact fun name => ⟨_, kept, rfl⟩
  have unsynced : Reachable sampleCrypto sampleMinter (fun _ _ => True) unsyncedWorld :=
    .step _ (.initial []) trivial trivial
  have replayed : Reachable sampleCrypto sampleMinter (fun _ _ => True) replayedWorld :=
    .step _ unsynced trivial trivial
  have forgotten : Reachable sampleCrypto sampleMinter (fun _ _ => True) forgottenWorld :=
    .step _ replayed recovers trivial
  exact ⟨rfl, .step _ forgotten trivial trivial, by decide +kernel⟩

end Trstctl.Succession.Minter

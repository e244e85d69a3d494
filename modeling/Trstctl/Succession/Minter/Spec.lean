import Trstctl.Succession.Minter.Mint

/-!
# What a call does to the journal

The specification of `MintSuccessor` for properties of the journal's disk.  A
call may seal its intent under a name that is free, seal a result over its own
intent, and sync the directory.  A property that these keep holds after every
call; a call that returns has sealed what it returns, or has found it completed.
-/

namespace Trstctl.Succession.Minter

open Go (Bytes)
open Result (bind_eq_ok mapError_eq_ok guard_eq_ok)
open Program (Triple triple_throw triple_update triple_reading triple_pure)

def Call.fileName (call : Call) : Bytes :=
  path call.crypto call.journalKey

def Call.intent (call : Call) (passed : Passed) : MintJournalEntry where
  version := mintJournalVersion
  key := call.journalKey
  requestHash := mintRequestHash call.crypto call.request
  state := .executing
  passed := passed
  result := none

def Call.completion (call : Call) (passed : Passed) (result : MintResult) : MintJournalEntry where
  version := mintJournalVersion
  key := call.journalKey
  requestHash := mintRequestHash call.crypto call.request
  state := .completed
  passed := passed
  result := some result

/-- An entry that a call finds under its name and takes for its own. -/
structure Call.Finds (call : Call) (entry : MintJournalEntry) (disk : Disk) : Prop where
  visible : disk.visible.lookup call.fileName = some entry
  version : entry.version = mintJournalVersion
  key : entry.key = call.journalKey
  requestHash : entry.requestHash = mintRequestHash call.crypto call.request

/-- A result a call signs, for what the gates found. -/
def Call.Mints (call : Call) (passed : Passed) (result : MintResult) : Prop :=
  ∃ predecessor resumed,
    call.environment.resolve call.request.predecessorHandle = .ok predecessor ∧
      call.signRecord predecessor call.request.assertedPredecessorEpoch resumed passed = .ok result

/-- A property of the disk that a call keeps.  `fit` is what is known of the
findings of the gates, when they are asked and when they are read back from an
intent. -/
structure Call.Keeps (call : Call) (property : Disk → Prop) (fit : Passed → Prop) : Prop where
  sync : ∀ {disk : Disk}, property disk → property disk.syncDirectory
  gates : ∀ {predecessor passed}, call.passGates predecessor = .ok passed → fit passed
  resumed : ∀ {disk : Disk} {entry}, property disk →
    disk.visible.lookup call.fileName = some entry → fit entry.passed
  intent : ∀ {disk : Disk} {passed}, property disk → fit passed →
    disk.visible.lookup call.fileName = none →
      property (disk.publish call.fileName (call.intent passed).throughJson)
  completion : ∀ {disk : Disk} {passed result prior}, property disk → fit passed →
    call.Mints passed result →
      disk.visible.lookup call.fileName = some prior → prior.state = .executing →
        property (disk.publish call.fileName (call.completion passed result).throughJson)

/-- What a call signed, and sealed if there is a journal. -/
def Call.Minted (call : Call) (fit : Passed → Prop) (result : MintResult) (disk : Disk) : Prop :=
  ∃ passed, fit passed ∧ call.Mints passed result ∧
    (call.minter.journal = true → disk.unsynced = [] ∧
      disk.visible.lookup call.fileName = some (call.completion passed result).throughJson)

/-- What a call finds completed. -/
def Call.Replays (call : Call) (result : MintResult) (start : State) : Prop :=
  ∃ entry, call.lookup start = .ok (some entry) ∧ entry.state = .completed ∧
    call.checkCompleted entry = .ok result

/-- The signatures of a signer verify under its key. -/
def Signer.Honest (crypto : Crypto) (signer : Signer) : Prop :=
  ∀ message signature, signer.sign message = .ok signature →
    signature.isEmpty = false ∧
      crypto.verifyAlgorithmMessage signer.algorithm signer.publicDER message signature = true

/-- Whether a break-glass token authorized a weaker algorithm. -/
def Call.strengthGate (call : Call) (predecessor : Signer) : Except MintError Bool := do
  if call.minter.enforceStrength ∧
      isStrengthDowngrade predecessor.algorithm call.request.targetAlgorithm then
    if call.minter.breakGlass = false ∨ call.request.breakGlass = [] then
      throw (call.refuse .strength .strengthDowngrade)
    call.environment.verifyBreakGlass.mapError fun _ => call.refuse .strength .strengthDowngrade
    return true
  else return false

/-- The delegation path of the request's scope. -/
def Call.delegationGate (call : Call) : Except MintError Bytes := do
  if call.request.delegationScope ≠ [] then
    if call.minter.delegation = false then throw (call.refuse .policy (.delegation none))
    call.environment.checkAndBind.mapError fun cause =>
      call.refuse .policy (.delegation (some cause))
  else return []

/-- The policy decision and its provenance. -/
def Call.policyGate (call : Call) : Except MintError Unit := do
  if call.minter.policy then
    if call.request.policyDecision = [] then throw (call.refuse .policy .policyRequired)
    call.environment.verifyPolicy.mapError fun _ => call.refuse .policy (.policyInvalid none)
  if call.minter.provenance then
    call.environment.verifyProvenance.mapError fun cause =>
      call.refuse .policy (.policyInvalid (some cause))

/-- The digest and the type of the custody evidence. -/
def Call.attestationGate (call : Call) : Except MintError (Bytes × Bytes) :=
  if call.minter.attestGate then
    call.environment.verifyAttestation.mapError fun cause =>
      call.refuse .policy (.attestation cause)
  else .ok ([], [])

/-- The dual-control authorization. -/
def Call.authorizationGate (call : Call) : Except MintError Unit := do
  if call.minter.requireAuth then
    if call.request.authorization = [] then
      throw (call.refuse .dualControl .authorizationRequired)
    call.environment.verifyAuthorization.mapError fun _ =>
      call.refuse .dualControl .authorizationInvalid

theorem Call.passGates_eq (call : Call) (predecessor : Signer) :
    call.passGates predecessor = (do
      let breakGlassUsed ← call.strengthGate predecessor
      let delegationPath ← call.delegationGate
      call.policyGate
      let evidence ← call.attestationGate
      call.authorizationGate
      return {
        breakGlassUsed := breakGlassUsed
        delegationPath := delegationPath
        attestDigest := evidence.1
        attestType := evidence.2 }) := by
  unfold Call.passGates Call.strengthGate Call.delegationGate Call.policyGate Call.attestationGate
    Call.authorizationGate
  simp only [Result.ite_bind, Result.throw_bind, bind_assoc, pure_bind]
  rfl

variable {call : Call}

variable {passed : Passed}

theorem Call.passGates_eq_ok {predecessor : Signer}
    (passes : call.passGates predecessor = .ok passed) :
    (passed.delegationPath = [] ∨ call.environment.checkAndBind = .ok passed.delegationPath) ∧
      (passed.attestType = [] ∨
        call.environment.verifyAttestation = .ok (passed.attestDigest, passed.attestType)) := by
  simp only [Call.passGates_eq, bind_eq_ok] at passes
  obtain ⟨breakGlassUsed, -, delegationPath, delegated,
    ⟨⟩, -, evidence, attested, ⟨⟩, -, returned⟩ :=
    passes
  obtain rfl := Except.ok.inj returned
  constructor
  · unfold Call.delegationGate at delegated
    split_ifs at delegated
    · cases delegated
    · exact .inr (mapError_eq_ok.mp delegated)
    · exact .inl (Except.ok.inj delegated).symm
  · unfold Call.attestationGate at attested
    split_ifs at attested
    · exact .inr (mapError_eq_ok.mp attested)
    · obtain rfl := Except.ok.inj attested
      exact .inl rfl

/-- The record a call signs, with its three signatures. -/
def Call.record (call : Call) (predecessor successor : Signer) (passed : Passed)
    (predecessorSignature successorSignature attestation : Bytes) : SuccessionRecord where
  fields := call.commitmentFields predecessor successor call.request.assertedPredecessorEpoch passed
  predecessorAtt := predecessorSignature
  possession := { kind := .successorSignature, signature := successorSignature, transcript := [] }
  signerAttestation := attestation
  inclusionProof := []
  authzDigest := authzDigest call.crypto call.request.authorization
  breakGlassAuth := if passed.breakGlassUsed then call.request.breakGlass else []
  recordType := recOrdinary
  attestationEvidenceDigest := passed.attestDigest
  attestationType := passed.attestType

/-- How a result comes from the keys of a succession. -/
structure Call.Signs (call : Call) (predecessor successor : Signer) (passed : Passed)
    (record : SuccessionRecord) (result : MintResult) : Prop where
  algorithm : successor.algorithm = call.request.targetAlgorithm
  signed : ∃ commitment predecessorSignature successorSignature attestation,
    commit call.crypto (call.commitmentFields predecessor successor
      call.request.assertedPredecessorEpoch passed) = .ok commitment ∧
    predecessor.sign commitment = .ok predecessorSignature ∧
    successor.sign commitment = .ok successorSignature ∧
    record = call.record predecessor successor passed predecessorSignature successorSignature
      attestation
  result_eq : result =
    { epoch := call.epoch
      successorAlgorithm := successor.algorithm
      successorPublicDER := successor.publicDER
      encodedRecord := encodeRecord record }

theorem Call.countersign_eq_ok {record countersigned : SuccessionRecord}
    (ok : call.countersign record = .ok countersigned) :
    ∃ attestation, countersigned = { record with signerAttestation := attestation } := by
  unfold Call.countersign at ok
  split_ifs at ok
  · split at ok
    · cases ok
    · obtain rfl := Except.ok.inj ok
      exact ⟨_, rfl⟩
  · obtain rfl := Except.ok.inj ok
    exact ⟨record.signerAttestation, rfl⟩

variable {result : MintResult}

theorem Call.Mints.signs (mints : call.Mints passed result) :
    ∃ predecessor successor resumed record,
      call.environment.resolve call.request.predecessorHandle = .ok predecessor ∧
        call.successorKey resumed = .ok successor ∧
          call.Signs predecessor successor passed record result := by
  obtain ⟨predecessor, resumed, resolved, signed⟩ := mints
  simp only [Call.signRecord, bind_eq_ok, guard_eq_ok, mapError_eq_ok,
    not_not] at signed
  obtain ⟨successor, generated, algorithm, commitment, committed, predecessorSignature,
    predecessorSigned, successorSignature, successorSigned, record, countersigned, returned⟩ :=
    signed
  obtain ⟨attestation, rfl⟩ := Call.countersign_eq_ok countersigned
  refine ⟨predecessor, successor, resumed, _, resolved, generated, algorithm,
    ⟨commitment, predecessorSignature, successorSignature, attestation, committed,
      predecessorSigned, successorSigned, rfl⟩, (Except.ok.inj returned).symm⟩

theorem Call.Mints.epoch (mints : call.Mints passed result) :
    result.epoch = call.epoch := by
  obtain ⟨_, _, _, _, _, _, signs⟩ := mints.signs
  rw [signs.result_eq]

theorem Call.checkCompleted_eq_ok {entry : MintJournalEntry}
    (checked : call.checkCompleted entry = .ok result) :
    entry.result = some result ∧ result.epoch = call.epoch := by
  unfold Call.checkCompleted at checked
  cases held : entry.result with
  | none => simp [held] at checked
  | some stored =>
      simp only [held, bind_eq_ok, guard_eq_ok] at checked
      obtain ⟨bound, _, _, returned⟩ := checked
      obtain rfl := Except.ok.inj returned
      simp only [not_or, not_not] at bound
      exact ⟨rfl, bound.2.2.2.2.2.2.2.1⟩

/-- Every file that a version of the directory holds has a property. -/
def Disk.Holds (good : MintJournalEntry → Prop) (disk : Disk) : Prop :=
  ∀ version ∈ disk.versions, ∀ name entry, version.lookup name = some entry → good entry

section

variable {good : MintJournalEntry → Prop} {disk : Disk}

theorem Disk.Holds.mono {better : MintJournalEntry → Prop} (holds : disk.Holds good)
    (implies : ∀ entry, good entry → better entry) :
    disk.Holds better :=
  fun version member name entry found => implies entry (holds version member name entry found)

theorem Disk.Holds.publish (holds : disk.Holds good) (name : Bytes) {entry : MintJournalEntry}
    (entryGood : good entry) :
    (disk.publish name entry).Holds good := by
  intro version member other found lookup
  rcases List.mem_cons.mp member with rfl | earlier
  · change (disk.visible.set name entry).lookup other = some found at lookup
    rw [Go.MapOf.lookup_set] at lookup
    split_ifs at lookup
    · obtain rfl := Option.some.inj lookup
      exact entryGood
    · exact holds disk.visible List.mem_cons_self other found lookup
  · exact holds version earlier other found lookup

theorem Disk.Holds.syncDirectory (holds : disk.Holds good) : disk.syncDirectory.Holds good := by
  intro version member
  obtain rfl : version = disk.visible := List.mem_singleton.mp member
  exact holds disk.visible List.mem_cons_self

theorem Disk.Holds.recovers {recovered : Directory} (holds : disk.Holds good)
    (recovers : disk.Recovers recovered) :
    Disk.Holds good { visible := recovered, unsynced := [] } := by
  intro version member name entry found
  obtain rfl : version = recovered := List.mem_singleton.mp member
  obtain ⟨earlier, earlierMember, same⟩ := recovers name
  rw [same] at found
  exact holds earlier earlierMember name entry found

end

/-- Every version of the directory holds a file with a property under a
name. -/
def Disk.Pledges (disk : Disk) (name : Bytes) (kept : MintJournalEntry → Prop) : Prop :=
  ∀ version ∈ disk.versions, ∃ entry, version.lookup name = some entry ∧ kept entry

section

variable {disk : Disk} {name : Bytes} {kept : MintJournalEntry → Prop}

theorem Disk.Pledges.publish (pledged : disk.Pledges name kept)
    (completed : ∀ entry, kept entry → entry.state = .completed) {other : Bytes}
    (incomplete : ∀ prior, disk.visible.lookup other = some prior → prior.state ≠ .completed)
    (entry : MintJournalEntry) :
    (disk.publish other entry).Pledges name kept := by
  intro version member
  rcases List.mem_cons.mp member with rfl | earlier
  · obtain ⟨prior, found, priorKept⟩ := pledged disk.visible List.mem_cons_self
    have different : name ≠ other := by
      rintro rfl
      exact incomplete prior found (completed prior priorKept)
    refine ⟨prior, ?_, priorKept⟩
    change (disk.visible.set other entry).lookup name = some prior
    rw [Go.MapOf.lookup_set, if_neg different]
    exact found
  · exact pledged version earlier

theorem Disk.Pledges.syncDirectory (pledged : disk.Pledges name kept) :
    disk.syncDirectory.Pledges name kept := by
  intro version member
  obtain rfl : version = disk.visible := List.mem_singleton.mp member
  exact pledged disk.visible List.mem_cons_self

theorem Disk.Pledges.recovers {recovered : Directory} (pledged : disk.Pledges name kept)
    (recovers : disk.Recovers recovered) :
    Disk.Pledges { visible := recovered, unsynced := [] } name kept := by
  intro version member
  obtain rfl : version = recovered := List.mem_singleton.mp member
  obtain ⟨earlier, earlierMember, same⟩ := recovers name
  rw [same]
  exact pledged earlier earlierMember

theorem Disk.pledges_of_synced {entry : MintJournalEntry} (synced : disk.unsynced = [])
    (visible : disk.visible.lookup name = some entry) (entryKept : kept entry) :
    disk.Pledges name kept := by
  intro version member
  rw [Disk.versions, synced] at member
  obtain rfl := List.mem_singleton.mp member
  exact ⟨entry, visible, entryKept⟩

theorem Disk.Durable.pledges {entry : MintJournalEntry} (durable : disk.Durable name)
    (visible : disk.visible.lookup name = some entry) (entryKept : kept entry) :
    disk.Pledges name kept :=
  fun version member => ⟨entry, (durable version member).trans visible, entryKept⟩

end

theorem Call.keeps_pledges (call : Call) {ι : Type} {pledges : List ι} {name : ι → Bytes}
    {kept : ι → MintJournalEntry → Prop}
    (completed : ∀ pledge entry, kept pledge entry → entry.state = .completed) :
    call.Keeps (fun disk => ∀ pledge ∈ pledges, disk.Pledges (name pledge) (kept pledge))
      fun _ => True where
  sync pledged pledge member := (pledged pledge member).syncDirectory
  gates _ := trivial
  resumed _ _ := trivial
  intent pledged _ free pledge member := by
    refine (pledged pledge member).publish (completed pledge) (fun prior found => ?_) _
    rw [free] at found
    cases found
  completion pledged _ _ found executing pledge member := by
    refine (pledged pledge member).publish (completed pledge)
      (fun other otherFound finished => ?_) _
    obtain rfl := Option.some.inj (found.symm.trans otherFound)
    rw [executing] at finished
    cases finished

theorem Call.Keeps.and {first second : Disk → Prop} {fit : Passed → Prop}
    (firstKeeps : call.Keeps first fit) (secondKeeps : call.Keeps second fun _ => True) :
    call.Keeps (fun disk => first disk ∧ second disk) fit where
  sync holds := ⟨firstKeeps.sync holds.1, secondKeeps.sync holds.2⟩
  gates := firstKeeps.gates
  resumed holds := firstKeeps.resumed holds.1
  intent holds passedFit free :=
    ⟨firstKeeps.intent holds.1 passedFit free, secondKeeps.intent holds.2 trivial free⟩
  completion holds passedFit mints found executing :=
    ⟨firstKeeps.completion holds.1 passedFit mints found executing,
      secondKeeps.completion holds.2 trivial mints found executing⟩

section

variable {crypto : Crypto}

theorem Disk.load_eq_some
    {failure : Option Bytes} {key : Bytes} {disk : Disk} {entry : MintJournalEntry}
    (loaded : disk.load crypto failure key = .ok (some entry)) :
    disk.visible.lookup (path crypto key) = some entry ∧ entry.version = mintJournalVersion ∧
      entry.key = key := by
  unfold Disk.load at loaded
  cases failure with
  | some error => simp at loaded
  | none =>
      cases visible : disk.visible.lookup (path crypto key) with
      | none => simp [visible] at loaded
      | some prior =>
          simp only [visible] at loaded
          split_ifs at loaded with bound
          obtain rfl := Option.some.inj (Except.ok.inj loaded)
          simp only [not_or, not_not] at bound
          exact ⟨rfl, bound⟩

theorem publishEntry_triple {before property : Disk → Prop} (entry : MintJournalEntry)
    (published : ∀ disk, before disk →
      property (disk.publish (path crypto entry.key) entry.throughJson))
    (weaker : ∀ disk, before disk → property disk)
    (synced : ∀ disk : Disk, property disk → property disk.syncDirectory)
    (publication : Publication) :
    Triple before (publishEntry crypto publication entry)
      (fun _ disk => property disk ∧ disk.unsynced = [] ∧
        disk.visible.lookup (path crypto entry.key) = some entry.throughJson)
      property := by
  unfold publishEntry
  cases publication with
  | failed error => exact triple_throw weaker
  | unsynced error =>
      exact (triple_update published).bind fun _ =>
        triple_throw fun disk holds => holds
  | synced =>
      have named : ∀ disk : Disk,
          (disk.publish (path crypto entry.key) entry.throughJson).visible.lookup
            (path crypto entry.key) = some entry.throughJson := by
        intro disk
        change (disk.visible.set _ _).lookup _ = _
        rw [Go.MapOf.lookup_set, if_pos rfl]
      have linked : Triple before (Program.update _ : Program Disk JournalError Unit)
          (fun _ disk => property disk ∧
            disk.visible.lookup (path crypto entry.key) = some entry.throughJson)
          property :=
        triple_update fun disk holds => ⟨published disk holds, named disk⟩
      exact linked.bind fun _ => triple_update fun disk holds =>
        ⟨synced disk holds.1, rfl, holds.2⟩

end

section

variable {call : Call} {property : Disk → Prop} {fit : Passed → Prop}

theorem Call.beginMint_keeps (keeps : call.Keeps property fit) {passed : Passed}
    (passedFit : fit passed) :
    Triple property
      (beginMint call.crypto call.environment.beginning call.journalKey
        (mintRequestHash call.crypto call.request) passed)
      (fun _ => property) property := by
  have linked : Triple property
      (Program.reading (Disk.link call.environment.beginning call.fileName) :
        Program Disk JournalError Unit)
      (fun _ disk => property disk ∧ disk.visible.lookup call.fileName = none) property := by
    refine triple_reading (fun disk _ holds free => ⟨holds, ?_⟩) fun disk holds => holds
    cases found : disk.visible.lookup call.fileName with
    | none => rfl
    | some prior => cases publication : call.environment.beginning <;>
        simp [Disk.link, found, publication] at free
  have published : ∀ disk, property disk ∧ disk.visible.lookup call.fileName = none →
      property (disk.publish call.fileName (call.intent passed).throughJson) :=
    fun disk holds => keeps.intent holds.1 passedFit holds.2
  exact linked.bind fun _ => (publishEntry_triple (call.intent passed) published
    (fun disk holds => holds.1) (fun disk => keeps.sync) _).weaken (fun disk holds => holds)
      fun _ disk holds => holds.1

theorem Call.completeMint_keeps (keeps : call.Keeps property fit)
    {passed : Passed} {result : MintResult} (passedFit : fit passed)
    (mints : call.Mints passed result) :
    Triple property
      (completeMint call.crypto call.environment.reload call.environment.completion
        call.journalKey (mintRequestHash call.crypto call.request) passed result)
      (fun _ disk => property disk ∧ disk.unsynced = [] ∧
        disk.visible.lookup call.fileName = some (call.completion passed result).throughJson)
      property := by
  refine Triple.bind (triple_reading (fun disk prior holds loaded => And.intro holds loaded)
    fun disk holds => holds) fun prior => ?_
  cases prior with
  | none => exact triple_throw fun disk holds => holds.1
  | some entry =>
      refine Triple.guard (fun disk holds => holds.1) fun matching => ?_
      simp only [not_or, not_not] at matching
      have published : ∀ disk : Disk, property disk ∧
          disk.load call.crypto call.environment.reload call.journalKey = .ok (some entry) →
          property (disk.publish call.fileName (call.completion passed result).throughJson) :=
        fun disk holds => keeps.completion holds.1 passedFit mints
          (Disk.load_eq_some holds.2).1 matching.1
      exact publishEntry_triple (call.completion passed result)
        published (fun disk holds => holds.1)
        (fun disk => keeps.sync) _

abbrev DiskMeets (property : Disk → Prop) (state : State) : Prop :=
  property state.disk

variable {failed : Disk → Prop}

theorem onDisk_triple {α : Type} {before : Disk → Prop} {after : α → Disk → Prop}
    {raise : JournalError → MintError} {program : Program Disk JournalError α}
    (triple : Triple before program after failed) :
    Triple (DiskMeets before) (onDisk raise program) (fun value => DiskMeets (after value))
      (DiskMeets failed) := by
  intro state holds
  have afterwards := triple state.disk holds
  have unfolded : (onDisk raise program).outcome state =
      ((program.outcome state.disk).1.mapError raise,
        { state with disk := (program.outcome state.disk).2 }) := rfl
  rw [unfolded]
  revert afterwards
  rcases program.outcome state.disk with ⟨result, disk⟩
  intro afterwards
  cases result with
  | ok value => exact afterwards
  | error error => exact afterwards

theorem Call.advanceFloor_keeps (weaker : ∀ disk, property disk → failed disk) :
    Triple (DiskMeets property) call.advanceFloor (fun _ => DiskMeets property)
      (DiskMeets failed) := by
  have stored : Triple (DiskMeets property) call.advanceStore (fun _ => DiskMeets property)
      (DiskMeets failed) := by
    refine Triple.bind (triple_reading (fun state _ holds _ => holds)
      fun state holds => weaker state.disk holds) fun stored => ?_
    refine Triple.ite (fun _ => triple_pure fun state holds => holds) fun _ => ?_
    cases call.environment.floorWrite with
    | some error => exact triple_throw fun state holds => weaker state.disk holds
    | none => exact triple_update fun state holds => holds
  exact stored.bind fun _ => triple_update fun state holds => holds

theorem Call.catchUpFloor_keeps (weaker : ∀ disk, property disk → failed disk) :
    Triple (DiskMeets property) call.catchUpFloor (fun _ => DiskMeets property)
      (DiskMeets failed) := by
  refine Triple.bind (triple_reading (fun state _ holds _ => holds)
    fun state holds => weaker state.disk holds) fun floor => ?_
  exact Triple.ite (fun _ => Call.advanceFloor_keeps weaker)
    fun _ => triple_pure fun state holds => holds

theorem Call.lookup_eq_some {state : State} {entry : MintJournalEntry}
    (found : call.lookup state = .ok (some entry)) :
    call.Finds entry state.disk := by
  unfold Call.lookup at found
  split_ifs at found
  · rw [bind_eq_ok] at found
    obtain ⟨loaded, loads, found⟩ := found
    cases loaded with
    | none => simp [pure, Except.pure] at found
    | some prior =>
        simp only [guard_eq_ok, not_not] at found
        obtain ⟨hash, returned⟩ := found
        obtain rfl : prior = entry := Option.some.inj (Except.ok.inj returned)
        obtain ⟨visible, version, key⟩ := Disk.load_eq_some (mapError_eq_ok.mp loads)
        exact ⟨visible, version, key, hash⟩
  · cases found

theorem Call.authorize_keeps (keeps : call.Keeps property fit) (predecessor : Signer)
    {resumed : Option Passed} (resumedFit : ∀ passed, resumed = some passed → fit passed) :
    Triple (DiskMeets property) (call.authorize predecessor resumed)
      (fun passed state => property state.disk ∧ fit passed) (DiskMeets property) := by
  cases resumed with
  | some passed =>
      exact triple_pure fun _ holds => ⟨holds, resumedFit passed rfl⟩
  | none =>
      refine Triple.bind (triple_reading
        (fun _ passed holds passes => And.intro holds (keeps.gates passes))
        fun _ holds => holds) fun passed => ?_
      rintro state ⟨holds, passedFit⟩
      have sealed : Triple (DiskMeets property) (call.sealIntent passed)
          (fun _ => DiskMeets property) (DiskMeets property) :=
        Triple.ite (fun _ => onDisk_triple (Call.beginMint_keeps keeps passedFit))
          fun _ => triple_pure fun _ holds => holds
      exact (sealed.bind fun _ => triple_pure fun _ holds => ⟨holds, passedFit⟩) state holds

/-- A call that does not replay seals what it returns. -/
theorem Call.mintNext_keeps (keeps : call.Keeps property fit) {resumed : Option Passed}
    (resumedFit : ∀ passed, resumed = some passed → fit passed) :
    Triple (DiskMeets property) (call.mintNext resumed)
      (fun result state => property state.disk ∧ call.Minted fit result state.disk)
      (DiskMeets property) := by
  refine Triple.bind (triple_reading
    (fun _ predecessor holds current => And.intro holds current) fun _ holds => holds)
    fun predecessor => ?_
  rintro state ⟨holds, current⟩
  have resolved : call.environment.resolve call.request.predecessorHandle = .ok predecessor := by
    simp only [Call.currentPredecessor, bind_eq_ok, mapError_eq_ok,
      guard_eq_ok] at current
    obtain ⟨found, resolved, -, returned⟩ := current
    rw [resolved, Except.ok.inj returned]
  refine ((Call.authorize_keeps keeps predecessor resumedFit).bind fun passed => ?_) state holds
  refine Triple.bind (triple_reading (fun _ _ holds signed => And.intro holds signed)
    fun _ holds => holds.1) fun result => ?_
  rintro state ⟨⟨holds, passedFit⟩, signed⟩
  have mints : call.Mints passed result := ⟨predecessor, _, resolved, signed⟩
  have sealed : Triple (DiskMeets property) (call.sealResult passed result)
      (fun _ state => property state.disk ∧ call.Minted fit result state.disk)
      (DiskMeets property) := by
    refine Triple.ite (fun journalled => ?_) fun unjournalled => ?_
    · refine (onDisk_triple (Call.completeMint_keeps keeps passedFit mints)).weaken
        (fun _ holds => holds) fun _ state holds => ?_
      exact ⟨holds.1, passed, passedFit, mints, fun _ => holds.2⟩
    · refine triple_pure fun _ holds => ?_
      exact ⟨holds, passed, passedFit, mints, fun journalled => absurd journalled unjournalled⟩
  have advanced : Triple (DiskMeets fun disk => property disk ∧ call.Minted fit result disk)
      call.advanceFloor
      (fun _ => DiskMeets fun disk => property disk ∧ call.Minted fit result disk)
      (DiskMeets property) :=
    Call.advanceFloor_keeps fun _ kept => kept.1
  refine (sealed.bind fun _ => ?_) state holds
  exact advanced.bind fun _ => triple_pure fun _ kept => kept

theorem Call.replayCompleted_keeps {entry : MintJournalEntry} {start : State}
    (found : call.lookup start = .ok (some entry)) (completed : entry.state = .completed) :
    Triple (DiskMeets fun disk => disk = start.disk) (call.replayCompleted entry)
      (fun result state => state.disk = start.disk ∧ call.Replays result start)
      (DiskMeets fun disk => disk = start.disk) := by
  refine Triple.bind (triple_reading (fun _ _ holds checked => And.intro holds checked)
    fun _ holds => holds) fun result => ?_
  rintro state ⟨holds, checked⟩
  have caughtUp : Triple (DiskMeets fun disk => disk = start.disk) call.catchUpFloor
      (fun _ => DiskMeets fun disk => disk = start.disk)
      (DiskMeets fun disk => disk = start.disk) :=
    Call.catchUpFloor_keeps fun _ kept => kept
  refine (caughtUp.bind fun _ => ?_) state holds
  exact triple_pure fun _ kept => ⟨kept, entry, found, completed, checked⟩

/-- The epochs that have a successor. -/
def Call.HasSuccessor (call : Call) : Prop :=
  call.request.assertedPredecessorEpoch ≠ UInt64.ofNat (2 ^ 64 - 1)

/-- A call keeps what its entries keep.  What it returns it has minted, or has
found completed on the disk it started from, which is then unchanged. -/
theorem Call.mintSuccessor_spec (keeps : call.Keeps property fit) (start : State) :
    Triple (fun state => state = start ∧ property state.disk) call.mintSuccessor
      (fun result state => property state.disk ∧ call.HasSuccessor ∧
        (call.Minted fit result state.disk ∨
          state.disk = start.disk ∧ call.Replays result start))
      (DiskMeets property) := by
  refine Triple.guard (fun _ holds => holds.2) fun hasSuccessor => ?_
  refine Triple.bind (triple_reading (fun _ _ holds found => And.intro holds found)
    fun _ holds => holds.2) fun found => ?_
  cases found with
  | none =>
      refine (Call.mintNext_keeps keeps fun passed absent => by cases absent).weaken
        (fun _ holds => holds.1.2) ?_
      exact fun _ _ holds => ⟨holds.1, hasSuccessor, .inl holds.2⟩
  | some entry =>
      rintro state ⟨⟨rfl, holds⟩, found⟩
      simp only [Call.proceed]
      split_ifs with completed
      · have replayed := Call.replayCompleted_keeps found completed state rfl
        revert replayed
        rcases (call.replayCompleted entry).outcome state with ⟨result, next⟩
        intro replayed
        cases result with
        | ok result =>
            obtain ⟨unchanged, replays⟩ := replayed
            exact ⟨unchanged ▸ holds, hasSuccessor, .inr ⟨unchanged, replays⟩⟩
        | error error => exact (show next.disk = state.disk from replayed) ▸ holds
      · have resumedFit : ∀ passed, some entry.passed = some passed → fit passed := by
          rintro passed ⟨rfl⟩
          exact keeps.resumed holds (Call.lookup_eq_some found).visible
        exact ((Call.mintNext_keeps keeps resumedFit).weaken (fun _ before => before)
          fun _ _ after => ⟨after.1, hasSuccessor, .inl after.2⟩) state holds

end

end Trstctl.Succession.Minter

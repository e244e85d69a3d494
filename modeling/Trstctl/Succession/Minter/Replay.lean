import Trstctl.Succession.Minter.Custody

/-!
# Exact replay

Runs of a minter with a journal, with every result it returned.  A request that
was answered is answered with the same result again, as long as every result
that is replayed from the journal is durable; the floor of its identity is then
at least the epoch of the result.  After a sync of the directory has failed the
minter replays a result that a power loss may still forget, and a request that
was answered with it is then refused.
-/

namespace Trstctl.Succession.Minter

open Go (Bytes bytes Map utf8Valid throughJson_of_utf8Valid throughJson_of_ascii throughJson)
open Program (Triple triple_reading_of_ok triple_pure triple_update)

/-- The strings of a request are valid UTF-8. -/
structure MintRequest.Valid (request : MintRequest) : Prop where
  identityID : utf8Valid request.identityID = true
  tenantID : utf8Valid request.tenantID = true
  deploymentScope : utf8Valid request.deploymentScope = true
  predecessorHandle : utf8Valid request.predecessorHandle = true
  targetAlgorithm : utf8Valid request.targetAlgorithm = true
  policyRef : utf8Valid request.policyRef = true
  delegationScope : utf8Valid request.delegationScope = true

/-- Signatures verify, and the gates answer with valid text: a delegation path
is a hexadecimal digest, and the type of an attestation was read from JSON. -/
structure Environment.Sound (crypto : Crypto) (environment : Environment) : Prop where
  resolved : ∀ handle signer, environment.resolve handle = .ok signer → signer.Honest crypto
  generated : ∀ signer, environment.generateSuccessorKey = .ok signer → signer.Honest crypto
  delegationPath : ∀ delegationPath, environment.checkAndBind = .ok delegationPath →
    utf8Valid delegationPath = true
  attestType : ∀ digest attestType, environment.verifyAttestation = .ok (digest, attestType) →
    utf8Valid attestType = true

/-- What the gates found is valid text. -/
structure Passed.Valid (passed : Passed) : Prop where
  delegationPath : utf8Valid passed.delegationPath = true
  attestType : utf8Valid passed.attestType = true

theorem Environment.Sound.passed_valid {call : Call} (sound : call.environment.Sound call.crypto)
    {predecessor : Signer} {passed : Passed} (passes : call.passGates predecessor = .ok passed) :
    passed.Valid := by
  obtain ⟨delegated, attested⟩ := Call.passGates_eq_ok passes
  constructor
  · rcases delegated with empty | bound
    · rw [empty]
      rfl
    · exact sound.delegationPath _ bound
  · rcases attested with empty | verified
    · rw [empty]
      rfl
    · exact sound.attestType _ _ verified

theorem Environment.Sound.successor_honest {call : Call}
    (sound : call.environment.Sound call.crypto) {resumed : Bool} {successor : Signer}
    (generated : call.successorKey resumed = .ok successor) :
    successor.Honest call.crypto := by
  unfold Call.successorKey at generated
  split_ifs at generated
  · cases resolved : call.environment.resolve call.journalKey with
    | ok stored =>
        rw [resolved] at generated
        obtain rfl := Except.ok.inj generated
        exact sound.resolved _ _ resolved
    | error error =>
        rw [resolved] at generated
        exact sound.generated _ (Result.mapError_eq_ok.mp generated)
  · exact sound.generated _ (Result.mapError_eq_ok.mp generated)

/-- An entry from which a request is answered with a result. -/
structure Seals (crypto : Crypto) (request : MintRequest) (result : MintResult)
    (entry : MintJournalEntry) : Prop where
  version : entry.version = mintJournalVersion
  key : entry.key = tenantKeyHandle crypto request.tenantID request.identityID
    (request.assertedPredecessorEpoch + 1)
  requestHash : entry.requestHash = mintRequestHash crypto request
  completed : entry.state = .completed
  checked : ∀ minter environment,
    Call.checkCompleted ⟨crypto, minter, environment, request⟩ entry = .ok result

/-- A result that was returned cannot be lost. -/
structure Sealed (crypto : Crypto) (disk : Disk) (returned : MintRequest × MintResult) : Prop where
  hasSuccessor : returned.1.assertedPredecessorEpoch ≠ UInt64.ofNat (2 ^ 64 - 1)
  pledged : disk.Pledges
    (path crypto (tenantKeyHandle crypto returned.1.tenantID returned.1.identityID
      (returned.1.assertedPredecessorEpoch + 1)))
    (Seals crypto returned.1 returned.2)

section

variable {call : Call}

variable {passed : Passed}

theorem Call.record_throughJson (valid : call.request.Valid)
    {predecessor successor : Signer} (passedValid : passed.Valid) {commitment : Bytes}
    (committed : commit call.crypto (call.commitmentFields predecessor successor
      call.request.assertedPredecessorEpoch passed) = .ok commitment)
    (predecessorSignature successorSignature attestation : Bytes) :
    (call.record predecessor successor passed predecessorSignature successorSignature
        attestation).throughJson =
      call.record predecessor successor passed predecessorSignature successorSignature
        attestation := by
  obtain ⟨predecessorRegistered, successorRegistered⟩ := registered_of_commit committed
  have predecessorAlg : throughJson predecessor.algorithm = predecessor.algorithm :=
    throughJson_of_registered predecessorRegistered
  have successorAlg : throughJson successor.algorithm = successor.algorithm :=
    throughJson_of_registered successorRegistered
  have attestationType : throughJson (if call.minter.commitmentV2 then passed.attestType
      else []) = if call.minter.commitmentV2 then passed.attestType else [] := by
    split_ifs
    · exact throughJson_of_utf8Valid passedValid.attestType
    · rfl
  have delegationPath : throughJson (if call.minter.commitmentV2 then passed.delegationPath
      else []) = if call.minter.commitmentV2 then passed.delegationPath else [] := by
    split_ifs
    · exact throughJson_of_utf8Valid passedValid.delegationPath
    · rfl
  have hashAlg : throughJson hashAlgSHA256 = hashAlgSHA256 := by
    decide
  have recordType : throughJson recOrdinary = recOrdinary := rfl
  simp only [Call.record, SuccessionRecord.throughJson, CommitmentFields.throughJson,
    Call.commitmentFields, PossessionProofKind.throughJson,
    throughJson_of_utf8Valid valid.deploymentScope, throughJson_of_utf8Valid valid.identityID,
    throughJson_of_utf8Valid valid.tenantID, throughJson_of_utf8Valid valid.policyRef,
    throughJson_of_utf8Valid passedValid.attestType, attestationType, delegationPath, hashAlg,
    recordType, predecessorAlg, successorAlg]

variable {result : MintResult}

theorem Call.Signs.verifyRecord {predecessor successor : Signer} {record : SuccessionRecord}
    (signs : call.Signs predecessor successor passed record result)
    (predecessorHonest : predecessor.Honest call.crypto)
    (successorHonest : successor.Honest call.crypto) :
    Succession.verifyRecord call.crypto record = .ok () := by
  obtain ⟨commitment, predecessorSignature, successorSignature, attestation, committed,
    predecessorSigned, successorSigned, rfl⟩ := signs.signed
  obtain ⟨attested, predecessorVerifies⟩ := predecessorHonest _ _ predecessorSigned
  obtain ⟨possessed, successorVerifies⟩ := successorHonest _ _ successorSigned
  refine verifyRecord_eq_ok.mpr ⟨commitment, committed, attested, predecessorVerifies, rfl,
    possessed, successorVerifies, fun bound => ?_⟩
  have versionTwo : call.minter.commitmentV2 = true := by
    by_contra versionOne
    simp only [Call.record, Call.commitmentFields, if_neg versionOne] at bound
    exact absurd bound (by decide)
  constructor
  all_goals simp only [Call.record, Call.commitmentFields, if_pos versionTwo]

theorem Call.Mints.seals (sound : call.environment.Sound call.crypto) (valid : call.request.Valid)
    (passedValid : passed.Valid) (mints : call.Mints passed result) :
    Seals call.crypto call.request result (call.completion passed result).throughJson := by
  obtain ⟨predecessor, successor, resumed, record, resolved, generated, signs⟩ := mints.signs
  have verifies := signs.verifyRecord (sound.resolved _ _ resolved)
    (sound.successor_honest generated)
  have hash : throughJson (mintRequestHash call.crypto call.request) =
      mintRequestHash call.crypto call.request :=
    throughJson_of_ascii (Go.isAscii_hexEncode _)
  have key : throughJson call.journalKey = call.journalKey :=
    throughJson_of_ascii (isAscii_tenantKeyHandle _ _ _ _)
  refine ⟨rfl, key, hash, rfl, fun minter environment => ?_⟩
  obtain ⟨commitment, predecessorSignature, successorSignature, attestation, committed, -, -,
    record_eq⟩ := signs.signed
  have readBack : record.throughJson = record := by
    rw [record_eq]
    exact Call.record_throughJson valid passedValid committed _ _ _
  have algorithm : throughJson result.successorAlgorithm = result.successorAlgorithm := by
    rw [signs.result_eq]
    exact throughJson_of_registered (registered_of_commit committed).2
  have held : (call.completion passed result).throughJson.result = some result := by
    simp only [Call.completion, MintJournalEntry.throughJson, Option.map_some, algorithm]
  have decoded : decodeRecord result.encodedRecord = record := by
    rw [signs.result_eq]
    exact readBack
  simp only [Call.checkCompleted, held, decoded, Result.guard_eq_ok, Result.bind_eq_ok,
    Result.mapError_eq_ok, not_or, not_not]
  refine ⟨?_, (), verifies, rfl⟩
  rw [signs.result_eq, record_eq]
  exact ⟨rfl, rfl, rfl, rfl, rfl, rfl, signs.algorithm, rfl, signs.algorithm, rfl⟩

theorem Environment.Sound.keeps_valid (sound : call.environment.Sound call.crypto) :
    call.Keeps (Disk.Holds fun entry => entry.passed.Valid) Passed.Valid := by
  have readBack : ∀ {passed : Passed}, passed.Valid →
      Passed.Valid
        { passed with
          delegationPath := throughJson passed.delegationPath
          attestType := throughJson passed.attestType } := by
    intro passed valid
    constructor
    · rw [throughJson_of_utf8Valid valid.delegationPath]
      exact valid.delegationPath
    · rw [throughJson_of_utf8Valid valid.attestType]
      exact valid.attestType
  exact {
    sync := fun holds => holds.syncDirectory
    gates := sound.passed_valid
    resumed := fun holds found => holds _ List.mem_cons_self _ _ found
    intent := fun holds valid _ => holds.publish _ (readBack valid)
    completion := fun holds valid _ _ _ => holds.publish _ (readBack valid) }

variable {state : State}

theorem Call.lookup_of_seals (journalled : call.minter.journal = true)
    (loads : call.environment.load = none) {entry : MintJournalEntry}
    (visible : state.disk.visible.lookup call.fileName = some entry)
    (seals : Seals call.crypto call.request result entry) :
    call.lookup state = .ok (some entry) := by
  have loaded : state.disk.load call.crypto call.environment.load call.journalKey =
      .ok (some entry) := by
    rw [loads, Disk.load]
    simp only [show state.disk.visible.lookup (path call.crypto call.journalKey) = some entry
      from visible]
    rw [if_neg]
    rintro (version | key)
    · exact version seals.version
    · exact key seals.key
  rw [Call.lookup, if_pos journalled, loaded]
  exact Result.bind_eq_ok.mpr ⟨some entry, rfl,
    Result.guard_eq_ok.mpr ⟨not_not.mpr seals.requestHash, rfl⟩⟩

def floorOf (floors : Map UInt64) (key : Bytes) : UInt64 :=
  (floors.lookup key).getD 0

theorem floorOf_set (floors : Map UInt64) (key : Bytes) (epoch : UInt64) (other : Bytes) :
    floorOf (floors.set key epoch) other = if other = key then epoch else floorOf floors other := by
  rw [floorOf, Go.MapOf.lookup_set]
  split_ifs
  · rfl
  · rfl

/-- The store is never behind the floors in memory. -/
def FloorsStored (state : State) : Prop :=
  ∀ key, floorOf state.floor key ≤ floorOf state.floors key

/-- The floor of the identity has reached the epoch of the call, in memory and
in the store. -/
structure Call.FloorReached (call : Call) (state : State) : Prop where
  stored : FloorsStored state
  floor : call.epoch ≤ floorOf state.floor call.floorKey

theorem FloorsStored.raise (stored : FloorsStored state)
    {key : Bytes} {epoch : UInt64} (higher : floorOf state.floors key ≤ epoch) :
    FloorsStored { state with floors := state.floors.set key epoch } := by
  intro other
  change floorOf state.floor other ≤ floorOf (state.floors.set key epoch) other
  rw [floorOf_set]
  split_ifs with same
  · subst same
    exact UInt64.le_trans (stored other) higher
  · exact stored other

theorem FloorsStored.follow (stored : FloorsStored state)
    {key : Bytes} {epoch : UInt64} (reached : epoch ≤ floorOf state.floors key) :
    FloorsStored { state with floor := state.floor.set key epoch } := by
  intro other
  change floorOf (state.floor.set key epoch) other ≤ floorOf state.floors other
  rw [floorOf_set]
  split_ifs with same
  · subst same
    exact reached
  · exact stored other

theorem Call.advanceFloor_reaches :
    Triple FloorsStored call.advanceFloor (fun _ => call.FloorReached)
      (fun state => FloorsStored state ∧ call.environment.floorWrite ≠ none) := by
  have read : Triple FloorsStored
      (Program.reading fun state => .ok ((state.floors.lookup call.floorKey).getD 0) : Mint UInt64)
      (fun stored state => FloorsStored state ∧ floorOf state.floors call.floorKey = stored)
      (fun state => FloorsStored state ∧ call.environment.floorWrite ≠ none) :=
    triple_reading_of_ok fun state holds => ⟨_, rfl, holds, rfl⟩
  have advanced : Triple FloorsStored call.advanceStore
      (fun _ state => FloorsStored state ∧ call.epoch ≤ floorOf state.floors call.floorKey)
      (fun state => FloorsStored state ∧ call.environment.floorWrite ≠ none) := by
    refine read.bind fun stored => ?_
    refine Triple.ite (fun reached => ?_) fun behind => ?_
    · exact triple_pure fun state holds => ⟨holds.1, holds.2 ▸ reached⟩
    · cases write : call.environment.floorWrite with
      | some error => exact Program.triple_throw fun state holds => ⟨holds.1, by simp⟩
      | none =>
          refine triple_update fun state holds => ⟨holds.1.raise ?_, ?_⟩
          · rw [holds.2]
            exact UInt64.le_of_lt (UInt64.not_le.mp behind)
          · change call.epoch ≤ floorOf (state.floors.set call.floorKey call.epoch) call.floorKey
            rw [floorOf_set, if_pos rfl]
            exact UInt64.le_refl _
  refine advanced.bind fun _ => triple_update fun state holds =>
    ⟨holds.1.follow holds.2, ?_⟩
  change call.epoch ≤ floorOf (state.floor.set call.floorKey call.epoch) call.floorKey
  rw [floorOf_set, if_pos rfl]
  exact UInt64.le_refl _

theorem Call.catchUpFloor_reaches :
    Triple FloorsStored call.catchUpFloor (fun _ => call.FloorReached)
      (fun state => FloorsStored state ∧ call.environment.floorWrite ≠ none) := by
  have read : Triple FloorsStored
      (Program.reading fun state => .ok ((state.floor.lookup call.floorKey).getD 0) : Mint UInt64)
      (fun floor state => FloorsStored state ∧ floorOf state.floor call.floorKey = floor)
      (fun state => FloorsStored state ∧ call.environment.floorWrite ≠ none) :=
    triple_reading_of_ok fun state holds => ⟨_, rfl, holds, rfl⟩
  refine read.bind fun floor => Triple.ite (fun _ => ?_) fun reached => ?_
  · exact Call.advanceFloor_reaches.strengthen fun state holds => holds.1
  · refine triple_pure fun state holds => ⟨holds.1, ?_⟩
    rw [holds.2]
    exact UInt64.not_lt.mp reached

theorem onDisk_floorsStored {α : Type} {raise : JournalError → MintError}
    {program : Program Disk JournalError α} :
    Triple FloorsStored (onDisk raise program) (fun _ => FloorsStored) FloorsStored := by
  intro state holds
  have unfolded : (onDisk raise program).outcome state =
      ((program.outcome state.disk).1.mapError raise,
        { state with disk := (program.outcome state.disk).2 }) := rfl
  rw [unfolded]
  rcases program.outcome state.disk with ⟨result, disk⟩
  cases result with
  | ok value => exact holds
  | error error => exact holds

theorem reading_floorsStored {α : Type} {compute : State → Except MintError α} :
    Triple FloorsStored (Program.reading compute : Mint α) (fun _ => FloorsStored) FloorsStored :=
  Program.triple_reading (fun _ _ holds _ => holds) fun _ holds => holds

theorem Call.advanceFloor_floorsStored :
    Triple FloorsStored call.advanceFloor (fun _ => FloorsStored) FloorsStored :=
  (Call.advanceFloor_reaches.weaken (fun _ holds => holds) fun _ _ reached => reached.stored)
    |>.weakenFailure fun _ failed => failed.1

theorem Call.catchUpFloor_floorsStored :
    Triple FloorsStored call.catchUpFloor (fun _ => FloorsStored) FloorsStored :=
  (Call.catchUpFloor_reaches.weaken (fun _ holds => holds) fun _ _ reached => reached.stored)
    |>.weakenFailure fun _ failed => failed.1

theorem Call.authorize_floorsStored (predecessor : Signer) (resumed : Option Passed) :
    Triple FloorsStored (call.authorize predecessor resumed) (fun _ => FloorsStored)
      FloorsStored := by
  cases resumed with
  | some passed => exact triple_pure fun _ holds => holds
  | none =>
      refine reading_floorsStored.bind fun passed => ?_
      have sealed : Triple FloorsStored (call.sealIntent passed) (fun _ => FloorsStored)
          FloorsStored :=
        Triple.ite (fun _ => onDisk_floorsStored) fun _ => triple_pure fun _ holds => holds
      exact sealed.bind fun _ => triple_pure fun _ holds => holds

theorem Call.mintNext_floorsStored (resumed : Option Passed) :
    Triple FloorsStored (call.mintNext resumed) (fun _ => FloorsStored) FloorsStored := by
  refine reading_floorsStored.bind fun predecessor => ?_
  refine (Call.authorize_floorsStored predecessor resumed).bind fun passed => ?_
  refine reading_floorsStored.bind fun result => ?_
  have sealed : Triple FloorsStored (call.sealResult passed result) (fun _ => FloorsStored)
      FloorsStored :=
    Triple.ite (fun _ => onDisk_floorsStored) fun _ => triple_pure fun _ holds => holds
  refine sealed.bind fun _ => Call.advanceFloor_floorsStored.bind fun _ => ?_
  exact triple_pure fun _ holds => holds

theorem Call.mintSuccessor_floorsStored (call : Call) :
    Triple FloorsStored call.mintSuccessor (fun _ => FloorsStored) FloorsStored := by
  refine Triple.guard (fun _ holds => holds) fun _ => ?_
  refine reading_floorsStored.bind fun found => ?_
  cases found with
  | none => exact Call.mintNext_floorsStored none
  | some entry =>
      refine Triple.ite (fun _ => ?_) fun _ => Call.mintNext_floorsStored (some entry.passed)
      refine reading_floorsStored.bind fun result => ?_
      exact Call.catchUpFloor_floorsStored.bind fun _ => triple_pure fun _ holds => holds

/-- A request that is sealed is answered with what was sealed, and the floor
catches up. -/
theorem Call.mintSuccessor_replays (journalled : call.minter.journal = true)
    (loads : call.environment.load = none) (writes : call.environment.floorWrite = none)
    {start : State} (isSealed : Sealed call.crypto start.disk (call.request, result)) :
    Triple (fun state => state = start ∧ FloorsStored state) call.mintSuccessor
      (fun returned state => returned = result ∧ call.FloorReached state) fun _ => False := by
  obtain ⟨entry, visible, seals⟩ := isSealed.pledged start.disk.visible List.mem_cons_self
  have found : call.lookup start = .ok (some entry) :=
    Call.lookup_of_seals journalled loads visible seals
  have looked : Triple (fun state => state = start ∧ FloorsStored state)
      (Program.reading call.lookup : Mint (Option MintJournalEntry))
      (fun looked state => looked = some entry ∧ FloorsStored state) fun _ => False := by
    refine triple_reading_of_ok fun state holds => ⟨some entry, ?_, rfl, holds.2⟩
    rw [holds.1]
    exact found
  have checked : Triple FloorsStored (Program.reading fun _ => call.checkCompleted entry)
      (fun returned state => returned = result ∧ FloorsStored state) fun _ => False :=
    triple_reading_of_ok fun state holds =>
      ⟨result, seals.checked call.minter call.environment, rfl, holds⟩
  have caughtUp : Triple FloorsStored call.catchUpFloor (fun _ => call.FloorReached)
      fun _ => False :=
    Call.catchUpFloor_reaches.weakenFailure fun _ failed => failed.2 writes
  unfold Call.mintSuccessor
  rw [if_neg isSealed.hasSuccessor]
  refine looked.bind fun looked => ?_
  rintro state ⟨rfl, stored⟩
  have replayed : Triple FloorsStored (call.replayCompleted entry)
      (fun returned state => returned = result ∧ call.FloorReached state) fun _ => False := by
    refine checked.bind fun returned => ?_
    rintro state ⟨rfl, stored⟩
    exact (caughtUp.bind fun _ => triple_pure fun _ reached => ⟨rfl, reached⟩) state stored
  rw [Call.proceed, if_pos seals.completed]
  exact replayed state stored

end

/-- What a call adds to the results that were returned. -/
def Call.answers (call : Call) (state : State) : List (MintRequest × MintResult) :=
  match call.mintSuccessor.outcome state with
  | (.ok result, _) => [(call.request, result)]
  | (.error _, _) => []

theorem Call.request_of_answers
    {call : Call} {state : State} {request : MintRequest} {result : MintResult}
    (member : (request, result) ∈ call.answers state) :
    request = call.request := by
  unfold Call.answers at member
  split at member
  · exact (Prod.mk.inj (List.mem_singleton.mp member)).1
  · cases member

/-- Runs of valid requests in sound surroundings, with every result that was
returned.  Each action meets a condition in the world it starts from. -/
inductive History (crypto : Crypto) (minter : Options) (condition : World → Action → Prop) :
    World → List (MintRequest × MintResult) → Prop where
  | initial (floors : Map UInt64) :
      History crypto minter condition (World.initial floors) []
  | mint {world : World} {returned : List (MintRequest × MintResult)}
      (environment : Environment) (request : MintRequest) :
      History crypto minter condition world returned →
      request.Valid →
      environment.Sound crypto →
      condition world (.mint environment request) →
      History crypto minter condition (world.step crypto minter (.mint environment request))
        (Call.answers ⟨crypto, minter, environment, request⟩ world.state ++ returned)
  | restart {world : World} {returned : List (MintRequest × MintResult)} (floors : Map UInt64) :
      History crypto minter condition world returned →
      condition world (.restart floors) →
      History crypto minter condition (world.step crypto minter (.restart floors)) returned
  | powerLoss {world : World} {returned : List (MintRequest × MintResult)}
      (recovered : Directory) (floors : Map UInt64) :
      History crypto minter condition world returned →
      world.state.disk.Recovers recovered →
      condition world (.powerLoss recovered floors) →
      History crypto minter condition (world.step crypto minter (.powerLoss recovered floors))
        returned

/-- A restart and a power loss find the floors of the store. -/
def FloorsDurable (world : World) : Action → Prop
  | .mint _ _ => True
  | .restart floors => floors = world.state.floors
  | .powerLoss _ floors => floors = world.state.floors

/-- Neither the journal nor the floor store fails. -/
structure Environment.StoresWork (environment : Environment) : Prop where
  load : environment.load = none
  beginning : environment.beginning = .synced
  reload : environment.reload = none
  completion : environment.completion = .synced
  floorWrite : environment.floorWrite = none

/-- Every request that was answered is answered with the same result, and the
floor of its identity is then at least the epoch of the result. -/
def ReplaysExactly (crypto : Crypto) (minter : Options) (world : World)
    (returned : List (MintRequest × MintResult)) : Prop :=
  ∀ request result, (request, result) ∈ returned →
    ∀ environment : Environment, environment.StoresWork →
      let call : Call := ⟨crypto, minter, environment, request⟩
      ∃ state, call.mintSuccessor.outcome world.state = (.ok result, state) ∧
        result.epoch ≤ floorOf state.floor call.floorKey ∧
          result.epoch ≤ floorOf state.floors call.floorKey

/-- What a run keeps: the files of the journal are valid, every result that was
returned is sealed, and the floors are stored. -/
structure HistoryKept (crypto : Crypto) (state : State)
    (returned : List (MintRequest × MintResult)) : Prop where
  files : state.disk.Holds fun entry => entry.passed.Valid
  results : ∀ pair ∈ returned, Sealed crypto state.disk pair
  floors : FloorsStored state

section

variable {crypto : Crypto} {minter : Options} {returned : List (MintRequest × MintResult)}

theorem Seals.completed_of_pair (pair : MintRequest × MintResult) (entry : MintJournalEntry)
    (seals : Seals crypto pair.1 pair.2 entry) :
    entry.state = .completed :=
  seals.completed

theorem Call.Minted.isSealed {call : Call} {result : MintResult} {disk : Disk}
    (minted : call.Minted Passed.Valid result disk) (journalled : call.minter.journal = true)
    (hasSuccessor : call.HasSuccessor) (valid : call.request.Valid)
    (sound : call.environment.Sound call.crypto) :
    Sealed call.crypto disk (call.request, result) := by
  obtain ⟨passed, passedValid, mints, sealed⟩ := minted
  obtain ⟨synced, named⟩ := sealed journalled
  exact ⟨hasSuccessor, Disk.pledges_of_synced synced named (mints.seals sound valid passedValid)⟩

theorem Call.Replays.isSealed {call : Call} {result : MintResult} {start : State}
    (replays : call.Replays result start) (hasSuccessor : call.HasSuccessor)
    (durable : ∀ entry, call.lookup start = .ok (some entry) → entry.state = .completed →
      start.disk.Durable call.fileName) :
    Sealed call.crypto start.disk (call.request, result) := by
  obtain ⟨entry, found, completed, checked⟩ := replays
  have finds := Call.lookup_eq_some found
  refine ⟨hasSuccessor, (durable entry found completed).pledges finds.visible ?_⟩
  exact ⟨finds.version, finds.key, finds.requestHash, completed, fun _ _ => checked⟩

variable {world : World}

/-- One call keeps what a run keeps, when it replays only what is durable. -/
theorem HistoryKept.mint (kept : HistoryKept crypto world.state returned)
    {environment : Environment} {request : MintRequest} (journalled : minter.journal = true)
    (valid : request.Valid) (sound : environment.Sound crypto)
    (replaysDurable : ReplaysDurable crypto minter world (.mint environment request)) :
    HistoryKept crypto (world.step crypto minter (.mint environment request)).state
      (Call.answers ⟨crypto, minter, environment, request⟩ world.state ++ returned) := by
  let call : Call := ⟨crypto, minter, environment, request⟩
  have keepsValid : call.Keeps (Disk.Holds fun entry => entry.passed.Valid) Passed.Valid :=
    Environment.Sound.keeps_valid sound
  have keeps : call.Keeps
      (fun disk => disk.Holds (fun entry => entry.passed.Valid) ∧
        ∀ pair ∈ returned, disk.Pledges
          (path crypto (tenantKeyHandle crypto pair.1.tenantID pair.1.identityID
            (pair.1.assertedPredecessorEpoch + 1)))
          (Seals crypto pair.1 pair.2))
      Passed.Valid :=
    keepsValid.and (call.keeps_pledges Seals.completed_of_pair)
  have afterwards := Call.mintSuccessor_spec keeps world.state world.state
    ⟨rfl, kept.files, fun pair member => (kept.results pair member).pledged⟩
  have floors := call.mintSuccessor_floorsStored world.state kept.floors
  change HistoryKept crypto (world.step crypto minter (.mint environment request)).state
    (call.answers world.state ++ returned)
  simp only [World.step, Call.answers]
  generalize call.mintSuccessor.outcome world.state = outcome at afterwards floors ⊢
  obtain ⟨result, state⟩ := outcome
  cases result with
  | error error =>
      exact ⟨afterwards.1,
        fun pair member => ⟨(kept.results pair member).hasSuccessor, afterwards.2 pair member⟩,
        floors⟩
  | ok result =>
      obtain ⟨⟨files, pledged⟩, hasSuccessor, source⟩ := afterwards
      refine ⟨files, fun pair member => ?_, floors⟩
      rcases List.mem_cons.mp member with rfl | earlier
      · rcases source with minted | ⟨unchanged, replays⟩
        · exact minted.isSealed journalled hasSuccessor valid sound
        · have isSealed := replays.isSealed hasSuccessor replaysDurable
          rw [← unchanged] at isSealed
          exact isSealed
      · exact ⟨(kept.results pair earlier).hasSuccessor, pledged pair earlier⟩

theorem HistoryKept.restart (kept : HistoryKept crypto world.state returned) (floors : Map UInt64) :
    HistoryKept crypto (world.step crypto minter (.restart floors)).state returned where
  files := kept.files
  results pair member := kept.results pair member
  floors _ := UInt64.le_refl _

theorem HistoryKept.powerLoss (kept : HistoryKept crypto world.state returned)
    {recovered : Directory} (recovers : world.state.disk.Recovers recovered) (floors : Map UInt64) :
    HistoryKept crypto (world.step crypto minter (.powerLoss recovered floors)).state returned where
  files := kept.files.recovers recovers
  results pair member :=
    ⟨(kept.results pair member).hasSuccessor, (kept.results pair member).pledged.recovers recovers⟩
  floors _ := UInt64.le_refl _

theorem historyKept_of_replaysDurable (journalled : minter.journal = true)
    (history : History crypto minter (ReplaysDurable crypto minter) world returned) :
    HistoryKept crypto world.state returned := by
  induction history with
  | initial floors =>
      refine ⟨?_, fun pair member => absurd member List.not_mem_nil, fun _ => UInt64.le_refl _⟩
      intro version member name entry found
      obtain rfl : version = [] := List.mem_singleton.mp member
      cases found
  | mint environment request _ valid sound replaysDurable ih =>
      exact ih.mint journalled valid sound replaysDurable
  | restart floors _ _ ih => exact ih.restart floors
  | powerLoss recovered floors _ recovers _ ih => exact ih.powerLoss recovers floors

theorem HistoryKept.replaysExactly (kept : HistoryKept crypto world.state returned)
    (journalled : minter.journal = true) :
    ReplaysExactly crypto minter world returned := by
  intro request result member environment stores call
  have isSealed := kept.results _ member
  have replays : Triple (fun state => state = world.state ∧ FloorsStored state)
      call.mintSuccessor
      (fun value state => value = result ∧ call.FloorReached state) fun _ => False :=
    Call.mintSuccessor_replays journalled stores.load stores.floorWrite isSealed
  obtain ⟨value, state, outcome, rfl, reached⟩ := replays.returns ⟨rfl, kept.floors⟩
  obtain ⟨entry, -, seals⟩ := isSealed.pledged world.state.disk.visible List.mem_cons_self
  have epoch : value.epoch = call.epoch :=
    (Call.checkCompleted_eq_ok (seals.checked minter environment)).2
  refine ⟨state, outcome, ?_, ?_⟩
  · rw [epoch]
    exact reached.floor
  · rw [epoch]
    exact UInt64.le_trans reached.floor (reached.stored _)

end

theorem sampleSigner_honest (algorithm : String) (publicDER : Bytes) (nonce : UInt8) :
    (sampleSigner algorithm publicDER nonce).Honest sampleCrypto := by
  intro message signature signed
  obtain rfl : publicDER ++ [nonce] ++ message = signature := Except.ok.inj signed
  simp [sampleCrypto, sampleSigner]

theorem sampleEnvironment_sound (nonce : UInt8) (completion : Publication) :
    (sampleEnvironment nonce completion).Sound sampleCrypto where
  resolved handle signer resolved := by
    simp only [sampleEnvironment] at resolved
    split_ifs at resolved
    · obtain rfl := Except.ok.inj resolved
      exact sampleSigner_honest _ _ _
    · obtain rfl := Except.ok.inj resolved
      exact sampleSigner_honest _ _ _
  generated signer generated := by
    obtain rfl := Except.ok.inj generated
    exact sampleSigner_honest _ _ _
  delegationPath path bound := by
    obtain rfl : [] = path := Except.ok.inj bound
    rfl
  attestType digest attestType verified := by
    obtain ⟨rfl, rfl⟩ : [] = digest ∧ [] = attestType := Prod.mk.inj (Except.ok.inj verified)
    rfl

theorem sampleRequest_valid : sampleRequest.Valid := by
  constructor <;> decide

theorem sampleEnvironment_storesWork (nonce : UInt8) :
    (sampleEnvironment nonce .synced).StoresWork := by
  constructor <;> rfl

/-- The minter replays exactly in a run in which it replays only results that no
power loss can forget any more, whatever else it was asked, whatever failed and
whatever floors it restarted with. -/
theorem replaysExactly_of_replaysDurable
    (crypto : Crypto)
    (minter : Options)
    (journalled : minter.journal = true)
    (world : World)
    (returned : List (MintRequest × MintResult))
    (history : History crypto minter (ReplaysDurable crypto minter) world returned) :
    ReplaysExactly crypto minter world returned :=
  (historyKept_of_replaysDurable journalled history).replaysExactly journalled

def sampleAnswers (world : World) (nonce : UInt8) : List (MintRequest × MintResult) :=
  Call.answers ⟨sampleCrypto, sampleMinter, sampleEnvironment nonce .synced, sampleRequest⟩
    world.state

/-- The request of the first call, after a power loss and a restart. -/
theorem replaysExactly_of_replaysDurable_restarted :
    (sampleAnswers (World.initial []) 1).length = 1 ∧
      ReplaysExactly sampleCrypto sampleMinter restartedWorld
        (sampleAnswers (World.initial []) 1) := by
  have sealed : History sampleCrypto sampleMinter (ReplaysDurable sampleCrypto sampleMinter)
      sealedWorld (sampleAnswers (World.initial []) 1 ++ []) :=
    .mint _ _ (.initial []) sampleRequest_valid (sampleEnvironment_sound 1 .synced)
      fun _ _ _ => Disk.durable_of_synced rfl _
  rw [List.append_nil] at sealed
  exact ⟨by decide +kernel, replaysExactly_of_replaysDurable sampleCrypto sampleMinter rfl _ _
    (.restart [] (.powerLoss _ _ sealed
      (fun name => ⟨_, List.mem_cons_self, rfl⟩) trivial) trivial)⟩

/-- The power loss brings back the intent; the floors are those of the store. -/
def intentWorld : World :=
  replayedWorld.step sampleCrypto sampleMinter
    (.powerLoss (unsyncedWorld.state.disk.unsynced.headD []) replayedWorld.state.floors)

/-- Without the condition a request that was answered is refused: after the
power loss its mint is only intended, and the floor has passed it. -/
theorem not_replaysExactly_intentWorld :
    let returned := sampleAnswers unsyncedWorld 2
    sampleMinter.journal = true ∧
      returned.length = 1 ∧
      History sampleCrypto sampleMinter FloorsDurable intentWorld returned ∧
      ¬ ReplaysExactly sampleCrypto sampleMinter intentWorld returned := by
  have answered : (sampleAnswers unsyncedWorld 2).length = 1 := by
    decide +kernel
  have refusedAtFirst : Call.answers ⟨sampleCrypto, sampleMinter,
      sampleEnvironment 1 (.unsynced (bytes "input/output error")), sampleRequest⟩
      (World.initial []).state = [] := by
    decide +kernel
  have unsynced : History sampleCrypto sampleMinter FloorsDurable unsyncedWorld
      (Call.answers ⟨sampleCrypto, sampleMinter,
        sampleEnvironment 1 (.unsynced (bytes "input/output error")), sampleRequest⟩
        (World.initial []).state ++ []) :=
    .mint _ _ (.initial []) sampleRequest_valid (sampleEnvironment_sound 1 _) trivial
  rw [refusedAtFirst] at unsynced
  have replayed : History sampleCrypto sampleMinter FloorsDurable replayedWorld
      (sampleAnswers unsyncedWorld 2 ++ []) :=
    .mint _ _ unsynced sampleRequest_valid (sampleEnvironment_sound 2 .synced) trivial
  rw [List.append_nil] at replayed
  have kept : unsyncedWorld.state.disk.unsynced.headD [] ∈ replayedWorld.state.disk.versions := by
    decide +kernel
  refine ⟨rfl, answered, .powerLoss _ _ replayed (fun name => ⟨_, kept, rfl⟩) rfl,
    fun replays => ?_⟩
  obtain ⟨⟨request, result⟩, member⟩ := List.exists_mem_of_length_pos (answered ▸ Nat.one_pos)
  obtain rfl : request = sampleRequest := Call.request_of_answers member
  obtain ⟨state, outcome, -⟩ := replays _ result member _ (sampleEnvironment_storesWork 3)
  have refused : (Call.mintSuccessor ⟨sampleCrypto, sampleMinter, sampleEnvironment 3 .synced,
      sampleRequest⟩ |>.outcome intentWorld.state).1.toBool = false := by
    decide +kernel
  rw [outcome] at refused
  cases refused

end Trstctl.Succession.Minter

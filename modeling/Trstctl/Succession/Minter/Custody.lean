import Trstctl.Go.Json
import Trstctl.Succession.Minter.Equivocation

/-!
# The keys behind minted records

Runs of a minter over the key custody of the signer
(`internal/succession/signerwiring/wiring.go`): a successor is stored under the
handle of its epoch and stays there, and a handle resolves to the key stored
under it.  The record of an epoch then starts from the key that the record of
the epoch before it leads to, whatever failed or was resumed between them.
-/

namespace Trstctl.Succession.Minter

open Go (Bytes bytes Map decimal IsAscii throughJson)

/-- The handle of a key of a tenant's identity. -/
def epochHandle (identityKey : Bytes) (epoch : UInt64) : Bytes :=
  identityKey ++ bytes ":" ++ decimal epoch.toNat

variable {epoch : UInt64}

theorem epochHandle_injective {first second : Bytes}
    (same : epochHandle first epoch = epochHandle second epoch) :
    first = second := by
  rw [epochHandle, epochHandle, List.append_assoc, List.append_assoc] at same
  exact List.append_cancel_right same

theorem isAscii_tenantKeyHandle (crypto : Crypto) (tenantID identityID : Bytes) (epoch : UInt64) :
    IsAscii (tenantKeyHandle crypto tenantID identityID epoch) := by
  have scheme : IsAscii (bytes "pcas:v2:") := by
    unfold IsAscii
    decide +kernel
  have colon : IsAscii (bytes ":") := by
    unfold IsAscii
    decide +kernel
  exact ((scheme.append (Go.isAscii_hexEncode _)).append colon).append (Go.isAscii_decimal _)

theorem throughJson_of_registered {algorithm : Bytes} (registered : registryID algorithm ≠ none) :
    throughJson algorithm = algorithm := by
  have kept : ∀ entry ∈ algRegistry, throughJson entry.1 = entry.1 := by
    decide +kernel
  obtain ⟨identifier, found⟩ := Option.ne_none_iff_exists'.mp registered
  obtain ⟨before, after, split, -⟩ := List.lookup_eq_some_iff.mp found
  exact kept (algorithm, identifier) (split ▸ List.mem_append_right before List.mem_cons_self)

variable {crypto : Crypto}

theorem registered_of_commit {fields : CommitmentFields} {commitment : Bytes}
    (committed : commit crypto fields = .ok commitment) :
    registryID fields.predecessorAlg ≠ none ∧ registryID fields.successorAlg ≠ none := by
  unfold commit CommitmentFields.encode at committed
  cases predecessor : registryID fields.predecessorAlg with
  | none => simp [predecessor, Except.map] at committed
  | some predecessorID =>
      cases successor : registryID fields.successorAlg with
      | none => simp [predecessor, successor, Except.map] at committed
      | some successorID => exact ⟨by simp, by simp⟩

structure PublicKey where
  algorithm : Bytes
  der : Bytes

def Signer.publicKey (signer : Signer) : PublicKey :=
  ⟨signer.algorithm, signer.publicDER⟩

/-- The key that was stored under each handle.  A key that was destroyed or
revoked does not resolve any more, and its handle is not given to another. -/
abbrev Custody := Map PublicKey

/-- What is stored stays stored. -/
def Custody.Persists (keys later : Custody) : Prop :=
  ∀ handle key, keys.lookup handle = some key → later.lookup handle = some key

/-- The environment of a call is a key custody, before and after the call: a
handle resolves only to the key stored under it, and the successor that is
generated is stored under the handle of its epoch. -/
structure Call.InCustody (call : Call) (keys later : Custody) : Prop where
  persists : keys.Persists later
  resolves : ∀ handle signer, call.environment.resolve handle = .ok signer →
    keys.lookup handle = some signer.publicKey
  stores : ∀ signer, call.environment.generateSuccessorKey = .ok signer →
    later.lookup call.journalKey = some signer.publicKey

/-- Runs in which every request names the key of the epoch it asserts.  Between
calls further keys may be stored. -/
inductive CustodyRun (crypto : Crypto) (minter : Options) : World → Custody → Prop where
  | initial (floors : Map UInt64) (keys : Custody) :
      CustodyRun crypto minter (World.initial floors) keys
  | mint {world : World} {keys : Custody} (environment : Environment) (request : MintRequest)
      (later : Custody) :
      CustodyRun crypto minter world keys →
      request.predecessorHandle =
        tenantKeyHandle crypto request.tenantID request.identityID
          request.assertedPredecessorEpoch →
      Call.InCustody ⟨crypto, minter, environment, request⟩ keys later →
      CustodyRun crypto minter (world.step crypto minter (.mint environment request)) later
  | restart {world : World} {keys : Custody} (floors : Map UInt64) :
      CustodyRun crypto minter world keys →
      CustodyRun crypto minter (world.step crypto minter (.restart floors)) keys
  | powerLoss {world : World} {keys : Custody} (recovered : Directory) (floors : Map UInt64) :
      CustodyRun crypto minter world keys →
      world.state.disk.Recovers recovered →
      CustodyRun crypto minter (world.step crypto minter (.powerLoss recovered floors)) keys
  | store {world : World} {keys : Custody} (later : Custody) :
      CustodyRun crypto minter world keys →
      keys.Persists later →
      CustodyRun crypto minter world later

/-- A record of an epoch names the keys that are stored under the handles of the
epoch and of the one before it. -/
structure Custodied (keys : Custody) (identityKey : Bytes) (epoch : UInt64)
    (record : SuccessionRecord) : Prop where
  successor : keys.lookup (epochHandle identityKey epoch) =
    some ⟨record.fields.successorAlg, record.fields.successorPub⟩
  predecessor : ∀ previous, previous + 1 = epoch →
    keys.lookup (epochHandle identityKey previous) =
      some ⟨record.fields.predecessorAlg, record.fields.predecessorPub⟩

variable {keys : Custody}

theorem Custodied.persists {later : Custody} {identityKey : Bytes} {record : SuccessionRecord}
    (custodied : Custodied keys identityKey epoch record) (persists : keys.Persists later) :
    Custodied later identityKey epoch record where
  successor := persists _ _ custodied.successor
  predecessor previous next := persists _ _ (custodied.predecessor previous next)

theorem Custodied.linked {identityKey : Bytes} {earlier later : SuccessionRecord}
    (first : Custodied keys identityKey epoch earlier)
    (second : Custodied keys identityKey (epoch + 1) later) :
    later.fields.predecessorPub = earlier.fields.successorPub ∧
      later.fields.predecessorAlg = earlier.fields.successorAlg := by
  have between := Option.some.inj ((second.predecessor epoch rfl).symm.trans first.successor)
  obtain ⟨algorithm, der⟩ := PublicKey.mk.inj between
  exact ⟨der, algorithm⟩

/-- A completed entry holds a record of stored keys. -/
def EntryCustodied (keys : Custody) (entry : MintJournalEntry) : Prop :=
  ∀ result, entry.result = some result →
    ∀ identityKey, entry.key = epochHandle identityKey result.epoch →
      Custodied keys identityKey result.epoch (decodeRecord result.encodedRecord)

theorem EntryCustodied.persists {later : Custody} {entry : MintJournalEntry}
    (custodied : EntryCustodied keys entry) (persists : keys.Persists later) :
    EntryCustodied later entry :=
  fun result held identityKey named => (custodied result held identityKey named).persists persists

section

variable {call : Call} {keys later : Custody}

theorem Call.InCustody.successorKey (custody : call.InCustody keys later)
    {resumed : Bool} {successor : Signer} (generated : call.successorKey resumed = .ok successor) :
    later.lookup call.journalKey = some successor.publicKey := by
  unfold Call.successorKey at generated
  split_ifs at generated
  · cases resolved : call.environment.resolve call.journalKey with
    | ok stored =>
        rw [resolved] at generated
        obtain rfl := Except.ok.inj generated
        exact custody.persists _ _ (custody.resolves _ _ resolved)
    | error error =>
        rw [resolved] at generated
        exact custody.stores _ (Result.mapError_eq_ok.mp generated)
  · exact custody.stores _ (Result.mapError_eq_ok.mp generated)

theorem Call.InCustody.custodied (custody : call.InCustody keys later)
    (named : call.request.predecessorHandle = epochHandle call.floorKey
      call.request.assertedPredecessorEpoch)
    {passed : Passed} {result : MintResult}
    (mints : call.Mints passed result) :
    Custodied later call.floorKey call.epoch (decodeRecord result.encodedRecord) := by
  obtain ⟨predecessor, successor, resumed, record, resolved, generated, signs⟩ := mints.signs
  obtain ⟨commitment, _, _, _, committed, _, _, record_eq⟩ := signs.signed
  obtain ⟨predecessorKept, successorKept⟩ := registered_of_commit committed
  rw [signs.result_eq, record_eq]
  constructor
  · have stored := custody.successorKey generated
    rw [show call.journalKey = epochHandle call.floorKey call.epoch from rfl] at stored
    rw [stored]
    exact congrArg some (congrArg (PublicKey.mk · successor.publicDER)
      (throughJson_of_registered successorKept).symm)
  · intro previous next
    obtain rfl : previous = call.request.assertedPredecessorEpoch :=
      (UInt64.add_left_inj 1).mp next
    have stored := custody.persists _ _ (custody.resolves _ _ resolved)
    rw [named] at stored
    rw [stored]
    exact congrArg some (congrArg (PublicKey.mk · predecessor.publicDER)
      (throughJson_of_registered predecessorKept).symm)

theorem Call.InCustody.keeps (custody : call.InCustody keys later)
    (named : call.request.predecessorHandle = epochHandle call.floorKey
      call.request.assertedPredecessorEpoch) :
    call.Keeps (Disk.Holds (EntryCustodied later)) fun _ => True where
  sync holds := holds.syncDirectory
  gates _ := trivial
  resumed _ _ := trivial
  intent holds _ _ := holds.publish _ fun result held => by cases held
  completion := by
    intro disk passed result prior holds _ mints _ _
    refine holds.publish _ ?_
    intro stored held identityKey key
    obtain rfl := Option.some.inj held
    have ascii := isAscii_tenantKeyHandle call.crypto call.request.tenantID
      call.request.identityID call.epoch
    have sameKey : epochHandle call.floorKey call.epoch = epochHandle identityKey result.epoch :=
      (Go.throughJson_of_ascii ascii).symm.trans key
    rw [mints.epoch] at sameKey
    obtain rfl := epochHandle_injective sameKey
    change Custodied later call.floorKey result.epoch (decodeRecord result.encodedRecord)
    rw [mints.epoch]
    exact custody.custodied named mints

end

/-- Every record that was returned, and every one in the journal, is of stored
keys. -/
structure KeysRecorded (crypto : Crypto) (world : World) (keys : Custody) : Prop where
  released : ∀ release ∈ world.released,
    Custodied keys (tenantIdentityKey crypto release.tenantID release.identityID) release.epoch
      (decodeRecord release.record)
  files : world.state.disk.Holds (EntryCustodied keys)

variable {world : World}

theorem KeysRecorded.persists {later : Custody}
    (recorded : KeysRecorded crypto world keys) (persists : keys.Persists later) :
    KeysRecorded crypto world later where
  released release member := (recorded.released release member).persists persists
  files := recorded.files.mono fun _ custodied => custodied.persists persists

theorem KeysRecorded.mint {minter : Options} {later : Custody}
    {environment : Environment} {request : MintRequest} (recorded : KeysRecorded crypto world keys)
    (named : request.predecessorHandle =
      tenantKeyHandle crypto request.tenantID request.identityID request.assertedPredecessorEpoch)
    (custody : Call.InCustody ⟨crypto, minter, environment, request⟩ keys later) :
    KeysRecorded crypto (world.step crypto minter (.mint environment request)) later := by
  have persisted := recorded.persists custody.persists
  have afterwards := Call.mintSuccessor_spec (custody.keeps named) world.state world.state
    ⟨rfl, persisted.files⟩
  simp only [World.step]
  generalize (Call.mintSuccessor _).outcome world.state = outcome at afterwards ⊢
  obtain ⟨result, state⟩ := outcome
  cases result with
  | error error => exact ⟨persisted.released, afterwards⟩
  | ok result =>
      obtain ⟨files, -, returned⟩ := afterwards
      refine ⟨?_, files⟩
      intro release member
      rcases List.mem_cons.mp member with rfl | earlier
      · rcases returned with ⟨passed, -, mints, -⟩ | ⟨-, entry, found, -, checked⟩
        · rw [Call.release, mints.epoch]
          exact custody.custodied named mints
        · have finds := Call.lookup_eq_some found
          obtain ⟨held, epoch⟩ := Call.checkCompleted_eq_ok checked
          refine persisted.files _ List.mem_cons_self _ _ finds.visible result held _ ?_
          rw [finds.key, epoch]
          rfl
      · exact persisted.released release earlier

theorem keysRecorded_of_run {minter : Options} (run : CustodyRun crypto minter world keys) :
    KeysRecorded crypto world keys := by
  induction run with
  | initial floors keys =>
      refine ⟨fun release member => absurd member List.not_mem_nil, ?_⟩
      intro version member name entry found
      obtain rfl : version = [] := List.mem_singleton.mp member
      cases found
  | mint environment request later _ named custody ih =>
      exact ih.mint named custody
  | restart floors _ ih => exact ⟨ih.released, ih.files⟩
  | powerLoss recovered floors _ recovers ih =>
      exact ⟨ih.released, ih.files.recovers recovers⟩
  | store later _ persists ih =>
      exact ih.persists persists

/-- The records of an identity that a run returned form a chain: the record of
the next epoch starts from the key that the record of an epoch leads to. -/
theorem released_linked
    {crypto : Crypto} {minter : Options} {world : World} {keys : Custody}
    (run : CustodyRun crypto minter world keys) :
    ∀ earlier ∈ world.released, ∀ later ∈ world.released,
      later.tenantID = earlier.tenantID → later.identityID = earlier.identityID →
        later.epoch = earlier.epoch + 1 →
          (decodeRecord later.record).fields.predecessorPub =
              (decodeRecord earlier.record).fields.successorPub ∧
            (decodeRecord later.record).fields.predecessorAlg =
              (decodeRecord earlier.record).fields.successorAlg := by
  intro earlier earlierMember later laterMember sameTenant sameIdentity next
  have recorded := keysRecorded_of_run run
  have first := recorded.released earlier earlierMember
  have second := recorded.released later laterMember
  rw [sameTenant, sameIdentity, next] at second
  exact first.linked second

theorem Custody.persists_set {handle : Bytes} (free : keys.lookup handle = none) (key : PublicKey) :
    keys.Persists (keys.set handle key) := by
  intro other stored found
  rw [Go.MapOf.lookup_set, if_neg]
  · exact found
  · rintro rfl
    rw [free] at found
    cases found

def sampleHandle (epoch : UInt64) : Bytes :=
  tenantKeyHandle sampleCrypto sampleRequest.tenantID sampleRequest.identityID epoch

/-- A signer over a stored key. -/
def keySigner (key : PublicKey) : Signer where
  algorithm := key.algorithm
  publicDER := key.der
  sign message := .ok (key.der ++ [1] ++ message)

/-- Nothing fails, and handles resolve to what is stored. -/
def custodyEnvironment (keys : Custody) (successor : PublicKey) : Environment :=
  { sampleEnvironment 1 .synced with
    resolve := fun handle =>
      match keys.lookup handle with
      | some key => .ok (keySigner key)
      | none => .error []
    generateSuccessorKey := .ok (keySigner successor) }

def requestAfter (epoch : UInt64) : MintRequest :=
  { sampleRequest with
    predecessorHandle := sampleHandle epoch
    assertedPredecessorEpoch := epoch }

theorem inCustody_custodyEnvironment (successor : PublicKey)
    (free : keys.lookup (sampleHandle (epoch + 1)) = none) :
    Call.InCustody
      ⟨sampleCrypto, sampleMinter, custodyEnvironment keys successor, requestAfter epoch⟩ keys
      (keys.set (sampleHandle (epoch + 1)) successor) where
  persists := Custody.persists_set free successor
  resolves := by
    intro handle signer resolved
    simp only [custodyEnvironment] at resolved
    cases stored : keys.lookup handle with
    | none => simp [stored] at resolved
    | some key =>
        rw [stored] at resolved
        obtain rfl := Except.ok.inj resolved
        rfl
  stores := by
    intro signer generated
    obtain rfl := Except.ok.inj generated
    change (keys.set (sampleHandle (epoch + 1)) successor).lookup (sampleHandle (epoch + 1)) = _
    rw [Go.MapOf.lookup_set, if_pos rfl]
    rfl

/-- The key of the genesis record. -/
def genesisCustody : Custody :=
  [(sampleHandle 0, ⟨bytes "ECDSA-P256", [1]⟩)]

/-- The key of the first successor is stored. -/
def firstCustody : Custody :=
  genesisCustody.set (sampleHandle 1) ⟨bytes "ML-DSA-65", [2]⟩

/-- The first epoch is minted. -/
def firstWorld : World :=
  (World.initial []).step sampleCrypto sampleMinter
    (.mint (custodyEnvironment genesisCustody ⟨bytes "ML-DSA-65", [2]⟩) (requestAfter 0))

/-- The second epoch is minted. -/
def secondWorld : World :=
  firstWorld.step sampleCrypto sampleMinter
    (.mint (custodyEnvironment firstCustody ⟨bytes "ML-DSA-65", [3]⟩) (requestAfter 1))

/-- The second record starts from the key of the first. -/
theorem released_linked_secondWorld :
    secondWorld.released.length = 2 ∧
      ∀ earlier ∈ secondWorld.released, ∀ later ∈ secondWorld.released,
        later.tenantID = earlier.tenantID → later.identityID = earlier.identityID →
          later.epoch = earlier.epoch + 1 →
            (decodeRecord later.record).fields.predecessorPub =
                (decodeRecord earlier.record).fields.successorPub ∧
              (decodeRecord later.record).fields.predecessorAlg =
                (decodeRecord earlier.record).fields.successorAlg := by
  have first : CustodyRun sampleCrypto sampleMinter firstWorld firstCustody :=
    .mint _ _ _ (.initial [] genesisCustody) rfl
      (inCustody_custodyEnvironment _ (by decide +kernel))
  have second : CustodyRun sampleCrypto sampleMinter secondWorld
      (firstCustody.set (sampleHandle (1 + 1)) ⟨bytes "ML-DSA-65", [3]⟩) :=
    .mint _ _ _ first rfl (inCustody_custodyEnvironment _ (by decide +kernel))
  exact ⟨by decide +kernel, released_linked second⟩

end Trstctl.Succession.Minter

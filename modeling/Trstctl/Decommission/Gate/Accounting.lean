import Trstctl.Decommission.Depstate.KeyStates
import Trstctl.Decommission.Gate.Verify

/-!
# Approved destructions leave no open dependency

The projection of a key registers every dependent that an event registers for
it, and accounts only for dependents that an event accounts for.  Both are
invariants of the fold, so an approval, which rests on a state without
unaccounted dependents, leaves no dependency open.
-/

namespace Trstctl.Decommission.Gate

open Go (Bytes bytes jsonPair)
open Result (bind_eq_ok guard_eq_ok)
open Depstate

/-- The event registers a dependent of the key, explicitly or as a CA event. -/
def Registers (codec : Depstate.Codec) (event : Event) (key : ProjectionKey)
    (dependent : Dependent) : Prop :=
  (∃ payload, decode codec event = .ok (.registered payload) ∧
    ⟨payload.tenantID, payload.keyID⟩ = key ∧ payload.dependent = dependent) ∨
  ∃ registrations, caRegistrations codec event = .ok registrations ∧
    ∃ registered ∈ registrations,
      ⟨registered.tenantID, registered.keyID⟩ = key ∧ registered.dependent = dependent

/-- The event completes, releases or erasure-designates a dependent of the
key. -/
def Accounts (codec : Depstate.Codec) (event : Event) (key : ProjectionKey)
    (dependent : Dependent) : Prop :=
  ∃ payload operation, decode codec event = .ok payload ∧
    payloadChange payload = some ⟨key, dependent, operation⟩ ∧ operation ≠ .register

/-- A state has every dependent that the events registered for the key, and
closes only dependents that the events account for. -/
structure Tracks (codec : Depstate.Codec) (events : List Event) (key : ProjectionKey)
    (state : KeyState) : Prop where
  registered : ∀ event ∈ events, ∀ dependent, Registers codec event key dependent →
    hasKey state.registered dependent = true
  accounted : ∀ dependent ∈ closed state, ∃ event ∈ events, Accounts codec event key dependent

variable {codec : Depstate.Codec}

variable {event : Event} {key : ProjectionKey}

/-- One event keeps the invariant. -/
theorem tracks_foldEvent {index : Nat} {events : List Event} {state result : FoldState}
    (success : foldEvent codec index event state = .ok result)
    (tracks : Tracks codec events key (keyState state key)) :
    Tracks codec (events ++ [event]) key (keyState result key) := by
  simp only [foldEvent, bind_eq_ok, atEvent_eq_ok] at success
  obtain ⟨started, ceremony, registrations, derived, registeredState, registers, remembered,
    revocations, payload, decoded, applies⟩ := success
  have beforeStart := keyState_applyReleaseCeremonyEvent ceremony
  obtain ⟨more, sameClosed, all⟩ := keyState_registerAll registrations key registers
  rw [beforeStart, ← keyState_rememberRevocations revocations] at more sameClosed
  rw [← keyState_rememberRevocations revocations] at all
  have applied := keyState_applyPayload applies key
  -- what the payload does to the state of the key
  have afterPayload : RegistersMore (keyState remembered key) (keyState result key) ∧
      (∀ dependent ∈ closed (keyState result key), dependent ∈ closed (keyState remembered key) ∨
        Accounts codec event key dependent) ∧
      (∀ dependent, payloadChange payload = some ⟨key, dependent, .register⟩ →
        hasKey (keyState result key).registered dependent = true) := by
    rw [applied]
    cases isChange : payloadChange payload with
    | none => exact ⟨fun _ present => present, fun _ member => Or.inl member, fun _ => nofun⟩
    | some change =>
        obtain ⟨changeKey, changed, operation⟩ := change
        by_cases isKey : key = changeKey
        · subst isKey
          simp only [if_true]
          refine ⟨registersMore_apply _ _ _, fun dependent member => ?_, ?_⟩
          · refine (mem_closed_apply member).imp_right ?_
            rintro ⟨rfl, closes⟩
            exact ⟨payload, operation, decoded, isChange, closes⟩
          · rintro dependent ⟨⟩
            exact hasKey_appendUnique_self _ _
        · simp only [isKey, if_false]
          refine ⟨fun _ present => present, fun _ member => Or.inl member, ?_⟩
          rintro dependent ⟨⟩
          exact absurd rfl isKey
  obtain ⟨moreAfter, closedAfter, registeredAfter⟩ := afterPayload
  constructor
  · intro other member dependent registersOther
    rcases List.mem_append.mp member with old | new
    · exact moreAfter _ (more _ (tracks.registered other old dependent registersOther))
    · obtain rfl := List.mem_singleton.mp new
      rcases registersOther with ⟨explicit, decodedExplicit, rfl, rfl⟩ |
        ⟨others, derivedOthers, registered, isRegistered, sameKey, rfl⟩
      · obtain rfl := Except.ok.inj (decoded.symm.trans decodedExplicit)
        exact registeredAfter _ rfl
      · obtain rfl := Except.ok.inj (derived.symm.trans derivedOthers)
        exact moreAfter _ (all registered isRegistered sameKey)
  · intro dependent member
    rcases closedAfter dependent member with old | new
    · rw [sameClosed] at old
      obtain ⟨other, otherMember, accounts⟩ := tracks.accounted dependent old
      exact ⟨other, List.mem_append_left _ otherMember, accounts⟩
    · exact ⟨event, List.mem_append_right _ (List.mem_singleton_self event), new⟩

theorem tracks_foldEvents (rest : List Event) :
    ∀ {index : Nat} {events : List Event} {state result : FoldState},
      foldEvents codec index rest state = .ok result →
        Tracks codec events key (keyState state key) →
          Tracks codec (events ++ rest) key (keyState result key) := by
  induction rest with
  | nil =>
      intro index events state result success tracks
      rw [List.append_nil, ← Except.ok.inj success]
      exact tracks
  | cons event rest ih =>
      intro index events state result success tracks
      obtain ⟨next, step, success⟩ := bind_eq_ok.mp success
      have later := ih success (tracks_foldEvent step tracks)
      rwa [List.append_assoc, List.singleton_append] at later

theorem tracks_fold {events : List Event} {projection : Projection}
    (success : fold codec events = .ok projection) (key : ProjectionKey) (position : Nat) :
    Tracks codec events key ((projection.lookup key).getD
      ⟨key.keyID, key.tenantID, [], [], [], [], position⟩) := by
  obtain ⟨state, folded, success⟩ := bind_eq_ok.mp success
  have start : Tracks codec [] key (keyState ⟨[], []⟩ key) :=
    ⟨fun _ member => absurd member List.not_mem_nil, fun _ member => absurd member List.not_mem_nil⟩
  have tracks := tracks_foldEvents events folded start
  rw [List.nil_append] at tracks
  rw [← Except.ok.inj success, Go.MapOf.lookup_map]
  unfold keyState FoldState.builderFor at tracks
  cases found : state.builders.lookup key with
  | some builder =>
      rw [found] at tracks
      exact tracks
  | none =>
      rw [found] at tracks
      exact ⟨tracks.registered, tracks.accounted⟩

/-- Bounding keeps an event at a position within the bound, with its position
as its sequence. -/
theorem mem_boundEventsFrom_iff {bound : Nat} {bounded : Event} (events : List Event) :
    ∀ {start : Nat}, bounded ∈ boundEventsFrom bound start events ↔
      ∃ index event, events[index]? = some event ∧ eventPosition (start + index) event ≤ bound ∧
        bounded = { event with sequence := eventPosition (start + index) event } := by
  induction events with
  | nil => simp [boundEventsFrom]
  | cons first rest ih =>
      intro start
      have tail : bounded ∈ boundEventsFrom bound (start + 1) rest ↔
          ∃ index event, (first :: rest)[index + 1]? = some event ∧
            eventPosition (start + (index + 1)) event ≤ bound ∧
            bounded = { event with sequence := eventPosition (start + (index + 1)) event } := by
        rw [ih]
        simp only [List.getElem?_cons_succ, Nat.add_right_comm start 1, Nat.add_assoc]
      have split : (∃ index event, (first :: rest)[index]? = some event ∧
            eventPosition (start + index) event ≤ bound ∧
            bounded = { event with sequence := eventPosition (start + index) event }) ↔
          (eventPosition start first ≤ bound ∧
            bounded = { first with sequence := eventPosition start first }) ∨
          ∃ index event, (first :: rest)[index + 1]? = some event ∧
            eventPosition (start + (index + 1)) event ≤ bound ∧
            bounded = { event with sequence := eventPosition (start + (index + 1)) event } := by
        constructor
        · rintro ⟨index, event, found⟩
          cases index with
          | zero =>
              obtain ⟨⟨⟩, within, same⟩ := found
              exact Or.inl ⟨within, same⟩
          | succ index => exact Or.inr ⟨index, event, found⟩
        · rintro (⟨within, same⟩ | ⟨index, event, found⟩)
          · exact ⟨0, first, rfl, within, same⟩
          · exact ⟨index + 1, event, found⟩
      rw [split, ← tail, boundEventsFrom]
      split_ifs with beyond
      · simp [Nat.not_le.mpr beyond]
      · simp [Nat.not_lt.mp beyond]

theorem validateSchemaVersion_withSequence
    (valid : validateSchemaVersion event = .ok ()) (position : Nat) :
    validateSchemaVersion { event with sequence := position } = .ok () := by
  unfold validateSchemaVersion at valid ⊢
  split_ifs at valid with accepted
  exact if_pos accepted

theorem caRegistrations_withSequence {registrations : List DependencyRegisteredV1}
    (derived : caRegistrations codec event = .ok registrations) (position : Nat) :
    caRegistrations codec { event with sequence := position } = .ok registrations := by
  unfold caRegistrations at derived ⊢
  split_ifs at derived ⊢
  case' neg => exact derived
  -- Every kind of event of the CA is read after its schema version.
  all_goals
    obtain ⟨_, valid, rest⟩ := bind_eq_ok.mp derived
    exact bind_eq_ok.mpr ⟨(), validateSchemaVersion_withSequence valid position, rest⟩

theorem registers_withSequence {dependent : Dependent}
    (registers : Registers codec event key dependent) (position : Nat) :
    Registers codec { event with sequence := position } key dependent := by
  rcases registers with explicit | ⟨registrations, derived, named⟩
  · exact Or.inl explicit
  · exact Or.inr ⟨registrations, caRegistrations_withSequence derived position, named⟩

theorem unaccounted_of_approved
    {codec : Codec} {gate : DestructionGate} {request : GatedDestroyRequest}
    {state : KeyState} {decision : GatedDestroyDecision}
    (verified : verifyGatedDestroyState codec gate request state = .ok decision)
    (approved : decision.approved = true) :
    state.unaccounted = [] := by
  by_contra unaccounted
  have refused : refuse gate request state state.unaccounted = .ok decision := by
    simp only [verifyGatedDestroyState, guard_eq_ok, ne_eq, unaccounted,
      not_false_eq_true, if_true] at verified
    obtain ⟨-, verified⟩ := verified
    split_ifs at verified
    · exact verified
    · exact (bind_eq_ok.mp verified).choose_spec.2
  obtain ⟨record, -, result⟩ := bind_eq_ok.mp refused
  rw [← Except.ok.inj result] at approved
  exact Bool.noConfusion approved

theorem of_approved {codec : Codec} {gate : DestructionGate} {contextError : Option Bytes}
    {request : GatedDestroyRequest} {decision : GatedDestroyDecision}
    (verified : verifyGatedDestroy codec gate contextError request = .ok decision)
    (approved : decision.approved = true) :
    ∃ segment projection,
      decodeLedgerSegment codec request.satisfactionEvidence = .ok segment ∧
      fold codec.toCodec (boundEvents segment.events request.ledgerPosition) = .ok projection ∧
      ((projection.lookup ⟨request.tenantID, request.subjectRef⟩).getD
        ⟨request.subjectRef, request.tenantID, [], [], [], [],
          request.ledgerPosition⟩).unaccounted = [] := by
  cases contextError with
  | some detail => cases verified
  | none =>
      simp only [verifyGatedDestroy, guard_eq_ok, bind_eq_ok] at verified
      obtain ⟨-, -, segment, decoded, -, -, projection, folded, verified⟩ := verified
      exact ⟨segment, projection, decoded, folded, unaccounted_of_approved verified approved⟩

theorem eq_of_key_eq {dependent other : Dependent}
    (plainClass : (0 : UInt8) ∉ dependent.dependentClass) (plainID : (0 : UInt8) ∉ dependent.id)
    (same : other.key = dependent.key) :
    other = dependent := by
  obtain ⟨otherClass, otherID⟩ := other
  obtain ⟨plainClassName, plainIDName⟩ := dependent
  simp only [Dependent.key, List.append_assoc, List.singleton_append] at same
  rcases List.append_eq_append_iff.mp same with ⟨extra, longer, tail⟩ | ⟨extra, longer, tail⟩
  · cases extra with
    | nil =>
        simp only [List.nil_append, List.cons.injEq, true_and, List.append_nil] at longer tail
        rw [longer, tail]
    | cons byte extra =>
        obtain ⟨rfl, -⟩ := List.cons.inj tail
        exact absurd (by simp [longer]) plainClass
  · cases extra with
    | nil =>
        simp only [List.nil_append, List.cons.injEq, true_and, List.append_nil] at longer tail
        rw [longer, tail]
    | cons byte extra =>
        obtain ⟨rfl, idEq⟩ := List.cons.inj tail
        exact absurd (by simp [idEq]) plainID

/-- Every dependent that an event within the ledger position registers for the
requested key is completed, released or erasure-designated for that key by an
event within the ledger position, when the gate approves. -/
theorem accounted_of_approved
    {codec : Codec} {gate : DestructionGate} {contextError : Option Bytes}
    {request : GatedDestroyRequest} {decision : GatedDestroyDecision}
    {segment : LedgerSegmentV1} {index : Nat} {event : Event} {dependent : Dependent}
    (verified : verifyGatedDestroy codec gate contextError request = .ok decision)
    (approved : decision.approved = true)
    (decoded : decodeLedgerSegment codec request.satisfactionEvidence = .ok segment)
    (found : segment.events[index]? = some event)
    (within : eventPosition index event ≤ request.ledgerPosition)
    (registers : Registers codec.toCodec event ⟨request.tenantID, request.subjectRef⟩ dependent)
    (plainClass : (0 : UInt8) ∉ dependent.dependentClass)
    (plainID : (0 : UInt8) ∉ dependent.id) :
    ∃ index' event', segment.events[index']? = some event' ∧
      eventPosition index' event' ≤ request.ledgerPosition ∧
      Accounts codec.toCodec event' ⟨request.tenantID, request.subjectRef⟩ dependent := by
  obtain ⟨decodedSegment, projection, decodes, folded, unaccounted⟩ := of_approved verified approved
  obtain rfl := Except.ok.inj (decodes.symm.trans decoded)
  have tracks := tracks_fold folded ⟨request.tenantID, request.subjectRef⟩ request.ledgerPosition
  -- the event is among the folded ones, so its dependent is registered
  have bounded : { event with sequence := eventPosition index event } ∈
      boundEvents decodedSegment.events request.ledgerPosition := by
    refine (mem_boundEventsFrom_iff _).mpr ⟨index, event, found, ?_, ?_⟩
    · rwa [Nat.zero_add]
    · rw [Nat.zero_add]
  have present := tracks.registered _ bounded dependent (registers_withSequence registers _)
  obtain ⟨registered, isRegistered, sameKey⟩ := List.any_eq_true.mp present
  have isDependent := eq_of_key_eq plainClass plainID (beq_iff_eq.mp sameKey)
  rw [isDependent] at isRegistered
  -- no dependent is unaccounted, so one with its key is closed
  have isClosed := List.filter_eq_nil_iff.mp unaccounted dependent isRegistered
  rw [Bool.not_eq_true, Bool.not_eq_false'] at isClosed
  obtain ⟨other, isOther, otherKey⟩ := List.any_eq_true.mp isClosed
  obtain rfl := eq_of_key_eq plainClass plainID (beq_iff_eq.mp otherKey)
  obtain ⟨accounting, isAccounting, accounts⟩ := tracks.accounted other isOther
  obtain ⟨index', event', found', within', rfl⟩ := (mem_boundEventsFrom_iff _).mp isAccounting
  rw [Nat.zero_add] at within'
  exact ⟨index', event', found', within', accounts⟩

/-- The JSON text of a payload on the credential `c` of the key `k`. -/
def sampleData : Bytes :=
  Go.jsonObject [jsonPair "tenant_id" (Go.jsonString (bytes "t")),
    jsonPair "key_id" (Go.jsonString (bytes "k")),
    jsonPair "dependent" (Dependent.json ⟨dependentCredential, bytes "c"⟩)]

/-- An event on that credential. -/
def sampleEvent (type : Bytes) (sequence : Nat) : Event :=
  ⟨[], type, bytes "t", sampleData, sequence, none, 1⟩

/-- The credential is registered, and then its revocation is completed. -/
def sampleEvents : List Event :=
  [sampleEvent (bytes "dependency.registered") 1, sampleEvent (bytes "revocation.completed") 2]

/-- The JSON text of the segment with those events. -/
def sampleSegment : Bytes :=
  Go.jsonObject [jsonPair "version" (Go.decimal 1),
    jsonPair "events" (Go.jsonArray (sampleEvents.map fun event =>
      Go.jsonObject [jsonPair "Type" (Go.jsonString event.type),
        jsonPair "TenantID" (Go.jsonString event.tenantID),
        jsonPair "Data" (Go.jsonBytes event.data),
        jsonPair "Sequence" (Go.decimal event.sequence),
        jsonPair "SchemaVersion" (Go.decimal event.schemaVersion)]))]

/-- The readings of the texts above. -/
def sampleCodec : Codec where
  toCodec :=
    { Depstate.Codec.unreadable with
      registered := readText sampleData
        ⟨bytes "t", bytes "k", ⟨dependentCredential, bytes "c"⟩, []⟩
        Depstate.Codec.unreadable.registered
      revocationCompleted := readText sampleData
        ⟨bytes "t", bytes "k", [], ⟨dependentCredential, bytes "c"⟩⟩
        Depstate.Codec.unreadable.revocationCompleted }
  ledgerSegment := readText sampleSegment ⟨1, 0, sampleEvents⟩
    fun _ => .error (bytes "unexpected end of JSON input")
  requiredSet _ := .error (bytes "unexpected end of JSON input")
  destroyContext _ := .error (bytes "unexpected end of JSON input")
  quorumApprovals _ := .error (bytes "unexpected end of JSON input")
  quote text := text

/-- A gate without quorums. -/
def sampleGate : DestructionGate where
  quorum := []
  refusal _ _ _ := .error (bytes "vdec gate: sign refusal")

/-- A request to destroy the key at the position of its last event. -/
def sampleRequest : GatedDestroyRequest where
  tenantID := bytes "t"
  subjectRef := bytes "k"
  assertedFinalEpoch := 1
  ledgerPosition := 2
  requiredSet := []
  requiredSetDigest := []
  satisfactionEvidence := sampleSegment
  approvals := []
  auditChainHead := []
  context := []

/-- The registered credential of an approved request is accounted for. -/
theorem accounted_of_approved_one_credential :
    ∃ index event, sampleEvents[index]? = some event ∧ eventPosition index event ≤ 2 ∧
      Accounts sampleCodec.toCodec event ⟨bytes "t", bytes "k"⟩
        ⟨dependentCredential, bytes "c"⟩ := by
  have verified : verifyGatedDestroy sampleCodec sampleGate none sampleRequest =
      .ok ⟨true, [], [], List.replicate 32 0⟩ := by decide +kernel
  have decoded : decodeLedgerSegment sampleCodec sampleRequest.satisfactionEvidence =
      .ok ⟨1, 0, sampleEvents⟩ := by decide +kernel
  have found : sampleEvents[0]? = some (sampleEvent (bytes "dependency.registered") 1) := rfl
  have registered : decode sampleCodec.toCodec (sampleEvent (bytes "dependency.registered") 1) =
      .ok (.registered ⟨bytes "t", bytes "k", ⟨dependentCredential, bytes "c"⟩, []⟩) := by
    decide +kernel
  exact accounted_of_approved verified rfl decoded found (by decide)
    (Or.inl ⟨_, registered, rfl, rfl⟩) (by decide +kernel) (by decide +kernel)

end Trstctl.Decommission.Gate

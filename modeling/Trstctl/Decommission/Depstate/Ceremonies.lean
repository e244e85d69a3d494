import Trstctl.Decommission.Depstate.KeyStates

/-!
# Open ceremonies of a fold

A fold keeps every open release ceremony twice: in the builder of its key, and
in one index over all tenants.  The index never loses a ceremony that a builder
still has, so an identity is open for at most one key at a time.  A source-bound
release is accepted only for a ceremony that is open for its own key.
-/

namespace Trstctl.Decommission.Depstate

open Go (Bytes bytes MapOf)
open Result (bind_eq_ok guard_eq_ok)

theorem builderFor_setBuilder (state : FoldState) (key : ProjectionKey) (builder : KeyBuilder)
    (other : ProjectionKey) :
    (state.setBuilder key builder).builderFor other =
      if other = key then builder else state.builderFor other := by
  simp only [FoldState.builderFor, FoldState.setBuilder]
  rw [MapOf.lookup_set]
  split_ifs
  · rfl
  · rfl

theorem builderFor_withIndex (state : FoldState) (index : Go.Map ProjectionKey) :
    FoldState.builderFor { state with ceremonyIndex := index } = state.builderFor := rfl

theorem builderFor_closeCeremony (state : FoldState) (key : ProjectionKey) (ceremonyID : Bytes)
    (other : ProjectionKey) :
    (state.closeCeremony key ceremonyID).builderFor other =
      if other = key then
        { state.builderFor key with
          ceremonies := (state.builderFor key).ceremonies.delete ceremonyID }
      else state.builderFor other := by
  rw [FoldState.closeCeremony, builderFor_withIndex, builderFor_setBuilder]

def FoldState.openCeremony (state : FoldState) (key : ProjectionKey) (started : CeremonyStarted) :
    FoldState :=
  { state.setBuilder key
      { state.builderFor key with
        ceremonies :=
          (state.builderFor key).ceremonies.set started.ceremonyID (newCeremony started) } with
    ceremonyIndex := state.ceremonyIndex.set started.ceremonyID key }

theorem builderFor_openCeremony (state : FoldState) (key : ProjectionKey)
    (started : CeremonyStarted) (other : ProjectionKey) :
    (state.openCeremony key started).builderFor other =
      if other = key then
        { state.builderFor key with
          ceremonies :=
            (state.builderFor key).ceremonies.set started.ceremonyID (newCeremony started) }
      else state.builderFor other := by
  rw [FoldState.openCeremony, builderFor_withIndex, builderFor_setBuilder]

variable {codec : Codec} {state result : FoldState} {event : Event}

theorem startCeremony_eq_ok :
    state.startCeremony codec event = .ok result ↔
      ∃ started, codec.ceremonyStarted event.data = .ok started ∧
        (releasePurposeKey codec started.purpose = none ∧ state = result ∨
          ∃ keyID, releasePurposeKey codec started.purpose = some keyID ∧
            ¬ (started.ceremonyID = [] ∨ started.threshold < 2) ∧
            state.ceremonyIndex.lookup started.ceremonyID = none ∧
            state.openCeremony ⟨event.tenantID, keyID⟩ started = result) := by
  unfold FoldState.startCeremony
  rw [bind_eq_ok]
  refine exists_congr fun started => and_congr Iff.rfl ?_
  cases isPurpose : releasePurposeKey codec started.purpose with
  | none => simp [pure, Except.pure]
  | some keyID =>
      dsimp only
      rw [guard_eq_ok, guard_eq_ok, Bool.not_eq_true, Option.isSome_eq_false_iff,
        Option.isNone_iff_eq_none]
      simp [pure, Except.pure, FoldState.openCeremony]

theorem actOnCeremony_eq_ok :
    state.actOnCeremony codec event = .ok result ↔
      ∃ action, codec.ceremonyAction event.data = .ok action ∧
        ((∀ key, state.ceremonyIndex.lookup action.ceremonyID = some key →
            key.tenantID ≠ event.tenantID) ∧ state = result ∨
          ∃ key builder, state.ceremonyIndex.lookup action.ceremonyID = some key ∧
            key.tenantID = event.tenantID ∧
            (state.builderFor key).applyCeremonyAction event action.ceremonyID action.custodian =
              .ok builder ∧
            (if event.type = caCeremonyCancelled then
                (state.setBuilder key builder).closeCeremony key action.ceremonyID
              else state.setBuilder key builder) = result) := by
  unfold FoldState.actOnCeremony
  rw [bind_eq_ok]
  refine exists_congr fun action => and_congr Iff.rfl ?_
  cases isIndexed : state.ceremonyIndex.lookup action.ceremonyID with
  | none => simp [pure, Except.pure]
  | some key =>
      dsimp only
      by_cases isOwn : key.tenantID = event.tenantID
      · rw [if_neg (not_not.mpr isOwn), bind_eq_ok]
        simp [pure, Except.pure, isOwn]
      · rw [if_pos isOwn]
        simp [pure, Except.pure, isOwn]

/-- A change is applied to its key, and a source-bound release closes its
ceremony. -/
def FoldState.applyChange (state : FoldState) (event : Event) (position : Nat) (payload : Payload)
    (change : Change) : FoldState :=
  let builder := state.builderFor change.key
  let applied := builder.state.apply change.dependent change.operation
  let applied := applied.advance (ledgerPosition event position)
  (state.setBuilder change.key { builder with state := applied }).closeReleased change.key payload

variable {payload : Payload}

variable {position : Nat}

theorem applyPayload_eq_ok :
    state.applyPayload event position payload = .ok result ↔
      payloadChange payload = none ∧ state = result ∨
        ∃ change, payloadChange payload = some change ∧
          (state.builderFor change.key).validateRelease event payload = .ok () ∧
          state.applyChange event position payload change = result := by
  unfold FoldState.applyPayload
  cases isChange : payloadChange payload with
  | none => simp
  | some change =>
      simp only [reduceCtorEq, false_and, false_or, Option.some.injEq, exists_eq_left',
        bind_eq_ok]
      constructor
      · rintro ⟨⟨⟩, validated, success⟩
        exact ⟨validated, Except.ok.inj success⟩
      · rintro ⟨validated, rfl⟩
        exact ⟨(), validated, rfl⟩

/-- A source-bound release of the second or third version: its common fields,
the purpose its ceremony must have, and the revocation that it names. -/
structure SourceBoundRelease where
  release : DependencyReleasedV2
  purpose : Bytes
  revocation : Option (Bytes × Nat)

def sourceBoundRelease : Payload → Option SourceBoundRelease
  | .releasedV2 release => some ⟨release, releasePurposeV2 release, none⟩
  | .releasedV3 release =>
      some ⟨release.toDependencyReleasedV2, releasePurposeV3 release,
        some (release.revocationEventID, release.revocationSequence)⟩
  | _ => none

/-- What the fold has found of a source-bound release that it accepts. -/
structure Validated (builder : KeyBuilder) (event : Event) (bound : SourceBoundRelease) :
    Prop where
  tenantID_eq : bound.release.tenantID = event.tenantID
  isCredential : bound.release.dependent.dependentClass = dependentCredential
  source : ∃ source, builder.leafSources.lookup bound.release.dependent.key = some source ∧
    source.isSource bound.release = true
  revocation : ∀ eventID sequence, bound.revocation = some (eventID, sequence) →
    builder.revocations.lookup bound.release.dependent.key =
      some ⟨eventID, sequence, bound.release.serial, bound.release.certificateSHA256⟩
  ceremony : ∃ ceremony, builder.ceremonies.lookup bound.release.ceremonyID = some ceremony ∧
    ceremony.approves bound.purpose bound.release.approvalEventIDs.length = true

theorem complete_tenantID_class {release : DependencyReleasedV2} {keyID reason : Bytes}
    (complete : release.complete event keyID reason = true) :
    release.tenantID = event.tenantID ∧
      release.dependent.dependentClass = dependentCredential := by
  simp only [DependencyReleasedV2.complete, Bool.not_eq_true', Bool.or_eq_false_iff,
    bne_eq_false_iff_eq] at complete
  tauto

variable {builder : KeyBuilder}

theorem validated_of_validateSourceBoundRelease {release : DependencyReleasedV2}
    (success : builder.validateSourceBoundRelease event release = .ok ()) :
    Validated builder event ⟨release, releasePurposeV2 release, none⟩ := by
  unfold KeyBuilder.validateSourceBoundRelease at success
  simp only [guard_eq_ok, bind_eq_ok, Bool.not_eq_false] at success
  obtain ⟨complete, -, -, source, -, ceremony⟩ := success
  obtain ⟨sameTenant, isCredential⟩ := complete_tenantID_class complete
  obtain ⟨found, isFound, matching⟩ := (Option.any_eq_true _ _).mp source
  refine ⟨sameTenant, isCredential, ⟨found, isFound, (Bool.and_eq_true_iff.mp matching).1⟩, ?_, ?_⟩
  · intro eventID sequence named
    cases named
  · split at ceremony
    · cases ceremony
    · rename_i opened isOpened
      simp only [guard_eq_ok, Bool.not_eq_false] at ceremony
      exact ⟨opened, isOpened, ceremony.1⟩

theorem validated_of_validateRevokedSourceBoundRelease {release : DependencyReleasedV3}
    (success : builder.validateRevokedSourceBoundRelease event release = .ok ()) :
    Validated builder event ⟨release.toDependencyReleasedV2, releasePurposeV3 release,
      some (release.revocationEventID, release.revocationSequence)⟩ := by
  unfold KeyBuilder.validateRevokedSourceBoundRelease at success
  simp only [guard_eq_ok, not_or, Bool.not_eq_false] at success
  obtain ⟨⟨complete, -⟩, ⟨source, revocation⟩, -, ceremony⟩ := success
  obtain ⟨sameTenant, isCredential⟩ := complete_tenantID_class complete
  refine ⟨sameTenant, isCredential, (Option.any_eq_true _ _).mp source, ?_, ?_⟩
  · rintro eventID sequence ⟨⟩
    obtain ⟨revoked, isRevoked, matching⟩ := (Option.any_eq_true _ _).mp revocation
    have same := (Bool.and_eq_true_iff.mp matching).1
    simp only [LeafEvent.isRevocation, Bool.and_eq_true, beq_iff_eq] at same
    obtain ⟨⟨⟨sameID, sameSequence⟩, sameSerial⟩, sameDigest⟩ := same
    rw [isRevoked, ← sameID, ← sameSequence, ← sameSerial, ← sameDigest]
  · split at ceremony
    · cases ceremony
    · rename_i opened isOpened
      simp only [guard_eq_ok, Bool.not_eq_false] at ceremony
      exact ⟨opened, isOpened, ceremony.1⟩

theorem validated_of_validateRelease {bound : SourceBoundRelease}
    (success : builder.validateRelease event payload = .ok ())
    (isBound : sourceBoundRelease payload = some bound) :
    Validated builder event bound := by
  cases payload with
  | releasedV2 release =>
      obtain rfl := Option.some.inj isBound
      exact validated_of_validateSourceBoundRelease success
  | releasedV3 release =>
      obtain rfl := Option.some.inj isBound
      exact validated_of_validateRevokedSourceBoundRelease success
  | registered payload => cases isBound
  | releasedV1 payload => cases isBound
  | erasureDesignated payload => cases isBound
  | reprotectionCompleted payload => cases isBound
  | revocationCompleted payload => cases isBound
  | unknown type version raw => cases isBound

theorem releasedCeremony_eq (payload : Payload) :
    releasedCeremony payload = (sourceBoundRelease payload).map (·.release.ceremonyID) := by
  cases payload with
  | releasedV2 release => rfl
  | releasedV3 release => rfl
  | registered payload => rfl
  | releasedV1 payload => rfl
  | erasureDesignated payload => rfl
  | reprotectionCompleted payload => rfl
  | revocationCompleted payload => rfl
  | unknown type version raw => rfl

theorem payloadChange_of_sourceBoundRelease {bound : SourceBoundRelease}
    (isBound : sourceBoundRelease payload = some bound) :
    payloadChange payload =
      some ⟨⟨bound.release.tenantID, bound.release.keyID⟩, bound.release.dependent, .release⟩ := by
  cases payload with
  | releasedV2 release =>
      obtain rfl := Option.some.inj isBound
      rfl
  | releasedV3 release =>
      obtain rfl := Option.some.inj isBound
      rfl
  | registered payload => cases isBound
  | releasedV1 payload => cases isBound
  | erasureDesignated payload => cases isBound
  | reprotectionCompleted payload => cases isBound
  | revocationCompleted payload => cases isBound
  | unknown type version raw => cases isBound

/-- The key has the ceremony open. -/
def KeyBuilder.HasOpen (builder : KeyBuilder) (ceremonyID : Bytes) : Prop :=
  (builder.ceremonies.lookup ceremonyID).isSome = true

/-- Every builder is named by its key, and what it has open is indexed to it. -/
structure Indexed (state : FoldState) : Prop where
  keyID_eq : ∀ key, (state.builderFor key).state.keyID = key.keyID
  tenantID_eq : ∀ key, (state.builderFor key).state.tenantID = key.tenantID
  index_eq : ∀ key ceremonyID, (state.builderFor key).HasOpen ceremonyID →
    state.ceremonyIndex.lookup ceremonyID = some key

/-- A builder of the same name with no ceremonies but those of another. -/
structure KeyBuilder.Narrows (after before : KeyBuilder) : Prop where
  keyID_eq : after.state.keyID = before.state.keyID
  tenantID_eq : after.state.tenantID = before.state.tenantID
  hasOpen : ∀ ceremonyID, after.HasOpen ceremonyID → before.HasOpen ceremonyID

theorem indexed_start : Indexed ⟨[], []⟩ where
  keyID_eq _ := rfl
  tenantID_eq _ := rfl
  index_eq key ceremonyID isOpen := by cases isOpen

theorem Indexed.setBuilder {key : ProjectionKey} (indexed : Indexed state)
    (narrows : builder.Narrows (state.builderFor key)) :
    Indexed (state.setBuilder key builder) := by
  constructor
  · intro other
    rw [builderFor_setBuilder]
    split_ifs with isKey
    · rw [narrows.keyID_eq, isKey, indexed.keyID_eq]
    · exact indexed.keyID_eq other
  · intro other
    rw [builderFor_setBuilder]
    split_ifs with isKey
    · rw [narrows.tenantID_eq, isKey, indexed.tenantID_eq]
    · exact indexed.tenantID_eq other
  · intro other ceremonyID isOpen
    rw [builderFor_setBuilder] at isOpen
    split_ifs at isOpen with isKey
    · rw [isKey]
      exact indexed.index_eq key ceremonyID (narrows.hasOpen ceremonyID isOpen)
    · exact indexed.index_eq other ceremonyID isOpen

variable {ceremonyID : Bytes}

theorem Indexed.closeCeremony {key : ProjectionKey} (indexed : Indexed state)
    (isKey : state.ceremonyIndex.lookup ceremonyID = some key) :
    Indexed (state.closeCeremony key ceremonyID) := by
  constructor
  · intro other
    rw [builderFor_closeCeremony]
    split_ifs with same
    · rw [same, ← indexed.keyID_eq]
    · exact indexed.keyID_eq other
  · intro other
    rw [builderFor_closeCeremony]
    split_ifs with same
    · rw [same, ← indexed.tenantID_eq]
    · exact indexed.tenantID_eq other
  · intro other otherID isOpen
    rw [builderFor_closeCeremony] at isOpen
    show (state.ceremonyIndex.delete ceremonyID).lookup otherID = some other
    rw [MapOf.lookup_delete]
    split_ifs at isOpen with same
    · rw [KeyBuilder.HasOpen, MapOf.lookup_delete] at isOpen
      split_ifs at isOpen with isClosed
      · cases isOpen
      · rw [if_neg isClosed, same]
        exact indexed.index_eq key otherID isOpen
    · have isOther := indexed.index_eq other otherID isOpen
      rw [if_neg]
      · exact isOther
      · rintro rfl
        exact same (Option.some.inj (isOther.symm.trans isKey))

theorem narrows_of_ceremonies_eq {after before : KeyBuilder}
    (keyID_eq : after.state.keyID = before.state.keyID)
    (tenantID_eq : after.state.tenantID = before.state.tenantID)
    (ceremonies_eq : after.ceremonies = before.ceremonies) :
    after.Narrows before where
  keyID_eq := keyID_eq
  tenantID_eq := tenantID_eq
  hasOpen ceremonyID isOpen := by
    rwa [KeyBuilder.HasOpen, ceremonies_eq] at isOpen

theorem narrows_setOpen {before : ReleaseCeremony}
    (isOpen : builder.ceremonies.lookup ceremonyID = some before) (after : ReleaseCeremony) :
    KeyBuilder.Narrows { builder with ceremonies := builder.ceremonies.set ceremonyID after }
      builder where
  keyID_eq := rfl
  tenantID_eq := rfl
  hasOpen otherID otherOpen := by
    rw [KeyBuilder.HasOpen, MapOf.lookup_set] at otherOpen
    split_ifs at otherOpen with same
    · rw [KeyBuilder.HasOpen, same, isOpen, Option.isSome_some]
    · exact otherOpen

theorem narrows_applyCeremonyAction {result : KeyBuilder} {custodian : Bytes}
    (success : builder.applyCeremonyAction event ceremonyID custodian = .ok result) :
    result.Narrows builder := by
  obtain rfl | ⟨ceremony, after, isOpen, -, rfl⟩ := applyCeremonyAction_cases success
  · exact narrows_of_ceremonies_eq rfl rfl rfl
  · exact narrows_setOpen isOpen after

theorem ceremonies_rememberManagedLeaf {result : KeyBuilder} {dependent : Dependent}
    (success : builder.rememberManagedLeaf codec event dependent = .ok result) :
    result.ceremonies = builder.ceremonies := by
  obtain rfl | ⟨-, -, issued, -, rfl⟩ := rememberManagedLeaf_cases success
  · rfl
  · rfl

theorem ceremonies_rememberRevocation {result : KeyBuilder} {certID serial digest : Bytes}
    (success : builder.rememberRevocation event certID serial digest = .ok result) :
    result.ceremonies = builder.ceremonies := by
  obtain rfl | rfl := rememberRevocation_cases success
  · rfl
  · rfl

theorem indexed_startCeremony (success : state.startCeremony codec event = .ok result)
    (indexed : Indexed state) :
    Indexed result := by
  obtain ⟨started, -, ⟨-, rfl⟩ | ⟨keyID, -, -, unused, rfl⟩⟩ := startCeremony_eq_ok.mp success
  · exact indexed
  · constructor
    · intro other
      rw [builderFor_openCeremony]
      split_ifs with isKey
      · rw [isKey, ← indexed.keyID_eq]
      · exact indexed.keyID_eq other
    · intro other
      rw [builderFor_openCeremony]
      split_ifs with isKey
      · rw [isKey, ← indexed.tenantID_eq]
      · exact indexed.tenantID_eq other
    · intro other ceremonyID isOpen
      rw [builderFor_openCeremony] at isOpen
      show (state.ceremonyIndex.set started.ceremonyID _).lookup ceremonyID = some other
      rw [MapOf.lookup_set]
      split_ifs at isOpen with isKey
      · split_ifs with isStarted
        · rw [isKey]
        · rw [KeyBuilder.HasOpen, MapOf.lookup_set, if_neg isStarted] at isOpen
          rw [isKey]
          exact indexed.index_eq _ ceremonyID isOpen
      · -- the identity was not indexed, so no other builder has it open
        have isOther := indexed.index_eq other ceremonyID isOpen
        rw [if_neg]
        · exact isOther
        · rintro rfl
          rw [unused] at isOther
          cases isOther

theorem indexed_actOnCeremony (success : state.actOnCeremony codec event = .ok result)
    (indexed : Indexed state) :
    Indexed result := by
  obtain ⟨action, -, ⟨-, rfl⟩ | ⟨key, builder, isKey, -, acted, rfl⟩⟩ :=
    actOnCeremony_eq_ok.mp success
  · exact indexed
  · have stored := indexed.setBuilder (narrows_applyCeremonyAction acted)
    split_ifs
    · exact stored.closeCeremony isKey
    · exact stored

theorem indexed_applyReleaseCeremonyEvent
    (success : state.applyReleaseCeremonyEvent codec event = .ok result) (indexed : Indexed state) :
    Indexed result := by
  unfold FoldState.applyReleaseCeremonyEvent at success
  split_ifs at success
  · exact indexed_startCeremony success indexed
  · exact indexed_actOnCeremony success indexed
  · rwa [← Except.ok.inj success]

theorem indexed_registerAll (registrations : List DependencyRegisteredV1)
    (success : FoldState.registerAll codec event position registrations state = .ok result)
    (indexed : Indexed state) :
    Indexed result := by
  refine registerAll_invariant Indexed registrations success ?_ indexed
  intro registered _ before builder remembered indexedBefore
  refine indexedBefore.setBuilder (narrows_of_ceremonies_eq ?_ ?_ ?_)
  · rw [KeyState.advance, state_rememberManagedLeaf remembered]
    rfl
  · rw [KeyState.advance, state_rememberManagedLeaf remembered]
    rfl
  · have same := ceremonies_rememberManagedLeaf remembered
    exact same

theorem indexed_rememberRevocations (success : state.rememberRevocations codec event = .ok result)
    (indexed : Indexed state) :
    Indexed result := by
  refine rememberRevokedManagedLeaves_invariant Indexed success indexed ?_
  intro _ batch _ item _ _ before after recorded indexedBefore
  obtain ⟨builder, remembered, stored⟩ := bind_eq_ok.mp recorded
  rw [← Except.ok.inj stored]
  have sameState := state_rememberRevocation remembered
  refine indexedBefore.setBuilder (narrows_of_ceremonies_eq ?_ ?_ ?_)
  · rw [sameState]
  · rw [sameState]
  · exact ceremonies_rememberRevocation remembered

theorem apply_names (state : KeyState) (dependent : Dependent) (operation : Operation) :
    (state.apply dependent operation).keyID = state.keyID ∧
      (state.apply dependent operation).tenantID = state.tenantID := by
  cases operation with
  | register => exact ⟨rfl, rfl⟩
  | release =>
      simp only [KeyState.apply, KeyState.release]
      split_ifs
      · exact ⟨rfl, rfl⟩
      · exact ⟨rfl, rfl⟩
  | erase =>
      simp only [KeyState.apply, KeyState.erase]
      split_ifs
      · exact ⟨rfl, rfl⟩
      · exact ⟨rfl, rfl⟩
  | account => exact ⟨rfl, rfl⟩

theorem indexed_applyPayload
    (success : state.applyPayload event position payload = .ok result) (indexed : Indexed state) :
    Indexed result := by
  obtain ⟨-, rfl⟩ | ⟨change, -, validated, rfl⟩ := applyPayload_eq_ok.mp success
  · exact indexed
  · obtain ⟨keyID_eq, tenantID_eq⟩ := apply_names
      (state.builderFor change.key).state change.dependent change.operation
    have applied : Indexed (state.setBuilder change.key
        { state.builderFor change.key with
          state := ((state.builderFor change.key).state.apply change.dependent
            change.operation).advance (ledgerPosition event position) }) := by
      apply indexed.setBuilder
      exact narrows_of_ceremonies_eq keyID_eq tenantID_eq rfl
    unfold FoldState.applyChange FoldState.closeReleased
    rw [releasedCeremony_eq]
    cases isBound : sourceBoundRelease payload with
    | none => exact applied
    | some bound =>
        obtain ⟨ceremony, isOpen, -⟩ := (validated_of_validateRelease validated isBound).ceremony
        refine applied.closeCeremony (indexed.index_eq _ _ ?_)
        rw [KeyBuilder.HasOpen, isOpen, Option.isSome_some]

theorem indexed_foldEvent {index : Nat} (success : foldEvent codec index event state = .ok result)
    (indexed : Indexed state) :
    Indexed result := by
  simp only [foldEvent, bind_eq_ok, atEvent_eq_ok] at success
  obtain ⟨started, ceremony, registrations, -, registeredState, registers, remembered,
    revocations, payload, -, applies⟩ := success
  have afterCeremony := indexed_applyReleaseCeremonyEvent ceremony indexed
  have afterRegistrations := indexed_registerAll registrations registers afterCeremony
  have afterRevocations := indexed_rememberRevocations revocations afterRegistrations
  exact indexed_applyPayload applies afterRevocations

end Trstctl.Decommission.Depstate

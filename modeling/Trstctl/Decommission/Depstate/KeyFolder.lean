import Trstctl.Decommission.Depstate.Ceremonies

/-!
# Folding for one key

`KeyFolder` of `internal/decommission/depstate/projection.go` keeps the builder
of one key while it reads the events of all.  It has no index of ceremonies: it
looks for an identity in its own builder only.  Where the fold of all keys
succeeds, the folder of a key succeeds with the same builder.
-/

namespace Trstctl.Decommission.Depstate

open Go (Bytes bytes)
open Result (bind_eq_ok)

structure KeyFolder where
  tenantID : Bytes
  keyID : Bytes
  builder : KeyBuilder
  position : Nat
  touched : Bool

def newKeyFolder (tenantID keyID : Bytes) : KeyFolder where
  tenantID := tenantID
  keyID := keyID
  builder := newKeyBuilder ⟨tenantID, keyID⟩
  position := 0
  touched := false

/-- A started ceremony of `applyReleaseCeremonyToKey`. -/
def KeyBuilder.startCeremony (codec : Codec) (event : Event) (keyID : Bytes)
    (builder : KeyBuilder) : Except Bytes KeyBuilder := do
  let started ← codec.ceremonyStarted event.data
  match releasePurposeKey codec started.purpose with
  | none => return builder
  | some purposeKey =>
      if purposeKey ≠ keyID ∨ event.tenantID ≠ builder.state.tenantID then return builder
      if started.ceremonyID = [] ∨ started.threshold < 2 then
        throw (bytes "release ceremony lacks ID or two-custodian floor")
      if (builder.ceremonies.lookup started.ceremonyID).isSome = true then
        throw (bytes "duplicate release ceremony identity")
      let ceremonies := builder.ceremonies.set started.ceremonyID (newCeremony started)
      return { builder with ceremonies := ceremonies }

/-- An approved or cancelled ceremony of `applyReleaseCeremonyToKey`. -/
def KeyBuilder.actOnCeremony (codec : Codec) (event : Event) (builder : KeyBuilder) :
    Except Bytes KeyBuilder := do
  let action ← codec.ceremonyAction event.data
  if event.tenantID ≠ builder.state.tenantID then return builder
  let builder ← builder.applyCeremonyAction event action.ceremonyID action.custodian
  return if event.type = caCeremonyCancelled then
      { builder with ceremonies := builder.ceremonies.delete action.ceremonyID }
    else builder

def applyReleaseCeremonyToKey (codec : Codec) (event : Event) (keyID : Bytes)
    (builder : KeyBuilder) : Except Bytes KeyBuilder :=
  if event.type = caCeremonyStarted then builder.startCeremony codec event keyID
  else if event.type = caCeremonyApproved ∨ event.type = caCeremonyCancelled then
    builder.actOnCeremony codec event
  else .ok builder

/-- The loop of `KeyFolder.Apply` over the registrations of a CA event. -/
def KeyFolder.registerAll (codec : Codec) (event : Event) :
    List DependencyRegisteredV1 → KeyFolder → Except Bytes KeyFolder
  | [], folder => .ok folder
  | registered :: rest, folder =>
      if registered.tenantID = folder.tenantID ∧ registered.keyID = folder.keyID then do
        let builder := folder.builder
        let builder := { builder with state := builder.state.register registered.dependent }
        let builder ← builder.rememberManagedLeaf codec event registered.dependent
        let builder :=
          { builder with state := builder.state.advance (ledgerPosition event folder.position) }
        KeyFolder.registerAll codec event rest { folder with builder := builder, touched := true }
      else KeyFolder.registerAll codec event rest folder

def KeyFolder.rememberRevocations (codec : Codec) (event : Event) (folder : KeyFolder) :
    Except Bytes KeyFolder :=
  rememberRevokedManagedLeaves codec event
    (fun keyID certID serial digest folder =>
      if event.tenantID ≠ folder.tenantID ∨ keyID ≠ folder.keyID then .ok folder
      else do
        let builder ← folder.builder.rememberRevocation event certID serial digest
        return { folder with builder := builder })
    folder

/-- The ceremony of a source-bound release is removed from a builder. -/
def KeyBuilder.closeReleased (builder : KeyBuilder) (payload : Payload) : KeyBuilder :=
  match releasedCeremony payload with
  | none => builder
  | some ceremonyID => { builder with ceremonies := builder.ceremonies.delete ceremonyID }

/-- The change of a payload is applied. -/
def KeyFolder.applyPayload (event : Event) (payload : Payload) (folder : KeyFolder) :
    Except Bytes KeyFolder :=
  match payloadChange payload with
  | none => .ok folder
  | some change =>
      if change.key.tenantID = folder.tenantID ∧ change.key.keyID = folder.keyID then do
        let builder := folder.builder
        builder.validateRelease event payload
        let applied := builder.state.apply change.dependent change.operation
        let applied := applied.advance (ledgerPosition event folder.position)
        let builder := KeyBuilder.closeReleased { builder with state := applied } payload
        return { folder with builder := builder, touched := true }
      else .ok folder

def KeyFolder.apply (codec : Codec) (event : Event) (folder : KeyFolder) :
    Except Bytes KeyFolder := do
  let folder := { folder with position := folder.position + 1 }
  let builder ← applyReleaseCeremonyToKey codec event folder.keyID folder.builder
  let registrations ← caRegistrations codec event
  let folder ← KeyFolder.registerAll codec event registrations { folder with builder := builder }
  let folder ← folder.rememberRevocations codec event
  let payload ← decode codec event
  folder.applyPayload event payload

/-- The calls of `KeyFolder.Apply` on a sequence of events. -/
def KeyFolder.applyAll (codec : Codec) : List Event → KeyFolder → Except Bytes KeyFolder
  | [], folder => .ok folder
  | event :: rest, folder => do
      let folder ← folder.apply codec event
      KeyFolder.applyAll codec rest folder

theorem delete_of_not_hasOpen {builder : KeyBuilder} {ceremonyID : Bytes}
    (absent : ¬ builder.HasOpen ceremonyID) :
    builder.ceremonies.delete ceremonyID = builder.ceremonies := by
  rw [KeyBuilder.HasOpen, Bool.not_eq_true, Option.isSome_eq_false_iff,
    Option.isNone_iff_eq_none, List.lookup_eq_none_iff] at absent
  apply List.filter_eq_self.mpr
  intro binding member
  have different := absent binding member
  rwa [bne_comm] at different

variable {codec : Codec} {event : Event}

theorem actOnCeremony_of_not_hasOpen {builder : KeyBuilder} {action : CeremonyAction}
    (isAction : codec.ceremonyAction event.data = .ok action)
    (absent : event.tenantID = builder.state.tenantID → ¬ builder.HasOpen action.ceremonyID) :
    builder.actOnCeremony codec event = .ok builder := by
  unfold KeyBuilder.actOnCeremony
  rw [isAction]
  show (if event.tenantID ≠ builder.state.tenantID then pure builder else _) = Except.ok builder
  by_cases sameTenant : event.tenantID = builder.state.tenantID
  · have absent := absent sameTenant
    have unchanged : builder.applyCeremonyAction event action.ceremonyID action.custodian =
        .ok builder := by
      rw [KeyBuilder.HasOpen, Bool.not_eq_true, Option.isSome_eq_false_iff,
        Option.isNone_iff_eq_none] at absent
      rw [KeyBuilder.applyCeremonyAction, absent]
    rw [if_neg (not_not.mpr sameTenant), unchanged]
    show Except.ok (if _ then _ else _) = Except.ok builder
    rw [delete_of_not_hasOpen absent, ite_self]
  · rw [if_pos sameTenant]
    rfl

variable {state result : FoldState}

theorem startCeremony_follows (success : state.startCeremony codec event = .ok result)
    (indexed : Indexed state) (key : ProjectionKey) :
    (state.builderFor key).startCeremony codec event key.keyID = .ok (result.builderFor key) := by
  unfold KeyBuilder.startCeremony
  obtain ⟨started, isStarted, ⟨noPurpose, rfl⟩ | ⟨keyID, isPurpose, complete, unused, rfl⟩⟩ :=
    startCeremony_eq_ok.mp success
  · refine bind_eq_ok.mpr ⟨started, isStarted, ?_⟩
    rw [noPurpose]
    rfl
  · refine bind_eq_ok.mpr ⟨started, isStarted, ?_⟩
    rw [isPurpose, builderFor_openCeremony, indexed.tenantID_eq]
    dsimp only
    by_cases isKey : key = ⟨event.tenantID, keyID⟩
    · have unopened : ¬ ((state.builderFor key).ceremonies.lookup
          started.ceremonyID).isSome = true := by
        intro isOpen
        have isIndexed := indexed.index_eq key _ isOpen
        rw [unused] at isIndexed
        cases isIndexed
      have sameKey : ¬ (keyID ≠ key.keyID ∨ event.tenantID ≠ key.tenantID) := by
        simp [isKey]
      rw [if_neg sameKey, if_neg complete, if_neg unopened, if_pos isKey, isKey]
      rfl
    · have otherKey : keyID ≠ key.keyID ∨ event.tenantID ≠ key.tenantID := by
        by_contra same
        simp only [ne_eq, not_or, not_not] at same
        apply isKey
        rw [same.1, same.2]
      rw [if_pos otherKey, if_neg isKey]
      rfl

theorem actOnCeremony_follows (success : state.actOnCeremony codec event = .ok result)
    (indexed : Indexed state) (key : ProjectionKey) :
    (state.builderFor key).actOnCeremony codec event = .ok (result.builderFor key) := by
  obtain ⟨action, isAction, ⟨foreign, rfl⟩ | ⟨holder, builder, isHolder, isOwn, acted, rfl⟩⟩ :=
    actOnCeremony_eq_ok.mp success
  · refine actOnCeremony_of_not_hasOpen isAction fun sameTenant isOpen => ?_
    rw [indexed.tenantID_eq] at sameTenant
    exact foreign key (indexed.index_eq key _ isOpen) sameTenant.symm
  · by_cases isKey : key = holder
    · subst isKey
      have sameTenant : ¬ event.tenantID ≠ key.tenantID := not_not.mpr isOwn.symm
      refine bind_eq_ok.mpr ⟨action, isAction, ?_⟩
      rw [indexed.tenantID_eq, if_neg sameTenant, acted]
      split_ifs
      · rw [builderFor_closeCeremony, if_pos rfl, builderFor_setBuilder, if_pos rfl]
        rfl
      · rw [builderFor_setBuilder, if_pos rfl]
        rfl
    · -- only the builder that the identity is indexed to can have it open
      have absent : ¬ (state.builderFor key).HasOpen action.ceremonyID := by
        intro isOpen
        exact isKey (Option.some.inj ((indexed.index_eq key _ isOpen).symm.trans isHolder))
      rw [actOnCeremony_of_not_hasOpen isAction fun _ => absent]
      split_ifs
      · rw [builderFor_closeCeremony, if_neg isKey, builderFor_setBuilder, if_neg isKey]
      · rw [builderFor_setBuilder, if_neg isKey]

theorem applyReleaseCeremonyToKey_follows
    (success : state.applyReleaseCeremonyEvent codec event = .ok result) (indexed : Indexed state)
    (key : ProjectionKey) :
    applyReleaseCeremonyToKey codec event key.keyID (state.builderFor key) =
      .ok (result.builderFor key) := by
  unfold FoldState.applyReleaseCeremonyEvent at success
  unfold applyReleaseCeremonyToKey
  split_ifs at success ⊢
  · exact startCeremony_follows success indexed key
  · exact actOnCeremony_follows success indexed key
  · rw [← Except.ok.inj success]

theorem builderFor_applyChange (state : FoldState) (event : Event) (position : Nat)
    (payload : Payload) (change : Change) (other : ProjectionKey) :
    (state.applyChange event position payload change).builderFor other =
      if other = change.key then
        KeyBuilder.closeReleased
          { state.builderFor change.key with
            state := ((state.builderFor change.key).state.apply change.dependent
              change.operation).advance (ledgerPosition event position) }
          payload
      else state.builderFor other := by
  unfold FoldState.applyChange FoldState.closeReleased KeyBuilder.closeReleased
  cases releasedCeremony payload with
  | none => exact builderFor_setBuilder _ _ _ _
  | some ceremonyID =>
      dsimp only
      rw [builderFor_closeCeremony, builderFor_setBuilder, builderFor_setBuilder, if_pos rfl]
      split_ifs
      · rfl
      · rfl

/-- A folder has the builder that a fold has for a key. -/
structure Follows (key : ProjectionKey) (state : FoldState) (folder : KeyFolder) : Prop where
  tenantID_eq : folder.tenantID = key.tenantID
  keyID_eq : folder.keyID = key.keyID
  builder_eq : folder.builder = state.builderFor key

theorem follows_start (key : ProjectionKey) :
    Follows key ⟨[], []⟩ (newKeyFolder key.tenantID key.keyID) where
  tenantID_eq := rfl
  keyID_eq := rfl
  builder_eq := rfl

variable {key : ProjectionKey} {folder : KeyFolder}

theorem Follows.setBuilder_other {other : ProjectionKey} (follows : Follows key state folder)
    (different : key ≠ other) (builder : KeyBuilder) :
    Follows key (state.setBuilder other builder) folder where
  tenantID_eq := follows.tenantID_eq
  keyID_eq := follows.keyID_eq
  builder_eq := by rw [builderFor_setBuilder, if_neg different, follows.builder_eq]

theorem Follows.setBuilder_self (follows : Follows key state folder) (builder : KeyBuilder)
    (touched : Bool) :
    Follows key (state.setBuilder key builder)
      { folder with builder := builder, touched := touched } where
  tenantID_eq := follows.tenantID_eq
  keyID_eq := follows.keyID_eq
  builder_eq := by rw [builderFor_setBuilder, if_pos rfl]

theorem Follows.isKey_iff (follows : Follows key state folder) (tenantID keyID : Bytes) :
    (tenantID = folder.tenantID ∧ keyID = folder.keyID) ↔ key = ⟨tenantID, keyID⟩ := by
  rw [follows.tenantID_eq, follows.keyID_eq]
  constructor
  · rintro ⟨rfl, rfl⟩
    rfl
  · rintro rfl
    exact ⟨rfl, rfl⟩

/-- The folder registers what the fold registers for its key. -/
theorem registerAll_follows (registrations : List DependencyRegisteredV1) :
    ∀ {state result : FoldState} {folder : KeyFolder},
      Follows key state folder →
        FoldState.registerAll codec event folder.position registrations state = .ok result →
          ∃ after, KeyFolder.registerAll codec event registrations folder = .ok after ∧
            Follows key result after ∧ after.position = folder.position ∧
            (after.touched = true ↔ folder.touched = true ∨
              ∃ registered ∈ registrations, key = ⟨registered.tenantID, registered.keyID⟩) := by
  induction registrations with
  | nil =>
      intro state result folder follows success
      rw [← Except.ok.inj success]
      exact ⟨folder, rfl, follows, rfl, by simp⟩
  | cons registered rest ih =>
      intro state result folder follows success
      simp only [FoldState.registerAll, bind_eq_ok] at success
      obtain ⟨builder, remembered, success⟩ := success
      unfold KeyFolder.registerAll
      by_cases isKey : key = ⟨registered.tenantID, registered.keyID⟩
      · rw [if_pos ((follows.isKey_iff _ _).mpr isKey)]
        rw [← isKey] at remembered success
        have followsNext := follows.setBuilder_self
          { builder with
            state := builder.state.advance (ledgerPosition event folder.position) } true
        obtain ⟨after, folded, followsAfter, position, touched⟩ :=
          ih followsNext success
        refine ⟨after, ?_, followsAfter, position, ?_⟩
        · rw [follows.builder_eq]
          exact bind_eq_ok.mpr ⟨builder, remembered, folded⟩
        · rw [touched]
          simp [isKey]
      · rw [if_neg (isKey ∘ (follows.isKey_iff _ _).mp)]
        obtain ⟨after, folded, followsAfter, position, touched⟩ :=
          ih (follows.setBuilder_other isKey _) success
        refine ⟨after, folded, followsAfter, position, ?_⟩
        rw [touched]
        simp [isKey]

/-- Where one step succeeds the other does, and the relation is kept. -/
def Simulates {σ τ : Type} (relation : σ → τ → Prop) (step : σ → Except Bytes σ)
    (other : τ → Except Bytes τ) : Prop :=
  ∀ state result beside, step state = .ok result → relation state beside →
    ∃ after, other beside = .ok after ∧ relation result after

section Simulates

variable {σ τ : Type} {record : Bytes → Bytes → Bytes → Bytes → σ → Except Bytes σ}
  {other : Bytes → Bytes → Bytes → Bytes → τ → Except Bytes τ} (relation : σ → τ → Prop)
  (simulates : ∀ keyID certID serial digest, Simulates relation
    (record keyID certID serial digest) (other keyID certID serial digest))

include simulates

theorem recordRevoked_simulates (items : List RevocationItem) :
    ∀ seen, Simulates relation (recordRevoked record seen items)
      (recordRevoked other seen items) := by
  induction items with
  | nil =>
      intro seen state result beside success related
      rw [← Except.ok.inj success]
      exact ⟨beside, rfl, related⟩
  | cons item rest ih =>
      intro seen state result beside success related
      unfold recordRevoked at success ⊢
      split_ifs at success ⊢
      · exact ih _ _ _ _ success related
      · obtain ⟨next, recorded, success⟩ := bind_eq_ok.mp success
        obtain ⟨otherNext, otherRecorded, relatedNext⟩ := simulates _ _ _ _ _ _ _ recorded related
        obtain ⟨after, otherSuccess, relatedResult⟩ := ih _ _ _ _ success relatedNext
        exact ⟨after, bind_eq_ok.mpr ⟨otherNext, otherRecorded, otherSuccess⟩,
          relatedResult⟩

theorem rememberRevokedManagedLeaves_simulates :
    Simulates relation (rememberRevokedManagedLeaves codec event record)
      (rememberRevokedManagedLeaves codec event other) := by
  intro state result beside success related
  unfold rememberRevokedManagedLeaves at success ⊢
  split_ifs at success ⊢
  · rw [← Except.ok.inj success]
    exact ⟨beside, rfl, related⟩
  · obtain ⟨batch, isBatch, success⟩ := bind_eq_ok.mp success
    split_ifs at success with supported
    obtain ⟨after, otherSuccess, relatedResult⟩ :=
      recordRevoked_simulates relation simulates batch.items _ _ _ _ success related
    refine ⟨after, bind_eq_ok.mpr ⟨batch, isBatch, ?_⟩, relatedResult⟩
    rw [if_neg supported]
    exact otherSuccess

end Simulates

theorem rememberRevocations_follows (success : state.rememberRevocations codec event = .ok result)
    (follows : Follows key state folder) :
    ∃ after, folder.rememberRevocations codec event = .ok after ∧ Follows key result after ∧
      after.position = folder.position ∧ after.touched = folder.touched := by
  refine rememberRevokedManagedLeaves_simulates
    (fun state after => Follows key state after ∧ after.position = folder.position ∧
      after.touched = folder.touched) ?_ _ _ _ success ⟨follows, rfl, rfl⟩
  rintro keyID certID serial digest before afterState current recorded ⟨followsBefore, same⟩
  obtain ⟨builder, remembered, stored⟩ := bind_eq_ok.mp recorded
  rw [← Except.ok.inj stored]
  beta_reduce
  by_cases isKey : key = ⟨event.tenantID, keyID⟩
  · have own : ¬ (event.tenantID ≠ current.tenantID ∨ keyID ≠ current.keyID) := by
      simp only [ne_eq, not_or, not_not]
      exact (followsBefore.isKey_iff _ _).mpr isKey
    rw [if_neg own]
    rw [← isKey, ← followsBefore.builder_eq] at remembered
    refine ⟨_, bind_eq_ok.mpr ⟨builder, remembered, rfl⟩, ?_, same⟩
    rw [← isKey]
    exact followsBefore.setBuilder_self builder current.touched
  · have other : event.tenantID ≠ current.tenantID ∨ keyID ≠ current.keyID := by
      by_contra both
      simp only [ne_eq, not_or, not_not] at both
      exact isKey ((followsBefore.isKey_iff _ _).mp both)
    rw [if_pos other]
    exact ⟨current, rfl, followsBefore.setBuilder_other isKey builder, same⟩

theorem applyPayload_follows {payload : Payload}
    (success : state.applyPayload event folder.position payload = .ok result)
    (follows : Follows key state folder) :
    ∃ after, folder.applyPayload event payload = .ok after ∧ Follows key result after ∧
      after.position = folder.position ∧
      (after.touched = true ↔ folder.touched = true ∨
        ∃ change, payloadChange payload = some change ∧ change.key = key) := by
  unfold KeyFolder.applyPayload
  obtain ⟨isChange, rfl⟩ | ⟨change, isChange, validated, rfl⟩ := applyPayload_eq_ok.mp success
  · rw [isChange]
    exact ⟨folder, rfl, follows, rfl, by simp⟩
  · rw [isChange]
    dsimp only
    by_cases isKey : key = change.key
    · have sameKey : change.key.tenantID = folder.tenantID ∧ change.key.keyID = folder.keyID :=
        (follows.isKey_iff _ _).mpr isKey
      rw [if_pos sameKey]
      rw [← isKey, ← follows.builder_eq] at validated
      refine ⟨_, bind_eq_ok.mpr ⟨(), validated, rfl⟩, ⟨follows.tenantID_eq,
        follows.keyID_eq, ?_⟩, rfl, by simp [isKey]⟩
      rw [builderFor_applyChange, if_pos isKey, ← isKey, ← follows.builder_eq]
    · have otherKey : ¬ (change.key.tenantID = folder.tenantID ∧
          change.key.keyID = folder.keyID) := by
        intro same
        exact isKey ((follows.isKey_iff _ _).mp same)
      rw [if_neg otherKey]
      refine ⟨folder, rfl, ⟨follows.tenantID_eq, follows.keyID_eq, ?_⟩, rfl, ?_⟩
      · rw [builderFor_applyChange, if_neg isKey, follows.builder_eq]
      · simp [Ne.symm isKey]

/-- The event registers a dependent of the key or changes one. -/
def Touches (codec : Codec) (event : Event) (key : ProjectionKey) : Prop :=
  (∃ registrations, caRegistrations codec event = .ok registrations ∧
    ∃ registered ∈ registrations, key = ⟨registered.tenantID, registered.keyID⟩) ∨
  ∃ payload change, decode codec event = .ok payload ∧ payloadChange payload = some change ∧
    change.key = key

theorem touches_iff {registrations : List DependencyRegisteredV1} {payload : Payload}
    (derived : caRegistrations codec event = .ok registrations)
    (decoded : decode codec event = .ok payload) :
    Touches codec event key ↔
      (∃ registered ∈ registrations, key = ⟨registered.tenantID, registered.keyID⟩) ∨
        ∃ change, payloadChange payload = some change ∧ change.key = key := by
  unfold Touches
  rw [derived, decoded]
  simp

theorem apply_follows (follows : Follows key state folder) (indexed : Indexed state)
    (success : foldEvent codec folder.position event state = .ok result) :
    ∃ after, folder.apply codec event = .ok after ∧ Follows key result after ∧
      after.position = folder.position + 1 ∧
      (after.touched = true ↔ folder.touched = true ∨ Touches codec event key) := by
  simp only [foldEvent, bind_eq_ok, atEvent_eq_ok] at success
  obtain ⟨started, ceremony, registrations, derived, registered, registers, remembered,
    revocations, payload, decoded, applies⟩ := success
  have opened := applyReleaseCeremonyToKey_follows ceremony indexed key
  rw [← follows.builder_eq, ← follows.keyID_eq] at opened
  have followsOpened : Follows key started
      { folder with position := folder.position + 1, builder := started.builderFor key } :=
    ⟨follows.tenantID_eq, follows.keyID_eq, rfl⟩
  obtain ⟨afterRegistered, folderRegisters, followsRegistered, positionRegistered,
    touchedRegistered⟩ := registerAll_follows registrations followsOpened registers
  obtain ⟨afterRevoked, folderRevokes, followsRevoked, positionRevoked, touchedRevoked⟩ :=
    rememberRevocations_follows revocations followsRegistered
  have position : afterRevoked.position = folder.position + 1 := by
    rw [positionRevoked, positionRegistered]
  rw [← position] at applies
  obtain ⟨after, folderApplies, followsAfter, positionAfter, touchedAfter⟩ :=
    applyPayload_follows applies followsRevoked
  refine ⟨after, ?_, followsAfter, by rw [positionAfter, position], ?_⟩
  · unfold KeyFolder.apply
    simp only [bind_eq_ok]
    exact ⟨_, opened, registrations, derived, afterRegistered, folderRegisters, afterRevoked,
      folderRevokes, payload, decoded, folderApplies⟩
  · rw [touchedAfter, touchedRevoked, touchedRegistered, or_assoc, touches_iff derived decoded]

theorem applyAll_follows (events : List Event) :
    ∀ {state result : FoldState} {folder : KeyFolder},
      foldEvents codec folder.position events state = .ok result → Indexed state →
        Follows key state folder →
          ∃ after, KeyFolder.applyAll codec events folder = .ok after ∧ Follows key result after ∧
            (after.touched = true ↔ folder.touched = true ∨
              ∃ event ∈ events, Touches codec event key) := by
  induction events with
  | nil =>
      intro state result folder success _ follows
      rw [← Except.ok.inj success]
      exact ⟨folder, rfl, follows, by simp⟩
  | cons event rest ih =>
      intro state result folder success indexed follows
      obtain ⟨next, step, success⟩ := bind_eq_ok.mp success
      obtain ⟨current, applied, followsNext, position, touched⟩ :=
        apply_follows follows indexed step
      rw [← position] at success
      obtain ⟨after, folded, followsAfter, touchedAfter⟩ :=
        ih success (indexed_foldEvent step indexed) followsNext
      refine ⟨after, bind_eq_ok.mpr ⟨current, applied, folded⟩, followsAfter, ?_⟩
      rw [touchedAfter, touched]
      simp only [List.mem_cons, exists_eq_or_imp, or_assoc]

end Trstctl.Decommission.Depstate

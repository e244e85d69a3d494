import Trstctl.Decommission.Depstate.History

/-!
# The keys that a fold has a builder for

A fold makes a builder for a key when an event touches the key, and also when an
event only mentions it: when a release ceremony of the key is started, and when
a batch of revocations names the key as an issuer.
-/

namespace Trstctl.Decommission.Depstate

open Go (Bytes bytes)
open Result (bind_eq_ok)

/-- The key has a builder. -/
def FoldState.Has (state : FoldState) (key : ProjectionKey) : Prop :=
  (state.builders.lookup key).isSome = true

/-- The event starts a release ceremony of the key, or names the key as the
issuer of a revoked certificate. -/
def Mentions (codec : Codec) (event : Event) (key : ProjectionKey) : Prop :=
  (∃ started, Starts codec event key started) ∨
    ∃ certID revocation, Revokes codec event key certID revocation

theorem has_setBuilder (state : FoldState) (key : ProjectionKey) (builder : KeyBuilder)
    (other : ProjectionKey) :
    (state.setBuilder key builder).Has other ↔ state.Has other ∨ other = key := by
  unfold FoldState.Has FoldState.setBuilder
  rw [Go.MapOf.lookup_set]
  split_ifs with isKey
  · simp [isKey]
  · simp [isKey]

variable {state : FoldState}

variable {key : ProjectionKey}

theorem has_closeCeremony (present : state.Has key) (ceremonyID : Bytes) (other : ProjectionKey) :
    (state.closeCeremony key ceremonyID).Has other ↔ state.Has other := by
  have stored := has_setBuilder state key
    { state.builderFor key with
      ceremonies := (state.builderFor key).ceremonies.delete ceremonyID } other
  refine stored.trans (or_iff_left_of_imp ?_)
  rintro rfl
  exact present

/-- Every indexed ceremony is one of a builder of the fold. -/
def IndexHas (state : FoldState) : Prop :=
  ∀ ceremonyID key, state.ceremonyIndex.lookup ceremonyID = some key → state.Has key

theorem indexHas_closeCeremony (present : state.Has key) (ceremonyID : Bytes)
    (indexHas : IndexHas state) :
    IndexHas (state.closeCeremony key ceremonyID) := by
  intro otherID other found
  rw [has_closeCeremony present]
  have found : (state.ceremonyIndex.delete ceremonyID).lookup otherID = some other := found
  rw [Go.MapOf.lookup_delete] at found
  split_ifs at found
  exact indexHas otherID other found

variable {codec : Codec} {result : FoldState} {event : Event}

theorem has_startCeremony (isStart : event.type = caCeremonyStarted)
    (success : state.startCeremony codec event = .ok result) (indexHas : IndexHas state) :
    IndexHas result ∧ ∀ key, result.Has key ↔
      state.Has key ∨ ∃ started, Starts codec event key started := by
  obtain ⟨started, isStarted, ⟨noPurpose, rfl⟩ | ⟨keyID, isPurpose, -, -, rfl⟩⟩ :=
    startCeremony_eq_ok.mp success
  · refine ⟨indexHas, fun key => (or_iff_left ?_).symm⟩
    rintro ⟨other, starts⟩
    obtain rfl := Except.ok.inj (isStarted.symm.trans starts.started_eq)
    rw [starts.purposeKey_eq] at noPurpose
    cases noPurpose
  · have opened : ∀ key, (state.openCeremony ⟨event.tenantID, keyID⟩ started).Has key ↔
        state.Has key ∨ key = ⟨event.tenantID, keyID⟩ := fun key => has_setBuilder state _ _ key
    constructor
    · intro ceremonyID key found
      rw [opened]
      have found : (state.ceremonyIndex.set started.ceremonyID
        ⟨event.tenantID, keyID⟩).lookup ceremonyID = some key := found
      rw [Go.MapOf.lookup_set] at found
      split_ifs at found
      · exact Or.inr (Option.some.inj found).symm
      · exact Or.inl (indexHas ceremonyID key found)
    · intro key
      rw [opened]
      refine or_congr Iff.rfl ⟨?_, ?_⟩
      · rintro rfl
        exact ⟨started, isStart, rfl, isStarted, isPurpose⟩
      · rintro ⟨other, starts⟩
        obtain rfl := Except.ok.inj (isStarted.symm.trans starts.started_eq)
        have sameKey := Option.some.inj (isPurpose.symm.trans starts.purposeKey_eq)
        rw [starts.tenantID_eq, sameKey]

theorem has_actOnCeremony (success : state.actOnCeremony codec event = .ok result)
    (indexHas : IndexHas state) :
    IndexHas result ∧ ∀ key, result.Has key ↔ state.Has key := by
  obtain ⟨action, -, ⟨-, rfl⟩ | ⟨holder, builder, isHolder, -, -, rfl⟩⟩ :=
    actOnCeremony_eq_ok.mp success
  · exact ⟨indexHas, fun key => Iff.rfl⟩
  · -- the action is on a ceremony of a key that has a builder
    have present := indexHas _ holder isHolder
    have stored : ∀ key, (state.setBuilder holder builder).Has key ↔ state.Has key := by
      intro key
      rw [has_setBuilder]
      refine or_iff_left_of_imp ?_
      rintro rfl
      exact present
    have indexStored : IndexHas (state.setBuilder holder builder) := by
      intro ceremonyID key found
      rw [stored]
      exact indexHas ceremonyID key found
    split_ifs
    · refine ⟨indexHas_closeCeremony ((stored holder).mpr present) _ indexStored, fun key => ?_⟩
      rw [has_closeCeremony ((stored holder).mpr present), stored]
    · exact ⟨indexStored, stored⟩

theorem has_applyReleaseCeremonyEvent
    (success : state.applyReleaseCeremonyEvent codec event = .ok result)
    (indexHas : IndexHas state) :
    IndexHas result ∧ ∀ key, result.Has key ↔
      state.Has key ∨ ∃ started, Starts codec event key started := by
  unfold FoldState.applyReleaseCeremonyEvent at success
  by_cases isStart : event.type = caCeremonyStarted
  · rw [if_pos isStart] at success
    exact has_startCeremony isStart success indexHas
  · rw [if_neg isStart] at success
    have unstarted : ∀ key, ¬ ∃ started, Starts codec event key started := by
      rintro key ⟨started, starts⟩
      exact isStart starts.isStart
    simp only [or_iff_left (unstarted _)]
    split_ifs at success
    · exact has_actOnCeremony success indexHas
    · rw [← Except.ok.inj success]
      exact ⟨indexHas, fun key => Iff.rfl⟩

variable {position : Nat}

theorem has_registerAll (registrations : List DependencyRegisteredV1) (key : ProjectionKey) :
    ∀ {state result : FoldState},
      FoldState.registerAll codec event position registrations state = .ok result →
        (result.Has key ↔ state.Has key ∨
          ∃ registered ∈ registrations, key = ⟨registered.tenantID, registered.keyID⟩) := by
  induction registrations with
  | nil =>
      intro state result success
      rw [← Except.ok.inj success]
      simp
  | cons registered rest ih =>
      intro state result success
      simp only [FoldState.registerAll, bind_eq_ok] at success
      obtain ⟨builder, -, success⟩ := success
      rw [ih success, has_setBuilder]
      simp only [List.mem_cons, exists_eq_or_imp, or_assoc]

theorem has_recordRevoked (items : List RevocationItem) (key : ProjectionKey) :
    ∀ {seen : List Bytes} {state result : FoldState},
      recordRevoked (fun keyID certID serial digest state => do
          let builder ← (FoldState.builderFor state ⟨event.tenantID, keyID⟩).rememberRevocation
            event certID serial digest
          return state.setBuilder ⟨event.tenantID, keyID⟩ builder) seen items state = .ok result →
        (result.Has key ↔ state.Has key ∨
          ∃ item ∈ items, item.status = bytes "revoked" ∧ key = ⟨event.tenantID, item.caID⟩) := by
  induction items with
  | nil =>
      intro seen state result success
      rw [← Except.ok.inj success]
      simp
  | cons item rest ih =>
      intro seen state result success
      unfold recordRevoked at success
      split_ifs at success with _ unrevoked
      · rw [ih success]
        simp only [List.mem_cons, exists_eq_or_imp, unrevoked, false_and, false_or]
      · obtain ⟨next, recorded, success⟩ := bind_eq_ok.mp success
        obtain ⟨builder, -, stored⟩ := bind_eq_ok.mp recorded
        rw [ih success, ← Except.ok.inj stored, has_setBuilder]
        simp only [List.mem_cons, exists_eq_or_imp, not_not.mp unrevoked, true_and, or_assoc]

theorem has_rememberRevocations (success : state.rememberRevocations codec event = .ok result)
    (key : ProjectionKey) :
    result.Has key ↔ state.Has key ∨
      ∃ certID revocation, Revokes codec event key certID revocation := by
  unfold FoldState.rememberRevocations rememberRevokedManagedLeaves at success
  split_ifs at success with otherType
  · rw [← Except.ok.inj success]
    refine (or_iff_left ?_).symm
    rintro ⟨certID, revocation, revokes⟩
    exact otherType revokes.isBatch
  · obtain ⟨batch, isBatch, success⟩ := bind_eq_ok.mp success
    split_ifs at success
    rw [has_recordRevoked batch.items key success]
    refine or_congr Iff.rfl ⟨?_, ?_⟩
    · rintro ⟨item, isItem, isRevoked, rfl⟩
      exact ⟨item.id, ⟨event.id, event.sequence, item.serial, Go.toLower item.fingerprint⟩,
        { isBatch := not_not.mp otherType
          tenantID_eq := rfl
          id_eq := rfl
          sequence_eq := rfl
          item := ⟨batch, isBatch, item, isItem, isRevoked, rfl, rfl, rfl, rfl⟩ }⟩
    · rintro ⟨certID, revocation, revokes⟩
      obtain ⟨other, isOther, item, isItem, isRevoked, isIssuer, -⟩ := revokes.item
      obtain rfl := Except.ok.inj (isBatch.symm.trans isOther)
      refine ⟨item, isItem, isRevoked, ?_⟩
      rw [revokes.tenantID_eq, isIssuer]

theorem has_applyChange (state : FoldState) (event : Event) (position : Nat) (payload : Payload)
    (change : Change) (key : ProjectionKey) :
    (state.applyChange event position payload change).Has key ↔
      state.Has key ∨ key = change.key := by
  unfold FoldState.applyChange FoldState.closeReleased
  cases releasedCeremony payload with
  | none => exact has_setBuilder state change.key _ key
  | some ceremonyID =>
      dsimp only
      rw [has_closeCeremony, has_setBuilder]
      rw [has_setBuilder]
      exact Or.inr rfl

theorem lookup_applyChange {payload : Payload} {change : Change} {ceremonyID : Bytes}
    (found : (state.applyChange event position payload change).ceremonyIndex.lookup ceremonyID =
      some key) :
    state.ceremonyIndex.lookup ceremonyID = some key := by
  unfold FoldState.applyChange FoldState.closeReleased at found
  cases closes : releasedCeremony payload with
  | none =>
      rw [closes] at found
      exact found
  | some closedID =>
      rw [closes] at found
      have found : (state.ceremonyIndex.delete closedID).lookup ceremonyID = some key := found
      rw [Go.MapOf.lookup_delete] at found
      split_ifs at found
      exact found

/-- The builders after an event are those before it and those of the keys that
it touches or mentions. -/
theorem has_foldEvent {index : Nat} (success : foldEvent codec index event state = .ok result)
    (indexHas : IndexHas state) :
    IndexHas result ∧ ∀ key, result.Has key ↔
      state.Has key ∨ Touches codec event key ∨ Mentions codec event key := by
  simp only [foldEvent, bind_eq_ok, atEvent_eq_ok] at success
  obtain ⟨started, ceremony, registrations, derived, registered, registers, remembered,
    revocations, payload, decoded, applies⟩ := success
  obtain ⟨indexStarted, hasStarted⟩ := has_applyReleaseCeremonyEvent ceremony indexHas
  have hasRegistered := fun key => has_registerAll registrations key registers
  have hasRemembered := has_rememberRevocations revocations
  have sameIndex : remembered.ceremonyIndex = started.ceremonyIndex := by
    rw [ceremonyIndex_rememberRevocations revocations,
      ceremonyIndex_registerAll registrations registers]
  have indexRemembered : IndexHas remembered := by
    intro ceremonyID key found
    rw [sameIndex] at found
    rw [hasRemembered, hasRegistered]
    exact Or.inl (Or.inl (indexStarted ceremonyID key found))
  have hasResult : IndexHas result ∧ ∀ key, result.Has key ↔ remembered.Has key ∨
      ∃ change, payloadChange payload = some change ∧ change.key = key := by
    obtain ⟨unchanged, rfl⟩ | ⟨change, isChange, -, rfl⟩ := applyPayload_eq_ok.mp applies
    · refine ⟨indexRemembered, fun key => (or_iff_left ?_).symm⟩
      rintro ⟨change, isChange, -⟩
      rw [unchanged] at isChange
      cases isChange
    · constructor
      · intro ceremonyID key found
        rw [has_applyChange]
        exact Or.inl (indexRemembered ceremonyID key (lookup_applyChange found))
      · intro key
        rw [has_applyChange, isChange]
        simp [eq_comm]
  refine ⟨hasResult.1, fun key => ?_⟩
  rw [hasResult.2, hasRemembered, hasRegistered, hasStarted, touches_iff derived decoded, Mentions]
  simp only [or_assoc, or_comm, or_left_comm]

theorem has_foldEvents (events : List Event) :
    ∀ {index : Nat} {state result : FoldState},
      foldEvents codec index events state = .ok result → IndexHas state →
        ∀ key, result.Has key ↔ state.Has key ∨
          ∃ event ∈ events, Touches codec event key ∨ Mentions codec event key := by
  induction events with
  | nil =>
      intro index state result success _ key
      rw [← Except.ok.inj success]
      simp
  | cons event rest ih =>
      intro index state result success indexHas key
      obtain ⟨next, step, success⟩ := bind_eq_ok.mp success
      obtain ⟨indexNext, hasNext⟩ := has_foldEvent step indexHas
      rw [ih success indexNext, hasNext]
      simp only [List.mem_cons, exists_eq_or_imp, or_assoc]

theorem indexHas_start : IndexHas ⟨[], []⟩ := by
  intro ceremonyID key found
  cases found

theorem isSome_lookup_fold {events : List Event} {projection : Projection}
    (success : fold codec events = .ok projection) (key : ProjectionKey) :
    (projection.lookup key).isSome = true ↔
      ∃ event ∈ events, Touches codec event key ∨ Mentions codec event key := by
  obtain ⟨state, folded, success⟩ := bind_eq_ok.mp success
  have present := has_foldEvents events folded indexHas_start key
  rw [← Except.ok.inj success, Go.MapOf.lookup_map, Option.isSome_map]
  rw [FoldState.Has, FoldState.Has] at present
  simpa using present

theorem keyState_registerAll_other (registrations : List DependencyRegisteredV1)
    (others : ¬ ∃ registered ∈ registrations, key = ⟨registered.tenantID, registered.keyID⟩)
    (success : FoldState.registerAll codec event position registrations state = .ok result) :
    keyState result key = keyState state key := by
  refine registerAll_invariant (fun current => keyState current key = keyState state key)
    registrations success ?_ rfl
  intro registered member before builder _ same
  rw [keyState_setBuilder, if_neg, same]
  rintro rfl
  exact others ⟨registered, member, rfl⟩

theorem keyState_foldEvent_untouched {index : Nat}
    (success : foldEvent codec index event state = .ok result)
    (untouched : ¬ Touches codec event key) :
    keyState result key = keyState state key := by
  simp only [foldEvent, bind_eq_ok, atEvent_eq_ok] at success
  obtain ⟨started, ceremony, registrations, derived, registered, registers, remembered,
    revocations, payload, decoded, applies⟩ := success
  rw [touches_iff derived decoded, not_or] at untouched
  have afterPayload : keyState result key = keyState remembered key := by
    rw [keyState_applyPayload applies]
    cases isChange : payloadChange payload with
    | none => rfl
    | some change =>
        refine if_neg ?_
        rintro rfl
        exact untouched.2 ⟨change, isChange, rfl⟩
  rw [afterPayload, keyState_rememberRevocations revocations,
    keyState_registerAll_other registrations untouched.1 registers,
    keyState_applyReleaseCeremonyEvent ceremony]

theorem keyState_foldEvents_untouched (events : List Event) :
    ∀ {index : Nat} {state result : FoldState},
      foldEvents codec index events state = .ok result →
        (¬ ∃ event ∈ events, Touches codec event key) →
          keyState result key = keyState state key := by
  induction events with
  | nil =>
      intro index state result success _
      rw [← Except.ok.inj success]
  | cons event rest ih =>
      intro index state result success untouched
      simp only [List.mem_cons, exists_eq_or_imp, not_or] at untouched
      obtain ⟨next, step, success⟩ := bind_eq_ok.mp success
      rw [ih success untouched.2, keyState_foldEvent_untouched step untouched.1]

end Trstctl.Decommission.Depstate

import Trstctl.Decommission.Depstate.KeyFolder

/-!
# The events of one tenant

Where a sequence of events folds, the events of one tenant fold by themselves.
The fold of all events has beside the states what the fold of the tenant's own
events has: only the states of its keys may differ, since the payload of
another tenant's event may name them.
-/

namespace Trstctl.Decommission.Depstate

open Go (Bytes bytes MapOf)
open Result (bind_eq_ok guard_eq_ok)

/-- A state accounts for what it releases and for what it designates. -/
def Accounting (state : KeyState) : Prop :=
  ∀ dependent, hasKey state.released dependent = true ∨
    hasKey state.erasureDesignated dependent = true → hasKey state.accounted dependent = true

theorem hasKey_congr (dependents : List Dependent) {dependent other : Dependent}
    (same : dependent.key = other.key) :
    hasKey dependents dependent = hasKey dependents other := by
  rw [hasKey, same, hasKey]

theorem hasKey_append_singleton (dependents : List Dependent) (dependent other : Dependent) :
    hasKey (dependents ++ [dependent]) other = true ↔
      hasKey dependents other = true ∨ dependent.key = other.key := by
  simp [hasKey]

theorem hasKey_appendUnique_iff (dependents : List Dependent) (dependent other : Dependent) :
    hasKey (appendUnique dependents dependent) other = true ↔
      hasKey dependents other = true ∨ dependent.key = other.key := by
  unfold appendUnique
  split_ifs with present
  · constructor
    · exact Or.inl
    · rintro (old | same)
      · exact old
      · rwa [← hasKey_congr dependents same]
  · exact hasKey_append_singleton dependents dependent other

theorem hasKey_accounted_apply {state : KeyState} (accounting : Accounting state)
    (dependent other : Dependent) (operation : Operation) :
    hasKey (state.apply dependent operation).accounted other = true ↔
      hasKey state.accounted other = true ∨
        operation ≠ .register ∧ dependent.key = other.key := by
  cases operation with
  | register => simp [KeyState.apply, KeyState.register]
  | release =>
      simp only [KeyState.apply, KeyState.release]
      split_ifs with present
      · have known := accounting dependent (Or.inl present)
        constructor
        · exact Or.inl
        · rintro (old | ⟨-, same⟩)
          · exact old
          · rwa [← hasKey_congr _ same]
      · rw [KeyState.account, hasKey_appendUnique_iff]
        simp
  | erase =>
      simp only [KeyState.apply, KeyState.erase]
      split_ifs with present
      · have known := accounting dependent (Or.inr present)
        constructor
        · exact Or.inl
        · rintro (old | ⟨-, same⟩)
          · exact old
          · rwa [← hasKey_congr _ same]
      · rw [KeyState.account, hasKey_appendUnique_iff]
        simp [KeyState.register]
  | account =>
      rw [KeyState.apply, KeyState.account, hasKey_appendUnique_iff]
      simp

theorem accounting_apply {state : KeyState} (accounting : Accounting state) (dependent : Dependent)
    (operation : Operation) :
    Accounting (state.apply dependent operation) := by
  intro other present
  rw [hasKey_accounted_apply accounting]
  cases operation with
  | register => exact Or.inl (accounting other present)
  | release =>
      simp only [KeyState.apply, KeyState.release] at present
      split_ifs at present
      · exact Or.inl (accounting other present)
      · simp only [KeyState.account, hasKey_append_singleton] at present
        rcases present with (released | same) | erased
        · exact Or.inl (accounting other (Or.inl released))
        · exact Or.inr ⟨by decide, same⟩
        · exact Or.inl (accounting other (Or.inr erased))
  | erase =>
      simp only [KeyState.apply, KeyState.erase] at present
      split_ifs at present
      · exact Or.inl (accounting other present)
      · simp only [KeyState.account, KeyState.register, hasKey_append_singleton] at present
        rcases present with released | erased | same
        · exact Or.inl (accounting other (Or.inl released))
        · exact Or.inl (accounting other (Or.inr erased))
        · exact Or.inr ⟨by decide, same⟩
  | account => exact Or.inl (accounting other present)

/-- A builder has what another has beside its state, and accounts for no more
dependents. -/
structure Covered (own full : KeyBuilder) : Prop where
  beside_eq : own = { full with state := own.state }
  keyID_eq : own.state.keyID = full.state.keyID
  ownAccounting : Accounting own.state
  fullAccounting : Accounting full.state
  accounted : ∀ dependent, hasKey own.state.accounted dependent = true →
    hasKey full.state.accounted dependent = true

theorem covered_new (key : ProjectionKey) : Covered (newKeyBuilder key) (newKeyBuilder key) where
  beside_eq := rfl
  keyID_eq := rfl
  ownAccounting dependent present := by rcases present with present | present <;> cases present
  fullAccounting dependent present := by rcases present with present | present <;> cases present
  accounted dependent present := by cases present

theorem Covered.withState {own full : KeyBuilder} (covered : Covered own full) (result : KeyBuilder)
    (same : result.state = full.state) :
    Covered { result with state := own.state } result where
  beside_eq := rfl
  keyID_eq := by rw [same, ← covered.keyID_eq]
  ownAccounting := covered.ownAccounting
  fullAccounting := by
    rw [same]
    exact covered.fullAccounting
  accounted := by
    rw [same]
    exact covered.accounted

theorem Covered.apply {own full : KeyBuilder} (covered : Covered own full) (dependent : Dependent)
    (operation : Operation) (position fullPosition : Nat) :
    Covered
      { own with state := (own.state.apply dependent operation).advance position }
      { full with state := (full.state.apply dependent operation).advance fullPosition } where
  beside_eq := by rw [covered.beside_eq]
  keyID_eq := by
    show (own.state.apply dependent operation).keyID = (full.state.apply dependent operation).keyID
    rw [(apply_names _ _ _).1, (apply_names _ _ _).1, covered.keyID_eq]
  ownAccounting := accounting_apply covered.ownAccounting dependent operation
  fullAccounting := accounting_apply covered.fullAccounting dependent operation
  accounted other present := by
    have known := (hasKey_accounted_apply covered.ownAccounting dependent other operation).mp
      present
    exact (hasKey_accounted_apply covered.fullAccounting dependent other operation).mpr
      (known.imp_left (covered.accounted other))

theorem Covered.applyFull {own full : KeyBuilder} (covered : Covered own full)
    (dependent : Dependent) (operation : Operation) (position : Nat) :
    Covered own
      { full with state := (full.state.apply dependent operation).advance position } where
  beside_eq := covered.beside_eq
  keyID_eq := by
    show own.state.keyID = (full.state.apply dependent operation).keyID
    rw [(apply_names _ _ _).1, covered.keyID_eq]
  ownAccounting := covered.ownAccounting
  fullAccounting := accounting_apply covered.fullAccounting dependent operation
  accounted other present :=
    (hasKey_accounted_apply covered.fullAccounting dependent other operation).mpr
      (Or.inl (covered.accounted other present))

theorem applyCeremonyAction_withState
    {builder result : KeyBuilder} {event : Event} {ceremonyID custodian : Bytes}
    (success : builder.applyCeremonyAction event ceremonyID custodian = .ok result)
    (state : KeyState) :
    KeyBuilder.applyCeremonyAction { builder with state := state } event ceremonyID custodian =
      .ok { result with state := state } := by
  unfold KeyBuilder.applyCeremonyAction at success ⊢
  dsimp only
  split at success
  · rw [← Except.ok.inj success]
  · split_ifs at success ⊢
    · rw [← Except.ok.inj success]
    · rw [← Except.ok.inj success]

theorem rememberManagedLeaf_withState {codec : Codec} {builder result : KeyBuilder} {event : Event}
    {dependent : Dependent}
    (success : builder.rememberManagedLeaf codec event dependent = .ok result) (state : KeyState) :
    KeyBuilder.rememberManagedLeaf codec { builder with state := state } event dependent =
      .ok { result with state := state } := by
  unfold KeyBuilder.rememberManagedLeaf at success ⊢
  split_ifs at success ⊢
  · rw [← Except.ok.inj success]
  · obtain ⟨issued, isIssued, success⟩ := bind_eq_ok.mp success
    refine bind_eq_ok.mpr ⟨issued, isIssued, ?_⟩
    dsimp only at success ⊢
    split_ifs at success ⊢
    · rw [← Except.ok.inj success]
      rfl
    · rw [← Except.ok.inj success]
      rfl
    · rw [← Except.ok.inj success]
      rfl

theorem rememberRevocation_withState
    {builder result : KeyBuilder} {event : Event} {certID serial digest : Bytes}
    (success : builder.rememberRevocation event certID serial digest = .ok result)
    (state : KeyState) :
    KeyBuilder.rememberRevocation { builder with state := state } event certID serial digest =
      .ok { result with state := state } := by
  unfold KeyBuilder.rememberRevocation at success ⊢
  dsimp only at success ⊢
  split at success
  · rw [← Except.ok.inj success]
  · split_ifs at success ⊢
    rw [← Except.ok.inj success]

/-- A release that is accepted is accepted where fewer dependents are accounted
for. -/
theorem validateRelease_of_covered {own full : KeyBuilder} {event : Event} {payload : Payload}
    (success : full.validateRelease event payload = .ok ()) (covered : Covered own full) :
    own.validateRelease event payload = .ok () := by
  have unaccounted : ∀ dependent, ¬ hasKey full.state.accounted dependent = true →
      ¬ hasKey own.state.accounted dependent = true := by
    intro dependent absent present
    exact absent (covered.accounted dependent present)
  rw [covered.beside_eq]
  cases payload with
  | releasedV2 release =>
      simp only [KeyBuilder.validateRelease, KeyBuilder.validateSourceBoundRelease,
        guard_eq_ok, bind_eq_ok, covered.keyID_eq] at success ⊢
      obtain ⟨complete, _, approvals, source, unreleased, ceremony⟩ := success
      exact ⟨complete, (), approvals, source, unaccounted _ unreleased, ceremony⟩
  | releasedV3 release =>
      simp only [KeyBuilder.validateRelease, KeyBuilder.validateRevokedSourceBoundRelease,
        guard_eq_ok, covered.keyID_eq] at success ⊢
      obtain ⟨complete, source, unreleased, ceremony⟩ := success
      exact ⟨complete, source, unaccounted _ unreleased, ceremony⟩
  | registered payload => rfl
  | releasedV1 payload => rfl
  | erasureDesignated payload => rfl
  | reprotectionCompleted payload => rfl
  | revocationCompleted payload => rfl
  | unknown type version raw => rfl

theorem validateRelease_of_unbound {payload : Payload} (unbound : sourceBoundRelease payload = none)
    (builder : KeyBuilder) (event : Event) :
    builder.validateRelease event payload = .ok () := by
  cases payload with
  | releasedV2 release => cases unbound
  | releasedV3 release => cases unbound
  | registered payload => rfl
  | releasedV1 payload => rfl
  | erasureDesignated payload => rfl
  | reprotectionCompleted payload => rfl
  | revocationCompleted payload => rfl
  | unknown type version raw => rfl

/-- A fold of all events and a fold of a tenant's own: the builders of its keys
agree but for their states, and its own ceremonies are indexed in both. -/
structure Agrees (tenantID : Bytes) (full own : FoldState) : Prop where
  covered : ∀ key, key.tenantID = tenantID → Covered (own.builderFor key) (full.builderFor key)
  index_iff : ∀ ceremonyID key, own.ceremonyIndex.lookup ceremonyID = some key ↔
    full.ceremonyIndex.lookup ceremonyID = some key ∧ key.tenantID = tenantID

theorem agrees_start (tenantID : Bytes) : Agrees tenantID ⟨[], []⟩ ⟨[], []⟩ where
  covered key _ := covered_new key
  index_iff ceremonyID key := by simp

theorem Agrees.setBuilder {tenantID : Bytes} {full own : FoldState} {key : ProjectionKey}
    {builder fullBuilder : KeyBuilder} (agrees : Agrees tenantID full own)
    (covered : key.tenantID = tenantID → Covered builder fullBuilder) :
    Agrees tenantID (full.setBuilder key fullBuilder) (own.setBuilder key builder) where
  covered other isOwn := by
    rw [builderFor_setBuilder, builderFor_setBuilder]
    split_ifs with isKey
    · exact covered (isKey ▸ isOwn)
    · exact agrees.covered other isOwn
  index_iff := agrees.index_iff

theorem Agrees.withIndex
    {tenantID : Bytes} {full own : FoldState} {fullIndex index : Go.Map ProjectionKey}
    (agrees : Agrees tenantID full own)
    (index_iff : ∀ ceremonyID key, index.lookup ceremonyID = some key ↔
      fullIndex.lookup ceremonyID = some key ∧ key.tenantID = tenantID) :
    Agrees tenantID { full with ceremonyIndex := fullIndex }
      { own with ceremonyIndex := index } where
  covered := agrees.covered
  index_iff := index_iff

theorem Agrees.closeCeremony {tenantID : Bytes} {full own : FoldState}
    (agrees : Agrees tenantID full own) (key : ProjectionKey) (ceremonyID : Bytes) :
    Agrees tenantID (full.closeCeremony key ceremonyID) (own.closeCeremony key ceremonyID) := by
  unfold FoldState.closeCeremony
  apply Agrees.withIndex
  · apply agrees.setBuilder
    intro isOwn
    have covered := agrees.covered key isOwn
    refine ⟨?_, covered.keyID_eq, covered.ownAccounting, covered.fullAccounting,
      covered.accounted⟩
    rw [covered.beside_eq]
  · intro otherID other
    rw [MapOf.lookup_delete, MapOf.lookup_delete]
    split_ifs
    · simp
    · exact agrees.index_iff otherID other

theorem Agrees.index_eq_none {tenantID : Bytes} {full own : FoldState} {ceremonyID : Bytes}
    (agrees : Agrees tenantID full own)
    (foreign : ∀ key, full.ceremonyIndex.lookup ceremonyID = some key → key.tenantID ≠ tenantID) :
    own.ceremonyIndex.lookup ceremonyID = none := by
  cases found : own.ceremonyIndex.lookup ceremonyID with
  | none => rfl
  | some key =>
      obtain ⟨isIndexed, isOwn⟩ := (agrees.index_iff ceremonyID key).mp found
      exact absurd isOwn (foreign key isIndexed)

theorem startCeremony_own {codec : Codec} {event : Event} {full fullResult own : FoldState}
    (success : full.startCeremony codec event = .ok fullResult)
    (agrees : Agrees event.tenantID full own) :
    ∃ result, own.startCeremony codec event = .ok result ∧
      Agrees event.tenantID fullResult result := by
  obtain ⟨started, isStarted, ⟨noPurpose, rfl⟩ | ⟨keyID, isPurpose, complete, unused, rfl⟩⟩ :=
    startCeremony_eq_ok.mp success
  · exact ⟨own, startCeremony_eq_ok.mpr ⟨started, isStarted, Or.inl ⟨noPurpose, rfl⟩⟩, agrees⟩
  · have ownUnused : own.ceremonyIndex.lookup started.ceremonyID = none := by
      apply agrees.index_eq_none
      intro key found
      rw [unused] at found
      cases found
    refine ⟨own.openCeremony ⟨event.tenantID, keyID⟩ started, startCeremony_eq_ok.mpr
      ⟨started, isStarted, Or.inr ⟨keyID, isPurpose, complete, ownUnused, rfl⟩⟩, ?_⟩
    unfold FoldState.openCeremony
    apply Agrees.withIndex
    · apply agrees.setBuilder
      intro isOwn
      have covered := agrees.covered ⟨event.tenantID, keyID⟩ isOwn
      refine ⟨?_, covered.keyID_eq, covered.ownAccounting, covered.fullAccounting,
        covered.accounted⟩
      rw [covered.beside_eq]
    · intro ceremonyID key
      rw [MapOf.lookup_set, MapOf.lookup_set]
      split_ifs with isStartedID
      · constructor
        · rintro ⟨⟩
          exact ⟨rfl, rfl⟩
        · exact And.left
      · exact agrees.index_iff ceremonyID key

theorem actOnCeremony_own {codec : Codec} {event : Event} {full fullResult own : FoldState}
    (success : full.actOnCeremony codec event = .ok fullResult)
    (agrees : Agrees event.tenantID full own) :
    ∃ result, own.actOnCeremony codec event = .ok result ∧
      Agrees event.tenantID fullResult result := by
  obtain ⟨action, isAction, ⟨foreign, rfl⟩ | ⟨key, fullBuilder, isIndexed, isOwn, acted, rfl⟩⟩ :=
    actOnCeremony_eq_ok.mp success
  · refine ⟨own, actOnCeremony_eq_ok.mpr ⟨action, isAction, Or.inl ⟨?_, rfl⟩⟩, agrees⟩
    intro key found
    exact foreign key ((agrees.index_iff _ key).mp found).1
  · have covered := agrees.covered key isOwn
    have ownActed := applyCeremonyAction_withState acted (own.builderFor key).state
    rw [← covered.beside_eq] at ownActed
    have stored := @Agrees.setBuilder _ _ _ key _ _ agrees fun _ =>
      covered.withState fullBuilder (state_applyCeremonyAction acted)
    refine ⟨_, actOnCeremony_eq_ok.mpr ⟨action, isAction, Or.inr ⟨key, _,
      (agrees.index_iff _ key).mpr ⟨isIndexed, isOwn⟩, isOwn, ownActed, rfl⟩⟩, ?_⟩
    split_ifs
    · exact stored.closeCeremony key action.ceremonyID
    · exact stored

theorem applyReleaseCeremonyEvent_own
    {codec : Codec} {event : Event} {full fullResult own : FoldState}
    (success : full.applyReleaseCeremonyEvent codec event = .ok fullResult)
    (agrees : Agrees event.tenantID full own) :
    ∃ result, own.applyReleaseCeremonyEvent codec event = .ok result ∧
      Agrees event.tenantID fullResult result := by
  unfold FoldState.applyReleaseCeremonyEvent at success ⊢
  split_ifs at success ⊢
  · exact startCeremony_own success agrees
  · exact actOnCeremony_own success agrees
  · rw [← Except.ok.inj success]
    exact ⟨own, rfl, agrees⟩

theorem registerAll_own
    {codec : Codec} {event : Event} {tenantID : Bytes} {fullPosition position : Nat}
    (registrations : List DependencyRegisteredV1) :
    ∀ {full fullResult own : FoldState},
      FoldState.registerAll codec event fullPosition registrations full = .ok fullResult →
        Agrees tenantID full own → (∀ registered ∈ registrations, registered.tenantID = tenantID) →
          ∃ result, FoldState.registerAll codec event position registrations own = .ok result ∧
            Agrees tenantID fullResult result := by
  induction registrations with
  | nil =>
      intro full fullResult own success agrees _
      rw [← Except.ok.inj success]
      exact ⟨own, rfl, agrees⟩
  | cons registered rest ih =>
      intro full fullResult own success agrees isOwn
      simp only [FoldState.registerAll, bind_eq_ok] at success ⊢
      obtain ⟨fullBuilder, remembered, success⟩ := success
      obtain ⟨ownFirst, ownRest⟩ := List.forall_mem_cons.mp isOwn
      have covered := agrees.covered ⟨registered.tenantID, registered.keyID⟩ ownFirst
      have fullState := state_rememberManagedLeaf remembered
      have ownRemembered := rememberManagedLeaf_withState remembered
        ((own.builderFor ⟨registered.tenantID, registered.keyID⟩).state.register
          registered.dependent)
      have beside : { full.builderFor ⟨registered.tenantID, registered.keyID⟩ with
            state := (own.builderFor ⟨registered.tenantID, registered.keyID⟩).state.register
              registered.dependent } =
          { own.builderFor ⟨registered.tenantID, registered.keyID⟩ with
            state := (own.builderFor ⟨registered.tenantID, registered.keyID⟩).state.register
              registered.dependent } := by
        rw [covered.beside_eq]
      dsimp only at ownRemembered
      rw [beside] at ownRemembered
      have registeredBoth := covered.apply registered.dependent .register
        (ledgerPosition event position) (ledgerPosition event fullPosition)
      have next := registeredBoth.withState
        { fullBuilder with
          state := fullBuilder.state.advance (ledgerPosition event fullPosition) }
        (by rw [fullState]; rfl)
      obtain ⟨result, registers, agreesResult⟩ :=
        ih success (agrees.setBuilder fun _ => next) ownRest
      exact ⟨result, ⟨_, ownRemembered, registers⟩, agreesResult⟩

theorem rememberRevocations_own {codec : Codec} {event : Event} {full fullResult own : FoldState}
    (success : full.rememberRevocations codec event = .ok fullResult)
    (agrees : Agrees event.tenantID full own) :
    ∃ result, own.rememberRevocations codec event = .ok result ∧
      Agrees event.tenantID fullResult result := by
  refine rememberRevokedManagedLeaves_simulates (Agrees event.tenantID) ?_ _ _ _ success agrees
  intro keyID certID serial digest before after other recorded agreesBefore
  obtain ⟨fullBuilder, remembered, stored⟩ := bind_eq_ok.mp recorded
  have covered := agreesBefore.covered ⟨event.tenantID, keyID⟩ rfl
  have ownRemembered := rememberRevocation_withState remembered
    (other.builderFor ⟨event.tenantID, keyID⟩).state
  rw [← covered.beside_eq] at ownRemembered
  rw [← Except.ok.inj stored]
  exact ⟨_, bind_eq_ok.mpr ⟨_, ownRemembered, rfl⟩, agreesBefore.setBuilder fun _ =>
    covered.withState fullBuilder (state_rememberRevocation remembered)⟩

theorem change_tenantID_of_bound
    {builder : KeyBuilder} {event : Event} {payload : Payload} {change : Change}
    {bound : SourceBoundRelease} (validated : builder.validateRelease event payload = .ok ())
    (isChange : payloadChange payload = some change)
    (isBound : sourceBoundRelease payload = some bound) :
    change.key.tenantID = event.tenantID := by
  rw [payloadChange_of_sourceBoundRelease isBound] at isChange
  rw [← Option.some.inj isChange]
  exact (validated_of_validateRelease validated isBound).tenantID_eq

theorem applyPayload_own {event : Event} {payload : Payload} {fullPosition position : Nat}
    {full fullResult own : FoldState}
    (success : full.applyPayload event fullPosition payload = .ok fullResult)
    (agrees : Agrees event.tenantID full own) :
    ∃ result, own.applyPayload event position payload = .ok result ∧
      Agrees event.tenantID fullResult result := by
  obtain ⟨unchanged, rfl⟩ | ⟨change, isChange, validated, rfl⟩ := applyPayload_eq_ok.mp success
  · exact ⟨own, applyPayload_eq_ok.mpr (Or.inl ⟨unchanged, rfl⟩), agrees⟩
  · -- the payload may name another tenant, unless it is a source-bound release
    have ownValidated : (own.builderFor change.key).validateRelease event payload = .ok () := by
      cases isBound : sourceBoundRelease payload with
      | none => exact validateRelease_of_unbound isBound _ event
      | some bound =>
          have isOwn := change_tenantID_of_bound validated isChange isBound
          exact validateRelease_of_covered validated (agrees.covered change.key isOwn)
    refine ⟨_, applyPayload_eq_ok.mpr (Or.inr ⟨change, isChange, ownValidated, rfl⟩), ?_⟩
    have stored := @Agrees.setBuilder _ _ _ change.key _ _ agrees fun isOwn =>
      (agrees.covered change.key isOwn).apply change.dependent change.operation
        (ledgerPosition event position) (ledgerPosition event fullPosition)
    unfold FoldState.applyChange FoldState.closeReleased
    cases releasedCeremony payload with
    | none => exact stored
    | some ceremonyID => exact stored.closeCeremony change.key ceremonyID

/-- CA events register credentials for their own tenant. -/
theorem caRegistrations_issued
    {codec : Codec} {event : Event} {registrations : List DependencyRegisteredV1}
    (derived : caRegistrations codec event = .ok registrations) :
    ∀ registered ∈ registrations, ∃ keyID dependentID,
      registered = issuedRegistration event keyID dependentID := by
  intro registered member
  unfold caRegistrations at derived
  split_ifs at derived
  · obtain ⟨⟨⟩, -, derived⟩ := bind_eq_ok.mp derived
    obtain ⟨leaf, -, derived⟩ := bind_eq_ok.mp derived
    split_ifs at derived
    · obtain rfl := Except.ok.inj derived
      cases member
    · obtain ⟨dependentID, -, derived⟩ := bind_eq_ok.mp derived
      obtain rfl := Except.ok.inj derived
      exact ⟨_, _, List.mem_singleton.mp member⟩
  · obtain ⟨⟨⟩, -, derived⟩ := bind_eq_ok.mp derived
    split_ifs at derived
    · obtain rfl := Except.ok.inj derived
      cases member
    · obtain ⟨authority, -, derived⟩ := bind_eq_ok.mp derived
      dsimp only at derived
      split_ifs at derived
      · obtain rfl := Except.ok.inj derived
        cases member
      · obtain rfl := Except.ok.inj derived
        exact ⟨_, _, List.mem_singleton.mp member⟩
  · obtain ⟨⟨⟩, -, derived⟩ := bind_eq_ok.mp derived
    obtain ⟨authority, -, derived⟩ := bind_eq_ok.mp derived
    split at derived
    · cases derived
    · obtain rfl := Except.ok.inj derived
      rcases List.mem_append.mp member with member | member
      · split_ifs at member
        · cases member
        · exact ⟨_, _, List.mem_singleton.mp member⟩
      · split_ifs at member
        · cases member
        · exact ⟨_, _, List.mem_singleton.mp member⟩
  · obtain ⟨⟨⟩, -, derived⟩ := bind_eq_ok.mp derived
    obtain ⟨signed, -, derived⟩ := bind_eq_ok.mp derived
    split_ifs at derived
    · obtain rfl := Except.ok.inj derived
      cases member
    · obtain rfl := Except.ok.inj derived
      exact ⟨_, _, List.mem_singleton.mp member⟩
  · obtain rfl := Except.ok.inj derived
    cases member

theorem caRegistrations_tenantID
    {codec : Codec} {event : Event} {registrations : List DependencyRegisteredV1}
    (derived : caRegistrations codec event = .ok registrations) :
    ∀ registered ∈ registrations, registered.tenantID = event.tenantID := by
  intro registered member
  obtain ⟨keyID, dependentID, rfl⟩ := caRegistrations_issued derived registered member
  rfl

theorem foldEvent_own {codec : Codec} {event : Event} {fullIndex index : Nat}
    {full fullResult own : FoldState}
    (success : foldEvent codec fullIndex event full = .ok fullResult)
    (agrees : Agrees event.tenantID full own) :
    ∃ result, foldEvent codec index event own = .ok result ∧
      Agrees event.tenantID fullResult result := by
  simp only [foldEvent, bind_eq_ok, atEvent_eq_ok] at success ⊢
  obtain ⟨started, ceremony, registrations, derived, registered, registers, remembered,
    revocations, payload, decoded, applies⟩ := success
  obtain ⟨ownStarted, ownCeremony, agreesStarted⟩ := applyReleaseCeremonyEvent_own ceremony agrees
  obtain ⟨ownRegistered, ownRegisters, agreesRegistered⟩ := @registerAll_own _ _ _ _ (index + 1)
    registrations _ _ _ registers agreesStarted (caRegistrations_tenantID derived)
  obtain ⟨ownRemembered, ownRevocations, agreesRemembered⟩ :=
    rememberRevocations_own revocations agreesRegistered
  obtain ⟨result, ownApplies, agreesResult⟩ := applyPayload_own applies agreesRemembered
  exact ⟨result, ⟨ownStarted, ownCeremony, registrations, derived, ownRegistered, ownRegisters,
    ownRemembered, ownRevocations, payload, decoded, ownApplies⟩, agreesResult⟩

theorem applyReleaseCeremonyToKey_foreign
    {codec : Codec} {event : Event} {keyID : Bytes} {builder result : KeyBuilder}
    (success : applyReleaseCeremonyToKey codec event keyID builder = .ok result)
    (foreign : event.tenantID ≠ builder.state.tenantID) :
    result = builder := by
  unfold applyReleaseCeremonyToKey at success
  split_ifs at success
  · obtain ⟨started, -, success⟩ := bind_eq_ok.mp success
    split at success
    · exact (Except.ok.inj success).symm
    · rw [if_pos (Or.inr foreign)] at success
      exact (Except.ok.inj success).symm
  · obtain ⟨action, -, success⟩ := bind_eq_ok.mp success
    rw [if_pos foreign] at success
    exact (Except.ok.inj success).symm
  · exact (Except.ok.inj success).symm

theorem registerAll_foreign {codec : Codec} {event : Event} {folder result : KeyFolder}
    (registrations : List DependencyRegisteredV1)
    (success : KeyFolder.registerAll codec event registrations folder = .ok result)
    (foreign : ∀ registered ∈ registrations, registered.tenantID ≠ folder.tenantID) :
    result = folder := by
  induction registrations with
  | nil => exact (Except.ok.inj success).symm
  | cons registered rest ih =>
      obtain ⟨foreignFirst, foreignRest⟩ := List.forall_mem_cons.mp foreign
      rw [KeyFolder.registerAll, if_neg fun same => foreignFirst same.1] at success
      exact ih success foreignRest

theorem rememberRevocations_foreign {codec : Codec} {event : Event} {folder result : KeyFolder}
    (success : folder.rememberRevocations codec event = .ok result)
    (foreign : event.tenantID ≠ folder.tenantID) :
    result = folder := by
  refine rememberRevokedManagedLeaves_invariant (fun current => current = folder) success rfl ?_
  rintro - batch - item - - before after recorded rfl
  rw [if_pos (Or.inl foreign)] at recorded
  exact (Except.ok.inj recorded).symm

/-- An event of another tenant changes no more than the state of a key, by the
change that its payload names. -/
theorem apply_foreign {codec : Codec} {event : Event} {folder result : KeyFolder}
    (success : folder.apply codec event = .ok result)
    (named : folder.builder.state.tenantID = folder.tenantID)
    (foreign : event.tenantID ≠ folder.tenantID) :
    result.builder = folder.builder ∨ ∃ dependent operation position,
      result.builder = { folder.builder with
        state := (folder.builder.state.apply dependent operation).advance position } := by
  simp only [KeyFolder.apply, bind_eq_ok] at success
  obtain ⟨builder, ceremony, registrations, derived, registered, registers, remembered,
    revocations, payload, decoded, applies⟩ := success
  have noCeremony := applyReleaseCeremonyToKey_foreign ceremony (named ▸ foreign)
  have noRegistration := registerAll_foreign registrations registers fun other member same =>
    foreign ((caRegistrations_tenantID derived other member).symm.trans same)
  subst noCeremony noRegistration
  have noRevocation := rememberRevocations_foreign revocations foreign
  subst noRevocation
  unfold KeyFolder.applyPayload at applies
  split at applies
  · exact Or.inl (congrArg KeyFolder.builder (Except.ok.inj applies)).symm
  · rename_i change isChange
    split_ifs at applies with isKey
    · obtain ⟨⟨⟩, validated, applies⟩ := bind_eq_ok.mp applies
      cases isBound : sourceBoundRelease payload with
      | none =>
          refine Or.inr ⟨change.dependent, change.operation,
            ledgerPosition event (folder.position + 1), ?_⟩
          rw [← Except.ok.inj applies, KeyBuilder.closeReleased, releasedCeremony_eq, isBound]
          rfl
      | some bound =>
          have isOwn := change_tenantID_of_bound validated isChange isBound
          exact absurd (isOwn.symm.trans isKey.1) foreign
    · exact Or.inl (congrArg KeyFolder.builder (Except.ok.inj applies)).symm

theorem ceremonyIndex_registerAll
    {codec : Codec} {event : Event} {position : Nat} {state result : FoldState}
    (registrations : List DependencyRegisteredV1)
    (success : FoldState.registerAll codec event position registrations state = .ok result) :
    result.ceremonyIndex = state.ceremonyIndex := by
  refine registerAll_invariant (fun current => current.ceremonyIndex = state.ceremonyIndex)
    registrations success ?_ rfl
  intro registered _ before builder _ same
  exact same

theorem ceremonyIndex_rememberRevocations {codec : Codec} {event : Event} {state result : FoldState}
    (success : state.rememberRevocations codec event = .ok result) :
    result.ceremonyIndex = state.ceremonyIndex := by
  refine rememberRevokedManagedLeaves_invariant
    (fun current => current.ceremonyIndex = state.ceremonyIndex) success rfl ?_
  intro _ batch _ item _ _ before after recorded same
  obtain ⟨builder, -, stored⟩ := bind_eq_ok.mp recorded
  rw [← Except.ok.inj stored]
  exact same

/-- The ceremony is one of a key of the tenant. -/
def IndexedFor (tenantID : Bytes) (state : FoldState) (ceremonyID : Bytes) (key : ProjectionKey) :
    Prop :=
  state.ceremonyIndex.lookup ceremonyID = some key ∧ key.tenantID = tenantID

theorem indexedFor_closeCeremony
    {tenantID : Bytes} {state : FoldState} {holder : ProjectionKey} {ceremonyID : Bytes}
    (isHolder : state.ceremonyIndex.lookup ceremonyID = some holder)
    (foreign : holder.tenantID ≠ tenantID) (otherID : Bytes) (key : ProjectionKey) :
    IndexedFor tenantID (state.closeCeremony holder ceremonyID) otherID key ↔
      IndexedFor tenantID state otherID key := by
  unfold IndexedFor
  show (state.ceremonyIndex.delete ceremonyID).lookup otherID = some key ∧ _ ↔ _
  rw [MapOf.lookup_delete]
  split_ifs with isClosed
  · rw [isClosed, isHolder]
    constructor
    · rintro ⟨⟨⟩, -⟩
    · rintro ⟨⟨⟩, isOwn⟩
      exact absurd isOwn foreign
  · exact Iff.rfl

/-- An event of another tenant keeps the entries of a tenant. -/
theorem indexedFor_foreign {codec : Codec} {event : Event} {index : Nat} {tenantID : Bytes}
    {state result : FoldState} (success : foldEvent codec index event state = .ok result)
    (indexed : Indexed state) (foreign : event.tenantID ≠ tenantID) (ceremonyID : Bytes)
    (key : ProjectionKey) :
    IndexedFor tenantID result ceremonyID key ↔ IndexedFor tenantID state ceremonyID key := by
  simp only [foldEvent, bind_eq_ok, atEvent_eq_ok] at success
  obtain ⟨started, ceremony, registrations, -, registered, registers, remembered,
    revocations, payload, -, applies⟩ := success
  have indexedStarted := indexed_applyReleaseCeremonyEvent ceremony indexed
  have indexedRemembered := indexed_rememberRevocations revocations
    (indexed_registerAll registrations registers indexedStarted)
  have sameIndex : remembered.ceremonyIndex = started.ceremonyIndex := by
    rw [ceremonyIndex_rememberRevocations revocations,
      ceremonyIndex_registerAll registrations registers]
  -- the payload closes a ceremony of the tenant of its event only
  have afterPayload : IndexedFor tenantID result ceremonyID key ↔
      IndexedFor tenantID remembered ceremonyID key := by
    obtain ⟨-, rfl⟩ | ⟨change, isChange, validated, rfl⟩ := applyPayload_eq_ok.mp applies
    · exact Iff.rfl
    · unfold FoldState.applyChange FoldState.closeReleased
      rw [releasedCeremony_eq]
      cases isBound : sourceBoundRelease payload with
      | none => exact Iff.rfl
      | some bound =>
          have isOther := change_tenantID_of_bound validated isChange isBound
          obtain ⟨opened, isOpen, -⟩ := (validated_of_validateRelease validated isBound).ceremony
          have isHolder := indexedRemembered.index_eq change.key bound.release.ceremonyID
            (by rw [KeyBuilder.HasOpen, isOpen, Option.isSome_some])
          exact indexedFor_closeCeremony isHolder (isOther ▸ foreign) ceremonyID key
  have afterCeremony : IndexedFor tenantID started ceremonyID key ↔
      IndexedFor tenantID state ceremonyID key := by
    unfold FoldState.applyReleaseCeremonyEvent at ceremony
    split_ifs at ceremony
    · obtain ⟨opening, -, ⟨-, rfl⟩ | ⟨keyID, -, -, unused, rfl⟩⟩ := startCeremony_eq_ok.mp ceremony
      · exact Iff.rfl
      · unfold IndexedFor
        show (state.ceremonyIndex.set opening.ceremonyID _).lookup ceremonyID = some key ∧ _ ↔ _
        rw [MapOf.lookup_set]
        split_ifs with isOpening
        · rw [isOpening, unused]
          constructor
          · rintro ⟨⟨⟩, isOwn⟩
            exact absurd isOwn foreign
          · rintro ⟨⟨⟩, -⟩
        · exact Iff.rfl
    · obtain ⟨action, -, ⟨-, rfl⟩ | ⟨holder, builder, isHolder, isOther, -, rfl⟩⟩ :=
        actOnCeremony_eq_ok.mp ceremony
      · exact Iff.rfl
      · split_ifs
        · exact @indexedFor_closeCeremony tenantID (state.setBuilder holder builder) holder _
            isHolder (isOther ▸ foreign) ceremonyID key
        · exact Iff.rfl
    · rw [← Except.ok.inj ceremony]
  rw [afterPayload, ← afterCeremony, IndexedFor, sameIndex, IndexedFor]

theorem foldEvent_foreign {codec : Codec} {event : Event} {index : Nat} {tenantID : Bytes}
    {full fullResult own : FoldState} (success : foldEvent codec index event full = .ok fullResult)
    (indexed : Indexed full) (foreign : event.tenantID ≠ tenantID)
    (agrees : Agrees tenantID full own) :
    Agrees tenantID fullResult own where
  covered key isOwn := by
    have covered := agrees.covered key isOwn
    have follows : Follows key full
        ⟨key.tenantID, key.keyID, full.builderFor key, index, false⟩ := ⟨rfl, rfl, rfl⟩
    obtain ⟨after, applied, followsAfter, -⟩ := apply_follows follows indexed success
    have changed := apply_foreign applied (indexed.tenantID_eq key) (isOwn ▸ foreign)
    rw [followsAfter.builder_eq] at changed
    rcases changed with same | ⟨dependent, operation, position, applied⟩
    · rw [same]
      exact covered
    · rw [applied]
      exact covered.applyFull dependent operation position
  index_iff ceremonyID key := by
    rw [agrees.index_iff]
    exact (indexedFor_foreign success indexed foreign ceremonyID key).symm

def ownEvents (tenantID : Bytes) (events : List Event) : List Event :=
  events.filter fun event => event.tenantID = tenantID

theorem foldEvents_own {codec : Codec} {tenantID : Bytes} (events : List Event) :
    ∀ {fullIndex index : Nat} {full fullResult own : FoldState},
      foldEvents codec fullIndex events full = .ok fullResult → Indexed full →
        Agrees tenantID full own →
          ∃ result, foldEvents codec index (ownEvents tenantID events) own = .ok result := by
  induction events with
  | nil =>
      intro fullIndex index full fullResult own _ _ _
      exact ⟨own, rfl⟩
  | cons event rest ih =>
      intro fullIndex index full fullResult own success indexed agrees
      obtain ⟨next, step, success⟩ := bind_eq_ok.mp success
      have indexedNext := indexed_foldEvent step indexed
      by_cases isOwn : event.tenantID = tenantID
      · subst isOwn
        obtain ⟨ownNext, ownStep, agreesNext⟩ := foldEvent_own step agrees
        obtain ⟨result, folded⟩ := ih success indexedNext agreesNext
        refine ⟨result, ?_⟩
        rw [ownEvents, List.filter_cons_of_pos (by simp)]
        exact bind_eq_ok.mpr ⟨ownNext, ownStep, folded⟩
      · rw [ownEvents, List.filter_cons_of_neg (by simpa using isOwn)]
        exact ih success indexedNext
          (foldEvent_foreign step indexed isOwn agrees)

end Trstctl.Decommission.Depstate

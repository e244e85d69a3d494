import Trstctl.Library.Result
import Trstctl.Decommission.Depstate.Projection

/-!
# What an event does to the states of keys

Every step of the fold changes the states of keys by the registrations of its
event and by the change of its payload, and by nothing else: ceremonies, minted
leaves and revocations are kept beside the states.
-/

namespace Trstctl.Decommission.Depstate

open Go (Bytes bytes)
open Result (bind_eq_ok)

def keyState (state : FoldState) (key : ProjectionKey) : KeyState :=
  (state.builderFor key).state

/-- The dependents that a state accounts for. -/
def closed (state : KeyState) : List Dependent :=
  state.accounted ++ state.released ++ state.erasureDesignated

theorem keyState_setBuilder (state : FoldState) (key : ProjectionKey) (builder : KeyBuilder)
    (other : ProjectionKey) :
    keyState (state.setBuilder key builder) other =
      if other = key then builder.state else keyState state other := by
  simp only [keyState, FoldState.builderFor, FoldState.setBuilder]
  rw [Go.MapOf.lookup_set]
  split_ifs
  · rfl
  · rfl

theorem keyState_setBuilder_same {state : FoldState} {key : ProjectionKey} {builder : KeyBuilder}
    (same : builder.state = keyState state key) :
    keyState (state.setBuilder key builder) = keyState state := by
  funext other
  rw [keyState_setBuilder]
  split_ifs with isKey
  · rw [same, isKey]
  · rfl

theorem keyState_withIndex (state : FoldState) (index : Go.Map ProjectionKey) :
    keyState { state with ceremonyIndex := index } = keyState state := rfl

theorem keyState_closeCeremony (state : FoldState) (key : ProjectionKey) (ceremonyID : Bytes) :
    keyState (state.closeCeremony key ceremonyID) = keyState state := by
  rw [FoldState.closeCeremony, keyState_withIndex]
  exact keyState_setBuilder_same rfl

theorem applyCeremonyAction_cases
    {builder result : KeyBuilder} {event : Event} {ceremonyID custodian : Bytes}
    (success : builder.applyCeremonyAction event ceremonyID custodian = .ok result) :
    result = builder ∨
      ∃ ceremony after, builder.ceremonies.lookup ceremonyID = some ceremony ∧
        (event.type = caCeremonyCancelled ∨
          custodian ≠ ceremony.opener ∧
            after = { ceremony with approvals := ceremony.approvals.set custodian event.id }) ∧
        result = { builder with ceremonies := builder.ceremonies.set ceremonyID after } := by
  unfold KeyBuilder.applyCeremonyAction at success
  split at success
  · exact Or.inl (Except.ok.inj success).symm
  · rename_i ceremony isOpen
    split_ifs at success with cancels lacksEvidence
    · exact Or.inr ⟨ceremony, _, isOpen, Or.inl cancels, (Except.ok.inj success).symm⟩
    · simp only [not_or] at lacksEvidence
      exact Or.inr ⟨ceremony, _, isOpen, Or.inr ⟨lacksEvidence.2.2.1, rfl⟩,
        (Except.ok.inj success).symm⟩

theorem state_applyCeremonyAction
    {builder result : KeyBuilder} {event : Event} {ceremonyID custodian : Bytes}
    (success : builder.applyCeremonyAction event ceremonyID custodian = .ok result) :
    result.state = builder.state := by
  obtain rfl | ⟨ceremony, after, -, -, rfl⟩ := applyCeremonyAction_cases success
  · rfl
  · rfl

theorem keyState_startCeremony {codec : Codec} {state result : FoldState} {event : Event}
    (success : state.startCeremony codec event = .ok result) :
    keyState result = keyState state := by
  simp only [FoldState.startCeremony, bind_eq_ok] at success
  obtain ⟨started, -, success⟩ := success
  split at success
  · rw [← Except.ok.inj success]
  · simp only [Result.guard_eq_ok] at success
    rw [← Except.ok.inj success.2.2, keyState_withIndex]
    exact keyState_setBuilder_same rfl

theorem keyState_actOnCeremony {codec : Codec} {state result : FoldState} {event : Event}
    (success : state.actOnCeremony codec event = .ok result) :
    keyState result = keyState state := by
  simp only [FoldState.actOnCeremony, bind_eq_ok] at success
  obtain ⟨action, -, success⟩ := success
  split at success
  · rw [← Except.ok.inj success]
  · split_ifs at success
    · rw [← Except.ok.inj success]
    · obtain ⟨builder, acted, success⟩ := bind_eq_ok.mp success
      rw [← Except.ok.inj success, keyState_closeCeremony]
      exact keyState_setBuilder_same (state_applyCeremonyAction acted)
    · obtain ⟨builder, acted, success⟩ := bind_eq_ok.mp success
      rw [← Except.ok.inj success]
      exact keyState_setBuilder_same (state_applyCeremonyAction acted)

theorem keyState_applyReleaseCeremonyEvent
    {codec : Codec} {state result : FoldState} {event : Event}
    (success : state.applyReleaseCeremonyEvent codec event = .ok result) :
    keyState result = keyState state := by
  unfold FoldState.applyReleaseCeremonyEvent at success
  split_ifs at success
  · exact keyState_startCeremony success
  · exact keyState_actOnCeremony success
  · rw [← Except.ok.inj success]

theorem rememberManagedLeaf_cases {codec : Codec} {builder result : KeyBuilder} {event : Event}
    {dependent : Dependent}
    (success : builder.rememberManagedLeaf codec event dependent = .ok result) :
    result = builder ∨
      event.type = eventCAEndEntityIssued ∧
        (event.schemaVersion = 2 ∨ event.schemaVersion = 3) ∧
        ∃ issued, codec.mintReceipt event.data = .ok issued ∧
          result = { builder with
            leafSources := builder.leafSources.set dependent.key ⟨event.id, event.sequence,
              issued.serial, Go.hexEncode (codec.sha256Sum issued.certificateDER)⟩ } := by
  unfold KeyBuilder.rememberManagedLeaf at success
  split_ifs at success with otherEvent
  · exact Or.inl (Except.ok.inj success).symm
  · simp only [not_or, not_and_or, not_not] at otherEvent
    obtain ⟨issued, isIssued, success⟩ := bind_eq_ok.mp success
    dsimp only at success
    split_ifs at success
    · exact Or.inl (Except.ok.inj success).symm
    · exact Or.inl (Except.ok.inj success).symm
    · exact Or.inr ⟨otherEvent.1, otherEvent.2, issued, isIssued, (Except.ok.inj success).symm⟩

theorem state_rememberManagedLeaf {codec : Codec} {builder result : KeyBuilder} {event : Event}
    {dependent : Dependent}
    (success : builder.rememberManagedLeaf codec event dependent = .ok result) :
    result.state = builder.state := by
  obtain rfl | ⟨-, -, issued, -, rfl⟩ := rememberManagedLeaf_cases success
  · rfl
  · rfl

theorem rememberRevocation_cases
    {builder result : KeyBuilder} {event : Event} {certID serial digest : Bytes}
    (success : builder.rememberRevocation event certID serial digest = .ok result) :
    result = builder ∨
      result = { builder with
        revocations := builder.revocations.set (Dependent.key ⟨dependentCredential, certID⟩)
          ⟨event.id, event.sequence, serial, digest⟩ } := by
  unfold KeyBuilder.rememberRevocation at success
  dsimp only at success
  split at success
  · exact Or.inl (Except.ok.inj success).symm
  · split_ifs at success
    exact Or.inr (Except.ok.inj success).symm

theorem state_rememberRevocation
    {builder result : KeyBuilder} {event : Event} {certID serial digest : Bytes}
    (success : builder.rememberRevocation event certID serial digest = .ok result) :
    result.state = builder.state := by
  obtain rfl | rfl := rememberRevocation_cases success
  · rfl
  · rfl

theorem recordRevoked_invariant
    {σ : Type} {record : Bytes → Bytes → Bytes → Bytes → σ → Except Bytes σ} (invariant : σ → Prop)
    (items : List RevocationItem) :
    ∀ {seen : List Bytes} {state result : σ},
      (∀ item ∈ items, item.status = bytes "revoked" → ∀ before after,
        record item.caID item.id item.serial (Go.toLower item.fingerprint) before = .ok after →
          invariant before → invariant after) →
      recordRevoked record seen items state = .ok result → invariant state → invariant result := by
  induction items with
  | nil =>
      intro seen state result _ success holds
      rwa [← Except.ok.inj success]
  | cons item rest ih =>
      intro seen state result keeps success holds
      obtain ⟨keepsFirst, keepsRest⟩ := List.forall_mem_cons.mp keeps
      unfold recordRevoked at success
      split_ifs at success with _ unrevoked
      · exact ih keepsRest success holds
      · obtain ⟨next, recorded, success⟩ := bind_eq_ok.mp success
        exact ih keepsRest success
          (keepsFirst (not_not.mp unrevoked) state next recorded holds)

theorem rememberRevokedManagedLeaves_invariant {σ : Type} {codec : Codec} {event : Event}
    {record : Bytes → Bytes → Bytes → Bytes → σ → Except Bytes σ} {state result : σ}
    (invariant : σ → Prop)
    (success : rememberRevokedManagedLeaves codec event record state = .ok result)
    (holds : invariant state)
    (keeps : event.type = bytes "certificate.revocation.batch.applied" → ∀ batch,
      codec.revocationBatch event.data = .ok batch →
        ∀ item ∈ batch.items, item.status = bytes "revoked" → ∀ before after,
          record item.caID item.id item.serial (Go.toLower item.fingerprint) before = .ok after →
            invariant before → invariant after) :
    invariant result := by
  unfold rememberRevokedManagedLeaves at success
  split_ifs at success with otherType
  · rwa [← Except.ok.inj success]
  · obtain ⟨batch, isBatch, success⟩ := bind_eq_ok.mp success
    split_ifs at success
    exact recordRevoked_invariant invariant batch.items
      (keeps (not_not.mp otherType) batch isBatch) success holds

theorem keyState_rememberRevocations {codec : Codec} {state result : FoldState} {event : Event}
    (success : state.rememberRevocations codec event = .ok result) :
    keyState result = keyState state := by
  refine rememberRevokedManagedLeaves_invariant (fun current => keyState current = keyState state)
    success rfl ?_
  intro _ batch _ item _ _ before after recorded same
  obtain ⟨builder, remembered, stored⟩ := bind_eq_ok.mp recorded
  rw [← Except.ok.inj stored, ← same]
  exact keyState_setBuilder_same (state_rememberRevocation remembered)

theorem hasKey_appendUnique_self (dependents : List Dependent) (dependent : Dependent) :
    hasKey (appendUnique dependents dependent) dependent = true := by
  unfold appendUnique
  split_ifs with present
  · exact present
  · simp [hasKey]

theorem hasKey_appendUnique {dependents : List Dependent} {other : Dependent}
    (present : hasKey dependents other = true) (dependent : Dependent) :
    hasKey (appendUnique dependents dependent) other = true := by
  unfold appendUnique
  split_ifs
  · exact present
  · simp only [hasKey, List.any_append, Bool.or_eq_true]
    exact Or.inl present

theorem mem_appendUnique {dependents : List Dependent} {dependent other : Dependent}
    (member : other ∈ appendUnique dependents dependent) :
    other ∈ dependents ∨ other = dependent := by
  unfold appendUnique at member
  split_ifs at member
  · exact Or.inl member
  · simpa using member

/-- A state that registers at least what another does. -/
def RegistersMore (before after : KeyState) : Prop :=
  ∀ dependent, hasKey before.registered dependent = true →
    hasKey after.registered dependent = true

theorem registersMore_apply (state : KeyState) (dependent : Dependent) (operation : Operation) :
    RegistersMore state (state.apply dependent operation) := by
  intro other present
  cases operation with
  | register => exact hasKey_appendUnique present dependent
  | release =>
      simp only [KeyState.apply, KeyState.release]
      split_ifs
      · exact present
      · exact present
  | erase =>
      simp only [KeyState.apply, KeyState.erase]
      split_ifs
      · exact hasKey_appendUnique present dependent
      · exact hasKey_appendUnique present dependent
  | account => exact present

theorem mem_closed_apply {state : KeyState} {dependent other : Dependent} {operation : Operation}
    (member : other ∈ closed (state.apply dependent operation)) :
    other ∈ closed state ∨ other = dependent ∧ operation ≠ .register := by
  cases operation with
  | register => exact Or.inl member
  | release =>
      simp only [KeyState.apply, KeyState.release] at member
      split_ifs at member
      · exact Or.inl member
      · simp only [closed, KeyState.account, List.mem_append, List.mem_singleton] at member ⊢
        have accounted := fun isMember => @mem_appendUnique state.accounted dependent other isMember
        tauto
  | erase =>
      simp only [KeyState.apply, KeyState.erase] at member
      split_ifs at member
      · exact Or.inl member
      · simp only [closed, KeyState.account, KeyState.register, List.mem_append,
          List.mem_singleton] at member ⊢
        have accounted := fun isMember => @mem_appendUnique state.accounted dependent other isMember
        tauto
  | account =>
      simp only [closed, KeyState.apply, KeyState.account, List.mem_append] at member ⊢
      have accounted := fun isMember => @mem_appendUnique state.accounted dependent other isMember
      tauto

theorem RegistersMore.trans {first second third : KeyState} (left : RegistersMore first second)
    (right : RegistersMore second third) :
    RegistersMore first third :=
  fun dependent present => right dependent (left dependent present)

theorem registerAll_invariant {codec : Codec} {event : Event} {position : Nat}
    (invariant : FoldState → Prop) (registrations : List DependencyRegisteredV1) :
    ∀ {state result : FoldState},
      FoldState.registerAll codec event position registrations state = .ok result →
        (∀ registered ∈ registrations, ∀ before builder,
          KeyBuilder.rememberManagedLeaf codec
              { before.builderFor ⟨registered.tenantID, registered.keyID⟩ with
                state := (keyState before ⟨registered.tenantID, registered.keyID⟩).register
                  registered.dependent } event registered.dependent = .ok builder →
            invariant before →
              invariant (before.setBuilder ⟨registered.tenantID, registered.keyID⟩
                { builder with state := builder.state.advance (ledgerPosition event position) })) →
        invariant state → invariant result := by
  induction registrations with
  | nil =>
      intro state result success _ holds
      rwa [← Except.ok.inj success]
  | cons registered rest ih =>
      intro state result success keeps holds
      obtain ⟨keepsFirst, keepsRest⟩ := List.forall_mem_cons.mp keeps
      obtain ⟨builder, remembered, success⟩ := bind_eq_ok.mp success
      exact ih success keepsRest (keepsFirst state builder remembered holds)

/-- The registrations of a CA event add dependents to the keys they name and
close none. -/
theorem keyState_registerAll {codec : Codec} {event : Event} {position : Nat}
    (registrations : List DependencyRegisteredV1) (key : ProjectionKey) :
    ∀ {state result : FoldState},
      FoldState.registerAll codec event position registrations state = .ok result →
        RegistersMore (keyState state key) (keyState result key) ∧
        closed (keyState result key) = closed (keyState state key) ∧
        ∀ registered ∈ registrations, ⟨registered.tenantID, registered.keyID⟩ = key →
          hasKey (keyState result key).registered registered.dependent = true := by
  induction registrations with
  | nil =>
      intro state result success
      obtain rfl := Except.ok.inj success
      exact ⟨fun _ present => present, rfl, fun _ member => absurd member List.not_mem_nil⟩
  | cons registered rest ih =>
      intro state result success
      simp only [FoldState.registerAll, bind_eq_ok] at success
      obtain ⟨builder, remembered, success⟩ := success
      obtain ⟨more, sameClosed, all⟩ := ih success
      have builderState := state_rememberManagedLeaf remembered
      rw [keyState_setBuilder] at more sameClosed
      split_ifs at more sameClosed with isKey
      · -- the key that is registered for
        have first : RegistersMore (keyState state key)
            ((keyState state key).register registered.dependent) :=
          registersMore_apply _ _ .register
        simp only [builderState, ← isKey] at more sameClosed
        refine ⟨first.trans more, sameClosed, ?_⟩
        intro other member sameKey
        rcases List.mem_cons.mp member with rfl | member
        · exact more _ (hasKey_appendUnique_self _ _)
        · exact all other member sameKey
      · refine ⟨more, sameClosed, ?_⟩
        intro other member sameKey
        rcases List.mem_cons.mp member with rfl | member
        · exact absurd sameKey.symm isKey
        · exact all other member sameKey

theorem keyState_closeReleased (state : FoldState) (key : ProjectionKey) (payload : Payload) :
    keyState (state.closeReleased key payload) = keyState state := by
  unfold FoldState.closeReleased
  split
  · rfl
  · exact keyState_closeCeremony _ _ _

theorem keyState_applyPayload
    {event : Event} {position : Nat} {payload : Payload} {state result : FoldState}
    (success : state.applyPayload event position payload = .ok result) (key : ProjectionKey) :
    keyState result key =
      match payloadChange payload with
      | none => keyState state key
      | some change =>
          if key = change.key then
            ((keyState state key).apply change.dependent change.operation).advance
              (ledgerPosition event position)
          else keyState state key := by
  unfold FoldState.applyPayload at success
  cases isChange : payloadChange payload with
  | none =>
      simp only [isChange] at success
      rw [← Except.ok.inj success]
  | some change =>
      simp only [isChange] at success
      obtain ⟨_, -, success⟩ := bind_eq_ok.mp success
      rw [← Except.ok.inj success, keyState_closeReleased, keyState_setBuilder]
      by_cases isKey : key = change.key
      · subst isKey
        simp only [if_true]
        rfl
      · simp only [isKey, if_false]

theorem atEvent_eq_ok {α : Type} {subject detail : Bytes} {index : Nat} {result : Except Bytes α}
    {value : α} :
    atEvent subject index detail result = .ok value ↔ result = .ok value := by
  cases result with
  | error error => simp [atEvent]
  | ok found => simp [atEvent]

end Trstctl.Decommission.Depstate

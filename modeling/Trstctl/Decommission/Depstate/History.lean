import Trstctl.Decommission.Depstate.OwnEvents

/-!
# Where the entries of a builder come from

What a builder keeps beside its state was put there by earlier events: a mint
event for every managed leaf, a batch of revocations for every revoked one, and
for every open ceremony its start event, with the approvals since.  A ceremony
stays open only while no event cancels it, uses it up or starts it again.
-/

namespace Trstctl.Decommission.Depstate

open Go (Bytes bytes MapOf)
open Result (bind_eq_ok guard_eq_ok)

/-- A managed CA mint event with the certificate of a dependent of the key. -/
structure Mints (codec : Codec) (event : Event) (key : ProjectionKey) (dependent : Dependent)
    (source : LeafEvent) : Prop where
  isIssuance : event.type = eventCAEndEntityIssued
  isManaged : event.schemaVersion = 2 ∨ event.schemaVersion = 3
  id_eq : event.id = source.eventID
  sequence_eq : event.sequence = source.sequence
  receipt : ∃ receipt, codec.mintReceipt event.data = .ok receipt ∧
    receipt.serial = source.serial ∧
    Go.hexEncode (codec.sha256Sum receipt.certificateDER) = source.certificateSHA256
  registers : ∃ registrations, caRegistrations codec event = .ok registrations ∧
    ∃ registered ∈ registrations, key = ⟨registered.tenantID, registered.keyID⟩ ∧
      registered.dependent = dependent

/-- A batch of revocations of the key's tenant with a revoked certificate that
the key issued. -/
structure Revokes (codec : Codec) (event : Event) (key : ProjectionKey) (certID : Bytes)
    (revocation : LeafEvent) : Prop where
  isBatch : event.type = bytes "certificate.revocation.batch.applied"
  tenantID_eq : event.tenantID = key.tenantID
  id_eq : event.id = revocation.eventID
  sequence_eq : event.sequence = revocation.sequence
  item : ∃ batch, codec.revocationBatch event.data = .ok batch ∧
    ∃ item ∈ batch.items, item.status = bytes "revoked" ∧ item.caID = key.keyID ∧
      item.id = certID ∧ item.serial = revocation.serial ∧
      Go.toLower item.fingerprint = revocation.certificateSHA256

/-- The event starts a release ceremony of the key. -/
structure Starts (codec : Codec) (event : Event) (key : ProjectionKey)
    (started : CeremonyStarted) : Prop where
  isStart : event.type = caCeremonyStarted
  tenantID_eq : event.tenantID = key.tenantID
  started_eq : codec.ceremonyStarted event.data = .ok started
  purposeKey_eq : releasePurposeKey codec started.purpose = some key.keyID

/-- It starts the ceremony of that name. -/
def StartsAs (codec : Codec) (key : ProjectionKey) (ceremonyID : Bytes) (event : Event) : Prop :=
  ∃ started, Starts codec event key started ∧ started.ceremonyID = ceremonyID

/-- An approval or a cancellation, as `type` says, of the ceremony. -/
def ActsOn (codec : Codec) (type tenantID ceremonyID custodian : Bytes) (event : Event) : Prop :=
  event.type = type ∧ event.tenantID = tenantID ∧
    codec.ceremonyAction event.data = .ok ⟨ceremonyID, custodian⟩

/-- A cancellation of the ceremony. -/
def Cancels (codec : Codec) (tenantID ceremonyID : Bytes) (event : Event) : Prop :=
  ∃ custodian, ActsOn codec caCeremonyCancelled tenantID ceremonyID custodian event

/-- The event is a source-bound release. -/
def IsRelease (codec : Codec) (event : Event) (bound : SourceBoundRelease) : Prop :=
  ∃ payload, decode codec event = .ok payload ∧ sourceBoundRelease payload = some bound

def SourceBoundRelease.key (bound : SourceBoundRelease) : ProjectionKey :=
  ⟨bound.release.tenantID, bound.release.keyID⟩

/-- The event is a source-bound release of the key that uses up the ceremony. -/
def UsesUp (codec : Codec) (key : ProjectionKey) (ceremonyID : Bytes) (event : Event) : Prop :=
  ∃ bound, IsRelease codec event bound ∧ bound.key = key ∧ bound.release.ceremonyID = ceremonyID

/-- The approvals of a ceremony are by distinct custodians other than its
opener, each by an event of a list. -/
structure ApprovedBy (codec : Codec) (tenantID ceremonyID : Bytes) (since : List Event)
    (ceremony : ReleaseCeremony) : Prop where
  nodup : (ceremony.approvals.map Prod.fst).Nodup
  approved : ∀ custodian ∈ ceremony.approvals.map Prod.fst, custodian ≠ ceremony.opener ∧
    ∃ event ∈ since, ActsOn codec caCeremonyApproved tenantID ceremonyID custodian event

/-- The ceremony was started by the event `start` and is open since. -/
structure OpenSince (codec : Codec) (key : ProjectionKey) (ceremonyID : Bytes)
    (ceremony : ReleaseCeremony) (start : Event) (since : List Event) : Prop where
  started : ∃ started, Starts codec start key started ∧ started.ceremonyID = ceremonyID ∧
    2 ≤ started.threshold ∧ ceremony.purpose = started.purpose ∧
    ceremony.threshold = started.threshold ∧ ceremony.opener = started.opener
  notRestarted : ∀ event ∈ since, ¬ StartsAs codec key ceremonyID event
  notCancelled : ∀ event ∈ since, ¬ Cancels codec key.tenantID ceremonyID event
  notUsedUp : ∀ event ∈ since, ¬ UsesUp codec key ceremonyID event
  approvedBy : ApprovedBy codec key.tenantID ceremonyID since ceremony

/-- Every entry of a builder comes from one of the events. -/
structure History (codec : Codec) (key : ProjectionKey) (events : List Event)
    (builder : KeyBuilder) : Prop where
  minted : ∀ name source, builder.leafSources.lookup name = some source →
    ∃ event ∈ events, ∃ dependent, Mints codec event key dependent source ∧ dependent.key = name
  revoked : ∀ name revocation, builder.revocations.lookup name = some revocation →
    ∃ event ∈ events, ∃ certID, Revokes codec event key certID revocation ∧
      Dependent.key ⟨dependentCredential, certID⟩ = name
  opened : ∀ ceremonyID ceremony, builder.ceremonies.lookup ceremonyID = some ceremony →
    ∃ before start since, events = before ++ start :: since ∧
      OpenSince codec key ceremonyID ceremony start since

variable {event : Event}

theorem sourceBoundRelease_of_decodeVersion
    {α : Type} {want : Int} {unmarshal : Bytes → Except Bytes α} {wrap : α → Payload}
    {payload : Payload} (decoded : decodeVersion event want unmarshal wrap = .ok payload)
    (unbound : ∀ value, sourceBoundRelease (wrap value) = none) :
    sourceBoundRelease payload = none := by
  unfold decodeVersion at decoded
  split_ifs at decoded
  · rw [← Except.ok.inj decoded]
    rfl
  · split at decoded
    · cases decoded
    · rw [← Except.ok.inj decoded, unbound]

variable {codec : Codec}

theorem IsRelease.type_eq {bound : SourceBoundRelease} (isRelease : IsRelease codec event bound) :
    event.type = bytes "dependency.released" := by
  obtain ⟨payload, decoded, isBound⟩ := isRelease
  by_contra otherType
  unfold decode at decoded
  rw [if_neg otherType] at decoded
  have unbound : sourceBoundRelease payload = none := by
    split_ifs at decoded
    · exact sourceBoundRelease_of_decodeVersion decoded fun _ => rfl
    · exact sourceBoundRelease_of_decodeVersion decoded fun _ => rfl
    · exact sourceBoundRelease_of_decodeVersion decoded fun _ => rfl
    · exact sourceBoundRelease_of_decodeVersion decoded fun _ => rfl
    · rw [← Except.ok.inj decoded]
      rfl
  rw [unbound] at isBound
  cases isBound

theorem ceremonyTypes_ne :
    caCeremonyStarted ≠ caCeremonyApproved ∧ caCeremonyStarted ≠ caCeremonyCancelled ∧
      caCeremonyApproved ≠ caCeremonyCancelled := by
  decide +kernel

variable {key : ProjectionKey} {ceremonyID : Bytes}

theorem OpenSince.extend {ceremony : ReleaseCeremony} {start : Event} {since : List Event}
    (openSince : OpenSince codec key ceremonyID ceremony start since)
    (notStarts : ¬ StartsAs codec key ceremonyID event)
    (notCancels : ¬ Cancels codec key.tenantID ceremonyID event)
    (notUsesUp : ¬ UsesUp codec key ceremonyID event) :
    OpenSince codec key ceremonyID ceremony start (since ++ [event]) where
  started := openSince.started
  notRestarted := List.forall_mem_append.mpr
    ⟨openSince.notRestarted, List.forall_mem_singleton.mpr notStarts⟩
  notCancelled := List.forall_mem_append.mpr
    ⟨openSince.notCancelled, List.forall_mem_singleton.mpr notCancels⟩
  notUsedUp := List.forall_mem_append.mpr
    ⟨openSince.notUsedUp, List.forall_mem_singleton.mpr notUsesUp⟩
  approvedBy := by
    refine ⟨openSince.approvedBy.nodup, fun custodian member => ?_⟩
    obtain ⟨notOpener, approval, isApproval, acts⟩ :=
      openSince.approvedBy.approved custodian member
    exact ⟨notOpener, approval, List.mem_append_left _ isApproval, acts⟩

theorem OpenSince.approve {custodian : Bytes} {ceremony : ReleaseCeremony} {start : Event}
    {since : List Event}
    (openSince : OpenSince codec key ceremonyID ceremony start (since ++ [event]))
    (acts : ActsOn codec caCeremonyApproved key.tenantID ceremonyID custodian event)
    (notOpener : custodian ≠ ceremony.opener) :
    OpenSince codec key ceremonyID
      { ceremony with approvals := ceremony.approvals.set custodian event.id } start
      (since ++ [event]) where
  started := openSince.started
  notRestarted := openSince.notRestarted
  notCancelled := openSince.notCancelled
  notUsedUp := openSince.notUsedUp
  approvedBy := by
    have kept : ((ceremony.approvals.filter fun binding => binding.1 != custodian).map
        Prod.fst).Sublist (ceremony.approvals.map Prod.fst) := List.filter_sublist.map _
    constructor
    · simp only [MapOf.set, List.map_cons, List.nodup_cons]
      refine ⟨fun member => ?_, kept.nodup openSince.approvedBy.nodup⟩
      obtain ⟨binding, isKept, same⟩ := List.mem_map.mp member
      have different := (List.mem_filter.mp isKept).2
      rw [same, bne_self_eq_false] at different
      cases different
    · intro other member
      simp only [MapOf.set, List.map_cons, List.mem_cons] at member
      rcases member with rfl | member
      · exact ⟨notOpener, event, List.mem_append_right _ (List.mem_singleton_self event), acts⟩
      · exact openSince.approvedBy.approved other (kept.subset member)

/-- What a ceremony event can do to a ceremony of a builder: it starts it, or it
neither starts nor cancels it and at most approves it. -/
def CeremonyStep (codec : Codec) (key : ProjectionKey) (event : Event) (ceremonyID : Bytes)
    (before : Option ReleaseCeremony) (after : ReleaseCeremony) : Prop :=
  (∃ started, Starts codec event key started ∧ started.ceremonyID = ceremonyID ∧
    2 ≤ started.threshold ∧ after = newCeremony started) ∨
  ∃ ceremony, before = some ceremony ∧ ¬ StartsAs codec key ceremonyID event ∧
    ¬ Cancels codec key.tenantID ceremonyID event ∧
    (after = ceremony ∨ ∃ custodian,
      ActsOn codec caCeremonyApproved key.tenantID ceremonyID custodian event ∧
      custodian ≠ ceremony.opener ∧
      after = { ceremony with approvals := ceremony.approvals.set custodian event.id })

variable {builder result : KeyBuilder} {after : ReleaseCeremony}

theorem ceremonyStep_startCeremony (isStart : event.type = caCeremonyStarted)
    (named : builder.state.tenantID = key.tenantID)
    (success : builder.startCeremony codec event key.keyID = .ok result)
    (isOpen : result.ceremonies.lookup ceremonyID = some after) :
    CeremonyStep codec key event ceremonyID (builder.ceremonies.lookup ceremonyID) after := by
  have notCancels : ¬ Cancels codec key.tenantID ceremonyID event := by
    rintro ⟨custodian, isCancel, -⟩
    exact ceremonyTypes_ne.2.1 (isStart.symm.trans isCancel)
  obtain ⟨started, isStarted, success⟩ := bind_eq_ok.mp success
  split at success
  · rename_i noPurpose
    rw [← Except.ok.inj success] at isOpen
    refine Or.inr ⟨after, isOpen, ?_, notCancels, Or.inl rfl⟩
    rintro ⟨other, starts, -⟩
    obtain rfl := Except.ok.inj (isStarted.symm.trans starts.started_eq)
    rw [starts.purposeKey_eq] at noPurpose
    cases noPurpose
  · rename_i purposeKey isPurpose
    split at success
    · rename_i otherKey
      rw [← Except.ok.inj success] at isOpen
      refine Or.inr ⟨after, isOpen, ?_, notCancels, Or.inl rfl⟩
      rintro ⟨other, starts, -⟩
      obtain rfl := Except.ok.inj (isStarted.symm.trans starts.started_eq)
      rcases otherKey with otherKey | otherTenant
      · exact otherKey (Option.some.inj (isPurpose.symm.trans starts.purposeKey_eq))
      · exact otherTenant (starts.tenantID_eq.trans named.symm)
    · rename_i sameKey
      simp only [guard_eq_ok] at success
      obtain ⟨complete, -, success⟩ := success
      simp only [ne_eq, not_or, not_not] at sameKey
      rw [not_or, Int.not_lt] at complete
      rw [← Except.ok.inj success] at isOpen
      dsimp only at isOpen
      rw [MapOf.lookup_set] at isOpen
      split_ifs at isOpen with isStartedID
      · refine Or.inl ⟨started, ⟨isStart, sameKey.2.trans named, isStarted, ?_⟩,
          isStartedID.symm, complete.2, (Option.some.inj isOpen).symm⟩
        rw [isPurpose, sameKey.1]
      · refine Or.inr ⟨after, isOpen, ?_, notCancels, Or.inl rfl⟩
        rintro ⟨other, starts, sameID⟩
        obtain rfl := Except.ok.inj (isStarted.symm.trans starts.started_eq)
        exact isStartedID sameID.symm

theorem ceremonyStep_actOnCeremony
    (isAction : event.type = caCeremonyApproved ∨ event.type = caCeremonyCancelled)
    (named : builder.state.tenantID = key.tenantID)
    (success : builder.actOnCeremony codec event = .ok result)
    (isOpen : result.ceremonies.lookup ceremonyID = some after) :
    CeremonyStep codec key event ceremonyID (builder.ceremonies.lookup ceremonyID) after := by
  have notStarts : ¬ StartsAs codec key ceremonyID event := by
    rintro ⟨started, starts, -⟩
    rcases isAction with isApproval | isCancel
    · exact ceremonyTypes_ne.1 (starts.isStart.symm.trans isApproval)
    · exact ceremonyTypes_ne.2.1 (starts.isStart.symm.trans isCancel)
  obtain ⟨action, isRead, success⟩ := bind_eq_ok.mp success
  split at success
  · rename_i otherTenant
    rw [← Except.ok.inj success] at isOpen
    refine Or.inr ⟨after, isOpen, notStarts, ?_, Or.inl rfl⟩
    rintro ⟨custodian, -, sameTenant, -⟩
    exact otherTenant (sameTenant.trans named.symm)
  · rename_i sameTenant
    rw [not_not, named] at sameTenant
    obtain ⟨acted, actedOn, success⟩ := bind_eq_ok.mp success
    rw [← Except.ok.inj success] at isOpen
    by_cases cancels : event.type = caCeremonyCancelled
    · -- the cancelled ceremony is removed, and the others are as before
      rw [if_pos cancels, MapOf.lookup_delete] at isOpen
      split_ifs at isOpen with isCancelled
      have notCancels : ¬ Cancels codec key.tenantID ceremonyID event := by
        rintro ⟨custodian, -, -, readAgain⟩
        rw [isRead] at readAgain
        exact isCancelled (congrArg CeremonyAction.ceremonyID (Except.ok.inj readAgain)).symm
      have unchanged : acted.ceremonies.lookup ceremonyID =
          builder.ceremonies.lookup ceremonyID := by
        obtain rfl | ⟨ceremony, marked, -, -, rfl⟩ := applyCeremonyAction_cases actedOn
        · rfl
        · rw [MapOf.lookup_set, if_neg isCancelled]
      rw [unchanged] at isOpen
      exact Or.inr ⟨after, isOpen, notStarts, notCancels, Or.inl rfl⟩
    · have isApproval := isAction.resolve_right cancels
      have notCancels : ¬ Cancels codec key.tenantID ceremonyID event := by
        rintro ⟨custodian, isCancel, -⟩
        exact cancels isCancel
      rw [if_neg cancels] at isOpen
      obtain rfl | ⟨ceremony, approved, isCeremony, change, rfl⟩ :=
        applyCeremonyAction_cases actedOn
      · exact Or.inr ⟨after, isOpen, notStarts, notCancels, Or.inl rfl⟩
      · obtain ⟨notOpener, isApproved⟩ := change.resolve_left cancels
        rw [MapOf.lookup_set] at isOpen
        split_ifs at isOpen with isActed
        · have acts : ActsOn codec caCeremonyApproved key.tenantID ceremonyID action.custodian
              event := by
            refine ⟨isApproval, sameTenant, ?_⟩
            rw [isRead, isActed]
          refine Or.inr ⟨ceremony, ?_, notStarts, notCancels,
            Or.inr ⟨action.custodian, acts, notOpener, ?_⟩⟩
          · rw [isActed, isCeremony]
          · rw [← isApproved]
            exact (Option.some.inj isOpen).symm
        · exact Or.inr ⟨after, isOpen, notStarts, notCancels, Or.inl rfl⟩

theorem ceremonyStep_applyReleaseCeremonyToKey (named : builder.state.tenantID = key.tenantID)
    (success : applyReleaseCeremonyToKey codec event key.keyID builder = .ok result)
    (isOpen : result.ceremonies.lookup ceremonyID = some after) :
    CeremonyStep codec key event ceremonyID (builder.ceremonies.lookup ceremonyID) after := by
  unfold applyReleaseCeremonyToKey at success
  split_ifs at success with isStart isAction
  · exact ceremonyStep_startCeremony isStart named success isOpen
  · exact ceremonyStep_actOnCeremony isAction named success isOpen
  · rw [← Except.ok.inj success] at isOpen
    refine Or.inr ⟨after, isOpen, ?_, ?_, Or.inl rfl⟩
    · rintro ⟨started, starts, -⟩
      exact isStart starts.isStart
    · rintro ⟨custodian, isCancel, -⟩
      exact isAction (Or.inr isCancel)

theorem leaves_applyCeremonyAction {custodian : Bytes}
    (success : builder.applyCeremonyAction event ceremonyID custodian = .ok result) :
    result.leafSources = builder.leafSources ∧ result.revocations = builder.revocations := by
  obtain rfl | ⟨ceremony, after, -, -, rfl⟩ := applyCeremonyAction_cases success
  · exact ⟨rfl, rfl⟩
  · exact ⟨rfl, rfl⟩

theorem leaves_applyReleaseCeremonyToKey {keyID : Bytes}
    (success : applyReleaseCeremonyToKey codec event keyID builder = .ok result) :
    result.leafSources = builder.leafSources ∧ result.revocations = builder.revocations := by
  unfold applyReleaseCeremonyToKey at success
  split_ifs at success
  · obtain ⟨started, -, success⟩ := bind_eq_ok.mp success
    split at success
    · rw [← Except.ok.inj success]
      exact ⟨rfl, rfl⟩
    · split at success
      · rw [← Except.ok.inj success]
        exact ⟨rfl, rfl⟩
      · simp only [guard_eq_ok] at success
        rw [← Except.ok.inj success.2.2]
        exact ⟨rfl, rfl⟩
  · obtain ⟨action, -, success⟩ := bind_eq_ok.mp success
    split at success
    · rw [← Except.ok.inj success]
      exact ⟨rfl, rfl⟩
    · obtain ⟨acted, actedOn, success⟩ := bind_eq_ok.mp success
      have same := leaves_applyCeremonyAction actedOn
      rw [← Except.ok.inj success]
      split_ifs
      · exact same
      · exact same
  · rw [← Except.ok.inj success]
    exact ⟨rfl, rfl⟩

/-- A builder has the leaves of another, and beyond them only what an event
mints. -/
def MintsBeyond (codec : Codec) (key : ProjectionKey) (event : Event)
    (before after : KeyBuilder) : Prop :=
  ∀ name source, after.leafSources.lookup name = some source →
    before.leafSources.lookup name = some source ∨
      ∃ dependent, Mints codec event key dependent source ∧ dependent.key = name

theorem revocations_rememberManagedLeaf {dependent : Dependent}
    (success : builder.rememberManagedLeaf codec event dependent = .ok result) :
    result.revocations = builder.revocations := by
  obtain rfl | ⟨-, -, issued, -, rfl⟩ := rememberManagedLeaf_cases success
  · rfl
  · rfl

theorem mintsBeyond_rememberManagedLeaf
    {registrations : List DependencyRegisteredV1} {registered : DependencyRegisteredV1}
    (derived : caRegistrations codec event = .ok registrations)
    (member : registered ∈ registrations) (isKey : key = ⟨registered.tenantID, registered.keyID⟩)
    (success : builder.rememberManagedLeaf codec event registered.dependent = .ok result) :
    MintsBeyond codec key event builder result := by
  intro name source found
  obtain rfl | ⟨isIssuance, isManaged, issued, isIssued, rfl⟩ := rememberManagedLeaf_cases success
  · exact Or.inl found
  · dsimp only at found
    rw [MapOf.lookup_set] at found
    split_ifs at found with isName
    · obtain rfl := Option.some.inj found
      exact Or.inr ⟨registered.dependent,
        { isIssuance := isIssuance
          isManaged := isManaged
          id_eq := rfl
          sequence_eq := rfl
          receipt := ⟨issued, isIssued, rfl, rfl⟩
          registers := ⟨registrations, derived, registered, member, isKey, rfl⟩ },
        isName.symm⟩
    · exact Or.inl found

theorem mintsBeyond_registerAll {all : List DependencyRegisteredV1}
    (derived : caRegistrations codec event = .ok all) (registrations : List DependencyRegisteredV1)
    (included : ∀ registered ∈ registrations, registered ∈ all) :
    ∀ {folder result : KeyFolder},
      KeyFolder.registerAll codec event registrations folder = .ok result →
        key = ⟨folder.tenantID, folder.keyID⟩ →
          MintsBeyond codec key event folder.builder result.builder ∧
          result.builder.revocations = folder.builder.revocations ∧
          result.builder.ceremonies = folder.builder.ceremonies ∧
          result.tenantID = folder.tenantID ∧ result.keyID = folder.keyID := by
  induction registrations with
  | nil =>
      intro folder result success isKey
      rw [← Except.ok.inj success]
      exact ⟨fun _ _ => Or.inl, rfl, rfl, rfl, rfl⟩
  | cons registered rest ih =>
      intro folder result success isKey
      obtain ⟨isFirst, includedRest⟩ := List.forall_mem_cons.mp included
      unfold KeyFolder.registerAll at success
      split_ifs at success with sameKey
      · obtain ⟨builder, remembered, success⟩ := bind_eq_ok.mp success
        have isRegistered : key = ⟨registered.tenantID, registered.keyID⟩ := by
          rw [isKey, sameKey.1, sameKey.2]
        have first := mintsBeyond_rememberManagedLeaf derived isFirst isRegistered remembered
        have sameRevocations := revocations_rememberManagedLeaf remembered
        have sameCeremonies := ceremonies_rememberManagedLeaf remembered
        obtain ⟨later, revocations, ceremonies, tenantID_eq, keyID_eq⟩ :=
          ih includedRest success isKey
        refine ⟨?_, ?_, ?_, tenantID_eq, keyID_eq⟩
        · intro name source found
          rcases later name source found with old | minted
          · exact first name source old
          · exact Or.inr minted
        · exact revocations.trans sameRevocations
        · exact ceremonies.trans sameCeremonies
      · exact ih includedRest success isKey

/-- A builder has the revocations of another, and beyond them only what an
event revokes. -/
def RevokesBeyond (codec : Codec) (key : ProjectionKey) (event : Event)
    (before after : KeyBuilder) : Prop :=
  ∀ name revocation, after.revocations.lookup name = some revocation →
    before.revocations.lookup name = some revocation ∨
      ∃ certID, Revokes codec event key certID revocation ∧
        Dependent.key ⟨dependentCredential, certID⟩ = name

/-- A batch of revocations adds the leaves that it revokes. -/
theorem revokesBeyond_rememberRevocations {folder result : KeyFolder}
    (isKey : key = ⟨folder.tenantID, folder.keyID⟩)
    (success : folder.rememberRevocations codec event = .ok result) :
    RevokesBeyond codec key event folder.builder result.builder ∧
      result.builder.leafSources = folder.builder.leafSources ∧
      result.builder.ceremonies = folder.builder.ceremonies ∧
      result.tenantID = folder.tenantID ∧ result.keyID = folder.keyID := by
  refine rememberRevokedManagedLeaves_invariant
    (fun current => RevokesBeyond codec key event folder.builder current.builder ∧
      current.builder.leafSources = folder.builder.leafSources ∧
      current.builder.ceremonies = folder.builder.ceremonies ∧
      current.tenantID = folder.tenantID ∧ current.keyID = folder.keyID)
    success ⟨fun _ _ => Or.inl, rfl, rfl, rfl, rfl⟩ ?_
  rintro isType batch isBatch item isItem isRevoked before after recorded
    ⟨beyond, leafSources, ceremonies, tenantID_eq, keyID_eq⟩
  split_ifs at recorded with otherKey
  · rw [← Except.ok.inj recorded]
    exact ⟨beyond, leafSources, ceremonies, tenantID_eq, keyID_eq⟩
  · simp only [ne_eq, not_or, not_not] at otherKey
    obtain ⟨builder, remembered, stored⟩ := bind_eq_ok.mp recorded
    rw [← Except.ok.inj stored]
    rcases rememberRevocation_cases remembered with rfl | rfl
    · exact ⟨beyond, leafSources, ceremonies, tenantID_eq, keyID_eq⟩
    · refine ⟨?_, leafSources, ceremonies, tenantID_eq, keyID_eq⟩
      intro name revocation found
      dsimp only at found
      rw [MapOf.lookup_set] at found
      split_ifs at found with isName
      · obtain rfl := Option.some.inj found
        have revokes : Revokes codec event key item.id
            ⟨event.id, event.sequence, item.serial, Go.toLower item.fingerprint⟩ :=
          { isBatch := isType
            tenantID_eq := by rw [isKey, otherKey.1, tenantID_eq]
            id_eq := rfl
            sequence_eq := rfl
            item := ⟨batch, isBatch, item, isItem, isRevoked,
              by rw [isKey, otherKey.2, keyID_eq], rfl, rfl, rfl⟩ }
        exact Or.inr ⟨item.id, revokes, isName.symm⟩
      · exact beyond name revocation found

/-- A payload removes the ceremony that it uses up, and nothing else. -/
theorem beside_applyPayload {payload : Payload} {folder result : KeyFolder}
    (isKey : key = ⟨folder.tenantID, folder.keyID⟩) (decoded : decode codec event = .ok payload)
    (success : folder.applyPayload event payload = .ok result) :
    result.builder.leafSources = folder.builder.leafSources ∧
      result.builder.revocations = folder.builder.revocations ∧
      ∀ ceremonyID ceremony, result.builder.ceremonies.lookup ceremonyID = some ceremony →
        folder.builder.ceremonies.lookup ceremonyID = some ceremony ∧
          ¬ UsesUp codec key ceremonyID event := by
  -- a release of the key is a change of it
  have changes : ∀ ceremonyID, UsesUp codec key ceremonyID event →
      ∃ bound, sourceBoundRelease payload = some bound ∧ bound.release.ceremonyID = ceremonyID ∧
        payloadChange payload = some ⟨key, bound.release.dependent, .release⟩ := by
    rintro ceremonyID ⟨bound, ⟨other, decodedOther, isBound⟩, sameKey, sameID⟩
    obtain rfl := Except.ok.inj (decoded.symm.trans decodedOther)
    refine ⟨bound, isBound, sameID, ?_⟩
    rw [payloadChange_of_sourceBoundRelease isBound, ← sameKey]
    rfl
  unfold KeyFolder.applyPayload at success
  split at success
  · rename_i unchanged
    rw [← Except.ok.inj success]
    refine ⟨rfl, rfl, fun ceremonyID ceremony isOpen => ⟨isOpen, fun usesUp => ?_⟩⟩
    obtain ⟨bound, -, -, isChange⟩ := changes ceremonyID usesUp
    rw [unchanged] at isChange
    cases isChange
  · rename_i change isChange
    split_ifs at success with sameKey
    · obtain ⟨⟨⟩, -, success⟩ := bind_eq_ok.mp success
      rw [← Except.ok.inj success]
      unfold KeyBuilder.closeReleased
      rw [releasedCeremony_eq]
      cases isBound : sourceBoundRelease payload with
      | none =>
          refine ⟨rfl, rfl, fun ceremonyID ceremony isOpen => ⟨isOpen, fun usesUp => ?_⟩⟩
          obtain ⟨bound, isBound', -⟩ := changes ceremonyID usesUp
          rw [isBound] at isBound'
          cases isBound'
      | some bound =>
          refine ⟨rfl, rfl, fun ceremonyID ceremony isOpen => ?_⟩
          simp only [Option.map_some] at isOpen
          rw [MapOf.lookup_delete] at isOpen
          split_ifs at isOpen with isClosed
          refine ⟨isOpen, fun usesUp => ?_⟩
          obtain ⟨other, isOther, sameID, -⟩ := changes ceremonyID usesUp
          obtain rfl := Option.some.inj (isBound.symm.trans isOther)
          exact isClosed sameID.symm
    · rw [← Except.ok.inj success]
      refine ⟨rfl, rfl, fun ceremonyID ceremony isOpen => ⟨isOpen, fun usesUp => ?_⟩⟩
      obtain ⟨bound, -, -, changesKey⟩ := changes ceremonyID usesUp
      rw [isChange] at changesKey
      rw [Option.some.inj changesKey, isKey] at sameKey
      exact sameKey ⟨rfl, rfl⟩

theorem history_start (codec : Codec) (key : ProjectionKey) :
    History codec key [] (newKeyBuilder key) where
  minted _ _ found := by cases found
  revoked _ _ found := by cases found
  opened _ _ found := by cases found

variable {events : List Event}

theorem openSince_of_ceremonyStep {before : Go.Map ReleaseCeremony}
    (opened : ∀ ceremony, before.lookup ceremonyID = some ceremony →
      ∃ earlier start since, events = earlier ++ start :: since ∧
        OpenSince codec key ceremonyID ceremony start since)
    (step : CeremonyStep codec key event ceremonyID (before.lookup ceremonyID) after)
    (notUsesUp : ¬ UsesUp codec key ceremonyID event) :
    ∃ earlier start since, events ++ [event] = earlier ++ start :: since ∧
      OpenSince codec key ceremonyID after start since := by
  rcases step with ⟨started, starts, sameID, twoPeople, rfl⟩ |
    ⟨ceremony, wasOpen, notStarts, notCancels, change⟩
  · refine ⟨events, event, [], rfl, ?_⟩
    exact
      { started := ⟨started, starts, sameID, twoPeople, rfl, rfl, rfl⟩
        notRestarted := List.forall_mem_nil _
        notCancelled := List.forall_mem_nil _
        notUsedUp := List.forall_mem_nil _
        approvedBy := ⟨List.nodup_nil, List.forall_mem_nil _⟩ }
  · obtain ⟨earlier, start, since, rfl, openSince⟩ := opened ceremony wasOpen
    have extended := openSince.extend notStarts notCancels notUsesUp
    refine ⟨earlier, start, since ++ [event], by simp, ?_⟩
    rcases change with rfl | ⟨custodian, acts, notOpener, rfl⟩
    · exact extended
    · exact extended.approve acts notOpener

/-- One event extends the history of a builder. -/
theorem history_apply {folder result : KeyFolder} (isKey : key = ⟨folder.tenantID, folder.keyID⟩)
    (named : folder.builder.state.tenantID = key.tenantID)
    (success : folder.apply codec event = .ok result)
    (history : History codec key events folder.builder) :
    History codec key (events ++ [event]) result.builder := by
  simp only [KeyFolder.apply, bind_eq_ok] at success
  obtain ⟨builder, ceremony, registrations, derived, registered, registers, remembered,
    revocations, payload, decoded, applies⟩ := success
  obtain ⟨leafSources₁, revocations₁⟩ := leaves_applyReleaseCeremonyToKey ceremony
  obtain ⟨mints, revocations₂, ceremonies₂, tenantID₂, keyID₂⟩ :=
    mintsBeyond_registerAll derived registrations (fun _ member => member) registers isKey
  have isKey₂ : key = ⟨registered.tenantID, registered.keyID⟩ := by
    rw [tenantID₂, keyID₂, isKey]
  obtain ⟨revokes, leafSources₃, ceremonies₃, tenantID₃, keyID₃⟩ :=
    revokesBeyond_rememberRevocations isKey₂ revocations
  have isKey₃ : key = ⟨remembered.tenantID, remembered.keyID⟩ := by
    rw [tenantID₃, keyID₃, isKey₂]
  obtain ⟨leafSources₄, revocations₄, ceremonies₄⟩ := beside_applyPayload isKey₃ decoded applies
  have isLast : event ∈ events ++ [event] :=
    List.mem_append_right _ (List.mem_singleton_self event)
  constructor
  · intro name source found
    rw [leafSources₄, leafSources₃] at found
    rcases mints name source found with old | minted
    · rw [leafSources₁] at old
      obtain ⟨mint, isMint, minted⟩ := history.minted name source old
      exact ⟨mint, List.mem_append_left _ isMint, minted⟩
    · exact ⟨event, isLast, minted⟩
  · intro name revocation found
    rw [revocations₄] at found
    rcases revokes name revocation found with old | revoked
    · rw [revocations₂, revocations₁] at old
      obtain ⟨batch, isBatch, revoked⟩ := history.revoked name revocation old
      exact ⟨batch, List.mem_append_left _ isBatch, revoked⟩
    · exact ⟨event, isLast, revoked⟩
  · intro ceremonyID after isOpen
    obtain ⟨isOpen, notUsesUp⟩ := ceremonies₄ ceremonyID after isOpen
    rw [ceremonies₃, ceremonies₂] at isOpen
    have keyID_eq : folder.keyID = key.keyID := by rw [isKey]
    rw [keyID_eq] at ceremony
    exact openSince_of_ceremonyStep (history.opened ceremonyID)
      (ceremonyStep_applyReleaseCeremonyToKey named ceremony isOpen) notUsesUp

theorem history_foldEvent {index : Nat} {state result : FoldState}
    (indexed : Indexed state) (success : foldEvent codec index event state = .ok result)
    (history : ∀ key, History codec key events (state.builderFor key)) (key : ProjectionKey) :
    History codec key (events ++ [event]) (result.builderFor key) := by
  have follows : Follows key state
      ⟨key.tenantID, key.keyID, state.builderFor key, index, false⟩ := ⟨rfl, rfl, rfl⟩
  obtain ⟨after, applied, followsAfter, -⟩ := apply_follows follows indexed success
  rw [← followsAfter.builder_eq]
  exact history_apply rfl (indexed.tenantID_eq key) applied (history key)

theorem history_foldEvents (rest : List Event) :
    ∀ {index : Nat} {events : List Event} {state result : FoldState},
      Indexed state → (∀ key, History codec key events (state.builderFor key)) →
        foldEvents codec index rest state = .ok result →
          Indexed result ∧ ∀ key, History codec key (events ++ rest) (result.builderFor key) := by
  induction rest with
  | nil =>
      intro index events state result indexed history success
      rw [← Except.ok.inj success, List.append_nil]
      exact ⟨indexed, history⟩
  | cons event rest ih =>
      intro index events state result indexed history success
      obtain ⟨next, step, success⟩ := bind_eq_ok.mp success
      have later := ih (indexed_foldEvent step indexed)
        (history_foldEvent indexed step history) success
      rwa [List.append_assoc, List.singleton_append] at later

end Trstctl.Decommission.Depstate

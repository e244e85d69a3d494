import Trstctl.Decommission.Depstate.History

/-!
# A source-bound release has two people behind it

Every release of the second or third version that a fold accepts is preceded by
the mint of its certificate, by the revocation it names, and by a ceremony of
its tenant for exactly this release, approved by at least two custodians other
than its opener.  A release uses up the ceremony it rests on, so no other
release rests on the same start.
-/

namespace Trstctl.Decommission.Depstate

open Go (Bytes bytes jsonPair jsonString)

variable {codec : Codec}

theorem foldEvents_append {later : List Event} {result : FoldState} (earlier : List Event) :
    ∀ {index : Nat} {state : FoldState},
      foldEvents codec index (earlier ++ later) state = .ok result →
        ∃ middle, foldEvents codec index earlier state = .ok middle ∧
          foldEvents codec (index + earlier.length) later middle = .ok result := by
  induction earlier with
  | nil =>
      intro index state success
      exact ⟨state, rfl, success⟩
  | cons event rest ih =>
      intro index state success
      obtain ⟨next, step, success⟩ := Result.bind_eq_ok.mp success
      obtain ⟨middle, folded, success⟩ := ih success
      refine ⟨middle, Result.bind_eq_ok.mpr ⟨next, step, folded⟩, ?_⟩
      rwa [List.length_cons, Nat.add_comm rest.length, ← Nat.add_assoc]

theorem releaseType_ne :
    bytes "dependency.released" ≠ caCeremonyStarted ∧
      bytes "dependency.released" ≠ caCeremonyApproved ∧
      bytes "dependency.released" ≠ caCeremonyCancelled ∧
      bytes "dependency.released" ≠ eventCAEndEntityIssued ∧
      bytes "dependency.released" ≠ eventCAIssuedCertificate ∧
      bytes "dependency.released" ≠ eventCAIntermediateCSRIssued ∧
      bytes "dependency.released" ≠ eventCAIntermediateCreated ∧
      bytes "dependency.released" ≠ eventCAAuthorityImported ∧
      bytes "dependency.released" ≠ eventCAAuthorityRekeyed ∧
      bytes "dependency.released" ≠ eventCACrossSigned ∧
      bytes "dependency.released" ≠ bytes "certificate.revocation.batch.applied" := by
  decide +kernel

variable {event : Event} {bound : SourceBoundRelease}

/-- A release is validated against the builder of its key as the events before
it left it. -/
theorem validated_of_foldEvent {index : Nat} {state result : FoldState}
    (isRelease : IsRelease codec event bound)
    (success : foldEvent codec index event state = .ok result) :
    Validated (state.builderFor bound.key) event bound := by
  have isType := isRelease.type_eq
  obtain ⟨payload, decoded, isBound⟩ := isRelease
  have otherTypes := releaseType_ne
  rw [← isType] at otherTypes
  obtain ⟨noStart, noApproval, noCancel, noLeaf, noIssued, noCSR, noIntermediate, noImport, noRekey,
    noCrossSign, noBatch⟩ := otherTypes
  simp only [foldEvent, Result.bind_eq_ok, atEvent_eq_ok] at success
  obtain ⟨started, ceremony, registrations, derived, registered, registers, remembered,
    revocations, other, decodedOther, applies⟩ := success
  obtain rfl := Except.ok.inj (decoded.symm.trans decodedOther)
  -- the stages before the payload do nothing on an event of this type
  rw [FoldState.applyReleaseCeremonyEvent, if_neg noStart,
    if_neg (not_or.mpr ⟨noApproval, noCancel⟩)] at ceremony
  obtain rfl := Except.ok.inj ceremony
  rw [caRegistrations, if_neg (not_or.mpr ⟨noLeaf, not_or.mpr ⟨noIssued, noCSR⟩⟩),
    if_neg (not_or.mpr ⟨noIntermediate, noImport⟩), if_neg noRekey, if_neg noCrossSign] at derived
  obtain rfl := Except.ok.inj derived
  obtain rfl := Except.ok.inj registers
  rw [FoldState.rememberRevocations, rememberRevokedManagedLeaves, if_pos noBatch] at revocations
  obtain rfl := Except.ok.inj revocations
  obtain ⟨unchanged, -⟩ | ⟨change, isChange, validated, -⟩ := applyPayload_eq_ok.mp applies
  · rw [payloadChange_of_sourceBoundRelease isBound] at unchanged
    cases unchanged
  · rw [payloadChange_of_sourceBoundRelease isBound] at isChange
    rw [← Option.some.inj isChange] at validated
    exact validated_of_validateRelease validated isBound

/-- A release rests on the last start of its ceremony; `since` are the events
between the two. -/
def RestsOn (codec : Codec) (start : Event) (since : List Event) (event : Event) : Prop :=
  ∃ bound, IsRelease codec event bound ∧
    StartsAs codec bound.key bound.release.ceremonyID start ∧
    ∀ other ∈ since, ¬ StartsAs codec bound.key bound.release.ceremonyID other

/-- The certificate of a release, as an event mints it. -/
def SourceBoundRelease.source (bound : SourceBoundRelease) : LeafEvent :=
  ⟨bound.release.sourceEventID, bound.release.sourceSequence, bound.release.serial,
    bound.release.certificateSHA256⟩

/-- The ceremony of a release: a start of its tenant with exactly its purpose,
not cancelled since, and approved since by at least its threshold of distinct
custodians other than the opener. -/
structure ApprovedRelease (codec : Codec) (bound : SourceBoundRelease) (start : Event)
    (since : List Event) (started : CeremonyStarted) : Prop where
  starts : Starts codec start bound.key started
  ceremonyID_eq : started.ceremonyID = bound.release.ceremonyID
  purpose_eq : started.purpose = bound.purpose
  twoPeople : 2 ≤ started.threshold
  notCancelled : ∀ other ∈ since,
    ¬ Cancels codec bound.release.tenantID bound.release.ceremonyID other
  custodians : ∃ custodians : List Bytes, custodians.Nodup ∧
    started.threshold ≤ custodians.length ∧
    ∀ custodian ∈ custodians, custodian ≠ started.opener ∧
      ∃ approval ∈ since, ActsOn codec caCeremonyApproved bound.release.tenantID
        bound.release.ceremonyID custodian approval

/-- What precedes a release that a fold accepts. -/
structure Backed (codec : Codec) (earlier : List Event) (event : Event)
    (bound : SourceBoundRelease) : Prop where
  tenantID_eq : bound.release.tenantID = event.tenantID
  minted : ∃ mint ∈ earlier,
    Mints codec mint bound.key bound.release.dependent bound.source
  revoked : ∀ eventID sequence, bound.revocation = some (eventID, sequence) →
    ∃ batch ∈ earlier, Revokes codec batch bound.key bound.release.dependent.id
      ⟨eventID, sequence, bound.release.serial, bound.release.certificateSHA256⟩
  approved : ∃ before start since started, earlier = before ++ start :: since ∧
    RestsOn codec start since event ∧ ApprovedRelease codec bound start since started

theorem credential_eq_of_key_eq {dependent other : Dependent}
    (isCredential : dependent.dependentClass = dependentCredential)
    (otherCredential : other.dependentClass = dependentCredential)
    (same : dependent.key = other.key) :
    dependent = other := by
  obtain ⟨dependentClass, id⟩ := dependent
  obtain ⟨otherClass, otherID⟩ := other
  obtain rfl : dependentClass = dependentCredential := isCredential
  obtain rfl : otherClass = dependentCredential := otherCredential
  rw [Dependent.key, Dependent.key, List.append_cancel_left_eq] at same
  obtain rfl : id = otherID := same
  rfl

theorem Mints.dependent_eq {key : ProjectionKey} {dependent other : Dependent} {source : LeafEvent}
    (mints : Mints codec event key dependent source)
    (isCredential : other.dependentClass = dependentCredential) (same : dependent.key = other.key) :
    dependent = other := by
  obtain ⟨registrations, derived, registered, member, -, rfl⟩ := mints.registers
  obtain ⟨keyID, dependentID, rfl⟩ := caRegistrations_issued derived registered member
  exact credential_eq_of_key_eq rfl isCredential same

/-- A validated release is backed by the history of the builder of its key. -/
theorem backed_of_validated {earlier : List Event} {builder : KeyBuilder}
    (isRelease : IsRelease codec event bound) (validated : Validated builder event bound)
    (history : History codec bound.key earlier builder) :
    Backed codec earlier event bound where
  tenantID_eq := validated.tenantID_eq
  minted := by
    obtain ⟨source, found, isSource⟩ := validated.source
    obtain ⟨mint, isMint, dependent, mints, same⟩ := history.minted _ source found
    obtain rfl := mints.dependent_eq validated.isCredential same
    simp only [LeafEvent.isSource, Bool.and_eq_true, beq_iff_eq] at isSource
    obtain ⟨⟨⟨sameID, sameSequence⟩, sameSerial⟩, sameDigest⟩ := isSource
    refine ⟨mint, isMint, ?_⟩
    rwa [SourceBoundRelease.source, ← sameID, ← sameSequence, ← sameSerial, ← sameDigest]
  revoked eventID sequence named := by
    have found := validated.revocation eventID sequence named
    obtain ⟨batch, isBatch, certID, revokes, same⟩ := history.revoked _ _ found
    have isDependent := credential_eq_of_key_eq rfl validated.isCredential same
    rw [← isDependent]
    exact ⟨batch, isBatch, revokes⟩
  approved := by
    obtain ⟨ceremony, isOpen, approves⟩ := validated.ceremony
    obtain ⟨before, start, since, isEarlier, openSince⟩ := history.opened _ ceremony isOpen
    obtain ⟨started, starts, sameID, twoPeople, samePurpose, sameThreshold, sameOpener⟩ :=
      openSince.started
    simp only [ReleaseCeremony.approves, Bool.not_eq_true', Bool.or_eq_false_iff,
      bne_eq_false_iff_eq, decide_eq_false_iff_not, Int.not_lt] at approves
    obtain ⟨⟨⟨⟨-, isPurpose⟩, -⟩, enough⟩, -⟩ := approves
    refine ⟨before, start, since, started, isEarlier,
      ⟨bound, isRelease, ⟨started, starts, sameID⟩, openSince.notRestarted⟩, ?_⟩
    exact
      { starts := starts
        ceremonyID_eq := sameID
        purpose_eq := samePurpose.symm.trans isPurpose
        twoPeople := twoPeople
        notCancelled := openSince.notCancelled
        custodians := by
          refine ⟨ceremony.approvals.map Prod.fst, openSince.approvedBy.nodup, ?_, ?_⟩
          · rw [← sameThreshold, List.length_map]
            exact enough
          · rw [← sameOpener]
            exact openSince.approvedBy.approved }

theorem since_unique {α : Type} {marked : α → Prop} {before otherBefore since otherSince : List α}
    {start otherStart : α}
    (same : before ++ start :: since = otherBefore ++ otherStart :: otherSince)
    (isMarked : marked start) (otherMarked : marked otherStart)
    (last : ∀ member ∈ since, ¬ marked member)
    (otherLast : ∀ member ∈ otherSince, ¬ marked member) :
    since = otherSince := by
  rcases List.append_eq_append_iff.mp same with ⟨extra, -, tail⟩ | ⟨extra, -, tail⟩
  · cases extra with
    | nil => exact (List.cons.inj tail).2
    | cons first extra =>
        obtain ⟨-, rfl⟩ := List.cons.inj tail
        exact absurd otherMarked (last otherStart (by simp))
  · cases extra with
    | nil => exact (List.cons.inj tail).2.symm
    | cons first extra =>
        obtain ⟨-, rfl⟩ := List.cons.inj tail
        exact absurd isMarked (otherLast start (by simp))

theorem StartsAs.unique {key otherKey : ProjectionKey} {ceremonyID otherID : Bytes}
    (starts : StartsAs codec key ceremonyID event)
    (startsOther : StartsAs codec otherKey otherID event) :
    key = otherKey ∧ ceremonyID = otherID := by
  obtain ⟨started, starts, rfl⟩ := starts
  obtain ⟨other, startsOther, rfl⟩ := startsOther
  obtain rfl := Except.ok.inj (starts.started_eq.symm.trans startsOther.started_eq)
  have sameTenant := starts.tenantID_eq.symm.trans startsOther.tenantID_eq
  have sameKey := Option.some.inj (starts.purposeKey_eq.symm.trans startsOther.purposeKey_eq)
  obtain ⟨tenantID, keyID⟩ := key
  obtain ⟨otherTenantID, otherKeyID⟩ := otherKey
  obtain rfl : tenantID = otherTenantID := sameTenant
  obtain rfl : keyID = otherKeyID := sameKey
  exact ⟨rfl, rfl⟩

theorem exists_validated {projection : Projection} {earlier later : List Event}
    (success : fold codec (earlier ++ event :: later) = .ok projection)
    (isRelease : IsRelease codec event bound) :
    ∃ builder, Validated builder event bound ∧ History codec bound.key earlier builder := by
  obtain ⟨result, folded, -⟩ := Result.bind_eq_ok.mp success
  obtain ⟨state, foldedEarlier, foldedLater⟩ := foldEvents_append earlier folded
  obtain ⟨next, step, -⟩ := Result.bind_eq_ok.mp foldedLater
  obtain ⟨-, history⟩ := history_foldEvents earlier indexed_start (history_start codec)
    foldedEarlier
  exact ⟨state.builderFor bound.key, validated_of_foldEvent isRelease step, history bound.key⟩

theorem not_restsOn_between {projection : Projection} {before since later first extra : List Event}
    {start earlier : Event}
    (success : fold codec (before ++ start :: (since ++ event :: later)) = .ok projection)
    (rests : RestsOn codec start since event) (isBetween : since = first ++ earlier :: extra)
    (restsEarlier : RestsOn codec start first earlier) :
    False := by
  obtain ⟨bound, isRelease, starts, last⟩ := rests
  rw [← List.cons_append, ← List.append_assoc] at success
  obtain ⟨builder, validated, history⟩ := exists_validated success isRelease
  obtain ⟨ceremony, isOpen, -⟩ := validated.ceremony
  obtain ⟨otherBefore, otherStart, otherSince, same, openSince⟩ :=
    history.opened _ ceremony isOpen
  have otherStarts : StartsAs codec bound.key bound.release.ceremonyID otherStart := by
    obtain ⟨started, startsOther, sameID, -⟩ := openSince.started
    exact ⟨started, startsOther, sameID⟩
  -- the ceremony is open since this start, so nothing in between used it up
  have sameSince := since_unique same starts otherStarts last openSince.notRestarted
  obtain ⟨earlierBound, isEarlier, startsEarlier, -⟩ := restsEarlier
  obtain ⟨sameKey, sameID⟩ := startsEarlier.unique starts
  refine openSince.notUsedUp earlier ?_ ⟨earlierBound, isEarlier, sameKey, sameID⟩
  rw [← sameSince, isBetween]
  exact List.mem_append_right _ List.mem_cons_self

/-- In every sequence that a fold accepts, each source-bound release is preceded
by the mint of its certificate, by the revocation that it names, and by an
uncancelled ceremony of its tenant for exactly this release that at least its
threshold, and so at least two, of distinct custodians other than the opener
approved; and a start event has at most one release that rests on it. -/
theorem source_bound_releases_have_two_people
    {codec : Codec} {events : List Event} {projection : Projection}
    (success : fold codec events = .ok projection) :
    (∀ earlier event later bound, events = earlier ++ event :: later →
      IsRelease codec event bound → Backed codec earlier event bound) ∧
    ∀ before start first firstRelease firstLater second secondRelease secondLater,
      events = before ++ start :: (first ++ firstRelease :: firstLater) →
      events = before ++ start :: (second ++ secondRelease :: secondLater) →
      RestsOn codec start first firstRelease → RestsOn codec start second secondRelease →
        first = second := by
  constructor
  · rintro earlier event later bound rfl isRelease
    obtain ⟨builder, validated, history⟩ := exists_validated success isRelease
    exact backed_of_validated isRelease validated history
  · intro before start first firstRelease firstLater second secondRelease secondLater isFirst
      isSecond firstRests secondRests
    have same := (List.cons.inj (List.append_cancel_left (isFirst.symm.trans isSecond))).2
    rcases List.append_eq_append_iff.mp same with ⟨extra, longer, tail⟩ | ⟨extra, longer, tail⟩
    · cases extra with
      | nil => rw [longer, List.append_nil]
      | cons between extra =>
          -- the first release is between the start and the second
          obtain ⟨rfl, -⟩ := List.cons.inj tail
          rw [isSecond] at success
          exact (not_restsOn_between success secondRests longer firstRests).elim
    · cases extra with
      | nil => rw [longer, List.append_nil]
      | cons between extra =>
          obtain ⟨rfl, -⟩ := List.cons.inj tail
          rw [isFirst] at success
          exact (not_restsOn_between success firstRests longer secondRests).elim

/-- The digest of the certificate with the single byte `0x30`. -/
def leafDigest : Bytes :=
  [0x5F, 0xEC, 0xEB, 0x66, 0xFF, 0xC8, 0x6F, 0x38, 0xD9, 0x52, 0x78, 0x6C, 0x6D, 0x69, 0x6C, 0x79,
    0xC2, 0xDB, 0xC2, 0x39, 0xDD, 0x4E, 0x91, 0xB4, 0x67, 0x29, 0xD7, 0x3A, 0x27, 0xFB, 0x57, 0xE9]

/-- The release of the leaf `c` of the key `k`. -/
def leafRelease : DependencyReleasedV2 where
  tenantID := bytes "t"
  keyID := bytes "k"
  dependent := ⟨dependentCredential, bytes "c"⟩
  sourceEventID := bytes "m"
  sourceSequence := 1
  serial := bytes "01"
  certificateSHA256 := Go.hexEncode leafDigest
  ceremonyID := bytes "r"
  actor := bytes "o"
  approvalEventIDs := [bytes "a", bytes "b"]
  reason := bytes "expired-requester-custody-external-use-risk-accepted"
  riskAccepted := true

/-- The JSON text of the mint. -/
def mintData : Bytes :=
  Go.jsonObject [jsonPair "id" (jsonString (bytes "c")),
    jsonPair "ca_id" (jsonString (bytes "k")),
    jsonPair "serial" (jsonString (bytes "01")),
    jsonPair "fingerprint" (jsonString (Go.hexEncode leafDigest)),
    jsonPair "certificate_der" (Go.jsonBytes [0x30])]

/-- The JSON text of the start of the ceremony. -/
def startData : Bytes :=
  Go.jsonObject [jsonPair "ceremony_id" (jsonString (bytes "r")),
    jsonPair "purpose" (jsonString (releasePurposeV2 leafRelease)),
    jsonPair "threshold" (Go.decimal 2),
    jsonPair "opener" (jsonString (bytes "o"))]

/-- The JSON text of an approval. -/
def approvalData (custodian : Bytes) : Bytes :=
  Go.jsonObject [jsonPair "ceremony_id" (jsonString (bytes "r")),
    jsonPair "custodian" (jsonString custodian)]

/-- The JSON text of the release. -/
def releaseData : Bytes :=
  Go.jsonObject (leafRelease.purposeMembers ++
    [jsonPair "ceremony_id" (jsonString (bytes "r")),
      jsonPair "actor" (jsonString (bytes "o")),
      jsonPair "approval_event_ids"
        (Go.jsonArray [jsonString (bytes "a"), jsonString (bytes "b")])] ++
    leafRelease.riskMembers)

/-- The readings of those texts. -/
def leafCodec : Codec :=
  { Codec.unreadable with
    issuedLeaf := readText mintData ⟨bytes "c", bytes "k", bytes "01"⟩ Codec.unreadable.issuedLeaf
    mintReceipt := readText mintData ⟨bytes "01", Go.hexEncode leafDigest, [0x30]⟩
      Codec.unreadable.mintReceipt
    ceremonyStarted := readText startData
      ⟨bytes "r", releasePurposeV2 leafRelease, 2, bytes "o"⟩ Codec.unreadable.ceremonyStarted
    ceremonyAction := readText (approvalData (bytes "x")) ⟨bytes "r", bytes "x"⟩
      (readText (approvalData (bytes "y")) ⟨bytes "r", bytes "y"⟩ Codec.unreadable.ceremonyAction)
    purposeKeyID := fun _ => .ok (bytes "k")
    releasedV2 := readText releaseData leafRelease Codec.unreadable.releasedV2
    sha256Sum := fun _ => leafDigest }

/-- The leaf is minted, and two custodians approve its release. -/
def leafEvents : List Event :=
  [⟨bytes "m", eventCAEndEntityIssued, bytes "t", mintData, 1, none, 3⟩,
    ⟨bytes "s", caCeremonyStarted, bytes "t", startData, 2, none, 1⟩,
    ⟨bytes "a", caCeremonyApproved, bytes "t", approvalData (bytes "x"), 3, none, 1⟩,
    ⟨bytes "b", caCeremonyApproved, bytes "t", approvalData (bytes "y"), 4, none, 1⟩]

def leafReleased : Event :=
  ⟨bytes "e", bytes "dependency.released", bytes "t", releaseData, 5, none, 2⟩

/-- Behind the release of the leaf stand two people. -/
theorem source_bound_releases_have_two_people_leaf :
    Backed leafCodec leafEvents leafReleased
      ⟨leafRelease, releasePurposeV2 leafRelease, none⟩ := by
  have folded : fold leafCodec (leafEvents ++ [leafReleased]) =
      .ok [(⟨bytes "t", bytes "k"⟩, ⟨bytes "k", bytes "t", [⟨dependentCredential, bytes "c"⟩],
        [⟨dependentCredential, bytes "c"⟩], [⟨dependentCredential, bytes "c"⟩], [], 5⟩)] := by
    decide +kernel
  have decoded : decode leafCodec leafReleased = .ok (.releasedV2 leafRelease) := by
    decide +kernel
  exact (source_bound_releases_have_two_people folded).1 leafEvents leafReleased [] _ rfl
    ⟨.releasedV2 leafRelease, decoded, rfl⟩

end Trstctl.Decommission.Depstate

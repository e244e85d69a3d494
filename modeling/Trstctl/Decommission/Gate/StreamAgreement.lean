import Trstctl.Go.Json
import Trstctl.Go.Hash
import Trstctl.Decommission.Depstate.Presence
import Trstctl.Decommission.Gate.Accounting
import Trstctl.Decommission.Gate.Stream

/-!
# The streaming gate agrees with the unary gate

Both gates check the same segment and the same state, with one exception.  The
unary gate looks a key up among the builders of the fold, and the fold makes a
builder, at ledger position zero, also for a key that the events only mention.
The streaming gate takes such a key to be without events and puts the requested
position in its state.
-/

namespace Trstctl.Decommission.Gate

open Go (Bytes bytes decimal jsonPair jsonString)
open Result (guard_eq_ok bind_eq_ok)
open Depstate

/-- The class of an outcome, with the evidence of an approval. -/
inductive Outcome where
  | error
  | refusal
  | approval (evidence : Bytes)
deriving DecidableEq

/-- A decision as a claimant sees it. -/
def outcome : Except Bytes GatedDestroyDecision → Outcome
  | .error _ => .error
  | .ok decision => if decision.approved then .approval decision.evidence else .refusal

/-- A request as the claimants make it: its tenant and subject are not blank,
its position and epoch are not zero, its evidence digest has 32 bytes, and it
names an audit chain head. -/
structure WellFormed (request : StreamedDestroyRequest) : Prop where
  tenantID : Go.trimSpace request.tenantID ≠ []
  subjectRef : Go.trimSpace request.subjectRef ≠ []
  ledgerPosition : request.ledgerPosition ≠ 0
  assertedFinalEpoch : request.assertedFinalEpoch ≠ 0
  evidenceDigest : request.satisfactionEvidenceDigest.length = 32
  auditChainHead : request.auditChainHead ≠ []

def GatedDestroyRequest.key (request : GatedDestroyRequest) : ProjectionKey :=
  ⟨request.tenantID, request.subjectRef⟩

/-- The events of a segment up to the position of a request. -/
def boundedEvents (request : GatedDestroyRequest) (segment : LedgerSegmentV1) : List Event :=
  boundEvents segment.events request.ledgerPosition

/-- The segment has a supported version, the epoch of the request unless it has
none, and the audit chain head of the request. -/
structure Coherent (codec : Codec) (request : GatedDestroyRequest) (segment : LedgerSegmentV1) :
    Prop where
  version : segment.version = 0 ∨ segment.version = 1
  finalEpoch : segment.finalEpoch = 0 ∨ segment.finalEpoch = request.assertedFinalEpoch
  head : request.auditChainHead = auditChainHead codec (boundedEvents request segment)

variable {codec : Codec} {gate : DestructionGate}

theorem coherent_of_verifyGatedDestroy {request : GatedDestroyRequest} {segment : LedgerSegmentV1}
    {decision : GatedDestroyDecision}
    (unmarshal : codec.ledgerSegment request.satisfactionEvidence = .ok segment)
    (hasHead : request.auditChainHead ≠ [])
    (verified : verifyGatedDestroy codec gate none request = .ok decision) :
    Coherent codec request segment := by
  simp only [verifyGatedDestroy, guard_eq_ok, bind_eq_ok] at verified
  obtain ⟨-, -, decodedSegment, decoded, epoch, head, -⟩ := verified
  unfold decodeLedgerSegment at decoded
  split_ifs at decoded
  rw [unmarshal] at decoded
  dsimp only at decoded
  split_ifs at decoded with version
  obtain rfl := Except.ok.inj decoded
  rw [not_and_or, not_not, not_not] at version epoch
  rw [not_and_or, not_not] at head
  exact ⟨version, epoch, not_not.mp (head.resolve_left hasHead)⟩

variable {request : StreamedDestroyRequest}

theorem verifyGatedDestroy_of_coherent {segment : LedgerSegmentV1} {projection : Projection}
    (wellFormed : WellFormed request) (nonempty : request.satisfactionEvidence ≠ [])
    (unmarshal : codec.ledgerSegment request.satisfactionEvidence = .ok segment)
    (folded : fold codec.toCodec (boundedEvents request.toGatedDestroyRequest segment) =
      .ok projection)
    (coherent : Coherent codec request.toGatedDestroyRequest segment) :
    verifyGatedDestroy codec gate none request.toGatedDestroyRequest =
      verifyGatedDestroyState codec gate request.toGatedDestroyRequest
        ((projection.lookup request.key).getD
          (untouchedState request.toGatedDestroyRequest request.ledgerPosition)) := by
  have version : ¬ (segment.version ≠ 0 ∧ segment.version ≠ 1) := by
    rw [not_and_or, not_not, not_not]
    exact coherent.version
  have decoded : decodeLedgerSegment codec request.satisfactionEvidence = .ok segment := by
    unfold decodeLedgerSegment
    rw [if_neg nonempty, unmarshal]
    exact if_neg version
  have named : ¬ (Go.trimSpace request.tenantID = [] ∨ Go.trimSpace request.subjectRef = [] ∨
      request.ledgerPosition = 0) := by
    simp [wellFormed.tenantID, wellFormed.subjectRef, wellFormed.ledgerPosition]
  have epoch : ¬ (segment.finalEpoch ≠ 0 ∧ segment.finalEpoch ≠ request.assertedFinalEpoch) := by
    rw [not_and_or, not_not, not_not]
    exact coherent.finalEpoch
  have head : ¬ (request.auditChainHead ≠ [] ∧ request.auditChainHead ≠
      auditChainHead codec (boundEvents segment.events request.ledgerPosition)) := by
    rw [not_and_or, not_not, not_not]
    exact Or.inr coherent.head
  have folded : fold codec.toCodec (boundEvents segment.events request.ledgerPosition) =
      .ok projection := folded
  show (if _ then _ else _) = _
  rw [if_neg named, if_neg wellFormed.assertedFinalEpoch, decoded]
  show (if _ then _ else _) = _
  rw [if_neg epoch, if_neg head, folded]
  rfl

theorem readField_events {segment : LedgerSegmentV1} {folder : KeyFolder}
    (folded : KeyFolder.applyAll codec.toCodec
      (boundedEvents request.toGatedDestroyRequest segment)
      (newKeyFolder request.tenantID request.subjectRef) = .ok folder)
    (version : Option Int)
    (finalEpoch : Option Nat) :
    readField codec none request
        { newStreamState codec request with version := version, finalEpoch := finalEpoch }
        (.events .expected (segment.events.map .ok) .expected) =
      .ok
        { version := version
          finalEpoch := finalEpoch
          sawEvents := true
          head := auditChainHead codec (boundedEvents request.toGatedDestroyRequest segment)
          folder := folder
          position := segment.events.length } := by
  have read := @readEvents_map_ok codec request segment.events
    { newStreamState codec request with
      version := version, finalEpoch := finalEpoch, sawEvents := true } folder folded
  refine bind_eq_ok.mpr ⟨(), rfl, bind_eq_ok.mpr ⟨_, read, ?_⟩⟩
  show Except.ok _ = Except.ok _
  rw [show (newStreamState codec request).position = 0 from rfl, Nat.zero_add]
  rfl

theorem readFields_canonicalStream {segment : LedgerSegmentV1} {folder : KeyFolder}
    (folded : KeyFolder.applyAll codec.toCodec
      (boundedEvents request.toGatedDestroyRequest segment)
      (newKeyFolder request.tenantID request.subjectRef) = .ok folder) :
    readFields codec none request (canonicalStream segment).fields
        (newStreamState codec request) =
      .ok
        { version := some segment.version
          finalEpoch := if segment.finalEpoch = 0 then none else some segment.finalEpoch
          sawEvents := true
          head := auditChainHead codec (boundedEvents request.toGatedDestroyRequest segment)
          folder := folder
          position := segment.events.length } := by
  unfold canonicalStream
  dsimp only
  split_ifs
  · have events := readField_events folded (some segment.version) none
    exact bind_eq_ok.mpr ⟨_, rfl, bind_eq_ok.mpr ⟨_, events, rfl⟩⟩
  · have events := readField_events folded (some segment.version) (some segment.finalEpoch)
    exact bind_eq_ok.mpr ⟨_, rfl, bind_eq_ok.mpr ⟨_, rfl,
      bind_eq_ok.mpr ⟨_, events, rfl⟩⟩⟩

/-- The state that the streaming gate verifies. -/
def streamedState (request : GatedDestroyRequest) (folder : KeyFolder) : KeyState :=
  if folder.touched then folder.builder.state
  else untouchedState request request.ledgerPosition

/-- The checks of the streaming gate on a canonical segment are those of the
unary gate. -/
theorem segmentMismatch_eq_false_iff {segment : LedgerSegmentV1} (folder : KeyFolder)
    (position : Nat) :
    segmentMismatch request
        { version := some segment.version
          finalEpoch := if segment.finalEpoch = 0 then none else some segment.finalEpoch
          sawEvents := true
          head := auditChainHead codec (boundedEvents request.toGatedDestroyRequest segment)
          folder := folder
          position := position } = false ↔
      Coherent codec request.toGatedDestroyRequest segment := by
  have epoch : (if segment.finalEpoch = 0 then none else some segment.finalEpoch).any
      (fun epoch => epoch != 0 && epoch != request.assertedFinalEpoch) = false ↔
        segment.finalEpoch = 0 ∨ segment.finalEpoch = request.assertedFinalEpoch := by
    split_ifs with isZero
    · simp [isZero]
    · simp [isZero]
  simp only [segmentMismatch, Bool.not_true, Bool.false_or, Bool.or_eq_false_iff, epoch,
    Option.any_some, Bool.and_eq_false_iff, bne_eq_false_iff_eq]
  constructor
  · rintro ⟨⟨version, finalEpoch⟩, head⟩
    exact ⟨version, finalEpoch, head.symm⟩
  · rintro ⟨version, finalEpoch, head⟩
    exact ⟨⟨version, finalEpoch⟩, head.symm⟩

/-- On a coherent canonical segment the streaming gate verifies the state of its
folder, and on others it fails. -/
theorem verifyGatedDestroyStream_canonicalStream {segment : LedgerSegmentV1} {folder : KeyFolder}
    (wellFormed : WellFormed request)
    (folded : KeyFolder.applyAll codec.toCodec
      (boundedEvents request.toGatedDestroyRequest segment)
      (newKeyFolder request.tenantID request.subjectRef) = .ok folder) :
    (Coherent codec request.toGatedDestroyRequest segment →
      verifyGatedDestroyStream codec gate none request (canonicalStream segment) =
        verifyGatedDestroyState codec gate request.toGatedDestroyRequest
          (streamedState request.toGatedDestroyRequest folder)) ∧
    (¬ Coherent codec request.toGatedDestroyRequest segment →
      outcome (verifyGatedDestroyStream codec gate none request (canonicalStream segment)) =
        .error) := by
  have trimmed : ∀ text : Bytes, Go.trimSpace text ≠ [] → text ≠ [] := by
    rintro text nonempty rfl
    exact nonempty rfl
  have named : ¬ (request.tenantID = [] ∨ request.subjectRef = [] ∨ request.ledgerPosition = 0 ∨
      request.assertedFinalEpoch = 0 ∨ request.satisfactionEvidenceDigest.length ≠ 32) := by
    simp [trimmed _ wellFormed.tenantID, trimmed _ wellFormed.subjectRef,
      wellFormed.ledgerPosition, wellFormed.assertedFinalEpoch, wellFormed.evidenceDigest]
  have checks := @segmentMismatch_eq_false_iff codec request segment folder segment.events.length
  have read := readFields_canonicalStream folded
  have run : verifyGatedDestroyStream codec gate none request (canonicalStream segment) =
      if segmentMismatch request
          { version := some segment.version
            finalEpoch := if segment.finalEpoch = 0 then none else some segment.finalEpoch
            sawEvents := true
            head := auditChainHead codec (boundedEvents request.toGatedDestroyRequest segment)
            folder := folder
            position := segment.events.length } = true then
        .error (invalidEvidence (bytes "segment epoch or audit head mismatch"))
      else
        verifyGatedDestroyState codec gate request.toGatedDestroyRequest
          (streamedState request.toGatedDestroyRequest folder) := by
    show (if _ then _ else _) = _
    rw [if_neg named]
    show (readFields codec none request (canonicalStream segment).fields
      (newStreamState codec request) >>= _) = _
    rw [read]
    rfl
  constructor
  · intro coherent
    rw [run, if_neg (Bool.not_eq_true _ ▸ checks.mpr coherent)]
  · intro incoherent
    rw [run, if_pos (Bool.not_eq_false _ ▸ incoherent ∘ checks.mp)]
    rfl

/-- The events mention the key and none of them touches it. -/
def Silent (codec : Depstate.Codec) (events : List Event) (key : ProjectionKey) : Prop :=
  (∃ event ∈ events, Mentions codec event key) ∧ ¬ ∃ event ∈ events, Touches codec event key

/-- The state of a key in a projection is that of the folder of the key, except
for a silent key, which the projection has at position zero. -/
theorem projected_state {codec : Depstate.Codec} {events : List Event} {projection : Projection}
    (folded : fold codec events = .ok projection) (request : GatedDestroyRequest) :
    ∃ folder,
      KeyFolder.applyAll codec events (newKeyFolder request.tenantID request.subjectRef) =
        .ok folder ∧
      (¬ Silent codec events request.key →
        (projection.lookup request.key).getD (untouchedState request request.ledgerPosition) =
          streamedState request folder) ∧
      (Silent codec events request.key →
        (projection.lookup request.key).getD (untouchedState request request.ledgerPosition) =
            untouchedState request 0 ∧
          streamedState request folder = untouchedState request request.ledgerPosition) := by
  have present := isSome_lookup_fold folded request.key
  obtain ⟨state, run, success⟩ := bind_eq_ok.mp folded
  obtain ⟨folder, applied, follows, touched⟩ := @applyAll_follows codec request.key events _ _
    (newKeyFolder request.tenantID request.subjectRef) run indexed_start (follows_start _)
  have touched : folder.touched = true ↔ ∃ event ∈ events, Touches codec event request.key := by
    rw [touched]
    exact or_iff_right Bool.false_ne_true
  -- a builder of the fold has the state of the folder
  have lookup : ∀ keyState, projection.lookup request.key = some keyState →
      keyState = folder.builder.state := by
    intro keyState found
    rw [← Except.ok.inj success, Go.MapOf.lookup_map] at found
    obtain ⟨builder, isBuilder, rfl⟩ := Option.map_eq_some_iff.mp found
    rw [follows.builder_eq, FoldState.builderFor, isBuilder, Option.getD_some]
  refine ⟨folder, applied, ?_, ?_⟩
  · intro spoken
    unfold streamedState
    by_cases isTouched : folder.touched = true
    · have isPresent := present.mpr ((touched.mp isTouched).imp fun event found =>
        ⟨found.1, Or.inl found.2⟩)
      obtain ⟨keyState, found⟩ := Option.isSome_iff_exists.mp isPresent
      rw [found, Option.getD_some, if_pos isTouched, lookup keyState found]
    · have absent : projection.lookup request.key = none := by
        rw [← Option.not_isSome_iff_eq_none, present]
        rintro ⟨event, member, touches | mentions⟩
        · exact isTouched (touched.mpr ⟨event, member, touches⟩)
        · exact spoken ⟨⟨event, member, mentions⟩, fun found => isTouched (touched.mpr found)⟩
      rw [absent, Option.getD_none, if_neg isTouched]
  · rintro ⟨⟨event, member, mentions⟩, untouched⟩
    have isUntouched : ¬ folder.touched = true := untouched ∘ touched.mp
    have isPresent := present.mpr ⟨event, member, Or.inr mentions⟩
    obtain ⟨keyState, found⟩ := Option.isSome_iff_exists.mp isPresent
    refine ⟨?_, if_neg isUntouched⟩
    have unchanged := keyState_foldEvents_untouched events run untouched
    rw [found, Option.getD_some, lookup keyState found, follows.builder_eq]
    exact unchanged

/-- A request passes the checks on a key without events, at a position. -/
structure Passes (codec : Codec) (gate : DestructionGate) (request : GatedDestroyRequest)
    (position : Nat) : Prop where
  digest : request.requiredSetDigest = [] ∨
    request.requiredSetDigest = requiredSetDigest codec (untouchedState request position)
  requiredSet : request.requiredSet = [] ∨
    verifyRequiredSet codec request.requiredSet (untouchedState request position) = .ok ()
  quorum : ∃ evidence, verifyQuorum codec gate request = .ok evidence

/-- A key without events is approved when the request passes, with the digest of
its empty required set. -/
theorem verify_untouchedState {request : GatedDestroyRequest} {position : Nat}
    {decision : GatedDestroyDecision} :
    verifyGatedDestroyState codec gate request (untouchedState request position) = .ok decision ↔
      (request.requiredSetDigest = [] ∨
        request.requiredSetDigest = requiredSetDigest codec (untouchedState request position)) ∧
      (request.requiredSet = [] ∨
        verifyRequiredSet codec request.requiredSet (untouchedState request position) = .ok ()) ∧
      ∃ evidence, verifyQuorum codec gate request = .ok evidence ∧
        ⟨true, [], evidence, requiredSetDigest codec (untouchedState request position)⟩ =
          decision := by
  have accounted : (untouchedState request position).unaccounted = [] := rfl
  unfold verifyGatedDestroyState
  dsimp only
  rw [guard_eq_ok, not_and_or, not_not, not_not]
  refine and_congr Iff.rfl ?_
  have approves : ∀ approval : Except Bytes GatedDestroyDecision,
      approval = (verifyQuorum codec gate request >>= fun evidence => pure
        ⟨true, [], evidence, requiredSetDigest codec (untouchedState request position)⟩) →
      (approval = .ok decision ↔ ∃ evidence, verifyQuorum codec gate request = .ok evidence ∧
        ⟨true, [], evidence, requiredSetDigest codec (untouchedState request position)⟩ =
          decision) := by
    rintro approval rfl
    rw [bind_eq_ok]
    simp [pure, Except.pure]
  by_cases given : request.requiredSet = []
  · rw [if_neg (not_not.mpr given), accounted, if_neg (not_not.mpr rfl), approves _ rfl]
    simp [given]
  · rw [if_pos given, bind_eq_ok, accounted, if_neg (not_not.mpr rfl)]
    constructor
    · rintro ⟨⟨⟩, verified, approved⟩
      exact ⟨Or.inr verified, (approves _ rfl).mp approved⟩
    · rintro ⟨verified, approved⟩
      exact ⟨(), verified.resolve_left given, (approves _ rfl).mpr approved⟩

theorem outcome_untouchedState (codec : Codec) (gate : DestructionGate)
    (request : GatedDestroyRequest) (position : Nat) :
    (Passes codec gate request position →
      outcome (verifyGatedDestroyState codec gate request (untouchedState request position)) =
        .approval (requiredSetDigest codec (untouchedState request position))) ∧
    (¬ Passes codec gate request position →
      outcome (verifyGatedDestroyState codec gate request (untouchedState request position)) =
        .error) := by
  constructor
  · rintro ⟨digest, requiredSet, evidence, quorum⟩
    rw [verify_untouchedState.mpr ⟨digest, requiredSet, evidence, quorum, rfl⟩]
    rfl
  · intro fails
    cases verified : verifyGatedDestroyState codec gate request
        (untouchedState request position) with
    | error detail => rfl
    | ok decision =>
        obtain ⟨digest, requiredSet, evidence, quorum, -⟩ := verify_untouchedState.mp verified
        exact absurd ⟨digest, requiredSet, evidence, quorum⟩ fails

theorem requiredSetBytes_injective {request : GatedDestroyRequest} {position other : Nat}
    (same : requiredSetBytes (untouchedState request position) =
      requiredSetBytes (untouchedState request other)) :
    position = other := by
  simp only [requiredSetBytes, requiredSetJSON, untouchedState, Go.jsonObject, Go.jsonJoin,
    jsonPair, List.intersperse, List.flatten_cons, List.append_assoc,
    List.append_cancel_left_eq, List.append_cancel_right_eq] at same
  exact Go.decimal_injective same

/-- A key without events has one outcome at position zero and at another exactly
when the request passes at neither. -/
theorem untouchedStates_agree_iff {request : GatedDestroyRequest} {position : Nat}
    (nonzero : position ≠ 0)
    (binds : Hash.Binds codec.sha256Sum
      {requiredSetBytes (untouchedState request 0),
        requiredSetBytes (untouchedState request position)}) :
    outcome (verifyGatedDestroyState codec gate request (untouchedState request position)) =
        outcome (verifyGatedDestroyState codec gate request (untouchedState request 0)) ↔
      ¬ (Passes codec gate request 0 ∨ Passes codec gate request position) := by
  obtain ⟨zeroPasses, zeroFails⟩ := outcome_untouchedState codec gate request 0
  obtain ⟨passes, fails⟩ := outcome_untouchedState codec gate request position
  have distinct : ∀ evidence, Outcome.error ≠ .approval evidence := by
    rintro evidence ⟨⟩
  by_cases atZero : Passes codec gate request 0
  · refine iff_of_false ?_ (not_not.mpr (Or.inl atZero))
    rw [zeroPasses atZero]
    by_cases atPosition : Passes codec gate request position
    · rw [passes atPosition]
      -- the evidence of an approval tells the position
      intro same
      have bodies := binds.eq_of_hash_eq _ (Set.mem_insert _ _) _ (Outcome.approval.inj same)
      exact nonzero (requiredSetBytes_injective bodies)
    · rw [fails atPosition]
      exact distinct _
  · rw [zeroFails atZero]
    by_cases atPosition : Passes codec gate request position
    · refine iff_of_false ?_ (not_not.mpr (Or.inr atPosition))
      rw [passes atPosition]
      exact (distinct _).symm
    · exact iff_of_true (fails atPosition) (not_or_intro atZero atPosition)

/-- A text is the canonical JSON form of a segment: `json.Unmarshal` reads the
segment from it, and the tokens and values that a `json.Decoder` reads from it
are the fields of the segment in their order. -/
structure CanonicalForm (codec : Codec) (decoder : Bytes → SegmentStream) (text : Bytes)
    (segment : LedgerSegmentV1) : Prop where
  nonempty : text ≠ []
  unmarshal : codec.ledgerSegment text = .ok segment
  decoder_eq : decoder text = canonicalStream segment

/-- The gates give different outcomes exactly on a coherent segment that only
mentions the key, for a request that passes the checks on a key without events
at position zero or at its own position. -/
theorem gates_agree_iff
    {codec : Codec} {gate : DestructionGate} {decoder : Bytes → SegmentStream}
    {contextError : Option Bytes} {request : StreamedDestroyRequest}
    {segment : LedgerSegmentV1} {projection : Projection}
    (wellFormed : WellFormed request)
    (canonical : CanonicalForm codec decoder request.satisfactionEvidence segment)
    (folded : fold codec.toCodec (boundedEvents request.toGatedDestroyRequest segment) =
      .ok projection)
    (binds : Hash.Binds codec.sha256Sum
      {requiredSetBytes (untouchedState request.toGatedDestroyRequest 0),
        requiredSetBytes (untouchedState request.toGatedDestroyRequest request.ledgerPosition)}) :
    outcome (verifyGatedDestroyStream codec gate contextError request
        (decoder request.satisfactionEvidence)) =
      outcome (verifyGatedDestroy codec gate contextError request.toGatedDestroyRequest) ↔
    ¬ (contextError = none ∧ Coherent codec request.toGatedDestroyRequest segment ∧
      Silent codec.toCodec (boundedEvents request.toGatedDestroyRequest segment) request.key ∧
      (Passes codec gate request.toGatedDestroyRequest 0 ∨
        Passes codec gate request.toGatedDestroyRequest request.ledgerPosition)) := by
  rw [canonical.decoder_eq]
  cases contextError with
  | some detail =>
      refine iff_of_true rfl ?_
      rintro ⟨ended, -⟩
      cases ended
  | none =>
      obtain ⟨folder, applied, spoken, silent⟩ :=
        projected_state folded request.toGatedDestroyRequest
      obtain ⟨streamed, streamFails⟩ :=
        @verifyGatedDestroyStream_canonicalStream codec gate request segment folder wellFormed
          applied
      by_cases coherent : Coherent codec request.toGatedDestroyRequest segment
      · rw [streamed coherent, verifyGatedDestroy_of_coherent wellFormed canonical.nonempty
          canonical.unmarshal folded coherent]
        by_cases isSilent : Silent codec.toCodec
            (boundedEvents request.toGatedDestroyRequest segment) request.key
        · obtain ⟨projected, atPosition⟩ := silent isSilent
          rw [projected, atPosition]
          rw [untouchedStates_agree_iff wellFormed.ledgerPosition binds, not_iff_not]
          exact ⟨fun passes => ⟨rfl, coherent, isSilent, passes⟩, fun differ => differ.2.2.2⟩
        · refine iff_of_true ?_ ?_
          · rw [spoken isSilent]
          · rintro ⟨-, -, isSilent', -⟩
            exact isSilent isSilent'
      · refine iff_of_true ?_ ?_
        · rw [streamFails coherent]
          cases verified : verifyGatedDestroy codec gate none request.toGatedDestroyRequest with
          | error detail => rfl
          | ok decision =>
              exact absurd (coherent_of_verifyGatedDestroy canonical.unmarshal
                wellFormed.auditChainHead verified) coherent
        · rintro ⟨-, coherent', -⟩
          exact coherent coherent'

/-- The JSON text of the review of a release of the key `j`. -/
def mentioningReview : Bytes :=
  Go.jsonObject [jsonPair "key_id" (jsonString (bytes "j"))]

/-- The purpose of a release ceremony of the key. -/
def mentioningPurpose : Bytes :=
  bytes "release-managed-ca-leaf-v2:" ++ mentioningReview

/-- The JSON text of the start of that ceremony. -/
def mentioningData : Bytes :=
  Go.jsonObject [jsonPair "ceremony_id" (jsonString (bytes "r")),
    jsonPair "purpose" (jsonString mentioningPurpose),
    jsonPair "threshold" (decimal 2),
    jsonPair "opener" (jsonString (bytes "o"))]

/-- The credential of the key `k` is registered and its revocation completed, and
then a release ceremony of the key `j` is started. -/
def mentioningEvents : List Event :=
  sampleEvents ++ [⟨bytes "s", caCeremonyStarted, bytes "t", mentioningData, 3, none, 1⟩]

/-- The canonical JSON form of the segment with those events. -/
def mentioningSegment : Bytes :=
  Go.jsonObject [jsonPair "version" (decimal 1),
    jsonPair "events" (Go.jsonArray (mentioningEvents.map fun event =>
      Go.jsonObject [jsonPair "ID" (jsonString event.id),
        jsonPair "Type" (jsonString event.type),
        jsonPair "TenantID" (jsonString event.tenantID),
        jsonPair "Time" (jsonString (bytes "0001-01-01T00:00:00Z")),
        jsonPair "Data" (Go.jsonBytes event.data),
        jsonPair "Sequence" (decimal event.sequence),
        jsonPair "Actor" (bytes "null"),
        jsonPair "SchemaVersion" (decimal event.schemaVersion)]))]

/-- A request to destroy a key at the position of the last event. -/
def mentioningRequest (subjectRef : Bytes) : StreamedDestroyRequest :=
  { sampleRequest with
    subjectRef := subjectRef
    ledgerPosition := 3
    satisfactionEvidence := mentioningSegment
    auditChainHead := Hash.digestOf 4
    satisfactionEvidenceDigest := Hash.digestOf 4 }

/-- The required sets of the two keys without events. -/
def emptyRequiredSets : List Bytes :=
  [bytes "k", bytes "j"].flatMap fun subjectRef => [0, 3].map fun position =>
    requiredSetBytes
      (untouchedState (mentioningRequest subjectRef).toGatedDestroyRequest position)

/-- The readings of the texts above, and a hash that tells those sets apart. -/
def mentioningCodec : Codec :=
  { sampleCodec with
    ceremonyStarted :=
      readText mentioningData ⟨bytes "r", mentioningPurpose, 2, bytes "o"⟩
        sampleCodec.ceremonyStarted
    purposeKeyID := readText mentioningReview (bytes "j") sampleCodec.purposeKeyID
    ledgerSegment := readText mentioningSegment ⟨1, 0, mentioningEvents⟩ sampleCodec.ledgerSegment
    sha256Sum := Hash.numbering emptyRequiredSets }

def mentioningDecoder (text : Bytes) : SegmentStream :=
  if text = mentioningSegment then canonicalStream ⟨1, 0, mentioningEvents⟩
  else ⟨.unreadable (bytes "EOF"), [], .unreadable (bytes "EOF"), true⟩

/-- The key with a credential, and the one that is only mentioned. -/
def mentioningProjection : Projection :=
  [(⟨bytes "t", bytes "j"⟩, ⟨bytes "j", bytes "t", [], [], [], [], 0⟩),
    (⟨bytes "t", bytes "k"⟩, ⟨bytes "k", bytes "t", [⟨dependentCredential, bytes "c"⟩],
      [⟨dependentCredential, bytes "c"⟩], [], [], 2⟩)]

theorem canonicalForm_mentioningSegment :
    CanonicalForm mentioningCodec mentioningDecoder mentioningSegment
      ⟨1, 0, mentioningEvents⟩ where
  nonempty := by decide +kernel
  unmarshal := by simp [mentioningCodec, readText]
  decoder_eq := by simp [mentioningDecoder]

theorem binds_emptyRequiredSets :
    Hash.Binds mentioningCodec.sha256Sum {text | text ∈ emptyRequiredSets} :=
  Hash.numbering_binds emptyRequiredSets (by decide)

/-- The two gates agree on a key that the ledger names. -/
theorem gates_agree_iff_touched :
    outcome (verifyGatedDestroyStream mentioningCodec sampleGate none
        (mentioningRequest (bytes "k")) (mentioningDecoder mentioningSegment)) =
      outcome (verifyGatedDestroy mentioningCodec sampleGate none
        (mentioningRequest (bytes "k")).toGatedDestroyRequest) := by
  have wellFormed : WellFormed (mentioningRequest (bytes "k")) :=
    ⟨by decide +kernel, by decide +kernel, by decide, by decide, rfl, by decide⟩
  have folded : fold mentioningCodec.toCodec
      (boundedEvents (mentioningRequest (bytes "k")).toGatedDestroyRequest
        ⟨1, 0, mentioningEvents⟩) = .ok mentioningProjection := by decide +kernel
  have registered : decode mentioningCodec.toCodec
      (sampleEvent (bytes "dependency.registered") 1) =
        .ok (.registered ⟨bytes "t", bytes "k", ⟨dependentCredential, bytes "c"⟩, []⟩) := by
    decide +kernel
  have binds : Hash.Binds mentioningCodec.sha256Sum
      {requiredSetBytes (untouchedState (mentioningRequest (bytes "k")).toGatedDestroyRequest 0),
        requiredSetBytes (untouchedState (mentioningRequest (bytes "k")).toGatedDestroyRequest
          (mentioningRequest (bytes "k")).ledgerPosition)} := by
    refine binds_emptyRequiredSets.mono ?_
    rintro text (rfl | rfl)
    · exact List.mem_cons_self
    · exact List.mem_cons_of_mem _ List.mem_cons_self
  apply (gates_agree_iff wellFormed canonicalForm_mentioningSegment folded binds).mpr
  rintro ⟨-, -, ⟨-, untouched⟩, -⟩
  exact untouched ⟨_, List.mem_cons_self, Or.inr ⟨_, _, registered, rfl, rfl⟩⟩

/-- The key `j` is only mentioned, and the gates approve its destruction with
different evidence. -/
theorem mentioned_key_evidence_differs :
    WellFormed (mentioningRequest (bytes "j")) ∧
    CanonicalForm mentioningCodec mentioningDecoder mentioningSegment ⟨1, 0, mentioningEvents⟩ ∧
    fold mentioningCodec.toCodec
        (boundedEvents (mentioningRequest (bytes "j")).toGatedDestroyRequest
          ⟨1, 0, mentioningEvents⟩) = .ok mentioningProjection ∧
    outcome (verifyGatedDestroyStream mentioningCodec sampleGate none
        (mentioningRequest (bytes "j")) (mentioningDecoder mentioningSegment)) =
      .approval (requiredSetDigest mentioningCodec ⟨bytes "j", bytes "t", [], [], [], [], 3⟩) ∧
    outcome (verifyGatedDestroy mentioningCodec sampleGate none
        (mentioningRequest (bytes "j")).toGatedDestroyRequest) =
      .approval (requiredSetDigest mentioningCodec ⟨bytes "j", bytes "t", [], [], [], [], 0⟩) ∧
    requiredSetDigest mentioningCodec ⟨bytes "j", bytes "t", [], [], [], [], 3⟩ ≠
      requiredSetDigest mentioningCodec ⟨bytes "j", bytes "t", [], [], [], [], 0⟩ := by
  refine ⟨⟨by decide +kernel, by decide +kernel, by decide, by decide, rfl, by decide⟩,
    canonicalForm_mentioningSegment, ?_, ?_, ?_, ?_⟩
  · decide +kernel
  · decide +kernel
  · decide +kernel
  · decide +kernel

end Trstctl.Decommission.Gate

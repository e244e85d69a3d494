import Trstctl.Decommission.Depstate.KeyFolder
import Trstctl.Decommission.Gate.Verify

/-!
# The streaming destruction gate

`Gate.VerifyGatedDestroyStream` of `internal/decommission/gate/stream.go` reads
the ledger segment with a `json.Decoder`, one event at a time, and keeps the
state of the requested key only.  What the decoder gives is a parameter.
-/

namespace Trstctl.Decommission.Gate

open Go (Bytes bytes decimal)
open Depstate (Event KeyState KeyFolder newKeyFolder)

inductive DelimiterToken where
  | unreadable (detail : Bytes)
  | other
  | expected

/-- A field of a segment, with the values that the decoder reads. -/
inductive SegmentField where
  | unreadable (detail : Bytes)
  | version (value : Except Bytes Int)
  | finalEpoch (value : Except Bytes Nat)
  | events (opening : DelimiterToken) (events : List (Except Bytes Event))
      (closing : DelimiterToken)
  | unexpected (key : Bytes)

/-- The segment as the decoder reads it. -/
structure SegmentStream where
  opening : DelimiterToken
  fields : List SegmentField
  closing : DelimiterToken
  atEnd : Bool

/-- `expectJSONDelimiter`; `want` is quoted. -/
def expectJSONDelimiter (want : Bytes) : DelimiterToken → Except Bytes Unit
  | .unreadable detail => .error (invalidEvidence (bytes "segment delimiter: " ++ detail))
  | .other => .error (invalidEvidence (bytes "expected segment delimiter " ++ want))
  | .expected => .ok ()

/-- `GatedDestroyRequest` with the digest of its streamed evidence. -/
structure StreamedDestroyRequest extends GatedDestroyRequest where
  satisfactionEvidenceDigest : Bytes

/-- The variables of `VerifyGatedDestroyStream`; a version or epoch that was not
seen is none. -/
structure StreamState where
  version : Option Int
  finalEpoch : Option Nat
  sawEvents : Bool
  head : Bytes
  folder : KeyFolder
  position : Nat

/-- The variables at the start. -/
def newStreamState (codec : Codec) (request : StreamedDestroyRequest) : StreamState where
  version := none
  finalEpoch := none
  sawEvents := false
  head := newAuditChainHead codec
  folder := newKeyFolder request.tenantID request.subjectRef
  position := 0

/-- The loop of `VerifyGatedDestroyStream` over the events. -/
def readEvents (codec : Codec) (contextError : Option Bytes) (request : StreamedDestroyRequest) :
    List (Except Bytes Event) → StreamState → Except Bytes StreamState
  | [], state => .ok state
  | reading :: rest, state =>
      match contextError, reading with
      | some detail, _ => .error detail
      | none, .error detail => .error (invalidEvidence (bytes "segment event: " ++ detail))
      | none, .ok event =>
          let position := state.position + 1
          let event :=
            if event.sequence = 0 then { event with sequence := position } else event
          if request.ledgerPosition < event.sequence then
            readEvents codec contextError request rest { state with position := position }
          else
            match state.folder.apply codec.toCodec event with
            | .error detail =>
                .error (invalidEvidence (bytes "fold segment event " ++ decimal position ++
                  bytes ": " ++ detail))
            | .ok folder =>
                readEvents codec contextError request rest
                  { state with
                    head := extendAuditChainHead codec state.head event
                    folder := folder
                    position := position }

def readField (codec : Codec) (contextError : Option Bytes) (request : StreamedDestroyRequest)
    (state : StreamState) : SegmentField → Except Bytes StreamState
  | .unreadable detail => .error (invalidEvidence (bytes "segment field: " ++ detail))
  | .version value => do
      if state.version.isSome = true then
        throw (invalidEvidence (bytes "duplicate segment version"))
      let version ← value
      return { state with version := some version }
  | .finalEpoch value => do
      if state.finalEpoch.isSome = true then
        throw (invalidEvidence (bytes "duplicate final epoch"))
      let finalEpoch ← value
      return { state with finalEpoch := some finalEpoch }
  | .events opening events closing => do
      if state.sawEvents = true then throw (invalidEvidence (bytes "duplicate events"))
      expectJSONDelimiter (bytes "'['") opening
      let state ← readEvents codec contextError request events { state with sawEvents := true }
      expectJSONDelimiter (bytes "']'") closing
      return state
  | .unexpected key => .error (invalidEvidence (bytes "unexpected segment field " ++ key))

/-- The loop of `VerifyGatedDestroyStream` over the fields. -/
def readFields (codec : Codec) (contextError : Option Bytes) (request : StreamedDestroyRequest) :
    List SegmentField → StreamState → Except Bytes StreamState
  | [], state => .ok state
  | field :: rest, state => do
      let state ← readField codec contextError request state field
      readFields codec contextError request rest state

/-- The checks on the segment that was read. -/
def segmentMismatch (request : StreamedDestroyRequest) (state : StreamState) : Bool :=
  !state.sawEvents || state.version.any (fun version => version != 0 && version != 1) ||
    state.finalEpoch.any (fun epoch => epoch != 0 && epoch != request.assertedFinalEpoch) ||
    state.head != request.auditChainHead

/-- The state of a key without events. -/
def untouchedState (request : GatedDestroyRequest) (position : Nat) : KeyState :=
  ⟨request.subjectRef, request.tenantID, [], [], [], [], position⟩

/-- `Gate.VerifyGatedDestroyStream`; the context of the call may have ended. -/
def verifyGatedDestroyStream (codec : Codec) (gate : DestructionGate) (contextError : Option Bytes)
    (request : StreamedDestroyRequest) (evidence : SegmentStream) :
    Except Bytes GatedDestroyDecision := do
  match contextError with
  | some detail => throw detail
  | none => pure ()
  if request.tenantID = [] ∨ request.subjectRef = [] ∨ request.ledgerPosition = 0 ∨
      request.assertedFinalEpoch = 0 ∨ request.satisfactionEvidenceDigest.length ≠ 32 then
    throw (invalidEvidence (bytes "streamed command metadata or evidence digest missing"))
  expectJSONDelimiter (bytes "'\x7b'") evidence.opening
  let state ← readFields codec contextError request evidence.fields (newStreamState codec request)
  expectJSONDelimiter (bytes "'\x7d'") evidence.closing
  if evidence.atEnd = false then throw (invalidEvidence (bytes "trailing segment content"))
  if segmentMismatch request state = true then
    throw (invalidEvidence (bytes "segment epoch or audit head mismatch"))
  let keyState :=
    if state.folder.touched then state.folder.builder.state
    else untouchedState request.toGatedDestroyRequest request.ledgerPosition
  verifyGatedDestroyState codec gate request.toGatedDestroyRequest keyState

/-- The decoder's reading of the canonical JSON form of a segment: the version,
the final epoch unless it is zero, and the events. -/
def canonicalStream (segment : LedgerSegmentV1) : SegmentStream where
  opening := .expected
  fields := .version (.ok segment.version) ::
    ((if segment.finalEpoch = 0 then [] else [.finalEpoch (.ok segment.finalEpoch)]) ++
      [.events .expected (segment.events.map .ok) .expected])
  closing := .expected
  atEnd := true

theorem readEvents_map_ok {codec : Codec} {request : StreamedDestroyRequest} (events : List Event) :
    ∀ {state : StreamState} {folder : KeyFolder},
      KeyFolder.applyAll codec.toCodec
          (boundEventsFrom request.ledgerPosition state.position events) state.folder =
        .ok folder →
      readEvents codec none request (events.map .ok) state =
        .ok { state with
          head := (boundEventsFrom request.ledgerPosition state.position events).foldl
            (extendAuditChainHead codec) state.head
          folder := folder
          position := state.position + events.length } := by
  induction events with
  | nil =>
      intro state folder folded
      rw [← Except.ok.inj folded]
      rfl
  | cons event rest ih =>
      intro state folder folded
      have positioned : (if event.sequence = 0 then
            { event with sequence := state.position + 1 } else event) =
          { event with sequence := eventPosition state.position event } := by
        unfold eventPosition
        split_ifs
        · rfl
        · rfl
      unfold boundEventsFrom at folded ⊢
      rw [List.map_cons, readEvents, positioned]
      split_ifs at folded ⊢ with beyond
      · rw [ih folded, List.length_cons, Nat.add_right_comm, Nat.add_assoc]
      · obtain ⟨next, applied, folded⟩ := Result.bind_eq_ok.mp folded
        rw [applied]
        dsimp only
        rw [ih folded, List.length_cons, Nat.add_right_comm, Nat.add_assoc]
        rfl

end Trstctl.Decommission.Gate

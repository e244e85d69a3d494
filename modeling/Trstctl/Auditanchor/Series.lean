import Mathlib.Data.List.Sort
import Trstctl.Auditchain.Seal
import Trstctl.Library.Result

/-!
# The anchor series of an export

`VerifySeries` (`internal/auditanchor/series.go`) with `Verify`
(`internal/auditanchor/auditanchor.go`) and `Contiguous`
(`internal/audit/audit.go`).  The hash, package `tsa` and the JSON decoder are
parameters.  The errors carry what their texts print; where the source returns a
result beside an error, its caller drops the result.
-/

namespace Trstctl.Auditanchor

open Go (Bytes Time bytes)
open Auditchain (Record)

/-- `tsa.Token`, as far as this package reads it. -/
structure Token where
  genTime : Time
  der : Bytes
deriving DecidableEq

structure Anchor where
  kind : Bytes
  chainHead : Bytes
  anchoredAt : Time
  token : Option Token
deriving DecidableEq

def kindRFC3161 : Bytes :=
  bytes "rfc3161"

def eventTypeAnchored : Bytes :=
  bytes "audit.anchored"

structure AnchoredEvent where
  throughSequence : UInt64
  cadenceSeconds : Int
  anchor : Anchor

/-- The anchor records among records, in order. -/
def anchorRecords (records : List Record) : List Record :=
  records.filter fun record => record.type == eventTypeAnchored

/-- `SeriesPolicy`, in nanoseconds. -/
structure SeriesPolicy where
  cadence : Int
  skew : Int

def defaultSeriesSkew : Int :=
  300 * Time.second

def SeriesPolicy.tolerance (policy : SeriesPolicy) : Int :=
  if policy.skew ≤ 0 then defaultSeriesSkew else policy.skew

structure SeriesResult where
  applicable : Bool
  reason : Bytes
  anchors : Nat
  verified : Nat
  beforeWindow : Nat
  supersededByErasure : Nat
  firstAnchoredAt : Time
  lastAnchoredAt : Time
  longestCoverageSeconds : Int
  cadenceSeconds : Int
  skewSeconds : Int
  tokens : List Token
deriving DecidableEq

structure SeriesAnchor where
  record : Record
  payload : AnchoredEvent
  time : Time

/-- The errors of `Verify`. -/
inductive AnchorError where
  | unanchored
  | unrecognizedKind (kind : Bytes)
  | missingToken
  | alteredRecords (recomputedHead chainHead : Bytes)
  | token (error : Bytes)
  | timeMismatch
deriving DecidableEq

/-- The errors of `VerifySeries`. -/
inductive SeriesError where
  | cadenceNotApplicable (reason : Bytes)
  | missingRoot
  | malformed (sequence : UInt64) (error : Bytes)
  | coversLaterRecord (sequence throughSequence : UInt64)
  | noTimestamp (sequence : UInt64)
  | anchor (sequence : UInt64) (error : AnchorError)
  | datedBeforeTimestamp (sequence : UInt64) (dated timestamp : Time)
  | timestampBeforeRecord (sequence : UInt64) (timestamp : Time) (covered : UInt64) (newest : Time)
  | changedHead (sequence : UInt64) (chainHead : Bytes) (throughSequence : UInt64) (head : Bytes)
  | indexOutOfRange
  | backDated (sequence : UInt64) (dated latestBefore : Time)
  | uncovered (sequence : UInt64)
  | firstAnchoredLate (sequence : UInt64) (dated coveredAt : Time)
  | exportAnchoredLate (sequence : UInt64) (dated coveredAt : Time)
  | waitedLong (sequence : UInt64) (dated coveredAt : Time)
deriving DecidableEq

/-- What the check calls: the hash, `tsa.Verify`, which takes a token, the
imprint it must attest and a root certificate, and `decodeExactJSON` for the
event of an anchor. -/
structure SeriesPrimitives where
  sha256Sum : Bytes → Bytes
  verifyToken : Token → Bytes → Bytes → Except Bytes Unit
  decodeAnchored : Bytes → Except Bytes AnchoredEvent

section Check

variable (primitives : SeriesPrimitives)

def headImprint (chainHead : Bytes) : Bytes :=
  primitives.sha256Sum (bytes "trstctl/auditchain/v1\x00" ++ chainHead)

def verify (anchor : Anchor) (recomputedHead tsaRootDER : Bytes) : Except AnchorError Unit :=
  if anchor.kind = [] then throw .unanchored
  else if anchor.kind ≠ kindRFC3161 then throw (.unrecognizedKind anchor.kind)
  else
    match anchor.token with
    | none => throw .missingToken
    | some token =>
        if anchor.chainHead ≠ recomputedHead then
          throw (.alteredRecords recomputedHead anchor.chainHead)
        else do
          (primitives.verifyToken token (headImprint primitives recomputedHead)
            tsaRootDER).mapError .token
          if anchor.anchoredAt ≠ token.genTime then throw .timeMismatch

/-- `audit.Contiguous`, behind the check for no records. -/
def followsOn : List Record → Bool
  | first :: next :: rest => next.sequence == first.sequence + 1 && followsOn (next :: rest)
  | _ => true

def contiguous (records : List Record) : Bool :=
  !records.isEmpty && followsOn records

/-- An export as the check of one anchor reads it. -/
structure Window where
  records : List Record
  first : UInt64
  last : UInt64
  prevHash : Bytes

/-- The record of a window under a sequence number in its range. -/
def Window.recordAt (window : Window) (sequence : UInt64) : Except SeriesError Record :=
  match window.records[(sequence - window.first).toNat]? with
  | none => throw .indexOutOfRange
  | some record => pure record

/-- `headAt`: the head after a sequence number, if the window has it. -/
def Window.headAt (window : Window) (sequence : UInt64) : Except SeriesError (Option Bytes) :=
  if sequence + 1 = window.first then pure (some window.prevHash)
  else if window.first ≤ sequence ∧ sequence ≤ window.last then do
    let record ← window.recordAt sequence
    pure (some record.hash)
  else pure none

def eventPrivacySubjectErased : Bytes :=
  bytes "privacy.subject.erased"

/-- The sequence numbers of the subject erasures among records. -/
def erasures (records : List Record) : List UInt64 :=
  (records.filter fun record => record.type == eventPrivacySubjectErased).map Record.sequence

def erasedLater (erasures : List UInt64) (covered : UInt64) : Bool :=
  erasures.any fun sequence => decide (covered < sequence)

/-- What the loop of `verifyAnchorRecords` has counted and kept. -/
structure AnchorScan where
  anchors : List SeriesAnchor
  verified : Nat
  beforeWindow : Nat
  supersededByErasure : Nat

/-- The check of an anchor's head against the window. -/
def checkHead (window : Window) (skew : Int) (scan : AnchorScan)
    (anchor : SeriesAnchor) : Except SeriesError AnchorScan := do
  let covered := anchor.payload.throughSequence
  match ← window.headAt covered with
  | none => pure { scan with beforeWindow := scan.beforeWindow + 1 }
  | some head =>
      if head = anchor.payload.anchor.chainHead then do
        if window.first ≤ covered then
          let newest ← window.recordAt covered
          if newest.time.after (anchor.time.add skew) then
            throw (.timestampBeforeRecord anchor.record.sequence anchor.time covered newest.time)
        pure { scan with verified := scan.verified + 1 }
      else if erasedLater (erasures window.records) covered then
        pure { scan with supersededByErasure := scan.supersededByErasure + 1 }
      else
        throw (.changedHead anchor.record.sequence anchor.payload.anchor.chainHead covered head)

/-- The payload of an anchor record and the time of its token, behind the
checks that need no window. -/
def readAnchor (tsaRootDER : Bytes) (skew : Int)
    (record : Record) : Except SeriesError SeriesAnchor := do
  let payload ← (primitives.decodeAnchored record.data).mapError (.malformed record.sequence)
  if record.sequence ≤ payload.throughSequence then
    throw (.coversLaterRecord record.sequence payload.throughSequence)
  match payload.anchor.token with
  | none => throw (.noTimestamp record.sequence)
  | some token => do
      if payload.anchor.kind ≠ kindRFC3161 ∨ payload.anchor.chainHead = [] then
        throw (.noTimestamp record.sequence)
      (verify primitives payload.anchor payload.anchor.chainHead tsaRootDER).mapError
        (.anchor record.sequence)
      if record.time.before (token.genTime.add (-skew)) then
        throw (.datedBeforeTimestamp record.sequence record.time token.genTime)
      pure { record := record, payload := payload, time := token.genTime }

/-- One iteration of the loop of `verifyAnchorRecords`. -/
def scanAnchor (window : Window) (tsaRootDER : Bytes) (skew : Int) (scan : AnchorScan)
    (record : Record) : Except SeriesError AnchorScan :=
  if record.type ≠ eventTypeAnchored then pure scan
  else do
    let anchor ← readAnchor primitives tsaRootDER skew record
    let checked ← checkHead window skew scan anchor
    pure { checked with anchors := scan.anchors ++ [anchor] }

def verifyAnchorRecords (window : Window) (tsaRootDER : Bytes)
    (skew : Int) : Except SeriesError AnchorScan :=
  window.records.foldlM (scanAnchor primitives window tsaRootDER skew) ⟨[], 0, 0, 0⟩

/-- The anchors by what they cover, in the order of their records. -/
def byCoverage (anchors : List SeriesAnchor) : List SeriesAnchor :=
  anchors.insertionSort fun first second =>
    first.payload.throughSequence ≤ second.payload.throughSequence

/-- An anchor does not cover a sequence number. -/
def misses (sequence : UInt64) (anchor : SeriesAnchor) : Bool :=
  decide (anchor.payload.throughSequence < sequence)

def later (latest time : Time) : Time :=
  if time.after latest then time else latest

/-- The sweep over the order of records: the latest anchor that a record came
after, and the anchors that are still ahead. -/
def checkOrder (skew : Int) : Time → List SeriesAnchor → List Record → Except SeriesError Unit
  | _, _, [] => pure ()
  | latestBefore, ahead, record :: rest => do
      let latest := ((ahead.takeWhile (misses record.sequence)).map SeriesAnchor.time).foldl
        later latestBefore
      if latest.isZero = false ∧ record.time.before (latest.add (-skew)) then
        throw (.backDated record.sequence record.time latest)
      checkOrder skew latest (ahead.dropWhile (misses record.sequence)) rest

/-- The time of the anchor that covers a record: the first one ahead, or the
export's own. -/
def coveredAt (exportAnchoredAt : Time) : List SeriesAnchor → Option Time
  | anchor :: _ => some anchor.time
  | [] => if exportAnchoredAt.isZero then none else some exportAnchoredAt

/-- The error for a record that waited too long: for the export's own anchor,
for the first anchor of all, or for another one. -/
def lateError (all ahead : List SeriesAnchor) (record : Record) (coveredAt : Time) : SeriesError :=
  if ahead = [] then .exportAnchoredLate record.sequence record.time coveredAt
  else if ahead.length = all.length then
    .firstAnchoredLate record.sequence record.time coveredAt
  else .waitedLong record.sequence record.time coveredAt

/-- The sweep over the coverage of records, with the longest wait so far. -/
def checkCoverage (policy : SeriesPolicy) (exportAnchoredAt : Time)
    (all : List SeriesAnchor) : List SeriesAnchor → Int → List Record → Except SeriesError Int
  | _, longest, [] => pure longest
  | ahead, longest, record :: rest =>
      let covering := ahead.dropWhile (misses record.sequence)
      if record.type = eventTypeAnchored then
        checkCoverage policy exportAnchoredAt all covering longest rest
      else
        match coveredAt exportAnchoredAt covering with
        | none => do
            if 0 < policy.cadence then throw (.uncovered record.sequence)
            checkCoverage policy exportAnchoredAt all covering longest rest
        | some time => do
            let wait := time.sub record.time
            if 0 < policy.cadence ∧ Go.durationSum policy.cadence policy.tolerance < wait then
              throw (lateError all covering record time)
            checkCoverage policy exportAnchoredAt all covering
              (max longest (wait.tdiv Time.second)) rest

/-- Why the anchors over the full chain cannot be checked again. -/
def notApplicable : Bytes :=
  bytes ("the export is not an unbroken run of the tenant's records selected without a content " ++
    "filter, so it is a chain of its own and anchors over the tenant's full chain cannot be " ++
    "re-checked in it")

def firstAnchoredAt : List SeriesAnchor → Time
  | [] => Time.zero
  | anchor :: rest =>
      rest.foldl (fun first next => if next.time.before first then next.time else first) anchor.time

/-- The anchors in a series of records verify. -/
def verifySeries (records : List Record) (prevHash : Bytes) (fullChain : Bool)
    (exportAnchoredAt : Time) (tsaRootDER : Bytes)
    (policy : SeriesPolicy) : Except SeriesError SeriesResult :=
  let skew := policy.tolerance
  let result : SeriesResult :=
    { applicable := false
      reason := []
      anchors := 0
      verified := 0
      beforeWindow := 0
      supersededByErasure := 0
      firstAnchoredAt := Time.zero
      lastAnchoredAt := Time.zero
      longestCoverageSeconds := 0
      cadenceSeconds := policy.cadence.tdiv Time.second
      skewSeconds := skew.tdiv Time.second
      tokens := [] }
  match records with
  | [] => pure { result with reason := bytes "the export has no records" }
  | first :: rest =>
      if fullChain = false ∨ contiguous records = false then
        if 0 < policy.cadence then throw (.cadenceNotApplicable notApplicable)
        else pure { result with reason := notApplicable }
      else if tsaRootDER = [] then throw .missingRoot
      else do
        let window : Window :=
          ⟨records, first.sequence, (rest.getLastD first).sequence, prevHash⟩
        let scan ← verifyAnchorRecords primitives window tsaRootDER skew
        let sorted := byCoverage scan.anchors
        checkOrder skew Time.zero sorted records
        let longest ← checkCoverage policy exportAnchoredAt sorted sorted 0 records
        pure
          { result with
            applicable := true
            anchors := scan.anchors.length
            verified := scan.verified
            beforeWindow := scan.beforeWindow
            supersededByErasure := scan.supersededByErasure
            firstAnchoredAt := firstAnchoredAt scan.anchors
            lastAnchoredAt := (scan.anchors.map SeriesAnchor.time).foldl later Time.zero
            longestCoverageSeconds := longest
            tokens := scan.anchors.filterMap fun anchor => anchor.payload.anchor.token }

end Check

end Trstctl.Auditanchor

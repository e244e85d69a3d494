import Trstctl.Auditanchor.Series

/-!
# Verifying record exports

The check of a saved CSV (`internal/auditanchor/export.go`) and of the JSON
stream formats (`internal/auditanchor/verifier.go`).  The readers of the standard
library and the strict JSON decoder of the package are parameters.  Nothing is
assumed about them but that the raw data they return is valid JSON.
-/

namespace Trstctl.Auditanchor

open Go (Bytes Time bytes trimSpace)
open Auditchain (Record Actor sealFrom)

/-- `Format`, without the signed bundle. -/
inductive Format where
  | csv
  | ndjson
  | splunkHEC
  | sentinel
deriving DecidableEq

/-- `trailer`, as far as the checks read it. -/
structure Trailer where
  kind : Bytes
  prevHash : Bytes
  chainHead : Bytes
  count : Int
  anchor : Anchor
deriving DecidableEq

structure NDJSONRecord where
  sequence : UInt64
  id : Bytes
  type : Bytes
  tenantID : Bytes
  time : Bytes
  actorSubject : Bytes
  actorRoles : List Bytes
  chainHash : Bytes
  data : Bytes

/-- `splunkEvent`, whose time is a number of seconds. -/
structure SplunkEvent (Seconds : Type) where
  time : Seconds
  host : Bytes
  source : Bytes
  sourceType : Bytes
  index : Bytes
  event : NDJSONRecord

structure SentinelRecord where
  timeGenerated : Bytes
  sequence : UInt64
  recordID : Bytes
  eventType : Bytes
  tenantID : Bytes
  actorSubject : Bytes
  actorRoles : Bytes
  chainHash : Bytes
  data : Bytes

def csvColumns : List Bytes :=
  [bytes "sequence", bytes "id", bytes "type", bytes "tenant_id", bytes "time",
    bytes "actor_subject", bytes "actor_roles", bytes "chain_hash", bytes "data",
    bytes "trstctl_record", bytes "integrity"]

def maxArtifactRecords : Nat :=
  10000

/-- The errors of the checks. -/
inductive ExportError where
  | parseCSV (error : Bytes)
  | missingTrailer
  | recordLimit
  | headerShape
  | headerColumn (index : Nat) (column : Bytes)
  | truncated
  | ambiguousTrailer
  | trailerDecode (error : Bytes)
  | trailerMismatch
  | rowMetadata (row : Nat)
  | rowSequence (row : Nat) (error : Bytes)
  | rowTime (row : Nat) (error : Bytes)
  | rowData (row : Nat)
  | brokenChain (position : Nat)
  | differentHeads
  | anchor (error : AnchorError)
  | unanchored
  | anchoredBeforeRecord (stamped newest : Time)
  | anchoredLate (stamped newest : Time)
  | streamValue (position : Nat) (error : Bytes)
  | streamMetadata (kind : Bytes)
  | valuesAfterTrailer
  | dataAfterTrailer (error : Bytes)
  | streamRecord (position : Nat) (error : Bytes)
  | emptyTenant
  | crossesTenant (position : Nat)
deriving DecidableEq

/-- What the checks call: `csv.Reader.ReadAll`, which returns rows of one
length, `strconv.ParseUint`, `time.Parse`, `json.Valid`, the values that a
`json.Decoder` reads before the end of a stream or an error, and
`decodeExactJSON` for each type. -/
structure ExportPrimitives (Seconds : Type) where
  series : SeriesPrimitives
  jsonValid : Bytes → Bool
  readCSV : Bytes → Except Bytes (List (List Bytes))
  parseUint : Bytes → Except Bytes UInt64
  parseTime : Bytes → Except Bytes Time
  unixSeconds : Time → Seconds
  decodeValues : Bytes → List Bytes × Option Bytes
  rejectDuplicateJSONKeys : Bytes → Except Bytes Unit
  recordMarker : Bytes → Except Bytes Bytes
  decodeTrailer : Bytes → Except Bytes Trailer
  decodeNDJSON : Bytes → Except Bytes NDJSONRecord
  decodeSplunk : Bytes → Except Bytes (SplunkEvent Seconds)
  decodeSentinel : Bytes → Except Bytes SentinelRecord
  ndjsonData : ∀ raw value, decodeNDJSON raw = .ok value →
    value.data = [] ∨ jsonValid value.data = true
  splunkData : ∀ raw value, decodeSplunk raw = .ok value →
    value.event.data = [] ∨ jsonValid value.event.data = true
  sentinelData : ∀ raw value, decodeSentinel raw = .ok value →
    value.data = [] ∨ jsonValid value.data = true

/-- `strings.Fields`: the pieces between runs of white space, with the piece
that is being read. -/
def fieldsFrom (current : Bytes) : List (Go.Rune × Bytes) → List Bytes
  | [] => if current = [] then [] else [current]
  | segment :: rest =>
      if Go.isSpace segment.1 then
        (if current = [] then [] else [current]) ++ fieldsFrom [] rest
      else fieldsFrom (current ++ segment.2) rest

def fields (text : Bytes) : List Bytes :=
  fieldsFrom [] (Go.segments text)

section Checks

variable {Seconds : Type} [DecidableEq Seconds] (primitives : ExportPrimitives Seconds)

def recordFromRow (index : Nat) (row : List Bytes) : Except ExportError Record := do
  let field := fun column : Nat => row.getD column []
  if field (row.length - 2) ≠ [] ∨ field (row.length - 1) ≠ [] then throw (.rowMetadata index)
  let sequence ← (primitives.parseUint (field 0)).mapError (.rowSequence index)
  let time ← (primitives.parseTime (field 4)).mapError (.rowTime index)
  if field 8 ≠ [] ∧ primitives.jsonValid (field 8) = false then throw (.rowData index)
  pure
    { sequence := sequence
      id := field 1
      type := field 2
      tenantID := field 3
      time := time
      actor := if field 5 ≠ [] ∨ field 6 ≠ [] then some ⟨field 5, fields (field 6)⟩ else none
      data := field 8
      hash := field 7 }

/-- The loop over the rows of records. -/
def recordsFromRows : Nat → List (List Bytes) → Except ExportError (List Record)
  | _, [] => pure []
  | index, row :: rest => do
      let record ← recordFromRow primitives index row
      let records ← recordsFromRows (index + 1) rest
      pure (record :: records)

def recordFromNDJSON (value : NDJSONRecord) : Except Bytes Record := do
  let time ← (primitives.parseTime value.time).mapError (bytes "invalid time: " ++ ·)
  pure
    { sequence := value.sequence
      id := value.id
      type := value.type
      tenantID := value.tenantID
      time := time
      actor := if value.actorSubject ≠ [] ∨ value.actorRoles ≠ [] then
        some ⟨value.actorSubject, value.actorRoles⟩ else none
      data := value.data
      hash := value.chainHash }

def decodeStreamRecord (raw : Bytes) : Format → Except Bytes Record
  | .ndjson => do
      let value ← primitives.decodeNDJSON raw
      recordFromNDJSON primitives value
  | .splunkHEC => do
      let value ← primitives.decodeSplunk raw
      let record ← recordFromNDJSON primitives value.event
      if value.source ≠ bytes "trstctl" ∨ value.sourceType ≠ bytes "trstctl:audit" ∨
          value.host ≠ [] ∨ value.index ≠ [] ∨
          value.time ≠ primitives.unixSeconds record.time then
        throw (bytes "splunk envelope metadata does not match the canonical trstctl audit mapping")
      pure record
  | .sentinel => do
      let value ← primitives.decodeSentinel raw
      let time ← (primitives.parseTime value.timeGenerated).mapError
        (bytes "invalid TimeGenerated: " ++ ·)
      pure
        { sequence := value.sequence
          id := value.recordID
          type := value.eventType
          tenantID := value.tenantID
          time := time
          actor := if value.actorSubject ≠ [] ∨ value.actorRoles ≠ [] then
            some ⟨value.actorSubject, fields value.actorRoles⟩ else none
          data := value.data
          hash := value.chainHash }
  | .csv => throw (bytes "unsupported JSON stream format \"csv\"")

/-- The loop of `decodeRecordStream` over the values of the stream, with the
error that ends them and the records decoded so far. -/
def decodeStreamValues (format : Format) (failure : Option Bytes) :
    List Record → List Bytes → Except ExportError (List Record × Trailer)
  | records, [] =>
      match failure with
      | none => throw .missingTrailer
      | some error => throw (.streamValue (records.length + 1) error)
  | records, value :: rest => do
      (primitives.rejectDuplicateJSONKeys value).mapError (.streamValue (records.length + 1))
      let marker ← (primitives.recordMarker value).mapError (.streamValue (records.length + 1))
      if marker ≠ [] then do
        let proof ← (primitives.decodeTrailer value).mapError .trailerDecode
        if proof.kind ≠ bytes "chain_trailer" then throw (.streamMetadata proof.kind)
        match rest, failure with
        | _ :: _, _ => throw .valuesAfterTrailer
        | [], some error => throw (.dataAfterTrailer error)
        | [], none => pure (records, proof)
      else do
        if maxArtifactRecords ≤ records.length then throw .recordLimit
        let record ← (decodeStreamRecord primitives value format).mapError
          (.streamRecord (records.length + 1))
        decodeStreamValues format failure (records ++ [record]) rest

def decodeRecordStream (raw : Bytes) (format : Format) :
    Except ExportError (List Record × Trailer) :=
  let values := primitives.decodeValues raw
  decodeStreamValues primitives format values.2 [] values.1

def newestRecordTime (records : List Record) : Time :=
  (records.map Record.time).foldl later Time.zero

def verifyNotBackdated (anchor : Anchor) (newestRecord : Time) (tolerance : Int) :
    Except ExportError Unit :=
  match anchor.token with
  | none => throw .unanchored
  | some token =>
      if anchor.kind = [] then throw .unanchored
      else if newestRecord.isZero then pure ()
      else if token.genTime.before newestRecord then
        throw (.anchoredBeforeRecord token.genTime newestRecord)
      else if 0 < tolerance ∧ tolerance < token.genTime.sub newestRecord then
        throw (.anchoredLate token.genTime newestRecord)
      else pure ()

def validateRecordTenancy : List Record → Except ExportError Unit
  | [] => pure ()
  | first :: rest =>
      if first.tenantID = [] then throw .emptyTenant
      else
        match (first :: rest).findIdx? fun record => record.tenantID != first.tenantID with
        | none => pure ()
        | some index => throw (.crossesTenant (index + 1))

/-- The parameters that seal the records of an export. -/
def ExportPrimitives.chain : Auditchain.Primitives :=
  ⟨primitives.series.sha256Sum, primitives.jsonValid⟩

/-- The comparison of the records, the trailer and the anchor with the chain of
the records. -/
def verifyChain (records : List Record) (proof : Trailer) (tsaRootDER : Bytes) (tolerance : Int) :
    Except ExportError Unit := do
  let recomputed := sealFrom primitives.chain proof.prevHash records
  match (recomputed.1.zip records).findIdx? fun pair => pair.1.hash != pair.2.hash with
  | some index => throw (.brokenChain (index + 1))
  | none => pure ()
  if recomputed.2 ≠ proof.chainHead ∨ proof.anchor.chainHead ≠ proof.chainHead then
    throw .differentHeads
  (verify primitives.series proof.anchor recomputed.2 tsaRootDER).mapError .anchor
  verifyNotBackdated proof.anchor (newestRecordTime records) tolerance

def verifyRecordStream (records : List Record) (proof : Trailer) (tsaRootDER : Bytes)
    (tolerance : Int) : Except ExportError Unit := do
  validateRecordTenancy records
  if proof.count ≠ records.length ∨ proof.chainHead = [] then throw .trailerMismatch
  verifyChain primitives records proof tsaRootDER tolerance

/-- The comparison of the first row with the columns. -/
def checkHeader (header : List Bytes) : Except ExportError Unit :=
  if header.length ≠ csvColumns.length then throw .headerShape
  else
    match (csvColumns.zip header).findIdx? fun pair => pair.1 != pair.2 with
    | some index => throw (.headerColumn index (header.getD index []))
    | none => pure ()

/-- `VerifyCSVArtifact`, with the trailer it reads. -/
def verifyCSVArtifact (raw tsaRootDER : Bytes) (tolerance : Int) :
    Except ExportError (List Record × Trailer) := do
  let rows ← (primitives.readCSV raw).mapError .parseCSV
  if rows.length < 2 then throw .missingTrailer
  if maxArtifactRecords < rows.length - 2 then throw .recordLimit
  checkHeader (rows.headD [])
  let last := rows.getLastD []
  if last.getD (last.length - 2) [] ≠ bytes "chain_trailer" ∨
      trimSpace (last.getD (last.length - 1) []) = [] then
    throw .truncated
  if (last.take (last.length - 2)).any (· != []) then throw .ambiguousTrailer
  let proof ← (primitives.decodeTrailer (last.getD (last.length - 1) [])).mapError .trailerDecode
  if proof.kind ≠ bytes "chain_trailer" ∨ proof.count ≠ (rows.length - 2 : Nat) ∨
      proof.chainHead = [] then
    throw .trailerMismatch
  let records ← recordsFromRows primitives 1 rows.tail.dropLast
  verifyChain primitives records proof tsaRootDER tolerance
  pure (records, proof)

/-- The check of an artifact in a record format: its records and its trailer. -/
def verifyExport (format : Format) (raw tsaRootDER : Bytes) (tolerance : Int) :
    Except ExportError (List Record × Trailer) :=
  if format = .csv then verifyCSVArtifact primitives raw tsaRootDER tolerance
  else do
    let decoded ← decodeRecordStream primitives raw format
    verifyRecordStream primitives decoded.1 decoded.2 tsaRootDER tolerance
    pure decoded

end Checks

end Trstctl.Auditanchor

import Trstctl.Auditanchor.Export

/-!
# What a verified export pins

Two verified exports with the same number of records, the same head before them
and the same head after them hold the same records, but for a text that is not
valid UTF-8: the chain hashes what JSON makes of it.
-/

namespace Trstctl.Auditanchor

open Go (Bytes Time bytes jsonPair)
open Result (bind_eq_ok guard_eq_ok)
open Auditchain (Record DataValid SameRecord TextsKept sealFrom sealInputs)

/-- The texts of a CSV row: the names of the record, and those of its actor. -/
def rowTexts (row : List Bytes) : List Bytes :=
  [row.getD 1 [], row.getD 2 [], row.getD 3 []] ++
    if row.getD 5 [] ≠ [] ∨ row.getD 6 [] ≠ [] then row.getD 5 [] :: fields (row.getD 6 []) else []

/-- The texts of the rows of a CSV, or of the records of a JSON stream, before
any check. -/
def artifactTexts {Seconds : Type} [DecidableEq Seconds] (primitives : ExportPrimitives Seconds)
    (format : Format) (raw : Bytes) : Except ExportError (List (List Bytes)) :=
  if format = .csv then do
    let rows ← (primitives.readCSV raw).mapError .parseCSV
    pure (rows.tail.dropLast.map rowTexts)
  else do
    let decoded ← decodeRecordStream primitives raw format
    pure (decoded.1.map Record.texts)

/-- No text of an artifact that is not valid UTF-8 differs from the text at its
place in another. -/
def ArtifactTextsKept {Seconds : Type} [DecidableEq Seconds] (primitives : ExportPrimitives Seconds)
    (format otherFormat : Format) (raw otherRaw : Bytes) : Prop :=
  ∀ texts others, artifactTexts primitives format raw = .ok texts →
    artifactTexts primitives otherFormat otherRaw = .ok others →
      ∀ pair ∈ texts.zip others, TextsKept pair.1 pair.2

section Accepted

variable {Seconds : Type} {primitives : ExportPrimitives Seconds}

variable {index : Nat} {record : Record}

theorem texts_of_recordFromRow {row : List Bytes}
    (made : recordFromRow primitives index row = .ok record) :
    record.texts = rowTexts row := by
  simp only [recordFromRow, bind_eq_ok, guard_eq_ok] at made
  obtain ⟨-, sequence, -, time, -, -, made⟩ := made
  rw [← Except.ok.inj made]
  unfold Record.texts rowTexts
  by_cases named : row.getD 5 [] ≠ [] ∨ row.getD 6 [] ≠ []
  · rw [if_pos named, if_pos named]
    rfl
  · rw [if_neg named, if_neg named]
    rfl

theorem texts_of_recordsFromRows {rows : List (List Bytes)} {records : List Record}
    (made : recordsFromRows primitives index rows = .ok records) :
    records.map Record.texts = rows.map rowTexts := by
  induction rows generalizing index records with
  | nil =>
      rw [← Except.ok.inj made]
      rfl
  | cons row rest ih =>
      obtain ⟨record, record_eq, made⟩ := bind_eq_ok.mp made
      obtain ⟨others, others_eq, made⟩ := bind_eq_ok.mp made
      rw [← Except.ok.inj made, List.map_cons, List.map_cons, texts_of_recordFromRow record_eq,
        ih others_eq]

theorem artifactTextsKept_iff [DecidableEq Seconds]
    {format otherFormat : Format} {raw otherRaw : Bytes} {records others : List Record}
    (texts_eq : artifactTexts primitives format raw = .ok (records.map Record.texts))
    (otherTexts_eq : artifactTexts primitives otherFormat otherRaw =
      .ok (others.map Record.texts)) :
    ArtifactTextsKept primitives format otherFormat raw otherRaw ↔
      ∀ pair ∈ records.zip others, TextsKept pair.1.texts pair.2.texts := by
  unfold ArtifactTextsKept
  rw [texts_eq, otherTexts_eq]
  constructor
  · intro kept pair member
    refine kept _ _ rfl rfl (pair.1.texts, pair.2.texts) ?_
    rw [List.zip_map]
    exact List.mem_map_of_mem member
  · rintro kept _ _ ⟨rfl⟩ ⟨rfl⟩ pair member
    rw [List.zip_map] at member
    obtain ⟨both, found, rfl⟩ := List.mem_map.mp member
    exact kept both found

theorem dataValid_of_recordFromRow {row : List Bytes}
    (made : recordFromRow primitives index row = .ok record) :
    DataValid primitives.chain record := by
  simp only [recordFromRow, bind_eq_ok, guard_eq_ok] at made
  obtain ⟨-, sequence, -, time, -, checked, made⟩ := made
  rw [← Except.ok.inj made]
  by_cases empty : row.getD 8 [] = []
  · exact Or.inl empty
  · refine Or.inr ?_
    by_contra invalid
    exact checked ⟨empty, Bool.eq_false_iff.mpr invalid⟩

theorem dataValid_of_recordsFromRows {rows : List (List Bytes)} {records : List Record}
    (made : recordsFromRows primitives index rows = .ok records) :
    ∀ record ∈ records, DataValid primitives.chain record := by
  induction rows generalizing index records with
  | nil =>
      rw [← Except.ok.inj made]
      exact fun record member => absurd member List.not_mem_nil
  | cons row rest ih =>
      obtain ⟨record, record_eq, made⟩ := bind_eq_ok.mp made
      obtain ⟨others, others_eq, made⟩ := bind_eq_ok.mp made
      rw [← Except.ok.inj made]
      exact List.forall_mem_cons.mpr
        ⟨dataValid_of_recordFromRow record_eq, ih others_eq⟩

theorem data_of_recordFromNDJSON {value : NDJSONRecord}
    (made : recordFromNDJSON primitives value = .ok record) :
    record.data = value.data := by
  obtain ⟨time, -, made⟩ := bind_eq_ok.mp made
  rw [← Except.ok.inj made]

variable {format : Format}
variable {raw tsaRootDER : Bytes}
variable {tolerance : Int}
variable {records : List Record}
variable {proof : Trailer}

theorem head_of_verifyChain
    (verified : verifyChain primitives records proof tsaRootDER tolerance = .ok ()) :
    (sealFrom primitives.chain proof.prevHash records).2 = proof.chainHead := by
  unfold verifyChain at verified
  simp only at verified
  split at verified
  · cases verified
  · simp only [bind_eq_ok, guard_eq_ok] at verified
    obtain ⟨heads, -⟩ := verified
    by_contra different
    exact heads (Or.inl different)

variable [DecidableEq Seconds]

theorem dataValid_of_decodeStreamRecord
    (made : decodeStreamRecord primitives raw format = .ok record) :
    DataValid primitives.chain record := by
  cases format with
  | csv => cases made
  | ndjson =>
      obtain ⟨value, value_eq, made⟩ := bind_eq_ok.mp made
      unfold DataValid
      rw [data_of_recordFromNDJSON made]
      exact primitives.ndjsonData raw value value_eq
  | splunkHEC =>
      simp only [decodeStreamRecord, bind_eq_ok, guard_eq_ok] at made
      obtain ⟨value, value_eq, decoded, decoded_eq, -, made⟩ := made
      obtain rfl := Except.ok.inj made
      unfold DataValid
      rw [data_of_recordFromNDJSON decoded_eq]
      exact primitives.splunkData raw value value_eq
  | sentinel =>
      obtain ⟨value, value_eq, made⟩ := bind_eq_ok.mp made
      obtain ⟨time, -, made⟩ := bind_eq_ok.mp made
      rw [← Except.ok.inj made]
      exact primitives.sentinelData raw value value_eq

theorem dataValid_of_decodeStreamValues
    {failure : Option Bytes} {values : List Bytes} {start : List Record}
    {decoded : List Record × Trailer} (valid : ∀ record ∈ start, DataValid primitives.chain record)
    (made : decodeStreamValues primitives format failure start values = .ok decoded) :
    ∀ record ∈ decoded.1, DataValid primitives.chain record := by
  induction values generalizing start with
  | nil =>
      cases failure with
      | none => cases made
      | some error => cases made
  | cons value rest ih =>
      rw [decodeStreamValues] at made
      obtain ⟨done, -, made⟩ := bind_eq_ok.mp made
      obtain ⟨marker, -, made⟩ := bind_eq_ok.mp made
      split at made
      · obtain ⟨proof, -, made⟩ := bind_eq_ok.mp made
        rw [guard_eq_ok] at made
        obtain ⟨-, made⟩ := made
        split at made
        · cases made
        · cases made
        · rw [← Except.ok.inj made]
          exact valid
      · rw [guard_eq_ok] at made
        obtain ⟨-, made⟩ := made
        obtain ⟨record, record_eq, made⟩ := bind_eq_ok.mp made
        refine ih (fun other member => ?_) made
        rcases List.mem_append.mp member with before | last
        · exact valid other before
        · rw [List.mem_singleton.mp last]
          exact dataValid_of_decodeStreamRecord (Result.mapError_eq_ok.mp record_eq)

/-- The records of an accepted export have the texts of the artifact and valid
data, and its trailer names the head of their chain. -/
theorem chain_of_verifyExport
    (accepted : verifyExport primitives format raw tsaRootDER tolerance = .ok (records, proof)) :
    artifactTexts primitives format raw = .ok (records.map Record.texts) ∧
      (∀ record ∈ records, DataValid primitives.chain record) ∧
      (sealFrom primitives.chain proof.prevHash records).2 = proof.chainHead := by
  unfold artifactTexts
  unfold verifyExport at accepted
  split at accepted
  · rename_i isCSV
    rw [if_pos isCSV]
    unfold verifyCSVArtifact at accepted
    simp only [bind_eq_ok, guard_eq_ok, Result.mapError_eq_ok] at accepted
    obtain ⟨rows, rows_eq, -, -, header, -, -, -, trailer, -, -, parsed, parsed_eq, done, chain,
      made⟩ := accepted
    obtain ⟨rfl, rfl⟩ := Prod.mk.inj (Except.ok.inj made)
    rw [rows_eq, texts_of_recordsFromRows parsed_eq]
    exact ⟨rfl, dataValid_of_recordsFromRows parsed_eq, head_of_verifyChain chain⟩
  · rename_i isStream
    rw [if_neg isStream]
    simp only [bind_eq_ok] at accepted
    obtain ⟨decoded, decoded_eq, done, verified, made⟩ := accepted
    obtain rfl := Except.ok.inj made
    simp only [verifyRecordStream, bind_eq_ok, guard_eq_ok] at verified
    obtain ⟨-, -, -, chain⟩ := verified
    rw [decoded_eq]
    exact ⟨rfl,
      dataValid_of_decodeStreamValues (fun record member => absurd member List.not_mem_nil)
      decoded_eq, head_of_verifyChain chain⟩

/-- Two accepted exports with the same number of records between the same heads
hold the same records exactly when no text of the first artifact that is not
valid UTF-8 differs in the second. -/
theorem verifyExport_sameRecords_iff
    {otherFormat : Format} {otherRaw otherRootDER : Bytes} {otherTolerance : Int}
    {others : List Record} {otherProof : Trailer}
    (accepted : verifyExport primitives format raw tsaRootDER tolerance = .ok (records, proof))
    (otherAccepted : verifyExport primitives otherFormat otherRaw otherRootDER otherTolerance =
      .ok (others, otherProof))
    (binds : Hash.Binds primitives.chain.sha256Sum
      {text | text ∈ sealInputs primitives.chain proof.prevHash records})
    (counts : records.length = others.length)
    (prevHashes : proof.prevHash = otherProof.prevHash)
    (chainHeads : proof.chainHead = otherProof.chainHead) :
    List.Forall₂ SameRecord records others ↔
      ArtifactTextsKept primitives format otherFormat raw otherRaw := by
  obtain ⟨texts_eq, valid, head⟩ := chain_of_verifyExport accepted
  obtain ⟨otherTexts_eq, otherValid, otherHead⟩ := chain_of_verifyExport otherAccepted
  have heads := head.trans (chainHeads.trans otherHead.symm)
  obtain ⟨-, cores⟩ := Auditchain.coreTexts_eq_of_head_eq counts (congrArg List.length prevHashes)
    valid otherValid binds heads
  rw [Auditchain.sameRecords_iff cores, artifactTextsKept_iff texts_eq otherTexts_eq]

end Accepted

/-- The time of the record of the example, at the start of 2024. -/
def exportTime : Time :=
  ⟨63839664000000000000⟩

/-- The head of the example. -/
def exportHead : Bytes :=
  Go.hexEncode (Hash.digestOf 0)

/-- A record with a given identifier. -/
def exportRecord (id : Bytes) : Record where
  sequence := 1
  id := id
  type := bytes "cert.issued"
  tenantID := bytes "t"
  time := exportTime
  actor := none
  data := []
  hash := exportHead

/-- The trailer of the example. -/
def exportTrailer : Trailer where
  kind := bytes "chain_trailer"
  prevHash := []
  chainHead := exportHead
  count := 1
  anchor :=
    { kind := kindRFC3161
      chainHead := exportHead
      anchoredAt := exportTime
      token := some ⟨exportTime, bytes "token"⟩ }

/-- The JSON of the trailer. -/
def exportTrailerText : Bytes :=
  Go.jsonObject [
    jsonPair "trstctl_record" (Go.jsonString (bytes "chain_trailer")),
    jsonPair "prev_hash" (Go.jsonString []),
    jsonPair "chain_head" (Go.jsonString exportHead),
    jsonPair "count" (Go.decimal 1),
    jsonPair "anchor" (Go.jsonObject [
      jsonPair "kind" (Go.jsonString kindRFC3161),
      jsonPair "chain_head" (Go.jsonString exportHead),
      jsonPair "anchored_at" (Go.jsonString exportTime.format),
      jsonPair "token" (Go.jsonObject [
        jsonPair "info" (Go.jsonObject [
          jsonPair "gen_time" (Go.jsonString exportTime.format)]),
        jsonPair "der" (Go.jsonBytes (bytes "token"))])])]

/-- The rows of the export of a record with a given identifier. -/
def exportRows (id : Bytes) : List (List Bytes) :=
  [csvColumns,
    [bytes "1", id, bytes "cert.issued", bytes "t", exportTime.format, [], [], exportHead, [], [],
      []],
    List.replicate 9 [] ++ [bytes "chain_trailer", exportTrailerText]]

/-- A CSV text with every field in quotes. -/
def csvText (rows : List (List Bytes)) : Bytes :=
  rows.flatMap fun row =>
    ((row.map fun field => [0x22] ++ field.flatMap (fun byte =>
      if byte = 0x22 then [0x22, 0x22] else [byte]) ++ [0x22]).intersperse (bytes ",")).flatten ++
        bytes "\n"

theorem of_throw_eq_ok {Value : Type} {error : Bytes} {value : Value} {conclusion : Prop}
    (thrown : (throw error : Except Bytes Value) = .ok value) :
    conclusion := by
  cases thrown

/-- Primitives that read the exports of two identifiers, with a hash that
binds the text of the first record. -/
def exportPrimitives (id other : Bytes) : ExportPrimitives Unit where
  series :=
    { sha256Sum := Hash.numbering [Auditchain.coreText (exportRecord id)]
      verifyToken := fun _ _ _ => pure ()
      decodeAnchored := fun _ => throw (bytes "no anchors") }
  jsonValid _ := false
  readCSV raw := if raw = csvText (exportRows id) then pure (exportRows id)
      else pure (exportRows other)
  parseUint _ := pure 1
  parseTime _ := pure exportTime
  unixSeconds _ := ()
  decodeValues _ := ([], none)
  rejectDuplicateJSONKeys _ := pure ()
  recordMarker _ := pure []
  decodeTrailer _ := pure exportTrailer
  decodeNDJSON _ := throw (bytes "no records")
  decodeSplunk _ := throw (bytes "no records")
  decodeSentinel _ := throw (bytes "no records")
  ndjsonData _ _ thrown := of_throw_eq_ok thrown
  splunkData _ _ thrown := of_throw_eq_ok thrown
  sentinelData _ _ thrown := of_throw_eq_ok thrown

/-- Primitives for the exports of two identifiers that are not valid UTF-8. -/
def invalidPrimitives : ExportPrimitives Unit :=
  exportPrimitives [0xFF] [0xFE]

theorem verifyExport_first :
    verifyExport invalidPrimitives .csv (csvText (exportRows [0xFF])) (bytes "root") 0 =
      .ok ([exportRecord [0xFF]], exportTrailer) := by
  decide +kernel

theorem verifyExport_second :
    verifyExport invalidPrimitives .csv (csvText (exportRows [0xFE])) (bytes "root") 0 =
      .ok ([exportRecord [0xFE]], exportTrailer) := by
  decide +kernel

theorem binds_invalidPrimitives :
    Hash.Binds invalidPrimitives.chain.sha256Sum
      {text | text ∈ sealInputs invalidPrimitives.chain exportTrailer.prevHash
        [exportRecord [0xFF]]} :=
  Hash.numbering_binds [Auditchain.coreText (exportRecord [0xFF])] (by decide)

/-- Two CSV exports with identifiers that are not valid UTF-8 are accepted with
one head and hold different records. -/
theorem verifyExport_accepts_different_records :
    ¬ ∀ (Seconds : Type) [DecidableEq Seconds] (primitives : ExportPrimitives Seconds)
        (format otherFormat : Format) (raw otherRaw tsaRootDER otherRootDER : Bytes)
        (tolerance otherTolerance : Int) (records others : List Record)
        (proof otherProof : Trailer),
      verifyExport primitives format raw tsaRootDER tolerance = .ok (records, proof) →
      verifyExport primitives otherFormat otherRaw otherRootDER otherTolerance =
        .ok (others, otherProof) →
      Hash.Binds primitives.chain.sha256Sum
        {text | text ∈ sealInputs primitives.chain proof.prevHash records} →
      records.length = others.length →
      proof.prevHash = otherProof.prevHash →
      proof.chainHead = otherProof.chainHead →
      List.Forall₂ SameRecord records others := by
  intro claim
  have same := claim Unit invalidPrimitives _ _ _ _ _ _ _ _ _ _ _ _ verifyExport_first
    verifyExport_second binds_invalidPrimitives rfl rfl rfl
  have ids := (List.forall₂_cons.mp same).1.id
  exact absurd ids (by decide)

/-- The theorem on exports, at the two exports. -/
theorem verifyExport_sameRecords_iff_invalid :
    List.Forall₂ SameRecord [exportRecord [0xFF]] [exportRecord [0xFE]] ↔
      ArtifactTextsKept invalidPrimitives .csv .csv (csvText (exportRows [0xFF]))
        (csvText (exportRows [0xFE])) :=
  verifyExport_sameRecords_iff verifyExport_first verifyExport_second binds_invalidPrimitives rfl
    rfl rfl

end Trstctl.Auditanchor

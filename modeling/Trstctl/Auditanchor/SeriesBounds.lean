import Trstctl.Auditanchor.Series

/-!
# What an accepted anchor series bounds

The two sweeps of `VerifySeries` move over the anchors in step.  What they
establish at one record is carried to every later one by the latest anchor that
lies behind it, so neither the order of the anchors in time nor the order of the
sequence numbers matters.
-/

namespace Trstctl.Auditanchor

open Go (Bytes Time bytes)
open Result (bind_eq_ok guard_eq_ok)
open Auditchain (Record)

section Anchors

variable {primitives : SeriesPrimitives}

/-- What an anchor record attests: the last sequence number it covers, and the
time of its token. -/
structure Attestation where
  throughSequence : UInt64
  time : Time

/-- The attestation of an anchor record, if it has one. -/
def attestation (primitives : SeriesPrimitives) (record : Record) : Option Attestation := do
  let event ← (primitives.decodeAnchored record.data).toOption
  let token ← event.anchor.token
  some ⟨event.throughSequence, token.genTime⟩

def SeriesAnchor.attested (anchor : SeriesAnchor) : Attestation :=
  ⟨anchor.payload.throughSequence, anchor.time⟩

theorem attestation_of_readAnchor
    {tsaRootDER : Bytes} {skew : Int} {record : Record} {anchor : SeriesAnchor}
    (read : readAnchor primitives tsaRootDER skew record = .ok anchor) :
    attestation primitives record = some anchor.attested := by
  obtain ⟨payload, decoded, read⟩ := bind_eq_ok.mp read
  have decoded_eq := Result.mapError_eq_ok.mp decoded
  rw [guard_eq_ok] at read
  obtain ⟨-, read⟩ := read
  cases token_eq : payload.anchor.token with
  | none =>
      rw [token_eq] at read
      cases read
  | some token =>
      simp only [token_eq, bind_eq_ok, guard_eq_ok] at read
      obtain ⟨-, -, -, -, made⟩ := read
      rw [← Except.ok.inj made]
      simp [attestation, decoded_eq, token_eq, SeriesAnchor.attested, Except.toOption]

theorem anchorRecords_cons (record : Record) (rest : List Record) :
    anchorRecords (record :: rest) =
      if record.type = eventTypeAnchored then record :: anchorRecords rest
      else anchorRecords rest := by
  simp only [anchorRecords, List.filter_cons, beq_iff_eq]

theorem anchors_of_foldlM
    {window : Window} {tsaRootDER : Bytes} {skew : Int} {records : List Record}
    {start scan : AnchorScan}
    (scanned : records.foldlM (scanAnchor primitives window tsaRootDER skew) start = .ok scan) :
    ∃ anchors, (anchorRecords records).mapM (readAnchor primitives tsaRootDER skew) = .ok anchors ∧
      scan.anchors = start.anchors ++ anchors := by
  induction records generalizing start with
  | nil =>
      obtain rfl := Except.ok.inj scanned
      exact ⟨[], rfl, (List.append_nil _).symm⟩
  | cons record rest ih =>
      rw [List.foldlM_cons] at scanned
      obtain ⟨next, step, scanned⟩ := bind_eq_ok.mp scanned
      obtain ⟨anchors, read, anchors_eq⟩ := ih scanned
      by_cases anchored : record.type = eventTypeAnchored
      · rw [scanAnchor, if_neg (not_not_intro anchored)] at step
        obtain ⟨anchor, anchor_eq, step⟩ := bind_eq_ok.mp step
        obtain ⟨checked, -, made⟩ := bind_eq_ok.mp step
        obtain rfl := Except.ok.inj made
        refine ⟨anchor :: anchors, ?_, ?_⟩
        · rw [anchorRecords_cons, if_pos anchored, List.mapM_cons]
          exact bind_eq_ok.mpr ⟨anchor, anchor_eq,
            bind_eq_ok.mpr ⟨anchors, read, rfl⟩⟩
        · rw [anchors_eq, List.append_assoc, List.singleton_append]
      · rw [scanAnchor, if_pos anchored] at step
        obtain rfl := Except.ok.inj step
        refine ⟨anchors, ?_, anchors_eq⟩
        rw [anchorRecords_cons, if_neg anchored]
        exact read

end Anchors

section Sweeps

theorem le_foldl_later (times : List Time) (latest : Time) :
    latest.nanoseconds ≤ (times.foldl later latest).nanoseconds ∧
      ∀ time ∈ times, time.nanoseconds ≤ (times.foldl later latest).nanoseconds := by
  induction times generalizing latest with
  | nil => exact ⟨Int.le_refl _, fun time member => absurd member List.not_mem_nil⟩
  | cons time rest ih =>
      obtain ⟨start, others⟩ := ih (later latest time)
      have bounds : latest.nanoseconds ≤ (later latest time).nanoseconds ∧
          time.nanoseconds ≤ (later latest time).nanoseconds := by
        unfold later Time.after
        split
        · simp_all
          omega
        · simp_all
      rw [List.foldl_cons]
      refine ⟨Int.le_trans bounds.1 start, List.forall_mem_cons.mpr ⟨?_, others⟩⟩
      exact Int.le_trans bounds.2 start

theorem mem_takeWhile_or_mem_dropWhile {anchors : List SeriesAnchor} {anchor : SeriesAnchor}
    (behind : SeriesAnchor → Bool) (member : anchor ∈ anchors) :
    anchor ∈ anchors.takeWhile behind ∨ anchor ∈ anchors.dropWhile behind := by
  rw [← List.mem_append, List.takeWhile_append_dropWhile]
  exact member

/-- Anchors in the order of what they cover. -/
def Ordered (anchors : List SeriesAnchor) : Prop :=
  anchors.Pairwise fun first second =>
    first.payload.throughSequence ≤ second.payload.throughSequence

theorem le_throughSequence_of_mem_dropWhile {anchors : List SeriesAnchor}
    (ordered : Ordered anchors) {sequence : UInt64} {anchor : SeriesAnchor}
    (member : anchor ∈ anchors.dropWhile (misses sequence)) :
    sequence ≤ anchor.payload.throughSequence := by
  induction anchors with
  | nil => cases member
  | cons first rest ih =>
      obtain ⟨heads, tails⟩ := List.pairwise_cons.mp ordered
      by_cases missed : misses sequence first = true
      · rw [List.dropWhile_cons_of_pos missed] at member
        exact ih tails member
      · rw [List.dropWhile_cons_of_neg missed] at member
        have covers : sequence ≤ first.payload.throughSequence := by
          simpa [misses] using missed
        rcases List.mem_cons.mp member with rfl | member
        · exact covers
        · exact UInt64.le_trans covers (heads anchor member)

/-- What the sweeps establish for a record behind `latestBefore` and the
anchors ahead. -/
structure Bounded (policy : SeriesPolicy) (exportAnchoredAt latestBefore : Time)
    (ahead : List SeriesAnchor) (record : Record) : Prop where
  after_latest : 0 < latestBefore.nanoseconds →
    latestBefore.nanoseconds - policy.tolerance ≤ record.time.nanoseconds
  after_missed : ∀ anchor ∈ ahead, anchor.payload.throughSequence < record.sequence →
    anchor.time.nanoseconds - policy.tolerance ≤ record.time.nanoseconds
  covered : record.type ≠ eventTypeAnchored →
    (∃ anchor ∈ ahead, record.sequence ≤ anchor.payload.throughSequence ∧
        anchor.time.nanoseconds ≤ record.time.nanoseconds + (policy.cadence + policy.tolerance)) ∨
      (∀ anchor ∈ ahead, anchor.payload.throughSequence < record.sequence ∨
        anchor.time.nanoseconds - policy.tolerance ≤ record.time.nanoseconds) ∧
        exportAnchoredAt.isZero = false ∧
        exportAnchoredAt.nanoseconds ≤
          record.time.nanoseconds + (policy.cadence + policy.tolerance)

theorem le_of_sub_le {time dated : Time} {bound : Int} (short : bound < Time.maxDuration)
    (waited : time.sub dated ≤ bound) :
    time.nanoseconds ≤ dated.nanoseconds + bound := by
  unfold Time.sub at waited
  unfold Time.maxDuration at *
  omega

theorem durationSum_eq {first second : Int} (positive : 0 < first) (otherPositive : 0 < second)
    (short : first + second < Time.maxDuration) :
    Go.durationSum first second = first + second := by
  unfold Go.durationSum
  unfold Time.maxDuration at short
  omega

theorem SeriesPolicy.tolerance_pos (policy : SeriesPolicy) : 0 < policy.tolerance := by
  unfold SeriesPolicy.tolerance defaultSeriesSkew Time.second
  split
  · decide
  · omega

variable {policy : SeriesPolicy}
variable {exportAnchoredAt : Time}

theorem coveredAt_of_checkCoverage (enforced : 0 < policy.cadence)
    (short : policy.cadence + policy.tolerance < Time.maxDuration)
    {all ahead : List SeriesAnchor} {longest longest' : Int} {record : Record} {rest : List Record}
    (checked : checkCoverage policy exportAnchoredAt all ahead longest (record :: rest) =
      .ok longest') :
    (∃ longest, checkCoverage policy exportAnchoredAt all
        (ahead.dropWhile (misses record.sequence)) longest rest = .ok longest') ∧
      (record.type ≠ eventTypeAnchored →
        ∃ time, coveredAt exportAnchoredAt (ahead.dropWhile (misses record.sequence)) = some time ∧
          time.nanoseconds ≤ record.time.nanoseconds + (policy.cadence + policy.tolerance)) := by
  rw [checkCoverage] at checked
  simp only at checked
  split at checked
  · rename_i anchored
    exact ⟨⟨longest, checked⟩, fun different => absurd anchored different⟩
  · split at checked
    · cases checked
    · rename_i time covered
      rw [guard_eq_ok] at checked
      obtain ⟨inTime, checked⟩ := checked
      refine ⟨⟨_, checked⟩, fun _ => ⟨time, covered, le_of_sub_le short ?_⟩⟩
      rw [durationSum_eq enforced policy.tolerance_pos short] at inTime
      exact Int.not_lt.mp fun late => inTime ⟨enforced, late⟩

/-- The latest anchor time once the sweep has come to a record. -/
def latestAt (latestBefore : Time) (ahead : List SeriesAnchor) (record : Record) : Time :=
  ((ahead.takeWhile (misses record.sequence)).map SeriesAnchor.time).foldl later latestBefore

theorem le_latestAt (latestBefore : Time) (ahead : List SeriesAnchor) (record : Record) :
    latestBefore.nanoseconds ≤ (latestAt latestBefore ahead record).nanoseconds ∧
      ∀ anchor ∈ ahead.takeWhile (misses record.sequence),
        anchor.time.nanoseconds ≤ (latestAt latestBefore ahead record).nanoseconds := by
  obtain ⟨fromStart, fromBehind⟩ := le_foldl_later
    ((ahead.takeWhile (misses record.sequence)).map SeriesAnchor.time) latestBefore
  exact ⟨fromStart, fun anchor member => fromBehind _ (List.mem_map_of_mem member)⟩

variable {ahead : List SeriesAnchor}
variable {latestBefore : Time}

/-- A record that both sweeps pass is bounded. -/
theorem bounded_first (ordered : Ordered ahead)
    (dated : ∀ anchor ∈ ahead, 0 < anchor.time.nanoseconds) {record : Record}
    (notBackDated : ¬ ((latestAt latestBefore ahead record).isZero = false ∧
      record.time.before ((latestAt latestBefore ahead record).add (-policy.tolerance)) = true))
    (covered : record.type ≠ eventTypeAnchored →
      ∃ time, coveredAt exportAnchoredAt (ahead.dropWhile (misses record.sequence)) = some time ∧
        time.nanoseconds ≤ record.time.nanoseconds + (policy.cadence + policy.tolerance)) :
    Bounded policy exportAnchoredAt latestBefore ahead record := by
  obtain ⟨fromStart, fromBehind⟩ := le_latestAt latestBefore ahead record
  have afterLatest : 0 < (latestAt latestBefore ahead record).nanoseconds →
      (latestAt latestBefore ahead record).nanoseconds - policy.tolerance ≤
        record.time.nanoseconds := by
    intro positive
    by_contra early
    refine notBackDated ⟨beq_false_of_ne (Int.ne_of_gt positive), decide_eq_true ?_⟩
    simp only [Time.add]
    omega
  have missed : ∀ anchor ∈ ahead, anchor.payload.throughSequence < record.sequence →
      anchor ∈ ahead.takeWhile (misses record.sequence) := by
    intro anchor member before
    refine (mem_takeWhile_or_mem_dropWhile _ member).resolve_right fun after => ?_
    exact absurd before (UInt64.not_lt.mpr (le_throughSequence_of_mem_dropWhile ordered after))
  refine ⟨fun positive => ?_, fun anchor member before => ?_, fun different => ?_⟩
  · have := afterLatest (by omega)
    omega
  · have latest := fromBehind anchor (missed anchor member before)
    have := afterLatest (Int.lt_of_lt_of_le (dated anchor member) latest)
    omega
  · obtain ⟨time, time_eq, inTime⟩ := covered different
    cases rest_eq : ahead.dropWhile (misses record.sequence) with
    | cons anchor rest =>
        rw [rest_eq] at time_eq
        obtain rfl := Option.some.inj time_eq
        have member : anchor ∈ ahead.dropWhile (misses record.sequence) := by
          rw [rest_eq]
          exact List.mem_cons_self
        exact Or.inl ⟨anchor, (List.dropWhile_sublist _).subset member,
          le_throughSequence_of_mem_dropWhile ordered member, inTime⟩
    | nil =>
        rw [rest_eq, coveredAt] at time_eq
        split at time_eq
        · cases time_eq
        · rename_i nonzero
          obtain rfl := Option.some.inj time_eq
          refine Or.inr ⟨fun anchor member => Or.inl ?_, by simpa using nonzero, inTime⟩
          have behind : anchor ∈ ahead.takeWhile (misses record.sequence) :=
            (mem_takeWhile_or_mem_dropWhile _ member).resolve_right fun after => by
              rw [rest_eq] at after
              cases after
          have missed := List.mem_takeWhile_imp behind
          exact of_decide_eq_true missed

/-- A record that is bounded after the step of an earlier one is bounded before
it. -/
theorem Bounded.step (dated : ∀ anchor ∈ ahead, 0 < anchor.time.nanoseconds) {first record : Record}
    (bounded : Bounded policy exportAnchoredAt (latestAt latestBefore ahead first)
      (ahead.dropWhile (misses first.sequence)) record) :
    Bounded policy exportAnchoredAt latestBefore ahead record := by
  obtain ⟨fromStart, fromBehind⟩ := le_latestAt latestBefore ahead first
  -- Anchors that the step leaves behind are no later than the latest one.
  have afterBehind : ∀ anchor ∈ ahead.takeWhile (misses first.sequence),
      anchor.time.nanoseconds - policy.tolerance ≤ record.time.nanoseconds := by
    intro anchor behind
    have latest := fromBehind anchor behind
    have positive := dated anchor ((List.takeWhile_sublist _).subset behind)
    have := bounded.after_latest (Int.lt_of_lt_of_le positive latest)
    omega
  refine ⟨fun positive => ?_, fun anchor member before => ?_, fun different => ?_⟩
  · have := bounded.after_latest (Int.lt_of_lt_of_le positive fromStart)
    omega
  · rcases mem_takeWhile_or_mem_dropWhile (misses first.sequence) member with behind | after
    · exact afterBehind anchor behind
    · exact bounded.after_missed anchor after before
  · rcases bounded.covered different with ⟨anchor, member, covers, inTime⟩ | ⟨others, own⟩
    · exact Or.inl ⟨anchor, (List.dropWhile_sublist _).subset member, covers, inTime⟩
    · refine Or.inr ⟨fun anchor member => ?_, own⟩
      rcases mem_takeWhile_or_mem_dropWhile (misses first.sequence) member with behind | after
      · exact Or.inr (afterBehind anchor behind)
      · exact others anchor after

theorem bounded_of_sweeps (enforced : 0 < policy.cadence)
    (short : policy.cadence + policy.tolerance < Time.maxDuration) {all : List SeriesAnchor}
    (ordered : Ordered ahead) (dated : ∀ anchor ∈ ahead, 0 < anchor.time.nanoseconds)
    {longest longest' : Int} {records : List Record}
    (inOrder : checkOrder policy.tolerance latestBefore ahead records = .ok ())
    (covered : checkCoverage policy exportAnchoredAt all ahead longest records = .ok longest') :
    ∀ record ∈ records, Bounded policy exportAnchoredAt latestBefore ahead record := by
  induction records generalizing ahead latestBefore longest with
  | nil => exact fun record member => absurd member List.not_mem_nil
  | cons first rest ih =>
      rw [checkOrder] at inOrder
      simp only [guard_eq_ok] at inOrder
      obtain ⟨notBackDated, restInOrder⟩ := inOrder
      obtain ⟨⟨restLongest, restCovered⟩, firstCovered⟩ :=
        coveredAt_of_checkCoverage enforced short covered
      have kept : (ahead.dropWhile (misses first.sequence)).Sublist ahead :=
        List.dropWhile_sublist _
      have others := ih (ordered.sublist kept)
        (fun anchor member => dated anchor (kept.subset member))
        restInOrder restCovered
      refine List.forall_mem_cons.mpr ⟨?_, fun record member => ?_⟩
      · exact bounded_first ordered dated notBackDated firstCovered
      · exact (others record member).step dated

end Sweeps

section Series

variable (primitives : SeriesPrimitives)

/-- No record after what an anchor covers is dated before the anchor, up to the
tolerance. -/
def OrderBounded (records : List Record) (skew : Int) : Prop :=
  ∀ anchor ∈ anchorRecords records, ∃ attested, attestation primitives anchor = some attested ∧
    ∀ record ∈ records, attested.throughSequence < record.sequence →
      attested.time.nanoseconds - skew ≤ record.time.nanoseconds

/-- Every other record is covered by an anchor that is dated within a bound
after it or, past the last one, by the export's own anchor. -/
def CoverageBounded (records : List Record) (exportAnchoredAt : Time) (bound : Int) : Prop :=
  ∀ record ∈ records, record.type ≠ eventTypeAnchored →
    (∃ anchor ∈ anchorRecords records, ∃ attested, attestation primitives anchor = some attested ∧
        record.sequence ≤ attested.throughSequence ∧
        attested.time.nanoseconds ≤ record.time.nanoseconds + bound) ∨
      (∀ anchor ∈ anchorRecords records, ∀ attested, attestation primitives anchor = some attested →
        attested.throughSequence < record.sequence) ∧
        exportAnchoredAt.isZero = false ∧
        exportAnchoredAt.nanoseconds ≤ record.time.nanoseconds + bound

/-- Every anchor is dated after the zero time. -/
def AnchorsDated (records : List Record) : Prop :=
  ∀ anchor ∈ anchorRecords records, ∀ attested, attestation primitives anchor = some attested →
    0 < attested.time.nanoseconds

variable {primitives}
variable {records : List Record}
variable {prevHash tsaRootDER : Bytes}
variable {fullChain : Bool}
variable {exportAnchoredAt : Time}
variable {policy : SeriesPolicy}
variable {result : SeriesResult}

theorem sweeps_of_verifySeries
    (accepted : verifySeries primitives records prevHash fullChain exportAnchoredAt tsaRootDER
      policy = .ok result)
    (enforced : 0 < policy.cadence) :
    records = [] ∨ ∃ anchors longest,
      (anchorRecords records).mapM (readAnchor primitives tsaRootDER policy.tolerance) =
        .ok anchors ∧
      checkOrder policy.tolerance Time.zero (byCoverage anchors) records = .ok () ∧
      checkCoverage policy exportAnchoredAt (byCoverage anchors) (byCoverage anchors) 0 records =
        .ok longest := by
  cases records with
  | nil => exact Or.inl rfl
  | cons first rest =>
      right
      rw [verifySeries] at accepted
      simp only at accepted
      split at accepted
      · cases accepted
      · split at accepted
        · cases accepted
        · obtain ⟨scan, scanned, accepted⟩ := bind_eq_ok.mp accepted
          obtain ⟨done, inOrder, accepted⟩ := bind_eq_ok.mp accepted
          obtain ⟨longest, covered, -⟩ := bind_eq_ok.mp accepted
          obtain ⟨anchors, read, anchors_eq⟩ := anchors_of_foldlM scanned
          rw [List.nil_append] at anchors_eq
          rw [anchors_eq] at inOrder covered
          exact ⟨anchors, longest, read, inOrder, covered⟩

theorem ordered_byCoverage (anchors : List SeriesAnchor) : Ordered (byCoverage anchors) :=
  List.pairwise_insertionSort _ anchors

theorem mem_byCoverage {anchors : List SeriesAnchor} {anchor : SeriesAnchor} :
    anchor ∈ byCoverage anchors ↔ anchor ∈ anchors :=
  (List.perm_insertionSort _ anchors).mem_iff

/-- An accepted series with a cadence bounds the time of every record. -/
theorem verifySeries_bounds
    (accepted : verifySeries primitives records prevHash fullChain exportAnchoredAt tsaRootDER
      policy = .ok result)
    (enforced : 0 < policy.cadence)
    (short : policy.cadence + policy.tolerance < Time.maxDuration)
    (dated : AnchorsDated primitives records) :
    OrderBounded primitives records policy.tolerance ∧
      CoverageBounded primitives records exportAnchoredAt (policy.cadence + policy.tolerance) := by
  rcases sweeps_of_verifySeries accepted enforced with
    rfl | ⟨anchors, longest, read, inOrder, covered⟩
  · exact ⟨fun anchor member => absurd member List.not_mem_nil,
      fun record member => absurd member List.not_mem_nil⟩
  have ofAnchor : ∀ anchor ∈ byCoverage anchors, ∃ record ∈ anchorRecords records,
      attestation primitives record = some anchor.attested := by
    intro anchor member
    obtain ⟨record, recordMember, made⟩ :=
      Result.exists_of_mem_mapM read anchor (mem_byCoverage.mp member)
    exact ⟨record, recordMember, attestation_of_readAnchor made⟩
  have ofRecord : ∀ record ∈ anchorRecords records, ∃ anchor ∈ byCoverage anchors,
      attestation primitives record = some anchor.attested := by
    intro record member
    obtain ⟨anchor, anchorMember, made⟩ := Result.exists_of_mapM_eq_ok read record member
    exact ⟨anchor, mem_byCoverage.mpr anchorMember, attestation_of_readAnchor made⟩
  have anchorsDated : ∀ anchor ∈ byCoverage anchors, 0 < anchor.time.nanoseconds := by
    intro anchor member
    obtain ⟨record, recordMember, attested⟩ := ofAnchor anchor member
    exact dated record recordMember _ attested
  have bounded := bounded_of_sweeps enforced short (ordered_byCoverage anchors) anchorsDated
    inOrder covered
  refine ⟨fun anchor member => ?_, fun record member different => ?_⟩
  · obtain ⟨read, readMember, attested⟩ := ofRecord anchor member
    exact ⟨read.attested, attested, fun record recordMember before =>
      (bounded record recordMember).after_missed read readMember before⟩
  · rcases (bounded record member).covered different with
      ⟨anchor, anchorMember, covers, inTime⟩ | ⟨others, own⟩
    · obtain ⟨source, sourceMember, attested⟩ := ofAnchor anchor anchorMember
      exact Or.inl ⟨source, sourceMember, _, attested, covers, inTime⟩
    · by_cases past : ∀ anchor ∈ byCoverage anchors,
          anchor.payload.throughSequence < record.sequence
      · refine Or.inr ⟨fun source sourceMember attested attested_eq => ?_, own⟩
        obtain ⟨anchor, anchorMember, read⟩ := ofRecord source sourceMember
        obtain rfl := Option.some.inj (attested_eq.symm.trans read)
        exact past anchor anchorMember
      · -- A record whose sequence number starts over lies behind an anchor that covers it.
        simp only [not_forall] at past
        obtain ⟨anchor, anchorMember, covers⟩ := past
        obtain ⟨source, sourceMember, attested⟩ := ofAnchor anchor anchorMember
        have inTime := (others anchor anchorMember).resolve_left covers
        refine Or.inl ⟨source, sourceMember, _, attested, UInt64.not_lt.mp covers, ?_⟩
        change anchor.time.nanoseconds ≤ _
        omega

end Series

/-- The time of the first record of the example, in the year 1700. -/
def recordTime : Time :=
  ⟨53616000 * 1000 * Time.second⟩

/-- The event of an anchor over the first record, some time after it. -/
def anchoredAfter (wait : Int) : AnchoredEvent where
  throughSequence := 1
  cadenceSeconds := 3600
  anchor :=
    { kind := kindRFC3161
      chainHead := bytes "head"
      anchoredAt := recordTime.add wait
      token := some ⟨recordTime.add wait, bytes "token"⟩ }

def anchoredExport (wait : Int) : List Record :=
  [⟨1, bytes "1", bytes "cert.issued", bytes "t", recordTime, none, bytes "data", bytes "head"⟩,
    ⟨2, bytes "2", eventTypeAnchored, bytes "t", recordTime.add wait, none, bytes "event",
      bytes "next"⟩]

/-- Primitives that take every token and decode the event of the anchor. -/
def anchoredPrimitives (wait : Int) : SeriesPrimitives where
  sha256Sum text := text
  verifyToken _ _ _ := pure ()
  decodeAnchored _ := pure (anchoredAfter wait)

/-- What the check reports of the export. -/
def anchoredResult (wait : Int) (policy : SeriesPolicy) : SeriesResult where
  applicable := true
  reason := []
  anchors := 1
  verified := 1
  beforeWindow := 0
  supersededByErasure := 0
  firstAnchoredAt := recordTime.add wait
  lastAnchoredAt := recordTime.add wait
  longestCoverageSeconds := ((recordTime.add wait).sub recordTime).tdiv Time.second
  cadenceSeconds := policy.cadence.tdiv Time.second
  skewSeconds := policy.tolerance.tdiv Time.second
  tokens := [⟨recordTime.add wait, bytes "token"⟩]

theorem anchorsDated_anchoredExport {wait : Int} (forward : 0 ≤ wait) :
    AnchorsDated (anchoredPrimitives wait) (anchoredExport wait) := by
  rintro anchor - attested attested_eq
  have read : attestation (anchoredPrimitives wait) anchor = some ⟨1, recordTime.add wait⟩ := rfl
  obtain rfl := Option.some.inj (attested_eq.symm.trans read)
  have positive : 0 < recordTime.nanoseconds := by decide
  change 0 < recordTime.nanoseconds + wait
  omega

/-- A cadence and a tolerance that add up to the longest duration accept every
wait, since no difference of times is longer. -/
theorem verifySeries_accepts_longest_wait :
    ¬ ∀ (primitives : SeriesPrimitives) (records : List Record) (prevHash : Bytes)
        (exportAnchoredAt : Time) (tsaRootDER : Bytes) (policy : SeriesPolicy)
        (result : SeriesResult),
      verifySeries primitives records prevHash true exportAnchoredAt tsaRootDER policy =
        .ok result →
      0 < policy.cadence →
      policy.cadence + policy.tolerance ≤ Time.maxDuration →
      AnchorsDated primitives records →
      OrderBounded primitives records policy.tolerance ∧
        CoverageBounded primitives records exportAnchoredAt
          (policy.cadence + policy.tolerance) := by
  intro claim
  have bounds := claim (anchoredPrimitives (2 ^ 63)) (anchoredExport (2 ^ 63)) [] Time.zero
    (bytes "root") ⟨Time.maxDuration - defaultSeriesSkew, 0⟩
    (anchoredResult (2 ^ 63) ⟨Time.maxDuration - defaultSeriesSkew, 0⟩)
    (by decide +kernel) (by decide) (by decide)
    (anchorsDated_anchoredExport (by decide))
  rcases bounds.2 _ List.mem_cons_self (by decide) with
    ⟨anchor, -, attested, attested_eq, -, inTime⟩ | ⟨-, zero, -⟩
  · have read : attestation (anchoredPrimitives (2 ^ 63)) anchor =
        some ⟨1, recordTime.add (2 ^ 63)⟩ := rfl
    obtain rfl := Option.some.inj (attested_eq.symm.trans read)
    exact absurd inTime (by decide)
  · exact absurd zero (by decide)

/-- The theorem on series, at an anchor taken within the hour. -/
theorem verifySeries_bounds_anchoredExport :
    OrderBounded (anchoredPrimitives Time.second) (anchoredExport Time.second) (300 * Time.second) ∧
      CoverageBounded (anchoredPrimitives Time.second) (anchoredExport Time.second) Time.zero
        (3600 * Time.second + 300 * Time.second) :=
  verifySeries_bounds (show verifySeries (anchoredPrimitives Time.second)
      (anchoredExport Time.second) [] true Time.zero (bytes "root") ⟨3600 * Time.second, 0⟩ =
        .ok (anchoredResult Time.second ⟨3600 * Time.second, 0⟩) by decide +kernel)
    (by decide) (by decide) (anchorsDated_anchoredExport (by decide))

end Trstctl.Auditanchor

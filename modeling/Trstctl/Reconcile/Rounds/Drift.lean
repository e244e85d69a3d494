import Trstctl.Go.Time
import Trstctl.Go.Trim
import Trstctl.Library.Sorting
import Trstctl.Reconcile.Quarantine.Completion

/-!
# Drift

`DriftProjection` (`internal/reconcile/rounds/drift.go`) folds the witnesses
and completions of all tenants into one state, from which each tenant is shown
its own part.  `json.Unmarshal` of the two payloads and the conversion of a
duration to whole seconds are parameters.
-/

namespace Trstctl.Reconcile.Rounds

open Go (Bytes bytes trimSpace Time MapOf)
open Sorting (thenBy thenBy_antisymm)
open Quarantine (Completed)
open Witness (Evidence)

/-- `eventspec.Event`, as far as it is folded. -/
structure DriftEvent where
  sequence : UInt64
  type : Bytes
  tenantID : Bytes
  time : Time
  data : Bytes

/-- `WitnessRecorded`, as far as it is folded. -/
structure WitnessRecorded where
  witnessID : Bytes
  tenantID : Bytes
  authorities : List Bytes
  evidence : Evidence

/-- The decoders of the two payloads, and the whole seconds of a duration. -/
structure DriftPrimitives where
  recorded : Bytes → Except Bytes WitnessRecorded
  completed : Bytes → Except Bytes Completed
  seconds : Int → Int

def eventTypeWitnessRecorded : Bytes :=
  bytes "xrec.witness.recorded"

def eventTypeCompleted : Bytes :=
  bytes "xrec.reconciliation.completed"

/-- Why `Apply` refuses an event. -/
inductive DriftError where
  | replayRegressed
  | tenantMismatch
  | decode (text : Bytes)

def driftTenant (event : DriftEvent) (payloadTenant : Bytes) : Except DriftError Bytes :=
  let envelope := trimSpace event.tenantID
  let payload := trimSpace payloadTenant
  if envelope = [] then .ok payload
  else if payload ≠ [] ∧ payload ≠ envelope then .error .tenantMismatch
  else .ok envelope

def eventTime (event : DriftEvent) (unix : Int) : Time :=
  if event.time.isZero = false then event.time
  else if unix ≠ 0 then Time.unix unix
  else Time.unix 0

structure DriftCountKey where
  tenantID : Bytes
  authorityID : Bytes
  divergenceClass : Bytes
  window : Time
deriving DecidableEq

structure TenantWitnessKey where
  tenantID : Bytes
  witnessID : Bytes
deriving DecidableEq

structure OpenWitness where
  tenantID : Bytes
  witnessID : Bytes
  recordedAt : Time

structure CompletionDuration where
  tenantID : Bytes
  witnessID : Bytes
  seconds : Int
deriving DecidableEq

structure DriftProjection where
  window : Int
  watermark : UInt64
  counts : MapOf DriftCountKey Int64
  openWitnesses : MapOf TenantWitnessKey OpenWitness
  tenantWatermarks : Go.Map UInt64
  durations : List CompletionDuration

/-- `NewDriftProjection`, which takes an hour for no window. -/
def newDriftProjection (window : Int) : DriftProjection where
  window := if window ≤ 0 then 3600 * Time.second else window
  watermark := 0
  counts := []
  openWitnesses := []
  tenantWatermarks := []
  durations := []

namespace DriftProjection

/-- `p.counts[key]++`. -/
def increment (counts : MapOf DriftCountKey Int64) (key : DriftCountKey) :
    MapOf DriftCountKey Int64 :=
  counts.set key ((counts.lookup key).getD 0 + 1)

/-- The authorities of a witness: those it names, or else those of its digest
references. -/
def authoritiesOf (payload : WitnessRecorded) : List Bytes :=
  if payload.authorities = [] then
    (payload.evidence.body.digestRefs.map fun ref => trimSpace ref.authorityID).filter (· ≠ [])
  else payload.authorities

/-- The keys that the two loops of `applyWitnessRecorded` count, in their
order. -/
def countKeys (tenantID : Bytes) (window : Time) (payload : WitnessRecorded) :
    List DriftCountKey :=
  payload.evidence.body.entries.flatMap fun entry =>
    if trimSpace entry.recordClass = [] then []
    else
      (authoritiesOf payload).filterMap fun authorityID =>
        if trimSpace authorityID = [] then none
        else some ⟨tenantID, trimSpace authorityID, trimSpace entry.recordClass, window⟩

def applyWitnessRecorded (projection : DriftProjection) (event : DriftEvent)
    (payload : WitnessRecorded) : DriftProjection :=
  let tenantID := trimSpace payload.tenantID
  let witnessID := trimSpace payload.witnessID
  if tenantID = [] ∨ witnessID = [] then projection
  else
    let recordedAt := eventTime event payload.evidence.body.generatedAt
    { projection with
      openWitnesses :=
        projection.openWitnesses.set ⟨tenantID, witnessID⟩ ⟨tenantID, witnessID, recordedAt⟩
      counts := (countKeys tenantID (recordedAt.truncate projection.window) payload).foldl increment
        projection.counts }

def applyCompletion (primitives : DriftPrimitives) (projection : DriftProjection)
    (event : DriftEvent) (payload : Completed) : DriftProjection :=
  let witnessID := trimSpace payload.witnessID
  let key : TenantWitnessKey := ⟨trimSpace payload.tenantID, witnessID⟩
  match projection.openWitnesses.lookup key with
  | none => projection
  | some witness =>
      let completedAt := eventTime event payload.completedAt
      if completedAt.before witness.recordedAt then projection
      else
        { projection with
          durations := projection.durations ++
            [⟨witness.tenantID, witnessID, primitives.seconds (completedAt.sub witness.recordedAt)⟩]
          openWitnesses := projection.openWitnesses.delete key }

end DriftProjection

/-- What is read of an event: one of the two payloads, or nothing. -/
inductive DriftPayload where
  | recorded (payload : WitnessRecorded)
  | completed (payload : Completed)
  | other

/-- The payload of an event and the tenant it is attributed to. -/
def readEvent (primitives : DriftPrimitives) (event : DriftEvent) :
    Except DriftError (Bytes × DriftPayload) :=
  if event.type = eventTypeWitnessRecorded then do
    let payload ← (primitives.recorded event.data).mapError .decode
    let tenantID ← driftTenant event payload.tenantID
    pure (tenantID, .recorded { payload with tenantID := tenantID })
  else if event.type = eventTypeCompleted then do
    let payload ← (primitives.completed event.data).mapError .decode
    let tenantID ← driftTenant event payload.tenantID
    pure (tenantID, .completed { payload with tenantID := tenantID })
  else pure (trimSpace event.tenantID, .other)

namespace DriftProjection

/-- The change that a payload makes. -/
def applyPayload (primitives : DriftPrimitives) (projection : DriftProjection)
    (event : DriftEvent) : DriftPayload → DriftProjection
  | .recorded payload => projection.applyWitnessRecorded event payload
  | .completed payload => projection.applyCompletion primitives event payload
  | .other => projection

/-- The watermarks after an event. -/
def advance (projection : DriftProjection) (tenantID : Bytes) (sequence : UInt64) :
    DriftProjection :=
  { projection with
    watermark := if projection.watermark < sequence then sequence else projection.watermark
    tenantWatermarks :=
      if tenantID ≠ [] ∧ (projection.tenantWatermarks.lookup tenantID).getD 0 < sequence then
        projection.tenantWatermarks.set tenantID sequence
      else projection.tenantWatermarks }

def apply (primitives : DriftPrimitives) (projection : DriftProjection) (event : DriftEvent) :
    Except DriftError DriftProjection := do
  if event.sequence ≠ 0 ∧ event.sequence ≤ projection.watermark then
    throw .replayRegressed
  let (tenantID, payload) ← readEvent primitives event
  pure ((projection.applyPayload primitives event payload).advance tenantID event.sequence)

/-- The events, applied in order. -/
def replay (primitives : DriftPrimitives) (projection : DriftProjection)
    (events : List DriftEvent) : Except DriftError DriftProjection :=
  events.foldlM (apply primitives) projection

end DriftProjection

structure WitnessClassCount where
  tenantID : Bytes
  authorityID : Bytes
  divergenceClass : Bytes
  windowStart : Time
  count : Int64
deriving DecidableEq

/-- What a tenant sees of its drift. -/
structure DriftSnapshot where
  replayWatermark : UInt64
  witnessClassCounts : List WitnessClassCount
  completionDurations : List CompletionDuration
  openWitnesses : Nat
deriving DecidableEq

/-- The order of the counts: by tenant, window, authority and class. -/
def countBefore : WitnessClassCount → WitnessClassCount → Prop :=
  thenBy WitnessClassCount.tenantID
    (thenBy (fun count => count.windowStart.nanoseconds)
      (thenBy WitnessClassCount.authorityID fun first second =>
        first.divergenceClass ≤ second.divergenceClass))

/-- The order of the durations: by tenant and witness. -/
def durationBefore : CompletionDuration → CompletionDuration → Prop :=
  thenBy CompletionDuration.tenantID fun first second =>
    first.witnessID ≤ second.witnessID

/-- `sort.Slice`, which may put items that compare alike in any order. -/
structure SliceSort {α : Type} (before : α → α → Prop) where
  sort : List α → List α
  perm : ∀ items, (sort items).Perm items
  sorted : ∀ items, (sort items).Pairwise before

/-- The order in which the counts are ranged over, which the language leaves
open. -/
structure CountOrder where
  arrange : MapOf DriftCountKey Int64 → MapOf DriftCountKey Int64
  perm : ∀ counts, (arrange counts).Perm counts

section Snapshot

variable (sortCounts : SliceSort countBefore)
variable (sortDurations : SliceSort durationBefore)
variable (order : CountOrder)

def classCount (binding : DriftCountKey × Int64) : WitnessClassCount :=
  ⟨binding.1.tenantID, binding.1.authorityID, binding.1.divergenceClass, binding.1.window,
    binding.2⟩

def DriftProjection.snapshot (projection : DriftProjection) (tenantID : Bytes) (isScoped : Bool) :
    DriftSnapshot where
  replayWatermark :=
    if isScoped then (projection.tenantWatermarks.lookup tenantID).getD 0 else projection.watermark
  witnessClassCounts :=
    sortCounts.sort (((order.arrange projection.counts).filter fun binding =>
      !isScoped || binding.1.tenantID == tenantID).map classCount)
  completionDurations :=
    sortDurations.sort (projection.durations.filter fun duration =>
      !isScoped || duration.tenantID == tenantID)
  openWitnesses :=
    if isScoped then
      (projection.openWitnesses.filter fun binding => binding.1.tenantID == tenantID).length
    else projection.openWitnesses.length

def DriftProjection.snapshotForTenant (projection : DriftProjection) (tenantID : Bytes) :
    DriftSnapshot :=
  if trimSpace tenantID = [] then ⟨0, [], [], 0⟩
  else projection.snapshot sortCounts sortDurations order (trimSpace tenantID) true

end Snapshot

def DriftPayload.OfTenant (tenantID : Bytes) : DriftPayload → Prop
  | .recorded payload => payload.tenantID = tenantID
  | .completed payload => payload.tenantID = tenantID
  | .other => True

namespace DriftProjection

/-- The part of a projection that is one tenant's, without the global
watermark. -/
def restrict (tenantID : Bytes) (projection : DriftProjection) : DriftProjection where
  window := projection.window
  watermark := 0
  counts := projection.counts.filter fun binding => binding.1.tenantID == tenantID
  openWitnesses := projection.openWitnesses.filter fun binding => binding.1.tenantID == tenantID
  tenantWatermarks := projection.tenantWatermarks.filter fun binding => binding.1 == tenantID
  durations := projection.durations.filter fun duration => duration.tenantID == tenantID

/-- Open witnesses stand under their own tenant, and no key is counted twice. -/
structure WellFormed (projection : DriftProjection) : Prop where
  own : ∀ binding ∈ projection.openWitnesses, binding.2.tenantID = binding.1.tenantID
  distinct : (projection.counts.map Prod.fst).Nodup

variable {tenantID : Bytes}

theorem filter_increment (counts : MapOf DriftCountKey Int64) (key : DriftCountKey)
    (other : Bytes) :
    (increment counts key).filter (fun binding => binding.1.tenantID == other) =
      if key.tenantID = other then
        increment (counts.filter fun binding => binding.1.tenantID == other) key
      else counts.filter fun binding => binding.1.tenantID == other := by
  have filtered := MapOf.filter_set counts key ((counts.lookup key).getD 0 + 1)
    fun key : DriftCountKey => key.tenantID == other
  simp only [beq_iff_eq] at filtered
  rw [increment, filtered]
  split
  next own =>
    have found := MapOf.lookup_kept counts (fun key => key.tenantID == other)
      (beq_iff_eq.mpr own)
    rw [increment, found]
  next => rfl

theorem filter_foldl_increment (keys : List DriftCountKey)
    (same : ∀ key ∈ keys, key.tenantID = tenantID) (counts : MapOf DriftCountKey Int64)
    (other : Bytes) :
    (keys.foldl increment counts).filter (fun binding => binding.1.tenantID == other) =
      if tenantID = other then
        keys.foldl increment (counts.filter fun binding => binding.1.tenantID == other)
      else counts.filter fun binding => binding.1.tenantID == other := by
  induction keys generalizing counts with
  | nil => rw [List.foldl_nil, List.foldl_nil, ite_self]
  | cons key rest ih =>
      obtain ⟨own, others⟩ := List.forall_mem_cons.mp same
      rw [List.foldl_cons, List.foldl_cons, ih others, filter_increment, own]
      split
      next => rfl
      next => rfl

theorem mem_countKeys {window : Time} {payload : WitnessRecorded} {key : DriftCountKey}
    (member : key ∈ countKeys tenantID window payload) :
    key.tenantID = tenantID := by
  obtain ⟨entry, -, counted⟩ := List.mem_flatMap.mp member
  split at counted
  next => exact absurd counted List.not_mem_nil
  next =>
    obtain ⟨authorityID, -, made⟩ := List.mem_filterMap.mp counted
    split at made
    next => cases made
    next => rw [← Option.some.inj made]

theorem filter_openWitnesses_set (openWitnesses : MapOf TenantWitnessKey OpenWitness)
    (key : TenantWitnessKey) (witness : OpenWitness) (other : Bytes) :
    (openWitnesses.set key witness).filter (fun binding => binding.1.tenantID == other) =
      if key.tenantID = other then
        MapOf.set (openWitnesses.filter fun binding => binding.1.tenantID == other) key witness
      else openWitnesses.filter fun binding => binding.1.tenantID == other := by
  have filtered := MapOf.filter_set openWitnesses key witness
    fun key : TenantWitnessKey => key.tenantID == other
  simpa only [beq_iff_eq] using filtered

variable (primitives : DriftPrimitives) (event : DriftEvent)

theorem restrict_applyWitnessRecorded (tenantID : Bytes) (projection : DriftProjection)
    (payload : WitnessRecorded) :
    (projection.applyWitnessRecorded event payload).restrict tenantID =
      if trimSpace payload.tenantID = tenantID then
        (projection.restrict tenantID).applyWitnessRecorded event payload
      else projection.restrict tenantID := by
  unfold applyWitnessRecorded
  dsimp only
  by_cases blank : trimSpace payload.tenantID = [] ∨ trimSpace payload.witnessID = []
  · rw [if_pos blank, if_pos blank, ite_self]
  · rw [if_neg blank, if_neg blank]
    unfold restrict
    dsimp only
    rw [filter_openWitnesses_set, filter_foldl_increment _ fun key => mem_countKeys]
    dsimp only
    split
    next => rfl
    next => rfl

variable {projection : DriftProjection}

theorem WellFormed.tenantID_eq (wellFormed : projection.WellFormed)
    {key : TenantWitnessKey} {witness : OpenWitness}
    (found : projection.openWitnesses.lookup key = some witness) :
    witness.tenantID = key.tenantID := by
  obtain ⟨before, after, bindings, -⟩ := List.lookup_eq_some_iff.mp found
  exact wellFormed.own (key, witness) (bindings ▸ List.mem_append_right _ List.mem_cons_self)

theorem lookup_restrict (projection : DriftProjection) {key : TenantWitnessKey}
    (own : key.tenantID = tenantID) :
    (projection.restrict tenantID).openWitnesses.lookup key =
      projection.openWitnesses.lookup key :=
  MapOf.lookup_kept projection.openWitnesses
    (fun key : TenantWitnessKey => key.tenantID == tenantID) (beq_iff_eq.mpr own)

theorem restrict_close (projection : DriftProjection) (key : TenantWitnessKey)
    (duration : CompletionDuration) (same : duration.tenantID = key.tenantID) :
    restrict tenantID
        { projection with
          durations := projection.durations ++ [duration]
          openWitnesses := projection.openWitnesses.delete key } =
      if key.tenantID = tenantID then
        { projection.restrict tenantID with
          durations := (projection.restrict tenantID).durations ++ [duration]
          openWitnesses := (projection.restrict tenantID).openWitnesses.delete key }
      else projection.restrict tenantID := by
  have deleted := MapOf.filter_delete projection.openWitnesses key
    fun key : TenantWitnessKey => key.tenantID == tenantID
  split
  next own =>
    have kept : [duration].filter (fun duration => duration.tenantID == tenantID) = [duration] := by
      simp [same, own]
    simp only [restrict, List.filter_append, kept, deleted]
  next other =>
    have dropped : [duration].filter (fun duration => duration.tenantID == tenantID) = [] := by
      simp [same, other]
    have untouched : MapOf.delete (projection.openWitnesses.filter fun binding =>
        binding.1.tenantID == tenantID) key =
        projection.openWitnesses.filter fun binding => binding.1.tenantID == tenantID := by
      refine List.filter_eq_self.mpr fun binding member => bne_iff_ne.mpr ?_
      rintro rfl
      exact other (beq_iff_eq.mp (List.mem_filter.mp member).2)
    simp only [restrict, List.filter_append, dropped, List.append_nil, deleted, untouched]

theorem restrict_applyCompletion (tenantID : Bytes) (wellFormed : projection.WellFormed)
    (payload : Completed) :
    (projection.applyCompletion primitives event payload).restrict tenantID =
      if trimSpace payload.tenantID = tenantID then
        (projection.restrict tenantID).applyCompletion primitives event payload
      else projection.restrict tenantID := by
  unfold applyCompletion
  dsimp only
  cases found : projection.openWitnesses.lookup
      ⟨trimSpace payload.tenantID, trimSpace payload.witnessID⟩ with
  | none =>
      dsimp only
      split
      next own => rw [lookup_restrict projection own, found]
      next => rfl
  | some witness =>
      have same := wellFormed.tenantID_eq found
      dsimp only
      by_cases early : (eventTime event payload.completedAt).before witness.recordedAt = true
      · rw [if_pos early]
        split
        next own =>
          rw [lookup_restrict projection own, found]
          dsimp only
          rw [if_pos early]
        next => rfl
      · rw [if_neg early, restrict_close projection _ _ same]
        split
        next own =>
          rw [lookup_restrict projection own, found]
          dsimp only
          rw [if_neg early]
        next => rfl

theorem wellFormed_newDriftProjection (window : Int) : (newDriftProjection window).WellFormed where
  own := List.forall_mem_nil _
  distinct := List.nodup_nil

theorem nodup_foldl_increment (keys : List DriftCountKey) {counts : MapOf DriftCountKey Int64}
    (distinct : (counts.map Prod.fst).Nodup) :
    ((keys.foldl increment counts).map Prod.fst).Nodup := by
  induction keys generalizing counts with
  | nil => exact distinct
  | cons key rest ih =>
      exact ih (MapOf.nodup_set key _ distinct)

theorem WellFormed.applyPayload (wellFormed : projection.WellFormed) (payload : DriftPayload) :
    (projection.applyPayload primitives event payload).WellFormed := by
  cases payload with
  | recorded payload =>
      rw [DriftProjection.applyPayload, applyWitnessRecorded]
      dsimp only
      split
      next => exact wellFormed
      next =>
        refine ⟨fun binding member => ?_, nodup_foldl_increment _ wellFormed.distinct⟩
        rcases MapOf.mem_set member with rfl | earlier
        · rfl
        · exact wellFormed.own binding earlier
  | completed payload =>
      rw [DriftProjection.applyPayload, applyCompletion]
      dsimp only
      split
      next => exact wellFormed
      next =>
        split
        next => exact wellFormed
        next =>
          exact ⟨fun binding member => wellFormed.own binding (List.mem_filter.mp member).1,
            wellFormed.distinct⟩
  | other => exact wellFormed

theorem WellFormed.advance (wellFormed : projection.WellFormed) (tenantID : Bytes)
    (sequence : UInt64) :
    (projection.advance tenantID sequence).WellFormed :=
  ⟨wellFormed.own, wellFormed.distinct⟩

theorem restrict_applyPayload (wellFormed : projection.WellFormed) {other : Bytes}
    (trimmed : trimSpace other = other) {payload : DriftPayload}
    (ofTenant : payload.OfTenant other) :
    (projection.applyPayload primitives event payload).restrict tenantID =
      if other = tenantID then
        (projection.restrict tenantID).applyPayload primitives event payload
      else projection.restrict tenantID := by
  cases payload with
  | recorded payload =>
      obtain rfl : payload.tenantID = other := ofTenant
      have changed := restrict_applyWitnessRecorded event tenantID projection payload
      rwa [trimmed] at changed
  | completed payload =>
      obtain rfl : payload.tenantID = other := ofTenant
      have changed := restrict_applyCompletion primitives event tenantID wellFormed payload
      rwa [trimmed] at changed
  | other => rw [applyPayload, applyPayload, ite_self]

theorem restrict_advance (projection : DriftProjection) (other : Bytes) (sequence : UInt64) :
    (projection.advance other sequence).restrict tenantID =
      if other = tenantID then
        { (projection.restrict tenantID).advance other sequence with watermark := 0 }
      else projection.restrict tenantID := by
  have filtered := MapOf.filter_set projection.tenantWatermarks other sequence
    fun key => key == tenantID
  simp only [beq_iff_eq] at filtered
  split
  next own =>
    have found := MapOf.lookup_kept projection.tenantWatermarks (fun key => key == tenantID)
      (beq_iff_eq.mpr own)
    rw [if_pos own] at filtered
    simp only [restrict, advance, found]
    split
    next => rw [filtered]
    next => rfl
  next foreign =>
    rw [if_neg foreign] at filtered
    simp only [restrict, advance]
    split
    next => rw [filtered]
    next => rfl

end DriftProjection

section Attribution

variable {primitives : DriftPrimitives}
variable {event : DriftEvent}

theorem trimSpace_of_driftTenant {payloadTenant tenantID : Bytes}
    (attributed : driftTenant event payloadTenant = .ok tenantID) :
    trimSpace tenantID = tenantID := by
  unfold driftTenant at attributed
  dsimp only at attributed
  split at attributed
  next => rw [← Except.ok.inj attributed, Go.trimSpace_trimSpace]
  next =>
    split at attributed
    next => cases attributed
    next => rw [← Except.ok.inj attributed, Go.trimSpace_trimSpace]

theorem readEvent_eq_ok {tenantID : Bytes} {payload : DriftPayload}
    (read : readEvent primitives event = .ok (tenantID, payload)) :
    trimSpace tenantID = tenantID ∧ payload.OfTenant tenantID := by
  unfold readEvent at read
  split at read
  next =>
    obtain ⟨decoded, -, read⟩ := Result.bind_eq_ok.mp read
    obtain ⟨tenant, attributed, made⟩ := Result.bind_eq_ok.mp read
    obtain ⟨rfl, rfl⟩ := Prod.mk.inj (Except.ok.inj made)
    exact ⟨trimSpace_of_driftTenant attributed, rfl⟩
  next =>
    split at read
    next =>
      obtain ⟨decoded, -, read⟩ := Result.bind_eq_ok.mp read
      obtain ⟨tenant, attributed, made⟩ := Result.bind_eq_ok.mp read
      obtain ⟨rfl, rfl⟩ := Prod.mk.inj (Except.ok.inj made)
      exact ⟨trimSpace_of_driftTenant attributed, rfl⟩
    next =>
      obtain ⟨rfl, rfl⟩ := Prod.mk.inj (Except.ok.inj read)
      exact ⟨Go.trimSpace_trimSpace _, trivial⟩

theorem apply_eq_ok {projection next : DriftProjection} :
    projection.apply primitives event = .ok next ↔
      (event.sequence = 0 ∨ projection.watermark < event.sequence) ∧
      ∃ tenantID payload, readEvent primitives event = .ok (tenantID, payload) ∧
        (projection.applyPayload primitives event payload).advance tenantID event.sequence =
          next := by
  have reached : (¬ (event.sequence ≠ 0 ∧ event.sequence ≤ projection.watermark)) ↔
      event.sequence = 0 ∨ projection.watermark < event.sequence := by
    rw [not_and_or, not_not, UInt64.not_le]
  rw [← reached, DriftProjection.apply, Result.guard_eq_ok]
  refine and_congr_right fun _ => ?_
  rw [Result.bind_eq_ok]
  constructor
  · rintro ⟨⟨tenantID, payload⟩, read, made⟩
    exact ⟨tenantID, payload, read, Except.ok.inj made⟩
  · rintro ⟨tenantID, payload, read, rfl⟩
    exact ⟨(tenantID, payload), read, rfl⟩

/-- Two projections have the same part of a tenant, and the second is not ahead
of the first. -/
structure SamePart (tenantID : Bytes) (full part : DriftProjection) : Prop where
  fullFormed : full.WellFormed
  partFormed : part.WellFormed
  same : full.restrict tenantID = part.restrict tenantID
  behind : part.watermark ≤ full.watermark

/-- The event is read as one of the tenant. -/
def attributedTo (primitives : DriftPrimitives) (tenantID : Bytes) (event : DriftEvent) : Bool :=
  match readEvent primitives event with
  | .ok (other, _) => other == trimSpace tenantID
  | .error _ => false

theorem watermark_applyPayload (projection : DriftProjection) (payload : DriftPayload) :
    (projection.applyPayload primitives event payload).watermark = projection.watermark := by
  cases payload with
  | recorded payload =>
      rw [DriftProjection.applyPayload, DriftProjection.applyWitnessRecorded]
      dsimp only
      split
      next => rfl
      next => rfl
  | completed payload =>
      rw [DriftProjection.applyPayload, DriftProjection.applyCompletion]
      dsimp only
      split
      next => rfl
      next =>
        split
        next => rfl
        next => rfl
  | other => rfl

theorem toNat_watermark_advance (projection : DriftProjection) (tenantID : Bytes)
    (sequence : UInt64) :
    (projection.advance tenantID sequence).watermark.toNat =
      max projection.watermark.toNat sequence.toNat := by
  rw [DriftProjection.advance]
  dsimp only
  split
  next below =>
    rw [UInt64.lt_iff_toNat_lt] at below
    omega
  next above =>
    rw [UInt64.lt_iff_toNat_lt] at above
    omega

/-- The part of a tenant is kept along with the run over its events only. -/
theorem unwinds_samePart (primitives : DriftPrimitives) (tenantID : Bytes) :
    Unwinding.Unwinds (DriftProjection.apply primitives) (attributedTo primitives tenantID)
      (SamePart (trimSpace tenantID)) where
  own_step := by
    intro full part event next related own applied
    obtain ⟨fresh, other, payload, read, rfl⟩ := apply_eq_ok.mp applied
    obtain ⟨trimmed, ofTenant⟩ := readEvent_eq_ok read
    obtain rfl : other = trimSpace tenantID := by
      rw [attributedTo, read] at own
      exact beq_iff_eq.mp own
    have partFresh : event.sequence = 0 ∨ part.watermark < event.sequence :=
      fresh.imp_right (UInt64.lt_of_le_of_lt related.behind)
    refine ⟨_, apply_eq_ok.mpr ⟨partFresh, _, payload, read, rfl⟩, ?_, ?_, ?_, ?_⟩
    · exact (related.fullFormed.applyPayload primitives event payload).advance _ _
    · exact (related.partFormed.applyPayload primitives event payload).advance _ _
    · rw [DriftProjection.restrict_advance, DriftProjection.restrict_advance, if_pos rfl,
        if_pos rfl, DriftProjection.restrict_applyPayload _ _ related.fullFormed trimmed ofTenant,
        DriftProjection.restrict_applyPayload _ _ related.partFormed trimmed ofTenant, related.same]
    · have behind := UInt64.le_iff_toNat_le.mp related.behind
      rw [UInt64.le_iff_toNat_le, toNat_watermark_advance, toNat_watermark_advance,
        watermark_applyPayload, watermark_applyPayload]
      omega
  other_step := by
    intro full part event next related foreign applied
    obtain ⟨-, other, payload, read, rfl⟩ := apply_eq_ok.mp applied
    obtain ⟨trimmed, ofTenant⟩ := readEvent_eq_ok read
    have different : other ≠ trimSpace tenantID := by
      rw [attributedTo, read] at foreign
      exact beq_eq_false_iff_ne.mp foreign
    refine ⟨?_, related.partFormed, ?_, ?_⟩
    · exact (related.fullFormed.applyPayload primitives event payload).advance _ _
    · rw [DriftProjection.restrict_advance, if_neg different,
        DriftProjection.restrict_applyPayload _ _ related.fullFormed trimmed ofTenant,
        if_neg different, related.same]
    · have behind := UInt64.le_iff_toNat_le.mp related.behind
      rw [UInt64.le_iff_toNat_le, toNat_watermark_advance, watermark_applyPayload]
      omega

end Attribution

theorem key_eq_of_countBefore {first second : DriftCountKey × Int64}
    (inOrder : countBefore (classCount first) (classCount second))
    (reversed : countBefore (classCount second) (classCount first)) :
    first.1 = second.1 := by
  have texts : ∀ first second : Bytes, first ≤ second → second ≤ first → first = second :=
    fun _ _ => List.le_antisymm
  obtain ⟨tenants, inOrder, reversed⟩ := thenBy_antisymm texts inOrder reversed
  obtain ⟨windows, inOrder, reversed⟩ :=
    thenBy_antisymm (fun _ _ => Int.le_antisymm) inOrder reversed
  obtain ⟨authorities, inOrder, reversed⟩ := thenBy_antisymm texts inOrder reversed
  have classes := texts _ _ inOrder reversed
  obtain ⟨⟨tenantID, authorityID, divergenceClass, ⟨window⟩⟩, count⟩ := first
  obtain ⟨⟨otherTenantID, otherAuthorityID, otherClass, ⟨otherWindow⟩⟩, otherCount⟩ := second
  simp only [classCount] at tenants windows authorities classes
  rw [tenants, windows, authorities, classes]

theorem sort_eq_of_perm (sortCounts : SliceSort countBefore)
    {first second : MapOf DriftCountKey Int64} (permutation : first.Perm second)
    (distinct : (first.map Prod.fst).Nodup) :
    sortCounts.sort (first.map classCount) = sortCounts.sort (second.map classCount) := by
  have sorts := (sortCounts.perm (first.map classCount)).trans
    ((permutation.map classCount).trans (sortCounts.perm (second.map classCount)).symm)
  refine sorts.eq_of_pairwise (fun count other member otherMember inOrder reversed => ?_)
    (sortCounts.sorted _) (sortCounts.sorted _)
  obtain ⟨binding, isBinding, rfl⟩ := List.mem_map.mp ((sortCounts.perm _).mem_iff.mp member)
  obtain ⟨otherBinding, isOther, rfl⟩ :=
    List.mem_map.mp ((sortCounts.perm _).mem_iff.mp otherMember)
  have keys := key_eq_of_countBefore inOrder reversed
  rw [List.inj_on_of_nodup_map distinct isBinding (permutation.mem_iff.mpr isOther) keys]

/-- What a tenant is shown depends on its part only, and not on the order in
which the counts are ranged over. -/
theorem snapshot_eq_of_restrict_eq (sortCounts : SliceSort countBefore)
    (sortDurations : SliceSort durationBefore) (order otherOrder : CountOrder)
    {tenantID : Bytes} {first second : DriftProjection} (wellFormed : first.WellFormed)
    (same : first.restrict tenantID = second.restrict tenantID) :
    first.snapshot sortCounts sortDurations order tenantID true =
      second.snapshot sortCounts sortDurations otherOrder tenantID true := by
  have part : ∀ projection : DriftProjection,
      (projection.restrict tenantID).tenantWatermarks.lookup tenantID =
        projection.tenantWatermarks.lookup tenantID := fun projection =>
    MapOf.lookup_kept projection.tenantWatermarks (fun key => key == tenantID)
      (beq_self_eq_true _)
  have watermarks : first.tenantWatermarks.lookup tenantID =
      second.tenantWatermarks.lookup tenantID := by
    rw [← part first, same, part second]
  have counts : first.counts.filter (fun binding => binding.1.tenantID == tenantID) =
      second.counts.filter fun binding => binding.1.tenantID == tenantID :=
    congrArg DriftProjection.counts same
  have durations : first.durations.filter (fun duration => duration.tenantID == tenantID) =
      second.durations.filter fun duration => duration.tenantID == tenantID :=
    congrArg DriftProjection.durations same
  have openWitnesses : first.openWitnesses.filter (fun binding => binding.1.tenantID == tenantID) =
      second.openWitnesses.filter fun binding => binding.1.tenantID == tenantID :=
    congrArg DriftProjection.openWitnesses same
  have ranged : ((order.arrange first.counts).filter fun binding =>
      binding.1.tenantID == tenantID).Perm
      ((otherOrder.arrange second.counts).filter fun binding =>
        binding.1.tenantID == tenantID) :=
    ((order.perm first.counts).filter _).trans
      (counts ▸ ((otherOrder.perm second.counts).filter _).symm)
  have distinct : (((order.arrange first.counts).filter fun binding =>
      binding.1.tenantID == tenantID).map Prod.fst).Nodup := by
    have all := ((order.perm first.counts).map Prod.fst).nodup_iff.mpr wellFormed.distinct
    exact all.sublist (List.filter_sublist.map Prod.fst)
  have sorted := sort_eq_of_perm sortCounts ranged distinct
  simp only [DriftProjection.snapshot, Bool.not_true, Bool.false_or, if_true, watermarks, durations,
    openWitnesses, sorted]

/-- What a tenant is shown after a log that is accepted in full is what it is
shown after its own events only, which are accepted too. -/
theorem snapshotForTenant_of_own_events
    (primitives : DriftPrimitives)
    (sortCounts : SliceSort countBefore)
    (sortDurations : SliceSort durationBefore)
    (order otherOrder : CountOrder)
    (window : Int)
    (tenantID : Bytes)
    (events : List DriftEvent)
    (final : DriftProjection)
    (accepted : (newDriftProjection window).replay primitives events = .ok final) :
    ∃ own, (newDriftProjection window).replay primitives
        (events.filter (attributedTo primitives tenantID)) = .ok own ∧
      own.snapshotForTenant sortCounts sortDurations otherOrder tenantID =
        final.snapshotForTenant sortCounts sortDurations order tenantID := by
  have start : SamePart (trimSpace tenantID) (newDriftProjection window)
      (newDriftProjection window) :=
    ⟨DriftProjection.wellFormed_newDriftProjection window,
      DriftProjection.wellFormed_newDriftProjection window, rfl, UInt64.le_refl _⟩
  obtain ⟨own, own_eq, related⟩ :=
    (unwinds_samePart primitives tenantID).exists_run start accepted
  refine ⟨own, own_eq, ?_⟩
  unfold DriftProjection.snapshotForTenant
  split
  next => rfl
  next =>
    exact (snapshot_eq_of_restrict_eq sortCounts sortDurations order otherOrder related.fullFormed
      related.same).symm

instance : DecidableRel countBefore :=
  inferInstanceAs (DecidableRel (thenBy _ (thenBy _ (thenBy _ _))))

instance : Std.Total countBefore :=
  inferInstanceAs (Std.Total (thenBy _ (thenBy _ (thenBy _ _))))

instance : IsTrans WitnessClassCount countBefore :=
  inferInstanceAs (IsTrans _ (thenBy _ (thenBy _ (thenBy _ _))))

instance : DecidableRel durationBefore :=
  inferInstanceAs (DecidableRel (thenBy _ _))

instance : Std.Total durationBefore :=
  inferInstanceAs (Std.Total (thenBy _ _))

instance : IsTrans CompletionDuration durationBefore :=
  inferInstanceAs (IsTrans _ (thenBy _ _))

/-- `sort.Slice` of a short slice. -/
def SliceSort.insertion {α : Type} (before : α → α → Prop) [DecidableRel before]
    [Std.Total before] [IsTrans α before] : SliceSort before where
  sort items := items.insertionSort before
  perm items := List.perm_insertionSort before items
  sorted items := List.pairwise_insertionSort before items

def CountOrder.listed : CountOrder where
  arrange counts := counts
  perm counts := List.Perm.refl counts

/-- The payload of a witness or a completion that says no more than this. -/
def namedPayload (tenantID : Bytes) : Bytes :=
  bytes "\x7b\"witness_id\":\"w\",\"tenant_id\":\"" ++ tenantID ++ bytes "\"\x7d"

/-- The tenant that such a payload names. -/
def payloadTenant (data : Bytes) : Except Bytes Bytes :=
  if data = namedPayload (bytes "a") then .ok (bytes "a")
  else if data = namedPayload (bytes "b") then .ok (bytes "b")
  else .error (bytes "unexpected end of JSON input")

/-- Decoders of these payloads, whose other fields are empty. -/
def namedDecoders : DriftPrimitives where
  recorded data := do
    let tenantID ← payloadTenant data
    pure ⟨bytes "w", tenantID, [], ⟨⟨[], [], [], [], [], [], 0⟩, [], [], []⟩⟩
  completed data := do
    let tenantID ← payloadTenant data
    pure ⟨[], tenantID, bytes "w", [], [], [], [], [], [], 0⟩
  seconds duration := duration.tdiv Time.second

/-- Two tenants have a witness of one name, and that of the second is
completed. -/
def sharedLog : List DriftEvent :=
  [⟨1, eventTypeWitnessRecorded, bytes "a", Time.unix 1, namedPayload (bytes "a")⟩,
    ⟨2, eventTypeWitnessRecorded, bytes "b", Time.unix 2, namedPayload (bytes "b")⟩,
    ⟨3, eventTypeCompleted, bytes "b", Time.unix 5, namedPayload (bytes "b")⟩]

/-- The first tenant is shown its open witness, with or without the second. -/
theorem snapshot_beside_another_tenant :
    ∃ final own, (newDriftProjection 0).replay namedDecoders sharedLog = .ok final ∧
      (newDriftProjection 0).replay namedDecoders
        (sharedLog.filter (attributedTo namedDecoders (bytes "a"))) = .ok own ∧
      own.snapshotForTenant (SliceSort.insertion countBefore) (SliceSort.insertion durationBefore)
          CountOrder.listed (bytes "a") =
        final.snapshotForTenant (SliceSort.insertion countBefore)
          (SliceSort.insertion durationBefore) CountOrder.listed (bytes "a") ∧
      own.snapshotForTenant (SliceSort.insertion countBefore) (SliceSort.insertion durationBefore)
        CountOrder.listed (bytes "a") = ⟨1, [], [], 1⟩ := by
  obtain ⟨final, accepted, shown⟩ : ∃ final,
      (newDriftProjection 0).replay namedDecoders sharedLog = .ok final ∧
      final.snapshotForTenant (SliceSort.insertion countBefore) (SliceSort.insertion durationBefore)
        CountOrder.listed (bytes "a") = ⟨1, [], [], 1⟩ :=
    ⟨_, rfl, by decide +kernel⟩
  obtain ⟨own, own_eq, same⟩ := snapshotForTenant_of_own_events namedDecoders
    (SliceSort.insertion countBefore) (SliceSort.insertion durationBefore) CountOrder.listed
    CountOrder.listed 0 (bytes "a") sharedLog final accepted
  exact ⟨final, own, accepted, own_eq, same, same.trans shown⟩

end Trstctl.Reconcile.Rounds

import Trstctl.Go.Time
import Trstctl.Go.Trim
import Trstctl.Library.Gate

/-!
# Watermarks

`WatermarkTracker` (`internal/reconcile/rounds/watermark.go`) keeps the last
watermark of every authority and refuses one that compares below it.  Two
numbers are compared as numbers and any other two positions as strings, and
the mixture is not an order: `9` comes after `1x` and `1x` after `10`.
-/

namespace Trstctl.Reconcile.Rounds

open Go (Bytes bytes trimSpace Time)

/-- `strconv.ParseUint(text, 10, 64)`, without its errors. -/
def parseUint64 (text : Bytes) : Option Nat :=
  (Go.parseDigits text).filter fun value => value < 2 ^ 64

/-- `strings.Compare`. -/
def stringsCompare (first second : Bytes) : Int :=
  if first = second then 0 else if first < second then -1 else 1

/-- The order of positions: numbers, or else texts. -/
def compareWatermarkPosition (current previous : Bytes) : Int :=
  let current := trimSpace current
  let previous := trimSpace previous
  match parseUint64 current, parseUint64 previous with
  | some c, some p => if c < p then -1 else if p < c then 1 else 0
  | _, _ => stringsCompare current previous

structure Watermark where
  position : Bytes
  observedAt : Time

structure WatermarkDecision where
  divergent : Bool
  divergenceClass : Bytes
  reason : Bytes
  previous : Bytes
  current : Option Watermark

/-- The errors of `Advance`. -/
inductive WatermarkError where
  | invalidWatermark
  | watermarkRegressed

structure WatermarkState where
  watermark : Watermark
  lastAdvancedAt : Time

/-- `WatermarkTracker`.  Its comparator is always `CompareWatermarkPosition`,
which also stands in for a missing one. -/
structure WatermarkTracker where
  defaultLiveness : Int
  liveness : Go.Map Int
  states : Go.Map WatermarkState

def newWatermarkTracker (defaultLiveness : Int) : WatermarkTracker where
  defaultLiveness := defaultLiveness
  liveness := []
  states := []

def divergenceClassStaleness : Bytes :=
  bytes "staleness"

def stalenessReasonStalled : Bytes :=
  bytes "watermark_stalled"

def stalenessReasonRegressed : Bytes :=
  bytes "watermark_regressed"

namespace WatermarkTracker

def setLiveness (tracker : WatermarkTracker) (authorityID : Bytes) (liveness : Int) :
    WatermarkTracker :=
  if trimSpace authorityID = [] ∨ liveness ≤ 0 then tracker
  else { tracker with liveness := tracker.liveness.set (trimSpace authorityID) liveness }

def livenessFor (tracker : WatermarkTracker) (authorityID : Bytes) : Int :=
  let liveness := (tracker.liveness.lookup authorityID).getD 0
  if 0 < liveness then liveness else tracker.defaultLiveness

/-- `Advance`, with the time of the machine's clock. -/
def advance (tracker : WatermarkTracker) (authorityID : Bytes) (watermark : Watermark)
    (observedNow clock : Time) :
    WatermarkTracker × WatermarkDecision × Option WatermarkError :=
  let authorityID := trimSpace authorityID
  let watermark := { watermark with position := trimSpace watermark.position }
  if authorityID = [] ∨ watermark.position = [] ∨ watermark.observedAt.isZero then
    (tracker, ⟨false, [], [], [], none⟩, some .invalidWatermark)
  else
    let observedNow := if observedNow.isZero then clock else observedNow
    let accept (lastAdvancedAt : Time) : WatermarkTracker :=
      { tracker with states := tracker.states.set authorityID ⟨watermark, lastAdvancedAt⟩ }
    let quiet : WatermarkDecision := ⟨false, [], [], [], some watermark⟩
    match tracker.states.lookup authorityID with
    | none => (accept observedNow, quiet, none)
    | some previous =>
        let stale (reason : Bytes) : WatermarkDecision :=
          ⟨true, divergenceClassStaleness, reason, previous.watermark.position, some watermark⟩
        let comparison :=
          compareWatermarkPosition watermark.position previous.watermark.position
        if comparison < 0 then
          (tracker, stale stalenessReasonRegressed, some .watermarkRegressed)
        else
          let tracker := accept (if 0 < comparison then observedNow else previous.lastAdvancedAt)
          let liveness := tracker.livenessFor authorityID
          if comparison = 0 ∧ 0 < liveness ∧
              liveness < observedNow.sub previous.lastAdvancedAt then
            (tracker, stale stalenessReasonStalled, none)
          else (tracker, quiet, none)

end WatermarkTracker

/-- A call to the tracker. -/
inductive TrackerCall where
  | setLiveness (authorityID : Bytes) (liveness : Int)
  | advance (authorityID : Bytes) (watermark : Watermark) (observedNow clock : Time)

/-- The tracker after a call, and the position it accepted for an authority. -/
def TrackerCall.step (authorityID : Bytes) (tracker : WatermarkTracker) :
    TrackerCall → WatermarkTracker × Option Bytes
  | .setLiveness other liveness => (tracker.setLiveness other liveness, none)
  | .advance other watermark observedNow clock =>
      match tracker.advance other watermark observedNow clock with
      | (tracker, decision, none) =>
          (tracker,
            if trimSpace other = authorityID then decision.current.map Watermark.position else none)
      | (tracker, _, some _) => (tracker, none)

/-- The positions that a sequence of calls has accepted for an authority. -/
def accepted (authorityID : Bytes) : WatermarkTracker → List TrackerCall → List Bytes
  | _, [] => []
  | tracker, call :: rest =>
      (call.step authorityID tracker).2.toList ++
        accepted authorityID (call.step authorityID tracker).1 rest

def TrackerCall.presented (authorityID : Bytes) : TrackerCall → Option Bytes
  | .setLiveness _ _ => none
  | .advance other watermark _ _ =>
      if trimSpace other = authorityID then some watermark.position else none

/-- A position does not compare below an earlier one. -/
def follows (later earlier : Bytes) : Bool :=
  decide (0 ≤ compareWatermarkPosition later earlier)

/-- The last position accepted for an authority. -/
def WatermarkTracker.last (tracker : WatermarkTracker) (authorityID : Bytes) : Option Bytes :=
  (tracker.states.lookup authorityID).map fun state => state.watermark.position

/-- A watermark that `Advance` considers. -/
def Considered (authorityID : Bytes) (watermark : Watermark) : Prop :=
  trimSpace authorityID ≠ [] ∧ trimSpace watermark.position ≠ [] ∧
    watermark.observedAt.isZero = false

instance (authorityID : Bytes) (watermark : Watermark) :
    Decidable (Considered authorityID watermark) :=
  inferInstanceAs (Decidable (_ ∧ _ ∧ _))

/-- The position that a call offers for an authority, if it is considered. -/
def TrackerCall.offered (authorityID : Bytes) : TrackerCall → Option Bytes
  | .setLiveness _ _ => none
  | .advance other watermark _ _ =>
      if trimSpace other = authorityID ∧ Considered other watermark then
        some (trimSpace watermark.position)
      else none

section Advance

variable {tracker : WatermarkTracker}
variable {authorityID : Bytes}
variable {watermark : Watermark}
variable (observedNow clock : Time)

theorem advance_of_not_considered (ignored : ¬ Considered authorityID watermark) :
    tracker.advance authorityID watermark observedNow clock =
      (tracker, ⟨false, [], [], [], none⟩, some .invalidWatermark) := by
  unfold WatermarkTracker.advance
  dsimp only
  rw [if_pos]
  by_contra valid
  simp only [not_or, Bool.not_eq_true] at valid
  exact ignored valid

theorem advance_of_follows (considered : Considered authorityID watermark)
    (next : ∀ last ∈ tracker.last (trimSpace authorityID),
      follows (trimSpace watermark.position) last = true) :
    ∃ state decision,
      tracker.advance authorityID watermark observedNow clock =
        ({ tracker with states := tracker.states.set (trimSpace authorityID) state },
          decision, none) ∧
      state.watermark.position = trimSpace watermark.position ∧
      decision.current.map Watermark.position = some (trimSpace watermark.position) := by
  obtain ⟨named, placed, timed⟩ := considered
  unfold WatermarkTracker.advance
  dsimp only
  rw [if_neg (by simp [named, placed, timed])]
  generalize (if observedNow.isZero then clock else observedNow) = now
  cases found : tracker.states.lookup (trimSpace authorityID) with
  | none => exact ⟨_, _, rfl, rfl, rfl⟩
  | some previous =>
      have notBelow := of_decide_eq_true
        (next previous.watermark.position (by rw [WatermarkTracker.last, found]; rfl))
      dsimp only
      rw [if_neg (Int.not_lt.mpr notBelow)]
      generalize (if 0 < compareWatermarkPosition (trimSpace watermark.position)
        previous.watermark.position then now else previous.lastAdvancedAt) = advancedAt
      split
      next => exact ⟨_, _, rfl, rfl, rfl⟩
      next => exact ⟨_, _, rfl, rfl, rfl⟩

theorem advance_of_regressed (considered : Considered authorityID watermark) {last : Bytes}
    (last_eq : tracker.last (trimSpace authorityID) = some last)
    (below : follows (trimSpace watermark.position) last = false) :
    ∃ decision, tracker.advance authorityID watermark observedNow clock =
      (tracker, decision, some .watermarkRegressed) := by
  obtain ⟨named, placed, timed⟩ := considered
  obtain ⟨previous, found, rfl⟩ := Option.map_eq_some_iff.mp last_eq
  have negative := Int.not_le.mp (of_decide_eq_false below)
  unfold WatermarkTracker.advance
  dsimp only
  rw [if_neg (by simp [named, placed, timed]), found]
  dsimp only
  rw [if_pos negative]
  exact ⟨_, rfl⟩

end Advance

theorem last_set (tracker : WatermarkTracker) (authorityID other : Bytes) (state : WatermarkState) :
    WatermarkTracker.last { tracker with states := tracker.states.set other state } authorityID =
      if authorityID = other then some state.watermark.position else tracker.last authorityID := by
  rw [WatermarkTracker.last, Go.MapOf.lookup_set]
  split
  next => rfl
  next => rfl

section Step

variable {authorityID : Bytes}
variable {tracker : WatermarkTracker}
variable {call : TrackerCall}

/-- A call that offers nothing to an authority accepts nothing for it. -/
theorem step_of_not_offered (tracker : WatermarkTracker)
    (nothing : call.offered authorityID = none) :
    (call.step authorityID tracker).2 = none ∧
      (call.step authorityID tracker).1.last authorityID = tracker.last authorityID := by
  cases call with
  | setLiveness other liveness =>
      refine ⟨rfl, ?_⟩
      change (tracker.setLiveness other liveness).last authorityID = tracker.last authorityID
      unfold WatermarkTracker.setLiveness
      split
      next => rfl
      next => rfl
  | advance other watermark observedNow clock =>
      rw [TrackerCall.step]
      by_cases considered : Considered other watermark
      · have elsewhere : trimSpace other ≠ authorityID := by
          rintro rfl
          rw [TrackerCall.offered, if_pos ⟨rfl, considered⟩] at nothing
          cases nothing
        by_cases next : ∀ last ∈ tracker.last (trimSpace other),
            follows (trimSpace watermark.position) last = true
        · obtain ⟨state, decision, made, -, -⟩ :=
            advance_of_follows observedNow clock considered next
          rw [made]
          dsimp only
          rw [if_neg elsewhere, last_set, if_neg (Ne.symm elsewhere)]
          exact ⟨rfl, rfl⟩
        · simp only [not_forall] at next
          obtain ⟨last, before, below⟩ := next
          obtain ⟨decision, made⟩ := advance_of_regressed observedNow clock considered before
            (Bool.eq_false_iff.mpr below)
          rw [made]
          exact ⟨rfl, rfl⟩
      · rw [advance_of_not_considered observedNow clock considered]
        exact ⟨rfl, rfl⟩

variable {position : Bytes}

theorem exists_of_offered (offered : call.offered authorityID = some position) :
    ∃ other watermark observedNow clock, call = .advance other watermark observedNow clock ∧
      trimSpace other = authorityID ∧ Considered other watermark ∧
      trimSpace watermark.position = position := by
  cases call with
  | setLiveness other liveness => cases offered
  | advance other watermark observedNow clock =>
      rw [TrackerCall.offered] at offered
      split at offered
      next both =>
        exact ⟨other, watermark, observedNow, clock, rfl, both.1, both.2, Option.some.inj offered⟩
      next => cases offered

theorem step_of_follows (offered : call.offered authorityID = some position)
    (next : ∀ last ∈ tracker.last authorityID, follows position last = true) :
    (call.step authorityID tracker).2 = some position ∧
      (call.step authorityID tracker).1.last authorityID = some position := by
  obtain ⟨other, watermark, observedNow, clock, rfl, rfl, considered, rfl⟩ :=
    exists_of_offered offered
  obtain ⟨state, decision, made, position, current⟩ :=
    advance_of_follows observedNow clock considered next
  rw [TrackerCall.step, made]
  dsimp only
  rw [if_pos rfl, current, last_set, if_pos rfl, position]
  exact ⟨rfl, rfl⟩

theorem step_of_regressed {last : Bytes} (offered : call.offered authorityID = some position)
    (last_eq : tracker.last authorityID = some last) (below : follows position last = false) :
    (call.step authorityID tracker).2 = none ∧
      (call.step authorityID tracker).1.last authorityID = some last := by
  obtain ⟨other, watermark, observedNow, clock, rfl, rfl, considered, rfl⟩ :=
    exists_of_offered offered
  obtain ⟨decision, made⟩ := advance_of_regressed observedNow clock considered last_eq below
  rw [TrackerCall.step, made]
  exact ⟨rfl, last_eq⟩

/-- The accepted positions are those that go through a gate which looks at the
last one. -/
theorem accepted_eq_passed (tracker : WatermarkTracker) (calls : List TrackerCall) :
    accepted authorityID tracker calls =
      Gate.passed follows (tracker.last authorityID)
        (calls.filterMap (TrackerCall.offered authorityID)) := by
  induction calls generalizing tracker with
  | nil =>
      rw [accepted, List.filterMap_nil, Gate.passed]
  | cons call rest ih =>
      rw [accepted, ih]
      cases offered : call.offered authorityID with
      | none =>
          obtain ⟨nothing, same⟩ := step_of_not_offered tracker offered
          rw [List.filterMap_cons_none offered, nothing, same]
          rfl
      | some position =>
          rw [List.filterMap_cons_some offered]
          cases last_eq : tracker.last authorityID with
          | none =>
              have next : ∀ last ∈ tracker.last authorityID, follows position last = true := by
                simp [last_eq]
              obtain ⟨taken, last⟩ := step_of_follows offered next
              rw [taken, last, Gate.passed]
              rfl
          | some last =>
              rw [Gate.passed]
              by_cases next : follows position last = true
              · have onward : ∀ last ∈ tracker.last authorityID, follows position last = true := by
                  simpa [last_eq] using next
                obtain ⟨taken, last⟩ := step_of_follows offered onward
                rw [if_pos next, taken, last]
                rfl
              · obtain ⟨refused, last⟩ := step_of_regressed offered last_eq
                  (Bool.eq_false_iff.mpr next)
                rw [if_neg next, refused, last]
                rfl

end Step

/-- The number that a position is, if it is one. -/
def number (position : Bytes) : Option Nat :=
  parseUint64 (trimSpace position)

/-- No string stands between two numbers of which the upper one is not the
greater. -/
def Unmixed (positions : Set Bytes) : Prop :=
  ∀ low ∈ positions, ∀ middle ∈ positions, ∀ high ∈ positions, ∀ lower upper,
    number low = some lower → number middle = none → number high = some upper →
    trimSpace low < trimSpace middle → trimSpace middle < trimSpace high → lower < upper

theorem follows_iff_of_numbers {later earlier : Bytes} {laterNumber earlierNumber : Nat}
    (laterIs : number later = some laterNumber) (earlierIs : number earlier = some earlierNumber) :
    follows later earlier = true ↔ earlierNumber ≤ laterNumber := by
  rw [number] at laterIs earlierIs
  rw [follows, decide_eq_true_iff, compareWatermarkPosition]
  simp only [laterIs, earlierIs]
  split_ifs
  all_goals omega

theorem follows_iff_of_text {later earlier : Bytes}
    (text : number later = none ∨ number earlier = none) :
    follows later earlier = true ↔ trimSpace earlier ≤ trimSpace later := by
  have compared : compareWatermarkPosition later earlier =
      stringsCompare (trimSpace later) (trimSpace earlier) := by
    unfold compareWatermarkPosition
    dsimp only
    split
    next laterIs earlierIs =>
      rw [number, number, laterIs, earlierIs] at text
      simp at text
    next => rfl
  rw [follows, decide_eq_true_iff, compared, stringsCompare]
  split_ifs with same below
  · simp [same]
  · simp [List.not_le.mpr below]
  · simp [List.not_lt.mp below]

/-- The positions that are considered among those presented. -/
def offers (positions : Set Bytes) : Set Bytes :=
  { text | text ≠ [] ∧ ∃ position ∈ positions, trimSpace position = text }

theorem follows_trimSpace (later earlier : Bytes) :
    follows (trimSpace later) (trimSpace earlier) = follows later earlier := by
  have same : compareWatermarkPosition (trimSpace later) (trimSpace earlier) =
      compareWatermarkPosition later earlier := by
    simp only [compareWatermarkPosition, Go.trimSpace_trimSpace]
  rw [follows, follows, same]

theorem trimSpace_ne_nil_of_number {position : Bytes} {value : Nat}
    (isNumber : number position = some value) :
    trimSpace position ≠ [] := by
  intro empty
  rw [number, empty] at isNumber
  cases isNumber

theorem lt_of_le_of_number_ne {first second : Bytes} (notAbove : trimSpace first ≤ trimSpace second)
    (different : number first ≠ number second) :
    trimSpace first < trimSpace second := by
  refine (List.le_iff_lt_or_eq.mp notAbove).resolve_right fun same => different ?_
  rw [number, number, same]

variable {positions : Set Bytes}

/-- Among unmixed positions following is transitive. -/
theorem follows_trans (unmixed : Unmixed positions)
    {first second third : Bytes} (isFirst : first ∈ positions) (isSecond : second ∈ positions)
    (isThird : third ∈ positions) (secondFollows : follows second first = true)
    (thirdFollows : follows third second = true) :
    follows third first = true := by
  cases firstIs : number first with
  | none =>
      rw [follows_iff_of_text (Or.inr firstIs)] at secondFollows ⊢
      cases secondIs : number second with
      | none =>
          rw [follows_iff_of_text (Or.inr secondIs)] at thirdFollows
          exact List.le_trans secondFollows thirdFollows
      | some middle =>
          cases thirdIs : number third with
          | none =>
              rw [follows_iff_of_text (Or.inl thirdIs)] at thirdFollows
              exact List.le_trans secondFollows thirdFollows
          | some upper =>
              rw [follows_iff_of_numbers thirdIs secondIs] at thirdFollows
              by_contra below
              have above := lt_of_le_of_number_ne secondFollows (by simp [firstIs, secondIs])
              have less := unmixed third isThird first isFirst second isSecond upper middle thirdIs
                firstIs secondIs (List.not_le.mp below) above
              omega
  | some lower =>
      cases secondIs : number second with
      | none =>
          rw [follows_iff_of_text (Or.inl secondIs)] at secondFollows
          rw [follows_iff_of_text (Or.inr secondIs)] at thirdFollows
          cases thirdIs : number third with
          | none =>
              rw [follows_iff_of_text (Or.inl thirdIs)]
              exact List.le_trans secondFollows thirdFollows
          | some upper =>
              rw [follows_iff_of_numbers thirdIs firstIs]
              exact Nat.le_of_lt (unmixed first isFirst second isSecond third isThird lower upper
                firstIs secondIs thirdIs
                (lt_of_le_of_number_ne secondFollows (by simp [firstIs, secondIs]))
                (lt_of_le_of_number_ne thirdFollows (by simp [secondIs, thirdIs])))
      | some middle =>
          rw [follows_iff_of_numbers secondIs firstIs] at secondFollows
          cases thirdIs : number third with
          | none =>
              rw [follows_iff_of_text (Or.inl thirdIs)] at thirdFollows ⊢
              by_contra below
              have above := lt_of_le_of_number_ne thirdFollows (by simp [secondIs, thirdIs])
              have less := unmixed second isSecond third isThird first isFirst middle lower secondIs
                thirdIs firstIs above (List.not_le.mp below)
              omega
          | some upper =>
              rw [follows_iff_of_numbers thirdIs secondIs] at thirdFollows
              rw [follows_iff_of_numbers thirdIs firstIs]
              exact Nat.le_trans secondFollows thirdFollows

theorem transitiveOn_offers_iff (positions : Set Bytes) :
    Gate.TransitiveOn follows (offers positions) ↔ Unmixed positions := by
  constructor
  · -- The upper number, the lower one and the string between them go through in this order.
    intro transitive low isLow middle isMiddle high isHigh lower upper lowIs middleIs highIs
      above below
    by_contra notLess
    have placed : ∀ position ∈ positions, trimSpace position ≠ [] →
        trimSpace position ∈ offers positions :=
      fun position isPosition named => ⟨named, position, isPosition, rfl⟩
    have lowOffered := placed low isLow (trimSpace_ne_nil_of_number lowIs)
    have highOffered := placed high isHigh (trimSpace_ne_nil_of_number highIs)
    have middleOffered := placed middle isMiddle fun empty =>
      List.not_lt_nil _ (empty ▸ above)
    have onward := transitive (trimSpace high) highOffered (trimSpace low) lowOffered
      (trimSpace middle) middleOffered
    simp only [follows_trimSpace] at onward
    rw [follows_iff_of_numbers lowIs highIs, follows_iff_of_text (Or.inl middleIs),
      follows_iff_of_text (Or.inl middleIs)] at onward
    exact List.not_le.mpr below (onward (Nat.le_of_not_lt notLess) (List.le_of_lt above))
  · rintro unmixed _ ⟨-, first, isFirst, rfl⟩ _ ⟨-, second, isSecond, rfl⟩ _
      ⟨-, third, isThird, rfl⟩
    simp only [follows_trimSpace]
    exact follows_trans unmixed isFirst isSecond isThird

theorem follows_self (position : Bytes) : follows position position = true := by
  cases isNumber : number position with
  | none => exact (follows_iff_of_text (Or.inl isNumber)).mpr (List.le_refl _)
  | some value => exact (follows_iff_of_numbers isNumber isNumber).mpr (Nat.le_refl value)

theorem offered_mem_offers {authorityID position : Bytes} {call : TrackerCall}
    (within : ∀ raw ∈ call.presented authorityID, raw ∈ positions)
    (offered : call.offered authorityID = some position) :
    position ∈ offers positions := by
  obtain ⟨other, watermark, observedNow, clock, rfl, rfl, considered, rfl⟩ :=
    exists_of_offered offered
  exact ⟨considered.2.1, watermark.position, within _ (if_pos rfl), rfl⟩

theorem exists_calls_of_offers {authorityID : Bytes}
    (own : trimSpace authorityID = authorityID) (named : authorityID ≠ []) {items : List Bytes}
    (within : ∀ item ∈ items, item ∈ offers positions) :
    ∃ calls : List TrackerCall,
      (∀ call ∈ calls, ∀ raw ∈ call.presented authorityID, raw ∈ positions) ∧
      calls.filterMap (TrackerCall.offered authorityID) = items := by
  induction items with
  | nil => exact ⟨[], List.forall_mem_nil _, rfl⟩
  | cons item rest ih =>
      obtain ⟨⟨placed, raw, isRaw, rfl⟩, others⟩ := List.forall_mem_cons.mp within
      obtain ⟨calls, presented, offered⟩ := ih others
      have considered : Considered authorityID ⟨raw, ⟨1⟩⟩ := ⟨own.symm ▸ named, placed, rfl⟩
      refine ⟨.advance authorityID ⟨raw, ⟨1⟩⟩ ⟨1⟩ ⟨1⟩ :: calls,
        List.forall_mem_cons.mpr ⟨?_, presented⟩, ?_⟩
      · intro other shown
        rw [TrackerCall.presented, if_pos own] at shown
        rwa [← Option.some.inj shown]
      · have first : TrackerCall.offered authorityID (.advance authorityID ⟨raw, ⟨1⟩⟩ ⟨1⟩ ⟨1⟩) =
            some (trimSpace raw) :=
          if_pos ⟨own, considered⟩
        rw [List.filterMap_cons_some first, offered]

/-- Calls that present only some positions never accept one that compares below
an earlier one, whatever the run, exactly when these positions are unmixed. -/
theorem watermarks_never_regress_iff (positions : Set Bytes) :
    (∀ authorityID defaultLiveness calls,
        (∀ call ∈ calls, ∀ position ∈ TrackerCall.presented authorityID call,
          position ∈ positions) →
        (accepted authorityID (newWatermarkTracker defaultLiveness) calls).Pairwise
          fun earlier later => ¬ compareWatermarkPosition later earlier < 0) ↔
      Unmixed positions := by
  have relation : ∀ earlier later, (¬ compareWatermarkPosition later earlier < 0) ↔
      follows later earlier = true := by
    intro earlier later
    rw [follows, decide_eq_true_iff, Int.not_lt]
  simp only [relation]
  rw [← transitiveOn_offers_iff, ← Gate.pairwise_passed_iff fun item _ => follows_self item]
  constructor
  · intro ordered items within
    have own : trimSpace (bytes "vault") = bytes "vault" := by decide +kernel
    obtain ⟨calls, presented, offered⟩ := exists_calls_of_offers own (by decide) within
    have pairs := ordered (bytes "vault") 0 calls presented
    rw [accepted_eq_passed, offered] at pairs
    exact pairs
  · intro ordered authorityID defaultLiveness calls presented
    rw [accepted_eq_passed]
    refine ordered _ fun item member => ?_
    obtain ⟨call, isCall, offered⟩ := List.mem_filterMap.mp member
    exact offered_mem_offers (presented call isCall) offered

def vaultAdvance (position : Bytes) : TrackerCall :=
  .advance (bytes "vault") ⟨position, ⟨1⟩⟩ ⟨1⟩ ⟨1⟩

/-- The tracker accepts `10`, then `1x`, then `9`. -/
theorem watermark_regresses_after_text :
    ¬ (accepted (bytes "vault") (newWatermarkTracker 0)
        [vaultAdvance (bytes "10"), vaultAdvance (bytes "1x"), vaultAdvance (bytes "9")]).Pairwise
      fun earlier later => ¬ compareWatermarkPosition later earlier < 0 := by
  decide +kernel

end Trstctl.Reconcile.Rounds

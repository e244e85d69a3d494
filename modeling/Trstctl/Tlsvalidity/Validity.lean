import Trstctl.Go.Calendar

/-!
# The maximum validity of public TLS certificates

The dated steps of `internal/tlsvalidity/tlsvalidity.go`, the count of days
that is compared with them, and what `internal/tlsvalidity/readiness.go` says
of a certificate under the step it was issued in.  A validity period includes
its last second, so a day count adds a second before it divides.  Durations are
signed 64-bit numbers of nanoseconds: `Time.Sub` stops at the greatest, and the
added second then wraps.
-/

namespace Trstctl.Tlsvalidity

open Go (Time)

/-- The seconds of a day. -/
def daySeconds : Int :=
  86400

/-- A sum, difference or product as a 64-bit register holds it. -/
def wrapped (value : Int) : Int :=
  (value + 2 ^ 63) % 2 ^ 64 - 2 ^ 63

theorem wrapped_of_fits {value : Int} (least : -2 ^ 63 ≤ value) (most : value < 2 ^ 63) :
    wrapped value = value := by
  unfold wrapped
  omega

/-- A dated step of the maximum validity. -/
structure Step where
  «from» : Time
  «until» : Time
  shouldDays : Int
  maxDays : Int
deriving DecidableEq

/-- `date`: midnight of a day. -/
def date (year month day : Int) : Time :=
  ⟨Go.dayOf ⟨year, month, day⟩ * (daySeconds * Time.second)⟩

/-- The step that has no end. -/
def lastStep : Step :=
  ⟨date 2029 3 15, Time.zero, 46, 47⟩

def steps : List Step :=
  [⟨Time.zero, date 2026 3 15, 397, 398⟩,
    ⟨date 2026 3 15, date 2027 3 15, 199, 200⟩,
    ⟨date 2027 3 15, date 2029 3 15, 99, 100⟩,
    lastStep]

def Step.inEffect (step : Step) (now : Time) : Bool :=
  (step.«from».isZero || !now.before step.«from») &&
    (step.«until».isZero || now.before step.«until»)

/-- `StepFor`: the first step that applies, or else the last. -/
def stepFor (issued : Time) : Step :=
  (steps.find? fun step => step.inEffect issued).getD lastStep

/-- The days of a lifetime, with the last one begun. -/
def requestedDays (lifetime : Int) : Int :=
  if lifetime < 0 then 0
  else
    let period := wrapped (lifetime + Time.second)
    let days := period.tdiv (daySeconds * Time.second)
    if period.tmod (daySeconds * Time.second) ≠ 0 then days + 1 else days

/-- The days of a certificate between its two dates. -/
def validityDays (notBefore notAfter : Time) : Int :=
  if notAfter.before notBefore then 0 else requestedDays (notAfter.sub notBefore)

/-- The longest lifetime of the step. -/
def Step.maxLifetime (step : Step) : Int :=
  wrapped (wrapped (wrapped (step.maxDays * daySeconds) * Time.second) - Time.second)

variable {step : Step}

theorem maxLifetime_eq (least : 1 ≤ step.maxDays) (most : step.maxDays ≤ 100000) :
    step.maxLifetime = step.maxDays * (daySeconds * Time.second) - Time.second := by
  unfold Step.maxLifetime daySeconds Time.second
  have days : wrapped (step.maxDays * 86400) = step.maxDays * 86400 :=
    wrapped_of_fits (by omega) (by omega)
  have lifetime : wrapped (step.maxDays * 86400 * 1000000000) = step.maxDays * 86400 * 1000000000 :=
    wrapped_of_fits (by omega) (by omega)
  rw [days, lifetime, wrapped_of_fits (by omega) (by omega)]
  omega

variable {lifetime : Int}

theorem requestedDays_gt_iff {bound : Int} (nonnegative : 0 ≤ lifetime)
    (fits : lifetime + Time.second < 2 ^ 63) :
    bound < requestedDays lifetime ↔
      bound * (daySeconds * Time.second) < lifetime + Time.second := by
  unfold requestedDays
  rw [if_neg (Int.not_lt.mpr nonnegative)]
  unfold daySeconds Time.second at *
  rw [wrapped_of_fits (by omega) (by omega)]
  dsimp only
  rw [Int.tdiv_eq_ediv_of_nonneg (by omega), Int.tmod_eq_emod_of_nonneg (by omega)]
  split <;> omega

theorem requestedDays_of_wrap (representable : lifetime < 2 ^ 63)
    (wraps : 2 ^ 63 ≤ lifetime + Time.second) :
    requestedDays lifetime < 1 := by
  unfold requestedDays Time.second at *
  have period : wrapped (lifetime + 1000000000) = lifetime + 1000000000 - 2 ^ 64 := by
    unfold wrapped
    omega
  rw [if_neg (by omega), period]
  have negative : (lifetime + 1000000000 - 2 ^ 64).tdiv (daySeconds * 1000000000) ≤ -1 := by
    unfold daySeconds
    rw [← Int.neg_neg (lifetime + 1000000000 - 2 ^ 64), Int.neg_tdiv,
      Int.tdiv_eq_ediv_of_nonneg (by omega)]
    omega
  dsimp only
  split <;> omega

theorem sub_eq {notBefore notAfter : Time} (ordered : notBefore.nanoseconds ≤ notAfter.nanoseconds)
    (fits : notAfter.nanoseconds - notBefore.nanoseconds < 2 ^ 63) :
    notAfter.sub notBefore = notAfter.nanoseconds - notBefore.nanoseconds := by
  unfold Time.sub Time.minDuration Time.maxDuration
  omega

theorem validityDays_eq {notBefore notAfter : Time}
    (ordered : notBefore.nanoseconds ≤ notAfter.nanoseconds) :
    validityDays notBefore notAfter = requestedDays (notAfter.sub notBefore) := by
  unfold validityDays Time.before
  rw [decide_eq_false (Int.not_lt.mpr ordered)]
  rfl

theorem requestedDays_tells_iff (least : 1 ≤ step.maxDays)
    (most : step.maxDays ≤ 100000) (nonnegative : 0 ≤ lifetime)
    (representable : lifetime < 2 ^ 63) :
    (step.maxDays < requestedDays lifetime ↔ step.maxLifetime < lifetime) ↔
      lifetime + Time.second < 2 ^ 63 := by
  rw [maxLifetime_eq least most]
  constructor
  · intro tells
    by_contra wraps
    have none := requestedDays_of_wrap representable (Int.not_lt.mp wraps)
    have longer : step.maxDays * (daySeconds * Time.second) - Time.second < lifetime := by
      unfold daySeconds Time.second at *
      omega
    have counted := tells.mpr longer
    omega
  · intro fits
    rw [requestedDays_gt_iff nonnegative fits]
    omega

/-- The count of days misses no lifetime above the maximum, and adds none,
exactly when the last second does not wrap: for the dates of a certificate and
for a requested lifetime. -/
theorem maximum_told_iff
    (step : Step)
    (least : 1 ≤ step.maxDays)
    (most : step.maxDays ≤ 100000) :
    (∀ notBefore notAfter : Time, notBefore.nanoseconds ≤ notAfter.nanoseconds →
      ((step.maxDays < validityDays notBefore notAfter ↔
        step.maxLifetime < notAfter.nanoseconds - notBefore.nanoseconds) ↔
        notAfter.nanoseconds - notBefore.nanoseconds + Time.second < 2 ^ 63)) ∧
    ∀ lifetime : Int, 0 ≤ lifetime → lifetime < 2 ^ 63 →
      ((step.maxDays < requestedDays lifetime ↔ step.maxLifetime < lifetime) ↔
        lifetime + Time.second < 2 ^ 63) := by
  refine ⟨fun notBefore notAfter ordered => ?_, fun lifetime nonnegative representable =>
    requestedDays_tells_iff least most nonnegative representable⟩
  rw [validityDays_eq ordered]
  by_cases fits : notAfter.nanoseconds - notBefore.nanoseconds < 2 ^ 63
  · rw [sub_eq ordered fits]
    exact requestedDays_tells_iff least most (by omega) fits
  · -- the difference is cut to the greatest duration, whose last second wraps
    have cut : notAfter.sub notBefore = 2 ^ 63 - 1 := by
      unfold Time.sub Time.minDuration Time.maxDuration
      omega
    have none := @requestedDays_of_wrap (2 ^ 63 - 1) (by omega) (by unfold Time.second; omega)
    have longer : step.maxLifetime < notAfter.nanoseconds - notBefore.nanoseconds := by
      rw [maxLifetime_eq least most]
      unfold daySeconds Time.second
      omega
    rw [cut]
    refine iff_of_false (fun tells => ?_) (by unfold Time.second; omega)
    have counted := tells.mpr longer
    omega

/-- The theorem at a certificate of 47 days and one second, and at a lifetime of
292 years. -/
theorem maximum_told_iff_last_step :
    47 < validityDays (date 2030 1 1) (date 2030 2 17) ∧
      ¬47 < requestedDays (2 ^ 63 - 1) := by
  obtain ⟨dates, lifetimes⟩ := maximum_told_iff lastStep (by decide) (by decide)
  refine ⟨((dates (date 2030 1 1) (date 2030 2 17) (by decide)).mpr (by decide)).mpr (by decide),
    fun counted => ?_⟩
  have told := (lifetimes (2 ^ 63 - 1) (by decide) (by decide)).mp
    (iff_of_true counted (by decide))
  exact absurd told (by decide)

/-- An instant that a certificate can hold: a whole second from year 0 through
year 9999. -/
structure Representable (time : Time) : Prop where
  whole : time.nanoseconds % Time.second = 0
  least : (date 0 1 1).nanoseconds ≤ time.nanoseconds
  most : time.nanoseconds < (date 10000 1 1).nanoseconds

/-- The last second of year 9999, which says that a certificate does not
expire. -/
def noExpiry : Time :=
  (date 10000 1 1).add (-Time.second)

/-- A certificate that does not expire has no day too many. -/
theorem maximum_missed_of_noExpiry :
    ¬∀ (step : Step) (notBefore notAfter : Time), 1 ≤ step.maxDays → step.maxDays ≤ 100000 →
      Representable notBefore → Representable notAfter →
      notBefore.nanoseconds ≤ notAfter.nanoseconds →
      (step.maxDays < validityDays notBefore notAfter ↔
        step.maxLifetime < notAfter.nanoseconds - notBefore.nanoseconds) := by
  intro told
  have exceeds := (told (stepFor (date 2030 1 1)) (date 2030 1 1) noExpiry (by decide) (by decide)
    ⟨by decide, by decide, by decide⟩ ⟨by decide, by decide, by decide⟩ (by decide)).mpr (by decide)
  exact absurd exceeds (by decide)

/-- What a certificate is, as far as the dated steps are concerned. -/
inductive Scope where
  | publicTLS
  | privateTLS
  | notTLSServer
  | caCertificate
  | unknown
deriving DecidableEq

/-- The facts of a certificate that its validity at issuance is judged by. -/
structure CertificateFacts where
  notBefore : Time
  notAfter : Time
  scope : Scope

/-- The members of `CertificateReadiness` on the validity at issuance. -/
structure IssuanceReadiness where
  validityDays : Int
  maxDaysAtIssuance : Int
  exceedsMaximumAtIssuance : Bool

/-- The part of `certificateReadiness` on the validity at issuance. -/
def issuanceReadiness (facts : CertificateFacts) : IssuanceReadiness :=
  if facts.notBefore.isZero then ⟨0, 0, false⟩
  else
    let atIssuance := stepFor facts.notBefore
    let days := validityDays facts.notBefore facts.notAfter
    ⟨days, atIssuance.maxDays,
      decide (facts.scope = .publicTLS) && decide (atIssuance.maxDays < days)⟩

theorem maxDays_bounds (member : step ∈ steps) :
    1 ≤ step.maxDays ∧ step.maxDays ≤ 100000 := by
  revert step
  decide

theorem stepFor_mem (issued : Time) : stepFor issued ∈ steps := by
  unfold stepFor
  cases found : steps.find? fun step => step.inEffect issued with
  | none =>
      rw [Option.getD_none]
      decide
  | some step =>
      rw [Option.getD_some]
      exact List.mem_of_find?_eq_some found

/-- A step counts more days than its maximum exactly for the validity periods
that outlive it, a reversed one included. -/
theorem validityDays_gt_iff (member : step ∈ steps) {notBefore notAfter : Time}
    (fits : notAfter.nanoseconds - notBefore.nanoseconds + Time.second < 2 ^ 63) :
    step.maxDays < validityDays notBefore notAfter ↔
      step.maxLifetime < notAfter.nanoseconds - notBefore.nanoseconds := by
  obtain ⟨least, most⟩ := maxDays_bounds member
  by_cases ordered : notBefore.nanoseconds ≤ notAfter.nanoseconds
  · have representable : notAfter.nanoseconds - notBefore.nanoseconds < 2 ^ 63 := by
      unfold Time.second at fits
      omega
    rw [validityDays_eq ordered, sub_eq ordered representable]
    exact (requestedDays_tells_iff least most (Int.sub_nonneg.mpr ordered) representable).mpr fits
  · have reversed : notAfter.nanoseconds < notBefore.nanoseconds := Int.not_le.mp ordered
    have uncounted : validityDays notBefore notAfter = 0 := by
      rw [validityDays, Time.before, decide_eq_true reversed, if_pos rfl]
    have lifetime : 0 ≤ step.maxLifetime := by
      rw [maxLifetime_eq least most]
      unfold daySeconds Time.second
      omega
    rw [uncounted]
    exact iff_of_false (by omega) (by omega)

/-- A certificate with a validity below 292 years is reported above the maximum
at its issuance exactly when it has a date of issue, is public and outlives the
step it was issued in. -/
theorem exceedsMaximumAtIssuance_iff
    (facts : CertificateFacts)
    (fits : facts.notAfter.nanoseconds - facts.notBefore.nanoseconds + Time.second < 2 ^ 63) :
    (issuanceReadiness facts).exceedsMaximumAtIssuance = true ↔
      facts.notBefore.isZero = false ∧ facts.scope = .publicTLS ∧
        (stepFor facts.notBefore).maxLifetime <
          facts.notAfter.nanoseconds - facts.notBefore.nanoseconds := by
  rw [issuanceReadiness]
  cases issued : facts.notBefore.isZero with
  | true => simp
  | false =>
      simp [validityDays_gt_iff (stepFor_mem facts.notBefore) fits]

/-- The theorem at a certificate of 47 days and one second. -/
theorem exceedsMaximumAtIssuance_iff_last_step :
    (issuanceReadiness ⟨date 2030 1 1, date 2030 2 17, .publicTLS⟩).exceedsMaximumAtIssuance =
      true :=
  (exceedsMaximumAtIssuance_iff _ (by decide)).mpr ⟨by decide, rfl, by decide⟩

end Trstctl.Tlsvalidity

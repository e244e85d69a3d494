import Trstctl.Go.Time

/-!
# Maintenance windows

`internal/lifecycle/window.go`.  A `time.Location` is the function from instants
to offsets from UTC, in whole minutes, and the days of the week are numbered
from Sunday.
-/

namespace Trstctl.Lifecycle

open Go (Time)

def minute : Int :=
  60 * Time.second

/-- `time.Location`, by the offset in minutes at an instant. -/
abbrev Location := Time → Int

/-- A weekly window of maintenance. -/
structure Window where
  days : List Int
  startMinute : Int
  endMinute : Int
  location : Option Location

namespace Window

/-- The minutes since the zero `Time` that a clock in the location has shown. -/
def localMinute (window : Window) (t : Time) : Int :=
  t.nanoseconds / minute + match window.location with
    | none => 0
    | some location => location t

def wraps (window : Window) : Bool :=
  window.endMinute ≤ window.startMinute

def namesDay (window : Window) (day : Int) : Bool :=
  window.days.isEmpty || window.days.contains day

/-- What `Allows` decides by: the weekday, the first of January of year 1 being
a Monday, and the minute of the day. -/
def opens (window : Window) (shown : Int) : Bool :=
  let day := (shown / 1440 + 1) % 7
  let minute := shown % 1440
  if !window.wraps then
    window.namesDay day && (window.startMinute ≤ minute && minute < window.endMinute)
  else
    (window.startMinute ≤ minute && window.namesDay day) ||
      (minute < window.endMinute && window.namesDay ((day + 6) % 7))

def allows (window : Window) (t : Time) : Bool :=
  window.opens (window.localMinute t)

end Window

abbrev WindowSet := List Window

namespace WindowSet

/-- `Allows` of a set, which is unrestricted when it is empty. -/
def allows (set : WindowSet) (t : Time) : Bool :=
  set.isEmpty || set.any (·.allows t)

/-- The loop of `NextOpen` from a probe. -/
def search (set : WindowSet) : Nat → Time → Time
  | 0, _ => Time.zero
  | steps + 1, probe => if set.allows probe then probe else search set steps (probe.add minute)

def nextOpen (set : WindowSet) (t : Time) : Time :=
  if set.isEmpty then t else search set (7 * 24 * 60) (t.truncate minute)

end WindowSet

/-- The instant of a whole minute. -/
def atMinute (count : Int) : Time :=
  ⟨count * minute⟩

/-- The earliest whole minute at or after `t`, truncated, that the set admits. -/
structure Earliest (set : WindowSet) (t opening : Time) : Prop where
  whole : ∃ count, opening = atMinute count
  later : (t.truncate minute).nanoseconds ≤ opening.nanoseconds
  admitted : WindowSet.allows set opening = true
  first : ∀ count, (t.truncate minute).nanoseconds ≤ (atMinute count).nanoseconds →
    (atMinute count).nanoseconds < opening.nanoseconds →
    WindowSet.allows set (atMinute count) = false

/-- A time that is not zero is the earliest opening, and zero means never. -/
def Promised (set : WindowSet) (t : Time) : Prop :=
  ((set.nextOpen t).isZero = false → Earliest set t (set.nextOpen t)) ∧
    ((set.nextOpen t).isZero = true → ∀ u : Time, t.nanoseconds ≤ u.nanoseconds →
      WindowSet.allows set u = false)

/-- The nanoseconds of a day. -/
def dayLength : Int :=
  1440 * minute

/-- The day since the zero `Time` on which a year of the calendar begins. -/
def yearStart (year : Int) : Int :=
  365 * (year - 1) + (year - 1) / 4 - (year - 1) / 100 + (year - 1) / 400

/-- A location whose offset changes at most twice in each year, by at most two
hours. -/
structure Seasonal (location : Location) : Prop where
  twice : ∀ year, ∃ first second : Int, ∀ instant, yearStart year * dayLength ≤ instant →
    instant < yearStart (year + 1) * dayLength → location ⟨instant⟩ ≠ location ⟨instant - 1⟩ →
    instant = first ∨ instant = second
  hours : ∀ instant, location ⟨instant⟩ - location ⟨instant - 1⟩ ≤ 120 ∧
    location ⟨instant - 1⟩ - location ⟨instant⟩ ≤ 120

/-- In the seven days probed from `t` the clocks jump over every minute of the
week at which a window opens, though one does. -/
def Skipped (set : WindowSet) (t : Time) : Prop :=
  (∃ window ∈ set, ∃ shown, window.opens shown = true) ∧
    ∀ window ∈ set, ∀ shown, window.opens shown = true → ∀ passed : Nat, passed < 7 * 24 * 60 →
      window.localMinute (atMinute (t.nanoseconds / minute + passed)) % 10080 ≠ shown % 10080

/-- The first minute the set admits in the seven days probed from `t` is the
zero `Time`. -/
def OpensAtZero (set : WindowSet) (t : Time) : Prop :=
  t.nanoseconds / minute ≤ 0 ∧ 0 < t.nanoseconds / minute + 7 * 24 * 60 ∧
    WindowSet.allows set Time.zero = true ∧
    ∀ count < 0, t.nanoseconds / minute ≤ count → WindowSet.allows set (atMinute count) = false

theorem truncate_minute (t : Time) :
    t.truncate minute = atMinute (t.nanoseconds / minute) := by
  rw [Time.truncate, if_neg (by decide), atMinute, Time.mk.injEq]
  have parts := Int.emod_add_ediv_mul t.nanoseconds minute
  omega

theorem add_minute (count : Int) : (atMinute count).add minute = atMinute (count + 1) := by
  rw [Time.add, atMinute, atMinute, Time.mk.injEq, Int.add_mul, Int.one_mul]

theorem nanoseconds_lt_iff {count other : Int} :
    (atMinute count).nanoseconds < (atMinute other).nanoseconds ↔ count < other := by
  simp only [atMinute, minute, Time.second]
  omega

theorem nanoseconds_le_iff {count other : Int} :
    (atMinute count).nanoseconds ≤ (atMinute other).nanoseconds ↔ count ≤ other := by
  simp only [atMinute, minute, Time.second]
  omega

theorem search_spec (set : WindowSet) (steps : Nat) (count : Int) :
    (∃ passed : Nat, passed < steps ∧
        WindowSet.allows set (atMinute (count + passed)) = true ∧
        (∀ before : Nat, before < passed →
          WindowSet.allows set (atMinute (count + before)) = false) ∧
        WindowSet.search set steps (atMinute count) = atMinute (count + passed)) ∨
      (∀ passed : Nat, passed < steps →
        WindowSet.allows set (atMinute (count + passed)) = false) ∧
        WindowSet.search set steps (atMinute count) = Time.zero := by
  induction steps generalizing count with
  | zero => exact Or.inr ⟨fun passed below => absurd below (by omega), rfl⟩
  | succ steps ih =>
      rw [WindowSet.search, add_minute]
      cases admitted : WindowSet.allows set (atMinute count) with
      | true =>
          refine Or.inl ⟨0, by omega, by simpa using admitted, fun before below => ?_, by simp⟩
          omega
      | false =>
          have shift (passed : Nat) : count + 1 + passed = count + (passed + 1 : Nat) := by omega
          rcases ih (count + 1) with ⟨passed, below, open', closed, found⟩ | none
          · refine Or.inl ⟨passed + 1, by omega, shift passed ▸ open', ?_, ?_⟩
            · intro before earlier
              rcases before with _ | before
              · simpa using admitted
              · exact shift before ▸ closed before (by omega)
            · rw [if_neg (by decide), found, shift]
          · refine Or.inr ⟨?_, by rw [if_neg (by decide), none.2]⟩
            intro passed below
            rcases passed with _ | passed
            · simpa using admitted
            · exact shift passed ▸ none.1 passed (by omega)

theorem closed_of_probed {set : WindowSet} {start : Int} {steps : Nat}
    (closed : ∀ passed : Nat, passed < steps →
      WindowSet.allows set (atMinute (start + passed)) = false)
    {count : Int}
    (inside : start ≤ count)
    (below : count < start + steps) :
    WindowSet.allows set (atMinute count) = false := by
  have same : count = start + (count - start).toNat := by omega
  rw [same]
  exact closed _ (by omega)

variable {shown : Int}

theorem opens_of_emod_eq (window : Window) {other : Int} (same : shown % 10080 = other % 10080) :
    window.opens shown = window.opens other := by
  have days : (shown / 1440 + 1) % 7 = (other / 1440 + 1) % 7 := by omega
  have minutes : shown % 1440 = other % 1440 := by omega
  rw [Window.opens, Window.opens, days, minutes]

theorem eq_of_unchanged {location : Location} {start : Int} (length : Nat)
    (unchanged : ∀ instant, start < instant → instant < start + length →
      location ⟨instant⟩ = location ⟨instant - 1⟩)
    (passed : Nat) :
    passed < length → location ⟨start + passed⟩ = location ⟨start⟩ := by
  induction passed with
  | zero => simp
  | succ passed ih =>
      intro below
      have step := unchanged (start + (passed + 1 : Nat)) (by omega) (by omega)
      have before : start + ((passed + 1 : Nat) : Int) - 1 = start + passed := by omega
      rw [step, before, ih (by omega)]

/-- Every year begins after the instants before it, and with three weeks in one
of which the offset does not change. -/
theorem exists_steady_week {location : Location} (seasonal : Seasonal location) (t : Time) :
    ∃ start : Int, t.nanoseconds ≤ (atMinute start).nanoseconds ∧
      ∀ instant, (atMinute start).nanoseconds < instant →
        instant < (atMinute (start + 10080)).nanoseconds →
        location ⟨instant⟩ = location ⟨instant - 1⟩ := by
  let year := t.nanoseconds.natAbs + 2
  obtain ⟨first, second, changes⟩ := seasonal.twice year
  have begins : t.nanoseconds ≤ yearStart year * dayLength := by
    simp only [yearStart, dayLength, minute, Time.second, year]
    omega
  have lasts : yearStart year * dayLength + 3 * (10080 * minute) ≤
      yearStart (year + 1) * dayLength := by
    simp only [yearStart, dayLength, minute, Time.second]
    omega
  -- Each change falls into one of the three weeks.
  have pick : ∃ week : Int, 0 ≤ week ∧ week < 3 ∧
      ∀ instant, yearStart year * dayLength + week * (10080 * minute) < instant →
        instant < yearStart year * dayLength + (week + 1) * (10080 * minute) →
        instant ≠ first ∧ instant ≠ second := by
    by_contra! busy
    obtain ⟨a, _, _, inA⟩ := busy 0 (by omega) (by omega)
    obtain ⟨b, _, _, inB⟩ := busy 1 (by omega) (by omega)
    obtain ⟨c, _, _, inC⟩ := busy 2 (by omega) (by omega)
    simp only [minute, Time.second] at *
    omega
  obtain ⟨week, _, _, free⟩ := pick
  have aligned : (atMinute (yearStart year * 1440 + week * 10080)).nanoseconds =
      yearStart year * dayLength + week * (10080 * minute) := by
    simp only [atMinute, dayLength, minute, Time.second]
    omega
  have ended : (atMinute (yearStart year * 1440 + week * 10080 + 10080)).nanoseconds =
      yearStart year * dayLength + (week + 1) * (10080 * minute) := by
    simp only [atMinute, dayLength, minute, Time.second]
    omega
  refine ⟨yearStart year * 1440 + week * 10080, ?_, ?_⟩
  · rw [aligned]
    simp only [minute, Time.second] at *
    omega
  · intro instant after before
    rw [aligned] at after
    rw [ended] at before
    by_contra changed
    have member := changes instant (by simp only [minute, Time.second] at *; omega)
      (by simp only [minute, Time.second] at *; omega) changed
    obtain ⟨notFirst, notSecond⟩ := free instant after before
    exact member.elim notFirst notSecond

theorem seasonal_constant (offset : Int) : Seasonal fun _ => offset where
  twice _ := ⟨0, 0, fun _ _ _ changed => absurd rfl changed⟩
  hours _ := by omega

variable {window : Window}

theorem exists_offset (seasonal : ∀ location ∈ window.location, Seasonal location) :
    ∃ location, Seasonal location ∧
      ∀ t, window.localMinute t = t.nanoseconds / minute + location t := by
  rcases named : window.location with _ | location
  · exact ⟨fun _ => 0, seasonal_constant 0, fun t => by rw [Window.localMinute, named]⟩
  · exact ⟨location, seasonal location named, fun t => by rw [Window.localMinute, named]⟩

theorem exists_allows (seasonal : ∀ location ∈ window.location, Seasonal location)
    (opens : window.opens shown = true) (t : Time) :
    ∃ u : Time, t.nanoseconds ≤ u.nanoseconds ∧ window.allows u = true := by
  obtain ⟨location, changes, shows⟩ := exists_offset seasonal
  obtain ⟨start, later, unchanged⟩ := exists_steady_week changes t
  let passed := (shown - start - location (atMinute start)) % 10080
  have bounds : 0 ≤ passed ∧ passed < 10080 := by omega
  have steady : location (atMinute (start + passed)) = location (atMinute start) := by
    have week := eq_of_unchanged (10080 * minute).toNat (fun instant after before =>
      unchanged instant after (by simp only [atMinute, minute, Time.second] at *; omega))
      (passed * minute).toNat
    have distance : (atMinute start).nanoseconds + ((passed * minute).toNat : Int) =
        (atMinute (start + passed)).nanoseconds := by
      simp only [atMinute, minute, Time.second]
      omega
    rw [distance] at week
    exact week (by simp only [minute, Time.second]; omega)
  refine ⟨atMinute (start + passed), ?_, ?_⟩
  · have ordered := nanoseconds_le_iff.mpr (show start ≤ start + passed by omega)
    omega
  · have whole : (atMinute (start + passed)).nanoseconds / minute = start + passed := by
      simp only [atMinute, minute, Time.second]
      omega
    have same : (start + passed + location (atMinute start)) % 10080 = shown % 10080 := by omega
    rw [Window.allows, shows, whole, steady, opens_of_emod_eq window same, opens]

theorem allows_iff {set : WindowSet} (nonempty : set ≠ []) (t : Time) :
    WindowSet.allows set t = true ↔ ∃ window ∈ set, window.allows t = true := by
  rw [WindowSet.allows, Bool.or_eq_true, List.isEmpty_iff, or_iff_right nonempty, List.any_eq_true]

theorem exists_later {set : WindowSet} (nonempty : set ≠ [])
    (seasonal : ∀ window ∈ set, ∀ location ∈ window.location, Seasonal location)
    (member : window ∈ set) (opens : window.opens shown = true) (t : Time) :
    ∃ u : Time, t.nanoseconds ≤ u.nanoseconds ∧ WindowSet.allows set u = true := by
  obtain ⟨u, later, admitted⟩ := exists_allows (seasonal window member) opens t
  exact ⟨u, later, (allows_iff nonempty u).mpr ⟨window, member, admitted⟩⟩

theorem skipped_iff {set : WindowSet} (nonempty : set ≠ []) (t : Time) :
    Skipped set t ↔
      (∃ window ∈ set, ∃ shown, window.opens shown = true) ∧
        ∀ passed : Nat, passed < 7 * 24 * 60 →
          WindowSet.allows set (atMinute (t.nanoseconds / minute + passed)) = false := by
  refine and_congr_right fun _ => ⟨fun jumped passed below => ?_, fun closed => ?_⟩
  · by_contra admitted
    obtain ⟨window, member, opens⟩ := (allows_iff nonempty _).mp (by simpa using admitted)
    exact jumped window member _ opens passed below rfl
  · intro window member shown opens passed below same
    have admitted := (allows_iff nonempty
      (atMinute (t.nanoseconds / minute + passed))).mpr ⟨window, member, by
        rw [Window.allows, opens_of_emod_eq window same, opens]⟩
    rw [closed passed below] at admitted
    cases admitted

theorem isZero_atMinute (count : Int) : (atMinute count).isZero = true ↔ count = 0 := by
  rw [Time.isZero, beq_iff_eq]
  simp only [atMinute, minute, Time.second]
  omega

theorem zero_eq_atMinute : Time.zero = atMinute 0 := by decide

section Search

variable {set : WindowSet} {t : Time}

theorem not_skipped_of_admitted (nonempty : set ≠ []) {passed : Nat} (below : passed < 7 * 24 * 60)
    (admitted : WindowSet.allows set (atMinute (t.nanoseconds / minute + passed)) = true) :
    ¬ Skipped set t := by
  rw [skipped_iff nonempty]
  rintro ⟨-, skipped⟩
  rw [skipped passed below] at admitted
  cases admitted

theorem not_opensAtZero_of_closed
    (closed : ∀ passed : Nat, passed < 7 * 24 * 60 →
      WindowSet.allows set (atMinute (t.nanoseconds / minute + passed)) = false) :
    ¬ OpensAtZero set t := by
  rintro ⟨started, ends, opened, -⟩
  rw [zero_eq_atMinute, closed_of_probed closed started (by omega)] at opened
  cases opened

/-- The search finds a minute that the set admits: the promise is kept unless
that minute reads as never. -/
theorem promised_iff_of_found (nonempty : set ≠ [])
    (seasonal : ∀ window ∈ set, ∀ location ∈ window.location, Seasonal location) {passed : Nat}
    (below : passed < 7 * 24 * 60)
    (admitted : WindowSet.allows set (atMinute (t.nanoseconds / minute + passed)) = true)
    (closed : ∀ earlier : Nat, earlier < passed →
      WindowSet.allows set (atMinute (t.nanoseconds / minute + earlier)) = false)
    (found : set.nextOpen t = atMinute (t.nanoseconds / minute + passed)) :
    Promised set t ↔ ¬ OpensAtZero set t := by
  rw [Promised, found, OpensAtZero, zero_eq_atMinute]
  by_cases origin : t.nanoseconds / minute + passed = 0
  · have before : ∀ count < 0, t.nanoseconds / minute ≤ count →
        WindowSet.allows set (atMinute count) = false :=
      fun count negative inside => closed_of_probed closed inside (by omega)
    rw [origin] at admitted ⊢
    refine iff_of_false ?_ ?_
    · rintro ⟨-, never⟩
      obtain ⟨window, member, opens⟩ := (allows_iff nonempty _).mp admitted
      obtain ⟨later, after, opened⟩ := exists_later nonempty seasonal member opens t
      rw [never ((isZero_atMinute 0).mpr rfl) later after] at opened
      cases opened
    · intro elsewhere
      exact elsewhere ⟨by omega, by omega, admitted, before⟩
  · have nonzero : (atMinute (t.nanoseconds / minute + passed)).isZero = false := by
      rw [← Bool.not_eq_true, isZero_atMinute]
      exact origin
    refine iff_of_true ⟨fun _ => ?_, fun reads => ?_⟩ ?_
    · refine ⟨⟨_, rfl⟩, ?_, admitted, ?_⟩
      · rw [truncate_minute]
        exact nanoseconds_le_iff.mpr (by omega)
      · intro count after before
        rw [truncate_minute] at after
        exact closed_of_probed closed (nanoseconds_le_iff.mp after) (nanoseconds_lt_iff.mp before)
    · rw [nonzero] at reads
      cases reads
    · rintro ⟨started, ends, opened, before⟩
      rcases Int.lt_or_gt_of_ne origin with earlier | later
      · rw [before _ earlier (by omega)] at admitted
        cases admitted
      · rw [closed_of_probed closed started (by omega)] at opened
        cases opened

/-- The search finds nothing: the promise is kept unless an opening is skipped. -/
theorem promised_iff_of_closed (nonempty : set ≠ [])
    (seasonal : ∀ window ∈ set, ∀ location ∈ window.location, Seasonal location)
    (closed : ∀ passed : Nat, passed < 7 * 24 * 60 →
      WindowSet.allows set (atMinute (t.nanoseconds / minute + passed)) = false)
    (found : set.nextOpen t = Time.zero) :
    Promised set t ↔ ¬ Skipped set t := by
  have reads : (atMinute 0).isZero = true := (isZero_atMinute 0).mpr rfl
  rw [Promised, found, skipped_iff nonempty, zero_eq_atMinute]
  constructor
  · rintro ⟨-, never⟩ ⟨⟨window, member, shown, opens⟩, -⟩
    obtain ⟨later, after, opened⟩ := exists_later nonempty seasonal member opens t
    rw [never reads later after] at opened
    cases opened
  · intro unskipped
    refine ⟨fun nonzero => ?_, fun _ u after => ?_⟩
    · rw [reads] at nonzero
      cases nonzero
    · by_contra admitted
      obtain ⟨window, member, opens⟩ := (allows_iff nonempty u).mp (by simpa using admitted)
      exact unskipped ⟨⟨window, member, _, opens⟩, closed⟩

end Search

/-- `NextOpen` keeps its promise unless the clocks jump over all openings of the
week it probes, or the opening it finds is the zero `Time`. -/
theorem nextOpen_promised_iff
    {set : WindowSet}
    (nonempty : set ≠ [])
    (seasonal : ∀ window ∈ set, ∀ location ∈ window.location, Seasonal location)
    (t : Time) :
    Promised set t ↔ ¬ Skipped set t ∧ ¬ OpensAtZero set t := by
  have searched : set.nextOpen t =
      WindowSet.search set (7 * 24 * 60) (atMinute (t.nanoseconds / minute)) := by
    rw [WindowSet.nextOpen, if_neg (by simpa using nonempty), truncate_minute]
  rcases search_spec set (7 * 24 * 60) (t.nanoseconds / minute) with
    ⟨passed, below, admitted, closed, found⟩ | ⟨closed, found⟩
  · rw [promised_iff_of_found nonempty seasonal below admitted closed (searched.trans found)]
    exact (and_iff_right (not_skipped_of_admitted nonempty below admitted)).symm
  · rw [promised_iff_of_closed nonempty seasonal closed (searched.trans found)]
    exact (and_iff_left (not_opensAtZero_of_closed closed)).symm

/-- Five hours behind UTC, and four from the third Sunday of year 1 on, when the
clocks go from 02:00 to 03:00. -/
def springForward : Location :=
  fun t => if t.nanoseconds < 19140 * minute then -300 else -240

theorem seasonal_springForward : Seasonal springForward where
  twice year := by
    refine ⟨19140 * minute, 19140 * minute, fun instant _ _ changed => Or.inl ?_⟩
    by_contra elsewhere
    refine changed ?_
    by_cases early : instant < 19140 * minute
    · rw [springForward, springForward, if_pos early,
        if_pos (show instant - 1 < 19140 * minute by omega)]
    · rw [springForward, springForward, if_neg early,
        if_neg (show ¬ instant - 1 < 19140 * minute by omega)]
  hours instant := by
    simp only [springForward]
    split <;> split <;> omega

/-- Sundays from 03:00 to 04:00 in that location. -/
def sundayMorning : Window where
  days := [0]
  startMinute := 3 * 60
  endMinute := 4 * 60
  location := some springForward

/-- From a closed instant on the Sunday before, over the change of the clocks to the
opening right behind it. -/
theorem nextOpen_promised_iff_sundayMorning :
    WindowSet.allows [sundayMorning] (atMinute 9200) = false ∧
      Promised [sundayMorning] (atMinute 9200) := by
  refine ⟨by decide, (nextOpen_promised_iff (by simp) ?_ (atMinute 9200)).mpr ⟨?_, ?_⟩⟩
  · intro window member location named
    rw [List.mem_singleton.mp member] at named
    obtain rfl := Option.some.inj named
    exact seasonal_springForward
  · rintro ⟨-, jumped⟩
    exact jumped sundayMorning (by simp) 8820 (by decide) 9940 (by decide) (by decide)
  · rintro ⟨started, -⟩
    exact absurd started (by decide)

/-- Sundays from 02:00 to 03:00 in that location. -/
def sundayNight : Window where
  days := [0]
  startMinute := 2 * 60
  endMinute := 3 * 60
  location := some springForward

/-- When the window closes on the Sunday before, the next one is jumped over and
`NextOpen` answers never. -/
theorem nextOpen_misses_recurring_window :
    ¬ ∀ (set : WindowSet) (t : Time), set ≠ [] →
      (∀ window ∈ set, ∀ location ∈ window.location, Seasonal location) → Promised set t := by
  intro promised
  have kept := promised [sundayNight] (atMinute 9120) (by simp) (by
    intro window member location named
    rw [List.mem_singleton.mp member] at named
    obtain rfl := Option.some.inj named
    exact seasonal_springForward)
  have jumped (passed : Nat) (below : passed < 7 * 24 * 60) :
      WindowSet.allows [sundayNight] (atMinute (9120 + passed)) = false := by
    have whole : (atMinute (9120 + passed)).nanoseconds / minute = 9120 + passed := by
      simp only [atMinute, minute, Time.second]
      omega
    have shown : sundayNight.localMinute (atMinute (9120 + passed)) =
        if passed < 10020 then 8820 + (passed : Int) else 8880 + passed := by
      have early : (atMinute (9120 + passed)).nanoseconds < 19140 * minute ↔ passed < 10020 := by
        simp only [atMinute, minute, Time.second]
        omega
      simp only [Window.localMinute, whole, sundayNight, springForward, early]
      split <;> omega
    have straight : sundayNight.wraps = false := by decide
    by_contra admitted
    obtain ⟨sunday, begun, running⟩ : sundayNight.namesDay
        ((sundayNight.localMinute (atMinute (9120 + passed)) / 1440 + 1) % 7) = true ∧
        sundayNight.startMinute ≤ sundayNight.localMinute (atMinute (9120 + passed)) % 1440 ∧
        sundayNight.localMinute (atMinute (9120 + passed)) % 1440 < sundayNight.endMinute := by
      simpa [WindowSet.allows, Window.allows, Window.opens, straight] using admitted
    have day : (sundayNight.localMinute (atMinute (9120 + passed)) / 1440 + 1) % 7 = 0 := by
      simpa [Window.namesDay, sundayNight] using sunday
    rw [shown] at day begun running
    change 120 ≤ _ at begun
    change _ < 180 at running
    omega
  have never : WindowSet.nextOpen [sundayNight] (atMinute 9120) = Time.zero := by
    have start : (atMinute 9120).truncate minute = atMinute 9120 := by decide
    rw [WindowSet.nextOpen, if_neg (by simp), start]
    rcases search_spec [sundayNight] (7 * 24 * 60) 9120 with ⟨passed, below, admitted, -⟩ | none
    · rw [jumped passed below] at admitted
      cases admitted
    · exact none.2
  have closed := kept.2 (by rw [never]; rfl) (atMinute 29160) (by decide)
  exact absurd closed (by decide)

end Trstctl.Lifecycle

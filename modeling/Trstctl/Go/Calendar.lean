import Trstctl.Go.Time
import Trstctl.Library.Codes

/-!
# Dates and the text of an instant

The proleptic Gregorian date of an instant and its text in the layout
`2006-01-02T15:04:05.999999999Z07:00` in UTC.  The text determines the instant.
-/

namespace Trstctl.Go

/-- A date, with months and days counted from one. -/
@[ext]
structure Date where
  year : Int
  month : Int
  day : Int
deriving Repr

/-- The year that starts in March, the days since its start, and so a leap day
as the last day of its year, century or era. -/
structure MarchYear where
  era : Int
  century : Int
  leapCycle : Int
  year : Int
  days : Int

/-- The March year of a day, counted from January 1 of year 1. -/
def marchYear (day : Int) : MarchYear :=
  let march := day + 306
  let dayOfEra := march % 146097
  let century := min (dayOfEra / 36524) 3
  let dayOfCentury := dayOfEra - 36524 * century
  let leapCycle := dayOfCentury / 1461
  let dayOfCycle := dayOfCentury - 1461 * leapCycle
  let year := min (dayOfCycle / 365) 3
  { era := march / 146097
    century := century
    leapCycle := leapCycle
    year := year
    days := dayOfCycle - 365 * year }

/-- The date of a day, counted from January 1 of year 1. -/
def dateOf (day : Int) : Date :=
  let march := marchYear day
  let month := (5 * march.days + 2) / 153
  let year := 400 * march.era + 100 * march.century + 4 * march.leapCycle + march.year
  { year := if month < 10 then year else year + 1
    month := if month < 10 then month + 3 else month - 9
    day := march.days - (153 * month + 2) / 5 + 1 }

def dayOf (date : Date) : Int :=
  let month := if 2 < date.month then date.month - 3 else date.month + 9
  let year := if 2 < date.month then date.year else date.year - 1
  146097 * (year / 400) + 36524 * (year % 400 / 100) + 1461 * (year % 100 / 4) + 365 * (year % 4) +
    ((153 * month + 2) / 5 + date.day - 1) - 306

theorem marchYear_bounds (day : Int) :
    (0 ≤ (marchYear day).century ∧ (marchYear day).century ≤ 3) ∧
      (0 ≤ (marchYear day).leapCycle ∧ (marchYear day).leapCycle ≤ 24) ∧
      (0 ≤ (marchYear day).year ∧ (marchYear day).year ≤ 3) ∧
      (0 ≤ (marchYear day).days ∧ (marchYear day).days ≤ 365) := by
  simp only [marchYear]
  omega

theorem marchYear_sum (day : Int) :
    146097 * (marchYear day).era + 36524 * (marchYear day).century +
      1461 * (marchYear day).leapCycle + 365 * (marchYear day).year + (marchYear day).days =
        day + 306 := by
  simp only [marchYear]
  omega

theorem dateOf_bounds (day : Int) :
    (1 ≤ (dateOf day).month ∧ (dateOf day).month ≤ 12) ∧
      (1 ≤ (dateOf day).day ∧ (dateOf day).day ≤ 31) := by
  obtain ⟨-, -, -, days⟩ := marchYear_bounds day
  simp only [dateOf]
  omega

theorem parts_of_year {era century leapCycle year : Int} (centuryBounds : 0 ≤ century ∧ century ≤ 3)
    (leapCycleBounds : 0 ≤ leapCycle ∧ leapCycle ≤ 24) (yearBounds : 0 ≤ year ∧ year ≤ 3) :
    (400 * era + 100 * century + 4 * leapCycle + year) / 400 = era ∧
      (400 * era + 100 * century + 4 * leapCycle + year) % 400 / 100 = century ∧
      (400 * era + 100 * century + 4 * leapCycle + year) % 100 / 4 = leapCycle ∧
      (400 * era + 100 * century + 4 * leapCycle + year) % 4 = year := by
  refine ⟨by omega, ?_, ?_, by omega⟩
  · have ofEra : (400 * era + 100 * century + 4 * leapCycle + year) % 400 =
        100 * century + 4 * leapCycle + year := by omega
    omega
  · have ofCentury : (400 * era + 100 * century + 4 * leapCycle + year) % 100 =
        4 * leapCycle + year := by omega
    omega

theorem dayOf_dateOf (day : Int) : dayOf (dateOf day) = day := by
  obtain ⟨century, leapCycle, year, days⟩ := marchYear_bounds day
  have sum := marchYear_sum day
  obtain ⟨era_eq, century_eq, leapCycle_eq, year_eq⟩ :=
    @parts_of_year (marchYear day).era _ _ _ century leapCycle year
  simp only [dayOf, dateOf]
  by_cases early : (5 * (marchYear day).days + 2) / 153 < 10
  · have afterFebruary : 2 < (5 * (marchYear day).days + 2) / 153 + 3 := by omega
    simp only [if_pos early, if_pos afterFebruary, era_eq, century_eq, leapCycle_eq, year_eq,
      Int.add_sub_cancel]
    omega
  · have inFebruary : ¬ 2 < (5 * (marchYear day).days + 2) / 153 - 9 := by omega
    simp only [if_neg early, if_neg inFebruary, Int.add_sub_cancel, era_eq, century_eq,
      leapCycle_eq, year_eq, Int.sub_add_cancel]
    omega

/-- A number in a fixed number of decimal digits. -/
def padded : Nat → Nat → Bytes
  | 0, _ => []
  | width + 1, value => padded width (value / 10) ++ [(0x30 + value % 10).toUInt8]

/-- The number that decimal digits stand for. -/
def digitsValue (digits : Bytes) : Nat :=
  digits.foldl (fun value digit => 10 * value + (digit.toNat - 0x30)) 0

theorem length_padded (width value : Nat) : (padded width value).length = width := by
  induction width generalizing value with
  | zero => rfl
  | succ width ih =>
      rw [padded, List.length_append, ih, List.length_singleton]

theorem digit_of_mem_padded {width value : Nat} {byte : UInt8}
    (member : byte ∈ padded width value) :
    0x30 ≤ byte.toNat ∧ byte.toNat ≤ 0x39 := by
  induction width generalizing value with
  | zero => cases member
  | succ width ih =>
      rcases List.mem_append.mp member with before | last
      · exact ih before
      · rw [List.mem_singleton.mp last, Nat.toUInt8, UInt8.toNat_ofNat']
        omega

theorem digitsValue_padded (width value : Nat) :
    digitsValue (padded width value) = value % 10 ^ width := by
  induction width generalizing value with
  | zero => rw [padded, Nat.pow_zero, Nat.mod_one]; rfl
  | succ width ih =>
      have last : (0x30 + value % 10).toUInt8.toNat - 0x30 = value % 10 := by
        rw [Nat.toUInt8, UInt8.toNat_ofNat']
        omega
      have before := ih (value / 10)
      unfold digitsValue at before ⊢
      rw [padded, List.foldl_append, before, List.foldl_cons, List.foldl_nil, last, Nat.pow_succ',
        Nat.mod_mul]
      omega

theorem padded_injective {width left right : Nat} (small : left < 10 ^ width)
    (otherSmall : right < 10 ^ width) (equal : padded width left = padded width right) :
    left = right := by
  have values := congrArg digitsValue equal
  rw [digitsValue_padded, digitsValue_padded, Nat.mod_eq_of_lt small,
    Nat.mod_eq_of_lt otherSmall] at values
  exact values

/-- A number in at least four digits. -/
def yearDigits (value : Nat) : Bytes :=
  (if value < 10000 then [] else decimal (value / 10000 : Nat)) ++ padded 4 (value % 10000)

theorem decimal_ne_nil (value : Nat) : decimal value ≠ [] := by
  intro empty
  have text : Nat.repr value = "" := bytes_injective empty
  exact Nat.repr_ne_empty text

theorem yearDigits_injective {left right : Nat} (equal : yearDigits left = yearDigits right) :
    left = right := by
  obtain ⟨high, low⟩ := List.append_inj' equal (by rw [length_padded, length_padded])
  have lows := padded_injective (by omega) (by omega) low
  split at high
  · split at high
    · omega
    · exact absurd high.symm (decimal_ne_nil _)
  · split at high
    · exact absurd high (decimal_ne_nil _)
    · have highs := decimal_injective high
      omega

theorem digit_of_mem_yearDigits {value : Nat} {byte : UInt8} (member : byte ∈ yearDigits value) :
    0x30 ≤ byte.toNat ∧ byte.toNat ≤ 0x39 := by
  rcases List.mem_append.mp member with high | low
  · split at high
    · cases high
    · exact digit_of_mem_decimal high
  · exact digit_of_mem_padded low

def yearText (year : Int) : Bytes :=
  if year < 0 then 0x2D :: yearDigits year.natAbs else yearDigits year.natAbs

/-- The fraction of a second, without zeros at the end. -/
def fractionText (nanoseconds : Nat) : Bytes :=
  let digits := (padded 9 nanoseconds).rdropWhile (· == 0x30)
  if digits = [] then [] else 0x2E :: digits

/-- The day of an instant, counted from January 1 of year 1. -/
def Time.day (time : Time) : Int :=
  time.nanoseconds / 86400000000000

def Time.secondOfDay (time : Time) : Nat :=
  (time.nanoseconds / 1000000000 % 86400).toNat

/-- `Time.UTC().Format("2006-01-02T15:04:05.999999999Z07:00")`. -/
def Time.format (time : Time) : Bytes :=
  let date := dateOf time.day
  yearText date.year ++ 0x2D :: (padded 2 date.month.toNat ++ 0x2D :: (padded 2 date.day.toNat ++
    0x54 :: (padded 2 (time.secondOfDay / 3600) ++ 0x3A ::
      (padded 2 (time.secondOfDay / 60 % 60) ++ 0x3A :: (padded 2 (time.secondOfDay % 60) ++
        (fractionText (time.nanoseconds % 1000000000).toNat ++ [0x5A]))))))

theorem exists_eq_append_replicate (text : Bytes) (byte : UInt8) :
    ∃ count, text = text.rdropWhile (· == byte) ++ List.replicate count byte := by
  refine ⟨(text.rtakeWhile (· == byte)).length, ?_⟩
  have copies : text.rtakeWhile (· == byte) =
      List.replicate (text.rtakeWhile (· == byte)).length byte := by
    refine List.eq_replicate_iff.mpr ⟨rfl, fun other member => ?_⟩
    have same := List.mem_rtakeWhile_imp member
    exact eq_of_beq same
  rw [← copies, List.rdropWhile_append_rtakeWhile]

theorem eq_of_rdropWhile_eq {left right : Bytes} {byte : UInt8}
    (lengths : left.length = right.length)
    (equal : left.rdropWhile (· == byte) = right.rdropWhile (· == byte)) :
    left = right := by
  obtain ⟨count, left_eq⟩ := exists_eq_append_replicate left byte
  obtain ⟨otherCount, right_eq⟩ := exists_eq_append_replicate right byte
  have leftLength := congrArg List.length left_eq
  have rightLength := congrArg List.length right_eq
  rw [List.length_append, List.length_replicate] at leftLength rightLength
  have counts : count = otherCount := by
    rw [equal] at leftLength
    omega
  rw [left_eq, right_eq, equal, counts]

theorem fractionText_injective {left right : Nat} (small : left < 1000000000)
    (otherSmall : right < 1000000000) (equal : fractionText left = fractionText right) :
    left = right := by
  refine @padded_injective 9 left right small otherSmall
    (@eq_of_rdropWhile_eq _ _ 0x30 ?_ ?_)
  · rw [length_padded, length_padded]
  · unfold fractionText at equal
    simp only at equal
    split at equal
    · rename_i empty
      split at equal
      · rename_i otherEmpty
        rw [empty, otherEmpty]
      · cases equal
    · split at equal
      · cases equal
      · exact (List.cons.inj equal).2

theorem yearText_append_injective {left right : Int} {rest otherRest : Bytes}
    (equal : yearText left ++ 0x2D :: rest = yearText right ++ 0x2D :: otherRest) :
    left = right ∧ rest = otherRest := by
  have free : ∀ value : Nat, (0x2D : UInt8) ∉ yearDigits value := by
    intro value member
    exact absurd (digit_of_mem_yearDigits member) (by decide)
  have signed : ∀ (value : Nat) (text more : Bytes),
      yearDigits value ++ text ≠ 0x2D :: more := by
    intro value text more sign
    have nonempty : yearDigits value ≠ [] := by
      intro empty
      have length := congrArg List.length empty
      rw [yearDigits, List.length_append, length_padded, List.length_nil] at length
      omega
    obtain ⟨first, later, digits⟩ := List.exists_cons_of_ne_nil nonempty
    rw [digits] at sign
    refine free value ?_
    rw [digits, (List.cons.inj sign).1]
    exact List.mem_cons_self
  unfold yearText at equal
  split at equal
  · split at equal
    · obtain ⟨digits, rests⟩ := Separator.eq_of_append_cons_eq (free _) (free _)
        (List.cons.inj equal).2
      have sizes := yearDigits_injective digits
      exact ⟨by omega, rests⟩
    · exact absurd equal.symm (signed _ _ _)
  · split at equal
    · exact absurd equal (signed _ _ _)
    · obtain ⟨digits, rests⟩ := Separator.eq_of_append_cons_eq (free _) (free _) equal
      have sizes := yearDigits_injective digits
      exact ⟨by omega, rests⟩

theorem padded_append_injective {left right : Nat} {rest otherRest : Bytes} (small : left < 100)
    (otherSmall : right < 100) (equal : padded 2 left ++ rest = padded 2 right ++ otherRest) :
    left = right ∧ rest = otherRest := by
  obtain ⟨digits, rests⟩ := List.append_inj equal (by rw [length_padded, length_padded])
  exact ⟨padded_injective small otherSmall digits, rests⟩

/-- The text of an instant determines it. -/
theorem Time.format_injective {left right : Time} (equal : left.format = right.format) :
    left = right := by
  obtain ⟨⟨monthLow, monthHigh⟩, dayLow, dayHigh⟩ := dateOf_bounds left.day
  obtain ⟨⟨monthLow', monthHigh'⟩, dayLow', dayHigh'⟩ := dateOf_bounds right.day
  have seconds : left.secondOfDay < 86400 := by
    unfold Time.secondOfDay
    omega
  have seconds' : right.secondOfDay < 86400 := by
    unfold Time.secondOfDay
    omega
  obtain ⟨years, afterYear⟩ := yearText_append_injective equal
  obtain ⟨months, afterMonth⟩ := padded_append_injective (by omega) (by omega) afterYear
  obtain ⟨days, afterDay⟩ :=
    padded_append_injective (by omega) (by omega) (List.cons.inj afterMonth).2
  obtain ⟨hours, afterHour⟩ :=
    padded_append_injective (by omega) (by omega) (List.cons.inj afterDay).2
  obtain ⟨minutes, afterMinute⟩ :=
    padded_append_injective (by omega) (by omega) (List.cons.inj afterHour).2
  obtain ⟨secondParts, afterSecond⟩ :=
    padded_append_injective (by omega) (by omega) (List.cons.inj afterMinute).2
  have fractions := fractionText_injective (by omega) (by omega)
    (List.append_cancel_right afterSecond)
  have sameMonth : (dateOf left.day).month = (dateOf right.day).month := by omega
  have sameDate : (dateOf left.day).day = (dateOf right.day).day := by omega
  have sameDay : left.day = right.day := by
    rw [← dayOf_dateOf left.day, Date.ext years sameMonth sameDate, dayOf_dateOf]
  have sameSecond : left.secondOfDay = right.secondOfDay := by omega
  have sameNanoseconds : left.nanoseconds = right.nanoseconds := by
    unfold Time.day at sameDay
    unfold Time.secondOfDay at sameSecond
    omega
  cases left
  cases right
  exact congrArg Time.mk sameNanoseconds

theorem isAscii_cons {byte : UInt8} {text : Bytes} (small : byte.toNat < 0x80)
    (ascii : IsAscii text) :
    IsAscii (byte :: text) :=
  List.forall_mem_cons.mpr ⟨small, ascii⟩

theorem isAscii_of_digits {text : Bytes}
    (digits : ∀ byte ∈ text, 0x30 ≤ byte.toNat ∧ byte.toNat ≤ 0x39) :
    IsAscii text := by
  intro byte member
  have digit := digits byte member
  omega

theorem isAscii_fractionText (nanoseconds : Nat) : IsAscii (fractionText nanoseconds) := by
  unfold fractionText
  simp only
  split
  · exact fun byte member => absurd member List.not_mem_nil
  · refine isAscii_cons (by decide) (isAscii_of_digits fun byte member => ?_)
    exact digit_of_mem_padded (List.IsPrefix.subset (List.rdropWhile_prefix _ _) member)

theorem Time.isAscii_format (time : Time) : IsAscii time.format := by
  have two : ∀ value, IsAscii (padded 2 value) :=
    fun value => isAscii_of_digits fun byte member => digit_of_mem_padded member
  have year : ∀ value, IsAscii (yearText value) := by
    intro value
    have digits : IsAscii (yearDigits value.natAbs) :=
      isAscii_of_digits fun byte member => digit_of_mem_yearDigits member
    unfold yearText
    split
    · exact isAscii_cons (by decide) digits
    · exact digits
  have zone : IsAscii [0x5A] := isAscii_cons (by decide)
    fun byte member => absurd member List.not_mem_nil
  exact (year _).append (isAscii_cons (by decide) ((two _).append (isAscii_cons (by decide)
    ((two _).append (isAscii_cons (by decide) ((two _).append (isAscii_cons (by decide)
      ((two _).append (isAscii_cons (by decide)
        ((two _).append ((isAscii_fractionText _).append zone)))))))))))

example : (Time.mk 63087465599120000000).format = bytes "2000-02-29T23:59:59.12Z" := by
  decide +kernel

end Trstctl.Go

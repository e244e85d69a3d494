import Mathlib.Algebra.Group.Int.Defs
import Trstctl.Go.Json

/-!
# Instants and durations

A `time.Time` as the instant it denotes, in nanoseconds since January 1 of
year 1, which is the zero `Time`.  A `time.Duration` is a signed 64-bit number
of nanoseconds.
-/

namespace Trstctl.Go

/-- `time.Time`, without its location. -/
structure Time where
  nanoseconds : Int
deriving DecidableEq, Repr

namespace Time

/-- The zero `Time`. -/
def zero : Time :=
  ⟨0⟩

def isZero (time : Time) : Bool :=
  time.nanoseconds == 0

def before (time other : Time) : Bool :=
  decide (time.nanoseconds < other.nanoseconds)

def after (time other : Time) : Bool :=
  decide (other.nanoseconds < time.nanoseconds)

def add (time : Time) (duration : Int) : Time :=
  ⟨time.nanoseconds + duration⟩

/-- The least `time.Duration`. -/
def minDuration : Int :=
  -2 ^ 63

/-- The greatest `time.Duration`. -/
def maxDuration : Int :=
  2 ^ 63 - 1

/-- `Time.Sub`, which returns the nearest duration when the difference is not
one. -/
def sub (time other : Time) : Int :=
  max minDuration (min maxDuration (time.nanoseconds - other.nanoseconds))

/-- `time.Unix` with no nanoseconds, whose sum of seconds the machine wraps. -/
def unix (seconds : Int) : Time :=
  ⟨((seconds + 62135596800 + 2 ^ 63) % 2 ^ 64 - 2 ^ 63) * 1000000000⟩

def microsecond : Int :=
  1000

def second : Int :=
  1000000000

/-- `Time.Truncate`: the last multiple of the duration since the zero `Time`. -/
def truncate (time : Time) (duration : Int) : Time :=
  if duration ≤ 0 then time else ⟨time.nanoseconds - time.nanoseconds % duration⟩

theorem truncate_second (time : Time) :
    time.truncate second = ⟨time.nanoseconds - time.nanoseconds % 1000000000⟩ :=
  rfl

theorem truncate_truncate (time : Time) :
    (time.truncate second).truncate second = time.truncate second := by
  simp only [truncate_second, mk.injEq]
  omega

end Time

/-- The sum of two durations as the machine computes it. -/
def durationSum (first second : Int) : Int :=
  (first + second + 2 ^ 63) % 2 ^ 64 - 2 ^ 63

end Trstctl.Go

import Mathlib.Tactic.SplitIfs
import Mathlib.Data.Int.Init
import Mathlib.Algebra.GroupWithZero.Nat
import Mathlib.Algebra.Group.Int.Defs

/-!
# Zipkin times (`TimeExtensions.cs`)

An instant is expressed with an offset from UTC, which its tick count includes.
The conversions are computed with unchecked `long` arithmetic, whose division is
towards zero.
-/

namespace SignalFxTracing.ExtensionMethods

/-- The result of unchecked `long` arithmetic. -/
def wrapLong (n : Int) : Int := n.bmod (2 ^ 64)

/-- `DateTime.MaxValue.Ticks`. -/
def maxTicks : Int := 3155378975999999999

def unixEpochInTicks : Int := 621355968000000000

/-- A `DateTimeOffset`: the offset is a number of minutes up to 14 hours, and the instant can be
represented with it and without it. -/
structure DateTimeOffset where
  utcTicks : Int
  offset : Int
  utcTicks_mem : 0 ≤ utcTicks ∧ utcTicks ≤ maxTicks
  ticks_mem : 0 ≤ utcTicks + offset ∧ utcTicks + offset ≤ maxTicks
  offset_minutes : offset % 600000000 = 0
  offset_mem : -504000000000 ≤ offset ∧ offset ≤ 504000000000

/-- `Ticks`, those of the clock at the offset. -/
def DateTimeOffset.ticks (dateTimeOffset : DateTimeOffset) : Int :=
  dateTimeOffset.utcTicks + dateTimeOffset.offset

/-- `ToNanoseconds` of a `TimeSpan` with these ticks. -/
def toNanoseconds (ticks : Int) : Int := wrapLong (ticks * 100)

/-- `ToMicroseconds`. -/
def toMicroseconds (ticks : Int) : Int := (toNanoseconds ticks).tdiv 1000

/-- The whole microseconds between the Unix epoch and an instant. -/
def wholeMicroseconds (utcTicks : Int) : Int := (utcTicks - unixEpochInTicks).tdiv 10

/-- Division towards zero, through division that rounds down. -/
theorem tdiv_eq_ite (a b : Int) : a.tdiv b = if 0 ≤ a then a / b else -(-a / b) := by
  split_ifs with h
  · exact Int.tdiv_eq_ediv_of_nonneg h
  · rw [← Int.tdiv_eq_ediv_of_nonneg (by omega), Int.neg_tdiv, Int.neg_neg]

theorem wrapLong_of_mem {n : Int} (h : -2 ^ 63 ≤ n ∧ n < 2 ^ 63) : wrapLong n = n := by
  rw [wrapLong, Int.bmod_def]
  split_ifs
  · omega
  · omega

/-- The ticks of a clock give the microseconds of the instant exactly when the clock is that of
UTC. -/
theorem wholeMicroseconds_ticks_eq_iff (dateTimeOffset : DateTimeOffset) :
    wholeMicroseconds dateTimeOffset.ticks = wholeMicroseconds dateTimeOffset.utcTicks ↔
      dateTimeOffset.offset = 0 := by
  have hminutes := dateTimeOffset.offset_minutes
  rw [wholeMicroseconds, wholeMicroseconds, DateTimeOffset.ticks, unixEpochInTicks, tdiv_eq_ite,
    tdiv_eq_ite]
  split_ifs
  all_goals omega

/-- The longest duration in ticks whose nanoseconds fit into a `long`. -/
def maxDurationTicks : Int := 92233720368547758

/-- Wrapped nanoseconds are never those of the duration divided by a thousand. -/
theorem toMicroseconds_lt {ticks : Int} (h : 0 ≤ ticks ∧ ticks ≤ maxTicks)
    (hlong : maxDurationTicks < ticks) : toMicroseconds ticks < ticks.tdiv 10 := by
  rw [maxTicks] at h
  rw [maxDurationTicks] at hlong
  have hmodulo : (ticks * 100) % (2 ^ 64 : Nat) =
      ticks * 100 - 2 ^ 64 * (ticks * 100 / 2 ^ 64) := by omega
  rw [toMicroseconds, toNanoseconds, wrapLong, Int.bmod_def, hmodulo, tdiv_eq_ite, tdiv_eq_ite,
    if_pos h.1]
  rcases (by omega : ticks * 100 / 2 ^ 64 = 0 ∨ 1 ≤ ticks * 100 / 2 ^ 64) with hquotient | hquotient
  · rw [hquotient]
    split_ifs
    all_goals omega
  · split_ifs
    all_goals omega

/-- A duration has its microseconds exactly when its nanoseconds are not wrapped. -/
theorem toMicroseconds_eq_iff {ticks : Int} (h : 0 ≤ ticks ∧ ticks ≤ maxTicks) :
    toMicroseconds ticks = ticks.tdiv 10 ↔ ticks ≤ maxDurationTicks := by
  constructor
  · intro heq
    apply Int.not_lt.mp
    intro hlong
    exact Int.ne_of_lt (toMicroseconds_lt h hlong) heq
  · intro hshort
    rw [maxDurationTicks] at hshort
    rw [toMicroseconds, toNanoseconds, wrapLong_of_mem (by omega), tdiv_eq_ite, tdiv_eq_ite,
      if_pos h.1, if_pos (by omega)]
    omega

end SignalFxTracing.ExtensionMethods

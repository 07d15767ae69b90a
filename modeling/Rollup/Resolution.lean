import Rollup.CounterError
import Rollup.Text.Blank
import Rollup.Time.Shift

/-!
This module contains the resolutions of a query: the calendar units that a series counts by, their
starts, and the steps from one unit to the next.
-/

namespace Rollup

open Rollup.Time

inductive Resolution where
  | minute
  | hour
  | day
  | month
  | year
deriving DecidableEq

namespace Resolution

def name : Resolution → String
  | minute => "minute"
  | hour => "hour"
  | day => "day"
  | month => "month"
  | year => "year"

def all : List Resolution := [minute, hour, day, month, year]

theorem mem_all (r : Resolution) : r ∈ all := by
  cases r <;> decide

def ofName? (s : String) : Option Resolution :=
  all.find? fun r => r.name == s

theorem ofName?_name (r : Resolution) : ofName? r.name = some r := by
  cases r <;> decide

structure Unknown where
  text : String
deriving DecidableEq

def Unknown.message (e : Unknown) : String :=
  e.text ++ " is not a valid resolution"

def parse (s : String) : Except Unknown Resolution :=
  match ofName? (Text.word s) with
  | some r => .ok r
  | none => .error ⟨s⟩

def floor (r : Resolution) (a : Instant) : Instant :=
  match r with
  | minute => a.floorMinute
  | hour => a.floorHour
  | day => a.floorDay
  | month => a.floorMonth
  | year => a.floorYear

/--
The instant `n` units after `a`, if it is representable. Minutes, hours and days are exact spans;
months and years keep the time of day and, where the month is long enough, the day.
-/
def shift? (r : Resolution) (a : Instant) (n : Int) : Option Instant :=
  match r with
  | minute => a.addMinutes? n
  | hour => a.addHours? n
  | day => a.addDays? n
  | month => a.addMonths? n
  | year => a.addMonths? (n * 12)

def next (r : Resolution) (a : Instant) : Except CounterError Instant :=
  stepFrom a (r.shift? a 1)

def minus (r : Resolution) (a : Instant) (n : Nat) : Except CounterError Instant :=
  stepFrom a (r.shift? a (-n))

/--
The number of unit starts after the unit of `a` up to the unit of `b`, negative if `b` is earlier.
-/
def unitsBetween (r : Resolution) (a b : Instant) : Int :=
  match r with
  | minute => a.minutesBetween b
  | hour => a.hoursBetween b
  | day => a.daysBetween b
  | month => a.monthsBetween b
  | year => a.yearsBetween b

def unitsSpanned (r : Resolution) (a b : Instant) : Int :=
  r.unitsBetween a b + 1

end Resolution

end Rollup

import Rollup.Text.Numeral
import Rollup.Time.Instant

/-!
This module contains the written forms of dates and instants. A year of four digits stands alone,
all others carry a sign; a fraction of a second has the fewest of 3, 6 or 9 digits that are exact.
-/

namespace Rollup.Time

open Rollup.Text

namespace Date

def yearText (y : Int) : String :=
  if 0 ≤ y ∧ y ≤ 9999 then padNat 4 y.toNat
  else if y < 0 then "-" ++ padNat 4 y.natAbs
  else "+" ++ padNat 4 y.natAbs

def text (d : Date) : String :=
  s!"{yearText d.year}-{padNat 2 d.month}-{padNat 2 d.day}"

end Date

namespace Instant

def fractionText (nanos : Nat) : String :=
  if nanos = 0 then ""
  else if nanos % 1000000 = 0 then "." ++ padNat 3 (nanos / 1000000)
  else if nanos % 1000 = 0 then "." ++ padNat 6 (nanos / 1000)
  else "." ++ padNat 9 nanos

/--
The time of day. A leap second is second 60.
-/
def clockText (a : Instant) : String :=
  let second := a.second % 60 + a.nanos / nanosPerSecond
  let fraction := fractionText (a.nanos % nanosPerSecond)
  s!"{padNat 2 a.hour}:{padNat 2 a.minute}:{padNat 2 second}{fraction}"

def text (a : Instant) : String :=
  s!"{a.date.text}T{a.clockText}Z"

def phrase (a : Instant) : String :=
  s!"{a.date.text} {a.clockText} UTC"

end Instant

end Rollup.Time

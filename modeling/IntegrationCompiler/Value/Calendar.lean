/-!
# Days and moments

Calendar values of a document. Main definitions: `Day`, `Moment`, the check `Day.isValid`, and
`Moment.same`, which compares moments with a known offset by the instant they name.
-/

namespace IntegrationCompiler

/-- A day of the calendar. -/
structure Day where
  year : Nat
  month : Nat
  day : Nat
  deriving DecidableEq, Repr, Inhabited

/-- A day with a time of day, and the offset from universal time in seconds where it is known. -/
structure Moment where
  date : Day
  hour : Nat
  minute : Nat
  second : Nat
  microsecond : Nat
  offset : Option Int
  deriving DecidableEq, Repr, Inhabited

namespace Day

/-- Whether February has 29 days. -/
def isLeap (year : Nat) : Bool :=
  (year % 4 == 0 && year % 100 != 0) || year % 400 == 0

/-- The number of days of a month. -/
def daysIn (year month : Nat) : Nat :=
  match month with
  | 2 => if isLeap year then 29 else 28
  | 4 | 6 | 9 | 11 => 30
  | _ => 31

/-- Whether the three numbers name a day of the years 1 to 9999. -/
def isValid (d : Day) : Bool :=
  1 ≤ d.year && d.year ≤ 9999 && 1 ≤ d.month && d.month ≤ 12 && 1 ≤ d.day &&
    d.day ≤ daysIn d.year d.month

/-- The number of days from the first day of year 1. -/
def ordinal (d : Day) : Nat :=
  let y := d.year - 1
  let before := (List.range (d.month - 1)).foldl (fun acc m => acc + daysIn d.year (m + 1)) 0
  y * 365 + y / 4 - y / 100 + y / 400 + before + (d.day - 1)

end Day

namespace Moment

/-- Microseconds from the first day of year 1, as the clock of its own offset shows them. -/
def clock (m : Moment) : Int :=
  ((((m.date.ordinal * 24 + m.hour) * 60 + m.minute) * 60 + m.second) * 1000000 +
    m.microsecond : Nat)

/-- Whether two moments are equal: the same instant where both offsets are known, the same reading
where neither is. -/
def same (a b : Moment) : Bool :=
  match a.offset, b.offset with
  | none, none => a.clock == b.clock
  | some p, some q => a.clock - p * 1000000 == b.clock - q * 1000000
  | _, _ => false

end Moment

end IntegrationCompiler

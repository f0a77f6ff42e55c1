import Mathlib.Algebra.Ring.Int.Defs

namespace incidentdesk

/-- The errors that the planner can raise. -/
inductive Raised where
  | ValueError
  | OverflowError
  | TypeError
deriving DecidableEq

/-- An entry of the time zone database: the offset in seconds that it has at a
wall clock time, the first or the second time that the clock shows it, and the
wall clock time at an instant. Both count microseconds from the first of January
of the year one, the wall clock in its own time and an instant in UTC. -/
structure Zone where
  utcoffset : Int → Bool → Int
  fromutc : Int → Int × Bool

/-- The zone of a `datetime`: none, an offset in seconds, as a parsed text has it,
or the zone of the request. -/
inductive Tz where
  | naive
  | fixed (offset : Int)
  | named
deriving DecidableEq

structure DateTime where
  wall : Int
  fold : Bool
  tz : Tz
deriving DecidableEq

namespace datetime

def second : Int := 1000000

def hour : Int := 3600 * second

def day : Int := 24 * hour

/-- The first wall clock time after the last one that Python has. -/
def maxWall : Int := 3652059 * day

def isLeap (y : Int) : Bool := y % 4 = 0 && (y % 100 ≠ 0 || y % 400 = 0)

def daysInMonth (y m : Int) : Int :=
  if m = 2 then if isLeap y then 29 else 28 else if m ∈ [4, 6, 9, 11] then 30 else 31

/-- `date.toordinal`, from zero. -/
def toordinal (y m d : Int) : Int :=
  let years := (y - 1) * 365 + (y - 1) / 4 - (y - 1) / 100 + (y - 1) / 400
  let months := ((List.range (m - 1).toNat).map fun n : Nat => daysInMonth y ((n : Int) + 1)).sum
  years + months + d - 1

/-- The constructor `datetime(y, m, d, h, minute, second, tzinfo=zone)`. -/
def construct (y m d h minute s : Int) : Except Raised DateTime :=
  if y < 1 ∨ y > 9999 ∨ m < 1 ∨ m > 12 ∨ d < 1 ∨ d > daysInMonth y m ∨ h < 0 ∨ h > 23 ∨ minute < 0 ∨ minute > 59 ∨
      s < 0 ∨ s > 59 then
    .error .ValueError
  else .ok { wall := toordinal y m d * day + h * hour + minute * (60 * second) + s * second, fold := false, tz := .named }

end datetime

namespace DateTime

open datetime

/-- Adding a `timedelta` moves the wall clock. -/
def add (t : DateTime) (delta : Int) : Except Raised DateTime :=
  if 0 ≤ t.wall + delta ∧ t.wall + delta < maxWall then .ok { t with wall := t.wall + delta, fold := false }
  else .error .OverflowError

/-- `t.replace(hour=0, minute=0, second=0, microsecond=0)`. -/
def midnight (t : DateTime) : DateTime := { t with wall := t.wall - t.wall % day }

/-- `utcoffset()` in microseconds, zero without a zone. -/
def utcoffset (zone : Zone) (t : DateTime) : Int :=
  match t.tz with
  | .naive => 0
  | .fixed offset => offset * second
  | .named => zone.utcoffset t.wall t.fold * second

/-- `t - s` for two times with zones: in one zone that is the difference of the
wall clocks. -/
def sub (zone : Zone) (t s : DateTime) : Int :=
  if t.tz = .named ∧ s.tz = .named then t.wall - s.wall
  else (t.wall - t.utcoffset zone) - (s.wall - s.utcoffset zone)

/-- `t < s` for two times with zones. -/
def lt (zone : Zone) (t s : DateTime) : Bool := t.sub zone s < 0

/-- `datetime.astimezone` of an instant. -/
def ofInstant (zone : Zone) (instant : Int) : Except Raised DateTime :=
  let (wall, fold) := zone.fromutc instant
  if 0 ≤ wall ∧ wall < maxWall then .ok { wall, fold, tz := .named } else .error .OverflowError

/-- An offset as a serialised time has it, in whole minutes. -/
def written (offset : Int) : Int := offset.tdiv (60 * second) * (60 * second)

/-- The instant that a reader of the serialised time takes it for. -/
def instant (zone : Zone) (t : DateTime) : Int := t.wall - written (t.utcoffset zone)

end DateTime

end incidentdesk

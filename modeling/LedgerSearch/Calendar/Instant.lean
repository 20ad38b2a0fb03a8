import LedgerSearch.Calendar.Date
import LedgerSearch.Number.Binary64

/-! # Instants
An instant is a date and a time of day at an offset from universal time. Instants are compared by
the microseconds since the epoch, whatever their offsets. -/
namespace LedgerSearch

structure Clock where
  hour : Nat
  minute : Nat
  second : Nat
  micro : Nat
  deriving DecidableEq, Repr, Inhabited

namespace Clock

def midnight : Clock := ⟨0, 0, 0, 0⟩

def isValid (c : Clock) : Bool := c.hour < 24 && c.minute < 60 && c.second < 60 && c.micro < 1000000

/-- The microseconds since midnight. -/
def micros (c : Clock) : Nat := ((c.hour * 60 + c.minute) * 60 + c.second) * 1000000 + c.micro

end Clock

/-- A date and a time of day, with the offset in microseconds if one is known. -/
structure Stamp where
  date : Date
  clock : Clock
  offset : Option Int
  deriving DecidableEq, Repr, Inhabited

/-- A date and a time of day at an offset in microseconds. -/
structure Instant where
  date : Date
  clock : Clock
  offset : Int
  deriving DecidableEq, Repr, Inhabited

namespace Instant

def microsPerDay : Nat := 86400000000

/-- A stamp without offset is in universal time. -/
def ofStamp (s : Stamp) : Instant := ⟨s.date, s.clock, s.offset.getD 0⟩

def epoch : Instant := ⟨⟨1970, 1, 1⟩, Clock.midnight, 0⟩

/-- The number of the day that the epoch starts with. -/
def epochDay : Nat := 719163

/-- The microseconds since the epoch. -/
def micros (i : Instant) : Int :=
  ((i.date.number : Int) - epochDay) * microsPerDay + i.clock.micros - i.offset

/-- The seconds since the epoch as a number, which is what orders look at. -/
def seconds (i : Instant) : Binary64 := Binary64.ofRatio (i.micros < 0) i.micros.natAbs 1000000

/-- The whole days from one instant to another, rounded down. -/
def daysUntil (earlier later : Instant) : Int := Int.fdiv (later.micros - earlier.micros) microsPerDay

end Instant
end LedgerSearch

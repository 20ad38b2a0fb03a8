import LedgerSearch.Calendar.Instant
import LedgerSearch.Text.Basic

/-! # Written instants
Fractions of seconds are written only where there are some, always with six digits. -/
namespace LedgerSearch

namespace Date

def write (d : Date) : Text :=
  Text.ofNatWide 4 d.year ++ "-".toText ++ Text.ofNatWide 2 d.month ++ "-".toText ++ Text.ofNatWide 2 d.day

end Date

def writeMicro (micro : Nat) : Text := if micro = 0 then [] else ".".toText ++ Text.ofNatWide 6 micro

namespace Clock

def write (c : Clock) : Text :=
  Text.ofNatWide 2 c.hour ++ ":".toText ++ Text.ofNatWide 2 c.minute ++ ":".toText ++ Text.ofNatWide 2 c.second ++
    writeMicro c.micro

/-- Hours and minutes of an offset, and its seconds where there are some. -/
def writeOffset (c : Clock) : Text :=
  Text.ofNatWide 2 c.hour ++ ":".toText ++ Text.ofNatWide 2 c.minute ++
    (if c.second = 0 ∧ c.micro = 0 then [] else ":".toText ++ Text.ofNatWide 2 c.second ++ writeMicro c.micro)

/-- The time of day that a count of microseconds reaches. -/
def ofMicros (n : Nat) : Clock := ⟨n / 3600000000, n / 60000000 % 60, n / 1000000 % 60, n % 1000000⟩

end Clock

/-- An offset with its sign. -/
def writeOffset (offset : Int) : Text :=
  (if offset < 0 then "-" else "+").toText ++ (Clock.ofMicros offset.natAbs).writeOffset

namespace Stamp

def write (s : Stamp) : Text :=
  s.date.write ++ "T".toText ++ s.clock.write ++ (match s.offset with | none => [] | some o => writeOffset o)

end Stamp

namespace Instant

def write (i : Instant) : Text := i.date.write ++ "T".toText ++ i.clock.write ++ writeOffset i.offset

/-- As `write`, but universal time is marked with a letter and an offset keeps whole minutes only. -/
def writeBrief (i : Instant) : Text :=
  let seconds := Int.fdiv i.offset 1000000
  i.date.write ++ "T".toText ++ i.clock.write ++
    (if seconds = 0 then "Z".toText
    else
      let minutes := seconds.natAbs / 60
      (if seconds < 0 then "-" else "+").toText ++ Text.ofNatWide 2 (minutes / 60) ++ ":".toText ++ Text.ofNatWide 2 (minutes % 60))

end Instant
end LedgerSearch

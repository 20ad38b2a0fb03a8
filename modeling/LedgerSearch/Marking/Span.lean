import LedgerSearch.Sorting
import LedgerSearch.Text.Basic

/-! # Spans that do not overlap
A tracker accepts a span only if it holds a position and shares none with a span accepted before. -/
namespace LedgerSearch.Marking

structure Span where
  start : Int
  stop : Int
  style : Text
  deriving DecidableEq, Repr

/-- Two ranges of positions have one in common. -/
def meets (start stop start' stop' : Int) : Bool := max start start' < min stop stop'

/-- The accepted spans in the order in which they came. -/
structure Tracker where
  accepted : List Span
  deriving Repr

namespace Tracker

def empty : Tracker := ⟨[]⟩

/-- Some accepted span has a position in common with a range. -/
def overlaps (t : Tracker) (start stop : Int) : Bool := t.accepted.any fun s => meets start stop s.start s.stop

/-- The span can be accepted. -/
def admits (t : Tracker) (s : Span) : Bool := s.start < s.stop && !t.overlaps s.start s.stop

/-- The tracker after a span has been offered to it. -/
def claim (t : Tracker) (s : Span) : Tracker := if t.admits s then ⟨t.accepted ++ [s]⟩ else t

def claimAll (t : Tracker) (spans : List Span) : Tracker := spans.foldl claim t

/-- The accepted spans by their starts. -/
def spans (t : Tracker) : List Span := Sorting.sort (fun a b => a.start ≤ b.start) t.accepted

end Tracker
end LedgerSearch.Marking

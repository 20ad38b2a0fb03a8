import LedgerSearch.Entries
import LedgerSearch.Payload.Spelling
import LedgerSearch.Record.Basic
import LedgerSearch.Search.Haystack
import LedgerSearch.Sorting.Runs

/-! # The order of results
Results are ranked by score and then by time of update, or by one time alone. Sorting is stable, so an
order by time keeps the ranking among results of one time. -/
namespace LedgerSearch.Search

inductive Order | relevance | mostRecent | dueFirst | dueLast deriving DecidableEq, Repr

namespace Order

def all : List Order := [relevance, mostRecent, dueFirst, dueLast]

def name : Order → Text
  | relevance => "relevance".toText
  | mostRecent => "most_recent".toText
  | dueFirst => "due_first".toText
  | dueLast => "due_last".toText

def ofName? (name : Text) : Option Order := all.find? fun o => o.name == name

/-- The order that a payload names; any other payload is refused. -/
def ofPayload (p : Payload) : Except Fault Order :=
  match p.text?.bind ofName? with
  | some order => .ok order
  | none => .error (.unknownOrder p.literal)

end Order

def updateTime (r : Record) : Binary64 := r.updatedAt.seconds

/-- The time when a financial record is due; of any other record, the time of its update. -/
def dueTime (r : Record) : Binary64 :=
  match r.financial?.bind Financial.due with
  | some due => due.seconds
  | none => updateTime r

/-- Sorts by a time, the earliest first. -/
def earliestFirst (time : Record → Binary64) (records : List Record) : List Record :=
  Sorting.sortOn time Binary64.le records

/-- Sorts by a time, the latest first. -/
def latestFirst (time : Record → Binary64) (records : List Record) : List Record :=
  Sorting.sortOn time (fun a b => Binary64.le b a) records

def byRecency (records : List Record) : List Record := latestFirst updateTime records

/-- Whether a record of a score and a time may stand before another: its score is higher, or it is
equal and the record is no older. -/
def ranksBefore (a b : Nat × Binary64) : Bool := b.1 < a.1 || a.1 == b.1 && Binary64.le b.2 a.2

/-- Sorts by score, the highest first, and then by time of update. -/
def byRelevance (score : Record → Nat) (records : List Record) : List Record :=
  Sorting.sortOn (fun r => (score r, updateTime r)) ranksBefore records

/-- The identifier, the score and the time of a record that a caller has scored. -/
structure GivenRank where
  id : Text
  score : Binary64
  time : Binary64

namespace GivenRank

/-- The rank of a record by scores handed in; one that has none is scored zero. -/
def ofRecord (scores : Entries Text Binary64) (r : Record) : GivenRank :=
  ⟨r.id, (Entries.find? r.id scores).getD Binary64.zero, updateTime r⟩

/-- Whether a rank is below another. A score that is no number is equal to itself alone, and no other is
below or above it. -/
def below (a b : GivenRank) : Bool :=
  if a.id == b.id || Binary64.eq a.score b.score then Binary64.lt a.time b.time else Binary64.lt a.score b.score

end GivenRank

/-- Sorts by scores handed in, the highest first, and then by time of update. -/
def byGivenScores (scores : Entries Text Binary64) (records : List Record) : List Record :=
  (Sorting.sortDownBy (fun k => k.1.score.isNumber) (fun a b => GivenRank.below a.1 b.1)
    (Sorting.withKeys (GivenRank.ofRecord scores) records)).map Prod.snd

/-- Rearranges ranked records; the order by relevance leaves them as they are. -/
def Order.arrange (records : List Record) : Order → List Record
  | relevance => records
  | mostRecent => byRecency records
  | dueFirst => earliestFirst dueTime records
  | dueLast => latestFirst dueTime records

end LedgerSearch.Search

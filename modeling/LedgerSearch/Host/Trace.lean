import LedgerSearch.Entries
import LedgerSearch.Record.Dump
import LedgerSearch.Sorting.Runs
import LedgerSearch.Text.Basic

/-! # Traces of searches
The store keeps the newest traces up to a limit, in the order of their creation, and sums them up. -/
namespace LedgerSearch.Host

structure Trace where
  id : Text
  query : Text
  total : Int
  isMonetary : Bool
  isCompound : Bool
  latency : Binary64
  deriving Repr

structure TraceStore where
  limit : Int
  created : Nat
  traces : Entries Text Trace
  deriving Repr

/-- Counts and averages over the traces of a store. -/
structure TraceSummary where
  total : Nat
  monetary : Nat
  compound : Nat
  meanLatency : Binary64
  highLatency : Binary64
  meanTotal : Binary64
  deriving Repr

namespace TraceStore

def empty (limit : Int) : TraceStore := ⟨limit, 0, []⟩

/-- Keeps a trace and gives up the oldest ones beyond the limit. -/
def create (s : TraceStore) (t : Trace) : TraceStore :=
  let traces := Entries.put t.id t s.traces
  { s with created := s.created + 1, traces := traces.drop (traces.length - s.limit.toNat) }

/-- Whether the limit can be kept: giving up all traces does not get down to a negative one. -/
def limitHolds (s : TraceStore) : Bool := 0 ≤ s.limit

def get? (s : TraceStore) (id : Text) : Option Trace := Entries.find? id s.traces

/-- The complaint about an identifier that no kept trace has. -/
def notFoundMessage (id : Text) : Text := "Trace not found: ".toText ++ id

/-- The kept traces in the order of their creation. -/
def toList (s : TraceStore) : List Trace := s.traces.map Prod.snd

/-- The traces from the negated limit on: the newest ones for a positive limit, all of them for zero. -/
def recent (s : TraceStore) (limit : Int) : List Trace := Text.cutFrom s.toList (-limit)

/-- How many traces `recent` asks for where nothing else is said. -/
def recentStandard : Int := 20

/-- The sum of numbers, added from left to right. -/
def sum (xs : List Binary64) : Binary64 := xs.foldl Binary64.add Binary64.zero

/-- The position of the high latency among `n` ones in order. -/
def highPosition (n : Nat) : Nat :=
  ((Binary64.sub (Binary64.mul (Binary64.ofNat n) (Binary64.ofRatio false 95 100)) Binary64.one).floor?.getD 0).toNat

def summary (s : TraceStore) : TraceSummary :=
  let all := s.toList
  if all.isEmpty then ⟨0, 0, 0, Binary64.zero, Binary64.zero, Binary64.zero⟩
  else
    let latencies := Sorting.sortBy Binary64.isNumber Binary64.lt (all.map Trace.latency)
    let total := all.foldl (fun n t => n + t.total) (0 : Int)
    { total := all.length
      monetary := all.countP Trace.isMonetary
      compound := all.countP Trace.isCompound
      meanLatency := Binary64.div (sum latencies) (Binary64.ofNat all.length)
      highLatency := latencies.getD (highPosition all.length) Binary64.zero
      meanTotal := Binary64.ofRatio (total < 0) total.natAbs all.length }

/-- The summary, if the mean of the totals is not beyond all numbers. -/
def summary? (s : TraceStore) : Option TraceSummary :=
  if s.summary.meanTotal.isFinite then some s.summary else none

end TraceStore

namespace Trace

/-- A trace without its measured time. -/
def dumpFields (t : Trace) : List (String × Payload) :=
  [("trace_id", .text t.id), ("query", .text t.query), ("total_results", .int t.total),
  ("is_monetary", .bool t.isMonetary), ("is_boolean", .bool t.isCompound)]

def dump (t : Trace) : Payload := Payload.ofFields (t.dumpFields ++ [("latency_ms", .real t.latency)])

end Trace

namespace TraceSummary

/-- A summary without measured times. -/
def dumpFields (s : TraceSummary) : List (String × Payload) :=
  [("total_requests", .int s.total), ("monetary_requests", .int s.monetary), ("boolean_requests", .int s.compound),
  ("avg_results", .real s.meanTotal)]

def dump (s : TraceSummary) : Payload :=
  Payload.ofFields (s.dumpFields ++
    [("avg_latency_ms", .real s.meanLatency), ("p95_latency_ms", .real s.highLatency)])

end TraceSummary
end LedgerSearch.Host

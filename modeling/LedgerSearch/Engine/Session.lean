import LedgerSearch.Engine.Search

/-! # Searches that give way
A search may stop after each batch and be resumed later. Each start draws the next ticket, and a
search that finds on resumption that a later ticket has been drawn ends without an answer. -/
namespace LedgerSearch.Engine

open Search
/-- A search that waits between two batches. -/
structure Run where
  ticket : Nat
  request : Request
  kept : List Record
  rest : List (List Record)

/-- Where a search stands: it waits, or it has ended, without an answer if it was superseded. -/
inductive Progress
  | waiting (run : Run)
  | ended (answer : Except Fault (Option Response))

/-- Takes the next batch and gives way, or answers if there is none left. -/
def advance (e : Engine) (now : Instant) (run : Run) : Progress :=
  match run.rest with
  | [] => .ended ((e.respond now run.request run.kept).map some)
  | batch :: rest =>
    match keep now run.request batch with
    | .ok more => .waiting { run with kept := run.kept ++ more, rest := rest }
    | .error fault => .ended (.error fault)

/-- Resumes a waiting search when `latest` is the last ticket drawn. -/
def resume (e : Engine) (now : Instant) (latest : Nat) (run : Run) : Progress :=
  if run.ticket = latest then e.advance now run else .ended (.ok none)

/-- Starts a search with the ticket after the last one drawn. -/
def start (e : Engine) (now : Instant) (latest : Nat) (req : Request) : Progress × Nat :=
  (e.advance now ⟨latest + 1, req, [], e.batches⟩, latest + 1)

/-- How often a search can still be resumed. -/
def Progress.pending : Progress → Nat
  | .waiting run => run.rest.length + 1
  | .ended _ => 0

theorem pending_advance_lt (e : Engine) (now : Instant) (run : Run) :
    (e.advance now run).pending < (Progress.waiting run).pending := by
  unfold advance
  split
  · simp [Progress.pending]
  · rename_i batch rest h
    split <;> simp [Progress.pending, h]

theorem pending_resume_lt (e : Engine) (now : Instant) (latest : Nat) (run : Run) :
    (e.resume now latest run).pending < (Progress.waiting run).pending := by
  unfold resume
  split
  · exact pending_advance_lt e now run
  · simp [Progress.pending]

/-- Resumes a search until it ends, while no other is started. -/
def finish (e : Engine) (now : Instant) (latest : Nat) : Progress → Except Fault (Option Response)
  | .ended answer => answer
  | .waiting run => finish e now latest (e.resume now latest run)
termination_by progress => progress.pending
decreasing_by exact pending_resume_lt e now latest run

/-- Starts searches one after the other, each up to where it first gives way. -/
def startAll (e : Engine) (now : Instant) (latest : Nat) : List Request → List Progress × Nat
  | [] => ([], latest)
  | req :: rest =>
    let (progress, latest) := e.start now latest req
    let (more, latest) := startAll e now latest rest
    (progress :: more, latest)

/-- A search that ended with a fault at its start. -/
def failedAtStart : Progress → Option Fault
  | .ended (.error fault) => some fault
  | _ => none

/-- The answers to searches that are started together; a fault at a start comes before any later one. -/
def searchTogether (e : Engine) (now : Instant) (latest : Nat) (requests : List Request) :
    Except Fault (List (Option Response)) × Nat :=
  let (started, latest) := e.startAll now latest requests
  match started.findSome? failedAtStart with
  | some fault => (.error fault, latest)
  | none => (started.mapM (e.finish now latest), latest)

end LedgerSearch.Engine

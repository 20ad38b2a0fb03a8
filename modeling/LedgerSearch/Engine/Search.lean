import LedgerSearch.Engine.Config
import LedgerSearch.Search.Score
import LedgerSearch.Search.Selection

/-! # Searching a corpus
A search walks the corpus in batches, keeps the records that the query finds and the selections let
pass, ranks them, and describes the results by facets and groups. -/
namespace LedgerSearch

open Search

/-- What is looked for: a grouping or an order that is not filled stands for the usual choice. -/
structure Engine.Request where
  query : Text
  selections : Selections
  grouping : Payload
  order : Payload
  deriving Repr

/-- The resident records and how they are searched. -/
structure Engine where
  records : List Record
  config : Engine.SearchConfig
  limits : GroupLimits

/-- The answer to a request: records in order and their number, their scores by identifier, and what
describes them. -/
structure Engine.Response where
  query : Text
  total : Nat
  records : List Record
  scores : Entries Text Nat
  facets : Entries Text (Entries Value Nat)
  groups : List Group
  limited : List Group
  isGrouped : Bool
  isMonetary : Bool
  deriving Repr

namespace Engine

/-- The records cut into batches of equal size, the last of which may be shorter. -/
def batchesOf (size : Nat) (records : List Record) : List (List Record) :=
  if _h : records = [] ∨ size = 0 then []
  else records.take size :: batchesOf size (records.drop size)
termination_by records.length
decreasing_by
  have : 0 < records.length := List.length_pos_iff.2 fun e => _h (.inl e)
  simp only [List.length_drop]
  omega

def batches (e : Engine) : List (List Record) := batchesOf e.config.batchSize e.records

/-- The record is found and passes the selections. -/
def keeps (now : Instant) (req : Request) (r : Record) : Except Fault Bool := do
  if ← holds r req.query then passes now r req.selections else return false

/-- The records of a batch that a search keeps. -/
def keep (now : Instant) (req : Request) : List Record → Except Fault (List Record)
  | [] => .ok []
  | r :: rest => do
    let kept ← keeps now req r
    let more ← keep now req rest
    return if kept then r :: more else more

/-- The records of all batches that a search keeps. -/
def keepAll (now : Instant) (req : Request) : List (List Record) → Except Fault (List Record)
  | [] => .ok []
  | batch :: rest => do
    let kept ← keep now req batch
    let more ← keepAll now req rest
    return kept ++ more

/-- The scores of records by identifier. -/
def scoresOf (query : Text) : List Record → Except Fault (List (Text × Nat))
  | [] => .ok []
  | r :: rest => do
    let points ← score r query
    let more ← scoresOf query rest
    return (r.id, points) :: more

/-- The score of a record, zero where there is none. -/
def scoreIn (scores : Entries Text Nat) (r : Record) : Nat := (Entries.find? r.id scores).getD 0

/-- Ranks by score, or by time of update where the query is blank. -/
def rank (query : Text) (scores : Entries Text Nat) (records : List Record) : List Record :=
  if (Text.strip query).isEmpty then byRecency records else byRelevance (scoreIn scores) records

/-- The order that a request asks for, or else the configured one. -/
def orderOf (config : SearchConfig) (req : Request) : Except Fault Order :=
  if req.order.isFilled then Order.ofPayload req.order else .ok config.order

/-- The grouping that a request asks for, or else the one among its selections. -/
def groupingOf (req : Request) : Except Fault (Option Text) := do
  if req.grouping.isFilled then groupingName req.grouping
  else
    let selected ← selectedGrouping req.selections
    groupingName (Payload.ofOption (fun v => .atom (Value.atom v)) selected)

/-- The answer made of the records that a search keeps. -/
def respond (e : Engine) (now : Instant) (req : Request) (kept : List Record) : Except Fault Response := do
  let scores ← (scoresOf req.query kept).map Entries.ofPairs
  let order ← orderOf e.config req
  let ordered := order.arrange (rank req.query scores kept)
  let grouping ← groupingOf req
  let grouped := groups grouping ordered
  let facets ← facets now ordered
  return {
    query := req.query
    total := ordered.length
    records := ordered
    scores := scores
    facets := facets
    groups := grouped
    limited := e.limits.apply grouped
    isGrouped := (dimension? grouping).isSome
    isMonetary := (Query.moneyQuery req.query).isExplicit }

def search (e : Engine) (now : Instant) (req : Request) : Except Fault Response := do
  let kept ← keepAll now req e.batches
  e.respond now req kept

/-- The last of the records with an identifier. -/
def find? (e : Engine) (id : Text) : Option Record := e.records.reverse.find? fun r => r.id == id

/-- The complaint about an identifier that no record has. -/
def notFoundMessage (id : Text) : Text := "Record not found: ".toText ++ id

end Engine
end LedgerSearch

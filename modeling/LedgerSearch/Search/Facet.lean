import LedgerSearch.Payload.Basic
import LedgerSearch.Record.Basic
import LedgerSearch.Search.Haystack
import LedgerSearch.Sorting.Runs
import LedgerSearch.Text.Lower

/-! # Facets
Under each facet key a record has at most one value. The values of all results are counted, and those
with the highest counts are listed first. -/
namespace LedgerSearch.Search

inductive FacetKey
  | entityType | project | status | documentType | client | issuedDate | totalValue | personType
  | contactOrganization | organizationType | tradeFocus | costCodeCategory | costCode
  deriving DecidableEq, Repr

namespace FacetKey

def all : List FacetKey :=
  [entityType, project, status, documentType, client, issuedDate, totalValue, personType, contactOrganization,
  organizationType, tradeFocus, costCodeCategory, costCode]

def name : FacetKey → Text
  | entityType => "entityType".toText
  | project => "project".toText
  | status => "status".toText
  | documentType => "documentType".toText
  | client => "client".toText
  | issuedDate => "issuedDate".toText
  | totalValue => "totalValue".toText
  | personType => "personType".toText
  | contactOrganization => "contactOrganization".toText
  | organizationType => "organizationType".toText
  | tradeFocus => "tradeFocus".toText
  | costCodeCategory => "costCodeCategory".toText
  | costCode => "costCode".toText

def ofName? (name : Text) : Option FacetKey := all.find? fun k => k.name == name

end FacetKey

/-- The label of the band that a total falls in. -/
def totalBand (x : Binary64) : Text :=
  if Binary64.lt x (Binary64.ofNat 10000) then "< $10k".toText
  else if Binary64.lt x (Binary64.ofNat 50000) then "$10k–$50k".toText
  else if Binary64.lt x (Binary64.ofNat 100000) then "$50k–$100k".toText
  else "$100k+".toText

/-- The greatest age in days of each band of issue dates, with its label. -/
def ageBands : List (Int × String) :=
  [(7, "Last 7 days"), (30, "Last 30 days"), (90, "Last 3 months"), (180, "Last 6 months"), (365, "Last year"),
  (730, "Last 2 years")]

/-- The label of the band that a date of issue falls in. -/
def ageBand (now issued : Instant) : Text :=
  match ageBands.find? fun band => Instant.daysUntil issued now ≤ band.1 with
  | some band => band.2.toText
  | none => "Older than 2 years".toText

/-- Where a number stands among all numbers: below the finite ones, among them, above them, or outside. -/
def numberRank? : Atom → Option (Int × Int)
  | .bool b => some (0, if b then Binary64.unitsPerOne else 0)
  | .int n => some (0, n * Binary64.unitsPerOne)
  | .real (.finite s u) => some (0, Binary64.signedUnits s u)
  | .real (.infinite s) => some (if s then -1 else 1, 0)
  | .real .nan => some (2, 0)
  | _ => none

/-- A counted value; numbers of equal size are one value. -/
structure Value where
  atom : Atom
  deriving Repr

namespace Value

def same (a b : Value) : Bool :=
  match numberRank? a.atom, numberRank? b.atom with
  | some x, some y => x == y
  | none, none => a.atom == b.atom
  | _, _ => false

instance : BEq Value := ⟨same⟩

def text? (v : Value) : Option Text :=
  match v.atom with
  | .text t => some t
  | _ => none

/-- Whether a value may stand before another; texts and numbers have no common order. -/
def le? (a b : Value) : Option Bool :=
  match a.atom, b.atom with
  | .text s, .text t => some (Text.le s t)
  | _, _ =>
    match numberRank? a.atom, numberRank? b.atom with
    | some (x, m), some (y, n) => some (decide (x < y ∨ x = y ∧ m ≤ n))
    | _, _ => none

/-- Whether a value can be compared with another of its kind. -/
def isComparable (v : Value) : Bool :=
  match v.atom with
  | .real x => x.isNumber
  | _ => true

/-- Whether a value is below another; what is no number is neither below nor above any other. -/
def isBelow (a b : Value) : Bool :=
  a.isComparable && b.isComparable && le? a b == some true && le? b a == some false

/-- The value that a payload is counted as. -/
def ofPayload : Payload → Except Fault Value
  | .atom a => .ok ⟨a⟩
  | _ => .error .valueNotCountable

end Value

/-- The first of the values that occur most often. -/
def mostCommon? (values : List Value) : Option Value :=
  let counted : Entries Value Nat := Entries.counts values
  let top := (counted.map Prod.snd).foldl max 0
  (List.find? (fun c => c.2 == top) counted).map Prod.fst

/-- The most common one of the filled payloads, if all of them can be counted. -/
def mostCommonPayload (payloads : List Payload) : Except Fault (Option Payload) :=
  ((payloads.filter Payload.isFilled).mapM Value.ofPayload).map fun values =>
    (mostCommon? values).map fun v => .atom v.atom

/-- A payload where it is filled. -/
def filled (p : Payload) : Option Payload := if p.isFilled then some p else none

/-- The facet value of a record's details under a key, before empty ones are left out. -/
def detailsValue (now : Instant) (key : FacetKey) (details : Details) : Except Fault (Option Payload) :=
  match key, details with
  | .documentType, .document d => .ok (some (.text d.documentType))
  | .issuedDate, .financial f => .ok (some (.text (ageBand now f.issued)))
  | .totalValue, .financial f => .ok (some (.text (totalBand f.totalValue)))
  | .personType, .person p => .ok (some (.text p.kind.name))
  | .contactOrganization, .person p => .ok (some p.organization)
  | .organizationType, .organization o => .ok (some (.text o.kind.name))
  | .tradeFocus, .person p => .ok (some p.tradeFocus)
  | .tradeFocus, .organization o => .ok (some (.text o.tradeFocus))
  | .costCodeCategory, .financial f =>
    mostCommonPayload (f.lineItems.map fun item => item.costCodeCategoryName.orElse item.costCodeCategory)
  | .costCode, .financial f =>
    mostCommonPayload (f.lineItems.map fun item => item.costCodeName.orElse item.costCode)
  | _, _ => .ok none

/-- The facet value of a record under a key. -/
def facetValue (now : Instant) (key : FacetKey) (r : Record) : Except Fault (Option Payload) :=
  match key with
  | .entityType => .ok (some (.text r.kind.name))
  | .project => .ok (filled (.text r.project))
  | .status => .ok (filled (.text r.status))
  | .client => .ok (filled (.text r.client))
  | key => (detailsValue now key r.details).map fun value => value.bind filled

/-- The values of all records that have one under a key. -/
def facetValues (now : Instant) (key : FacetKey) : List Record → Except Fault (List Value)
  | [] => .ok []
  | r :: rest => do
    let value ← facetValue now key r
    let own ← match value with
      | some p => (Value.ofPayload p).map fun v => [v]
      | none => .ok []
    let more ← facetValues now key rest
    return own ++ more

/-- Two values with equal counts can be ordered. -/
def countsComparable (a b : Value × Nat) : Bool := a.2 != b.2 || (Value.le? a.1 b.1).isSome

/-- Whether a counted value belongs before another: its count is higher, or equal and the value is lower. -/
def countsBefore (a b : Value × Nat) : Bool := if a.2 = b.2 then Value.isBelow a.1 b.1 else b.2 < a.2

/-- Counted values with the highest counts first. -/
def orderCounts (counted : Entries Value Nat) : Except Fault (Entries Value Nat) :=
  if counted.all fun a => counted.all fun b => countsComparable a b then
    .ok (Sorting.sortBy (fun c => c.1.isComparable) countsBefore counted)
  else .error .valuesNotComparable

/-- The key of the facet that lists the ways to group results. -/
def groupByKey : Text := "groupBy".toText

/-- The ways to group results. -/
def groupings : List Text :=
  ["None".toText, "Type".toText, "Project".toText, "Status".toText, "Client".toText]

def groupingCounts (total : Nat) : Entries Value Nat := groupings.map fun g => (⟨.text g⟩, total)

/-- The values counted under the keys in order, keys without any left out. -/
def keyFacets (now : Instant) (records : List Record) : List FacetKey → Except Fault (Entries Text (Entries Value Nat))
  | [] => .ok []
  | key :: rest => do
    let counted ← (facetValues now key records).map Entries.counts
    let more ← keyFacets now records rest
    if counted.isEmpty then return more
    let ordered ← orderCounts counted
    return (key.name, ordered) :: more

/-- All facets of some records; each way to group them counts them all. -/
def facets (now : Instant) (records : List Record) : Except Fault (Entries Text (Entries Value Nat)) :=
  (keyFacets now records FacetKey.all).map fun found => found ++ [(groupByKey, groupingCounts records.length)]

end LedgerSearch.Search

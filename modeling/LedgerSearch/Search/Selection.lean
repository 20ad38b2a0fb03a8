import LedgerSearch.Search.Facet

/-! # Selected facet values
A record passes if under every key its value is one of those selected. A key without selected values
asks for nothing, and the key for the grouping never does. -/
namespace LedgerSearch.Search

abbrev Selections := Entries Text (List Value)

/-- Selections of texts alone. -/
def Selections.ofTexts (selected : Entries Text (List Text)) : Selections :=
  selected.map fun s => (s.1, s.2.map fun t => ⟨.text t⟩)

/-- The record's value under a key is one of some values. -/
def passesKey (now : Instant) (r : Record) (key : Text) (values : List Value) : Except Fault Bool :=
  match FacetKey.ofName? key with
  | none => .ok false
  | some key => do
    match ← facetValue now key r with
    | none => return false
    | some p =>
      let value ← Value.ofPayload p
      return values.contains value

def passes (now : Instant) (r : Record) : Selections → Except Fault Bool
  | [] => .ok true
  | (key, values) :: rest =>
    if key = groupByKey ∨ values.isEmpty then passes now r rest
    else do
      if ← passesKey now r key values then passes now r rest else return false

/-- The least of some values, if each two of them can be ordered. -/
def least? (values : List Value) : Except Fault (Option Value) :=
  if values.all fun a => values.all fun b => a == b || (Value.le? a b).isSome then
    match values with
    | [] => .ok none
    | first :: rest => .ok (some (rest.foldl (fun least v => if Value.isBelow v least then v else least) first))
  else .error .valuesNotComparable

/-- The least of the groupings selected. -/
def selectedGrouping (s : Selections) : Except Fault (Option Value) := least? ((Entries.find? groupByKey s).getD [])

/-- The grouping that a payload names; one that is not filled names none, and any other must be a text. -/
def groupingName (p : Payload) : Except Fault (Option Text) :=
  if !p.isFilled then .ok none
  else match p.text? with
    | some name => .ok (some name)
    | none => .error .groupingNotText

end LedgerSearch.Search

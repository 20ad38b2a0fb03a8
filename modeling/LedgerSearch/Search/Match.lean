import LedgerSearch.Query.Range
import LedgerSearch.Query.Restriction
import LedgerSearch.Query.Tree
import LedgerSearch.Search.Haystack

/-! # Records that a query finds
A leaf finds a record by its words or, if it may be about money, by its amounts. Operators combine
the answers of their parts, and a quick link is found by its trigger phrases alone. -/
namespace LedgerSearch.Search

/-- The query is a trigger phrase, blanks at the ends and letter case aside. -/
def isTrigger (q : QuickLink) (query : Text) : Bool :=
  q.triggers.any fun t => Text.lower (Text.strip query) == Text.lower (Text.strip t)

/-- Every word of the query occurs in the searchable text. -/
def holdsWords (r : Record) (query : Text) : Except Fault Bool :=
  match r.quickLink? with
  | some q => .ok (isTrigger q query)
  | none =>
    if (Query.tokens query).isEmpty then .ok true
    else (haystack r).map fun text => (Query.tokens query).all fun token => Text.occursIn token text

/-- A queried amount is near a visible one, or its token admits it. -/
def holdsAmount (f : Financial) (t : Query.MoneyTokens) : Bool :=
  t.amounts.any (fun a => (amounts f).any fun v => Query.isClose v.2 a.2 Query.cent) ||
    t.amounts.any (fun a => (amounts f).any fun v => Query.admitsNumber a.1 v.2)

/-- A visible amount lies in the queried range. -/
def holdsRange (f : Financial) (t : Query.MoneyTokens) : Bool :=
  match t.range with
  | some range => (amounts f).any fun v => range.contains v.2
  | none => false

/-- Every word beside the amounts occurs in the money text of one line. -/
def holdsLine (f : Financial) (t : Query.MoneyTokens) : Bool :=
  !t.words.isEmpty && f.lineItems.any fun item => t.words.all fun word => Text.occursIn word (moneyText item)

/-- The record answers a query about money, which looks at visible amounts alone if it is explicit. -/
def holdsMoney (explicit : Bool) (r : Record) (query : Text) : Bool :=
  if (Query.moneyTokens query).isEmpty then true
  else
    match r.financial? with
    | none => false
    | some f =>
      holdsRange f (Query.moneyTokens query) || holdsAmount f (Query.moneyTokens query) ||
        (!explicit && holdsLine f (Query.moneyTokens query))

/-- The record answers the text of one leaf. -/
def holdsLeaf (r : Record) (text : Text) : Except Fault Bool :=
  if (Query.moneyQuery text).isExplicit then
    match r.quickLink? with
    | some q => .ok (isTrigger q text)
    | none => .ok (holdsMoney true r (Query.moneyQuery text).text)
  else do
    if ← holdsWords r text then return true
    return r.quickLink?.isNone && Query.mayBeMoney text && holdsMoney false r text

/-- The record answers a query tree; an exclusion asks its right part only where the left one holds. -/
def holdsTree (r : Record) : Query.Tree → Except Fault Bool
  | .leaf text => holdsLeaf r text
  | .node .both left right => do
    let a ← holdsTree r left
    let b ← holdsTree r right
    return a && b
  | .node .either left right => do
    let a ← holdsTree r left
    let b ← holdsTree r right
    return a || b
  | .node .without left right => do
    if ← holdsTree r left then return !(← holdsTree r right)
    return false
  | .negation operand => do return !(← holdsTree r operand)

/-- The record is found by a query. -/
def holds (r : Record) (query : Text) : Except Fault Bool :=
  match r.quickLink? with
  | some q => .ok (isTrigger q query)
  | none => holdsTree r (Query.parse query)

end LedgerSearch.Search

import LedgerSearch.Query.Amount

/-! # Price ranges
A range is two numerals around a hyphen or around the word for an upper end, the second one with or
without a dollar sign. The four notations are tried in turn, each where it comes first in the query. -/
namespace LedgerSearch

structure PriceRange where
  min : Binary64
  max : Binary64
  deriving DecidableEq, Repr

def PriceRange.contains (r : PriceRange) (x : Binary64) : Bool := Binary64.le r.min x && Binary64.le x r.max

namespace Query

/-- The numeral at the start of a text, with a fraction only if digits follow the point. -/
def readBound? (t : Text) : Option (Numeral × Text) :=
  match Numeral.readDigits t with
  | ([], _) => none
  | (ws, rest) =>
    match rest with
    | '.' :: after =>
      match Numeral.readDigits after with
      | ([], _) => some (⟨ws, [], 0⟩, rest)
      | (fs, rest) => some (⟨ws, fs, 0⟩, rest)
    | _ => some (⟨ws, [], 0⟩, rest)

/-- What follows a hyphen and the blanks around it. -/
def afterHyphen? (t : Text) : Option Text :=
  match Text.stripStart t with
  | '-' :: rest => some (Text.stripStart rest)
  | _ => none

/-- What follows the word for an upper end, in any letter case, and the blanks around it. -/
def afterTo? (t : Text) : Option Text :=
  match t with
  | [] => none
  | c :: rest =>
    if Text.isBlank c then
      match Text.stripStart rest with
      | a :: b :: d :: rest =>
        if (a = 't' ∨ a = 'T') ∧ (b = 'o' ∨ b = 'O') ∧ Text.isBlank d then some (Text.stripStart rest) else none
      | _ => none
    else none

/-- How the bounds of a range are set apart, and whether the upper one has a dollar sign. -/
structure RangeNotation where
  separator : Text → Option Text
  dollar : Bool

def rangeNotations : List RangeNotation :=
  [⟨afterHyphen?, false⟩, ⟨afterTo?, false⟩, ⟨afterHyphen?, true⟩, ⟨afterTo?, true⟩]

namespace RangeNotation

/-- The bounds of a range at the start of a text. -/
def bounds? (n : RangeNotation) (t : Text) : Option (Numeral × Numeral) := do
  let (low, rest) ← readBound? t
  let rest ← n.separator rest
  let rest ← if n.dollar then (match rest with | '$' :: r => some r | _ => none) else some rest
  let (high, _) ← readBound? rest
  return (low, high)

/-- The bounds of the first range in a text. -/
def find? (n : RangeNotation) : Text → Option (Numeral × Numeral)
  | [] => none
  | c :: rest =>
    match n.bounds? (c :: rest) with
    | some b => some b
    | none => n.find? rest

end RangeNotation

/-- The range between two bounds that are in order. -/
def between? (low high : Binary64) : Option PriceRange :=
  if Binary64.le low high then some ⟨low, high⟩ else none

/-- The first range found whose bounds are in order. -/
def range? (query : Text) : Option PriceRange :=
  rangeNotations.findSome? fun n =>
    (n.find? query).bind fun bounds => between? (bounds.1.value false) (bounds.2.value false)

/-- A query worth comparing with amounts although it does not ask for them alone. -/
def mayBeMoney (query : Text) : Bool :=
  let body := Text.strip query
  if body.isEmpty then false
  else body.any (fun c => c = '$' || c = '.' || c = ',') || Text.allPlainDigits body || (range? body).isSome

/-- A query taken apart: a range, or amounts with the tokens they come from and the other tokens. -/
structure MoneyTokens where
  amounts : List (Text × Binary64)
  words : List Text
  range : Option PriceRange
  deriving DecidableEq, Repr

namespace MoneyTokens

def isEmpty (t : MoneyTokens) : Bool := t.amounts.isEmpty && t.words.isEmpty && t.range.isNone

end MoneyTokens

def moneyTokens (query : Text) : MoneyTokens :=
  match range? query with
  | some r => ⟨[], [], some r⟩
  | none =>
    let read := tokens query
    ⟨read.filterMap fun t => (amount? t).map fun a => (t, a), read.filter fun t => (amount? t).isNone, none⟩

end Query
end LedgerSearch

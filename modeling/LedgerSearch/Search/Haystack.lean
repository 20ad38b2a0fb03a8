import LedgerSearch.Number.Notation
import LedgerSearch.Payload.Spelling
import LedgerSearch.Record.Basic
import LedgerSearch.Text.Lower

/-! # The searchable text and the amounts of a record
The haystack is the lower form of all filled parts of a record, joined by spaces. The amounts are the
total of a financial record and the totals and unit prices of its lines. Data that is kept as it came may
hold something else than a text where a search needs one, which is a fault. -/
namespace LedgerSearch

def joinWords (pieces : List Text) : Text := Text.joinWith [' '] pieces

namespace LineItem

def parts (item : LineItem) : List Payload :=
  [.text item.title, .text item.description, .text item.kind.name]

end LineItem

namespace Details

/-- The searchable fields that only some kinds of records have. -/
def parts : Details → List Payload
  | document d => [.text d.documentType, .text d.author]
  | financial f => f.lineItems.flatMap LineItem.parts
  | person p =>
    [.text p.kind.name, .text p.jobTitle, p.organization, .text p.email, .text p.phone, .text p.location,
    p.tradeFocus]
  | organization o =>
    [.text o.kind.name, .text o.tradeFocus, .text o.serviceArea, .text o.primaryContact, .text o.phone,
    .text o.email, o.website]
  | quickLink q => [.text q.path, .text q.description, .text (joinWords q.triggers)]
  | dailyLog l =>
    .text l.author :: (l.weather.map fun w => Payload.text w.description).toList ++ l.weatherNotes :: l.notes.toList

end Details

namespace Record

/-- All fields of a record that a search looks through, in order. -/
def parts (r : Record) : List Payload :=
  [.text r.title, .text r.summary, .text r.project, .text r.client, .text r.status, .text (joinWords r.tags)] ++
    r.metadata.map (fun m => .text (Payload.atom m.2).spellFilled) ++ r.details.parts

end Record

namespace Search

/-- What can stop a search. -/
inductive Fault
  | fieldNotText
  | valueNotCountable
  | valuesNotComparable
  | groupingNotText
  | undefinedProximity
  | unknownOrder (shown : Text)
  deriving DecidableEq, Repr

namespace Fault

def message : Fault → Text
  | fieldNotText => "a field of the record is not a text".toText
  | valueNotCountable => "a list or an object cannot be counted as a value".toText
  | valuesNotComparable => "texts and numbers cannot be ordered together".toText
  | groupingNotText => "a grouping is given by a text".toText
  | undefinedProximity => "cannot convert float NaN to integer".toText
  | unknownOrder shown => shown ++ " is not a valid SortOption".toText

end Fault

/-- The texts of the filled payloads among some, if all of these are texts. -/
def filledTexts : List Payload → Except Fault (List Text)
  | [] => .ok []
  | p :: rest =>
    if p.isFilled then
      match p.text? with
      | some t => (filledTexts rest).map (t :: ·)
      | none => .error .fieldNotText
    else filledTexts rest

/-- The searchable text of a record. -/
def haystack (r : Record) : Except Fault Text :=
  (filledTexts r.parts).map fun texts => Text.lower (joinWords texts)

/-- What an amount of a financial record is the amount of. -/
inductive AmountKind | total | lineTotal | unitPrice deriving DecidableEq, Repr

namespace AmountKind

def all : List AmountKind := [total, lineTotal, unitPrice]

end AmountKind

/-- The amounts that a reader of the record sees. -/
def amounts (f : Financial) : List (AmountKind × Binary64) :=
  (.total, f.totalValue) :: f.lineItems.flatMap fun item => [(.lineTotal, item.total), (.unitPrice, item.unitPrice)]

/-- The fields of a line with their texts, in the order in which flags are asked for. -/
def lineFields (item : LineItem) : Entries Text Text :=
  [("title".toText, item.title), ("description".toText, item.description),
  ("quantity".toText, item.quantity.writePlain), ("unit_of_measure".toText, item.unitOfMeasure),
  ("unit_price".toText, item.unitPrice.writePlain), ("total".toText, item.total.writePlain),
  ("item_type".toText, item.kind.name)]

/-- The text of the fields of a line that may answer a money query. -/
def moneyText (item : LineItem) : Text :=
  Text.lower (joinWords (((lineFields item).filter fun f => item.isMonetary f.1).map Prod.snd))

end Search
end LedgerSearch

import LedgerSearch.Marking.Highlighter
import LedgerSearch.Record.Basic

/-! # Best matching field and its snippet
The best field is the first one that holds the most terms of a query. A snippet of a long field is
a window of words that starts two words before the first hit. -/
namespace LedgerSearch.Marking

abbrev Field := Text × Text

def lineFieldName (index : Nat) (name : String) : Text :=
  "lineItem".toText ++ Text.ofNat index ++ "_".toText ++ name.toText

/-- The fields of lines, numbered from a position on. -/
def lineFields (index : Nat) : List LineItem → List Field
  | [] => []
  | item :: rest =>
    (lineFieldName index "title", item.title) :: (lineFieldName index "description", item.description) ::
      (lineFieldName index "type", item.kind.name) :: lineFields (index + 1) rest

def detailFields : Details → List Field
  | .document d => [("documentType".toText, d.documentType), ("author".toText, d.author)]
  | .financial f => lineFields 0 f.lineItems
  | .person p => [("jobTitle".toText, p.jobTitle), ("email".toText, p.email)]
  | .organization o => [("tradeFocus".toText, o.tradeFocus), ("serviceArea".toText, o.serviceArea)]
  | .quickLink _ => []
  | .dailyLog _ => []

def metadataFields (metadata : Entries Text Atom) : List Field :=
  (metadata.filter fun m => m.2 != .null).map fun m => ("metadata_".toText ++ m.1, m.2.spell)

/-- The named texts of a record that may be shown as a match, in order. -/
def fields (r : Record) : List Field :=
  [("title".toText, r.title), ("summary".toText, r.summary), ("project".toText, r.project),
    ("client".toText, r.client), ("status".toText, r.status), ("tags".toText, Text.joinWith [' '] r.tags)] ++
    detailFields r.details ++ metadataFields r.metadata

/-- How many terms a text holds, letter case aside. -/
def termsIn (terms : List Text) (content : Text) : Nat :=
  terms.countP fun term => Text.occursIn term (Text.lower content)

/-- A matching field with its highlighted content. -/
structure FieldMatch where
  field : Text
  content : Text
  html : Text
  deriving DecidableEq, Repr

/-- Improves on the best match so far with each field that holds more terms than it. -/
def improve (terms : List Text) (query : Text) (best : Option FieldMatch) (top : Nat) (c : Cache) :
    List Field → Option FieldMatch × Cache
  | [] => (best, c)
  | (name, content) :: rest =>
    if top < termsIn terms content then
      let (html, c) := c.highlight .text content query
      improve terms query (some ⟨name, content, html⟩) (termsIn terms content) c rest
    else improve terms query best top c rest

/-- The first field that holds the most terms of a query, if any holds one. -/
def bestMatch (c : Cache) (r : Record) (query : Text) : Option FieldMatch × Cache :=
  improve (Query.searchTerms query) query none 0 c (fields r)

/-- The position of the first word that holds a term. -/
def firstHit? (terms words : List Text) : Option Nat :=
  words.findIdx? fun word => 0 < termsIn terms word

/-- How many words a snippet holds: one for eight characters begun. -/
def wordCount (maxLength : Int) : Int := -Int.fdiv (-maxLength) 8

/-- The words of a snippet, which starts two words before the first hit. -/
def window (terms words : List Text) (maxLength : Int) : Text :=
  let start : Nat := ((firstHit? terms words).getD 0) - 2
  Text.joinWith [' '] (Text.cut words start (start + wordCount maxLength))

/-- The snippet of a matching field; one that saves nothing is the whole field. -/
def snippet (c : Cache) (m : FieldMatch) (query : Text) (maxLength : Int) : Text × Cache :=
  if (m.content.length : Int) ≤ maxLength then (m.html, c)
  else
    let text := window (Query.searchTerms query) (Text.words m.content) maxLength
    if text.length < m.content.length then c.highlight .text (text ++ "...".toText) query
    else (m.html, c)

/-- The snippet of the best field of a record, if it has one. -/
def recordSnippet (c : Cache) (r : Record) (query : Text) (maxLength : Int) : Option Text × Cache :=
  match bestMatch c r query with
  | (none, c) => (none, c)
  | (some m, c) =>
    let (html, c) := snippet c m query maxLength
    (some html, c)

end LedgerSearch.Marking

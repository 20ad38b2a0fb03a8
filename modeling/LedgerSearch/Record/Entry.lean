import LedgerSearch.Calendar.Reader
import LedgerSearch.Number.Numeral
import LedgerSearch.Payload.Spelling
import LedgerSearch.Record.Basic

/-! # Reading one record
An entry of a corpus becomes a record of the kind it names. Texts and numbers are taken from whatever
stands in their fields; a missing identifier, an unknown kind or a list that is none refuse the entry,
and an integer too large for a number stops the whole reading. -/
namespace LedgerSearch

inductive EntryError
  | notAnObject
  | missingId
  | unknownKind (shown id : Text)
  | unknownPersonKind (shown : Text)
  | unknownOrganizationKind (shown : Text)
  | notIterable (kindName : Text)
  | numberTooLarge
  | tooManyDigits (count : Nat)
  deriving DecidableEq, Repr

namespace EntryError

def message : EntryError → Text
  | notAnObject => "not an object".toText
  | missingId => "record is missing an id".toText
  | unknownKind shown id => "unknown entityType ".toText ++ shown ++ " for ".toText ++ id
  | unknownPersonKind shown => shown ++ " is not a valid PersonType".toText
  | unknownOrganizationKind shown => shown ++ " is not a valid OrganizationType".toText
  | notIterable kindName => "'".toText ++ kindName ++ "' object is not iterable".toText
  | numberTooLarge => "int too large to convert to float".toText
  | tooManyDigits count =>
    "Exceeds the limit (4300 digits) for integer string conversion: value has ".toText ++ Text.ofNat count ++
      " digits; use sys.set_int_max_str_digits() to increase the limit".toText

end EntryError

namespace Entry

/-- The instant that a field holds; null and the empty text hold none. -/
def instant? (p : Payload) : Option Instant :=
  match p with
  | .atom .null => none
  | .atom (.text []) => none
  | _ => Instant.read? p.spell

/-- The number that a field holds, zero where it holds none. -/
def number : Payload → Except EntryError Binary64
  | .atom (.bool b) => .ok (if b then Binary64.one else Binary64.zero)
  | .atom (.int n) =>
    match Binary64.ofInt? n with
    | some x => .ok x
    | none => .error .numberTooLarge
  | .atom (.real x) => .ok x
  | .atom (.text t) => .ok ((Binary64.read? t).getD Binary64.zero)
  | _ => .ok Binary64.zero

def optionalNumber (p : Payload) : Except EntryError (Option Binary64) :=
  if p.isNull then .ok none else some <$> number p

/-- What a field holds one by one: the items of a list, the characters of a text, the keys of an object. -/
def items (p : Payload) : Except EntryError (List Payload) :=
  if !p.isFilled then .ok []
  else match p with
    | .list items => .ok items
    | .atom (.text t) => .ok (t.map fun c => .text [c])
    | .object fields => .ok (fields.map fun f => .text f.1)
    | _ => .error (.notIterable p.kindName)

def textOf (p : Payload) (name : String) : Text := (p.field name).spellFilled

/-- The names of a line's fields in data, with their names as flags are kept for them. -/
def lineFieldNames : Entries Text Text :=
  [("lineItemTitle".toText, "title".toText), ("lineItemDescription".toText, "description".toText),
  ("lineItemQuantity".toText, "quantity".toText),
  ("lineItemQuantityUnitOfMeasure".toText, "unit_of_measure".toText),
  ("lineItemUnitPrice".toText, "unit_price".toText), ("lineItemTotal".toText, "total".toText),
  ("lineItemType".toText, "item_type".toText)]

def recordFieldNames : Entries Text Text :=
  [("title".toText, "title".toText), ("summary".toText, "summary".toText), ("totalValue".toText, "total_value".toText)]

/-- Sets the flag of a known field if data names a known flag for it. -/
def setFlag (names : Entries Text Text) (flags : FieldFlags) (entry : Text × Payload) : FieldFlags :=
  let name := (Entries.find? entry.1 names).getD entry.1
  match (entry.2.text?).bind FieldFlag.ofName? with
  | some flag => if (Entries.find? name flags).isSome then Entries.put name flag flags else flags
  | none => flags

def flags (names : Entries Text Text) (defaults : FieldFlags) (p : Payload) : FieldFlags :=
  p.fields.foldl (setFlag names) defaults

def lineItem (p : Payload) : Except EntryError LineItem := do
  let quantity ← number (p.field "lineItemQuantity")
  let unitPrice ← number (p.field "lineItemUnitPrice")
  let total ← number (p.field "lineItemTotal")
  return {
    id := textOf p "lineItemId"
    title := textOf p "lineItemTitle"
    description := textOf p "lineItemDescription"
    quantity := quantity
    unitOfMeasure := textOf p "lineItemQuantityUnitOfMeasure"
    unitPrice := unitPrice
    total := total
    kind := LineItemKind.ofName (((p.field "lineItemType").text?).getD [])
    costCode := p.field "costCode"
    costCodeName := p.field "costCodeName"
    costCodeCategory := p.field "costCodeCategory"
    costCodeCategoryName := p.field "costCodeCategoryName"
    flags := flags lineFieldNames FieldFlags.lineDefaults (p.field "fieldMetadata") }

/-- The lines of a record; items that are no objects are passed over. -/
def lineItems (p : Payload) : Except EntryError (List LineItem) := do
  let found ← items p
  (found.filter fun item => match item with | .object _ => true | _ => false).mapM lineItem

/-- The unit that a measurement is given in, or the usual one. -/
def unit (p : Payload) (usual : String) : Text := ((p.field "unit").orElse (.text usual.toText)).spellFilled

def weather (p : Payload) : Except EntryError (Option Weather) :=
  match p with
  | .object _ => do
    let temperature := p.field "temperature"
    let wind := p.field "wind"
    let precipitation := p.field "precipitation"
    let current ← optionalNumber (temperature.field "current")
    let low ← optionalNumber (temperature.field "low")
    let speed ← optionalNumber (wind.field "speed")
    let humidity ← optionalNumber (p.field "humidity")
    let total ← optionalNumber (precipitation.field "total")
    return some {
      description := textOf p "description"
      temperature := current
      temperatureLow := low
      temperatureUnit := unit temperature "F"
      windSpeed := speed
      windUnit := unit wind "mph"
      humidity := humidity
      precipitation := total
      precipitationUnit := unit precipitation "in" }
  | _ => .ok none

/-- The atoms of an object by their names; lists and objects are left out. -/
def metadata (p : Payload) : Entries Text Atom :=
  p.fields.filterMap fun f => match f.2 with | .atom a => some (f.1, a) | _ => none

def personKind (p : Payload) : Except EntryError PersonKind :=
  let given := (p.field "personType").orElse (.text PersonKind.contact.name)
  match (given.text?).bind PersonKind.ofName? with
  | some kind => .ok kind
  | none => .error (.unknownPersonKind given.literal)

def organizationKind (p : Payload) : Except EntryError OrganizationKind :=
  let given := (p.field "organizationType").orElse (.text OrganizationKind.vendor.name)
  match (given.text?).bind OrganizationKind.ofName? with
  | some kind => .ok kind
  | none => .error (.unknownOrganizationKind given.literal)

def financial (kind : FinancialKind) (updatedAt : Instant) (p : Payload) : Except EntryError Financial := do
  let totalValue ← number (p.field "totalValue")
  let lineItems ← lineItems (p.field "lineItems")
  return {
    kind := kind
    totalValue := totalValue
    issued := (instant? (p.field "issuedDate")).getD updatedAt
    due := instant? (p.field "dueDate")
    lineItems := lineItems
    flags := flags recordFieldNames FieldFlags.recordDefaults (p.field "fieldMetadata") }

def person (p : Payload) : Except EntryError Person := do
  let kind ← personKind p
  return {
    kind := kind
    jobTitle := textOf p "jobTitle"
    organization := p.field "associatedOrganization"
    email := textOf p "email"
    phone := textOf p "phone"
    location := textOf p "location"
    tradeFocus := p.field "tradeFocus" }

def organization (p : Payload) : Except EntryError Organization := do
  let kind ← organizationKind p
  return {
    kind := kind
    tradeFocus := textOf p "tradeFocus"
    serviceArea := textOf p "serviceArea"
    primaryContact := textOf p "primaryContact"
    phone := textOf p "phone"
    email := textOf p "email"
    website := p.field "website" }

def quickLink (p : Payload) : Except EntryError QuickLink := do
  let triggers ← items (p.field "triggerQueries")
  return {
    path := textOf p "path"
    description := textOf p "description"
    icon := textOf p "icon"
    url := textOf p "url"
    triggers := triggers.map Payload.spell }

def dailyLog (p : Payload) : Except EntryError DailyLog := do
  let notes := p.field "structuredNotes"
  let weather ← weather (p.field "weatherConditions")
  let attachments ← items (p.field "attachments")
  return {
    logDate := instant? (p.field "logDate")
    author := textOf p "author"
    weather := weather
    weatherNotes := p.field "weatherNotes"
    notes := ⟨notes.field "progress", notes.field "issues", notes.field "materialsDelivered", notes.field "additional"⟩
    attachments := attachments.map Payload.spell }

def details (kind : EntityKind) (updatedAt : Instant) (p : Payload) : Except EntryError Details :=
  match kind with
  | .document => .ok (.document ⟨textOf p "documentType", textOf p "author"⟩)
  | .financial kind => .financial <$> financial kind updatedAt p
  | .person => .person <$> person p
  | .organization => .organization <$> organization p
  | .buildertrend => .quickLink <$> quickLink p
  | .dailyLog => .dailyLog <$> dailyLog p

def kindOf (p : Payload) : Except EntryError EntityKind :=
  let given := p.field "entityType"
  match (given.text?).bind EntityKind.ofName? with
  | some kind => .ok kind
  | none => .error (.unknownKind given.literal (p.field "id").spell)

def record (p : Payload) : Except EntryError Record :=
  match p with
  | .object _ => do
    if !(p.field "id").isFilled then throw .missingId
    let kind ← kindOf p
    let tags ← items (p.field "tags")
    let updatedAt := (instant? (p.field "updatedAt")).getD Instant.epoch
    let details ← details kind updatedAt p
    return {
      id := (p.field "id").spell
      title := textOf p "title"
      summary := textOf p "summary"
      project := textOf p "project"
      client := textOf p "client"
      status := textOf p "status"
      tags := tags.map Payload.spell
      metadata := metadata (p.field "metadata")
      updatedAt := updatedAt
      createdAt := instant? (p.field "createdAt")
      details := details }
  | _ => .error .notAnObject

end Entry
end LedgerSearch

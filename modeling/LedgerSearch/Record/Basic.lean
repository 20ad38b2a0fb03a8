import LedgerSearch.Calendar.Instant
import LedgerSearch.Payload.Basic
import LedgerSearch.Record.Flag
import LedgerSearch.Record.Kind

/-! # Records
All records share a head; the details depend on the kind. Fields that data may fill with anything
are kept as they came. -/
namespace LedgerSearch

structure LineItem where
  id : Text
  title : Text
  description : Text
  quantity : Binary64
  unitOfMeasure : Text
  unitPrice : Binary64
  total : Binary64
  kind : LineItemKind
  costCode : Payload
  costCodeName : Payload
  costCodeCategory : Payload
  costCodeCategoryName : Payload
  flags : FieldFlags
  deriving Repr

/-- The field of a line may answer a money query. -/
def LineItem.isMonetary (item : LineItem) (field : Text) : Bool :=
  FieldFlags.isMonetary FieldFlags.lineDefaults item.flags field

structure Document where
  documentType : Text
  author : Text
  deriving Repr

/-- Invoices, orders, bills, receipts and payments. -/
structure Financial where
  kind : FinancialKind
  totalValue : Binary64
  issued : Instant
  due : Option Instant
  lineItems : List LineItem
  flags : FieldFlags
  deriving Repr

/-- The field of a financial record may answer a money query. -/
def Financial.isMonetary (f : Financial) (field : Text) : Bool :=
  FieldFlags.isMonetary FieldFlags.recordDefaults f.flags field

structure Person where
  kind : PersonKind
  jobTitle : Text
  organization : Payload
  email : Text
  phone : Text
  location : Text
  tradeFocus : Payload
  deriving Repr

structure Organization where
  kind : OrganizationKind
  tradeFocus : Text
  serviceArea : Text
  primaryContact : Text
  phone : Text
  email : Text
  website : Payload
  deriving Repr

/-- A quick link, which only its exact trigger phrases find. -/
structure QuickLink where
  path : Text
  description : Text
  icon : Text
  url : Text
  triggers : List Text
  deriving Repr

structure Weather where
  description : Text
  temperature : Option Binary64
  temperatureLow : Option Binary64
  temperatureUnit : Text
  windSpeed : Option Binary64
  windUnit : Text
  humidity : Option Binary64
  precipitation : Option Binary64
  precipitationUnit : Text
  deriving Repr

structure Notes where
  progress : Payload
  issues : Payload
  materialsDelivered : Payload
  additional : Payload
  deriving Repr

def Notes.toList (n : Notes) : List Payload := [n.progress, n.issues, n.materialsDelivered, n.additional]

structure DailyLog where
  logDate : Option Instant
  author : Text
  weather : Option Weather
  weatherNotes : Payload
  notes : Notes
  attachments : List Text
  deriving Repr

inductive Details
  | document (d : Document)
  | financial (f : Financial)
  | person (p : Person)
  | organization (o : Organization)
  | quickLink (q : QuickLink)
  | dailyLog (l : DailyLog)
  deriving Repr

structure Record where
  id : Text
  title : Text
  summary : Text
  project : Text
  client : Text
  status : Text
  tags : List Text
  metadata : Entries Text Atom
  updatedAt : Instant
  createdAt : Option Instant
  details : Details
  deriving Repr

namespace Record

/-- A record with an identifier, a title and details, and nothing in its other fields. -/
def bare (id title : String) (details : Details) : Record where
  id := id.toText
  title := title.toText
  summary := []
  project := []
  client := []
  status := []
  tags := []
  metadata := []
  updatedAt := Instant.epoch
  createdAt := none
  details := details

def kind (r : Record) : EntityKind :=
  match r.details with
  | .document _ => .document
  | .financial f => .financial f.kind
  | .person _ => .person
  | .organization _ => .organization
  | .quickLink _ => .buildertrend
  | .dailyLog _ => .dailyLog

def financial? (r : Record) : Option Financial :=
  match r.details with
  | .financial f => some f
  | _ => none

def quickLink? (r : Record) : Option QuickLink :=
  match r.details with
  | .quickLink q => some q
  | _ => none

theorem isFinancial_kind (r : Record) : r.kind.isFinancial = r.financial?.isSome := by
  cases h : r.details <;> simp [kind, financial?, h, EntityKind.isFinancial, EntityKind.financial?]

end Record
end LedgerSearch

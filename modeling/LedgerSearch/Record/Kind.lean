import LedgerSearch.Text.Basic

/-! # Kinds of records
Five kinds of financial records and five others, each with the name that data carries and its labels. -/
namespace LedgerSearch

inductive FinancialKind | clientInvoice | purchaseOrder | bill | receipt | payment
  deriving DecidableEq, Repr

inductive EntityKind | document | financial (kind : FinancialKind) | person | organization | buildertrend | dailyLog
  deriving DecidableEq, Repr

namespace FinancialKind

def all : List FinancialKind := [clientInvoice, purchaseOrder, bill, receipt, payment]

end FinancialKind

namespace EntityKind

def all : List EntityKind :=
  document :: FinancialKind.all.map financial ++ [person, organization, buildertrend, dailyLog]

/-- The name of a kind in data. -/
def name : EntityKind → Text
  | document => "Document".toText
  | financial .clientInvoice => "ClientInvoice".toText
  | financial .purchaseOrder => "PurchaseOrder".toText
  | financial .bill => "Bill".toText
  | financial .receipt => "Receipt".toText
  | financial .payment => "Payment".toText
  | person => "Person".toText
  | organization => "Organization".toText
  | buildertrend => "Buildertrend".toText
  | dailyLog => "DailyLog".toText

/-- The name of a kind in messages. -/
def constant : EntityKind → Text
  | document => "DOCUMENT".toText
  | financial .clientInvoice => "CLIENT_INVOICE".toText
  | financial .purchaseOrder => "PURCHASE_ORDER".toText
  | financial .bill => "BILL".toText
  | financial .receipt => "RECEIPT".toText
  | financial .payment => "PAYMENT".toText
  | person => "PERSON".toText
  | organization => "ORGANIZATION".toText
  | buildertrend => "BUILDERTREND".toText
  | dailyLog => "DAILY_LOG".toText

/-- The label of one record. -/
def singular : EntityKind → Text
  | document => "Document".toText
  | financial .clientInvoice => "Client Invoice".toText
  | financial .purchaseOrder => "Purchase Order".toText
  | financial .bill => "Bill".toText
  | financial .receipt => "Receipt".toText
  | financial .payment => "Payment".toText
  | person => "Person".toText
  | organization => "Organization".toText
  | buildertrend => "Buildertrend".toText
  | dailyLog => "Daily Log".toText

/-- The label of several records. -/
def plural : EntityKind → Text
  | person => "People".toText
  | buildertrend => "Buildertrend".toText
  | kind => kind.singular ++ "s".toText

def ofName? (name : Text) : Option EntityKind := all.find? fun k => k.name == name

def financial? : EntityKind → Option FinancialKind
  | financial kind => some kind
  | _ => none

def isFinancial (kind : EntityKind) : Bool := kind.financial?.isSome

/-- The complaint about something, as it is shown, that names no kind. -/
def unknownMessage (shown : Text) : Text := shown ++ " is not a valid EntityType".toText

/-- The complaint about a kind where a financial one is required. -/
def notFinancialMessage (kind : EntityKind) : Text :=
  "Not a financial entity type: EntityType.".toText ++ kind.constant

theorem ofName?_name (kind : EntityKind) : ofName? kind.name = some kind := by
  rcases kind with _ | ⟨⟨⟩⟩ | _ | _ | _ | _ <;> decide

end EntityKind

inductive LineItemKind | material | labor | subcontractor | other | equipment deriving DecidableEq, Repr

namespace LineItemKind

def all : List LineItemKind := [material, labor, subcontractor, other, equipment]

def name : LineItemKind → Text
  | material => "Material".toText
  | labor => "Labor".toText
  | subcontractor => "Subcontractor".toText
  | other => "Other".toText
  | equipment => "Equipment".toText

/-- The kind of a name; an unknown name is of the other kind. -/
def ofName (name : Text) : LineItemKind := (all.find? fun k => k.name == name).getD other

end LineItemKind

inductive PersonKind | client | contact deriving DecidableEq, Repr

namespace PersonKind

def name : PersonKind → Text
  | client => "Client".toText
  | contact => "Contact".toText

def ofName? (name : Text) : Option PersonKind := [client, contact].find? fun k => k.name == name

end PersonKind

inductive OrganizationKind | subcontractor | vendor deriving DecidableEq, Repr

namespace OrganizationKind

def name : OrganizationKind → Text
  | subcontractor => "Subcontractor".toText
  | vendor => "Vendor".toText

def ofName? (name : Text) : Option OrganizationKind := [subcontractor, vendor].find? fun k => k.name == name

end OrganizationKind
end LedgerSearch

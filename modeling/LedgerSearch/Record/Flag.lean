import LedgerSearch.Entries
import LedgerSearch.Text.Basic

/-! # Monetary fields
Each field of a record or of a line carries a flag that says whether its text may answer a money
query; a field without a flag of its own has the default one. -/
namespace LedgerSearch

inductive FieldFlag | monetary | plain deriving DecidableEq, Repr

namespace FieldFlag

def name : FieldFlag → Text
  | monetary => "monetary".toText
  | plain => "non-monetary".toText

/-- The flag that data may set. -/
def ofName? (name : Text) : Option FieldFlag := [monetary, plain].find? fun f => f.name == name

/-- Any other word leaves a field plain. -/
def ofName (name : Text) : FieldFlag := (ofName? name).getD plain

end FieldFlag

abbrev FieldFlags := Entries Text FieldFlag

namespace FieldFlags

def lineDefaults : FieldFlags :=
  [("title".toText, .plain), ("description".toText, .plain), ("quantity".toText, .plain),
  ("unit_of_measure".toText, .plain), ("unit_price".toText, .monetary), ("total".toText, .monetary),
  ("item_type".toText, .plain)]

def recordDefaults : FieldFlags :=
  [("title".toText, .plain), ("summary".toText, .plain), ("total_value".toText, .monetary)]

/-- The flag of a field, or else its default, is monetary. -/
def isMonetary (defaults flags : FieldFlags) (field : Text) : Bool :=
  match Entries.find? field flags with
  | some flag => flag == .monetary
  | none => Entries.find? field defaults == some .monetary

end FieldFlags
end LedgerSearch

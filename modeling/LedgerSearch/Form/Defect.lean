import LedgerSearch.Sorting
import LedgerSearch.Text.Lower

/-! # Defects of given values
A form is checked field by field; every defect is reported with the place where it is, and a value is
read only where there is none. -/
namespace LedgerSearch.Form

inductive Defect
  | missing | notText | brokenText | notWhole | unreadableWhole | fractional | notFinite | wholeTooLong | tooSmall
  | notAChoice | notAnObject | notAList | notAForm
  deriving DecidableEq, Repr

/-- The name under which a defect is reported. -/
def Defect.name : Defect → Text
  | missing => "missing".toText
  | notText => "string_type".toText
  | brokenText => "string_unicode".toText
  | notWhole => "int_type".toText
  | unreadableWhole => "int_parsing".toText
  | fractional => "int_from_float".toText
  | notFinite => "finite_number".toText
  | wholeTooLong => "int_parsing_size".toText
  | tooSmall => "greater_than_equal".toText
  | notAChoice => "enum".toText
  | notAnObject => "dict_type".toText
  | notAList => "list_type".toText
  | notAForm => "model_attributes_type".toText

/-- One step from a form to a place in it. -/
inductive Step
  | field (name : Text)
  | item (index : Nat)
  deriving DecidableEq, Repr

def Step.write : Step → Text
  | field name => name
  | item index => Text.ofNat index

structure Complaint where
  place : List Step
  defect : Defect
  deriving DecidableEq, Repr

namespace Complaint

/-- The place with a point between each two steps. -/
def placeText (c : Complaint) : Text := Text.joinWith ['.'] (c.place.map Step.write)

/-- Complaints ordered by place and defect. -/
def ordered (complaints : List Complaint) : List Complaint :=
  Sorting.sort (fun a b =>
    if a.placeText = b.placeText then Text.le a.defect.name b.defect.name else Text.le a.placeText b.placeText)
    complaints

end Complaint

/-- A value that was read, or all complaints about it. -/
abbrev Checked (α : Type) := Except (List Complaint) α

namespace Checked

variable {α β : Type}

def defect (d : Defect) : Checked α := .error [⟨[], d⟩]

/-- Moves complaints to a place below a step. -/
def under (step : Step) (a : Checked α) : Checked α :=
  a.mapError fun complaints => complaints.map fun c => ⟨step :: c.place, c.defect⟩

/-- Both values, or the complaints about both. -/
def both (a : Checked α) (b : Checked β) : Checked (α × β) :=
  match a, b with
  | .ok a, .ok b => .ok (a, b)
  | .ok _, .error e => .error e
  | .error e, .ok _ => .error e
  | .error e, .error f => .error (e ++ f)

/-- All values, or the complaints about all. -/
def all : List (Checked α) → Checked (List α)
  | [] => .ok []
  | a :: rest => (both a (all rest)).map fun p => p.1 :: p.2

end Checked
end LedgerSearch.Form

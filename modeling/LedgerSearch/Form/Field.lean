import LedgerSearch.Form.Defect
import LedgerSearch.Form.Whole
import LedgerSearch.Payload.Basic

/-! # Fields of forms
A whole number may be given as an integer, a truth value, a decimal without fraction or a text of
digits, none of them half a pair; texts, lists and objects are taken only as such. -/
namespace LedgerSearch.Form

/-- Whole decimals are taken below this size only. -/
def wholeLimit : Int := 9223372036854775808

def whole : Payload → Checked Int
  | .atom (.int n) => .ok n
  | .atom (.bool b) => .ok (if b then 1 else 0)
  | .atom (.real x) =>
    if !x.isFinite then Checked.defect .notFinite
    else match x.whole? with
      | none => Checked.defect .fractional
      | some n => if -wholeLimit < n ∧ n < wholeLimit then .ok n else Checked.defect .wholeTooLong
  | .atom (.text t) =>
    if t.any CodePoint.isHalf then Checked.defect .brokenText
    else match readWhole t with
      | .number n => .ok n
      | .tooLong => Checked.defect .wholeTooLong
      | .other => Checked.defect .unreadableWhole
  | _ => Checked.defect .notWhole

/-- A whole number that is not below a bound. -/
def wholeFrom (least : Nat) (p : Payload) : Checked { n : Nat // least ≤ n } :=
  (whole p).bind fun n =>
    if h : (least : Int) ≤ n then .ok ⟨n.toNat, by omega⟩ else Checked.defect .tooSmall

def text : Payload → Checked Text
  | .atom (.text t) => .ok t
  | _ => Checked.defect .notText

def textOrNull (p : Payload) : Checked (Option Text) := if p.isNull then .ok none else (text p).map some

/-- One of some choices, given by its name. -/
def choice {α : Type} (ofName? : Text → Option α) (p : Payload) : Checked α :=
  match p.text?.bind ofName? with
  | some a => .ok a
  | none => Checked.defect .notAChoice

/-- The items of a list, read one by one from a position on. -/
def itemsFrom {α : Type} (read : Payload → Checked α) (index : Nat) : List Payload → List (Checked α)
  | [] => []
  | p :: rest => Checked.under (.item index) (read p) :: itemsFrom read (index + 1) rest

def listOf {α : Type} (read : Payload → Checked α) : Payload → Checked (List α)
  | .list items => Checked.all (itemsFrom read 0 items)
  | _ => Checked.defect .notAList

/-- The values of an object, read one by one. -/
def entriesOf {α : Type} (read : Payload → Checked α) : Payload → Checked (Entries Text α)
  | .object fields =>
    Checked.all (fields.map fun f => (Checked.under (.field f.1) (read f.2)).map fun a => (f.1, a))
  | _ => Checked.defect .notAnObject

/-- A field that must be given. -/
def required {α : Type} (name : String) (read : Payload → Checked α) (p : Payload) : Checked α :=
  Checked.under (.field name.toText)
    (if p.hasField name then read (p.field name) else Checked.defect .missing)

/-- A field that has a standard value. -/
def optional {α : Type} (name : String) (standard : α) (read : Payload → Checked α) (p : Payload) : Checked α :=
  if p.hasField name then Checked.under (.field name.toText) (read (p.field name)) else .ok standard

end LedgerSearch.Form

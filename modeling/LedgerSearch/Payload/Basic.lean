import LedgerSearch.Entries
import LedgerSearch.Number.Binary64
import LedgerSearch.Text.Basic

/-! # Decoded data
A payload is an atom, a list or an object. Whole numbers and decimals stay apart, and an object
keeps the order of its fields. -/
namespace LedgerSearch

inductive Atom
  | null
  | bool (b : Bool)
  | int (n : Int)
  | real (x : Binary64)
  | text (t : Text)
  deriving DecidableEq, Repr, Inhabited

inductive Payload
  | atom (a : Atom)
  | list (items : List Payload)
  | object (fields : List (Text × Payload))
  deriving Repr, Inhabited

namespace Payload

abbrev null : Payload := .atom .null
abbrev bool (b : Bool) : Payload := .atom (.bool b)
abbrev int (n : Int) : Payload := .atom (.int n)
abbrev real (x : Binary64) : Payload := .atom (.real x)
abbrev text (t : Text) : Payload := .atom (.text t)

/-- The fields of an object; anything else has none. -/
def fields : Payload → List (Text × Payload)
  | object fields => fields
  | _ => []

/-- The value of a field, null where there is none. -/
def field (name : String) (p : Payload) : Payload := (Entries.find? name.toText p.fields).getD null

/-- Whether a field is present at all. -/
def hasField (name : String) (p : Payload) : Bool := (Entries.find? name.toText p.fields).isSome

/-- Neither null, false, zero nor empty. -/
def isFilled : Payload → Bool
  | .atom .null => false
  | .atom (.bool b) => b
  | .atom (.int n) => n != 0
  | .atom (.real (.finite _ u)) => u != 0
  | .atom (.real _) => true
  | .atom (.text t) => !t.isEmpty
  | list items => !items.isEmpty
  | object fields => !fields.isEmpty

/-- The payload if it is filled, else another. -/
def orElse (p fallback : Payload) : Payload := if p.isFilled then p else fallback

def isNull : Payload → Bool
  | .atom .null => true
  | _ => false

def text? : Payload → Option Text
  | .atom (.text t) => some t
  | _ => none

end Payload
end LedgerSearch

import LedgerSearch.Form.Field
import LedgerSearch.Host.Address

/-! # Routes of the host
A request names a route by its path; a slash too many at the end is passed over if nothing else fits. -/
namespace LedgerSearch.Host

open Form

/-- A request to the host: parameters stand beside the path, and a body may be missing. -/
structure Call where
  method : Text
  path : Text
  params : Entries Text Text
  body : Option Payload
  deriving Repr

/-- A request to an address; parameters handed in stand in place of those in the address. -/
def Call.to (method address : Text) (params : Option (List (Text × Text))) (body : Option Payload) : Call :=
  let target := Address.read address
  ⟨method.map CodePoint.toUpper, target.path, Entries.ofPairs (params.getD target.params), body⟩

inductive Route
  | health
  | search
  | highlight
  | snippet (id : Text)
  | traces
  | trace (id : Text)
  | metrics
  deriving DecidableEq, Repr

namespace Route

/-- A fixed last part without the line end that may follow it. -/
def lastPart (t : Text) : Text := if t.getLast? = some '\n' then t.dropLast else t

/-- The route that a path names. -/
def ofPath? (path : Text) : Option Route :=
  match Address.splitOn '/' path with
  | [[], name] =>
    let name := lastPart name
    if name = "health".toText then some health
    else if name = "search".toText then some search
    else if name = "highlight".toText then some highlight
    else if name = "traces".toText then some traces
    else if name = "metrics".toText then some metrics
    else none
  | [[], name, id] => if name = "traces".toText ∧ id ≠ [] then some (trace id) else none
  | [[], name, id, part] =>
    if name = "records".toText ∧ id ≠ [] ∧ lastPart part = "snippet".toText then some (snippet id) else none
  | _ => none

/-- The route of a path, slashes at its end aside. -/
def find? (path : Text) : Option Route :=
  match ofPath? path with
  | some route => some route
  | none => ofPath? (Text.dropEndWhile (· = '/') path)

/-- The method that a route answers to. -/
def method : Route → Text
  | search => "POST".toText
  | highlight => "POST".toText
  | _ => "GET".toText

end Route

/-- Reads the body of a call as a form. -/
def readBody {α : Type} (read : Payload → Checked α) (call : Call) : Checked α :=
  Checked.under (.field "body".toText)
    (match call.body with
    | none => Checked.defect .missing
    | some (.atom .null) => Checked.defect .missing
    | some (.object fields) => read (.object fields)
    | some _ => Checked.defect .notAForm)

/-- Reads the parameters of a call. -/
def readParams {α : Type} (read : Payload → Checked α) (call : Call) : Checked α :=
  Checked.under (.field "query".toText) (read (.object (call.params.map fun p => (p.1, .text p.2))))

end LedgerSearch.Host

import LedgerSearch.Number.Numeral
import LedgerSearch.Number.Notation
import LedgerSearch.Query.Tree

/-! # Amounts in queries
A query that begins with a dollar sign asks for amounts alone. Dollar signs, commas and blanks inside
an amount are noise. -/
namespace LedgerSearch.Query

/-- A query, without the dollar sign and the blanks around it if it asks for amounts alone. -/
structure MoneyQuery where
  isExplicit : Bool
  text : Text
  deriving DecidableEq, Repr

def moneyQuery (query : Text) : MoneyQuery :=
  match Text.strip query with
  | '$' :: rest => ⟨true, Text.strip rest⟩
  | _ => ⟨false, query⟩

def isMoneyNoise (c : CodePoint) : Bool := c = '$' || c = ',' || Text.isBlank c

/-- The text without dollar signs, commas and blanks. -/
def dropNoise (t : Text) : Text := t.filter fun c => !isMoneyNoise c

/-- The finite number at the start of a text, whatever comes after it. -/
def leadingNumber? (t : Text) : Option Binary64 :=
  let body := match Text.strip t with
    | '+' :: rest => rest
    | stripped => stripped
  match Numeral.read? false body with
  | none => none
  | some (n, _) =>
    let x := n.value false
    if x.isFinite then some x else none

/-- The amount that a token is written for; a hyphen anywhere makes it none. -/
def amount? (token : Text) : Option Binary64 :=
  let digits := dropNoise token
  if digits.contains '-' then none else leadingNumber? digits

theorem isFinite_of_leadingNumber? {t : Text} {x : Binary64} (h : leadingNumber? t = some x) : x.isFinite = true := by
  simp only [leadingNumber?] at h
  split at h
  · cases h
  · split at h
    · rename_i hfinite
      cases h
      exact hfinite
    · cases h

theorem isFinite_of_amount? {token : Text} {x : Binary64} (h : amount? token = some x) : x.isFinite = true := by
  simp only [amount?] at h
  split at h
  · cases h
  · exact isFinite_of_leadingNumber? h

/-- Two amounts that differ by no more than a tolerance. -/
def isClose (a b tolerance : Binary64) : Bool := Binary64.le (Binary64.abs (Binary64.sub a b)) tolerance

/-- One hundredth. -/
def cent : Binary64 := Binary64.ofRatio false 1 100

end LedgerSearch.Query

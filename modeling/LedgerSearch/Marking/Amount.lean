import LedgerSearch.Number.Notation
import LedgerSearch.Query.Amount
import LedgerSearch.Sorting

/-! # Amounts in a text
Numbers in a text are runs of digits and commas with an optional dollar sign and two places. An
amount is also looked for in each way that it may be written. -/
namespace LedgerSearch.Marking

/-- A number in a text, with its bounds and without noise. -/
structure NumberSpan where
  start : Nat
  stop : Nat
  value : Text
  deriving DecidableEq, Repr

def isRunChar (c : CodePoint) : Bool := Text.isDigit c || c = ','

/-- A point and two digits at the start of a text. -/
def places : Text → Text
  | '.' :: a :: b :: _ => if Text.isDigit a && Text.isDigit b then ['.', a, b] else []
  | _ => []

/-- The number at the start of a text as it is written there. -/
def numberAt (t : Text) : Text :=
  let (dollar, body) := match t with
    | '$' :: rest => ("$".toText, rest)
    | _ => ([], t)
  let run := body.takeWhile isRunChar
  if run.isEmpty then [] else dollar ++ run ++ places (body.drop run.length)

def dropCommasEnd (t : Text) : Text := Text.dropEndWhile (· = ',') t

/-- The bounds of a written number without the commas at its end, if a digit is left. -/
def numberSpan? (offset : Nat) (written : Text) : Option NumberSpan :=
  let kept := dropCommasEnd written
  let value := Query.dropNoise kept
  if value.any Text.isDigit then some ⟨offset, offset + kept.length, value⟩ else none

/-- The numbers of a text from left to right; `skip` characters belong to a number already read. -/
def numbersFrom (offset skip : Nat) : Text → List NumberSpan
  | [] => []
  | c :: rest =>
    match skip with
    | n + 1 => numbersFrom (offset + 1) n rest
    | 0 =>
      let written := numberAt (c :: rest)
      (numberSpan? offset written).toList ++ numbersFrom (offset + 1) (written.length - 1) rest

def numbers (text : Text) : List NumberSpan := numbersFrom 0 0 text

/-- The ways in which a finite amount may be written, without repetition and the longest first. -/
def writtenForms (amount : Binary64) (hfinite : amount.isFinite = true) (token : Text) : List Text :=
  let whole := amount.truncate hfinite
  let grouped :=
    if Binary64.whole? amount = some whole then Binary64.groupThousands (Text.ofInt whole)
    else Binary64.groupNumeral amount.write
  let forms := [amount.writePlain, grouped, amount.writeCents, Binary64.groupNumeral amount.writeCents,
    token.dropWhile (· = '$')]
  Sorting.sort (fun a b => decide (b.length ≤ a.length)) (forms.filter fun f => !f.isEmpty).eraseDups

/-- A character that joins a number to what stands before it. -/
def joinsBefore (c : CodePoint) : Bool := Text.isDigit c || c = '.' || c = ','

/-- What follows a number goes on with it: a digit, or a point or comma and a digit. -/
def continues : Text → Bool
  | [] => false
  | [c] => Text.isDigit c
  | c :: d :: _ => Text.isDigit c || ((c = '.' || c = ',') && Text.isDigit d)

/-- The length of a form at the start of a text, with an optional dollar sign before it. -/
def formLength? (form t : Text) : Option Nat :=
  let alone (body : Text) := form.isPrefixOf body && !continues (body.drop form.length)
  match t with
  | '$' :: rest =>
    if alone rest then some (form.length + 1) else if alone t then some form.length else none
  | _ => if alone t then some form.length else none

/-- Bounds of the places where a form stands alone; `previous` is the character before the text. -/
def formsFrom (form : Text) (offset skip : Nat) (previous : Option CodePoint) : Text → List (Nat × Nat)
  | [] => []
  | c :: rest =>
    match skip with
    | n + 1 => formsFrom form (offset + 1) n (some c) rest
    | 0 =>
      match if previous.any joinsBefore then none else formLength? form (c :: rest) with
      | some n => (offset, offset + n) :: formsFrom form (offset + 1) (n - 1) (some c) rest
      | none => formsFrom form (offset + 1) 0 (some c) rest

def standingAlone (form text : Text) : List (Nat × Nat) := formsFrom form 0 0 none text

end LedgerSearch.Marking

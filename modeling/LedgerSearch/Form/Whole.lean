import LedgerSearch.Number.Numeral
import LedgerSearch.Text.Basic
import LedgerSearch.Text.Blank
import LedgerSearch.Text.Digit

/-! # Whole numbers in forms
A whole number is written plainly as an optional minus sign and digits without needless zeros. Any
other text is tidied first: blanks around it, a plus sign, zeros at the start, a point that only zeros
follow and underscores between digits are dropped, and what remains has to be plain. -/
namespace LedgerSearch.Form

/-- Blanks around a whole number: all but the four separator controls. -/
def isMargin (c : CodePoint) : Bool := Text.isBlank c && !(28 ≤ c.toNat && c.toNat ≤ 31)

def trimMargins (t : Text) : Text := Text.dropEndWhile isMargin (t.dropWhile isMargin)

/-- The number that plain digits stand for. -/
def digitsValue (digits : Text) : Nat := Numeral.ofDigits (digits.map fun c => c.toNat - '0'.toNat)

/-- The greatest number of places, the minus sign among them, that a whole number may take. -/
def mostPlaces : Nat := 4300

/-- What a text is as a plain whole number. -/
inductive PlainWhole
  | number (n : Int)
  | tooLong
  | other
  deriving DecidableEq, Repr

/-- Reads a plain whole number; the places are counted before it is known how the text goes on. -/
def PlainWhole.read (t : Text) : PlainWhole :=
  let sign := if t.head? = some '-' then t.take 1 else []
  let digits := (t.drop sign.length).takeWhile Text.isPlainDigit
  if digits.isEmpty ∨ (digits.head? = some '0' ∧ digits ≠ "0".toText) then .other
  else if mostPlaces < sign.length + digits.length then .tooLong
  else if sign.length + digits.length < t.length then .other
  else if sign.isEmpty then .number (digitsValue digits)
  else .number (-(digitsValue digits : Int))

/-- Drops a plus sign that no minus sign follows. -/
def dropPlus : Text → Text
  | '+' :: '-' :: rest => '+' :: '-' :: rest
  | '+' :: rest => rest
  | t => t

/-- Drops zeros, and underscores after them, up to another digit; before a point or the end the last
character dropped stays. -/
def dropZerosAfter? (last : CodePoint) : Text → Option Text
  | [] => some [last]
  | c :: rest =>
    if c = '0' ∨ c = '_' then dropZerosAfter? c rest
    else if c = '.' then some (last :: c :: rest)
    else if Text.isPlainDigit c then some (c :: rest)
    else none

/-- Drops needless zeros at the start, where there must be a digit or a minus sign. -/
def dropLeadingZeros? : Text → Option Text
  | [] => none
  | c :: rest =>
    if c = '0' then dropZerosAfter? c rest
    else if Text.isPlainDigit c ∨ c = '-' then some (c :: rest)
    else none

/-- Drops a point that zeros, at least one, and nothing else follow. -/
def dropZeroPlaces (t : Text) : Text :=
  let places := Text.after '.' t
  if !places.isEmpty ∧ places.all (· = '0') then Text.before '.' t else t

/-- Drops underscores if none is first or last and no two are neighbours. -/
def dropUnderscores (t : Text) : Text :=
  if t.head? = some '_' ∨ t.getLast? = some '_' ∨ Text.occursIn ['_', '_'] t then t else t.filter (· != '_')

/-- The text without what is dropped before a whole number is read plainly. -/
def tidyWhole? (t : Text) : Option Text :=
  (dropLeadingZeros? (dropPlus (trimMargins t))).map fun t => dropUnderscores (dropZeroPlaces t)

/-- What a text is as a whole number; only one that is plain as it stands can be too long. -/
def readWhole (t : Text) : PlainWhole :=
  match PlainWhole.read t, (tidyWhole? t).map PlainWhole.read with
  | .other, some (.number n) => .number n
  | .other, _ => .other
  | plain, _ => plain

end LedgerSearch.Form

import LedgerSearch.Number.Binary64
import LedgerSearch.Text.Blank
import LedgerSearch.Text.Digit

/-! # Numerals in texts
An unsigned numeral is whole digits, a fraction and an exponent; digits of every script count.
A whole text is read as a number with the signs, underscores and special words that data may use. -/
namespace LedgerSearch

/-- Digit values of an unsigned decimal numeral, with its exponent of ten. -/
structure Numeral where
  whole : List Nat
  fraction : List Nat
  exponent : Int
  deriving DecidableEq, Repr

namespace Numeral

/-- The number that digit values stand for in base ten. -/
def ofDigits (digits : List Nat) : Nat := digits.foldl (fun n d => 10 * n + d) 0

def value (negative : Bool) (n : Numeral) : Binary64 :=
  let digits := (n.whole ++ n.fraction).dropWhile (· = 0)
  Binary64.ofDecimal negative (ofDigits digits) digits.length (n.exponent - n.fraction.length)

/-- The digit values at the start of a text, and what follows them. -/
def readDigits : Text → List Nat × Text
  | [] => ([], [])
  | c :: rest =>
    match Text.digitValue? c with
    | some d => let (ds, tail) := readDigits rest; (d :: ds, tail)
    | none => ([], c :: rest)

/-- An exponent mark, a sign among those admitted, and at least one digit; else nothing is read. -/
def readExponent (minus : Bool) (t : Text) : Int × Text :=
  match t with
  | e :: rest =>
    if e = 'e' ∨ e = 'E' then
      let (negative, body) := match rest with
        | '+' :: r => (false, r)
        | '-' :: r => if minus then (true, r) else (false, rest)
        | _ => (false, rest)
      match readDigits body with
      | ([], _) => (0, t)
      | (ds, tail) => (if negative then -(ofDigits ds : Int) else ofDigits ds, tail)
    else (0, t)
  | [] => (0, t)

/-- Digits with an optional fraction, or a fraction alone; a point may end the digits. -/
def readMantissa (t : Text) : Option (List Nat × List Nat × Text) :=
  match readDigits t with
  | ([], '.' :: rest) =>
    match readDigits rest with
    | ([], _) => none
    | (fs, tail) => some ([], fs, tail)
  | ([], _) => none
  | (ws, '.' :: rest) => let (fs, tail) := readDigits rest; some (ws, fs, tail)
  | (ws, tail) => some (ws, [], tail)

/-- The numeral at the start of a text, and what follows it; `minus` admits a negative exponent. -/
def read? (minus : Bool) (t : Text) : Option (Numeral × Text) :=
  match readMantissa t with
  | none => none
  | some (ws, fs, tail) =>
    let (exponent, rest) := readExponent minus tail
    some (⟨ws, fs, exponent⟩, rest)

end Numeral

namespace Binary64

/-- Blanks around a number: the space, the five layout controls and every blank beyond them. -/
def isNumberBlank (c : CodePoint) : Bool :=
  if c.toNat < 127 then c = ' ' || ('\t'.toNat ≤ c.toNat && c.toNat ≤ '\r'.toNat) else Text.isBlank c

/-- Removes each underscore between two digits; one that stands elsewhere refuses the text. -/
def joinDigits? (previous : CodePoint) : Text → Option Text
  | [] => if previous = '_' then none else some []
  | c :: rest =>
    if c = '_' then
      if Text.isDigit previous then joinDigits? c rest else none
    else if previous = '_' ∧ !Text.isDigit c then none
    else (joinDigits? c rest).map (c :: ·)

def asciiLower (t : Text) : Text := t.map CodePoint.toLower

/-- A number without sign: a numeral up to the end of the text, or a word for infinity or no number. -/
def readUnsigned? (negative : Bool) (t : Text) : Option Binary64 :=
  match Numeral.read? true t with
  | some (n, []) => some (n.value negative)
  | _ =>
    let word := asciiLower t
    if word = "inf".toText ∨ word = "infinity".toText then some (infinite negative)
    else if word = "nan".toText then some nan
    else none

/-- The number a whole text is written for. -/
def read? (t : Text) : Option Binary64 :=
  let body := Text.dropEndWhile isNumberBlank (t.dropWhile isNumberBlank)
  match joinDigits? ' ' body with
  | none => none
  | some body =>
    match body with
    | '+' :: rest => readUnsigned? false rest
    | '-' :: rest => readUnsigned? true rest
    | _ => readUnsigned? false body

end Binary64
end LedgerSearch

import LedgerSearch.Number.Shortest
import LedgerSearch.Text.Basic

/-! # Written numbers
A number is written with its shortest digits, positionally while its decimal exponent lies in a
fixed range and in exponent form beyond; or with a fixed count of places, a half going to the even
neighbour. Thousands may be set off by commas. -/
namespace LedgerSearch.Binary64

/-- Drops zeros at the end of a decimal's digits; `fuel` bounds their count. -/
def trimZeros (d : Decimal) : Nat → Decimal
  | 0 => d
  | fuel + 1 => if d.digits ≠ 0 ∧ d.digits % 10 = 0 then trimZeros ⟨d.digits / 10, d.exponent + 1⟩ fuel else d

/-- Digits with the decimal point behind the first `point` of them, and at least one place after it. -/
def positional (digits : Text) (point : Int) : Text :=
  if point ≤ 0 then "0.".toText ++ Text.fill (-point).toNat '0' ++ digits
  else
    let n := point.toNat
    if digits.length ≤ n then digits ++ Text.fill (n - digits.length) '0' ++ ".0".toText
    else digits.take n ++ ".".toText ++ digits.drop n

/-- One digit before the point, and an exponent of two digits or more with its sign. -/
def scientific (digits : Text) (exponent : Int) : Text :=
  let lead := match digits with
    | [] => ['0']
    | [d] => [d]
    | d :: rest => d :: '.' :: rest
  lead ++ (if exponent < 0 then "e-" else "e+").toText ++ Text.ofNatWide 2 exponent.natAbs

/-- The least and the greatest decimal exponent that is written positionally. -/
def positionalExponents : Int × Int := (-4, 15)

def writeUnits (units : Nat) : Text :=
  if units = 0 then "0.0".toText
  else
    let d := trimZeros (shortest units) 20
    let digits := Text.ofNat d.digits
    let exponent := d.exponent + digits.length - 1
    if positionalExponents.1 ≤ exponent ∧ exponent ≤ positionalExponents.2 then
      positional digits (exponent + 1)
    else scientific digits exponent

/-- The shortest text that reads back as the number. -/
def write : Binary64 → Text
  | nan => "nan".toText
  | infinite s => if s then "-inf".toText else "inf".toText
  | finite s u => if s then '-' :: writeUnits u else writeUnits u

/-- Sets commas between groups of three digits, counted from the right. -/
def groupThousands (digits : Text) : Text :=
  let rec go : Text → Text
    | [] => []
    | [d] => [d]
    | d :: rest => if rest.length % 3 = 0 then d :: ',' :: go rest else d :: go rest
  go digits

/-- Groups the digits before the point, the exponent or the end. -/
def groupNumeral (t : Text) : Text :=
  let isDigit := fun c : CodePoint => '0'.toNat ≤ c.toNat && c.toNat ≤ '9'.toNat
  groupThousands (t.takeWhile isDigit) ++ t.dropWhile isDigit

/-- A finite number with two places after the point. -/
def writeCents : Binary64 → Text
  | finite s u =>
    let cents := nearest (u * 100) unitsPerOne
    let text := Text.ofNat (cents / 100) ++ ".".toText ++ Text.ofNatWide 2 (cents % 100)
    if s then '-' :: text else text
  | x => write x

/-- A whole number below `10 ^ 21` without a point, any other number with its shortest digits. -/
def writePlain (x : Binary64) : Text :=
  match whole? x with
  | some n => if n.natAbs < Nat.pow 10 21 then Text.ofInt n else write x
  | none => write x

end LedgerSearch.Binary64

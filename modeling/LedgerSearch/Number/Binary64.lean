/-! # Binary floating-point numbers of 64 bits
Every finite number is a whole multiple of the smallest positive one, so it is kept as a sign and a
count of such units. Sums and comparisons are then exact on counts, and one function rounds. -/
namespace LedgerSearch

inductive Binary64
  | nan
  | infinite (negative : Bool)
  | finite (negative : Bool) (units : Nat)
  deriving DecidableEq, Repr, Inhabited

namespace Binary64

/-- The number of binary digits of a rounded count. -/
def precision : Nat := 53

/-- How many units make one. -/
def unitsPerOne : Nat := Nat.pow 2 1074

/-- The greatest finite count of units. -/
def maxUnits : Nat := (Nat.pow 2 53 - 1) * Nat.pow 2 2045

/-- The whole number nearest to a quotient; a half goes to the even neighbour. -/
def nearest (num den : Nat) : Nat :=
  let q := num / den
  let r := num % den
  if 2 * r < den then q
  else if den < 2 * r then q + 1
  else if q % 2 = 0 then q else q + 1

/-- The width in units of the gap between the numbers around a count. -/
def gapExponent (units : Nat) : Nat := units.log2 + 1 - precision

/-- The count of units nearest to a quotient that has at most `precision` binary digits. -/
def roundUnits (num den : Nat) : Nat :=
  let gap := Nat.pow 2 (gapExponent (num / den))
  nearest num (den * gap) * gap

/-- The number nearest to a quotient of units; past the greatest one it is infinite. -/
def ofUnits (negative : Bool) (num den : Nat) : Binary64 :=
  let units := roundUnits num den
  if maxUnits < units then infinite negative else finite negative units

/-- The number nearest to `num / den`. -/
def ofRatio (negative : Bool) (num den : Nat) : Binary64 := ofUnits negative (num * unitsPerOne) den

def ofNat (n : Nat) : Binary64 := ofRatio false n 1

def zero : Binary64 := finite false 0

def one : Binary64 := ofNat 1

/-- The number nearest to an integer, if there is a finite one. -/
def ofInt? (n : Int) : Option Binary64 :=
  match ofRatio (n < 0) n.natAbs 1 with
  | finite s u => some (finite s u)
  | _ => none

/-- The number nearest to `mantissa * 10 ^ exponent`, for a mantissa of the given count of digits. -/
def ofDecimal (negative : Bool) (mantissa digits : Nat) (exponent : Int) : Binary64 :=
  if mantissa = 0 then finite negative 0
  else if 400 < digits + exponent then infinite negative
  else if digits + exponent < -400 then finite negative 0
  else if 0 ≤ exponent then ofRatio negative (mantissa * Nat.pow 10 exponent.toNat) 1
  else ofRatio negative mantissa (Nat.pow 10 (-exponent).toNat)

def isFinite : Binary64 → Bool
  | finite .. => true
  | _ => false

def isNaN : Binary64 → Bool
  | nan => true
  | _ => false

/-- Not `nan`, so that it can be compared. -/
def isNumber (x : Binary64) : Bool := !x.isNaN

/-- The count of units with its sign. -/
def signedUnits (negative : Bool) (units : Nat) : Int := if negative then -units else units

/-- The number with a signed count of units, rounded; a sum that cancels is a positive zero. -/
def ofSigned (units : Int) : Binary64 := ofUnits (units < 0) units.natAbs 1

def neg : Binary64 → Binary64
  | nan => nan
  | infinite s => infinite !s
  | finite s u => finite (!s) u

def abs : Binary64 → Binary64
  | nan => nan
  | infinite _ => infinite false
  | finite _ u => finite false u

def add : Binary64 → Binary64 → Binary64
  | nan, _ => nan
  | _, nan => nan
  | infinite s, infinite t => if s = t then infinite s else nan
  | infinite s, finite .. => infinite s
  | finite .., infinite t => infinite t
  | finite s u, finite t v =>
    if s = t then ofUnits s (u + v) 1 else ofSigned (signedUnits s u + signedUnits t v)

def sub (a b : Binary64) : Binary64 := add a (neg b)

def mul : Binary64 → Binary64 → Binary64
  | nan, _ => nan
  | _, nan => nan
  | infinite s, infinite t => infinite (s != t)
  | infinite s, finite t v => if v = 0 then nan else infinite (s != t)
  | finite s u, infinite t => if u = 0 then nan else infinite (s != t)
  | finite s u, finite t v => ofUnits (s != t) (u * v) unitsPerOne

def div : Binary64 → Binary64 → Binary64
  | nan, _ => nan
  | _, nan => nan
  | infinite _, infinite _ => nan
  | infinite s, finite t _ => infinite (s != t)
  | finite s _, infinite t => finite (s != t) 0
  | finite s u, finite t v =>
    if v = 0 then (if u = 0 then nan else infinite (s != t))
    else ofRatio (s != t) u v

/-- Order of numbers; both zeros are equal and a comparison with `nan` fails. -/
def le : Binary64 → Binary64 → Bool
  | nan, _ => false
  | _, nan => false
  | infinite s, infinite t => s || !t
  | infinite s, finite .. => s
  | finite .., infinite t => !t
  | finite s u, finite t v => signedUnits s u ≤ signedUnits t v

def lt (a b : Binary64) : Bool := le a b && !le b a

/-- Equality of numbers; both zeros are equal and `nan` equals nothing. -/
def eq (a b : Binary64) : Bool := le a b && le b a

/-- The greatest integer that is not above the number. -/
def floor? : Binary64 → Option Int
  | finite s u => some (Int.fdiv (signedUnits s u) unitsPerOne)
  | _ => none

/-- The integer a finite number stands for if it is whole. -/
def whole? : Binary64 → Option Int
  | finite s u => if u % unitsPerOne = 0 then some (signedUnits s (u / unitsPerOne)) else none
  | _ => none

/-- The integer that is left of a finite number without its places. -/
def truncate : (x : Binary64) → x.isFinite = true → Int
  | finite s u, _ => signedUnits s (u / unitsPerOne)

end Binary64
end LedgerSearch

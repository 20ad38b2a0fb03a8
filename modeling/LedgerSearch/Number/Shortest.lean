import LedgerSearch.Number.Binary64

/-! # Shortest decimal digits
Of all decimals that round to a number, the ones with fewest digits are found grid by grid; on the
first grid that has one, the nearer of the number's two neighbours is taken. -/
namespace LedgerSearch.Binary64

/-- A decimal `digits * 10 ^ exponent`. -/
structure Decimal where
  digits : Nat
  exponent : Int
  deriving DecidableEq, Repr

/-- Four times the counts of units between which a decimal rounds to the given count. -/
def roundingBounds (units : Nat) : Nat × Nat :=
  let gap := Nat.pow 2 (gapExponent units)
  let below := if units = Nat.pow 2 52 * gap ∧ 1 < gap then gap else 2 * gap
  (4 * units - below, 4 * units + 2 * gap)

/-- Whether a decimal `d * scaleNum / scaleDen` units rounds to the given count. -/
def roundsTo (units d scaleNum scaleDen : Nat) : Bool :=
  let bounds := roundingBounds units
  let value := 4 * d * scaleNum
  if units / Nat.pow 2 (gapExponent units) % 2 = 0 then
    bounds.1 * scaleDen ≤ value && value ≤ bounds.2 * scaleDen
  else bounds.1 * scaleDen < value && value < bounds.2 * scaleDen

/-- The numerator and denominator of `10 ^ exponent` in units. -/
def gridScale (exponent : Int) : Nat × Nat :=
  if 0 ≤ exponent then (unitsPerOne * Nat.pow 10 exponent.toNat, 1)
  else (unitsPerOne, Nat.pow 10 (-exponent).toNat)

/-- The multiple of `10 ^ exponent` next to a count of units that rounds to it, if there is one. -/
def onGrid? (units : Nat) (exponent : Int) : Option Nat :=
  let (num, den) := gridScale exponent
  let low := units * den / num
  let rest := units * den % num
  let nearHigh := num < 2 * rest || (num == 2 * rest && low % 2 == 1)
  let first := if nearHigh then low + 1 else low
  let second := if nearHigh then low else low + 1
  if roundsTo units first num den then some first
  else if roundsTo units second num den then some second
  else none

/-- `10 ^ exponent` is at most the given count of units. -/
def reaches (units : Nat) (exponent : Int) : Bool :=
  let (num, den) := gridScale exponent
  num ≤ units * den

/-- The decimal exponent of the leading digit of a positive count of units. -/
def leadingExponent (units : Nat) : Int :=
  let estimate := ((units.log2 : Int) - 1074) * 30103 / 100000
  if reaches units (estimate + 1) then estimate + 1
  else if reaches units estimate then estimate
  else estimate - 1

/-- Tries the grids of `count` digits and more, at most `fuel` of them. -/
def shortestFrom (units : Nat) (leading : Int) (count : Nat) : Nat → Decimal
  | 0 => ⟨0, 0⟩
  | fuel + 1 =>
    let exponent := leading + 1 - count
    match onGrid? units exponent with
    | some d => ⟨d, exponent⟩
    | none => shortestFrom units leading (count + 1) fuel

/-- The shortest decimal of a positive count of units; seventeen digits always suffice. -/
def shortest (units : Nat) : Decimal := shortestFrom units (leadingExponent units) 1 17

end LedgerSearch.Binary64

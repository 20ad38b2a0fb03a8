import LedgerSearch.Text.Basic

/-! # Tables of code points
A class of characters is a list of inclusive ranges; a case map is a list of shifted runs. -/
namespace LedgerSearch.Text

/-- An inclusive range of code points. -/
abbrev CodeRange := Nat × Nat

def inRanges (ranges : List CodeRange) (c : CodePoint) : Bool :=
  ranges.any fun r => r.1 ≤ c.toNat && c.toNat ≤ r.2

/-- Every `step`-th code point from `first` to `last` is moved by `offset`. -/
structure Shift where
  first : Nat
  last : Nat
  step : Nat
  offset : Int
  deriving DecidableEq, Repr

namespace Shift

def covers (s : Shift) (code : Nat) : Bool :=
  s.first ≤ code && code ≤ s.last && (code - s.first) % s.step == 0

def image (s : Shift) (code : Nat) : Nat := (code + s.offset).toNat

/-- The image under the first run that covers the code point, else the code point itself. -/
def apply (runs : List Shift) (c : CodePoint) : CodePoint :=
  match runs.find? fun s => s.covers c.toNat with
  | some s => CodePoint.ofNat (s.image c.toNat)
  | none => c

end Shift
end LedgerSearch.Text

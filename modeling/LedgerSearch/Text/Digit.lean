import LedgerSearch.Text.Code

/-! # Decimal digits of all scripts
Each script writes its ten digits at neighbouring code points, so the table holds the zeros. -/
namespace LedgerSearch.Text

def digitZeros : List Nat :=
  [
  48, 1632, 1776, 1984, 2406, 2534, 2662, 2790, 2918, 3046, 3174, 3302, 3430, 3558, 3664, 3792,
  3872, 4160, 4240, 6112, 6160, 6470, 6608, 6784, 6800, 6992, 7088, 7232, 7248, 42528, 43216,
  43264, 43472, 43504, 43600, 44016, 65296, 66720, 68912, 69734, 69872, 69942, 70096, 70384, 70736,
  70864, 71248, 71360, 71472, 71904, 72016, 72784, 73040, 73120, 92768, 92864, 93008, 120782,
  120792, 120802, 120812, 120822, 123200, 123632, 125264, 130032]

def digitValue? (c : CodePoint) : Option Nat :=
  digitZeros.findSome? fun first =>
    if first ≤ c.toNat ∧ c.toNat < first + 10 then some (c.toNat - first) else none

def isDigit (c : CodePoint) : Bool := (digitValue? c).isSome

/-- The digits `0` to `9` alone. -/
def isPlainDigit (c : CodePoint) : Bool := '0'.toNat ≤ c.toNat && c.toNat ≤ '9'.toNat

/-- Not empty, and digits `0` to `9` throughout. -/
def allPlainDigits (t : Text) : Bool := !t.isEmpty && t.all isPlainDigit

theorem isDigit_of_isPlainDigit (c : CodePoint) (h : isPlainDigit c = true) : isDigit c = true := by
  simp only [isPlainDigit, Bool.and_eq_true, decide_eq_true_eq] at h
  have h0 : '0'.toNat = 48 := rfl
  have h9 : '9'.toNat = 57 := rfl
  have hz : 48 ≤ c.toNat ∧ c.toNat < 48 + 10 := by omega
  simp [isDigit, digitValue?, digitZeros, hz]

end LedgerSearch.Text

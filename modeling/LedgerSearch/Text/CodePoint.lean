/-! # Code points
A code point is a character, or a half: one of the units of sixteen bits of which two together write a
character, standing alone. Halves have the numbers that characters leave out. -/
namespace LedgerSearch

inductive CodePoint
  | scalar (c : Char)
  | half (index : Fin 2048)
  deriving DecidableEq, Repr, Inhabited

namespace CodePoint

instance : Coe Char CodePoint := ⟨scalar⟩

/-- The number of the first half. -/
def firstHalf : Nat := 0xd800

def toNat : CodePoint → Nat
  | scalar c => c.toNat
  | half index => firstHalf + index

/-- The code point with a number; a number that none has gives the character zero. -/
def ofNat (n : Nat) : CodePoint :=
  if h : firstHalf ≤ n ∧ n < firstHalf + 2048 then half ⟨n - firstHalf, by omega⟩ else scalar (Char.ofNat n)

theorem ofNat_toNat (c : CodePoint) : ofNat c.toNat = c := by
  cases c with
  | scalar c =>
    have bounds : ¬(firstHalf ≤ c.toNat ∧ c.toNat < firstHalf + 2048) := by
      have valid : c.toNat < 0xd800 ∨ 0xdfff < c.toNat ∧ c.toNat < 0x110000 := c.valid
      unfold firstHalf
      omega
    rw [ofNat, toNat, dif_neg bounds, Char.ofNat_toNat]
  | half index =>
    have bounds : firstHalf ≤ firstHalf + index.val ∧ firstHalf + index.val < firstHalf + 2048 := by omega
    rw [ofNat, toNat, dif_pos bounds]
    simp

theorem toNat_inj {a b : CodePoint} (h : a.toNat = b.toNat) : a = b := by
  rw [← ofNat_toNat a, h, ofNat_toNat]

instance : LE CodePoint := ⟨fun a b => a.toNat ≤ b.toNat⟩
instance : LT CodePoint := ⟨fun a b => a.toNat < b.toNat⟩
instance (a b : CodePoint) : Decidable (a ≤ b) := inferInstanceAs (Decidable (a.toNat ≤ b.toNat))
instance (a b : CodePoint) : Decidable (a < b) := inferInstanceAs (Decidable (a.toNat < b.toNat))

def isHalf : CodePoint → Bool
  | scalar _ => false
  | half _ => true

/-- The character that a code point is, if it is one. -/
def char? : CodePoint → Option Char
  | scalar c => some c
  | half _ => none

/-- Changes a character and leaves a half as it is. -/
def mapChar (f : Char → Char) : CodePoint → CodePoint
  | scalar c => scalar (f c)
  | half index => half index

/-- The capital of a letter from `a` to `z`. -/
def toUpper : CodePoint → CodePoint := mapChar Char.toUpper

/-- The small letter of a letter from `A` to `Z`. -/
def toLower : CodePoint → CodePoint := mapChar Char.toLower

/-- How many bytes a code point has. -/
def byteCount : CodePoint → Nat
  | scalar c => c.utf8Size
  | half _ => 3

/-- The bytes of a code point; a half has three, as its neighbours have. -/
def bytes : CodePoint → List UInt8
  | scalar c => String.utf8EncodeChar c
  | half index => [0xed, 0xa0 + UInt8.ofNat (index / 64), 0x80 + UInt8.ofNat (index % 64)]

end CodePoint

/-- Texts are lists of code points: lengths, offsets and cuts count these. -/
abbrev Text := List CodePoint

end LedgerSearch

/-- The text of a string, which holds no half. -/
def String.toText (s : String) : LedgerSearch.Text := s.toList.map LedgerSearch.CodePoint.scalar

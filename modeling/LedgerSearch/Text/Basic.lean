import LedgerSearch.Text.CodePoint

/-! # Runs, cuts and numbers in texts
A text occurs in another as a run of neighbouring characters. Signed positions count from both ends. -/
namespace LedgerSearch
namespace Text

/-- The needle is a run of neighbouring characters of the text. -/
def occursIn (needle : Text) : Text → Bool
  | [] => needle.isEmpty
  | c :: rest => needle.isPrefixOf (c :: rest) || occursIn needle rest

theorem occursIn_iff (needle text : Text) : occursIn needle text = true ↔ needle <:+: text := by
  induction text with
  | nil => simp [occursIn]
  | cons c rest ih => simp [occursIn, ih, List.infix_cons_iff]

/-- The pieces with the separator between each two neighbours. -/
def joinWith (separator : Text) : List Text → Text
  | [] => []
  | [piece] => piece
  | piece :: next :: rest => piece ++ separator ++ joinWith separator (next :: rest)

/-- The position a signed index stands for: a negative one counts from the end, and both are kept inside. -/
def position (length : Nat) (index : Int) : Nat :=
  if index < 0 then (length + index).toNat else min index.toNat length

/-- The items from one signed index up to another. -/
def cut {α : Type} (items : List α) (start stop : Int) : List α :=
  (items.drop (position items.length start)).take (position items.length stop - position items.length start)

/-- The items before a signed index. -/
def cutTo {α : Type} (items : List α) (stop : Int) : List α := items.take (position items.length stop)

/-- The items from a signed index on. -/
def cutFrom {α : Type} (items : List α) (start : Int) : List α := items.drop (position items.length start)

@[simp] theorem position_ofNat (length n : Nat) : position length (n : Int) = min n length := by
  unfold position; split <;> omega

@[simp] theorem cutTo_ofNat {α : Type} (items : List α) (n : Nat) : cutTo items (n : Int) = items.take n := by
  simp [cutTo, List.take_eq_take_iff]

/-- The text before the first occurrence of a character. -/
def before (c : CodePoint) (t : Text) : Text := t.takeWhile (· != c)

/-- The text after the first occurrence of a character. -/
def after (c : CodePoint) (t : Text) : Text := (t.dropWhile (· != c)).drop 1

/-- The text without the characters of a class that end it. -/
def dropEndWhile (p : CodePoint → Bool) (t : Text) : Text := (t.reverse.dropWhile p).reverse

/-- Repeats a character. -/
def fill (count : Nat) (c : CodePoint) : Text := List.replicate count c

/-- The digits of a natural number in base ten. -/
def ofNat (n : Nat) : Text := (Nat.toDigits 10 n).map .scalar

/-- The digits of a natural number, filled with zeros on the left up to a width. -/
def ofNatWide (width n : Nat) : Text :=
  let digits := ofNat n
  fill (width - digits.length) '0' ++ digits

/-- The digits of an integer, after a minus sign if it is negative. -/
def ofInt (n : Int) : Text := if n < 0 then '-' :: ofNat n.natAbs else ofNat n.natAbs

/-- The digits of a number in base sixteen, filled with zeros on the left up to a width. -/
def hexDigits (width n : Nat) : Text :=
  let digits : Text := (Nat.toDigits 16 n).map .scalar
  fill (width - digits.length) '0' ++ digits

/-- The value of a digit in base sixteen, with a letter of either case. -/
def hexValue? (c : CodePoint) : Option Nat :=
  if '0' ≤ c ∧ c ≤ '9' then some (c.toNat - '0'.toNat)
  else if 'a' ≤ c ∧ c ≤ 'f' then some (c.toNat - 'a'.toNat + 10)
  else if 'A' ≤ c ∧ c ≤ 'F' then some (c.toNat - 'A'.toNat + 10)
  else none

end Text
end LedgerSearch

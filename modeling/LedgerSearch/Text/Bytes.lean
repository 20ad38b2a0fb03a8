import LedgerSearch.Text.Basic

/-! # Texts as bytes
A character is one to four bytes. Bytes that spell no character are read as the replacement character,
one for each run that a character could have begun with. -/
namespace LedgerSearch.Text

def bytes (t : Text) : List UInt8 := t.flatMap CodePoint.bytes

/-- Any byte that may follow the first one of a character. -/
def follower : UInt8 × UInt8 := (0x80, 0xbf)

/-- The bounds of the bytes that follow a first byte, if a character may begin with it. -/
def followers? (first : UInt8) : Option (List (UInt8 × UInt8)) :=
  if first < 0x80 then some []
  else if first < 0xc2 then none
  else if first < 0xe0 then some [follower]
  else if first = 0xe0 then some [(0xa0, 0xbf), follower]
  else if first = 0xed then some [(0x80, 0x9f), follower]
  else if first < 0xf0 then some [follower, follower]
  else if first = 0xf0 then some [(0x90, 0xbf), follower, follower]
  else if first < 0xf4 then some [follower, follower, follower]
  else if first = 0xf4 then some [(0x80, 0x8f), follower, follower]
  else none

/-- The bytes at the start of a list that lie within bounds, one after the other. -/
def takeWithin : List (UInt8 × UInt8) → List UInt8 → List UInt8
  | bounds :: others, b :: rest => if bounds.1 ≤ b ∧ b ≤ bounds.2 then b :: takeWithin others rest else []
  | _, _ => []

/-- The character that a first byte and the right number of further bytes spell. -/
def spelledChar (first : UInt8) (more : List UInt8) : CodePoint :=
  let high := first.toNat % Nat.pow 2 (if more.isEmpty then 7 else 6 - more.length)
  CodePoint.ofNat (more.foldl (fun n b => n * 64 + b.toNat % 64) high)

/-- The text that bytes spell. -/
def ofBytes : List UInt8 → Text
  | [] => []
  | first :: rest =>
    match followers? first with
    | none => '\ufffd' :: ofBytes rest
    | some bounds =>
      let more := takeWithin bounds rest
      (if more.length = bounds.length then spelledChar first more else '\ufffd') :: ofBytes (rest.drop more.length)
termination_by items => items.length
decreasing_by
  · simp
  · simp only [List.length_drop, List.length_cons]
    omega

end LedgerSearch.Text

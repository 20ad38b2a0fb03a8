import LedgerSearch.Entries
import LedgerSearch.Text.Basic

/-! # Cache of rendered texts
A text is known by its mode, its length, the query and its first characters. When the cache is full
the entry that was put first makes room; looking an entry up does not change that order. -/
namespace LedgerSearch.Marking

structure CacheKey where
  mode : Text
  length : Nat
  query : Text
  opening : Text
  deriving DecidableEq, Repr

/-- At most `capacity` entries, the oldest first. -/
structure Cache where
  capacity : Int
  openingLength : Int
  entries : Entries CacheKey Text
  deriving Repr

namespace Cache

def empty (capacity openingLength : Int) : Cache := ⟨capacity, openingLength, []⟩

def size (c : Cache) : Nat := c.entries.length

def key (c : Cache) (mode text query : Text) : CacheKey :=
  ⟨mode, text.length, query, Text.cutTo text c.openingLength⟩

def get? (c : Cache) (key : CacheKey) : Option Text := Entries.find? key c.entries

/-- Puts a value under a key; a new key comes last, once older entries have made room. -/
def put (c : Cache) (key : CacheKey) (value : Text) : Cache :=
  if c.capacity ≤ 0 then c
  else if (c.get? key).isSome then { c with entries := Entries.put key value c.entries }
  else { c with entries := c.entries.drop (c.size + 1 - c.capacity.toNat) ++ [(key, value)] }

def clear (c : Cache) : Cache := { c with entries := [] }

end Cache
end LedgerSearch.Marking

/-! # Entries in insertion order
A list of pairs with one value for each key: a new key goes to the end, and a key that is
present keeps its place when its value is replaced. Looking up what was put finds it, and no
other key is touched. -/
namespace LedgerSearch

abbrev Entries (κ α : Type) := List (κ × α)

namespace Entries

variable {κ α : Type} [BEq κ]

def find? (key : κ) : Entries κ α → Option α
  | [] => none
  | (k, a) :: rest => if k == key then some a else find? key rest

def put (key : κ) (value : α) : Entries κ α → Entries κ α
  | [] => [(key, value)]
  | (k, a) :: rest => if k == key then (k, value) :: rest else (k, a) :: put key value rest

def ofPairs (pairs : List (κ × α)) : Entries κ α := pairs.foldl (fun entries p => put p.1 p.2 entries) []

def keys (entries : Entries κ α) : List κ := entries.map Prod.fst

/-- Appends an item to the list kept for a key. -/
def push (key : κ) (item : α) : Entries κ (List α) → Entries κ (List α)
  | [] => [(key, [item])]
  | (k, items) :: rest => if k == key then (k, items ++ [item]) :: rest else (k, items) :: push key item rest

/-- Adds one to the count kept for a key. -/
def tally (key : κ) : Entries κ Nat → Entries κ Nat
  | [] => [(key, 1)]
  | (k, n) :: rest => if k == key then (k, n + 1) :: rest else (k, n) :: tally key rest

def counts (items : List κ) : Entries κ Nat := items.foldl (fun entries key => tally key entries) []

/-- A key is looked up among the first entries before the others. -/
theorem find?_append (key : κ) (entries more : Entries κ α) :
    find? key (entries ++ more) = (find? key entries).or (find? key more) := by
  induction entries with
  | nil => rfl
  | cons entry rest ih =>
    rw [List.cons_append, find?, find?, ih]
    split <;> rfl

theorem find?_put_self [LawfulBEq κ] (key : κ) (value : α) (entries : Entries κ α) :
    find? key (put key value entries) = some value := by
  induction entries with
  | nil => simp [put, find?]
  | cons entry rest ih => by_cases h : entry.1 == key <;> simp [put, find?, h, ih]

theorem find?_put_of_ne [LawfulBEq κ] {key other : κ} (h : key ≠ other) (value : α) (entries : Entries κ α) :
    find? other (put key value entries) = find? other entries := by
  induction entries with
  | nil => simp [put, find?, h]
  | cons entry rest ih =>
    by_cases hk : entry.1 == key
    · have hne : ¬ entry.1 = other := fun e => h ((eq_of_beq hk).symm.trans e)
      simp [put, find?, hk, hne]
    · simp [put, find?, hk, ih]

/-- Replacing a value leaves the keys as they are. -/
theorem keys_put_of_find? {key : κ} {entries : Entries κ α} {old : α} (value : α)
    (h : find? key entries = some old) : keys (put key value entries) = keys entries := by
  induction entries with
  | nil => simp [find?] at h
  | cons entry rest ih =>
    by_cases hk : entry.1 == key
    · simp [put, keys, hk]
    · simp only [find?, hk] at h
      simpa [put, keys, hk] using ih h

/-- A new key is put at the end. -/
theorem put_of_find?_eq_none {key : κ} {entries : Entries κ α} (value : α) (h : find? key entries = none) :
    put key value entries = entries ++ [(key, value)] := by
  induction entries with
  | nil => rfl
  | cons entry rest ih =>
    by_cases hk : entry.1 == key
    · simp [find?, hk] at h
    · simp only [find?, hk] at h
      simp [put, hk, ih h]

theorem find?_eq_none_iff [LawfulBEq κ] {key : κ} {entries : Entries κ α} : find? key entries = none ↔ key ∉ keys entries := by
  induction entries with
  | nil => simp [find?, keys]
  | cons entry rest ih =>
    by_cases hk : entry.1 == key
    · simp [find?, keys, eq_of_beq hk]
    · have hne : ¬ key = entry.1 := fun h => hk (beq_iff_eq.2 h.symm)
      simpa [find?, keys, hk, hne] using ih

theorem mem_of_find? [LawfulBEq κ] {key : κ} {value : α} {entries : Entries κ α} (h : find? key entries = some value) :
    (key, value) ∈ entries := by
  induction entries with
  | nil => cases h
  | cons entry rest ih =>
    by_cases hk : entry.1 == key
    · simp only [find?, if_pos hk, Option.some.injEq] at h
      rw [← h, ← eq_of_beq hk]
      exact List.mem_cons_self
    · simp only [find?, if_neg hk] at h
      exact List.mem_cons_of_mem _ (ih h)

/-- Among entries with different keys each one is found. -/
theorem find?_of_mem [LawfulBEq κ] {key : κ} {value : α} {entries : Entries κ α} (distinct : (keys entries).Nodup)
    (h : (key, value) ∈ entries) : find? key entries = some value := by
  induction entries with
  | nil => cases h
  | cons entry rest ih =>
    obtain ⟨hfresh, hrest⟩ := List.nodup_cons.1 distinct
    rcases List.mem_cons.1 h with rfl | hmem
    · simp [find?]
    · have hne : ¬ entry.1 = key := fun e => hfresh (e ▸ List.mem_map_of_mem hmem)
      simpa [find?, hne] using ih hrest hmem

theorem foldl_put_of_nodup [LawfulBEq κ] {pairs entries : Entries κ α} (distinct : (keys (entries ++ pairs)).Nodup) :
    pairs.foldl (fun found p => put p.1 p.2 found) entries = entries ++ pairs := by
  induction pairs generalizing entries with
  | nil => simp
  | cons p rest ih =>
    have hfresh : find? p.1 entries = none := by
      rw [find?_eq_none_iff]
      intro hmem
      simp only [keys, List.map_append, List.map_cons] at distinct hmem
      exact (List.nodup_append.1 distinct).2.2 p.1 hmem p.1 List.mem_cons_self rfl
    rw [List.foldl_cons, put_of_find?_eq_none p.2 hfresh, ih (by simpa using distinct)]
    simp

/-- Pairs with different keys are entries as they stand. -/
theorem ofPairs_of_nodup [LawfulBEq κ] {pairs : Entries κ α} (distinct : (keys pairs).Nodup) : ofPairs pairs = pairs :=
  foldl_put_of_nodup distinct

end Entries
end LedgerSearch

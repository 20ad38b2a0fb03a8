import LedgerSearch.Entries
import Mathlib.Algebra.GroupWithZero.Nat
import Mathlib.Data.List.Basic
import Mathlib.Data.List.Induction

/-!
# Entries gathered from items

Items are gathered one after the other, each under its own key: `counts` numbers those of a key, and groups list
them. What is gathered under a key depends on the items of that key alone, and the keys stand in the order in which
they first occur.
-/

namespace LedgerSearch.Entries

variable {κ α β : Type} [BEq κ] {add : Option α → β → α} {key : β → κ} {items : List β} {k : κ} {n : Nat}

/-- Gathers items: each is added to what its key has so far, if it has anything. -/
def gather (add : Option α → β → α) (key : β → κ) (items : List β) : Entries κ α :=
  items.foldl (fun entries b => put (key b) (add (find? (key b) entries) b) entries) []

/-- What is gathered of items that have one key. -/
def total? (add : Option α → β → α) (items : List β) : Option α := items.foldl (fun found b => some (add found b)) none

theorem gather_concat (add : Option α → β → α) (key : β → κ) (items : List β) (b : β) :
    gather add key (items ++ [b]) = put (key b) (add (find? (key b) (gather add key items)) b) (gather add key items) := by
  rw [gather, List.foldl_append]
  rfl

theorem total?_concat (add : Option α → β → α) (items : List β) (b : β) :
    total? add (items ++ [b]) = some (add (total? add items) b) := by
  rw [total?, List.foldl_append]
  rfl

section Lawful

variable [LawfulBEq κ]

omit [LawfulBEq κ] in
theorem keys_put (key : κ) (value : α) (entries : Entries κ α) :
    keys (put key value entries) = if (find? key entries).isSome then keys entries else keys entries ++ [key] := by
  cases h : find? key entries with
  | none => simp [put_of_find?_eq_none value h, keys]
  | some old => simp [keys_put_of_find? value h]

theorem isSome_find?_iff {entries : Entries κ α} : (find? k entries).isSome = true ↔ k ∈ keys entries := by
  rw [← not_iff_not, ← find?_eq_none_iff, Bool.not_eq_true, Option.isSome_eq_false_iff, Option.isNone_iff_eq_none]

theorem find?_gather (add : Option α → β → α) (key : β → κ) (items : List β) (k : κ) :
    find? k (gather add key items) = total? add (items.filter fun b => key b == k) := by
  induction items using List.reverseRecOn with
  | nil => rfl
  | append_singleton items b ih =>
    rw [gather_concat, List.filter_append]
    by_cases hk : key b = k
    · have hown : [b].filter (fun c => key c == k) = [b] := by simp [hk]
      rw [hown, total?_concat, ← ih, hk, find?_put_self]
    · have hother : [b].filter (fun c => key c == k) = [] := by simp [hk]
      rw [hother, List.append_nil, ← ih, find?_put_of_ne hk]

theorem isSome_total?_iff : (total? add items).isSome = true ↔ items ≠ [] := by
  cases items using List.reverseRecOn with
  | nil => simp [total?]
  | append_singleton items b => simp [total?_concat]

theorem mem_keys_gather : k ∈ keys (gather add key items) ↔ k ∈ items.map key := by
  rw [← isSome_find?_iff, find?_gather, isSome_total?_iff]
  simp

/-- The keys stand in the order in which they first occur. -/
theorem pairwise_keys_gather (add : Option α → β → α) (key : β → κ) (items : List β) :
    (keys (gather add key items)).Pairwise fun j k => (items.map key).idxOf j < (items.map key).idxOf k := by
  induction items using List.reverseRecOn with
  | nil => exact .nil
  | append_singleton items b ih =>
    have hmem : ∀ {j}, j ∈ keys (gather add key items) → j ∈ items.map key := mem_keys_gather.1
    have hold : (keys (gather add key items)).Pairwise fun j k =>
        ((items ++ [b]).map key).idxOf j < ((items ++ [b]).map key).idxOf k := by
      refine ih.imp_of_mem fun hj hk hlt => ?_
      rwa [List.map_append, List.idxOf_append_of_mem (hmem hj), List.idxOf_append_of_mem (hmem hk)]
    rw [gather_concat, keys_put]
    split
    · exact hold
    · rename_i hfresh
      rw [isSome_find?_iff, mem_keys_gather] at hfresh
      refine List.pairwise_append.2 ⟨hold, List.pairwise_singleton _ _, ?_⟩
      intro j hj k hk
      rw [List.mem_singleton.1 hk, List.map_append, List.idxOf_append_of_mem (hmem hj), List.idxOf_append_of_notMem hfresh]
      exact Nat.lt_add_right _ (List.idxOf_lt_length_of_mem (hmem hj))

theorem nodup_keys_gather (add : Option α → β → α) (key : β → κ) (items : List β) :
    (keys (gather add key items)).Nodup :=
  (pairwise_keys_gather add key items).imp fun hlt heq => by
    rw [heq] at hlt
    exact Nat.lt_irrefl _ hlt

end Lawful

theorem tally_eq_put (key : κ) (entries : Entries κ Nat) :
    tally key entries = put key ((find? key entries).getD 0 + 1) entries := by
  induction entries with
  | nil => rfl
  | cons entry rest ih =>
    rw [tally, find?, put, ih]
    split
    · rfl
    · rfl

theorem counts_eq_gather (items : List κ) : counts items = gather (fun n _ => n.getD 0 + 1) id items := by
  simp only [counts, gather, tally_eq_put, id]

omit [BEq κ] in
theorem total?_count (items : List κ) :
    total? (fun n _ => n.getD 0 + 1) items = if items = [] then none else some items.length := by
  induction items using List.reverseRecOn with
  | nil => rfl
  | append_singleton items b ih =>
    rw [total?_concat, ih]
    cases items <;> simp

/-- Each item that occurs is counted as often as it occurs. -/
theorem mem_counts_iff [LawfulBEq κ] {items : List κ} : (k, n) ∈ counts items ↔ k ∈ items ∧ n = items.count k := by
  have hnodup := nodup_keys_gather (fun n _ => n.getD 0 + 1) id items
  have hfind : find? k (counts items) = if k ∈ items then some (items.count k) else none := by
    rw [counts_eq_gather, find?_gather, total?_count, ← List.countP_eq_length_filter]
    by_cases hk : k ∈ items
    · have hmem : k ∈ items.filter fun b => id b == k := List.mem_filter.2 ⟨hk, beq_self_eq_true k⟩
      rw [if_pos hk, if_neg (List.ne_nil_of_mem hmem)]
      rfl
    · rw [if_neg hk, if_pos]
      rw [List.filter_eq_nil_iff]
      intro a ha hak
      exact hk (eq_of_beq hak ▸ ha)
  rw [← counts_eq_gather] at hnodup
  constructor
  · intro h
    have hfound := find?_of_mem hnodup h
    rw [hfind] at hfound
    split at hfound
    · rename_i hk
      exact ⟨hk, (Option.some.inj hfound).symm⟩
    · cases hfound
  · rintro ⟨hk, rfl⟩
    rw [if_pos hk] at hfind
    exact mem_of_find? hfind

theorem nodup_keys_counts [LawfulBEq κ] (items : List κ) : (keys (counts items)).Nodup := by
  rw [counts_eq_gather]
  exact nodup_keys_gather _ _ _

theorem sum_tally (key : κ) (entries : Entries κ Nat) :
    ((tally key entries).map Prod.snd).sum = (entries.map Prod.snd).sum + 1 := by
  induction entries with
  | nil => rfl
  | cons entry rest ih =>
    rw [tally]
    split
    · simp only [List.map_cons, List.sum_cons]
      omega
    · simp only [List.map_cons, List.sum_cons, ih]
      omega

theorem counts_concat (items : List κ) (key : κ) : counts (items ++ [key]) = tally key (counts items) := by
  rw [counts, List.foldl_append]
  rfl

theorem sum_counts (items : List κ) : ((counts items).map Prod.snd).sum = items.length := by
  induction items using List.reverseRecOn with
  | nil => rfl
  | append_singleton items key ih => rw [counts_concat, sum_tally, ih, List.length_append, List.length_singleton]

theorem counts_eq_nil_iff {items : List κ} : counts items = [] ↔ items = [] := by
  constructor
  · intro h
    rw [← List.length_eq_zero_iff, ← sum_counts, h]
    rfl
  · rintro rfl
    rfl

/-- Counting is the same for items that are the same exactly if the given ones are. -/
theorem counts_map {κ' : Type} [BEq κ'] {f : κ → κ'} (hf : ∀ a b, (f a == f b) = (a == b)) (items : List κ) :
    counts (items.map f) = (counts items).map fun c => (f c.1, c.2) := by
  have htally : ∀ key (entries : Entries κ Nat),
      tally (f key) (entries.map fun c => (f c.1, c.2)) = (tally key entries).map fun c => (f c.1, c.2) := by
    intro key entries
    induction entries with
    | nil => rfl
    | cons entry rest ih =>
      rw [List.map_cons, tally, tally, hf, ih]
      split <;> rfl
  induction items using List.reverseRecOn with
  | nil => rfl
  | append_singleton items key ih => rw [List.map_append, List.map_singleton, counts_concat, counts_concat, ih, htally]

end LedgerSearch.Entries

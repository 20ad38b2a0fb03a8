import LedgerSearch.Host.Trace

/-!
# Kept traces

A store keeps the newest traces that were created, in the order of their creation: what one creation gives up would be
given up at the end as well (`newest_newest_append`), so a run of creations can be read off the list of all traces
(`toList_createAll`).
-/

namespace LedgerSearch.Host

section Newest

variable {α β : Type}

/-- The last items of a list, as many as a number says, or all if there are fewer. -/
def newest (n : Nat) (items : List α) : List α := items.drop (items.length - n)

theorem length_newest (n : Nat) (items : List α) : (newest n items).length = min n items.length := by
  rw [newest, List.length_drop]
  omega

theorem newest_of_length_le {n : Nat} {items : List α} (h : items.length ≤ n) : newest n items = items := by
  rw [newest, Nat.sub_eq_zero_of_le h, List.drop_zero]

theorem newest_sublist (n : Nat) (items : List α) : (newest n items).Sublist items := List.drop_sublist _ _

theorem map_newest (f : α → β) (n : Nat) (items : List α) : (newest n items).map f = newest n (items.map f) := by
  rw [newest, newest, List.map_drop, List.length_map]

/-- What is given up early would be given up late. -/
theorem newest_newest_append (n : Nat) (items more : List α) : newest n (newest n items ++ more) = newest n (items ++ more) := by
  have hlength := length_newest n items
  have hdropped : newest n items ++ more = (items ++ more).drop (items.length - n) := by
    rw [newest, List.drop_append_of_le_length (Nat.sub_le _ _)]
  rw [newest, hdropped, List.drop_drop, newest]
  congr 1
  simp only [List.length_drop, List.length_append]
  omega

end Newest

namespace TraceStore

variable {s : TraceStore} {t : Trace} {ts : List Trace}

@[simp] theorem limit_create (s : TraceStore) (t : Trace) : (s.create t).limit = s.limit := rfl

theorem traces_create (hfresh : t.id ∉ Entries.keys s.traces) :
    (s.create t).traces = newest s.limit.toNat (s.traces ++ [(t.id, t)]) := by
  simp only [create, Entries.put_of_find?_eq_none t (Entries.find?_eq_none_iff.2 hfresh), newest]

/-- A trace with a new name comes last, and the oldest ones beyond the limit are given up. -/
theorem toList_create (hfresh : t.id ∉ Entries.keys s.traces) :
    (s.create t).toList = newest s.limit.toNat (s.toList ++ [t]) := by
  rw [toList, traces_create hfresh, map_newest, List.map_append, List.map_singleton, toList]

/-- The store after some traces were created one after the other. -/
def createAll (s : TraceStore) : List Trace → TraceStore
  | [] => s
  | t :: rest => (s.create t).createAll rest

theorem limit_createAll (s : TraceStore) (ts : List Trace) : (s.createAll ts).limit = s.limit := by
  induction ts generalizing s with
  | nil => rfl
  | cons t rest ih => rw [createAll, ih, limit_create]

theorem traces_createAll (hheld : s.toList.length ≤ s.limit.toNat)
    (hfresh : (Entries.keys s.traces ++ ts.map Trace.id).Nodup) :
    (s.createAll ts).traces = newest s.limit.toNat (s.traces ++ ts.map fun t => (t.id, t)) := by
  -- the store between two creations is full at most, and the names to come are new to it
  induction ts generalizing s with
  | nil =>
    rw [toList, List.length_map] at hheld
    rw [createAll, List.map_nil, List.append_nil, newest_of_length_le hheld]
  | cons t rest ih =>
    have hnew : t.id ∉ Entries.keys s.traces := fun hmem =>
      (List.nodup_append.1 hfresh).2.2 t.id hmem t.id List.mem_cons_self rfl
    have hlength : (s.create t).toList.length ≤ (s.create t).limit.toNat := by
      rw [toList_create hnew, length_newest, limit_create]
      exact Nat.min_le_left _ _
    have hkeys : (Entries.keys (s.create t).traces ++ rest.map Trace.id).Nodup := by
      rw [Entries.keys, traces_create hnew]
      refine List.Nodup.sublist (((newest_sublist _ _).map _).append_right _) ?_
      simpa [Entries.keys] using hfresh
    rw [createAll, ih hlength hkeys, traces_create hnew, limit_create, newest_newest_append, List.append_assoc,
      List.singleton_append, List.map_cons]

/-- A store that keeps its limit holds the newest traces of all that were created. -/
theorem toList_createAll (hheld : s.toList.length ≤ s.limit.toNat)
    (hfresh : (Entries.keys s.traces ++ ts.map Trace.id).Nodup) :
    (s.createAll ts).toList = newest s.limit.toNat (s.toList ++ ts) := by
  have hsnd : (Prod.snd ∘ fun t : Trace => (t.id, t)) = id := rfl
  rw [toList, traces_createAll hheld hfresh, map_newest, List.map_append, List.map_map, hsnd, List.map_id, toList]

/-- Kept traces have the names they came with. -/
theorem keys_createAll_subset (hheld : s.toList.length ≤ s.limit.toNat)
    (hfresh : (Entries.keys s.traces ++ ts.map Trace.id).Nodup) :
    Entries.keys (s.createAll ts).traces ⊆ Entries.keys s.traces ++ ts.map Trace.id := by
  rw [Entries.keys, traces_createAll hheld hfresh]
  refine List.Subset.trans ((newest_sublist _ _).map _).subset ?_
  rw [List.map_append, List.map_map]
  exact List.Subset.refl _

end TraceStore
end LedgerSearch.Host

import LedgerSearch.Proofs.RenderCache
import Mathlib.Data.List.Nodup

/-!
# The cache as a queue

Whatever is done to a cache, its entries are those of a queue: a key that is present keeps its place, and a new one comes
last, once the oldest have made room for it (`Queue.act`). An entry moves to the front only as new keys come behind it.
So a key is found with the value that was last put under it, until as many other keys have come as there is room for or
the cache is cleared (`runs_as_queue`).
-/

namespace LedgerSearch

namespace Entries

variable {κ α : Type} [DecidableEq κ]

/-- The entries with another value for a key. -/
def replace (key : κ) (value : α) (entries : Entries κ α) : Entries κ α :=
  entries.map fun p => if p.1 = key then (key, value) else p

theorem keys_replace (key : κ) (value : α) (entries : Entries κ α) : keys (replace key value entries) = keys entries := by
  rw [keys, keys, replace, List.map_map]
  refine List.map_congr_left fun p _ => ?_
  rw [Function.comp]
  split
  case isTrue h => exact h.symm
  case isFalse => rfl

theorem replace_of_notMem {key : κ} {entries : Entries κ α} (h : key ∉ keys entries) (value : α) :
    replace key value entries = entries := by
  have hkept : ∀ p ∈ entries, (if p.1 = key then (key, value) else p) = p := by
    intro p hp
    refine if_neg ?_
    rintro rfl
    exact h (List.mem_map_of_mem hp)
  exact (List.map_congr_left hkept).trans (List.map_id' entries)

/-- Among different keys the first entry with a key is the only one. -/
theorem put_eq_replace {key : κ} {entries : Entries κ α} (distinct : (keys entries).Nodup) (h : key ∈ keys entries)
    (value : α) : put key value entries = replace key value entries := by
  induction entries with
  | nil => cases h
  | cons entry rest ih =>
    obtain ⟨hfresh, hrest⟩ := List.nodup_cons.1 distinct
    by_cases hk : entry.1 = key
    · have hkept : replace key value rest = rest := replace_of_notMem (hk ▸ hfresh) value
      rw [replace] at hkept
      simp [put, replace, hk, hkept]
    · have hput := ih hrest ((List.mem_cons.1 h).resolve_left fun he => hk he.symm)
      rw [replace] at hput
      simp [put, replace, hk, hput]

end Entries

namespace Marking

open Entries (keys)

/-- What is done to a cache. -/
inductive Operation
  | put (key : CacheKey) (value : Text)
  | get (key : CacheKey)
  | clear
  deriving DecidableEq, Repr

/-- Entries of a cache, the oldest first. -/
abbrev Queue := Entries CacheKey Text

namespace Queue

/-- Drops the oldest entries until fewer remain than a capacity allows. -/
def makeRoom (capacity : Int) : Queue → Queue
  | [] => []
  | entry :: rest => if capacity ≤ (entry :: rest).length then makeRoom capacity rest else entry :: rest

/-- The queue after an operation; without capacity nothing is stored. -/
def act (capacity : Int) (queue : Queue) : Operation → Queue
  | .put key value =>
    if capacity ≤ 0 then queue
    else if key ∈ keys queue then Entries.replace key value queue
    else makeRoom capacity queue ++ [(key, value)]
  | .get _ => queue
  | .clear => []

/-- The queue after operations that are done one after the other. -/
def after (capacity : Int) (queue : Queue) (ops : List Operation) : Queue := ops.foldl (act capacity) queue

/-- The key that comes into the queue with an operation. -/
def arrival? (capacity : Int) (queue : Queue) : Operation → Option CacheKey
  | .put key _ => if 0 < capacity ∧ key ∉ keys queue then some key else none
  | .get _ => none
  | .clear => none

/-- The keys that come into the queue, one after the other. -/
def arrivals (capacity : Int) (queue : Queue) : List Operation → List CacheKey
  | [] => []
  | op :: rest => (arrival? capacity queue op).toList ++ arrivals capacity (act capacity queue op) rest

/-- The value that an operation leaves under a key which has one. -/
def renew (key : CacheKey) (value : Text) : Operation → Text
  | .put other new => if other = key then new else value
  | .get _ => value
  | .clear => value

/-- The value that was last put under a key. -/
def latest (key : CacheKey) (value : Text) (ops : List Operation) : Text := ops.foldl (renew key) value

variable {capacity : Int} {queue : Queue} {key : CacheKey} {value : Text}

theorem makeRoom_of_lt (h : queue.length < capacity) : makeRoom capacity queue = queue := by
  cases queue with
  | nil => rfl
  | cons entry rest => exact if_neg (Int.not_le.2 h)

/-- Where room is made, as many entries are dropped as are too many beside a new one. -/
theorem makeRoom_eq_drop (hcapacity : 0 < capacity) (queue : Queue) :
    makeRoom capacity queue = queue.drop (queue.length + 1 - capacity.toNat) := by
  induction queue with
  | nil => exact List.drop_nil.symm
  | cons entry rest ih =>
    rw [makeRoom]
    split
    case isTrue hfull =>
      have hcount : (entry :: rest).length + 1 - capacity.toNat = rest.length + 1 - capacity.toNat + 1 := by
        rw [List.length_cons] at hfull ⊢
        omega
      rw [ih, hcount, List.drop_succ_cons]
    case isFalse hroom =>
      have hcount : (entry :: rest).length + 1 - capacity.toNat = 0 := by omega
      rw [hcount, List.drop_zero]

theorem makeRoom_sublist (hcapacity : 0 < capacity) (queue : Queue) : (makeRoom capacity queue).Sublist queue := by
  rw [makeRoom_eq_drop hcapacity]
  exact List.drop_sublist _ _

theorem act_of_disabled (hcapacity : capacity ≤ 0) : act capacity queue (.put key value) = queue := if_pos hcapacity

theorem act_of_mem (hcapacity : 0 < capacity) (h : key ∈ keys queue) :
    act capacity queue (.put key value) = Entries.replace key value queue := by
  rw [act, if_neg (Int.not_le.2 hcapacity), if_pos h]

theorem act_of_notMem (hcapacity : 0 < capacity) (h : key ∉ keys queue) :
    act capacity queue (.put key value) = makeRoom capacity queue ++ [(key, value)] := by
  rw [act, if_neg (Int.not_le.2 hcapacity), if_neg h]

/-- The keys of a queue differ, and there are no more of them than its capacity allows. -/
structure IsSound (capacity : Int) (queue : Queue) : Prop where
  distinct : (keys queue).Nodup
  bounded : queue.length ≤ max 0 capacity

theorem isSound_nil (capacity : Int) : IsSound capacity [] := ⟨List.nodup_nil, Int.le_max_left 0 capacity⟩

theorem IsSound.act (h : IsSound capacity queue) (op : Operation) : IsSound capacity (act capacity queue op) := by
  cases op with
  | get key => exact h
  | clear => exact isSound_nil capacity
  | put key value =>
    rcases Int.lt_or_le 0 capacity with hcapacity | hdisabled
    · by_cases hmem : key ∈ keys queue
      · rw [act_of_mem hcapacity hmem]
        refine ⟨(Entries.keys_replace key value queue).symm ▸ h.distinct, ?_⟩
        rw [Entries.replace, List.length_map]
        exact h.bounded
      · rw [act_of_notMem hcapacity hmem]
        have hkeys := (makeRoom_sublist hcapacity queue).map Prod.fst
        constructor
        · rw [keys, List.map_append, List.map_singleton, List.nodup_append]
          refine ⟨hkeys.nodup h.distinct, List.nodup_singleton key, ?_⟩
          rintro k hk _ hkey rfl
          obtain rfl := List.mem_singleton.1 hkey
          exact hmem (hkeys.subset hk)
        · rw [makeRoom_eq_drop hcapacity, List.length_append, List.length_drop, List.length_singleton]
          omega
    · rwa [act_of_disabled hdisabled]

theorem IsSound.after (h : IsSound capacity queue) (ops : List Operation) : IsSound capacity (after capacity queue ops) := by
  induction ops generalizing queue with
  | nil => exact h
  | cons op rest ih => exact ih (h.act op)

theorem IsSound.eq_nil (h : IsSound capacity queue) (hdisabled : capacity ≤ 0) : queue = [] := by
  have hbounded := h.bounded
  exact List.eq_nil_of_length_eq_zero (by omega)

theorem arrival?_of_mem (h : key ∈ keys queue) : arrival? capacity queue (.put key value) = none :=
  if_neg fun hnew => hnew.2 h

theorem arrival?_of_notMem (hcapacity : 0 < capacity) (h : key ∉ keys queue) :
    arrival? capacity queue (.put key value) = some key := if_pos ⟨hcapacity, h⟩

/-- A key that is not there comes in with an operation or stays away. -/
theorem notMem_keys_act (h : key ∉ keys queue) {op : Operation} (harrival : arrival? capacity queue op ≠ some key) :
    key ∉ keys (act capacity queue op) := by
  cases op with
  | get other => exact h
  | clear => exact List.not_mem_nil
  | put other value =>
    rcases Int.lt_or_le 0 capacity with hcapacity | hdisabled
    · by_cases hmem : other ∈ keys queue
      · rwa [act_of_mem hcapacity hmem, Entries.keys_replace]
      · have hne : key ≠ other := by
          rintro rfl
          exact harrival (arrival?_of_notMem hcapacity hmem)
        rw [act_of_notMem hcapacity hmem, keys, List.map_append, List.mem_append, not_or]
        exact ⟨fun hin => h (((makeRoom_sublist hcapacity queue).map Prod.fst).subset hin),
          fun hin => hne (List.mem_singleton.1 hin)⟩
    · rwa [act_of_disabled hdisabled]

theorem notMem_keys_after {ops : List Operation} (h : key ∉ keys queue) (harrivals : key ∉ arrivals capacity queue ops) :
    key ∉ keys (after capacity queue ops) := by
  induction ops generalizing queue with
  | nil => exact h
  | cons op rest ih =>
    rw [arrivals, List.mem_append, not_or, Option.mem_toList] at harrivals
    exact ih (notMem_keys_act h harrivals.1) harrivals.2

theorem mem_arrivals_of_put (hcapacity : 0 < capacity) (h : key ∉ keys queue) {ops : List Operation}
    (hput : .put key value ∈ ops) : key ∈ arrivals capacity queue ops := by
  induction ops generalizing queue with
  | nil => cases hput
  | cons op rest ih =>
    rw [arrivals, List.mem_append, Option.mem_toList]
    by_cases harrival : arrival? capacity queue op = some key
    · exact .inl harrival
    · rcases List.mem_cons.1 hput with rfl | hput
      · exact absurd (arrival?_of_notMem hcapacity h) harrival
      · exact .inr (ih (notMem_keys_act h harrival) hput)

/-- A key comes last where some operations have been done, with a value, before some others. -/
structure ComesLast (capacity : Int) (key : CacheKey) (earlier : List Operation) (value : Text)
    (later : List Operation) : Prop where
  isNew : key ∉ keys (after capacity [] earlier)
  once : key ∉ arrivals capacity (after capacity [] (earlier ++ [.put key value])) later

theorem after_append (capacity : Int) (queue : Queue) (earlier later : List Operation) :
    after capacity queue (earlier ++ later) = after capacity (after capacity queue earlier) later := List.foldl_append

/-- Of the times at which a key comes one is the last. -/
theorem exists_comesLast {earlier ops : List Operation} (h : key ∈ arrivals capacity (after capacity [] earlier) ops) :
    ∃ between value later, ops = between ++ .put key value :: later ∧
      ComesLast capacity key (earlier ++ between) value later := by
  induction ops generalizing earlier with
  | nil => cases h
  | cons op rest ih =>
    have hafter : act capacity (after capacity [] earlier) op = after capacity [] (earlier ++ [op]) :=
      (after_append capacity [] earlier [op]).symm
    rw [arrivals, List.mem_append, Option.mem_toList, hafter] at h
    by_cases hlater : key ∈ arrivals capacity (after capacity [] (earlier ++ [op])) rest
    · obtain ⟨between, value, later, rfl, hlast⟩ := ih hlater
      rw [List.append_assoc] at hlast
      exact ⟨op :: between, value, later, rfl, hlast⟩
    · have harrival := h.resolve_right hlater
      cases op with
      | get other => cases harrival
      | clear => cases harrival
      | put other value =>
        rw [arrival?, Option.ite_none_right_eq_some] at harrival
        obtain ⟨⟨-, hnew⟩, hother⟩ := harrival
        cases hother
        exact ⟨[], value, rest, rfl, by rwa [List.append_nil], by rwa [List.append_nil]⟩

section Lookups

variable {older newer : Queue}

/-- Room for a new entry is made in front of an entry, or by dropping it if as many have come behind it as there is
room for. -/
theorem makeRoom_append_cons (hsound : IsSound capacity (older ++ (key, value) :: newer)) :
    (∃ older', makeRoom capacity (older ++ (key, value) :: newer) = older' ++ (key, value) :: newer) ∨
      capacity ≤ (newer.length + 1 : Nat) ∧ makeRoom capacity (older ++ (key, value) :: newer) = newer := by
  have hbounded := hsound.bounded
  rw [List.length_append, List.length_cons] at hbounded
  rcases Int.lt_or_le (older ++ (key, value) :: newer).length capacity with hroom | hfull
  · exact .inl ⟨older, makeRoom_of_lt hroom⟩
  · rw [List.length_append, List.length_cons] at hfull
    cases older with
    | nil =>
      rw [List.length_nil] at hfull hbounded
      refine .inr ⟨by omega, ?_⟩
      rw [List.nil_append, makeRoom, if_pos (by rw [List.length_cons]; omega), makeRoom_of_lt (by omega)]
    | cons entry older =>
      rw [List.length_cons] at hfull hbounded
      refine .inl ⟨older, ?_⟩
      rw [List.cons_append, makeRoom, if_pos, makeRoom_of_lt]
      · rw [List.length_append, List.length_cons]
        omega
      · rw [List.length_cons, List.length_append, List.length_cons]
        omega

/-- With an operation an entry keeps its place before those that came later, or it goes because as many have come as
there is room for. -/
theorem act_append_cons (hsound : IsSound capacity (older ++ (key, value) :: newer)) {op : Operation}
    (hclear : op ≠ .clear) {come : List CacheKey}
    (hcome : (arrival? capacity (older ++ (key, value) :: newer) op).toList = come) (hkey : key ∉ come) :
    (∃ older' newer' : Queue, act capacity (older ++ (key, value) :: newer) op =
        older' ++ (key, renew key value op) :: newer' ∧ newer'.length = newer.length + come.length) ∨
      capacity ≤ (newer.length + come.length : Nat) ∧ key ∉ keys (act capacity (older ++ (key, value) :: newer) op) := by
  cases op with
  | get other =>
    subst hcome
    exact .inl ⟨older, newer, rfl, rfl⟩
  | clear => exact absurd rfl hclear
  | put other new =>
    have hcapacity : 0 < capacity := by
      have hbounded := hsound.bounded
      rw [List.length_append, List.length_cons] at hbounded
      omega
    by_cases hmem : other ∈ keys (older ++ (key, value) :: newer)
    · rw [arrival?_of_mem hmem] at hcome
      subst hcome
      refine .inl ⟨Entries.replace other new older, Entries.replace other new newer, ?_, List.length_map _⟩
      rw [act_of_mem hcapacity hmem, Entries.replace, List.map_append, List.map_cons, renew, Entries.replace,
        Entries.replace]
      by_cases hother : other = key
      · rw [if_pos hother.symm, if_pos hother, hother]
      · rw [if_neg (Ne.symm hother), if_neg hother]
    · rw [arrival?_of_notMem hcapacity hmem] at hcome
      subst hcome
      rw [act_of_notMem hcapacity hmem]
      rcases makeRoom_append_cons hsound with ⟨older', hroom⟩ | ⟨hfull, hroom⟩
      · have hne : other ≠ key := fun h => hkey (h ▸ List.mem_singleton_self other)
        refine .inl ⟨older', newer ++ [(other, new)], ?_, List.length_append⟩
        rw [hroom, List.append_assoc, List.cons_append, renew, if_neg hne]
      · refine .inr ⟨hfull, ?_⟩
        have hdistinct := hsound.distinct
        rw [keys, List.map_append, List.map_cons, List.nodup_middle, List.nodup_cons, List.mem_append, not_or]
          at hdistinct
        rw [hroom, keys, List.map_append, List.mem_append, not_or]
        exact ⟨hdistinct.1.2, hkey⟩

/-- The key of an entry is found until as many later ones have come as there is room for, with its latest value. -/
theorem find?_after {ops : List Operation} (hsound : IsSound capacity (older ++ (key, value) :: newer))
    (honce : key ∉ arrivals capacity (older ++ (key, value) :: newer) ops) :
    Entries.find? key (after capacity (older ++ (key, value) :: newer) ops) =
      if .clear ∈ ops ∨ capacity ≤ (newer.length + (arrivals capacity (older ++ (key, value) :: newer) ops).length : Nat)
      then none else some (latest key value ops) := by
  -- the entry stays in sight: at each step it is cleared, pushed out, or stands before the keys that have come since
  induction ops generalizing older newer value with
  | nil =>
    have hbounded := hsound.bounded
    rw [List.length_append, List.length_cons] at hbounded
    rw [if_neg]
    · exact Entries.find?_of_mem hsound.distinct (List.mem_append_right _ List.mem_cons_self)
    · rintro (hclear | hfull)
      · cases hclear
      · rw [arrivals, List.length_nil] at hfull
        omega
  | cons op rest ih =>
    have hgone : ∀ {queue : Queue}, key ∉ keys queue → key ∉ arrivals capacity queue rest →
        Entries.find? key (after capacity queue rest) = none :=
      fun hkey harrivals => Entries.find?_eq_none_iff.2 (notMem_keys_after hkey harrivals)
    rw [arrivals, List.mem_append, not_or] at honce
    have hnext := hsound.act op
    rw [after, List.foldl_cons, ← after, arrivals, List.length_append]
    by_cases hclear : op = .clear
    · subst hclear
      rw [if_pos (.inl List.mem_cons_self)]
      exact hgone List.not_mem_nil honce.2
    · have hmem : .clear ∈ op :: rest ↔ .clear ∈ rest := by simp [Ne.symm hclear]
      simp only [hmem]
      rcases act_append_cons hsound hclear rfl honce.1 with ⟨older', newer', hact, hlength⟩ | ⟨hfull, hkey⟩
      · rw [hact] at hnext honce ⊢
        rw [ih hnext honce.2, hlength, Nat.add_assoc]
        rfl
      · rw [hgone hkey honce.2, if_pos]
        right
        omega

end Lookups

end Queue

namespace Cache

/-- The cache after an operation; a lookup leaves it as it is. -/
def act (c : Cache) : Operation → Cache
  | .put key value => c.put key value
  | .get _ => c
  | .clear => c.clear

/-- The cache after operations that are done one after the other. -/
def after (c : Cache) (ops : List Operation) : Cache := ops.foldl act c

variable {c : Cache}

theorem capacity_act (c : Cache) (op : Operation) : (c.act op).capacity = c.capacity := by
  cases op with
  | get key => rfl
  | clear => rfl
  | put key value =>
    rw [act, put]
    split
    · rfl
    · split <;> rfl

/-- An operation does to the entries of a cache what it does to a queue. -/
theorem entries_act (hsound : Queue.IsSound c.capacity c.entries) (op : Operation) :
    (c.act op).entries = Queue.act c.capacity c.entries op := by
  cases op with
  | get key => rfl
  | clear => rfl
  | put key value =>
    rw [act, put]
    split
    case isTrue hdisabled => rw [Queue.act_of_disabled hdisabled]
    case isFalse henabled =>
      have hcapacity := Int.not_le.1 henabled
      by_cases hmem : key ∈ keys c.entries
      · have hfound : (c.get? key).isSome = true := by
          rw [Option.isSome_iff_ne_none, get?]
          exact fun hnone => Entries.find?_eq_none_iff.1 hnone hmem
        rw [if_pos hfound, Queue.act_of_mem hcapacity hmem, Entries.put_eq_replace hsound.distinct hmem]
      · have hnone : c.get? key = none := Entries.find?_eq_none_iff.2 hmem
        rw [hnone, Queue.act_of_notMem hcapacity hmem, Queue.makeRoom_eq_drop hcapacity]
        rfl

theorem entries_after (hsound : Queue.IsSound c.capacity c.entries) (ops : List Operation) :
    (c.after ops).entries = Queue.after c.capacity c.entries ops := by
  induction ops generalizing c with
  | nil => rfl
  | cons op rest ih =>
    have hact := entries_act hsound op
    have hnext := hsound.act op
    rw [← hact, ← capacity_act c op] at hnext
    rw [after, List.foldl_cons, ← after, ih hnext, hact, capacity_act]
    rfl

end Cache

/-- Where a key has come last, it is found with its latest value unless it was cleared or pushed out since. -/
theorem Queue.ComesLast.find?_eq {capacity : Int} {key : CacheKey} {value : Text} {earlier later : List Operation}
    (h : Queue.ComesLast capacity key earlier value later) :
    Entries.find? key (Queue.after capacity [] (earlier ++ .put key value :: later)) =
      if .clear ∈ later ∨
        capacity ≤ (Queue.arrivals capacity (Queue.after capacity [] (earlier ++ [.put key value])) later).length
      then none else some (Queue.latest key value later) := by
  have hsound := (Queue.isSound_nil capacity).after (earlier ++ [.put key value])
  have honce := h.once
  rw [List.append_cons, Queue.after_append]
  rcases Int.lt_or_le 0 capacity with hcapacity | hdisabled
  · have hput : Queue.after capacity [] (earlier ++ [.put key value]) =
        Queue.makeRoom capacity (Queue.after capacity [] earlier) ++ [(key, value)] := by
      rw [Queue.after_append]
      exact Queue.act_of_notMem hcapacity h.isNew
    rw [hput] at hsound honce ⊢
    rw [Queue.find?_after hsound honce, List.length_nil, Nat.zero_add]
  · have hnil := (hsound.after later).eq_nil hdisabled
    have hfull : capacity ≤ (Queue.arrivals capacity (Queue.after capacity [] (earlier ++ [.put key value])) later).length :=
      Int.le_trans hdisabled (Int.natCast_nonneg _)
    rw [hnil, if_pos (.inr hfull)]
    rfl

open Queue in
/-- A new cache is a queue with as much room as its capacity says, whatever is done to it: the keys of its entries differ,
and it finds the values of these and nothing else. Every key that was put has come in for a last time, and from then on
it is found with the value that was last put under it, unless the cache was cleared since or as many other keys have come
as there is room for. -/
theorem runs_as_queue (capacity openingLength : Int) (ops : List Operation) :
    let c := (Cache.empty capacity openingLength).after ops
    c.entries = Queue.after capacity [] ops ∧ (keys c.entries).Nodup ∧ c.size ≤ max 0 capacity ∧
      (∀ key value, c.get? key = some value ↔ (key, value) ∈ Queue.after capacity [] ops) ∧
      (∀ key earlier value later, ops = earlier ++ .put key value :: later →
        ComesLast capacity key earlier value later →
        c.get? key = if .clear ∈ later ∨
            capacity ≤ (arrivals capacity (Queue.after capacity [] (earlier ++ [.put key value])) later).length
          then none else some (latest key value later)) ∧
      ∀ key given, .put key given ∈ ops → 0 < capacity → ∃ earlier value later,
        ops = earlier ++ .put key value :: later ∧ ComesLast capacity key earlier value later := by
  have hsound := (isSound_nil capacity).after ops
  have hentries := (Cache.empty capacity openingLength).entries_after (isSound_nil capacity) ops
  have hget : ∀ key, ((Cache.empty capacity openingLength).after ops).get? key =
      Entries.find? key (Queue.after capacity [] ops) := fun key => congrArg (Entries.find? key) hentries
  refine ⟨hentries, hentries ▸ hsound.distinct, ?_, ?_, ?_, ?_⟩
  · rw [Cache.size, hentries]
    exact hsound.bounded
  · intro key value
    rw [hget]
    exact ⟨Entries.mem_of_find?, Entries.find?_of_mem hsound.distinct⟩
  · rintro key earlier value later rfl hlast
    rw [hget]
    exact hlast.find?_eq
  · intro key given hput hcapacity
    have hcomes : key ∈ arrivals capacity (Queue.after capacity [] []) ops :=
      mem_arrivals_of_put hcapacity List.not_mem_nil hput
    exact exists_comesLast hcomes

/-- A key of a query for a short text. -/
def noteKey (query : String) : CacheKey := ⟨Mode.text.name, 4, query.toText, "oak ".toText⟩

/-- In a cache of two entries looking a key up and putting it anew do not keep it from being pushed out as the oldest. -/
theorem runs_as_queue_threeNotes :
    let puts : List Operation := [.put (noteKey "b") "2".toText, .get (noteKey "a"), .put (noteKey "a") "3".toText]
    let all := puts ++ [.put (noteKey "c") "4".toText]
    ((Cache.empty 2 100).after (.put (noteKey "a") "1".toText :: puts)).get? (noteKey "a") = some "3".toText ∧
      ((Cache.empty 2 100).after (.put (noteKey "a") "1".toText :: all)).get? (noteKey "a") = none := by
  constructor
  · exact ((runs_as_queue 2 100 _).2.2.2.2.1 _ [] _ _ rfl ⟨by decide, by decide⟩).trans (by decide)
  · exact ((runs_as_queue 2 100 _).2.2.2.2.1 _ [] _ _ rfl ⟨by decide, by decide⟩).trans (by decide)

end Marking
end LedgerSearch

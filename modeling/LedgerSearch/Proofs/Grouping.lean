import LedgerSearch.Proofs.Gathering
import LedgerSearch.Proofs.Results

/-!
# Groups as a partition

Groups share out all records, each to the group of its key, and keep the order of the records (`Partitions`). Limits
leave the groups that may show something, each with its first records (`apply_eq`).
-/

namespace LedgerSearch.Search

open Outcome Sorting

variable {records : List Record} {grouping : Option Text} {d : Dimension} {g : Group}

theorem push_eq_put {κ α : Type} [BEq κ] (key : κ) (item : α) (entries : Entries κ (List α)) :
    Entries.push key item entries = Entries.put key ((Entries.find? key entries).getD [] ++ [item]) entries := by
  induction entries with
  | nil => rfl
  | cons entry rest ih =>
    rw [Entries.push, Entries.find?, Entries.put, ih]
    split
    · rfl
    · rfl

section Collect

variable {κ : Type} [BEq κ] {key : Record → κ} {k : κ} {items : List Record}

theorem collect_eq_gather (key : Record → κ) (records : List Record) :
    collect key records = Entries.gather (fun found r => found.getD [] ++ [r]) key records := by
  simp only [collect, Entries.gather, push_eq_put]

theorem total?_list (records : List Record) :
    Entries.total? (fun found r => found.getD [] ++ [r]) records = if records = [] then none else some records := by
  induction records using List.reverseRecOn with
  | nil => rfl
  | append_singleton records r ih =>
    rw [Entries.total?_concat, ih]
    cases records <;> simp

variable [LawfulBEq κ]

/-- Under a key stand the records that have it, in their order. -/
theorem find?_collect (key : Record → κ) (records : List Record) (k : κ) :
    Entries.find? k (collect key records) =
      if (records.filter fun r => key r == k) = [] then none else some (records.filter fun r => key r == k) := by
  rw [collect_eq_gather, Entries.find?_gather, total?_list]

theorem pairwise_keys_collect (key : Record → κ) (records : List Record) : (Entries.keys (collect key records)).Pairwise
    fun j k => (records.map key).idxOf j < (records.map key).idxOf k := by
  rw [collect_eq_gather]
  exact Entries.pairwise_keys_gather _ _ _

theorem nodup_keys_collect (key : Record → κ) (records : List Record) : (Entries.keys (collect key records)).Nodup := by
  rw [collect_eq_gather]
  exact Entries.nodup_keys_gather _ _ _

theorem mem_keys_collect : k ∈ Entries.keys (collect key records) ↔ k ∈ records.map key := by
  rw [collect_eq_gather]
  exact Entries.mem_keys_gather

theorem of_mem_collect (h : (k, items) ∈ collect key records) :
    items = (records.filter fun r => key r == k) ∧ items ≠ [] := by
  have hfind := Entries.find?_of_mem (nodup_keys_collect key records) h
  rw [find?_collect] at hfind
  split at hfind
  · cases hfind
  · rename_i hne
    cases hfind
    exact ⟨rfl, hne⟩

/-- Records shared out to different keys are together those that have one of the keys. -/
theorem flatMap_filter_perm (key : Record → κ) (records : List Record) {keys : List κ} (distinct : keys.Nodup) :
    (keys.flatMap fun k => records.filter fun r => key r == k).Perm (records.filter fun r => keys.contains (key r)) := by
  induction keys with
  | nil => simp
  | cons k rest ih =>
    obtain ⟨hfresh, hrest⟩ := List.nodup_cons.1 distinct
    -- of the records that have one of the keys, those with the first key go to its group
    have hsplit := List.filter_append_perm (fun r => key r == k) (records.filter fun r => (k :: rest).contains (key r))
    have hown : ((records.filter fun r => (k :: rest).contains (key r)).filter fun r => key r == k) =
        records.filter fun r => key r == k := by
      rw [List.filter_filter]
      refine List.filter_congr fun r _ => ?_
      cases h : key r == k <;> simp [h]
    have hothers : ((records.filter fun r => (k :: rest).contains (key r)).filter fun r => !(key r == k)) =
        records.filter fun r => rest.contains (key r) := by
      rw [List.filter_filter]
      refine List.filter_congr fun r _ => ?_
      cases h : key r == k with
      | false => simp [h]
      | true =>
        rw [eq_of_beq h]
        simpa using hfresh
    rw [hown, hothers] at hsplit
    exact ((ih hrest).append_left _).trans hsplit

end Collect

/-- The key of the group that a record belongs to. -/
def groupKey (grouping : Option Text) (r : Record) : Text :=
  match dimension? grouping with
  | some d => d.key r
  | none => r.kind.name

/-- Which of two keys of a dimension comes first: the one of the records without a value last, else the lower one in
folded form, and between keys of one folded form the one that occurs first. -/
def Dimension.KeyBefore (d : Dimension) (records : List Record) (a b : Text) : Prop :=
  a ≠ d.missing ∧ (b ≠ d.missing → Lex (fun a b => Text.le (Text.fold a) (Text.fold b))
    (fun a b => (records.map d.key).idxOf a < (records.map d.key).idxOf b) a b)

/-- Which of two keys comes first: kinds have an order of their own. -/
def KeyBefore (grouping : Option Text) (records : List Record) (a b : Text) : Prop :=
  match dimension? grouping with
  | some d => d.KeyBefore records a b
  | none => (kindOrder.map EntityKind.name).idxOf a < (kindOrder.map EntityKind.name).idxOf b

/-- Groups that share out some records: no group is empty and no two have one key, each holds the records of its key
in their order, together they hold all records, and their keys are in order. -/
structure Partitions (grouping : Option Text) (records : List Record) (gs : List Group) : Prop where
  filled : ∀ g ∈ gs, g.items ≠ []
  distinct : (gs.map Group.key).Nodup
  items : ∀ g ∈ gs, g.items = records.filter fun r => groupKey grouping r == g.key
  complete : (gs.flatMap Group.items).Perm records
  inOrder : (gs.map Group.key).Pairwise (KeyBefore grouping records)

/-- Groups with different keys that hold the records of their keys hold all records, if every key has a group. -/
theorem flatMap_items_perm {gs : List Group} (distinct : (gs.map Group.key).Nodup)
    (hitems : ∀ g ∈ gs, g.items = records.filter fun r => groupKey grouping r == g.key)
    (hkeys : ∀ r ∈ records, groupKey grouping r ∈ gs.map Group.key) : (gs.flatMap Group.items).Perm records := by
  have hall : (records.filter fun r => (gs.map Group.key).contains (groupKey grouping r)) = records := by
    rw [List.filter_eq_self]
    intro r hr
    rw [List.contains_iff_mem]
    exact hkeys r hr
  have hflat : gs.flatMap Group.items =
      (gs.map Group.key).flatMap fun k => records.filter fun r => groupKey grouping r == k := by
    rw [List.flatMap_map]
    exact List.flatMap_congr hitems
  rw [hflat]
  exact (flatMap_filter_perm _ _ distinct).trans (.of_eq hall)

theorem groupsByDimension_perm (d : Dimension) (records : List Record) :
    ((groupsByDimension d records).map fun g => (g.key, g.items)).Perm (collect d.key records) := by
  have hid : ((fun g : Group => (g.key, g.items)) ∘ fun g : Text × List Record => ⟨g.1, g.1, none, g.2⟩) = id := rfl
  have hmissing : (fun g : Text × List Record => g.1 == d.missing) = fun g => !(g.1 != d.missing) := by
    funext g
    rw [bne, Bool.not_not]
  rw [groupsByDimension, List.map_map, hid, List.map_id, hmissing]
  exact ((sortOn_perm _ _ _).append_right _).trans (List.filter_append_perm _ _)

theorem map_key_groupsByDimension_perm (d : Dimension) (records : List Record) :
    ((groupsByDimension d records).map Group.key).Perm (Entries.keys (collect d.key records)) := by
  have h := (groupsByDimension_perm d records).map Prod.fst
  rwa [List.map_map] at h

theorem pairwise_groupsByDimension (d : Dimension) (records : List Record) :
    ((groupsByDimension d records).map Group.key).Pairwise (d.KeyBefore records) := by
  have hfold : IsPreorder fun a b : Text × List Record => Text.le (Text.fold a.1) (Text.fold b.1) :=
    ⟨fun _ _ => Text.le_total _ _, fun hab hbc => Text.le_trans hab hbc⟩
  have hfirst := List.pairwise_map.1 (pairwise_keys_collect d.key records)
  have hnodup := List.pairwise_map.1 (nodup_keys_collect d.key records)
  have hnamed : ∀ g ∈ sortOn (fun g => Text.fold g.1) Text.le ((collect d.key records).filter fun g => g.1 != d.missing),
      g.1 ≠ d.missing := by
    intro g hg
    simpa using (List.mem_filter.1 ((sortOn_perm _ _ _).mem_iff.1 hg)).2
  rw [groupsByDimension, List.map_map, List.pairwise_map, List.pairwise_append]
  refine ⟨?_, ?_, ?_⟩
  · refine (pairwise_sortOn_lex (fun g : Text × List Record => Text.fold g.1) Text.le hfold
      (hfirst.filter _)).imp_of_mem fun ha _ hab => ⟨hnamed _ ha, fun _ => hab⟩
  · -- at most one group is of the records without a value
    refine (hnodup.filter _).imp_of_mem fun ha hb hne => absurd ?_ hne
    rw [eq_of_beq (List.mem_filter.1 ha).2, eq_of_beq (List.mem_filter.1 hb).2]
  · intro a ha b hb
    exact ⟨hnamed a ha, fun hne => absurd (eq_of_beq (List.mem_filter.1 hb).2) hne⟩

theorem partitions_groupsByDimension (hd : dimension? grouping = some d) (records : List Record) :
    Partitions grouping records (groupsByDimension d records) := by
  have hkey : groupKey grouping = d.key := by
    funext r
    rw [groupKey, hd]
  have hperm := map_key_groupsByDimension_perm d records
  have hbucket : ∀ g ∈ groupsByDimension d records, g.items = (records.filter fun r => d.key r == g.key) ∧ g.items ≠ [] :=
    fun g hg => of_mem_collect ((groupsByDimension_perm d records).mem_iff.1 (List.mem_map_of_mem hg))
  have hdistinct := hperm.nodup_iff.2 (nodup_keys_collect d.key records)
  have hitems : ∀ g ∈ groupsByDimension d records, g.items = records.filter fun r => groupKey grouping r == g.key :=
    fun g hg => hkey ▸ (hbucket g hg).1
  refine ⟨fun g hg => (hbucket g hg).2, hdistinct, hitems, flatMap_items_perm hdistinct hitems ?_, ?_⟩
  · intro r hr
    rw [hkey, hperm.mem_iff, mem_keys_collect]
    exact List.mem_map_of_mem hr
  · have h := pairwise_groupsByDimension d records
    unfold KeyBefore
    rwa [hd]

theorem mem_kindOrder (kind : EntityKind) : kind ∈ kindOrder := by
  rcases kind with _ | ⟨⟨⟩⟩ | _ | _ | _ | _ <;> decide

theorem kind_name_beq (a b : EntityKind) : (a.name == b.name) = (a == b) := by
  rw [Bool.eq_iff_iff, beq_iff_eq, beq_iff_eq]
  refine ⟨fun h => ?_, fun h => h ▸ rfl⟩
  rw [← Option.some.injEq, ← EntityKind.ofName?_name a, h, EntityKind.ofName?_name]

/-- The group of a kind. -/
def kindGroup (records : List Record) (kind : EntityKind) : Group :=
  ⟨kind.name, kind.plural, some kind, records.filter fun r => r.kind == kind⟩

theorem groupsByKind_eq (records : List Record) :
    groupsByKind records = (kindOrder.map (kindGroup records)).filter fun g => !g.items.isEmpty := by
  rw [groupsByKind, List.filter_map, ← List.filterMap_eq_map, List.filterMap_filter]
  refine List.filterMap_congr fun kind _ => ?_
  rw [find?_collect]
  by_cases h : (records.filter fun r => r.kind == kind) = []
  · simp [h, kindGroup]
  · simp [h, kindGroup]

theorem partitions_groupsByKind (hnone : dimension? grouping = none) (records : List Record) :
    Partitions grouping records (groupsByKind records) := by
  have hkey : ∀ r, groupKey grouping r = r.kind.name := by
    intro r
    rw [groupKey, hnone]
  have hsub : ((groupsByKind records).map Group.key).Sublist (kindOrder.map EntityKind.name) := by
    have hkeys : (kindOrder.map (kindGroup records)).map Group.key = kindOrder.map EntityKind.name := List.map_map
    rw [groupsByKind_eq, ← hkeys]
    exact List.filter_sublist.map _
  have hitems : ∀ g ∈ groupsByKind records, g.items = records.filter fun r => groupKey grouping r == g.key := by
    intro g hg
    rw [groupsByKind_eq] at hg
    obtain ⟨kind, -, rfl⟩ := List.mem_map.1 (List.mem_filter.1 hg).1
    simp only [hkey, kindGroup, kind_name_beq]
  have hdistinct : ((groupsByKind records).map Group.key).Nodup :=
    List.Nodup.sublist hsub (by decide)
  refine ⟨?_, hdistinct, hitems, flatMap_items_perm hdistinct hitems ?_, ?_⟩
  · intro g hg
    rw [groupsByKind_eq] at hg
    simpa using (List.mem_filter.1 hg).2
  · intro r hr
    have hown : kindGroup records r.kind ∈ groupsByKind records := by
      rw [groupsByKind_eq]
      refine List.mem_filter.2 ⟨List.mem_map_of_mem (mem_kindOrder _), ?_⟩
      have hmem : r ∈ (kindGroup records r.kind).items := List.mem_filter.2 ⟨hr, beq_self_eq_true _⟩
      simpa using List.ne_nil_of_mem hmem
    rw [hkey]
    exact List.mem_map_of_mem hown
  · have hindex : (kindOrder.map EntityKind.name).Pairwise fun a b =>
        (kindOrder.map EntityKind.name).idxOf a < (kindOrder.map EntityKind.name).idxOf b := by decide
    unfold KeyBefore
    rw [hnone]
    exact hindex.sublist hsub

/-- Every grouping partitions the records. -/
theorem partitions_groups (grouping : Option Text) (records : List Record) :
    Partitions grouping records (groups grouping records) := by
  unfold groups
  split
  · rename_i d hd
    exact partitions_groupsByDimension hd records
  · rename_i hnone
    exact partitions_groupsByKind hnone records

theorem apply_eq (l : GroupLimits) {gs : List Group} (hfilled : ∀ g ∈ gs, g.items ≠ []) : l.apply gs =
    (gs.filter fun g => 0 < l.limit g.key).map fun g =>
      { g with items := g.items.take (min (l.limit g.key) g.items.length) } := by
  rw [GroupLimits.apply, List.filter_map]
  simp only [← List.take_eq_take_min]
  congr 1
  refine List.filter_congr fun g hg => ?_
  rw [Bool.eq_iff_iff]
  simp only [Function.comp_apply, Bool.not_eq_true', List.isEmpty_eq_false_iff, ne_eq, List.take_eq_nil_iff, hfilled g hg,
    or_false, decide_eq_true_eq]
  exact Nat.pos_iff_ne_zero.symm

theorem groups_of_search {e : Engine} {now : Instant} {req : Engine.Request} {res : Engine.Response}
    (h : e.search now req = .ok res) (hgrouping : Engine.groupingOf req = .ok grouping) :
    res.groups = groups grouping res.records ∧ res.limited = e.limits.apply res.groups := by
  obtain ⟨kept, -, hrespond⟩ := bind_eq_ok.1 h
  obtain ⟨pairs, order, _, hmade⟩ := Engine.exists_isMadeOf hrespond
  cases hgrouping.symm.trans hmade.grouped
  exact ⟨hmade.groups, hmade.limited⟩

/-- Groups partition the records; limits keep the groups that may show something, in their order and each with its
first records. An answer has the groups as they are beside the limited ones. -/
theorem groups_partition (grouping : Option Text) (records : List Record) (l : GroupLimits) :
    Partitions grouping records (groups grouping records) ∧
    l.apply (groups grouping records) =
      ((groups grouping records).filter fun g => 0 < l.limit g.key).map (fun g =>
        { g with items := g.items.take (min (l.limit g.key) g.items.length) }) ∧
    ∀ (e : Engine) now req res, e.search now req = .ok res → Engine.groupingOf req = .ok grouping →
      res.groups = groups grouping res.records ∧ res.limited = e.limits.apply res.groups :=
  ⟨partitions_groups grouping records, apply_eq l (partitions_groups grouping records).filled,
    fun _ _ _ _ => groups_of_search⟩

/-- The documents with at most two of them shown. -/
def shortEngine : Engine := { Engine.sampleEngine with limits := ⟨4, [("Document".toText, 2)]⟩ }

theorem groups_partition_documents : ∃ res, shortEngine.search Instant.epoch Engine.sampleRequest = .ok res ∧
    Partitions none res.records res.groups ∧ res.limited = shortEngine.limits.apply res.groups ∧
    (res.groups.map fun g => g.items.length) = [3] ∧ (res.limited.map fun g => g.items.length) = [2] := by
  have hlengths : (shortEngine.search Instant.epoch Engine.sampleRequest).toOption.map (fun res =>
      (res.groups.map (fun g => g.items.length), res.limited.map fun g => g.items.length)) = some ([3], [2]) := by
    decide +kernel
  cases h : shortEngine.search Instant.epoch Engine.sampleRequest with
  | error fault =>
    rw [h] at hlengths
    cases hlengths
  | ok res =>
    rw [h] at hlengths
    obtain ⟨hfull, hlimited⟩ := Prod.mk.inj (Option.some.inj hlengths)
    obtain ⟨hpartition, -, hanswer⟩ := groups_partition none res.records shortEngine.limits
    obtain ⟨hgroups, hshown⟩ := hanswer shortEngine Instant.epoch Engine.sampleRequest res h (by decide)
    exact ⟨res, rfl, hgroups ▸ hpartition, hshown, hfull, hlimited⟩

/-- Keys of one folded form stay as they first occur, and a record without a value is grouped with one whose value has
the name of its group. -/
example : ((groups (some "Project".toText) (["beta", "No Project", "alpha", "Alpha", "", "beta"].map fun project =>
    { Record.bare "1" "Plan" (.document ⟨[], []⟩) with project := project.toText })).map fun g =>
      (g.key, g.items.length)) =
    [("alpha".toText, 1), ("Alpha".toText, 1), ("beta".toText, 2), ("No Project".toText, 2)] := by decide +kernel

end LedgerSearch.Search

import LedgerSearch.Proofs.Gathering
import LedgerSearch.Proofs.StableOrder
import LedgerSearch.Proofs.TextFields

/-!
# Counted texts

Where records are counted under texts, the list of a facet key has each text once with the number of its records, in a
strict order (`Describes`), and it is there exactly if a record has a value (`facets_describe`).
-/

namespace LedgerSearch.Search

open Outcome Sorting

variable {now : Instant} {key : FacetKey} {r : Record} {records : List Record} {texts : List Text}

/-- The value that a record is counted under, if it has one. -/
def valueOf (now : Instant) (key : FacetKey) (r : Record) : Option Value := (countedValue now key r).toOption.join

/-- The record is counted under a value. -/
def hasValue (now : Instant) (key : FacetKey) (v : Value) (r : Record) : Bool := valueOf now key r == some v

/-- The text that a record is counted under, if it has one. -/
def textOf (now : Instant) (key : FacetKey) (r : Record) : Option Text := (valueOf now key r).bind Value.text?

namespace Value

def ofText (t : Text) : Value := ⟨.text t⟩

theorem ofText_beq (s t : Text) : (ofText s == ofText t) = (s == t) := by
  have h : (ofText s == ofText t) = (Atom.text s == Atom.text t) := rfl
  rw [h, Bool.eq_iff_iff, beq_iff_eq, beq_iff_eq, Atom.text.injEq]

theorem isBelow_ofText (s t : Text) : isBelow (ofText s) (ofText t) = (Text.le s t && !Text.le t s) := by
  have h : isBelow (ofText s) (ofText t) = (some (Text.le s t) == some true && some (Text.le t s) == some false) := rfl
  rw [h]
  cases Text.le s t <;> cases Text.le t s <;> rfl

theorem text?_eq_some {v : Value} {t : Text} (h : v.text? = some t) : v = ofText t := by
  obtain ⟨a⟩ := v
  cases a with
  | text s =>
    cases h
    rfl
  | _ => cases h

end Value

namespace IsTextValue

theorem countedValue_eq (h : IsTextValue now key r) : countedValue now key r = .ok (valueOf now key r) := by
  obtain ⟨v, hv, -⟩ := h
  rw [valueOf, hv]
  rfl

theorem valueOf_eq (h : IsTextValue now key r) : valueOf now key r = (textOf now key r).map Value.ofText := by
  obtain ⟨v, hv, htext⟩ := h
  have hvalue : valueOf now key r = v := by
    rw [valueOf, hv]
    rfl
  rw [textOf, hvalue]
  cases v with
  | none => rfl
  | some w =>
    obtain ⟨t, ht⟩ := Option.isSome_iff_exists.1 (htext w rfl)
    rw [Option.bind_some, ht, Value.text?_eq_some ht]
    rfl

theorem hasValue_ofText (h : IsTextValue now key r) (t : Text) :
    hasValue now key (.ofText t) r = ((textOf now key r).map (· == t)).getD false := by
  rw [hasValue, h.valueOf_eq]
  cases textOf now key r with
  | none => rfl
  | some s => exact Value.ofText_beq s t

end IsTextValue

theorem facetValues_eq (h : ∀ r ∈ records, IsTextValue now key r) :
    facetValues now key records = .ok ((records.filterMap (textOf now key)).map .ofText) := by
  induction records with
  | nil => rfl
  | cons r rest ih =>
    obtain ⟨hr, hrest⟩ := List.forall_mem_cons.1 h
    rw [facetValues_cons, hr.countedValue_eq, hr.valueOf_eq, ih hrest, List.filterMap_cons]
    cases textOf now key r <;> rfl

/-- A counted text stands no later than another: its count is higher, or equal and the text no greater. -/
def standsNoLater (a b : Text × Nat) : Bool := b.2 < a.2 || a.2 == b.2 && Text.le a.1 b.1

theorem isPreorder_standsNoLater : IsPreorder standsNoLater := by
  constructor
  · intro a b
    simp only [standsNoLater, Bool.or_eq_true, Bool.and_eq_true, decide_eq_true_eq, beq_iff_eq]
    rcases Nat.lt_trichotomy a.2 b.2 with hlt | heq | hgt
    · exact .inr (.inl hlt)
    · exact (Text.le_total a.1 b.1).imp (fun h => .inr ⟨heq, h⟩) fun h => .inr ⟨heq.symm, h⟩
    · exact .inl (.inl hgt)
  · intro a b c hab hbc
    simp only [standsNoLater, Bool.or_eq_true, Bool.and_eq_true, decide_eq_true_eq, beq_iff_eq] at hab hbc ⊢
    rcases hab with hab | ⟨hab, hle⟩
    · left
      omega
    · rcases hbc with hbc | ⟨hbc, hle'⟩
      · left
        omega
      · exact .inr ⟨hab.trans hbc, Text.le_trans hle hle'⟩

/-- A text and its count as a value and its count. -/
def asValue (c : Text × Nat) : Value × Nat := (.ofText c.1, c.2)

theorem not_countsBefore (a b : Text × Nat) : (!countsBefore (asValue b) (asValue a)) = standsNoLater a b := by
  unfold countsBefore standsNoLater asValue
  dsimp only
  rw [Value.isBelow_ofText]
  by_cases heq : b.2 = a.2
  · have htotal := Text.le_total a.1 b.1
    rw [if_pos heq, heq]
    cases hab : Text.le a.1 b.1 <;> cases hba : Text.le b.1 a.1 <;> simp_all
  · have hne : ¬ a.2 = b.2 := fun h => heq h.symm
    rw [if_neg heq, Bool.eq_iff_iff]
    simp only [Bool.not_eq_true', decide_eq_false_iff_not, Bool.or_eq_true, decide_eq_true_eq, Bool.and_eq_true, beq_iff_eq]
    omega

/-- Texts with their counts, the highest count first. -/
def listing (texts : List Text) : Entries Value Nat := (sort standsNoLater (Entries.counts texts)).map asValue

theorem orderCounts_texts (texts : List Text) : orderCounts (Entries.counts (texts.map .ofText)) = .ok (listing texts) := by
  have hcounts : Entries.counts (texts.map .ofText) = (Entries.counts texts).map asValue :=
    Entries.counts_map Value.ofText_beq texts
  have hle : ∀ a b, (Value.le? (asValue a).1 (asValue b).1).isSome = true := fun _ _ => rfl
  have hcomparable : (((Entries.counts texts).map asValue).all fun c => c.1.isComparable) = true := by
    rw [List.all_map, List.all_eq_true]
    exact fun _ _ => rfl
  unfold orderCounts
  rw [if_pos, hcounts, sortBy_eq_sort hcomparable, sort_map]
  · simp only [not_countsBefore]
    rfl
  · simp only [hcounts, List.all_map, List.all_eq_true, Function.comp_apply, countsComparable, hle, Bool.or_true, implies_true]

/-- A list of counted values says of some records how many there are of each value: every value is listed once, with
the number of its records, the highest number first and the lower value first among equal numbers, and the numbers add
up to that of all records that have a value. -/
structure Describes (now : Instant) (key : FacetKey) (records : List Record) (listed : Entries Value Nat) : Prop where
  distinct : (Entries.keys listed).Nodup
  counted : ∀ v n, (v, n) ∈ listed → 0 < n ∧ n = records.countP (hasValue now key v)
  ordered : listed.Pairwise fun a b => b.2 < a.2 ∨ a.2 = b.2 ∧ Value.isBelow a.1 b.1 = true
  total : (listed.map Prod.snd).sum = records.countP fun r => (valueOf now key r).isSome

theorem mem_listing {v : Value} {n : Nat} :
    (v, n) ∈ listing texts ↔ ∃ t, v = .ofText t ∧ t ∈ texts ∧ n = texts.count t := by
  simp only [listing, List.mem_map, mem_sort, Prod.exists, Entries.mem_counts_iff, asValue, Prod.mk.injEq]
  constructor
  · rintro ⟨t, m, ⟨ht, rfl⟩, rfl, rfl⟩
    exact ⟨t, rfl, ht, rfl⟩
  · rintro ⟨t, rfl, ht, rfl⟩
    exact ⟨t, _, ⟨ht, rfl⟩, rfl, rfl⟩

theorem pairwise_listing (texts : List Text) :
    (listing texts).Pairwise fun a b => a.1 ≠ b.1 ∧ (b.2 < a.2 ∨ a.2 = b.2 ∧ Value.isBelow a.1 b.1 = true) := by
  have hsorted := isPreorder_standsNoLater.pairwise_sort (Entries.counts texts)
  have hdistinct : (sort standsNoLater (Entries.counts texts)).Pairwise fun a b => a.1 ≠ b.1 :=
    List.pairwise_map.1 (((sort_perm _ _).map _).nodup_iff.2 (Entries.nodup_keys_counts texts))
  refine List.pairwise_map.2 ((hsorted.and hdistinct).imp ?_)
  rintro ⟨s, m⟩ ⟨t, n⟩ ⟨hle, hne⟩
  simp only [standsNoLater, Bool.or_eq_true, decide_eq_true_eq, Bool.and_eq_true, beq_iff_eq] at hle
  refine ⟨fun h => hne (Atom.text.inj (Value.mk.inj h)), hle.imp id fun ⟨hmn, hst⟩ => ⟨hmn, ?_⟩⟩
  have hts : Text.le t s = false := Bool.eq_false_iff.2 fun hts => hne (Text.le_antisymm hst hts)
  rw [asValue, asValue, Value.isBelow_ofText, hst, hts]
  rfl

theorem describes_listing (h : ∀ r ∈ records, IsTextValue now key r) :
    Describes now key records (listing (records.filterMap (textOf now key))) where
  distinct := List.pairwise_map.2 ((pairwise_listing _).imp And.left)
  counted := by
    intro v n hmem
    obtain ⟨t, rfl, ht, rfl⟩ := mem_listing.1 hmem
    refine ⟨List.count_pos_iff.2 ht, ?_⟩
    rw [List.count, List.countP_filterMap]
    refine List.countP_congr fun r hr => ?_
    rw [(h r hr).hasValue_ofText]
  ordered := (pairwise_listing _).imp And.right
  total := by
    have hperm := (sort_perm standsNoLater (Entries.counts (records.filterMap (textOf now key)))).map Prod.snd
    have hsum : ((listing (records.filterMap (textOf now key))).map Prod.snd).sum =
        ((Entries.counts (records.filterMap (textOf now key))).map Prod.snd).sum := by
      rw [listing, List.map_map]
      exact hperm.sum_nat
    rw [hsum, Entries.sum_counts, List.length_filterMap_eq_countP]
    refine List.countP_congr fun r hr => ?_
    rw [(h r hr).valueOf_eq, Option.isSome_map]

namespace FacetKey

theorem ofName?_name (key : FacetKey) : ofName? key.name = some key := by
  cases key <;> decide

theorem name_inj {a b : FacetKey} (h : a.name = b.name) : a = b := by
  rw [← Option.some.injEq, ← ofName?_name a, h, ofName?_name]

theorem name_ne_groupByKey (key : FacetKey) : key.name ≠ groupByKey := by
  intro h
  have hnone : ofName? groupByKey = none := by decide
  rw [← h, ofName?_name] at hnone
  cases hnone

end FacetKey

/-- The list of a key, if it has anything. -/
def listing? (now : Instant) (records : List Record) (key : FacetKey) : Option (Entries Value Nat) :=
  if records.filterMap (textOf now key) = [] then none else some (listing (records.filterMap (textOf now key)))

theorem keyFacets_eq (h : ∀ r ∈ records, ∀ key, IsTextValue now key r) (keys : List FacetKey) :
    keyFacets now records keys = .ok (keys.filterMap fun key => (listing? now records key).map (key.name, ·)) := by
  induction keys with
  | nil => rfl
  | cons key keys ih =>
    rw [keyFacets, facetValues_eq fun r hr => h r hr key, map_ok, ok_bind, ih, ok_bind, orderCounts_texts,
      List.filterMap_cons, listing?]
    by_cases htexts : records.filterMap (textOf now key) = []
    · rw [htexts]
      rfl
    · rw [if_neg, if_neg htexts]
      · rfl
      · rwa [List.isEmpty_iff, Entries.counts_eq_nil_iff, List.map_eq_nil_iff]

theorem find?_keyed (f : FacetKey → Option (Entries Value Nat)) (key : FacetKey) (keys : List FacetKey) :
    Entries.find? key.name (keys.filterMap fun k => (f k).map (k.name, ·)) = if key ∈ keys then f key else none := by
  induction keys with
  | nil => rfl
  | cons k rest ih =>
    rw [List.filterMap_cons]
    by_cases hk : k = key
    · rw [hk, if_pos List.mem_cons_self]
      cases hf : f key with
      | none => simpa [hf] using ih
      | some listed => simp [Entries.find?]
    · have hne : ¬ k.name = key.name := fun h => hk (FacetKey.name_inj h)
      have hmem : key ∈ k :: rest ↔ key ∈ rest := List.mem_cons.trans (or_iff_right (Ne.symm hk))
      simp only [hmem, ← ih]
      cases f k with
      | none => rfl
      | some listed => simp [Entries.find?, hne]

theorem find?_facets (h : ∀ r ∈ records, ∀ key, IsTextValue now key r) {found : Entries Text (Entries Value Nat)}
    (hfound : facets now records = .ok found) (key : FacetKey) :
    Entries.find? key.name found = listing? now records key := by
  rw [facets, keyFacets_eq h, map_ok, Except.ok.injEq] at hfound
  rw [← hfound, Entries.find?_append, find?_keyed, if_pos key.mem_all]
  have hother : (groupByKey == key.name) = false := beq_false_of_ne key.name_ne_groupByKey.symm
  simp [Entries.find?, hother]

theorem isSome_listing?_iff (h : ∀ r ∈ records, IsTextValue now key r) :
    (listing? now records key).isSome = true ↔ ∃ r ∈ records, (valueOf now key r).isSome = true := by
  unfold listing?
  split
  · rename_i hnone
    refine iff_of_false Bool.false_ne_true ?_
    rintro ⟨r, hr, hvalue⟩
    rw [(h r hr).valueOf_eq, Option.isSome_map, List.filterMap_eq_nil_iff.1 hnone r hr] at hvalue
    cases hvalue
  · rename_i hsome
    refine iff_of_true rfl ?_
    obtain ⟨t, ht⟩ := List.exists_mem_of_ne_nil _ hsome
    obtain ⟨r, hr, htext⟩ := List.mem_filterMap.1 ht
    exact ⟨r, hr, by rw [(h r hr).valueOf_eq, htext]; rfl⟩

/-- Among the facets of records that are counted under texts, the list of a key is there exactly if a record has a
value, and it describes the records. -/
theorem facets_describe (h : ∀ r ∈ records, ∀ key, IsTextValue now key r) {found : Entries Text (Entries Value Nat)}
    (hfound : facets now records = .ok found) (key : FacetKey) :
    ((Entries.find? key.name found).isSome = true ↔ ∃ r ∈ records, (valueOf now key r).isSome = true) ∧
    ∀ listed, Entries.find? key.name found = some listed → Describes now key records listed := by
  have hkey : ∀ r ∈ records, IsTextValue now key r := fun r hr => h r hr key
  rw [find?_facets h hfound]
  refine ⟨isSome_listing?_iff hkey, fun listed hlisted => ?_⟩
  unfold listing? at hlisted
  split at hlisted
  · cases hlisted
  · cases hlisted
    exact describes_listing hkey

end LedgerSearch.Search

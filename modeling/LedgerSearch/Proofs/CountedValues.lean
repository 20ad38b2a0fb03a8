import LedgerSearch.Proofs.Composition
import LedgerSearch.Search.Selection
import Mathlib.Data.List.Pairwise

/-!
# Faults of searchable texts and facets

The searchable text of a record exists exactly if all filled fields in it are texts. The facets of some records exist
exactly if under each key every record has a value that can be counted and values with equal counts have an order. The
counts depend on the records at hand, so facets of every sublist ask for more: each two values must have an order
(`facets_sublists_ok_iff`).
-/

namespace LedgerSearch.Search

open Outcome

variable {r s : Record} {now : Instant} {key : FacetKey} {records : List Record}

theorem filledTexts_ok_iff {parts : List Payload} :
    (∃ texts, filledTexts parts = .ok texts) ↔ ∀ p ∈ parts, p.isFilled = true → p.text?.isSome = true := by
  refine ⟨?_, filledTexts_ok⟩
  rintro ⟨texts, h⟩
  induction parts generalizing texts with
  | nil => exact fun p hp => absurd hp List.not_mem_nil
  | cons p parts ih =>
    rw [filledTexts] at h
    by_cases hfilled : p.isFilled = true
    · rw [if_pos hfilled] at h
      cases htext : p.text? with
      | none => simp [htext] at h
      | some t =>
        rw [htext] at h
        obtain ⟨rest, hrest, -⟩ := map_eq_ok.1 h
        exact List.forall_mem_cons.2 ⟨fun _ => by rw [htext]; rfl, ih rest hrest⟩
    · rw [if_neg hfilled] at h
      exact List.forall_mem_cons.2 ⟨fun hp => absurd hp hfilled, ih texts h⟩

theorem haystack_ok_iff : (∃ text, haystack r = .ok text) ↔ r.IsTextual :=
  map_ok_iff.trans filledTexts_ok_iff

namespace Value

variable {v w : Value}

theorem text?_isSome_iff : v.text?.isSome = true ↔ ∃ t, v.atom = .text t := by
  unfold text?
  split <;> simp_all

/-- Two values have an order if both are texts or both are numbers. -/
theorem le?_isSome_iff : (le? v w).isSome = true ↔ (v.text?.isSome = true ∧ w.text?.isSome = true) ∨
    ((numberRank? v.atom).isSome = true ∧ (numberRank? w.atom).isSome = true) := by
  unfold le?
  split
  · rename_i s t hv hw
    exact iff_of_true rfl (.inl ⟨text?_isSome_iff.2 ⟨s, hv⟩, text?_isSome_iff.2 ⟨t, hw⟩⟩)
  · rename_i hne
    have htexts : ¬ (v.text?.isSome = true ∧ w.text?.isSome = true) := by
      rintro ⟨hv, hw⟩
      obtain ⟨s, hs⟩ := text?_isSome_iff.1 hv
      obtain ⟨t, ht⟩ := text?_isSome_iff.1 hw
      exact hne s t hs ht
    rw [or_iff_right htexts]
    cases numberRank? v.atom <;> cases numberRank? w.atom <;> simp

theorem le?_comm (h : (le? v w).isSome = true) : (le? w v).isSome = true := by
  rw [le?_isSome_iff] at h ⊢
  exact h.imp And.symm And.symm

/-- A value that has an order at all has one with every value that is the same. -/
theorem le?_of_same (hself : (le? v v).isSome = true) (hsame : (v == w) = true) : (le? v w).isSome = true := by
  have h : same v w = true := hsame
  unfold same at h
  rw [le?_isSome_iff] at hself ⊢
  split at h
  · rename_i hv hw
    rw [hv, hw]
    exact .inr ⟨rfl, rfl⟩
  · rename_i hv hw
    rw [hv] at hself
    obtain ⟨htext, -⟩ | ⟨hnone, -⟩ := hself
    · obtain ⟨t, ht⟩ := text?_isSome_iff.1 htext
      exact .inl ⟨htext, text?_isSome_iff.2 ⟨t, by rw [← eq_of_beq h, ht]⟩⟩
    · cases hnone
  · cases h

end Value

/-- The value that a record is counted under. -/
def countedValue (now : Instant) (key : FacetKey) (r : Record) : Except Fault (Option Value) := do
  match ← facetValue now key r with
  | some p => (Value.ofPayload p).map some
  | none => return none

theorem facetValues_cons (now : Instant) (key : FacetKey) (r : Record) (records : List Record) :
    facetValues now key (r :: records) = do
      let own ← countedValue now key r
      let more ← facetValues now key records
      return own.toList ++ more := by
  rw [facetValues, countedValue]
  cases facetValue now key r with
  | error fault => rfl
  | ok value =>
    cases value with
    | none => rfl
    | some p =>
      simp only [ok_bind]
      cases Value.ofPayload p <;> rfl

theorem facetValues_ok_iff :
    (∃ values, facetValues now key records = .ok values) ↔ ∀ r ∈ records, ∃ v, countedValue now key r = .ok v := by
  induction records with
  | nil => exact iff_of_true ⟨[], rfl⟩ (List.forall_mem_nil _)
  | cons r rest ih =>
    rw [List.forall_mem_cons, ← ih, facetValues_cons]
    simp [bind_ok_iff]

theorem exists_of_mem_facetValues {values : List Value} (h : facetValues now key records = .ok values) {v : Value}
    (hv : v ∈ values) : ∃ r ∈ records, countedValue now key r = .ok (some v) := by
  induction records generalizing values with
  | nil =>
    cases h
    cases hv
  | cons r rest ih =>
    rw [facetValues_cons] at h
    obtain ⟨own, hown, h⟩ := bind_eq_ok.1 h
    obtain ⟨more, hmore, h⟩ := bind_eq_ok.1 h
    cases h
    rcases List.mem_append.1 hv with hv | hv
    · rw [Option.mem_toList] at hv
      exact ⟨r, List.mem_cons_self, by rw [hown, hv]⟩
    · obtain ⟨s, hs, h⟩ := ih hmore hv
      exact ⟨s, List.mem_cons_of_mem r hs, h⟩

theorem mem_tally {v w : Value} {n : Nat} {entries : Entries Value Nat} (h : (w, n) ∈ Entries.tally v entries) :
    w = v ∨ ∃ m, (w, m) ∈ entries := by
  induction entries with
  | nil =>
    cases List.mem_singleton.1 h
    exact .inl rfl
  | cons entry rest ih =>
    obtain ⟨u, m⟩ := entry
    rw [Entries.tally] at h
    split at h
    · rcases List.mem_cons.1 h with h | h
      · cases h
        exact .inr ⟨m, List.mem_cons_self⟩
      · exact .inr ⟨n, List.mem_cons_of_mem _ h⟩
    · rcases List.mem_cons.1 h with h | h
      · cases h
        exact .inr ⟨n, List.mem_cons_self⟩
      · obtain rfl | ⟨m', hm⟩ := ih h
        · exact .inl rfl
        · exact .inr ⟨m', List.mem_cons_of_mem _ hm⟩

theorem mem_of_mem_foldl_tally {values : List Value} {entries : Entries Value Nat} {w : Value} {n : Nat}
    (h : (w, n) ∈ values.foldl (fun found v => Entries.tally v found) entries) :
    w ∈ values ∨ ∃ m, (w, m) ∈ entries := by
  induction values generalizing entries with
  | nil => exact .inr ⟨n, h⟩
  | cons v rest ih =>
    rcases ih h with hw | ⟨m, hm⟩
    · exact .inl (List.mem_cons_of_mem v hw)
    · rcases mem_tally hm with rfl | hold
      · exact .inl List.mem_cons_self
      · exact .inr hold

/-- Only values that occur are counted. -/
theorem mem_of_mem_counts {values : List Value} {c : Value × Nat} (h : c ∈ Entries.counts values) : c.1 ∈ values := by
  rcases mem_of_mem_foldl_tally h with hmem | ⟨m, hnil⟩
  · exact hmem
  · cases hnil

/-- Each two values with equal counts have an order. -/
def AreRankable (values : List Value) : Prop :=
  ∀ a ∈ Entries.counts values, ∀ b ∈ Entries.counts values, countsComparable a b = true

theorem orderCounts_ok_iff {values : List Value} :
    (∃ ordered, orderCounts (Entries.counts values) = .ok ordered) ↔ AreRankable values := by
  have hall : ((Entries.counts values).all fun a => (Entries.counts values).all fun b => countsComparable a b) = true ↔
      AreRankable values := by simp only [List.all_eq_true, AreRankable]
  rw [← hall]
  unfold orderCounts
  split
  · rename_i h
    exact iff_of_true ⟨_, rfl⟩ h
  · rename_i h
    exact iff_of_false (fun ⟨_, hok⟩ => by cases hok) h

theorem FacetKey.mem_all (key : FacetKey) : key ∈ FacetKey.all := by
  cases key <;> decide

theorem keyFacets_ok_iff {keys : List FacetKey} : (∃ found, keyFacets now records keys = .ok found) ↔
    ∀ key ∈ keys, ∃ values, facetValues now key records = .ok values ∧ AreRankable values := by
  induction keys with
  | nil => exact iff_of_true ⟨[], rfl⟩ (List.forall_mem_nil _)
  | cons key keys ih =>
    rw [List.forall_mem_cons, ← ih, keyFacets]
    constructor
    · rintro ⟨found, h⟩
      obtain ⟨counted, hcounted, h⟩ := bind_eq_ok.1 h
      obtain ⟨values, hvalues, rfl⟩ := map_eq_ok.1 hcounted
      obtain ⟨more, hmore, h⟩ := bind_eq_ok.1 h
      refine ⟨⟨values, hvalues, ?_⟩, more, hmore⟩
      split at h
      · rename_i hempty
        intro a ha
        rw [List.isEmpty_iff.1 hempty] at ha
        cases ha
      · obtain ⟨ordered, hordered, -⟩ := bind_eq_ok.1 h
        exact orderCounts_ok_iff.1 ⟨ordered, hordered⟩
    · rintro ⟨⟨values, hvalues, hrank⟩, more, hmore⟩
      obtain ⟨ordered, hordered⟩ := orderCounts_ok_iff.2 hrank
      rw [hvalues, map_ok, ok_bind, hmore, ok_bind, hordered]
      split <;> exact ⟨_, rfl⟩

theorem facets_ok_iff : (∃ found, facets now records = .ok found) ↔
    ∀ key ∈ FacetKey.all, ∃ values, facetValues now key records = .ok values ∧ AreRankable values := by
  rw [← keyFacets_ok_iff]
  exact map_ok_iff

/-- The values of two records under a key have an order, if both have one. -/
def HaveOrder (now : Instant) (key : FacetKey) (r s : Record) : Prop :=
  ∀ v w, countedValue now key r = .ok (some v) → countedValue now key s = .ok (some w) → (Value.le? v w).isSome = true

theorem HaveOrder.symm (h : HaveOrder now key r s) : HaveOrder now key s r :=
  fun v w hv hw => Value.le?_comm (h w v hw hv)

/-- Under a key every record has a value that can be counted or none, and each two of the values have an order. -/
structure ArePlain (now : Instant) (key : FacetKey) (records : List Record) : Prop where
  counted : ∀ r ∈ records, ∃ v, countedValue now key r = .ok v
  ordered : ∀ r ∈ records, ∀ s ∈ records, HaveOrder now key r s

theorem ArePlain.of_subset (h : ArePlain now key records) {some : List Record} (hsub : some ⊆ records) :
    ArePlain now key some :=
  ⟨fun r hr => h.counted r (hsub hr), fun r hr s hs => h.ordered r (hsub hr) s (hsub hs)⟩

theorem facets_ok (h : ∀ key, ArePlain now key records) : ∃ found, facets now records = .ok found := by
  rw [facets_ok_iff]
  intro key _
  obtain ⟨values, hvalues⟩ := facetValues_ok_iff.2 (h key).counted
  refine ⟨values, hvalues, ?_⟩
  intro a ha b hb
  obtain ⟨r, hr, hv⟩ := exists_of_mem_facetValues hvalues (mem_of_mem_counts ha)
  obtain ⟨s, hs, hw⟩ := exists_of_mem_facetValues hvalues (mem_of_mem_counts hb)
  rw [countsComparable, (h key).ordered r hr s hs a.1 b.1 hv hw, Bool.or_true]

theorem le?_of_rankable_single {v : Value} (h : AreRankable [v]) : (Value.le? v v).isSome = true := by
  have hself := h (v, 1) List.mem_cons_self (v, 1) List.mem_cons_self
  simpa [countsComparable] using hself

theorem le?_of_rankable_pair {v w : Value} (h : AreRankable [v, w]) : (Value.le? v w).isSome = true := by
  have hcounts : Entries.counts [v, w] = if v == w then [(v, 2)] else [(v, 1), (w, 1)] := rfl
  unfold AreRankable at h
  rw [hcounts] at h
  split at h
  · rename_i hsame
    have hself := h (v, 2) List.mem_cons_self (v, 2) List.mem_cons_self
    exact Value.le?_of_same (by simpa [countsComparable] using hself) hsame
  · have hboth := h (v, 1) List.mem_cons_self (w, 1) (List.mem_cons_of_mem _ List.mem_cons_self)
    simpa [countsComparable] using hboth

/-- Facets of every choice among some records exist exactly if the records are plain under each key. -/
theorem facets_sublists_ok_iff :
    (∀ chosen : List Record, chosen.Sublist records → ∃ found, facets now chosen = .ok found) ↔
    ∀ key, ArePlain now key records := by
  constructor
  · intro h key
    have hvalues : ∀ chosen : List Record, chosen.Sublist records →
        ∃ values, facetValues now key chosen = .ok values ∧ AreRankable values :=
      fun chosen hchosen => facets_ok_iff.1 (h chosen hchosen) key key.mem_all
    constructor
    · intro r hr
      obtain ⟨values, hok, -⟩ := hvalues [r] (List.singleton_sublist.2 hr)
      exact facetValues_ok_iff.1 ⟨values, hok⟩ r List.mem_cons_self
    · -- one record alone shows that its value has an order, and two in their places that their values have one
      have hself : ∀ r ∈ records, HaveOrder now key r r := by
        intro r hr v w hv hw
        obtain ⟨values, hok, hrank⟩ := hvalues [r] (List.singleton_sublist.2 hr)
        rw [hv] at hw
        cases hw
        have hvalue : facetValues now key [r] = .ok [v] := by rw [facetValues_cons, hv]; rfl
        rw [hvalue] at hok
        cases hok
        exact le?_of_rankable_single hrank
      have hpair : records.Pairwise (HaveOrder now key) := by
        rw [List.pairwise_iff_forall_sublist]
        intro r s hpair v w hv hw
        obtain ⟨values, hok, hrank⟩ := hvalues [r, s] hpair
        have hboth : facetValues now key [r, s] = .ok [v, w] := by rw [facetValues_cons, facetValues_cons, hv, hw]; rfl
        rw [hboth] at hok
        cases hok
        exact le?_of_rankable_pair hrank
      have hsymm : Std.Symm (HaveOrder now key) := ⟨fun _ _ => HaveOrder.symm⟩
      exact hpair.forall_of_forall hself
  · intro h chosen hchosen
    exact facets_ok fun key => (h key).of_subset hchosen.subset

end LedgerSearch.Search

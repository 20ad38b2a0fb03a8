import LedgerSearch.Host.App
import LedgerSearch.Proofs.RenderCache
import LedgerSearch.Proofs.Results
import LedgerSearch.Proofs.ScoreBounds
import LedgerSearch.Proofs.TextFields
import LedgerSearch.Proofs.WrittenPayloads

/-!
# Replies with finite numbers

The reply to a search holds numbers of three kinds: those of the records, values counted in facets, which are texts or
fields of the records, and scores, which are finite for records and queries that fit into memory. So over records whose
numbers are finite the numbers of every answered search are finite (`hasFiniteNumbers_response`).
-/

namespace LedgerSearch

theorem Entries.mem_of_mem_ofPairs {κ α : Type} [BEq κ] [LawfulBEq κ] {pairs : List (κ × α)} {p : κ × α}
    (h : p ∈ ofPairs pairs) : p ∈ pairs := by
  have hfold : ∀ entries : Entries κ α,
      p ∈ pairs.foldl (fun entries q => put q.1 q.2 entries) entries → p ∈ entries ∨ p ∈ pairs := by
    clear h
    induction pairs with
    | nil => exact fun entries h => .inl h
    | cons q rest ih =>
      intro entries h
      rcases ih _ h with h | h
      · rcases eq_or_mem_of_mem_put h with rfl | h
        · exact .inr List.mem_cons_self
        · exact .inl h
      · exact .inr (List.mem_cons_of_mem q h)
  exact (hfold [] h).resolve_left List.not_mem_nil

namespace Payload

theorem hasFiniteNumbers_list {items : List Payload} :
    hasFiniteNumbers (.list items) = true ↔ ∀ p ∈ items, p.hasFiniteNumbers = true := all_list

theorem hasFiniteNumbers_object {fields : List (Text × Payload)} :
    hasFiniteNumbers (.object fields) = true ↔ ∀ f ∈ fields, f.2.hasFiniteNumbers = true := by
  rw [hasFiniteNumbers, all_object]
  exact forall₂_congr fun f _ => and_iff_right rfl

theorem hasFiniteNumbers_ofFields {fields : List (String × Payload)} :
    (ofFields fields).hasFiniteNumbers = true ↔ ∀ f ∈ fields, f.2.hasFiniteNumbers = true := by
  rw [ofFields, hasFiniteNumbers_object, List.forall_mem_map]

@[simp] theorem hasFiniteNumbers_null : hasFiniteNumbers .null = true := all_atom _

@[simp] theorem hasFiniteNumbers_text (t : Text) : hasFiniteNumbers (.text t) = true := all_atom _

@[simp] theorem hasFiniteNumbers_int (n : Int) : hasFiniteNumbers (.int n) = true := all_atom _

@[simp] theorem hasFiniteNumbers_bool (b : Bool) : hasFiniteNumbers (.bool b) = true := all_atom _

theorem hasFiniteNumbers_texts (ts : List Text) : hasFiniteNumbers (.list (ts.map .text)) = true := by
  rw [hasFiniteNumbers_list, List.forall_mem_map]
  exact fun t _ => hasFiniteNumbers_text t

theorem hasFiniteNumbers_ofOption_text {α : Type} (f : α → Text) (a : Option α) :
    (ofOption (fun a => .text (f a)) a).hasFiniteNumbers = true := by
  cases a with
  | none => exact hasFiniteNumbers_null
  | some a => exact hasFiniteNumbers_text (f a)

end Payload

/-- Every number of a record is finite, also those in fields that are kept as they came. -/
def Record.HasFiniteNumbers (r : Record) : Prop := (r.dump Instant.writeBrief).hasFiniteNumbers = true

instance (r : Record) : Decidable r.HasFiniteNumbers := inferInstanceAs (Decidable (_ = true))

namespace Record.HasFiniteNumbers

open Payload

variable {r : Record}

theorem fields (h : r.HasFiniteNumbers) : ∀ f ∈ r.dumpFields Instant.writeBrief, f.2.hasFiniteNumbers = true :=
  hasFiniteNumbers_ofFields.1 h

theorem details (h : r.HasFiniteNumbers) :
    ∀ f ∈ r.details.dumpFields Instant.writeBrief, f.2.hasFiniteNumbers = true :=
  (List.forall_mem_append.1 h.fields).2

theorem spoken (h : r.HasFiniteNumbers) : ∀ p ∈ r.details.spoken, p.hasFiniteNumbers = true := by
  have hdetails := h.details
  intro p hp
  cases hd : r.details with
  | person q =>
    rw [hd] at hp hdetails
    simp only [Details.spoken, List.mem_cons, List.not_mem_nil, or_false] at hp
    rcases hp with rfl | rfl
    · exact hdetails ("associated_organization", _) (by simp [Details.dumpFields])
    · exact hdetails ("trade_focus", _) (by simp [Details.dumpFields])
  | organization o =>
    rw [hd] at hp hdetails
    rw [List.mem_singleton.1 hp]
    exact hdetails ("website", _) (by simp [Details.dumpFields])
  | dailyLog l =>
    rw [hd] at hp hdetails
    have hnotes := hdetails ("notes", l.notes.dump) (by simp [Details.dumpFields])
    rw [Notes.dump, hasFiniteNumbers_ofFields] at hnotes
    simp only [Details.spoken, Notes.toList, List.mem_cons, List.not_mem_nil, or_false] at hp
    rcases hp with rfl | rfl | rfl | rfl | rfl
    · exact hdetails ("weather_notes", _) (by simp [Details.dumpFields])
    · exact hnotes ("progress", _) (by simp)
    · exact hnotes ("issues", _) (by simp)
    · exact hnotes ("materials_delivered", _) (by simp)
    · exact hnotes ("additional", _) (by simp)
  | document d | financial f | quickLink q =>
    rw [hd] at hp
    cases hp

theorem codes (h : r.HasFiniteNumbers) : ∀ item ∈ r.details.lines, ∀ p ∈ item.codes, p.hasFiniteNumbers = true := by
  intro item hitem p hp
  cases hd : r.details with
  | financial f =>
    have hdetails := h.details
    rw [hd] at hitem hdetails
    have hlines : Payload.hasFiniteNumbers (.list (f.lineItems.map LineItem.dump)) = true :=
      hdetails ("line_items", _) (by simp [Details.dumpFields])
    rw [hasFiniteNumbers_list, List.forall_mem_map] at hlines
    have hline := hlines item hitem
    rw [LineItem.dump, hasFiniteNumbers_ofFields] at hline
    simp only [LineItem.codes, List.mem_cons, List.not_mem_nil, or_false] at hp
    rcases hp with rfl | rfl | rfl | rfl
    · exact hline ("cost_code", _) (by simp)
    · exact hline ("cost_code_name", _) (by simp)
    · exact hline ("cost_code_category", _) (by simp)
    · exact hline ("cost_code_category_name", _) (by simp)
  | _ =>
    rw [hd] at hitem
    cases hitem

end Record.HasFiniteNumbers

namespace Search

open Outcome Payload

variable {r : Record} {records : List Record} {now : Instant} {key : FacetKey}

theorem mem_of_detailsValue {d : Details} {p : Payload} (hkey : key.isCode = false)
    (h : detailsValue now key d = .ok (some p)) : p ∈ d.spoken ∨ ∃ t, p = .text t := by
  unfold detailsValue at h
  split at h
  case h_5 | h_7 =>
    cases h
    exact .inl (by simp [Details.spoken])
  case h_9 | h_10 => cases hkey
  case h_11 => cases h
  all_goals
    cases h
    exact .inr ⟨_, rfl⟩

theorem mem_of_filled {p q : Payload} (h : filled p = some q) : p = q := by
  unfold filled at h
  split at h <;> cases h
  rfl

/-- What a record is counted under is a text or one of the fields kept as they came. -/
theorem mem_of_facetValue {p : Payload} (hkey : key.isCode = false) (h : facetValue now key r = .ok (some p)) :
    p ∈ r.details.spoken ∨ ∃ t, p = .text t := by
  have hdetails : (detailsValue now key r.details).map (fun value => value.bind filled) = .ok (some p) →
      p ∈ r.details.spoken ∨ ∃ t, p = .text t := by
    intro h
    obtain ⟨value, hvalue, hfilled⟩ := map_eq_ok.1 h
    obtain ⟨q, rfl, hq⟩ := Option.bind_eq_some_iff.1 hfilled
    rw [← mem_of_filled hq]
    exact mem_of_detailsValue hkey hvalue
  have htext : ∀ t, Except.ok (filled (.text t)) = (.ok (some p) : Except Fault _) → ∃ t, p = .text t :=
    fun t h => ⟨t, (mem_of_filled (Except.ok.inj h)).symm⟩
  cases key with
  | entityType =>
    cases h
    exact .inr ⟨_, rfl⟩
  | project | status | client => exact .inr (htext _ h)
  | costCodeCategory | costCode => cases hkey
  | documentType | issuedDate | totalValue | personType | contactOrganization | organizationType | tradeFocus =>
    exact hdetails h

theorem hasFiniteNumbers_countedValue (hr : r.HasFiniteNumbers) {v : Value} (h : countedValue now key r = .ok (some v)) :
    Payload.hasFiniteNumbers (.atom v.atom) = true := by
  cases hkey : key.isCode with
  | true =>
    rw [countedValue_code hkey] at h
    obtain ⟨item, hitem, hcode⟩ := List.mem_map.1 (mem_of_codeValue h).1
    rw [← hcode]
    exact hr.codes item hitem _ (LineItem.code_mem_codes key item)
  | false =>
    obtain ⟨value, hvalue, h⟩ := bind_eq_ok.1 h
    cases value with
    | none => cases h
    | some p =>
      obtain ⟨w, hw, hv⟩ := map_eq_ok.1 h
      cases hv
      rw [← ofPayload_eq_ok hw]
      rcases mem_of_facetValue hkey hvalue with hmem | ⟨t, rfl⟩
      · exact hr.spoken p hmem
      · exact hasFiniteNumbers_text t

theorem hasFiniteNumbers_keyFacets (hrecords : ∀ r ∈ records, r.HasFiniteNumbers) {keys : List FacetKey}
    {found : Entries Text (Entries Value Nat)} (h : keyFacets now records keys = .ok found) :
    ∀ f ∈ found, ∀ c ∈ f.2, Payload.hasFiniteNumbers (.atom c.1.atom) = true := by
  induction keys generalizing found with
  | nil =>
    cases h
    exact List.forall_mem_nil _
  | cons key keys ih =>
    obtain ⟨counted, hcounted, h⟩ := bind_eq_ok.1 h
    obtain ⟨values, hvalues, rfl⟩ := map_eq_ok.1 hcounted
    obtain ⟨more, hmore, h⟩ := bind_eq_ok.1 h
    split at h
    · cases h
      exact ih hmore
    · obtain ⟨ordered, hordered, h⟩ := bind_eq_ok.1 h
      cases h
      refine List.forall_mem_cons.2 ⟨fun c hc => ?_, ih hmore⟩
      unfold orderCounts at hordered
      split at hordered
      · cases hordered
        have hcounts := (Sorting.sortBy_perm _ _ _).mem_iff.1 hc
        obtain ⟨r, hr, hvalue⟩ := exists_of_mem_facetValues hvalues (mem_of_mem_counts hcounts)
        exact hasFiniteNumbers_countedValue (hrecords r hr) hvalue
      · cases hordered

theorem hasFiniteNumbers_facets (hrecords : ∀ r ∈ records, r.HasFiniteNumbers) {found : Entries Text (Entries Value Nat)}
    (h : facets now records = .ok found) : ∀ f ∈ found, ∀ c ∈ f.2, Payload.hasFiniteNumbers (.atom c.1.atom) = true := by
  obtain ⟨byKey, hbyKey, rfl⟩ := map_eq_ok.1 h
  refine List.forall_mem_append.2 ⟨hasFiniteNumbers_keyFacets hrecords hbyKey, List.forall_mem_singleton.2 ?_⟩
  intro c hc
  obtain ⟨g, -, rfl⟩ := List.mem_map.1 hc
  exact hasFiniteNumbers_text g

end Search

namespace Engine

open Search Outcome Host Payload

variable {e : Engine} {now : Instant} {req : Request} {res : Response}

theorem exists_of_mem_scoresOf {query : Text} {records : List Record} {pairs : List (Text × Nat)}
    (h : scoresOf query records = .ok pairs) {p : Text × Nat} (hp : p ∈ pairs) :
    ∃ r ∈ records, score r query = .ok p.2 := by
  induction records generalizing pairs with
  | nil =>
    cases h
    cases hp
  | cons r rest ih =>
    obtain ⟨points, hpoints, h⟩ := bind_eq_ok.1 h
    obtain ⟨more, hmore, h⟩ := bind_eq_ok.1 h
    cases h
    rcases List.mem_cons.1 hp with rfl | hp
    · exact ⟨r, List.mem_cons_self, hpoints⟩
    · obtain ⟨s, hs, hscore⟩ := ih hmore hp
      exact ⟨s, List.mem_cons_of_mem r hs, hscore⟩

/-- What an answered search is made of. -/
theorem exists_isMadeOf_search (h : e.search now req = .ok res) :
    ∃ kept pairs order grouping, (∀ r ∈ kept, r ∈ e.records) ∧ e.IsMadeOf now req kept res pairs order grouping := by
  rw [search_eq] at h
  obtain ⟨kept, hkept, hrespond⟩ := bind_eq_ok.1 h
  obtain ⟨pairs, order, grouping, hmade⟩ := exists_isMadeOf hrespond
  refine ⟨kept, pairs, order, grouping, fun r hr => ?_, hmade⟩
  rw [(keep_eq_ok hkept).1] at hr
  exact (List.mem_filter.1 hr).1

theorem mem_records_of_search (h : e.search now req = .ok res) : ∀ r ∈ res.records, r ∈ e.records := by
  obtain ⟨kept, pairs, order, grouping, hkept, hmade⟩ := exists_isMadeOf_search h
  exact fun r hr => hkept r (hmade.perm.mem_iff.1 hr)

/-- A search and a corpus that fit into memory. -/
structure FitsMemory (e : Engine) (query : Text) : Prop where
  query : query.length < memoryLimit
  lines : ∀ r ∈ e.records, r.lineCount < memoryLimit

instance (e : Engine) (query : Text) : Decidable (e.FitsMemory query) :=
  decidable_of_iff (query.length < memoryLimit ∧ ∀ r ∈ e.records, r.lineCount < memoryLimit)
    ⟨fun h => ⟨h.1, h.2⟩, fun h => ⟨h.query, h.lines⟩⟩

theorem isFinite_scoreIn (h : e.search now req = .ok res) (hfits : e.FitsMemory req.query) (r : Record) :
    (Binary64.ofNat (scoreIn res.scores r)).isFinite = true := by
  obtain ⟨kept, pairs, order, grouping, hkept, hmade⟩ := exists_isMadeOf_search h
  unfold scoreIn
  rw [hmade.scores]
  cases hfind : Entries.find? r.id (Entries.ofPairs pairs) with
  | none => decide +kernel
  | some points =>
    have hmem := Entries.mem_of_mem_ofPairs (Entries.mem_of_find? hfind)
    obtain ⟨s, hs, hscore⟩ := exists_of_mem_scoresOf hmade.scored hmem
    exact isFinite_score hscore hfits.query (hfits.lines s (hkept s hs))

/-- The numbers of the reply to a search over records with finite numbers are finite if the scores are. -/
theorem hasFiniteNumbers_response (hrecords : ∀ r ∈ e.records, r.HasFiniteNumbers) (h : e.search now req = .ok res)
    (hscores : ∀ r ∈ res.records, (Binary64.ofNat (scoreIn res.scores r)).isFinite = true) (id : Text) :
    Payload.hasFiniteNumbers (Payload.ofFields (responseFields res id)) = true := by
  obtain ⟨kept, pairs, order, grouping, hkept, hmade⟩ := exists_isMadeOf_search h
  have hfound : ∀ r ∈ res.records, r.HasFiniteNumbers := fun r hr => hrecords r (mem_records_of_search h r hr)
  have hrecord : Payload.hasFiniteNumbers (.list (res.records.map (scoredRecord res.scores))) = true := by
    rw [hasFiniteNumbers_list, List.forall_mem_map]
    intro r hr
    rw [scoredRecord, hasFiniteNumbers_ofFields, List.forall_mem_append, List.forall_mem_singleton]
    exact ⟨(hfound r hr).fields, hscores r hr⟩
  have hfacets : Payload.hasFiniteNumbers (.object (res.facets.map fun f => (f.1, facetPayload f.2))) = true := by
    rw [hasFiniteNumbers_object, List.forall_mem_map]
    intro f hf
    rw [facetPayload, hasFiniteNumbers_list, List.forall_mem_map]
    intro c hc
    rw [hasFiniteNumbers_ofFields]
    simpa using hasFiniteNumbers_facets hfound hmade.counted f hf c hc
  have hgroups : ∀ groups : List Group, Payload.hasFiniteNumbers (.list (groups.map groupPayload)) = true := by
    intro groups
    rw [hasFiniteNumbers_list, List.forall_mem_map]
    intro g _
    have hids := hasFiniteNumbers_texts (g.items.map Record.id)
    rw [List.map_map] at hids
    rw [groupPayload, hasFiniteNumbers_ofFields]
    simpa using ⟨hasFiniteNumbers_ofOption_text EntityKind.name g.kind, hids⟩
  rw [hasFiniteNumbers_ofFields]
  simp [responseFields, hrecord, hfacets, hgroups]

end Engine
end LedgerSearch

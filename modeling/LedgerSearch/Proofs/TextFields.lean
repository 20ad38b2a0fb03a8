import LedgerSearch.Proofs.CountedValues

/-!
# Fields kept as they came

A record keeps some fields as data has them: those that are searched through beside its texts (`Details.spoken`), and
the cost codes of its lines, which are only counted. The searchable text depends on the former alone
(`isTextual_iff`), the facets of cost codes on the latter alone (`countedValue_code`); every other facet value is a
text.
-/

namespace LedgerSearch

namespace Payload

/-- A payload that holds a text or nothing. -/
def IsTextOrUnfilled (p : Payload) : Prop := p.isFilled = true → p.text?.isSome = true

instance (p : Payload) : Decidable p.IsTextOrUnfilled := inferInstanceAs (Decidable (p.isFilled = true → _))

theorem isTextOrUnfilled_text (t : Text) : (text t).IsTextOrUnfilled := fun _ => rfl

/-- Neither a list nor an object. -/
def isAtom : Payload → Bool
  | .atom _ => true
  | _ => false

theorem isAtom_of_text? {p : Payload} (h : p.text?.isSome = true) : p.isAtom = true := by
  cases p <;> first | rfl | cases h

end Payload

namespace Details

/-- The fields among those searched through that are kept as they came. -/
def spoken : Details → List Payload
  | person p => [p.organization, p.tradeFocus]
  | organization o => [o.website]
  | dailyLog l => l.weatherNotes :: l.notes.toList
  | _ => []

/-- The lines of a financial record. -/
def lines : Details → List LineItem
  | financial f => f.lineItems
  | _ => []

end Details

namespace Search

open Outcome

variable {r : Record} {now : Instant} {key : FacetKey}

theorem spoken_subset_parts (d : Details) : d.spoken ⊆ d.parts := by
  intro p hp
  cases d with
  | document d => cases hp
  | financial f => cases hp
  | person q =>
    simp only [Details.spoken, List.mem_cons, List.not_mem_nil, or_false] at hp
    rcases hp with rfl | rfl <;> simp [Details.parts]
  | organization o =>
    rw [List.mem_singleton.1 hp]
    simp [Details.parts]
  | quickLink q => cases hp
  | dailyLog l => exact List.mem_cons_of_mem _ (List.mem_append_right _ hp)

theorem mem_parts {d : Details} {p : Payload} (h : p ∈ d.parts) : p ∈ d.spoken ∨ ∃ t, p = .text t := by
  cases d with
  | financial f =>
    obtain ⟨item, -, hitem⟩ := List.mem_flatMap.1 h
    simp only [LineItem.parts, List.mem_cons, List.not_mem_nil, or_false] at hitem
    rcases hitem with rfl | rfl | rfl <;> exact .inr ⟨_, rfl⟩
  | dailyLog l =>
    rcases List.mem_cons.1 h with rfl | h
    · exact .inr ⟨_, rfl⟩
    · rcases List.mem_append.1 h with h | h
      · obtain ⟨w, -, rfl⟩ := Option.map_eq_some_iff.1 (Option.mem_toList.1 h)
        exact .inr ⟨_, rfl⟩
      · exact .inl h
  | document d | person q | organization o | quickLink q =>
    simp only [Details.spoken, Details.parts, List.mem_cons, List.not_mem_nil, or_false] at h ⊢
    grind

/-- Of what a record is searched through, only the fields kept as they came may be no texts. -/
theorem isTextual_iff : r.IsTextual ↔ ∀ p ∈ r.details.spoken, p.IsTextOrUnfilled := by
  constructor
  · intro h p hp
    exact h p (List.mem_append_right _ (spoken_subset_parts _ hp))
  · intro h p hp
    rcases List.mem_append.1 hp with hp | hp
    · obtain ⟨t, rfl⟩ : ∃ t, p = .text t := by
        rcases List.mem_append.1 hp with hp | hp
        · simp only [List.mem_cons, List.not_mem_nil, or_false] at hp
          rcases hp with rfl | rfl | rfl | rfl | rfl | rfl <;> exact ⟨_, rfl⟩
        · obtain ⟨m, -, rfl⟩ := List.mem_map.1 hp
          exact ⟨_, rfl⟩
      exact Payload.isTextOrUnfilled_text t
    · rcases mem_parts hp with hp | ⟨t, rfl⟩
      · exact h p hp
      · exact Payload.isTextOrUnfilled_text t

/-- All that a financial record is searched through is text. -/
theorem isTextual_of_financial {f : Financial} (h : r.details = .financial f) : r.IsTextual := by
  apply isTextual_iff.2
  rw [h]
  exact List.forall_mem_nil _

namespace FacetKey

/-- The keys under which cost codes are counted. -/
def codeKeys : List FacetKey := [costCodeCategory, costCode]

def isCode : FacetKey → Bool
  | costCodeCategory | costCode => true
  | _ => false

theorem mem_codeKeys_iff (key : FacetKey) : key ∈ codeKeys ↔ key.isCode = true := by
  cases key <;> decide

end FacetKey

/-- A record is counted under a text or under nothing. -/
def IsTextValue (now : Instant) (key : FacetKey) (r : Record) : Prop :=
  ∃ v, countedValue now key r = .ok v ∧ ∀ w ∈ v, w.text?.isSome = true

theorem Value.text?_eq (v : Value) : v.text? = (Payload.atom v.atom).text? := by
  obtain ⟨a⟩ := v
  cases a <;> rfl

theorem isTextValue_of_facetValue {value : Option Payload} (h : facetValue now key r = .ok value)
    (htext : ∀ p ∈ value, p.text?.isSome = true) : IsTextValue now key r := by
  unfold IsTextValue countedValue
  rw [h, ok_bind]
  cases value with
  | none => exact ⟨none, rfl, fun _ hw => by cases hw⟩
  | some p =>
    have ht := htext p rfl
    cases p with
    | atom a =>
      refine ⟨some ⟨a⟩, rfl, ?_⟩
      rintro w ⟨⟩
      rw [Value.text?_eq, ht]
    | list items => cases ht
    | object fields => cases ht

theorem ArePlain.of_texts {records : List Record} (h : ∀ r ∈ records, IsTextValue now key r) :
    ArePlain now key records := by
  constructor
  · intro r hr
    obtain ⟨v, hv, -⟩ := h r hr
    exact ⟨v, hv⟩
  · intro r hr s hs v w hv hw
    obtain ⟨_, hr, htext⟩ := h r hr
    obtain ⟨_, hs, htext'⟩ := h s hs
    cases hr.symm.trans hv
    cases hs.symm.trans hw
    exact Value.le?_isSome_iff.2 (.inl ⟨htext v rfl, htext' w rfl⟩)

theorem text_of_filled {p q : Payload} (h : p.IsTextOrUnfilled) (hq : q ∈ filled p) : q.text?.isSome = true := by
  unfold filled at hq
  split at hq
  · rename_i hfilled
    cases hq
    exact h hfilled
  · cases hq

theorem detailsValue_text (now : Instant) {d : Details} (h : ∀ p ∈ d.spoken, p.IsTextOrUnfilled)
    (hkey : key.isCode = false) :
    ∃ value, detailsValue now key d = .ok value ∧ ∀ p ∈ value, p.IsTextOrUnfilled := by
  have htext : ∀ t, ∀ p ∈ some (Payload.text t), p.IsTextOrUnfilled := by
    rintro t p ⟨⟩
    exact Payload.isTextOrUnfilled_text t
  unfold detailsValue
  split
  case h_5 q =>
    refine ⟨_, rfl, ?_⟩
    rintro p ⟨⟩
    exact h _ List.mem_cons_self
  case h_7 q =>
    refine ⟨_, rfl, ?_⟩
    rintro p ⟨⟩
    exact h _ (List.mem_cons_of_mem _ List.mem_cons_self)
  case h_9 | h_10 => cases hkey
  case h_11 => exact ⟨none, rfl, fun _ hp => by cases hp⟩
  all_goals exact ⟨_, rfl, htext _⟩

/-- Under every key but those of cost codes a record is counted under a text or under nothing, if what is searched
through is. -/
theorem isTextValue_of_spoken (h : ∀ p ∈ r.details.spoken, p.IsTextOrUnfilled) (hkey : key.isCode = false) :
    IsTextValue now key r := by
  have hhead : ∀ t, ∀ p ∈ filled (Payload.text t), p.text?.isSome = true :=
    fun t p => text_of_filled (Payload.isTextOrUnfilled_text t)
  obtain ⟨value, hvalue, htext⟩ := detailsValue_text now h hkey
  have hfacet : (detailsValue now key r.details).map (fun value => value.bind filled) = .ok (value.bind filled) := by
    rw [hvalue, map_ok]
  have hdetails : ∀ p ∈ value.bind filled, p.text?.isSome = true := by
    intro p hp
    obtain ⟨q, hq, hp⟩ := Option.bind_eq_some_iff.1 hp
    exact text_of_filled (htext q hq) hp
  cases key with
  | entityType =>
    refine isTextValue_of_facetValue rfl ?_
    rintro p ⟨⟩
    rfl
  | project => exact isTextValue_of_facetValue rfl (hhead _)
  | status => exact isTextValue_of_facetValue rfl (hhead _)
  | client => exact isTextValue_of_facetValue rfl (hhead _)
  | costCodeCategory => cases hkey
  | costCode => cases hkey
  | documentType | issuedDate | totalValue | personType | contactOrganization | organizationType | tradeFocus =>
    exact isTextValue_of_facetValue hfacet hdetails

theorem mem_of_mostCommon? {values : List Value} {v : Value} (h : mostCommon? values = some v) : v ∈ values := by
  obtain ⟨c, hc, rfl⟩ := Option.map_eq_some_iff.1 h
  exact mem_of_mem_counts (List.mem_of_find?_eq_some hc)

/-- The value that cost codes are counted under: the most common one of those that are filled. -/
def codeValue (codes : List Payload) : Except Fault (Option Value) :=
  ((codes.filter Payload.isFilled).mapM Value.ofPayload).map mostCommon?

theorem ofPayload_eq_ok {p : Payload} {v : Value} (h : Value.ofPayload p = .ok v) : p = .atom v.atom := by
  cases p with
  | atom a =>
    cases h
    rfl
  | list items => cases h
  | object fields => cases h

theorem ofPayload_ok_iff {p : Payload} : (∃ v, Value.ofPayload p = .ok v) ↔ p.isAtom = true := by
  cases p <;> simp [Value.ofPayload, Payload.isAtom]

theorem codeValue_ok_iff {codes : List Payload} :
    (∃ v, codeValue codes = .ok v) ↔ ∀ p ∈ codes, p.isFilled = true → p.isAtom = true := by
  unfold codeValue
  simp only [map_ok_iff, mapM_ok_iff, List.mem_filter, and_imp, ofPayload_ok_iff]

/-- The value of cost codes is one of those that are filled. -/
theorem mem_of_codeValue {codes : List Payload} {v : Value} (h : codeValue codes = .ok (some v)) :
    .atom v.atom ∈ codes ∧ (Payload.atom v.atom).isFilled = true := by
  obtain ⟨values, hvalues, hcommon⟩ := map_eq_ok.1 h
  obtain ⟨p, hp, hv⟩ := mem_of_mapM hvalues (mem_of_mostCommon? hcommon)
  rw [← ofPayload_eq_ok hv]
  exact List.mem_filter.1 hp

end Search

namespace LineItem

/-- What a line is counted under: the name of its code or of its code's category, or else the code itself. -/
def code (key : Search.FacetKey) (item : LineItem) : Payload :=
  if key = .costCodeCategory then item.costCodeCategoryName.orElse item.costCodeCategory
  else item.costCodeName.orElse item.costCode

/-- The fields of a line that are kept as they came. -/
def codes (item : LineItem) : List Payload :=
  [item.costCode, item.costCodeName, item.costCodeCategory, item.costCodeCategoryName]

theorem code_mem_codes (key : Search.FacetKey) (item : LineItem) : item.code key ∈ item.codes := by
  unfold code Payload.orElse
  split <;> split <;> simp [codes]

end LineItem

namespace Search

open Outcome

variable {r : Record} {now : Instant} {key : FacetKey}

theorem countedValue_of_codes {codes : List Payload}
    (hfacet : facetValue now key r = (mostCommonPayload codes).map fun value => value.bind filled) :
    countedValue now key r = codeValue codes := by
  unfold countedValue
  rw [hfacet, mostCommonPayload]
  cases hvalues : (codes.filter Payload.isFilled).mapM Value.ofPayload with
  | error fault => rw [codeValue, hvalues]; rfl
  | ok values =>
    have hcode : codeValue codes = .ok (mostCommon? values) := by rw [codeValue, hvalues, map_ok]
    rw [hcode, map_ok, map_ok, ok_bind]
    cases hcommon : mostCommon? values with
    | none => rfl
    | some v =>
      rw [hcommon] at hcode
      have hfilled : filled (.atom v.atom) = some (.atom v.atom) := if_pos (mem_of_codeValue hcode).2
      rw [Option.map_some, Option.bind_some, hfilled]
      rfl

theorem facetValue_code (hkey : key.isCode = true) :
    facetValue now key r = (detailsValue now key r.details).map fun value => value.bind filled := by
  cases key <;> first | rfl | cases hkey

/-- Under a key of cost codes a record is counted by those of its lines alone. -/
theorem countedValue_code (hkey : key.isCode = true) :
    countedValue now key r = codeValue (r.details.lines.map (LineItem.code key)) := by
  cases hdetails : r.details with
  | financial f =>
    apply countedValue_of_codes
    rw [facetValue_code hkey, hdetails]
    cases key <;> first | rfl | cases hkey
  | _ =>
    have hnone : facetValue now key r = .ok none := by
      rw [facetValue_code hkey, hdetails]
      cases key <;> first | rfl | cases hkey
    rw [countedValue, hnone]
    rfl

end Search

/-- Every field that a record keeps as it came holds a text or nothing. -/
structure Record.HasTextFields (r : Record) : Prop where
  spoken : ∀ p ∈ r.details.spoken, p.IsTextOrUnfilled
  codes : ∀ item ∈ r.details.lines, ∀ p ∈ item.codes, p.IsTextOrUnfilled

namespace Record.HasTextFields

open Search Outcome

variable {r : Record}

theorem isTextual (h : r.HasTextFields) : r.IsTextual := isTextual_iff.2 h.spoken

theorem isTextValue (h : r.HasTextFields) (now : Instant) (key : FacetKey) : IsTextValue now key r := by
  cases hkey : key.isCode with
  | false => exact isTextValue_of_spoken h.spoken hkey
  | true =>
    have hcodes : ∀ p ∈ r.details.lines.map (LineItem.code key), p.IsTextOrUnfilled := by
      intro p hp
      obtain ⟨item, hitem, rfl⟩ := List.mem_map.1 hp
      exact h.codes item hitem _ (LineItem.code_mem_codes key item)
    obtain ⟨v, hv⟩ := codeValue_ok_iff.2 fun p hp hfilled => Payload.isAtom_of_text? (hcodes p hp hfilled)
    refine ⟨v, by rw [countedValue_code hkey, hv], ?_⟩
    rintro w ⟨⟩
    obtain ⟨hmem, hfilled⟩ := mem_of_codeValue hv
    rw [Value.text?_eq]
    exact hcodes _ hmem hfilled

end Record.HasTextFields
end LedgerSearch

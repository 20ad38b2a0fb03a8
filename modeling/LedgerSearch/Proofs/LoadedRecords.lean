import LedgerSearch.Proofs.SearchFaults
import LedgerSearch.Record.Corpus
import LedgerSearch.Record.Dump

/-!
# What a corpus must hold to be searched

Reading a corpus turns most fields into texts and numbers, but hands some on as they came. A search over the records
relies on these fields: those that are searched through must be texts, and the cost codes that are counted must be
values that have an order. So the entries decide whether every record has a searchable text and every choice of records
has facets (`corpus_ok_iff`).
-/

namespace LedgerSearch

namespace Entry

open Search (FacetKey Value codeValue)
open Outcome

/-- The fields of an entry that are searched through and handed on as they came. -/
def spoken (p : Payload) : List Payload :=
  match kindOf p with
  | .ok .person => [p.field "associatedOrganization", p.field "tradeFocus"]
  | .ok .organization => [p.field "website"]
  | .ok .dailyLog =>
    p.field "weatherNotes" ::
      ["progress", "issues", "materialsDelivered", "additional"].map fun name => (p.field "structuredNotes").field name
  | _ => []

def isObject : Payload → Bool
  | .object _ => true
  | _ => false

/-- The objects in a list; anything else holds none. -/
def objects : Payload → List Payload
  | .list items => items.filter isObject
  | _ => []

/-- The lines of an entry about money. -/
def lines (p : Payload) : List Payload :=
  match kindOf p with
  | .ok (.financial _) => objects (p.field "lineItems")
  | _ => []

/-- What a line is counted under. -/
def code (key : FacetKey) (line : Payload) : Payload :=
  if key = .costCodeCategory then (line.field "costCodeCategoryName").orElse (line.field "costCodeCategory")
  else (line.field "costCodeName").orElse (line.field "costCode")

def codes (key : FacetKey) (p : Payload) : List Payload := (lines p).map (code key)

/-- The value that an entry is counted under, if its codes can be counted. -/
def commonCode? (key : FacetKey) (p : Payload) : Option Value := (codeValue (codes key p)).toOption.join

variable {p : Payload} {r : Record}

theorem record_eq_ok (h : record p = .ok r) :
    ∃ kind updatedAt, kindOf p = .ok kind ∧ details kind updatedAt p = .ok r.details := by
  cases p with
  | atom a => cases h
  | list items => cases h
  | object fields =>
    unfold record at h
    dsimp only at h
    split at h
    · cases h
    · obtain ⟨kind, hkind, h⟩ := bind_eq_ok.1 h
      obtain ⟨tags, -, h⟩ := bind_eq_ok.1 h
      obtain ⟨found, hfound, h⟩ := bind_eq_ok.1 h
      cases h
      exact ⟨kind, _, hkind, hfound⟩

theorem mem_commonCode? {key : FacetKey} {v : Value} :
    v ∈ commonCode? key p ↔ codeValue (codes key p) = .ok (some v) := by
  unfold commonCode?
  cases codeValue (codes key p) <;> simp [Except.toOption]

theorem lineItem_code {line : Payload} {item : LineItem} (h : lineItem line = .ok item) (key : FacetKey) :
    item.code key = code key line := by
  obtain ⟨quantity, -, h⟩ := bind_eq_ok.1 h
  obtain ⟨unitPrice, -, h⟩ := bind_eq_ok.1 h
  obtain ⟨total, -, h⟩ := bind_eq_ok.1 h
  cases h
  rfl

theorem filter_isObject_texts {α : Type} (f : α → Text) (held : List α) :
    (held.map fun a => Payload.text (f a)).filter isObject = [] := by
  rw [List.filter_eq_nil_iff]
  intro q hq
  obtain ⟨a, -, rfl⟩ := List.mem_map.1 hq
  exact Bool.false_ne_true

/-- Only a list holds objects. -/
theorem filter_isObject {held : List Payload} (h : items p = .ok held) : held.filter isObject = objects p := by
  unfold items at h
  split at h
  · rename_i hempty
    cases h
    cases p with
    | list items =>
      cases items with
      | nil => rfl
      | cons item rest => simp [Payload.isFilled] at hempty
    | atom a => rfl
    | object fields => rfl
  · split at h
    · cases h
      rfl
    · cases h
      exact filter_isObject_texts _ _
    · cases h
      exact filter_isObject_texts _ _
    · cases h

theorem code_lineItems {found : List LineItem} (h : lineItems p = .ok found) (key : FacetKey) :
    found.map (LineItem.code key) = (objects p).map (code key) := by
  obtain ⟨held, hheld, h⟩ := bind_eq_ok.1 h
  rw [map_of_mapM h fun line item hline => lineItem_code hline key, ← filter_isObject hheld]
  rfl

/-- A record keeps the fields of its entry that are handed on: those searched through, and the codes of its lines. -/
theorem fields_record (h : record p = .ok r) :
    r.details.spoken = spoken p ∧ ∀ key, r.details.lines.map (LineItem.code key) = codes key p := by
  obtain ⟨kind, updatedAt, hkind, hdetails⟩ := record_eq_ok h
  unfold spoken codes lines
  rw [hkind]
  generalize r.details = found at hdetails
  cases kind with
  | document =>
    cases hdetails
    exact ⟨rfl, fun _ => rfl⟩
  | financial kind =>
    obtain ⟨f, hf, rfl⟩ := map_eq_ok.1 hdetails
    obtain ⟨total, -, hf⟩ := bind_eq_ok.1 hf
    obtain ⟨items, hitems, hf⟩ := bind_eq_ok.1 hf
    cases hf
    exact ⟨rfl, code_lineItems hitems⟩
  | person =>
    obtain ⟨q, hq, rfl⟩ := map_eq_ok.1 hdetails
    obtain ⟨kind, -, hq⟩ := bind_eq_ok.1 hq
    cases hq
    exact ⟨rfl, fun _ => rfl⟩
  | organization =>
    obtain ⟨o, ho, rfl⟩ := map_eq_ok.1 hdetails
    obtain ⟨kind, -, ho⟩ := bind_eq_ok.1 ho
    cases ho
    exact ⟨rfl, fun _ => rfl⟩
  | buildertrend =>
    obtain ⟨q, -, rfl⟩ := map_eq_ok.1 hdetails
    exact ⟨rfl, fun _ => rfl⟩
  | dailyLog =>
    obtain ⟨l, hl, rfl⟩ := map_eq_ok.1 hdetails
    obtain ⟨weather, -, hl⟩ := bind_eq_ok.1 hl
    obtain ⟨attachments, -, hl⟩ := bind_eq_ok.1 hl
    cases hl
    exact ⟨rfl, fun _ => rfl⟩

end Entry

namespace Corpus

open Search
open Outcome

variable {items : List Payload} {corpus : Corpus}

/-- The entries that become records. -/
def kept (items : List Payload) : List Payload := items.filter fun p => (Entry.record p).toOption.isSome

theorem mem_kept {p : Payload} : p ∈ kept items ↔ p ∈ items ∧ ∃ r, Entry.record p = .ok r := by
  rw [kept, List.mem_filter]
  cases Entry.record p <;> simp [Except.toOption]

theorem records_ofEntries {index : Nat} (h : ofEntries index items = .ok corpus) :
    corpus.records = items.filterMap fun p => (Entry.record p).toOption := by
  induction items generalizing index corpus with
  | nil =>
    cases h
    rfl
  | cons p rest ih =>
    rw [ofEntries] at h
    split at h
    · rename_i r hr
      obtain ⟨more, hmore, rfl⟩ := map_eq_ok.1 h
      rw [List.filterMap_cons, hr, ih hmore]
      rfl
    · cases h
    · rename_i fault hne hfault
      obtain ⟨more, hmore, rfl⟩ := map_eq_ok.1 h
      rw [List.filterMap_cons, hfault, ih hmore]
      rfl

theorem mem_records (h : ofPayload (.list items) = .ok corpus) {r : Record} :
    r ∈ corpus.records ↔ ∃ p ∈ kept items, Entry.record p = .ok r := by
  rw [records_ofEntries h, List.mem_filterMap]
  constructor
  · rintro ⟨p, hp, hr⟩
    have hrecord : Entry.record p = .ok r := by
      cases hread : Entry.record p <;> simp_all [Except.toOption]
    exact ⟨p, mem_kept.2 ⟨hp, r, hrecord⟩, hrecord⟩
  · rintro ⟨p, hp, hr⟩
    exact ⟨p, (mem_kept.1 hp).1, by rw [hr]; rfl⟩

/-- What entries must hold for their records to be searched: texts in the fields searched through, and cost codes that
can be counted and have an order among all entries. -/
structure AreSearchable (entries : List Payload) : Prop where
  texts : ∀ p ∈ entries, ∀ field ∈ Entry.spoken p, field.IsTextOrUnfilled
  countable : ∀ key ∈ FacetKey.codeKeys, ∀ p ∈ entries, ∀ code ∈ Entry.codes key p,
    code.isFilled = true → code.isAtom = true
  ordered : ∀ key ∈ FacetKey.codeKeys, ∀ p ∈ entries, ∀ q ∈ entries, ∀ v ∈ Entry.commonCode? key p,
    ∀ w ∈ Entry.commonCode? key q, (Value.le? v w).isSome = true

instance (entries : List Payload) : Decidable (AreSearchable entries) :=
  decidable_of_iff (_ ∧ _ ∧ _) ⟨fun h => ⟨h.1, h.2.1, h.2.2⟩, fun h => ⟨h.texts, h.countable, h.ordered⟩⟩

theorem haystacks_ok_iff (h : ofPayload (.list items) = .ok corpus) :
    (∀ r ∈ corpus.records, ∃ text, haystack r = .ok text) ↔
      ∀ p ∈ kept items, ∀ field ∈ Entry.spoken p, field.IsTextOrUnfilled := by
  simp only [haystack_ok_iff, isTextual_iff]
  constructor
  · intro htexts p hp
    obtain ⟨-, r, hr⟩ := mem_kept.1 hp
    rw [← (Entry.fields_record hr).1]
    exact htexts r ((mem_records h).2 ⟨p, hp, hr⟩)
  · intro htexts r hmem
    obtain ⟨p, hp, hr⟩ := (mem_records h).1 hmem
    rw [(Entry.fields_record hr).1]
    exact htexts p hp

theorem countedValue_record {p : Payload} {r : Record} (hr : Entry.record p = .ok r) {key : FacetKey}
    (hkey : key ∈ FacetKey.codeKeys) (now : Instant) : countedValue now key r = codeValue (Entry.codes key p) := by
  rw [countedValue_code ((FacetKey.mem_codeKeys_iff key).1 hkey), (Entry.fields_record hr).2]

theorem arePlain_code_iff (h : ofPayload (.list items) = .ok corpus) {key : FacetKey} (hkey : key ∈ FacetKey.codeKeys)
    (now : Instant) : ArePlain now key corpus.records ↔
      (∀ p ∈ kept items, ∀ code ∈ Entry.codes key p, code.isFilled = true → code.isAtom = true) ∧
      ∀ p ∈ kept items, ∀ q ∈ kept items, ∀ v ∈ Entry.commonCode? key p, ∀ w ∈ Entry.commonCode? key q,
        (Value.le? v w).isSome = true := by
  constructor
  · intro hplain
    constructor
    · intro p hp
      obtain ⟨-, r, hr⟩ := mem_kept.1 hp
      rw [← codeValue_ok_iff, ← countedValue_record hr hkey now]
      exact hplain.counted r ((mem_records h).2 ⟨p, hp, hr⟩)
    · intro p hp q hq v hv w hw
      obtain ⟨-, r, hr⟩ := mem_kept.1 hp
      obtain ⟨-, s, hs⟩ := mem_kept.1 hq
      rw [Entry.mem_commonCode?, ← countedValue_record hr hkey now] at hv
      rw [Entry.mem_commonCode?, ← countedValue_record hs hkey now] at hw
      exact hplain.ordered r ((mem_records h).2 ⟨p, hp, hr⟩) s ((mem_records h).2 ⟨q, hq, hs⟩) v w hv hw
  · rintro ⟨hcounted, hordered⟩
    constructor
    · intro r hmem
      obtain ⟨p, hp, hr⟩ := (mem_records h).1 hmem
      rw [countedValue_record hr hkey, codeValue_ok_iff]
      exact hcounted p hp
    · intro r hmem s hmem' v w hv hw
      obtain ⟨p, hp, hr⟩ := (mem_records h).1 hmem
      obtain ⟨q, hq, hs⟩ := (mem_records h).1 hmem'
      rw [countedValue_record hr hkey, ← Entry.mem_commonCode?] at hv
      rw [countedValue_record hs hkey, ← Entry.mem_commonCode?] at hw
      exact hordered p hp q hq v hv w hw

theorem areReadable_iff (h : ofPayload (.list items) = .ok corpus) (now : Instant) :
    Engine.AreReadable now corpus.records ↔ AreSearchable (kept items) := by
  constructor
  · intro hreadable
    have hcodes : ∀ key ∈ FacetKey.codeKeys, _ := fun key hkey => (arePlain_code_iff h hkey now).1 (hreadable.plain key)
    exact ⟨(haystacks_ok_iff h).1 fun r hr => haystack_ok (hreadable.texts r hr), fun key hkey => (hcodes key hkey).1,
      fun key hkey => (hcodes key hkey).2⟩
  · intro hsearchable
    have htexts : ∀ r ∈ corpus.records, r.IsTextual :=
      fun r hr => haystack_ok_iff.1 ((haystacks_ok_iff h).2 hsearchable.texts r hr)
    refine ⟨htexts, fun key => ?_⟩
    by_cases hkey : key ∈ FacetKey.codeKeys
    · exact (arePlain_code_iff h hkey now).2 ⟨hsearchable.countable key hkey, hsearchable.ordered key hkey⟩
    · rw [FacetKey.mem_codeKeys_iff, Bool.not_eq_true] at hkey
      exact .of_texts fun r hr => isTextValue_of_spoken (isTextual_iff.1 (htexts r hr)) hkey

/-- Every loaded record has a searchable text, every choice of them has facets and no field of theirs stops a search,
exactly if the entries hold texts and cost codes where the loader hands fields on as they came. -/
theorem corpus_ok_iff (h : ofPayload (.list items) = .ok corpus) :
    ((∀ r ∈ corpus.records, ∃ text, haystack r = .ok text) ∧
      (∀ now, ∀ chosen : List Record, chosen.Sublist corpus.records → ∃ found, facets now chosen = .ok found) ∧
      ∀ (e : Engine) (now : Instant) (req : Engine.Request), e.records = corpus.records → req.IsValid →
        FailsOnlyAs .undefinedProximity (e.search now req)) ↔
    AreSearchable (kept items) := by
  constructor
  · rintro ⟨htexts, hfacets, -⟩
    exact (areReadable_iff h Instant.epoch).1
      ⟨fun r hr => haystack_ok_iff.1 (htexts r hr), facets_sublists_ok_iff.1 (hfacets Instant.epoch)⟩
  · intro hsearchable
    have hreadable : ∀ now, Engine.AreReadable now corpus.records := fun now => (areReadable_iff h now).2 hsearchable
    refine ⟨fun r hr => haystack_ok ((hreadable Instant.epoch).texts r hr),
      fun now => facets_sublists_ok_iff.2 (hreadable now).plain, fun e now req hrecords hreq => ?_⟩
    apply Engine.failsOnlyAs_search _ hreq
    rw [hrecords]
    exact hreadable now

/-- An entry with an identifier and a kind. -/
def sampleEntry (id kind : String) (fields : List (String × Payload)) : Payload :=
  Payload.ofFields ([("id", .text id.toText), ("entityType", .text kind.toText)] ++ fields)

/-- A person of an organization, and a bill with a line under a code and one under none. -/
def sampleEntries : List Payload :=
  [sampleEntry "1" "Person" [("associatedOrganization", .text "Oak Doors".toText)],
  sampleEntry "2" "Bill" [("lineItems", .list [Payload.ofFields [("costCode", .int 5)], Payload.ofFields []])],
  .text "no entry".toText]

theorem corpus_ok_iff_sampleEntries : ∃ corpus, ofPayload (.list sampleEntries) = .ok corpus ∧
    corpus.records.map Record.id = ["1".toText, "2".toText] ∧
    (∀ r ∈ corpus.records, ∃ text, haystack r = .ok text) ∧
    (∀ now, ∀ chosen : List Record, chosen.Sublist corpus.records → ∃ found, facets now chosen = .ok found) ∧
    ∀ (e : Engine) (now : Instant) (req : Engine.Request), e.records = corpus.records → req.IsValid →
      FailsOnlyAs .undefinedProximity (e.search now req) := by
  have hids : (ofPayload (.list sampleEntries)).toOption.map (fun corpus => corpus.records.map Record.id) =
      some ["1".toText, "2".toText] := by decide +kernel
  cases h : ofPayload (.list sampleEntries) with
  | error fault =>
    rw [h] at hids
    cases hids
  | ok corpus =>
    rw [h] at hids
    exact ⟨corpus, rfl, Option.some.inj hids, (corpus_ok_iff h).2 (by decide +kernel)⟩

def numberedPerson : Payload := sampleEntry "1" "Person" [("associatedOrganization", .int 5)]

/-- A person whose organization is a number is kept, and has no searchable text. -/
theorem haystack_numberedPerson : ∃ corpus, ofPayload (.list [numberedPerson]) = .ok corpus ∧
    corpus.records.map (fun r => (haystack r).toOption) = [none] := by
  have htexts : (ofPayload (.list [numberedPerson])).toOption.map
      (fun corpus => corpus.records.map fun r => (haystack r).toOption) = some [none] := by decide +kernel
  cases h : ofPayload (.list [numberedPerson]) with
  | error fault =>
    rw [h] at htexts
    cases htexts
  | ok corpus =>
    rw [h] at htexts
    exact ⟨corpus, rfl, Option.some.inj htexts⟩

end Corpus
end LedgerSearch

import LedgerSearch.Calendar.Printer
import LedgerSearch.Proofs.GroupedRanges
import LedgerSearch.Proofs.LoadedRecords

/-!
# The shape of loaded records

Whatever stands in the fields of an entry, a record that is read from it has the shape of its kind: a filled
identifier, texts, numbers, atoms and lists where they belong, times with a known offset, and flags for exactly the
fields that have one by default. The shape is read off the record as it is written out, field by field
(`shape_record`), so that nothing in it rests on how a record is kept.
-/

namespace LedgerSearch

/-- A time that exists, with a known offset of less than a day. -/
structure Stamp.IsAware (s : Stamp) : Prop where
  offset : s.offset.isSome = true
  inRange : s.hasOffsetInRange = true
  date : s.date.isValid = true
  clock : s.clock.isValid = true

namespace Payload

/-- What is asked of a payload. -/
abbrev Shape := Payload → Prop

namespace Shape

def anything : Shape := fun _ => True

def text : Shape := fun p => ∃ t, p = .text t

def filledText : Shape := fun p => ∃ t, t ≠ [] ∧ p = .text t

def exactly (t : Text) : Shape := fun p => p = .text t

/-- One of some texts. -/
def word (words : List String) : Shape := fun p => ∃ w ∈ words, p = .text w.toText

def number : Shape := fun p => ∃ x, p = .real x

/-- A text, a number, a truth value or null. -/
def atom : Shape := fun p => ∃ a, p = .atom a

/-- A time that is written with its offset. -/
def time : Shape := fun p => ∃ s : Stamp, s.IsAware ∧ p = .text s.write

def orNull (s : Shape) : Shape := fun p => p = null ∨ s p

def listOf (s : Shape) : Shape := fun p => ∃ items, p = .list items ∧ ∀ item ∈ items, s item

def objectOf (s : Shape) : Shape := fun p => ∃ fields, p = .object fields ∧ ∀ f ∈ fields, s f.2

/-- A field has a name and a shape. -/
def IsShaped (s : String × Shape) (f : String × Payload) : Prop := f.1 = s.1 ∧ s.2 f.2

/-- An object with fields of some names and shapes in order, and no others. -/
def fields (shapes : List (String × Shape)) : Shape := fun p =>
  ∃ fields, p = ofFields fields ∧ List.Forall₂ IsShaped shapes fields

/-- A flag for each field that has one by default, in order. -/
def flags (defaults : FieldFlags) : Shape := fun p =>
  ∃ fields, p = .object fields ∧ Entries.keys fields = Entries.keys defaults ∧
    ∀ f ∈ fields, word ["monetary", "non-monetary"] f.2

variable {s : Shape}

theorem text_text (t : Text) : text (.text t) := ⟨t, rfl⟩

theorem number_real (x : Binary64) : number (.real x) := ⟨x, rfl⟩

theorem texts (ts : List Text) : listOf text (.list (ts.map .text)) :=
  ⟨_, rfl, List.forall_mem_map.2 fun t _ => text_text t⟩

theorem orNull_ofOption {α : Type} {f : α → Payload} {o : Option α} (h : ∀ a ∈ o, s (f a)) :
    orNull s (ofOption f o) := by
  cases o with
  | none => exact .inl rfl
  | some a => exact .inr (h a rfl)

theorem flags_dump {defaults flags : FieldFlags} (h : Entries.keys flags = Entries.keys defaults) :
    Shape.flags defaults flags.dump := by
  refine ⟨_, rfl, ?_, List.forall_mem_map.2 fun f _ => ?_⟩
  · rw [← h, Entries.keys, List.map_map]
    rfl
  · cases f.2 with
    | monetary => exact ⟨_, List.mem_cons_self, rfl⟩
    | plain => exact ⟨_, List.mem_cons_of_mem _ List.mem_cons_self, rfl⟩

end Shape
end Payload

open Payload (Shape)

def LineItem.shape : Shape := .fields [("line_item_id", .text), ("title", .text), ("description", .text),
  ("quantity", .number), ("unit_of_measure", .text), ("unit_price", .number), ("total", .number),
  ("item_type", .word ["Material", "Labor", "Subcontractor", "Other", "Equipment"]), ("cost_code", .anything),
  ("cost_code_name", .anything), ("cost_code_category", .anything), ("cost_code_category_name", .anything),
  ("field_metadata", .flags FieldFlags.lineDefaults)]

def Weather.shape : Shape := .fields [("description", .text), ("temperature_current", .orNull .number),
  ("temperature_low", .orNull .number), ("temperature_unit", .text), ("wind_speed", .orNull .number),
  ("wind_unit", .text), ("humidity", .orNull .number), ("precipitation_total", .orNull .number),
  ("precipitation_unit", .text)]

def Notes.shape : Shape := .fields [("progress", .anything), ("issues", .anything), ("materials_delivered", .anything),
  ("additional", .anything)]

/-- The fields that only records of some kinds have; those of the financial kinds have the same. -/
def Details.shapes : EntityKind → List (String × Shape)
  | .document => [("document_type", .text), ("author", .text)]
  | .financial _ => [("total_value", .number), ("issued_date", .time), ("due_date", .orNull .time),
    ("line_items", .listOf LineItem.shape), ("field_metadata", .flags FieldFlags.recordDefaults)]
  | .person => [("person_type", .word ["Client", "Contact"]), ("job_title", .text),
    ("associated_organization", .anything), ("email", .text), ("phone", .text), ("location", .text),
    ("trade_focus", .anything)]
  | .organization => [("organization_type", .word ["Subcontractor", "Vendor"]), ("trade_focus", .text),
    ("service_area", .text), ("primary_contact", .text), ("phone", .text), ("email", .text), ("website", .anything)]
  | .buildertrend => [("path", .text), ("description", .text), ("icon", .text), ("url", .text),
    ("trigger_queries", .listOf .text)]
  | .dailyLog => [("log_date", .orNull .time), ("author", .text), ("weather", .orNull Weather.shape),
    ("weather_notes", .anything), ("notes", Notes.shape), ("attachments", .listOf .text)]

/-- The names of the kinds of financial records. -/
def financialNames : List String := ["ClientInvoice", "PurchaseOrder", "Bill", "Receipt", "Payment"]

/-- All fields of a record of a kind. -/
def Record.shape (kind : EntityKind) : Shape := .fields ([("id", .filledText), ("title", .text), ("summary", .text),
  ("project", .text), ("client", .text), ("status", .text), ("tags", .listOf .text), ("metadata", .objectOf .atom),
  ("updated_at", .time), ("created_at", .orNull .time), ("entity_type", .exactly kind.name)] ++
    Details.shapes kind)

/-- The time of an instant, whose offset is known. -/
def Instant.stamp (i : Instant) : Stamp := ⟨i.date, i.clock, some i.offset⟩

namespace Payload.Shape

theorem time_write {i : Instant} (h : i.stamp.IsAware) : time (.text i.write) := ⟨i.stamp, h, rfl⟩

theorem word_lineItemKind (kind : LineItemKind) :
    word ["Material", "Labor", "Subcontractor", "Other", "Equipment"] (.text kind.name) := by
  cases kind <;> exact ⟨_, by decide, rfl⟩

theorem word_personKind (kind : PersonKind) : word ["Client", "Contact"] (.text kind.name) := by
  cases kind <;> exact ⟨_, by decide, rfl⟩

theorem word_organizationKind (kind : OrganizationKind) : word ["Subcontractor", "Vendor"] (.text kind.name) := by
  cases kind <;> exact ⟨_, by decide, rfl⟩

theorem shape_weather (w : Weather) : Weather.shape w.dump := by
  have hnumbers : ∀ o : Option Binary64, orNull number (ofOption .real o) :=
    fun o => orNull_ofOption fun x _ => number_real x
  refine ⟨_, rfl, ?_⟩
  simp [IsShaped, text_text, hnumbers]

theorem shape_notes (n : Notes) : Notes.shape n.dump := by
  refine ⟨_, rfl, ?_⟩
  simp [IsShaped, anything]

end Payload.Shape

namespace Binary64

theorem positional_ne_nil (digits : Text) (point : Int) : positional digits point ≠ [] := by
  unfold positional
  split
  · simp [String.toText]
  · dsimp only
    split <;> simp [String.toText]

theorem scientific_ne_nil (digits : Text) (exponent : Int) : scientific digits exponent ≠ [] := by
  refine List.append_ne_nil_of_left_ne_nil (List.append_ne_nil_of_right_ne_nil _ ?_) _
  split <;> decide

theorem writeUnits_ne_nil (units : Nat) : writeUnits units ≠ [] := by
  unfold writeUnits
  split
  · decide
  · dsimp only
    split
    · exact positional_ne_nil _ _
    · exact scientific_ne_nil _ _

theorem write_ne_nil (x : Binary64) : x.write ≠ [] := by
  cases x with
  | nan => decide
  | infinite s => cases s <;> decide
  | finite s u =>
    cases s with
    | true => exact List.cons_ne_nil _ _
    | false => exact writeUnits_ne_nil u

end Binary64

namespace Payload

/-- What is filled stands for a text that is. -/
theorem spell_ne_nil {p : Payload} (h : p.isFilled = true) : p.spell ≠ [] := by
  cases p with
  | list items => simp [spell, literal, String.toText]
  | object fields => simp [spell, literal, String.toText]
  | atom a =>
    cases a with
    | null => cases h
    | bool b => cases b <;> decide
    | int n =>
      change Text.ofInt n ≠ []
      unfold Text.ofInt
      split
      · exact List.cons_ne_nil _ _
      · exact Query.ofNat_ne_nil _
    | real x => exact Binary64.write_ne_nil x
    | text t =>
      cases t with
      | nil => cases h
      | cons c t => exact List.cons_ne_nil c t

end Payload

namespace Entry

open Outcome
open Payload (ofOption)
open Payload.Shape

variable {p : Payload} {r : Record} {i : Instant}

theorem isAware_epoch : Instant.epoch.stamp.IsAware := ⟨rfl, by decide, by decide, by decide⟩

theorem isAware_of_instant? (h : instant? p = some i) : i.stamp.IsAware := by
  unfold instant? at h
  split at h
  · cases h
  · cases h
  · obtain ⟨s, hs, rfl⟩ := Option.map_eq_some_iff.1 h
    obtain ⟨-, hvalid⟩ := Option.filter_eq_some_iff.1 hs
    simp only [Bool.and_eq_true] at hvalid
    obtain ⟨⟨hrange, hdate⟩, hclock⟩ := hvalid
    exact ⟨rfl, hrange, hdate, hclock⟩

theorem isAware_getD {fallback : Instant} (hfallback : fallback.stamp.IsAware) (p : Payload) :
    ((instant? p).getD fallback).stamp.IsAware := by
  cases h : instant? p with
  | none => exact hfallback
  | some i => exact isAware_of_instant? h

theorem orNull_instant? (p : Payload) : orNull time (ofOption (fun i => .text (Instant.write i)) (instant? p)) :=
  orNull_ofOption fun _ h => time_write (isAware_of_instant? h)

theorem keys_setFlag (names : Entries Text Text) (flags : FieldFlags) (entry : Text × Payload) :
    Entries.keys (setFlag names flags entry) = Entries.keys flags := by
  unfold setFlag
  dsimp only
  split
  · split
    case isTrue hknown =>
      obtain ⟨old, hold⟩ := Option.isSome_iff_exists.1 hknown
      exact Entries.keys_put_of_find? _ hold
    case isFalse => rfl
  · rfl

/-- No flag is added to the default ones, and none is lost. -/
theorem keys_flags (names : Entries Text Text) (defaults : FieldFlags) (p : Payload) :
    Entries.keys (flags names defaults p) = Entries.keys defaults := by
  unfold flags
  induction p.fields generalizing defaults with
  | nil => rfl
  | cons entry rest ih => rw [List.foldl_cons, ih, keys_setFlag]

theorem shape_lineItem {item : LineItem} (h : lineItem p = .ok item) : LineItem.shape item.dump := by
  obtain ⟨quantity, -, h⟩ := bind_eq_ok.1 h
  obtain ⟨unitPrice, -, h⟩ := bind_eq_ok.1 h
  obtain ⟨total, -, h⟩ := bind_eq_ok.1 h
  cases h
  have hflags := flags_dump (keys_flags lineFieldNames FieldFlags.lineDefaults (p.field "fieldMetadata"))
  refine ⟨_, rfl, ?_⟩
  simp [IsShaped, text_text, number_real, anything, word_lineItemKind, hflags]

theorem shape_lineItems {found : List LineItem} (h : lineItems p = .ok found) :
    listOf LineItem.shape (.list (found.map LineItem.dump)) := by
  obtain ⟨held, -, hheld⟩ := bind_eq_ok.1 h
  refine ⟨_, rfl, List.forall_mem_map.2 fun item hitem => ?_⟩
  obtain ⟨line, -, hline⟩ := mem_of_mapM hheld hitem
  exact shape_lineItem hline

/-- The fields that depend on the kind have their shapes. -/
theorem shape_details {kind : EntityKind} {updatedAt : Instant} {d : Details} (hupdated : updatedAt.stamp.IsAware)
    (h : details kind updatedAt p = .ok d) :
    List.Forall₂ IsShaped (Details.shapes kind) (d.dumpFields Instant.write) := by
  cases kind with
  | document =>
    cases h
    simp [Details.shapes, Details.dumpFields, IsShaped, text_text]
  | financial kind =>
    obtain ⟨f, hf, rfl⟩ := map_eq_ok.1 h
    obtain ⟨total, -, hf⟩ := bind_eq_ok.1 hf
    obtain ⟨found, hfound, hf⟩ := bind_eq_ok.1 hf
    cases hf
    have hissued := time_write (isAware_getD hupdated (p.field "issuedDate"))
    have hflags := flags_dump (keys_flags recordFieldNames FieldFlags.recordDefaults (p.field "fieldMetadata"))
    simp [Details.shapes, Details.dumpFields, IsShaped, number_real, hissued, orNull_instant?, shape_lineItems hfound,
      hflags]
  | person =>
    obtain ⟨q, -, rfl⟩ := map_eq_ok.1 h
    simp [Details.shapes, Details.dumpFields, IsShaped, text_text, anything, word_personKind]
  | organization =>
    obtain ⟨o, -, rfl⟩ := map_eq_ok.1 h
    simp [Details.shapes, Details.dumpFields, IsShaped, text_text, anything, word_organizationKind]
  | buildertrend =>
    obtain ⟨q, -, rfl⟩ := map_eq_ok.1 h
    simp [Details.shapes, Details.dumpFields, IsShaped, text_text, texts]
  | dailyLog =>
    obtain ⟨l, hl, rfl⟩ := map_eq_ok.1 h
    have hdate : orNull time (ofOption (fun i => .text (Instant.write i)) l.logDate) := by
      obtain ⟨weather, -, hl⟩ := bind_eq_ok.1 hl
      obtain ⟨attachments, -, hl⟩ := bind_eq_ok.1 hl
      cases hl
      exact orNull_instant? _
    have hweather : orNull Weather.shape (ofOption Weather.dump l.weather) :=
      orNull_ofOption fun w _ => shape_weather w
    simp [Details.shapes, Details.dumpFields, IsShaped, text_text, anything, hdate, hweather, shape_notes, texts]

theorem kind_of_details {kind : EntityKind} {updatedAt : Instant} (h : details kind updatedAt p = .ok r.details) :
    r.kind = kind := by
  unfold Record.kind
  generalize r.details = d at h
  cases kind with
  | document =>
    cases h
    rfl
  | financial kind =>
    obtain ⟨f, hf, rfl⟩ := map_eq_ok.1 h
    obtain ⟨total, -, hf⟩ := bind_eq_ok.1 hf
    obtain ⟨found, -, hf⟩ := bind_eq_ok.1 hf
    cases hf
    rfl
  | person =>
    obtain ⟨q, -, rfl⟩ := map_eq_ok.1 h
    rfl
  | organization =>
    obtain ⟨o, -, rfl⟩ := map_eq_ok.1 h
    rfl
  | buildertrend =>
    obtain ⟨q, -, rfl⟩ := map_eq_ok.1 h
    rfl
  | dailyLog =>
    obtain ⟨l, -, rfl⟩ := map_eq_ok.1 h
    rfl

/-- The head of a record that is read from an entry, with details of the kind that the entry names. -/
structure IsReadFrom (p : Payload) (r : Record) : Prop where
  filled : (p.field "id").isFilled = true
  id : r.id = (p.field "id").spell
  kind : kindOf p = .ok r.kind
  updatedAt : r.updatedAt = (instant? (p.field "updatedAt")).getD Instant.epoch
  createdAt : r.createdAt = instant? (p.field "createdAt")
  details : details r.kind r.updatedAt p = .ok r.details

theorem isReadFrom_of_record (h : record p = .ok r) : IsReadFrom p r := by
  cases p with
  | atom a => cases h
  | list items => cases h
  | object fields =>
    unfold record at h
    dsimp only at h
    split at h
    · cases h
    · rename_i hfilled
      obtain ⟨kind, hkind, h⟩ := bind_eq_ok.1 h
      obtain ⟨tags, -, h⟩ := bind_eq_ok.1 h
      obtain ⟨found, hfound, h⟩ := bind_eq_ok.1 h
      have hsame : r.kind = kind := by
        cases h
        exact kind_of_details hfound
      cases h
      exact ⟨by simpa using hfilled, rfl, hkind.trans (congrArg Except.ok hsame.symm), rfl, rfl,
        (congrArg (details · _ _) hsame).trans hfound⟩

/-- A record that is read from an entry has the shape of its kind. -/
theorem shape_record (h : record p = .ok r) : Record.shape r.kind (r.dump Instant.write) := by
  have hread := isReadFrom_of_record h
  have hid : filledText (.text r.id) := ⟨r.id, hread.id ▸ Payload.spell_ne_nil hread.filled, rfl⟩
  have hmetadata : objectOf atom (.object (r.metadata.map fun m => (m.1, .atom m.2))) :=
    ⟨_, rfl, List.forall_mem_map.2 fun m _ => ⟨m.2, rfl⟩⟩
  have hupdated : r.updatedAt.stamp.IsAware := hread.updatedAt ▸ isAware_getD isAware_epoch _
  have hcreated : orNull time (ofOption (fun i => .text (Instant.write i)) r.createdAt) :=
    hread.createdAt ▸ orNull_instant? _
  refine ⟨_, rfl, List.rel_append ?_ (shape_details hupdated hread.details)⟩
  simp [IsShaped, text_text, texts, exactly, hid, hmetadata, time_write hupdated, hcreated]

end Entry

theorem isFinancial_iff_name (kind : EntityKind) :
    kind.isFinancial = true ↔ kind.name ∈ financialNames.map String.toText := by
  rcases kind with _ | ⟨⟨⟩⟩ | _ | _ | _ | _ <;> decide

namespace Corpus

variable {p : Payload} {corpus : Corpus}

/-- The entries of a payload; only a list has some. -/
def entries : Payload → List Payload
  | .list items => items
  | _ => []

theorem records_ofPayload (h : ofPayload p = .ok corpus) :
    corpus.records = (entries p).filterMap fun e => (Entry.record e).toOption := by
  cases p with
  | list items => exact records_ofEntries h
  | atom a =>
    cases h
    rfl
  | object fields =>
    cases h
    rfl

/-- What is read off the records agrees with what is read off the entries that became records. -/
theorem map_records {α : Type} {g : Record → α} {g' : Payload → α} (h : ofPayload p = .ok corpus)
    (hg : ∀ e r, Entry.record e = .ok r → g r = g' e) : corpus.records.map g = (kept (entries p)).map g' := by
  rw [records_ofPayload h, kept]
  induction entries p with
  | nil => rfl
  | cons e rest ih =>
    cases hread : Entry.record e with
    | ok r => simpa [hread, Except.toOption, hg e r hread] using ih
    | error fault => simpa [hread, Except.toOption] using ih

/-- The records of a payload are those of its entries in order, each of the kind that its entry names and with the
shape of that kind; it has the details of a financial record exactly if its kind is one of the five financial ones. -/
theorem records_well_formed (h : ofPayload p = .ok corpus) :
    corpus.records.map Record.id = (kept (entries p)).map (fun e => (e.field "id").spell) ∧
    corpus.records.map (fun r => .ok r.kind) = (kept (entries p)).map Entry.kindOf ∧
    ∀ r ∈ corpus.records, Record.shape r.kind (r.dump Instant.write) ∧
      (r.financial?.isSome = true ↔ r.kind.name ∈ financialNames.map String.toText) := by
  refine ⟨map_records h fun e r hr => (Entry.isReadFrom_of_record hr).id,
    map_records h fun e r hr => (Entry.isReadFrom_of_record hr).kind.symm, fun r hmem => ⟨?_, ?_⟩⟩
  · rw [records_ofPayload h, List.mem_filterMap] at hmem
    obtain ⟨e, -, hr⟩ := hmem
    exact Entry.shape_record (Outcome.eq_ok_of_toOption hr)
  · rw [← r.isFinancial_kind, isFinancial_iff_name]

/-- A bill with a number for its identifier, a time without an offset and flags of other fields, and no bill at all. -/
def looseEntries : List Payload :=
  [Payload.ofFields [("id", .int 7), ("entityType", .text "Bill".toText), ("totalValue", .text "many".toText),
    ("updatedAt", .text "2024-05-01T10:00".toText), ("tags", .list [.int 1, .null]),
    ("fieldMetadata", Payload.ofFields [("color", .text "monetary".toText), ("title", .text "monetary".toText)]),
    ("lineItems", .list [Payload.ofFields [("lineItemTotal", .bool true)], .text "none".toText])],
  Payload.ofFields [("id", .text []), ("entityType", .text "Bill".toText)]]

theorem records_well_formed_looseEntries : ∃ corpus, ofPayload (.list looseEntries) = .ok corpus ∧
    corpus.records.map Record.id = ["7".toText] ∧
    ∀ r ∈ corpus.records, Record.shape r.kind (r.dump Instant.write) ∧
      (r.financial?.isSome = true ↔ r.kind.name ∈ financialNames.map String.toText) := by
  have hread : (ofPayload (.list looseEntries)).toOption.isSome = true := by decide +kernel
  obtain ⟨corpus, hcorpus⟩ := Option.isSome_iff_exists.1 hread
  have h := Outcome.eq_ok_of_toOption hcorpus
  obtain ⟨hids, -, hshapes⟩ := records_well_formed h
  refine ⟨corpus, h, ?_, hshapes⟩
  rw [hids]
  decide +kernel

end Corpus
end LedgerSearch

import LedgerSearch.Proofs.LoadedRecords
import LedgerSearch.Proofs.WholeNumbers
import Mathlib.Algebra.Group.Int.Defs

/-!
# How entries of a corpus depend on each other

Each entry becomes its own record or is refused, and the records of a list are those of its parts one after the other.
One thing passes from an entry to the others: an integer beyond all numbers, in a field that is read as one, stops the
reading of the whole list (`records_isolated`).
-/

namespace LedgerSearch

namespace Payload

/-- An integer beyond all numbers. -/
def isOversized : Payload → Bool
  | .atom (.int n) => decide (Binary64.overflowBound ≤ n.natAbs)
  | _ => false

/-- A payload that is taken item by item: a list, a text or an object, or whatever is not filled. -/
def isIterable (p : Payload) : Bool :=
  !p.isFilled || match p with
    | .list _ | .object _ | .atom (.text _) => true
    | _ => false

theorem eq_null {p : Payload} (h : p.isNull = true) : p = null := by
  cases p with
  | atom a => cases a <;> first | rfl | cases h
  | _ => cases h

end Payload

namespace Entry

open Outcome

/-- The fields of a line that are read as numbers. -/
def lineNumbers (line : Payload) : List Payload :=
  ["lineItemQuantity", "lineItemUnitPrice", "lineItemTotal"].map fun name => line.field name

/-- The fields of a report on the weather that are read as numbers. -/
def weatherNumbers (report : Payload) : List Payload :=
  [(report.field "temperature").field "current", (report.field "temperature").field "low",
    (report.field "wind").field "speed", report.field "humidity", (report.field "precipitation").field "total"]

/-- The fields of an entry that are read as numbers. -/
def numbers (p : Payload) : List Payload :=
  match kindOf p with
  | .ok (.financial _) => p.field "totalValue" :: (lines p).flatMap lineNumbers
  | .ok .dailyLog => weatherNumbers (p.field "weatherConditions")
  | _ => []

/-- An entry that is not refused before its numbers are read, one of which is beyond all numbers. -/
def isFatal (p : Payload) : Bool :=
  isObject p && (p.field "id").isFilled && (p.field "tags").isIterable && (numbers p).any Payload.isOversized

/-- The reading is stopped, which is more than that the entry is refused. -/
abbrev Stops {α : Type} (x : Except EntryError α) : Prop := x = .error .numberTooLarge

variable {α β : Type}

theorem not_stops_of_ok {x : Except EntryError α} (h : ∃ a, x = .ok a) : ¬ Stops x := by
  rintro rfl
  obtain ⟨a, ha⟩ := h
  cases ha

theorem stops_map_iff {x : Except EntryError α} {f : α → β} : Stops (Except.map f x) ↔ Stops x := by
  cases x with
  | error fault => simp [Stops, Except.map]
  | ok a => simp [Stops]

/-- Where the first step can fail in no other way, either step stops the computation. -/
theorem stops_bind_iff {x : Except EntryError α} {f : α → Except EntryError β} {later : Prop}
    (hx : FailsOnlyAs .numberTooLarge x) (hf : ∀ a, Stops (f a) ↔ later) : Stops (x >>= f) ↔ Stops x ∨ later := by
  cases x with
  | error fault =>
    have hfault := hx fault rfl
    simp [Stops, hfault]
  | ok a =>
    rw [ok_bind, hf a]
    simp [Stops]

/-- Where the first step never stops the computation, it lets the second one do so if it succeeds. -/
theorem stops_bind_iff_of_not {x : Except EntryError α} {f : α → Except EntryError β} {later : Prop}
    (hx : ¬ Stops x) (hf : ∀ a, x = .ok a → (Stops (f a) ↔ later)) :
    Stops (x >>= f) ↔ (∃ a, x = .ok a) ∧ later := by
  cases x with
  | error fault =>
    have hne : fault ≠ .numberTooLarge := fun h => hx (congrArg Except.error h)
    simp [Stops, hne]
  | ok a =>
    rw [ok_bind, hf a rfl]
    simp

theorem stops_bind_pure_iff {x : Except EntryError α} {f : α → β} : Stops (x >>= fun a => pure (f a)) ↔ Stops x :=
  stops_map_iff

theorem stops_mapM_iff {f : α → Except EntryError β} {items : List α}
    (hf : ∀ a ∈ items, FailsOnlyAs .numberTooLarge (f a)) : Stops (items.mapM f) ↔ ∃ a ∈ items, Stops (f a) := by
  induction items with
  | nil => simp [Stops]
  | cons a rest ih =>
    obtain ⟨ha, hrest⟩ := List.forall_mem_cons.1 hf
    rw [List.mapM_cons, stops_bind_iff ha fun _ => stops_bind_pure_iff, ih hrest]
    simp

/-- An integer is read as the nearest number, if there is one. -/
theorem number_int (n : Int) :
    number (.int n) = ((Binary64.ofInt? n).map Except.ok).getD (.error .numberTooLarge) := by
  -- comparing values of the functions would round, so they are opened before they are applied
  obtain ⟨nearest, hnearest⟩ : ∃ nearest, nearest = Binary64.ofInt? := ⟨_, rfl⟩
  have hopened : ∀ read, read = number →
      read (.int n) = ((nearest n).map Except.ok).getD (.error .numberTooLarge) := by
    delta number
    rw [← hnearest]
    rintro read rfl
    dsimp only
    cases nearest n <;> rfl
  rw [← hnearest]
  exact hopened number rfl

theorem stops_number_iff {p : Payload} : Stops (number p) ↔ p.isOversized = true := by
  cases p with
  | atom a =>
    cases a with
    | int n =>
      rw [number_int, Payload.isOversized, decide_eq_true_iff, ← Binary64.ofInt?_eq_none_iff]
      cases Binary64.ofInt? n <;> simp [Stops]
    | _ => exact iff_of_false (not_stops_of_ok ⟨_, rfl⟩) Bool.false_ne_true
  | _ => exact iff_of_false (not_stops_of_ok ⟨_, rfl⟩) Bool.false_ne_true

theorem failsOnlyAs_number (p : Payload) : FailsOnlyAs .numberTooLarge (number p) := by
  cases p with
  | atom a =>
    cases a with
    | int n =>
      rw [number_int]
      cases Binary64.ofInt? n with
      | none =>
        rintro fault ⟨⟩
        rfl
      | some x => exact .of_ok ⟨x, rfl⟩
    | _ => exact .of_ok ⟨_, rfl⟩
  | _ => exact .of_ok ⟨_, rfl⟩

theorem stops_optionalNumber_iff {p : Payload} : Stops (optionalNumber p) ↔ p.isOversized = true := by
  unfold optionalNumber
  split
  · rename_i hnull
    refine iff_of_false (not_stops_of_ok ⟨none, rfl⟩) ?_
    rw [Payload.eq_null hnull]
    exact Bool.false_ne_true
  · rw [← stops_number_iff]
    exact stops_map_iff

theorem failsOnlyAs_optionalNumber (p : Payload) : FailsOnlyAs .numberTooLarge (optionalNumber p) := by
  unfold optionalNumber
  split
  · exact .of_ok ⟨none, rfl⟩
  · exact (failsOnlyAs_number p).map

theorem stops_lineItem_iff {line : Payload} :
    Stops (lineItem line) ↔ (lineNumbers line).any Payload.isOversized = true := by
  refine (stops_bind_iff (failsOnlyAs_number _) fun _ => stops_bind_iff (failsOnlyAs_number _) fun _ =>
    stops_bind_iff (failsOnlyAs_number _) fun _ => iff_of_false (not_stops_of_ok ⟨_, rfl⟩) not_false).trans ?_
  simp [lineNumbers, stops_number_iff]

theorem failsOnlyAs_lineItem (line : Payload) : FailsOnlyAs .numberTooLarge (lineItem line) :=
  (failsOnlyAs_number _).bind fun _ _ => (failsOnlyAs_number _).bind fun _ _ =>
    (failsOnlyAs_number _).bind fun _ _ => .of_ok ⟨_, rfl⟩

theorem items_ok_iff {p : Payload} : (∃ held, items p = .ok held) ↔ p.isIterable = true := by
  unfold items Payload.isIterable
  cases hfilled : p.isFilled with
  | false => exact iff_of_true ⟨[], rfl⟩ rfl
  | true =>
    cases p with
    | atom a => cases a <;> simp
    | list held => simp
    | object fields => simp

theorem not_stops_items (p : Payload) : ¬ Stops (items p) := by
  unfold items
  split
  · exact not_stops_of_ok ⟨_, rfl⟩
  · split <;> simp [Stops]

theorem stops_lineItems_iff {p : Payload} :
    Stops (lineItems p) ↔ ((objects p).flatMap lineNumbers).any Payload.isOversized = true := by
  have hlines : ∀ held, items p = .ok held →
      (Stops ((held.filter isObject).mapM lineItem) ↔ ∃ line ∈ objects p, (lineNumbers line).any Payload.isOversized) := by
    intro held hheld
    rw [filter_isObject hheld, stops_mapM_iff fun line _ => failsOnlyAs_lineItem line]
    simp only [stops_lineItem_iff]
  -- what cannot be taken item by item holds no objects
  have hobjects : ∀ line ∈ objects p, ∃ held, items p = .ok held := by
    intro line hline
    cases p with
    | list held => exact items_ok_iff.2 (by simp [Payload.isIterable])
    | _ => cases hline
  rw [List.any_flatMap, List.any_eq_true]
  refine (stops_bind_iff_of_not (not_stops_items p) hlines).trans ?_
  constructor
  · exact fun h => h.2
  · rintro ⟨line, hline, h⟩
    exact ⟨hobjects line hline, line, hline, h⟩

theorem stops_weather_iff {report : Payload} :
    Stops (weather report) ↔ (weatherNumbers report).any Payload.isOversized = true := by
  cases report with
  | object fields =>
    refine (stops_bind_iff (failsOnlyAs_optionalNumber _) fun _ => stops_bind_iff (failsOnlyAs_optionalNumber _) fun _ =>
      stops_bind_iff (failsOnlyAs_optionalNumber _) fun _ => stops_bind_iff (failsOnlyAs_optionalNumber _) fun _ =>
      stops_bind_iff (failsOnlyAs_optionalNumber _) fun _ => iff_of_false (not_stops_of_ok ⟨_, rfl⟩) not_false).trans ?_
    simp [weatherNumbers, stops_optionalNumber_iff]
  | _ => exact iff_of_false (not_stops_of_ok ⟨none, rfl⟩) Bool.false_ne_true

theorem failsOnlyAs_weather (report : Payload) : FailsOnlyAs .numberTooLarge (weather report) := by
  cases report with
  | object fields =>
    exact (failsOnlyAs_optionalNumber _).bind fun _ _ => (failsOnlyAs_optionalNumber _).bind fun _ _ =>
      (failsOnlyAs_optionalNumber _).bind fun _ _ => (failsOnlyAs_optionalNumber _).bind fun _ _ =>
      (failsOnlyAs_optionalNumber _).bind fun _ _ => .of_ok ⟨_, rfl⟩
  | _ => exact .of_ok ⟨none, rfl⟩

theorem not_stops_kindOf (p : Payload) : ¬ Stops (kindOf p) := by
  unfold kindOf
  dsimp only
  split <;> simp [Stops]

theorem not_stops_personKind (p : Payload) : ¬ Stops (personKind p) := by
  unfold personKind
  dsimp only
  split <;> simp [Stops]

theorem not_stops_organizationKind (p : Payload) : ¬ Stops (organizationKind p) := by
  unfold organizationKind
  dsimp only
  split <;> simp [Stops]

theorem stops_financial_iff {kind : FinancialKind} {updatedAt : Instant} {p : Payload} :
    Stops (financial kind updatedAt p) ↔
      (p.field "totalValue" :: (objects (p.field "lineItems")).flatMap lineNumbers).any Payload.isOversized = true := by
  refine (stops_bind_iff (failsOnlyAs_number _) fun _ => stops_bind_pure_iff).trans ?_
  rw [List.any_cons, Bool.or_eq_true, stops_number_iff, stops_lineItems_iff]

theorem stops_dailyLog_iff {p : Payload} :
    Stops (dailyLog p) ↔ (weatherNumbers (p.field "weatherConditions")).any Payload.isOversized = true := by
  have hattachments : Stops (items (p.field "attachments")) ↔ False := iff_of_false (not_stops_items _) not_false
  refine (stops_bind_iff (failsOnlyAs_weather _) fun _ => stops_bind_pure_iff.trans hattachments).trans ?_
  rw [or_false, stops_weather_iff]

theorem stops_details_iff {kind : EntityKind} {updatedAt : Instant} {p : Payload} (hkind : kindOf p = .ok kind) :
    Stops (details kind updatedAt p) ↔ (numbers p).any Payload.isOversized = true := by
  unfold numbers lines
  rw [hkind]
  cases kind with
  | document => exact iff_of_false (not_stops_of_ok ⟨_, rfl⟩) Bool.false_ne_true
  | financial kind => exact stops_map_iff.trans stops_financial_iff
  | person =>
    have hperson : Stops (person p) ↔ Stops (personKind p) := stops_bind_pure_iff
    exact stops_map_iff.trans (hperson.trans (iff_of_false (not_stops_personKind p) Bool.false_ne_true))
  | organization =>
    have horganization : Stops (organization p) ↔ Stops (organizationKind p) := stops_bind_pure_iff
    exact stops_map_iff.trans (horganization.trans (iff_of_false (not_stops_organizationKind p) Bool.false_ne_true))
  | buildertrend =>
    have hlink : Stops (quickLink p) ↔ Stops (items (p.field "triggerQueries")) := stops_bind_pure_iff
    exact stops_map_iff.trans (hlink.trans (iff_of_false (not_stops_items _) Bool.false_ne_true))
  | dailyLog => exact stops_map_iff.trans stops_dailyLog_iff

/-- Only entries of a known kind have fields that are read as numbers. -/
theorem kindOf_ok_of_numbers {p : Payload} (h : (numbers p).any Payload.isOversized = true) :
    ∃ kind, kindOf p = .ok kind := by
  unfold numbers at h
  split at h
  · rename_i hkind
    exact ⟨_, hkind⟩
  · rename_i hkind
    exact ⟨_, hkind⟩
  · cases h

/-- An entry stops the reading exactly if nothing refuses it before an oversized integer is reached. -/
theorem stops_record_iff {p : Payload} : Stops (record p) ↔ isFatal p = true := by
  cases p with
  | object fields =>
    unfold record
    dsimp only
    split
    · rename_i hempty
      refine iff_of_false (fun h => ?_) (by simp_all [isFatal])
      cases h
    · rename_i hfilled
      refine (stops_bind_iff_of_not (not_stops_kindOf _) fun kind hkind =>
        stops_bind_iff_of_not (not_stops_items _) fun tags _ =>
        stops_bind_pure_iff.trans (stops_details_iff hkind)).trans ?_
      rw [items_ok_iff, and_iff_right_of_imp fun h => kindOf_ok_of_numbers h.2]
      simp_all [isFatal, isObject]
  | _ => exact iff_of_false (by simp [Stops, record]) Bool.false_ne_true

end Entry

namespace Corpus

open Outcome

/-- The records of a list of entries. -/
def recordsOf (entries : List Payload) : Except EntryError (List Record) :=
  (ofPayload (.list entries)).map Corpus.records

/-- The record of an entry on its own, if it has one. -/
def own? (p : Payload) : Option Record := (Entry.record p).toOption

/-- Wherever the entries stand, their records are their own ones in order, unless an entry stops the reading. -/
theorem map_records_ofEntries (index : Nat) (entries : List Payload) :
    (ofEntries index entries).map Corpus.records =
      if entries.any Entry.isFatal then .error .numberTooLarge else .ok (entries.filterMap own?) := by
  induction entries generalizing index with
  | nil => rfl
  | cons p rest ih =>
    specialize ih (index + 1)
    have hstops := @Entry.stops_record_iff p
    rw [List.any_cons, List.filterMap_cons, ofEntries, own?]
    cases hread : Entry.record p with
    | ok r =>
      have hfatal : Entry.isFatal p = false := by simpa [hread, Entry.Stops] using hstops
      have hmap : ∀ x : Except EntryError Corpus, (x.map fun c => ⟨r :: c.records, c.warnings⟩ : Except _ Corpus).map
          Corpus.records = (x.map Corpus.records).map (r :: ·) := fun x => by cases x <;> rfl
      dsimp only
      rw [hmap, ih, hfatal, Bool.false_or]
      split <;> rfl
    | error fault =>
      by_cases hfault : fault = .numberTooLarge
      · have hfatal : Entry.isFatal p = true := by rwa [← hstops, hread, Entry.Stops, Except.error.injEq]
        rw [hfault, hfatal]
        rfl
      · have hfatal : Entry.isFatal p = false := by
          rwa [← Bool.not_eq_true, ← hstops, hread, Entry.Stops, Except.error.injEq]
        have hmap : ∀ x : Except EntryError Corpus, (x.map fun c => ⟨c.records, entryWarning index fault :: c.warnings⟩ :
            Except _ Corpus).map Corpus.records = x.map Corpus.records := fun x => by cases x <;> rfl
        rw [hfatal, Bool.false_or]
        cases fault <;> first | exact absurd rfl hfault | exact (hmap _).trans ih

theorem recordsOf_eq (entries : List Payload) : recordsOf entries =
    if entries.any Entry.isFatal then .error .numberTooLarge else .ok (entries.filterMap own?) :=
  map_records_ofEntries 0 entries

theorem recordsOf_append (xs ys : List Payload) :
    recordsOf (xs ++ ys) = combine (· ++ ·) (recordsOf xs) (recordsOf ys) := by
  rw [recordsOf_eq, recordsOf_eq, recordsOf_eq, List.any_append, List.filterMap_append]
  cases xs.any Entry.isFatal <;> cases ys.any Entry.isFatal <;> rfl

/-- Every list of entries without a fatal one is read, each entry gives its own record or none, and the records of two
lists stand one after the other; a fatal entry takes the records of all others with it. -/
theorem records_isolated (xs ys : List Payload) :
    recordsOf xs = (if xs.any Entry.isFatal then .error .numberTooLarge else .ok (xs.filterMap own?)) ∧
      recordsOf (xs ++ ys) = combine (· ++ ·) (recordsOf xs) (recordsOf ys) :=
  ⟨recordsOf_eq xs, recordsOf_append xs ys⟩

def samplePlan : Payload := sampleEntry "1" "Document" [("title", .text "Plan".toText)]

/-- A bill whose total has 401 digits. -/
def hugeBill : Payload := sampleEntry "2" "Bill" [("totalValue", .int (10 ^ 400))]

/-- The plan is a record on its own, and is lost behind the bill. -/
theorem recordsOf_hugeBill :
    (recordsOf [samplePlan]).toOption.map (List.map Record.id) = some ["1".toText] ∧
      recordsOf [samplePlan, hugeBill] = .error .numberTooLarge := by
  refine ⟨by decide +kernel, ?_⟩
  rw [recordsOf_eq, if_pos (by decide +kernel)]

end Corpus
end LedgerSearch

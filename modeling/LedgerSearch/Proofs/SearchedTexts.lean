import LedgerSearch.Proofs.Composition
import LedgerSearch.Proofs.JoinedTexts

/-!
# The single texts of a record

A search looks through one text for each record: its filled fields, joined by spaces and then lowered as a whole, where
tags are joined before. A word stands in that text exactly if it stands in the lower form of one single text of the
record (`exists_haystack`), so nothing is found across two of them (`words_found_in_texts`), and points for words tell
whether any was found at all (`textScore_eq_zero_iff`).
-/

namespace LedgerSearch

open Text (IsWord lower)

namespace Details

/-- The searchable texts that only some kinds of records have, each of them on its own. -/
def texts : Details → List Text
  | document d => [d.documentType, d.author]
  | financial f => f.lineItems.flatMap fun item => [item.title, item.description, item.kind.name]
  | person p =>
    [p.kind.name, p.jobTitle] ++ p.organization.text?.toList ++ [p.email, p.phone, p.location] ++
      p.tradeFocus.text?.toList
  | organization o =>
    [o.kind.name, o.tradeFocus, o.serviceArea, o.primaryContact, o.phone, o.email] ++ o.website.text?.toList
  | quickLink q => [q.path, q.description] ++ q.triggers
  | dailyLog l =>
    [l.author] ++ (l.weather.map Weather.description).toList ++ l.weatherNotes.text?.toList ++
      l.notes.toList.filterMap Payload.text?

end Details

namespace Record

/-- The searchable texts of a record, each of them on its own. A tag is one, and so is a metadata value that is not
null. -/
def texts (r : Record) : List Text :=
  [r.title, r.summary, r.project, r.client, r.status] ++ r.tags ++
    (r.metadata.filter fun m => m.2 != .null).map (fun m => m.2.spell) ++ r.details.texts

end Record

namespace Search

open Outcome
open Query (tokens)

variable {w : Text} {r : Record}

/-- The word stands in the lower form of one of the texts. -/
def FoundIn (w : Text) (texts : List Text) : Prop := ∃ t ∈ texts, w <:+: lower t

theorem foundIn_append {xs ys : List Text} : FoundIn w (xs ++ ys) ↔ FoundIn w xs ∨ FoundIn w ys := by
  simp only [FoundIn, List.mem_append, or_and_right, exists_or]

theorem foundIn_congr_right (zs : List Text) {xs ys : List Text} (h : FoundIn w xs ↔ FoundIn w ys) :
    FoundIn w (zs ++ xs) ↔ FoundIn w (zs ++ ys) := by
  rw [foundIn_append, foundIn_append, h]

theorem foundIn_singleton {t : Text} : FoundIn w [t] ↔ w <:+: lower t := by simp [FoundIn]

theorem ne_nil_of_found {t : Text} (hw : IsWord w) (h : w <:+: lower t) : t ≠ [] := by
  rintro rfl
  exact hw.1 (List.infix_nil.1 h)

theorem text?_eq_some_iff {p : Payload} {t : Text} : p.text? = some t ↔ p = .text t := by
  unfold Payload.text?
  split <;> simp_all

theorem foundIn_joinWords (hw : IsWord w) (pieces : List Text) : FoundIn w [joinWords pieces] ↔ FoundIn w pieces := by
  rw [foundIn_singleton, joinWords, Text.lower_joinWith, Text.infix_joinWith_iff hw]
  simp only [FoundIn, List.mem_map, exists_exists_and_eq_and]

theorem spellFilled_of_ne_null {a : Atom} (ha : a ≠ .null) : (Payload.atom a).spellFilled = a.spell := by
  cases a with
  | null => exact absurd rfl ha
  | _ => rfl

theorem foundIn_metadata (hw : IsWord w) (metadata : Entries Text Atom) :
    FoundIn w (metadata.map fun m => (Payload.atom m.2).spellFilled) ↔
      FoundIn w ((metadata.filter fun m => m.2 != .null).map fun m => m.2.spell) := by
  constructor
  · rintro ⟨t, ht, hfound⟩
    obtain ⟨m, hm, rfl⟩ := List.mem_map.1 ht
    have hne : m.2 ≠ .null := fun hnull => ne_nil_of_found hw hfound (by rw [hnull]; rfl)
    rw [spellFilled_of_ne_null hne] at hfound
    exact ⟨m.2.spell, List.mem_map.2 ⟨m, List.mem_filter.2 ⟨hm, bne_iff_ne.2 hne⟩, rfl⟩, hfound⟩
  · rintro ⟨t, ht, hfound⟩
    obtain ⟨m, hm, rfl⟩ := List.mem_map.1 ht
    obtain ⟨hm, hne⟩ := List.mem_filter.1 hm
    exact ⟨_, List.mem_map.2 ⟨m, hm, spellFilled_of_ne_null (bne_iff_ne.1 hne)⟩, hfound⟩

theorem foundIn_details (hw : IsWord w) (d : Details) :
    FoundIn w (d.parts.filterMap Payload.text?) ↔ FoundIn w d.texts := by
  cases d with
  | quickLink q => exact foundIn_congr_right [q.path, q.description] (foundIn_joinWords hw q.triggers)
  | document d => exact .rfl
  | financial f =>
    rw [Details.parts, Details.texts, List.filterMap_flatMap]
    exact .rfl
  | person p =>
    simp only [Details.parts, Details.texts, List.filterMap_cons]
    cases p.organization.text? <;> cases p.tradeFocus.text? <;> exact .rfl
  | organization o =>
    simp only [Details.parts, Details.texts, List.filterMap_cons]
    cases o.website.text? <;> exact .rfl
  | dailyLog l =>
    simp only [Details.parts, Details.texts, List.cons_append, List.filterMap_cons, List.filterMap_append]
    cases l.weather <;> cases l.weatherNotes.text? <;> exact .rfl

/-- The parts of a record show a word exactly if its single texts do. -/
theorem foundIn_parts (hw : IsWord w) (r : Record) :
    FoundIn w (r.parts.filterMap Payload.text?) ↔ FoundIn w r.texts := by
  have hparts : r.parts.filterMap Payload.text? = [r.title, r.summary, r.project, r.client, r.status] ++
      [joinWords r.tags] ++ (r.metadata.map fun m => (Payload.atom m.2).spellFilled) ++
        r.details.parts.filterMap Payload.text? := by
    rw [Record.parts, List.filterMap_append, List.filterMap_append, List.filterMap_map]
    congr 2
    exact congrFun List.filterMap_eq_map _
  rw [hparts, Record.texts]
  simp only [foundIn_append, foundIn_joinWords hw, foundIn_metadata hw, foundIn_details hw]

theorem filledTexts_eq {parts : List Payload} {texts : List Text} (h : filledTexts parts = .ok texts) :
    texts = (parts.filter Payload.isFilled).filterMap Payload.text? := by
  induction parts generalizing texts with
  | nil =>
    cases h
    rfl
  | cons p rest ih =>
    rw [filledTexts] at h
    split at h
    case isTrue hfilled =>
      rw [List.filter_cons_of_pos hfilled]
      split at h
      case h_1 t ht =>
        obtain ⟨more, hmore, rfl⟩ := map_eq_ok.1 h
        rw [List.filterMap_cons_some ht, ih hmore]
      case h_2 => cases h
    case isFalse hfilled =>
      rw [List.filter_cons_of_neg hfilled]
      exact ih h

/-- A part that shows a word is filled. -/
theorem foundIn_filledTexts (hw : IsWord w) {parts : List Payload} {texts : List Text}
    (h : filledTexts parts = .ok texts) : FoundIn w texts ↔ FoundIn w (parts.filterMap Payload.text?) := by
  rw [filledTexts_eq h]
  constructor
  · rintro ⟨t, ht, hfound⟩
    obtain ⟨p, hp, htext⟩ := List.mem_filterMap.1 ht
    exact ⟨t, List.mem_filterMap.2 ⟨p, (List.mem_filter.1 hp).1, htext⟩, hfound⟩
  · rintro ⟨t, ht, hfound⟩
    obtain ⟨p, hp, htext⟩ := List.mem_filterMap.1 ht
    have hfilled : p.isFilled = true := by
      rw [text?_eq_some_iff.1 htext]
      simpa [Payload.isFilled] using ne_nil_of_found hw hfound
    exact ⟨t, List.mem_filterMap.2 ⟨p, List.mem_filter.2 ⟨hp, hfilled⟩, htext⟩, hfound⟩

theorem exists_haystack (h : r.IsTextual) : ∃ hay, haystack r = .ok hay ∧
    ∀ w, IsWord w → (w <:+: hay ↔ FoundIn w (r.parts.filterMap Payload.text?)) := by
  obtain ⟨texts, htexts⟩ := filledTexts_ok h
  refine ⟨_, by rw [haystack, htexts, map_ok], fun w hw => ?_⟩
  rw [← foundIn_filledTexts hw htexts, ← foundIn_joinWords hw]
  simp [FoundIn]

theorem isWord_of_mem_tokens {token query : Text} (h : token ∈ tokens query) : IsWord token :=
  Text.isWord_of_mem_words h

/-- The words of a query are looked for in the parts of a record. -/
theorem exists_holdsWords (h : r.IsTextual) (hlink : r.quickLink? = none) (query : Text) :
    ∃ found, holdsWords r query = .ok found ∧
      (found = true ↔ ∀ token ∈ tokens query, FoundIn token (r.parts.filterMap Payload.text?)) := by
  obtain ⟨hay, hhay, hfound⟩ := exists_haystack h
  refine ⟨_, holdsWords_eq_all hlink hhay query, ?_⟩
  rw [List.all_eq_true]
  refine forall₂_congr fun token htoken => ?_
  rw [Text.occursIn_iff, hfound token (isWord_of_mem_tokens htoken)]

/-- Nothing is found across the texts of a record: a word stands in its searchable text exactly if it stands in one of
its single texts, and a query finds the record by its words exactly if each of them does. -/
theorem words_found_in_texts (h : r.IsTextual) :
    (∃ hay, haystack r = .ok hay ∧ ∀ token, IsWord token → (token <:+: hay ↔ ∃ t ∈ r.texts, token <:+: lower t)) ∧
    (r.quickLink? = none → ∀ query, ∃ found, holdsWords r query = .ok found ∧
      (found = true ↔ ∀ token ∈ tokens query, ∃ t ∈ r.texts, token <:+: lower t)) := by
  constructor
  · obtain ⟨hay, hhay, hfound⟩ := exists_haystack h
    exact ⟨hay, hhay, fun token htoken => (hfound token htoken).trans (foundIn_parts htoken r)⟩
  · intro hlink query
    obtain ⟨found, hholds, hfound⟩ := exists_holdsWords h hlink query
    refine ⟨found, hholds, hfound.trans ?_⟩
    exact forall₂_congr fun token htoken => foundIn_parts (isWord_of_mem_tokens htoken) r

/-- A log of a house with two tags and a note. -/
def houseLog : Record :=
  { Record.bare "7" "ΟΔΟΣ 12"
      (.dailyLog ⟨none, "Ann".toText, none, .null, ⟨.text "Roof ready".toText, .null, .null, .null⟩, []⟩) with
    tags := ["deck".toText, "porch".toText] }

/-- The first word of the title ends in a capital whose lower form depends on what follows. Two tags side by side are no
text of their own. -/
theorem words_found_in_houseLog : holdsWords houseLog "roof οδος DECK".toText = .ok true ∧
    holdsWords houseLog "deckporch".toText = .ok false := by
  obtain ⟨-, hquery⟩ := words_found_in_texts (r := houseLog) (by decide)
  obtain ⟨a, ha, hfound⟩ := hquery rfl "roof οδος DECK".toText
  obtain ⟨b, hb, hmissing⟩ := hquery rfl "deckporch".toText
  have hall : ∀ token ∈ tokens "roof οδος DECK".toText, ∃ t ∈ houseLog.texts, token <:+: lower t := by decide +kernel
  have hnot : ¬∀ token ∈ tokens "deckporch".toText, ∃ t ∈ houseLog.texts, token <:+: lower t := by decide +kernel
  rw [ha, hb, hfound.2 hall, Bool.eq_false_iff.2 (mt hmissing.1 hnot)]
  exact ⟨rfl, rfl⟩

theorem wordsFound_eq_zero_iff {ws : List Text} {text : Text} : wordsFound ws text = 0 ↔ ∀ w ∈ ws, ¬w <:+: text := by
  rw [wordsFound, List.countP_eq_zero]
  exact forall₂_congr fun w _ => by rw [Text.occursIn_iff]

/-- A whole query that stands in a text has all of its words there. -/
theorem infix_of_query_infix {query own : Text} (h : lower query <:+: own) : ∀ token ∈ tokens query, token <:+: own :=
  fun _ htoken => (Text.infix_of_mem_words htoken).trans h

theorem mem_texts_of_mem_titles {own : Text} (h : own ∈ [r.title, r.summary]) : own ∈ r.texts := by
  simp only [Record.texts, List.append_assoc]
  exact List.mem_append_left _ (List.mem_of_mem_take (i := 2) h)

/-- Points count from zero, and a record earns none for the words of a query exactly if no word stands in its searchable
text. What stands in the title or the summary stands there too, and a whole query that stands in one of these has all of
its words there. -/
theorem textScore_eq_zero_iff (h : r.IsTextual) (query : Text) :
    ∃ points hay, textScore r query = .ok points ∧ haystack r = .ok hay ∧
      (points = 0 ↔ ∀ token ∈ tokens query, ¬token <:+: hay) ∧
      (∀ own ∈ [r.title, r.summary], ∀ token ∈ tokens query, token <:+: lower own → token <:+: hay) ∧
      (∀ own ∈ [r.title, r.summary], lower query <:+: lower own → ∀ token ∈ tokens query, token <:+: lower own) := by
  obtain ⟨hay, hhay, hfound⟩ := exists_haystack h
  have hown : ∀ own ∈ [r.title, r.summary], ∀ token ∈ tokens query, token <:+: lower own → token <:+: hay := by
    intro own hmem token htoken hinfix
    rw [hfound token (isWord_of_mem_tokens htoken), foundIn_parts (isWord_of_mem_tokens htoken)]
    exact ⟨own, mem_texts_of_mem_titles hmem, hinfix⟩
  have hphrase : ∀ own ∈ [r.title, r.summary], lower query <:+: lower own →
      ∀ token ∈ tokens query, token <:+: lower own := fun own _ => infix_of_query_infix
  by_cases hnone : tokens query = []
  · exact ⟨0, hay, by simp [textScore, hnone], hhay, by simp [hnone], hown, hphrase⟩
  · have hsome : ¬(tokens query).isEmpty = true := mt List.isEmpty_iff.1 hnone
    refine ⟨_, hay, by rw [textScore, if_neg hsome, hhay, map_ok], hhay, ?_, hown, hphrase⟩
    rw [← wordsFound_eq_zero_iff]
    constructor
    · intro hzero
      omega
    · intro hzero
      -- Without a word in the searchable text there is none in the title or the summary, and no whole query either.
      have hnot : ∀ own ∈ [r.title, r.summary], wordsFound (tokens query) (lower own) = 0 ∧
          Text.occursIn (lower query) (lower own) = false := by
        intro own hmem
        have hmissing : ∀ token ∈ tokens query, ¬token <:+: lower own := fun token htoken hinfix =>
          wordsFound_eq_zero_iff.1 hzero token htoken (hown own hmem token htoken hinfix)
        refine ⟨wordsFound_eq_zero_iff.2 hmissing, ?_⟩
        rw [← Bool.not_eq_true, Text.occursIn_iff]
        intro hwhole
        obtain ⟨token, htoken⟩ := List.exists_mem_of_ne_nil _ hnone
        exact hmissing token htoken (hphrase own hmem hwhole token htoken)
      obtain ⟨htitle, htitlePhrase⟩ := hnot r.title List.mem_cons_self
      obtain ⟨hsummary, hsummaryPhrase⟩ := hnot r.summary (List.mem_cons_of_mem _ List.mem_cons_self)
      simp [htitle, htitlePhrase, hsummary, hsummaryPhrase, hzero]

/-- The second query has no word of the house log. -/
theorem textScore_houseLog : (∃ points, textScore houseLog "οδος 12".toText = .ok points ∧ points ≠ 0) ∧
    textScore houseLog "pine shed".toText = .ok 0 := by
  obtain ⟨points, hay, hpoints, hhay, hzero, -⟩ := textScore_eq_zero_iff (r := houseLog) (by decide) "οδος 12".toText
  obtain ⟨nought, hay', hnought, hhay', hzero', -⟩ :=
    textScore_eq_zero_iff (r := houseLog) (by decide) "pine shed".toText
  have htext : (haystack houseLog).toOption = some "οδος 12 deck porch ann roof ready".toText := by decide +kernel
  cases hhay.symm.trans (eq_ok_of_toOption htext)
  cases hhay'.symm.trans (eq_ok_of_toOption htext)
  refine ⟨⟨points, hpoints, fun h => ?_⟩, ?_⟩
  · exact absurd (hzero.1 h) (by decide +kernel)
  · rw [hnought, hzero'.2 (by decide +kernel)]

end Search
end LedgerSearch

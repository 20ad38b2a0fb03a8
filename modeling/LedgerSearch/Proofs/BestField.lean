import LedgerSearch.Marking.Snippet
import LedgerSearch.Proofs.FreeOccurrences
import LedgerSearch.Proofs.OwnTexts
import LedgerSearch.Proofs.RenderCache

/-!
# The best field of a record

The fields of a record are tried in order, and each one that holds more terms of the query than the best so far takes
its place, highlighted at that moment. So the best field is the first one that holds the most terms, shown by a
highlighter that has shown the fields which led before and no others (`improve_cases`). What is shown is searched:
every field is a part of the searchable text (`text_mem_parts`), so a term that a field holds is found there.
-/

namespace LedgerSearch

namespace Query

variable {query : Text}

theorem nodup_eraseDups {α : Type} [BEq α] [LawfulBEq α] : (items : List α) → items.eraseDups.Nodup
  | [] => List.nodup_nil
  | a :: rest => by
    rw [List.eraseDups_cons, List.nodup_cons]
    exact ⟨by simp, nodup_eraseDups _⟩
termination_by items => items.length
decreasing_by exact Nat.lt_succ_of_le (List.length_filter_le _ _)

theorem nodup_searchTerms (query : Text) : (searchTerms query).Nodup := nodup_eraseDups _

/-- The tokens of each leaf are terms of the query. -/
theorem tokens_leaf_subset {leaf : Text} (h : leaf ∈ (parse query).leaves) : tokens leaf ⊆ searchTerms query := by
  intro token htoken
  rw [searchTerms, List.mem_eraseDups]
  exact List.mem_flatMap.2 ⟨leaf, h, htoken⟩

/-- A query that is a single leaf has its own tokens as terms. -/
theorem tokens_subset_of_leaf (h : isCompound query = false) : tokens query ⊆ searchTerms query := by
  have hleaf : Text.strip query ∈ (parse query).leaves := by
    rw [(isLeaf_of_not_compound h).parse_eq]
    exact List.mem_singleton_self _
  rw [← tokens_congr (Text.words_strip query)]
  exact tokens_leaf_subset hleaf

end Query

namespace Search

theorem holdsWords_of_infix {r : Record} {hay query : Text} (hlink : r.quickLink? = none) (hhay : haystack r = .ok hay)
    (h : ∀ token ∈ Query.tokens query, token <:+: hay) : holdsWords r query = .ok true := by
  have hall : ((Query.tokens query).all fun token => Text.occursIn token hay) = true :=
    List.all_eq_true.2 fun token htoken => (Text.occursIn_iff token hay).2 (h token htoken)
  rw [holdsWords_eq_all hlink hhay, hall]

end Search

namespace Marking

open Query (searchTerms tokens)
open Search (haystack holdsWords)
open Text (lower)

section Improve

variable {terms : List Text} {query content : Text} {top : Nat} {c : Cache}

theorem termsIn_pos_iff : 0 < termsIn terms content ↔ ∃ term ∈ terms, term <:+: lower content := by
  simp only [termsIn, List.countP_pos_iff, Text.occursIn_iff]

theorem termsIn_eq_zero_iff : termsIn terms content = 0 ↔ ∀ term ∈ terms, ¬term <:+: lower content := by
  simp only [termsIn, List.countP_eq_zero, Text.occursIn_iff]

/-- A field holds more terms than a number says and than each field before it, and no field behind it holds more. -/
structure Leads (terms : List Text) (top : Nat) (before : List Field) (f : Field) (after : List Field) : Prop where
  top_lt : top < termsIn terms f.2
  before_lt : ∀ g ∈ before, termsIn terms g.2 < termsIn terms f.2
  after_le : ∀ g ∈ after, termsIn terms g.2 ≤ termsIn terms f.2

/-- The fields that each hold more terms than a number says and than all fields before them. -/
def leaders (terms : List Text) (top : Nat) : List Field → List Field
  | [] => []
  | f :: rest =>
    if top < termsIn terms f.2 then f :: leaders terms (termsIn terms f.2) rest else leaders terms top rest

/-- The cache after fields were highlighted one after the other. -/
def Cache.afterFields (c : Cache) (query : Text) (fields : List Field) : Cache :=
  fields.foldl (fun c f => (c.highlight .text f.2 query).2) c

theorem leaders_subset (terms : List Text) (top : Nat) (fields : List Field) : leaders terms top fields ⊆ fields := by
  induction fields generalizing top with
  | nil => exact List.Subset.refl _
  | cons f rest ih =>
    rw [leaders]
    split
    · exact List.cons_subset_cons f (ih _)
    · exact List.subset_cons_of_subset f (ih top)

/-- Either no field holds more terms than the best one before, or the first of those that hold the most is taken, as
the highlighter shows it once it has shown the leading fields before. -/
theorem improve_cases (best : Option FieldMatch) (fields : List Field) :
    ((∀ f ∈ fields, termsIn terms f.2 ≤ top) ∧ (improve terms query best top c fields).1 = best) ∨
      ∃ before f after, fields = before ++ f :: after ∧ Leads terms top before f after ∧
        (improve terms query best top c fields).1 =
          some ⟨f.1, f.2, ((c.afterFields query (leaders terms top before)).highlight .text f.2 query).1⟩ := by
  -- a field that is taken raises the number and changes the cache for the fields behind it
  induction fields generalizing best top c with
  | nil => exact .inl ⟨List.forall_mem_nil _, rfl⟩
  | cons f rest ih =>
    rw [improve]
    split
    case isTrue hmore =>
      have hcache : ∀ before, c.afterFields query (leaders terms top (f :: before)) =
          (c.highlight .text f.2 query).2.afterFields query (leaders terms (termsIn terms f.2) before) := by
        intro before
        rw [leaders, if_pos hmore]
        rfl
      rcases ih (some ⟨f.1, f.2, (c.highlight .text f.2 query).1⟩) with
        ⟨hrest, hbest⟩ | ⟨before, g, after, rfl, hleads, hbest⟩
      · exact .inr ⟨[], f, rest, rfl, ⟨hmore, List.forall_mem_nil _, hrest⟩, hbest⟩
      · refine .inr ⟨f :: before, g, after, rfl, ?_, ?_⟩
        · exact ⟨Nat.lt_trans hmore hleads.top_lt, List.forall_mem_cons.2 ⟨hleads.top_lt, hleads.before_lt⟩, hleads.after_le⟩
        · rw [hcache]
          exact hbest
    case isFalse hless =>
      rw [Nat.not_lt] at hless
      rcases ih best with ⟨hrest, hbest⟩ | ⟨before, g, after, rfl, hleads, hbest⟩
      · exact .inl ⟨List.forall_mem_cons.2 ⟨hless, hrest⟩, hbest⟩
      · refine .inr ⟨f :: before, g, after, rfl, ?_, ?_⟩
        · exact ⟨hleads.top_lt, List.forall_mem_cons.2 ⟨Nat.lt_of_le_of_lt hless hleads.top_lt, hleads.before_lt⟩,
            hleads.after_le⟩
        · rw [leaders, if_neg (Nat.not_lt.2 hless)]
          exact hbest

end Improve

section BestMatch

variable {c : Cache} {r : Record} {query : Text} {m : FieldMatch} {f : Field}

theorem bestMatch_cases (c : Cache) (r : Record) (query : Text) :
    ((∀ f ∈ fields r, termsIn (searchTerms query) f.2 ≤ 0) ∧ (bestMatch c r query).1 = none) ∨
      ∃ before f after, fields r = before ++ f :: after ∧ Leads (searchTerms query) 0 before f after ∧
        (bestMatch c r query).1 = some ⟨f.1, f.2,
          ((c.afterFields query (leaders (searchTerms query) 0 before)).highlight .text f.2 query).1⟩ :=
  improve_cases none (fields r)

theorem bestMatch_eq_none_iff :
    (bestMatch c r query).1 = none ↔ ∀ f ∈ fields r, termsIn (searchTerms query) f.2 = 0 := by
  rcases bestMatch_cases c r query with ⟨hall, hnone⟩ | ⟨before, f, after, heq, hleads, hsome⟩
  · exact iff_of_true hnone fun f hf => Nat.le_zero.1 (hall f hf)
  · refine iff_of_false (by rw [hsome]; exact Option.some_ne_none _) fun hall => ?_
    have hf : f ∈ fields r := by rw [heq]; exact List.mem_append_right _ List.mem_cons_self
    exact Nat.ne_of_gt hleads.top_lt (hall f hf)

theorem leads_of_bestMatch (h : (bestMatch c r query).1 = some m) :
    ∃ before after, fields r = before ++ (m.field, m.content) :: after ∧
      Leads (searchTerms query) 0 before (m.field, m.content) after ∧
      m.html = ((c.afterFields query (leaders (searchTerms query) 0 before)).highlight .text m.content query).1 := by
  rcases bestMatch_cases c r query with ⟨-, hnone⟩ | ⟨before, f, after, heq, hleads, hsome⟩
  · rw [hnone] at h
    cases h
  · rw [hsome] at h
    cases h
    exact ⟨before, after, heq, hleads, rfl⟩

theorem exists_hit_of_bestMatch (h : (bestMatch c r query).1 = some m) :
    (m.field, m.content) ∈ fields r ∧ ∃ term ∈ searchTerms query, term <:+: lower m.content := by
  obtain ⟨before, after, hfields, hleads, -⟩ := leads_of_bestMatch h
  refine ⟨?_, termsIn_pos_iff.1 hleads.top_lt⟩
  rw [hfields]
  exact List.mem_append_right _ List.mem_cons_self

theorem text_mem_lineParts {index : Nat} {items : List LineItem} (h : f ∈ lineFields index items) :
    Payload.text f.2 ∈ items.flatMap LineItem.parts := by
  induction items generalizing index with
  | nil => cases h
  | cons item rest ih =>
    rw [lineFields] at h
    rw [List.flatMap_cons, List.mem_append]
    simp only [List.mem_cons] at h
    rcases h with rfl | rfl | rfl | h
    · exact .inl List.mem_cons_self
    · exact .inl (List.mem_cons_of_mem _ List.mem_cons_self)
    · exact .inl (List.mem_cons_of_mem _ (List.mem_cons_of_mem _ List.mem_cons_self))
    · exact .inr (ih h)

theorem text_mem_detailParts {d : Details} (h : f ∈ detailFields d) : Payload.text f.2 ∈ d.parts := by
  cases d with
  | financial f => exact text_mem_lineParts h
  | document d =>
    simp only [detailFields, List.mem_cons, List.not_mem_nil, or_false] at h
    rcases h with rfl | rfl <;> simp [Details.parts]
  | person p =>
    simp only [detailFields, List.mem_cons, List.not_mem_nil, or_false] at h
    rcases h with rfl | rfl <;> simp [Details.parts]
  | organization o =>
    simp only [detailFields, List.mem_cons, List.not_mem_nil, or_false] at h
    rcases h with rfl | rfl <;> simp [Details.parts]
  | quickLink q => cases h
  | dailyLog l => cases h

/-- Every field that may be shown is a part that is searched. -/
theorem text_mem_parts (h : f ∈ fields r) : Payload.text f.2 ∈ r.parts := by
  rw [fields, List.mem_append, List.mem_append] at h
  rw [Record.parts, List.mem_append, List.mem_append]
  rcases h with (hhead | hdetails) | hmetadata
  · refine .inl (.inl ?_)
    exact List.mem_map_of_mem (f := fun f : Field => Payload.text f.2) hhead
  · exact .inr (text_mem_detailParts hdetails)
  · obtain ⟨entry, hentry, rfl⟩ := List.mem_map.1 hmetadata
    obtain ⟨hmem, hne⟩ := List.mem_filter.1 hentry
    refine .inl (.inr (List.mem_map.2 ⟨entry, hmem, ?_⟩))
    rw [Search.spellFilled_of_ne_null (bne_iff_ne.1 hne)]

/-- A term that a field of a record holds stands in its searchable text. -/
theorem infix_haystack_of_mem_fields {hay term : Text} (hhay : haystack r = .ok hay) (htext : r.IsTextual)
    (hterm : Text.IsWord term) (hf : f ∈ fields r) (h : term <:+: lower f.2) : term <:+: hay := by
  obtain ⟨found, hfound, hstands⟩ := Search.exists_haystack htext
  rw [hhay] at hfound
  cases hfound
  exact (hstands term hterm).2 ⟨f.2, List.mem_filterMap.2 ⟨_, text_mem_parts hf, rfl⟩, h⟩

section SingleTerm

variable {hay term text : Text} (hhay : haystack r = .ok hay) (htext : r.IsTextual) (hterms : searchTerms query = [term])
include hhay htext hterms

/-- The single term of a query with a best match stands in the searchable text. -/
theorem infix_haystack_of_bestMatch (h : (bestMatch c r query).1 = some m) : term <:+: hay := by
  obtain ⟨hfield, found, hfound, hinfix⟩ := exists_hit_of_bestMatch h
  have hterm := infix_haystack_of_mem_fields hhay htext (Query.isWord_of_mem_searchTerms hfound) hfield hinfix
  rw [hterms] at hfound
  exact List.mem_singleton.1 hfound ▸ hterm

theorem tokens_infix_haystack (h : (bestMatch c r query).1 = some m) (hsubset : tokens text ⊆ searchTerms query) :
    ∀ token ∈ tokens text, token <:+: hay := by
  intro token htoken
  have hmem := hsubset htoken
  rw [hterms] at hmem
  exact List.mem_singleton.1 hmem ▸ infix_haystack_of_bestMatch hhay htext hterms h

end SingleTerm

/-- The best match of a query is the first field that holds the most of its terms, none of which is counted twice, with
its content as the highlighter shows it once it has shown the fields that led before; there is none exactly if no field
that is filled holds a term. A term that a field holds stands in the searchable text too. So where a query has a single
term and a best match, each of its leaves passes the test for words, and so does the query itself if it is one leaf. -/
theorem bestMatch_first_most (c : Cache) (query : Text) (htext : r.IsTextual) :
    (searchTerms query).Nodup ∧
    ((bestMatch c r query).1 = none ↔
      ∀ f ∈ fields r, f.2 ≠ [] → ∀ term ∈ searchTerms query, ¬term <:+: lower f.2) ∧
    (∀ m, (bestMatch c r query).1 = some m → ∃ before after, fields r = before ++ (m.field, m.content) :: after ∧
      Leads (searchTerms query) 0 before (m.field, m.content) after ∧
      m.html = ((c.afterFields query (leaders (searchTerms query) 0 before)).highlight .text m.content query).1) ∧
    ∃ hay, haystack r = .ok hay ∧
      (∀ f ∈ fields r, ∀ term ∈ searchTerms query, term <:+: lower f.2 → term <:+: hay) ∧
      ((searchTerms query).length = 1 → (bestMatch c r query).1 ≠ none → ∀ text,
        (text ∈ (Query.parse query).leaves ∨ text = query ∧ Query.isCompound query = false) →
        (∀ token ∈ tokens text, token <:+: hay) ∧ (r.quickLink? = none → holdsWords r text = .ok true)) := by
  obtain ⟨hay, hhay⟩ := Search.haystack_ok htext
  refine ⟨Query.nodup_searchTerms query, ?_, fun m h => leads_of_bestMatch h, hay, hhay, ?_, ?_⟩
  · rw [bestMatch_eq_none_iff]
    refine forall₂_congr fun f _ => ?_
    rw [termsIn_eq_zero_iff]
    -- an empty field holds no term anyway
    refine ⟨fun h _ => h, fun h term hterm hinfix => ?_⟩
    exact h (Search.ne_nil_of_found (Query.isWord_of_mem_searchTerms hterm) hinfix) term hterm hinfix
  · exact fun f hf term hterm => infix_haystack_of_mem_fields hhay htext (Query.isWord_of_mem_searchTerms hterm) hf
  · intro hone hbest text hasked
    obtain ⟨term, hterms⟩ := List.length_eq_one_iff.1 hone
    obtain ⟨m, hm⟩ := Option.ne_none_iff_exists'.1 hbest
    have hsubset : tokens text ⊆ searchTerms query := by
      rcases hasked with hleaf | ⟨rfl, hleaf⟩
      · exact Query.tokens_leaf_subset hleaf
      · exact Query.tokens_subset_of_leaf hleaf
    have htokens := tokens_infix_haystack hhay htext hterms hm hsubset
    exact ⟨htokens, fun hlink => Search.holdsWords_of_infix hlink hhay htokens⟩

/-- A plan whose summary holds two terms, as does a value of its metadata. -/
def drywallPlan : Record :=
  { Record.bare "1" "Drywall plan" (.document ⟨"Plan".toText, "Ann".toText⟩) with
    summary := "Tape and finish drywall".toText, metadata := [("trade".toText, .text "drywall tape".toText)] }

/-- Of the two fields that hold both terms the summary comes first. -/
theorem bestMatch_first_most_drywall : drywallPlan.IsTextual ∧
    (∃ m before after, (bestMatch (Cache.empty 10 100) drywallPlan "drywall tape".toText).1 = some m ∧
      fields drywallPlan = before ++ (m.field, m.content) :: after ∧ m.field = "summary".toText ∧
      Leads ["drywall".toText, "tape".toText] 0 before (m.field, m.content) after) ∧
    holdsWords drywallPlan "tape".toText = .ok true := by
  have htext : drywallPlan.IsTextual := by decide
  have hfield : (bestMatch (Cache.empty 10 100) drywallPlan "drywall tape".toText).1.map FieldMatch.field =
      some "summary".toText := by decide +kernel
  have hterms : searchTerms "drywall tape".toText = ["drywall".toText, "tape".toText] := by decide +kernel
  refine ⟨htext, ?_, ?_⟩
  · obtain ⟨m, hm, hname⟩ := Option.map_eq_some_iff.1 hfield
    obtain ⟨-, -, hmost, -⟩ := bestMatch_first_most (Cache.empty 10 100) "drywall tape".toText htext
    obtain ⟨before, after, hfields, hleads, -⟩ := hmost m hm
    exact ⟨m, before, after, hm, hfields, hname, hterms ▸ hleads⟩
  · obtain ⟨-, -, -, hay, -, -, hsingle⟩ := bestMatch_first_most (Cache.empty 10 100) "tape".toText htext
    exact (hsingle (by decide +kernel) (by decide +kernel) _ (.inr ⟨rfl, by decide +kernel⟩)).2 rfl

end BestMatch
end Marking
end LedgerSearch

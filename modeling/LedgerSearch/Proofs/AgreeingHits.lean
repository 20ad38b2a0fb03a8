import LedgerSearch.Marking.Snippet
import LedgerSearch.Proofs.Composition
import LedgerSearch.Proofs.FreeOccurrences
import LedgerSearch.Proofs.JoinedTexts
import LedgerSearch.Proofs.ReadMarks
import LedgerSearch.Proofs.RenderCache

/-!
# Hits that are marked

A search looks for its terms in lower forms, and marks are set where a term stands letter case aside. In texts of plain
characters these are the same places (`occursAt_iff_lower`). The first span that is offered is accepted, so a text has a
mark exactly if it is a hit (`marked_iff_hit`), and so has the best field of a record, even if its rendering comes from
the cache.
-/

namespace LedgerSearch

namespace Text

/-- The first 128 characters alone. -/
def IsAscii (t : Text) : Prop := ∀ c ∈ t, c.toNat < 128

instance (t : Text) : Decidable (IsAscii t) := inferInstanceAs (Decidable (∀ c ∈ t, c.toNat < 128))

variable {t term text : Text} {c : CodePoint} {i : Nat}

/-- Of plain letters no two small ones match, and the lower form of one is plain. -/
theorem plain_letters : ∀ n < 128, matchKey (CodePoint.ofNat n) = lowerLetter (CodePoint.ofNat n) ∧
    (lowerLetter (CodePoint.ofNat n)).toNat < 128 := by decide +kernel

theorem matchKey_of_plain (hc : c.toNat < 128) : matchKey c = lowerLetter c := by
  simpa [CodePoint.ofNat_toNat] using (plain_letters c.toNat hc).1

theorem lowerAt_of_plain (hc : c.toNat < 128) (before after : Text) : lowerAt before c after = [lowerLetter c] := by
  have hsigma : c ≠ 'Σ' := by
    rintro rfl
    exact absurd hc (by decide)
  have hdotted : c ≠ 'İ' := by
    rintro rfl
    exact absurd hc (by decide)
  rw [lowerAt, if_neg hsigma, if_neg hdotted]

theorem IsAscii.lowerAfter_eq (h : IsAscii t) (before : Text) : lowerAfter before t = t.map lowerLetter := by
  induction t generalizing before with
  | nil => rfl
  | cons c t ih =>
    obtain ⟨hc, ht⟩ := List.forall_mem_cons.1 h
    rw [lowerAfter, lowerAt_of_plain hc, ih ht, List.singleton_append, List.map_cons]

theorem IsAscii.lower_eq (h : IsAscii t) : lower t = t.map lowerLetter := h.lowerAfter_eq []

theorem IsAscii.map_matchKey (h : IsAscii t) : t.map matchKey = lower t := by
  rw [h.lower_eq]
  exact List.map_congr_left fun c hc => matchKey_of_plain (h c hc)

theorem IsAscii.lower (h : IsAscii t) : IsAscii (lower t) := by
  rw [h.lower_eq]
  rintro _ hlower
  obtain ⟨c, hc, rfl⟩ := List.mem_map.1 hlower
  simpa [CodePoint.ofNat_toNat] using (plain_letters c.toNat (h c hc)).2

/-- In a plain text a term of small letters stands where it is a run of the lower form. -/
theorem occursAt_iff_lower (htext : IsAscii text) (hterm : IsAscii term) (hsmall : ∀ c ∈ term, IsSmall c) :
    OccursAt term text i ↔ term <+: (Text.lower text).drop i := by
  rw [occursAt_iff, htext.map_matchKey, hterm.map_matchKey, lower_eq_self hsmall]

theorem occursIn_iff_exists_prefix : occursIn term t = true ↔ ∃ i, term <+: t.drop i := by
  rw [occursIn_iff, List.infix_iff_prefix_suffix]
  constructor
  · rintro ⟨s, hprefix, hsuffix⟩
    rw [List.suffix_iff_eq_drop] at hsuffix
    exact ⟨_, hsuffix ▸ hprefix⟩
  · rintro ⟨i, hprefix⟩
    exact ⟨_, hprefix, List.drop_suffix i t⟩

end Text

namespace Query

open Text (IsAscii words)

variable {query term : Text}

/-- The words of the leaves are words of the query. -/
theorem words_leaf_subset (query : Text) : ∀ leaf ∈ (parse query).leaves, words leaf ⊆ words query := by
  induction query using parse_induction with
  | splits q op b a h ihb iha =>
    rw [h.parse_eq, h.words_eq, Tree.leaves, List.forall_mem_append]
    exact ⟨fun leaf hleaf => List.subset_append_of_subset_left _ (ihb leaf hleaf),
      fun leaf hleaf => List.subset_append_of_subset_right _ (List.subset_cons_of_subset _ (iha leaf hleaf))⟩
  | negates q a h ih =>
    rw [h.parse_eq, h.words_eq, Tree.leaves]
    exact fun leaf hleaf => List.subset_cons_of_subset _ (ih leaf hleaf)
  | leaf q h =>
    rw [h.parse_eq, Tree.leaves, List.forall_mem_singleton, Text.words_strip]
    exact List.Subset.refl _

theorem isAscii_of_mem_searchTerms (hquery : IsAscii query) (h : term ∈ searchTerms query) : IsAscii term := by
  rw [searchTerms, List.mem_eraseDups] at h
  obtain ⟨leaf, hleaf, hterm⟩ := List.mem_flatMap.1 h
  rw [tokens_eq_map_lower] at hterm
  obtain ⟨w, hw, rfl⟩ := List.mem_map.1 hterm
  have hword := words_leaf_subset query leaf hleaf hw
  exact IsAscii.lower fun c hc => hquery c ((Text.infix_of_mem_words hword).subset hc)

end Query

namespace Text

/-- An enumerated occurrence is one, and it is as long as the term. -/
theorem startsMatching_of_mem_occurrencesFrom {term t : Text} {offset skip : Nat} {bounds : Nat × Nat}
    (h : bounds ∈ occurrencesFrom term offset skip t) :
    ∃ i, bounds = (offset + i, offset + i + term.length) ∧ startsMatching term (t.drop i) = true := by
  induction t generalizing offset skip with
  | nil => cases h
  | cons c rest ih =>
    have hlater : ∀ {skip : Nat}, bounds ∈ occurrencesFrom term (offset + 1) skip rest →
        ∃ i, bounds = (offset + i, offset + i + term.length) ∧ startsMatching term ((c :: rest).drop i) = true := by
      intro skip h
      obtain ⟨i, rfl, hmatch⟩ := ih h
      exact ⟨i + 1, by rw [Nat.add_right_comm, Nat.add_assoc offset], hmatch⟩
    cases skip with
    | succ n => exact hlater h
    | zero =>
      rw [occurrencesFrom] at h
      split at h
      case isTrue hmatch =>
        rcases List.mem_cons.1 h with rfl | h
        · exact ⟨0, rfl, hmatch⟩
        · exact hlater h
      case isFalse => exact hlater h

theorem occursAt_of_mem_occurrences {term text : Text} {bounds : Nat × Nat} (h : bounds ∈ occurrences term text) :
    bounds.2 = bounds.1 + term.length ∧ OccursAt term text bounds.1 := by
  obtain ⟨i, rfl, hmatch⟩ := startsMatching_of_mem_occurrencesFrom h
  rw [Nat.zero_add]
  exact ⟨rfl, hmatch⟩

end Text

namespace Marking

open Query (searchTerms)
open Text (IsAscii OccursAt occursIn)

section Terms

variable {text query term : Text} {m : Mark} {i : Nat}

/-- A mark of text mode is set where a term stands. -/
theorem exists_term_of_mem_marksIn (h : m ∈ marksIn (highlight .text text query)) :
    ∃ term ∈ searchTerms query, OccursAt term text m.start ∧ m.content = (text.drop m.start).take term.length := by
  obtain ⟨-, hspan, hprefix⟩ := mem_marksIn_highlight.1 h
  rcases Tracker.mem_claimAll (Sorting.mem_sort.1 hspan) with hnone | hoffered
  · cases hnone
  obtain ⟨term, hterm, hbounds⟩ := List.mem_flatMap.1 hoffered
  obtain ⟨bounds, hmem, hspan⟩ := List.mem_map.1 hbounds
  obtain ⟨hstop, hoccurs⟩ := Text.occursAt_of_mem_occurrences hmem
  obtain ⟨-, hstart, hend⟩ := span_eq_iff.1 hspan.symm
  refine ⟨term, Sorting.mem_sort.1 hterm, hstart ▸ hoccurs, ?_⟩
  have hcount : m.content.length = term.length := by
    rw [Mark.stop] at hend
    omega
  rw [← hcount, ← List.prefix_iff_eq_take.1 hprefix]

/-- Where a term stands in a text there is a mark, though not always of that term. -/
theorem marksIn_ne_nil_of_occursAt (hterm : term ∈ searchTerms query) (h : OccursAt term text i) :
    marksIn (highlight .text text query) ≠ [] := by
  have hidle := isIdle_of_occursAt hterm h
  obtain ⟨start, stop, htouched⟩ : ∃ start stop, Touched (highlight .text text query) start stop := by
    rcases touched_or_begins_inside hterm h with htouched | ⟨j, -, -, -, htouched⟩
    · exact ⟨_, _, htouched⟩
    · exact ⟨_, _, htouched⟩
  obtain ⟨s, hs, -⟩ := (touched_highlight_iff hidle).1 htouched
  obtain ⟨m, hm, -⟩ := exists_mark_of_mem_marks hidle hs
  exact List.ne_nil_of_mem hm

variable (hquery : IsAscii query)
include hquery

theorem marksIn_ne_nil_iff (htext : IsAscii text) : marksIn (highlight .text text query) ≠ [] ↔
    ∃ term ∈ searchTerms query, occursIn term (Text.lower text) = true := by
  have hplaces : ∀ {term i}, term ∈ searchTerms query → (OccursAt term text i ↔ term <+: (Text.lower text).drop i) :=
    fun hterm => Text.occursAt_iff_lower htext (Query.isAscii_of_mem_searchTerms hquery hterm)
      (Query.isSmall_of_mem_searchTerms hterm)
  constructor
  · intro hmarked
    obtain ⟨m, hm⟩ := List.exists_mem_of_ne_nil _ hmarked
    obtain ⟨term, hterm, hoccurs, -⟩ := exists_term_of_mem_marksIn hm
    exact ⟨term, hterm, Text.occursIn_iff_exists_prefix.2 ⟨_, (hplaces hterm).1 hoccurs⟩⟩
  · rintro ⟨term, hterm, hhit⟩
    obtain ⟨i, hprefix⟩ := Text.occursIn_iff_exists_prefix.1 hhit
    exact marksIn_ne_nil_of_occursAt hterm ((hplaces hterm).2 hprefix)

theorem lower_content_mem_searchTerms (htext : IsAscii text) (hm : m ∈ marksIn (highlight .text text query)) :
    Text.lower m.content ∈ searchTerms query := by
  obtain ⟨term, hterm, hoccurs, hcontent⟩ := exists_term_of_mem_marksIn hm
  rw [Text.occursAt_iff_lower htext (Query.isAscii_of_mem_searchTerms hquery hterm)
    (Query.isSmall_of_mem_searchTerms hterm), htext.lower_eq, List.prefix_iff_eq_take] at hoccurs
  have hplain : IsAscii m.content := fun c hc =>
    htext c (List.mem_of_mem_drop (List.mem_of_mem_take (hcontent ▸ hc)))
  rw [hplain.lower_eq, hcontent, List.map_take, List.map_drop, ← hoccurs]
  exact hterm

end Terms

section Fields

/-- Every rendering in the cache has a mark. -/
def Cache.ShowsMarks (c : Cache) : Prop := ∀ p ∈ c.entries, marksIn p.2 ≠ []

variable {query content : Text} {c : Cache} (hquery : IsAscii query)
include hquery

/-- A field with a hit is rendered with a mark, now or when another one of its key was. -/
theorem showsMarks_highlight (hc : c.ShowsMarks) (hcontent : IsAscii content)
    (hhit : 0 < termsIn (searchTerms query) content) :
    marksIn (c.highlight .text content query).1 ≠ [] ∧ (c.highlight .text content query).2.ShowsMarks := by
  obtain ⟨term, hterm, hoccurs⟩ := List.countP_pos_iff.1 hhit
  have hfresh := (marksIn_ne_nil_iff hquery hcontent).2 ⟨term, hterm, hoccurs⟩
  obtain ⟨i, hprefix⟩ := Text.occursIn_iff_exists_prefix.1 hoccurs
  have hidle := isIdle_of_occursAt hterm ((Text.occursAt_iff_lower hcontent
    (Query.isAscii_of_mem_searchTerms hquery hterm) (Query.isSmall_of_mem_searchTerms hterm)).2 hprefix)
  rw [Cache.highlight, hidle, if_neg Bool.false_ne_true]
  dsimp only
  split
  case h_1 html hget => exact ⟨hc _ (Entries.mem_of_find? hget), hc⟩
  case h_2 =>
    refine ⟨hfresh, fun p hp => ?_⟩
    rcases Cache.mem_of_mem_put hp with rfl | hp
    · exact hfresh
    · exact hc p hp

/-- Improving on a match that has a mark ends with a match that has one. -/
theorem showsMarks_improve {best : Option FieldMatch} {top : Nat} {fields : List Field} (hc : c.ShowsMarks)
    (hbest : ∀ m ∈ best, marksIn m.html ≠ []) (hfields : ∀ f ∈ fields, IsAscii f.2) :
    (∀ m ∈ (improve (searchTerms query) query best top c fields).1, marksIn m.html ≠ []) ∧
      (improve (searchTerms query) query best top c fields).2.ShowsMarks := by
  induction fields generalizing best top c with
  | nil => exact ⟨hbest, hc⟩
  | cons f rest ih =>
    obtain ⟨hf, hrest⟩ := List.forall_mem_cons.1 hfields
    rw [improve]
    split
    case isTrue hmore =>
      obtain ⟨hmarked, hnext⟩ := showsMarks_highlight hquery hc hf (Nat.zero_lt_of_lt hmore)
      refine ih hnext ?_ hrest
      rintro m ⟨⟩
      exact hmarked
    case isFalse => exact ih hc hbest hrest

end Fields

/-- With nothing remembered, a plain text is shown with a mark exactly if one of the plain terms of the query is a run of
its lower form, and the lower form of what is in a mark is one of these terms. The best field of a record of plain texts
is shown with a mark. -/
theorem marked_iff_hit (capacity openingLength : Int) {query : Text} (hquery : IsAscii query) :
    (∀ text, IsAscii text →
      (marksIn ((Cache.empty capacity openingLength).highlight .text text query).1 ≠ [] ↔
        ∃ term ∈ searchTerms query, occursIn term (Text.lower text) = true) ∧
      ∀ m ∈ marksIn ((Cache.empty capacity openingLength).highlight .text text query).1,
        Text.lower m.content ∈ searchTerms query) ∧
    ∀ r : Record, (∀ f ∈ fields r, IsAscii f.2) →
      ∀ m ∈ (bestMatch (Cache.empty capacity openingLength) r query).1, marksIn m.html ≠ [] := by
  constructor
  · intro text htext
    rw [fst_highlight_of_get?_eq_none rfl]
    exact ⟨marksIn_ne_nil_iff hquery htext, fun m hm => lower_content_mem_searchTerms hquery htext hm⟩
  · intro r hr
    have hempty : (Cache.empty capacity openingLength).ShowsMarks := List.forall_mem_nil _
    have hnone : ∀ m ∈ (none : Option FieldMatch), marksIn m.html ≠ [] := fun m hm => nomatch hm
    exact (showsMarks_improve hquery hempty hnone hr).1

/-- Two of the terms stand in one place of a text, and the title of a door holds one of them. -/
theorem marked_iff_hit_door :
    IsAscii "door OR doors".toText ∧
      marksIn ((Cache.empty 10 100).highlight .text "OAK & DOORS".toText "door OR doors".toText).1 ≠ [] ∧
      ∃ m ∈ (bestMatch (Cache.empty 10 100) Search.oakDoor "door OR doors".toText).1, marksIn m.html ≠ [] := by
  have hquery : IsAscii "door OR doors".toText := by decide
  obtain ⟨htexts, hrecords⟩ := marked_iff_hit 10 100 hquery
  refine ⟨hquery, (htexts "OAK & DOORS".toText (by decide)).1.2 (by decide +kernel), ?_⟩
  obtain ⟨m, hm⟩ : ∃ m, m ∈ (bestMatch (Cache.empty 10 100) Search.oakDoor "door OR doors".toText).1 :=
    Option.isSome_iff_exists.1 (by decide +kernel)
  exact ⟨m, hm, hrecords Search.oakDoor (by decide +kernel) m hm⟩

end Marking
end LedgerSearch

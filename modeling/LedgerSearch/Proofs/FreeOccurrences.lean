import LedgerSearch.Proofs.LowerLetters
import LedgerSearch.Proofs.MarkedPlaces
import LedgerSearch.Proofs.Occurrences
import LedgerSearch.Proofs.WrittenTrees

/-!
# Occurrences without a mark

Each enumerated occurrence of a term is touched by a mark: its own, or the one that it met. An occurrence that is not
enumerated begins inside of an earlier one, whose mark it may miss where a longer term stands in that one's way. This
happens exactly to terms whose end stands at their own beginning (`touched_iff_not_overlapsItself`).
-/

namespace LedgerSearch

namespace Query

open Text (IsSmall IsWord words)

variable {term query s t : Text}

theorem exists_word_of_mem_tokens (h : term ∈ tokens query) : ∃ w, IsWord w ∧ term = Text.lower w := by
  rw [tokens_eq_map_lower] at h
  obtain ⟨w, hw, rfl⟩ := List.mem_map.1 h
  exact ⟨w, Text.isWord_of_mem_words hw, rfl⟩

theorem exists_word_of_mem_searchTerms (h : term ∈ searchTerms query) : ∃ w, IsWord w ∧ term = Text.lower w := by
  rw [searchTerms, List.mem_eraseDups] at h
  obtain ⟨leaf, -, hterm⟩ := List.mem_flatMap.1 h
  exact exists_word_of_mem_tokens hterm

theorem isWord_of_mem_searchTerms (h : term ∈ searchTerms query) : IsWord term := by
  obtain ⟨w, hw, rfl⟩ := exists_word_of_mem_searchTerms h
  exact hw.lower

theorem isSmall_of_mem_searchTerms (h : term ∈ searchTerms query) : ∀ c ∈ term, IsSmall c := by
  obtain ⟨w, -, rfl⟩ := exists_word_of_mem_searchTerms h
  exact fun _ => Text.isSmall_of_mem_lower

/-- Operator words are written in capitals. -/
theorem word_ne_of_isSmall (op : Operator) (ht : ∀ c ∈ t, IsSmall c) : op.word ≠ t := by
  rintro rfl
  have hsame := Text.lower_eq_self ht
  revert hsame
  cases op <;> decide

theorem isLeaf_of_isSmall (h : ∀ w ∈ words query, ∀ c ∈ w, IsSmall c) : IsLeaf query where
  whole op := innerIndex?_eq_none_of_notMem fun hmem => word_ne_of_isSmall op (h _ hmem) rfl
  head _ hwords := absurd rfl (word_ne_of_isSmall .without (h _ (hwords ▸ List.mem_cons_self)))

/-- Two words of small letters with a space between them are the terms of the query that they make. -/
theorem searchTerms_pair (hs : IsWord s) (ht : IsWord t) (hsmall : ∀ w ∈ [s, t], ∀ c ∈ w, IsSmall c) (hne : s ≠ t) :
    searchTerms (s ++ " ".toText ++ t) = [s, t] := by
  have hwords : words (s ++ " ".toText ++ t) = [s, t] := by
    rw [List.append_assoc, Text.words_word_append hs (isGap_space.startsBlank.append (List.cons_ne_nil _ _) t),
      Text.words_gap_append isGap_space, Text.words_word ht]
  have htokens : tokens (s ++ " ".toText ++ t) = [s, t] := by
    rw [tokens_eq_map_lower, hwords, List.map_cons, List.map_singleton,
      Text.lower_eq_self (hsmall s List.mem_cons_self),
      Text.lower_eq_self (hsmall t (List.mem_cons_of_mem s List.mem_cons_self))]
  rw [searchTerms, (isLeaf_of_isSmall (hwords ▸ hsmall)).parse_eq, Tree.leaves, List.flatMap_singleton,
    tokens_congr (Text.words_strip _), htokens]
  simp [List.eraseDups_cons, Ne.symm hne]

end Query

namespace Marking

open Query (searchTerms)
open Text (IsSmall IsWord OccursAt OverlapsItself lettersMatch)

namespace Tracker

variable {t : Tracker} {start stop : Int} {s : Span}

theorem overlaps_iff : t.overlaps start stop = true ↔ ∃ a ∈ t.accepted, meets start stop a.start a.stop = true :=
  List.any_eq_true

theorem overlaps_claim (h : t.overlaps start stop = true) (s : Span) : (t.claim s).overlaps start stop = true := by
  unfold claim
  split
  case isTrue =>
    obtain ⟨a, ha, hmeets⟩ := overlaps_iff.1 h
    exact overlaps_iff.2 ⟨a, List.mem_append_left _ ha, hmeets⟩
  case isFalse => exact h

theorem overlaps_claimAll (h : t.overlaps start stop = true) (spans : List Span) :
    (t.claimAll spans).overlaps start stop = true := by
  induction spans generalizing t with
  | nil => exact h
  | cons s rest ih => exact ih (overlaps_claim h s)

/-- An offered span is accepted or meets an accepted one. -/
theorem overlaps_claim_self (hfilled : s.start < s.stop) (t : Tracker) :
    (t.claim s).overlaps s.start s.stop = true := by
  unfold claim
  split
  case isTrue =>
    have hmeets : meets s.start s.stop s.start s.stop = true := by simp [meets, hfilled]
    exact overlaps_iff.2 ⟨s, List.mem_append_right _ List.mem_cons_self, hmeets⟩
  case isFalse hadmits => simpa [admits, hfilled] using hadmits

theorem overlaps_claimAll_of_mem {spans : List Span} (hs : s ∈ spans) (hfilled : s.start < s.stop) (t : Tracker) :
    (t.claimAll spans).overlaps s.start s.stop = true := by
  induction spans generalizing t with
  | nil => cases hs
  | cons a rest ih =>
    rcases List.mem_cons.1 hs with rfl | hs
    · exact overlaps_claimAll (overlaps_claim_self hfilled t) rest
    · exact ih hs (t.claim a)

end Tracker

section Terms

variable {term text query : Text} {i j start stop : Nat}

theorem touched_iff_overlaps (hidle : isIdle text query = false) : Touched (highlight .text text query) start stop ↔
    (markTerms text (searchTerms query) .term Tracker.empty).overlaps start stop = true := by
  rw [touched_highlight_iff hidle, Tracker.overlaps_iff]
  exact exists_congr fun s => and_congr_left fun _ => Sorting.mem_sort

/-- A text with an occurrence of a term is looked through. -/
theorem isIdle_of_occursAt (hterm : term ∈ searchTerms query) (h : OccursAt term text i) :
    isIdle text query = false := by
  have htext : text ≠ [] := by
    rintro rfl
    rw [OccursAt, List.drop_nil] at h
    exact Text.not_startsMatching_nil (Query.isWord_of_mem_searchTerms hterm).1 h
  have hquery : Text.strip query ≠ [] := by
    intro hblank
    have hparse : Query.parse query = .leaf [] := by
      rw [← Query.parse_strip, hblank]
      decide +kernel
    rw [searchTerms, hparse] at hterm
    cases hterm
  rw [isIdle, List.isEmpty_eq_false_iff.2 htext, List.isEmpty_eq_false_iff.2 hquery, Bool.or_false]

theorem touched_of_mem_occurrences (hterm : term ∈ searchTerms query) (hidle : isIdle text query = false)
    (h : (j, j + term.length) ∈ Text.occurrences term text) :
    Touched (highlight .text text query) j (j + term.length) := by
  have hpos := List.length_pos_iff.2 (Query.isWord_of_mem_searchTerms hterm).1
  have hoffered : spanFor .term (j, j + term.length) ∈ (longestFirst (searchTerms query)).flatMap fun term =>
      (Text.occurrences term text).map (spanFor .term) :=
    List.mem_flatMap.2 ⟨term, Sorting.mem_sort.2 hterm, List.mem_map_of_mem h⟩
  exact (touched_iff_overlaps hidle).2
    (Tracker.overlaps_claimAll_of_mem hoffered (Int.ofNat_lt.2 (Nat.lt_add_of_pos_right hpos)) Tracker.empty)

/-- An occurrence is touched, or it begins inside of an earlier one that is. -/
theorem touched_or_begins_inside (hterm : term ∈ searchTerms query) (h : OccursAt term text i) :
    Touched (highlight .text text query) i (i + term.length) ∨ ∃ j < i, i < j + term.length ∧ OccursAt term text j ∧
      Touched (highlight .text text query) j (j + term.length) := by
  obtain ⟨j, hle, hlt, hj, hmem⟩ := Text.exists_enumerated (Query.isWord_of_mem_searchTerms hterm).1 h
  have htouched := touched_of_mem_occurrences hterm (isIdle_of_occursAt hterm h) hmem
  rcases Nat.eq_or_lt_of_le hle with rfl | hbefore
  · exact .inl htouched
  · exact .inr ⟨j, hbefore, hlt, hj, htouched⟩

/-- A letter that is not matched by the given one. -/
def stranger (a : CodePoint) : CodePoint := if lettersMatch a 'x' then 'y' else 'x'

theorem stranger_eq (a : CodePoint) : stranger a = 'x' ∨ stranger a = 'y' := by
  unfold stranger
  split
  · exact .inr rfl
  · exact .inl rfl

theorem lettersMatch_stranger (a : CodePoint) : lettersMatch a (stranger a) = false := by
  unfold stranger
  split
  case isTrue hx =>
    rw [lettersMatch, beq_iff_eq] at hx
    rw [lettersMatch, hx]
    decide +kernel
  case isFalse hx => exact Bool.eq_false_iff.2 hx

/-- Strangers to a letter, twice a number of them, and the letter behind them. -/
def blocker (a : CodePoint) (n : Nat) : Text := List.replicate (2 * n) (stranger a) ++ [a]

/-- A text in which a blocker of the first letter ends in the first of two copies of a term that share some letters. -/
def blockedText (a : CodePoint) (term : Text) (k : Nat) : Text :=
  List.replicate (2 * term.length) (stranger a) ++ (term.take k ++ term)

variable {a : CodePoint} {u : Text} {k : Nat}

theorem length_blocker (a : CodePoint) (n : Nat) : (blocker a n).length = 2 * n + 1 := by
  rw [blocker, List.length_append, List.length_replicate, List.length_singleton]

theorem blocker_ne_nil (a : CodePoint) (n : Nat) : blocker a n ≠ [] :=
  List.append_ne_nil_of_right_ne_nil _ (List.cons_ne_nil a [])

theorem occurrences_blocker (h0 : 0 < k) (hk : k < (a :: u).length) :
    Text.occurrences (blocker a (a :: u).length) (blockedText a (a :: u) k) = [(0, 2 * (a :: u).length + 1)] := by
  obtain ⟨k, rfl⟩ := Nat.exists_eq_add_of_lt h0
  have hopens : blocker a (a :: u).length <+: blockedText a (a :: u) (0 + k + 1) :=
    (List.prefix_append_right_inj _).2 ⟨u.take (0 + k) ++ a :: u, rfl⟩
  have hshort : (blockedText a (a :: u) (0 + k + 1)).length < 2 * (blocker a (a :: u).length).length := by
    rw [length_blocker, blockedText, List.length_append, List.length_append, List.length_replicate, List.length_take]
    omega
  have hmatch := Text.startsMatching_iff.2 (hopens.map Text.matchKey)
  rw [Text.occurrences, Text.occurrencesFrom_single (blocker_ne_nil _ _) hmatch hshort, length_blocker, Nat.zero_add]

theorem occurrences_blocked (hk : k < (a :: u).length)
    (hends : Text.startsMatching ((a :: u).drop k) (a :: u) = true) :
    Text.occurrences (a :: u) (blockedText a (a :: u) k) =
      [(2 * (a :: u).length, 2 * (a :: u).length + (a :: u).length)] := by
  rw [Text.occurrences, blockedText, Text.occurrencesFrom_replicate_append (lettersMatch_stranger a),
    Text.occurrencesFrom_single (List.cons_ne_nil a u) (Text.startsMatching_take_append hends), Nat.zero_add]
  rw [List.length_append, List.length_take]
  omega

theorem occursAt_blockedText (hk : k < term.length) :
    OccursAt term (blockedText a term k) (2 * term.length + k) := by
  have hdrop : (blockedText a term k).drop (2 * term.length + k) = term := by
    rw [blockedText, ← List.append_assoc, List.drop_left']
    rw [List.length_append, List.length_replicate, List.length_take]
    omega
  rw [OccursAt, hdrop]
  exact Text.startsMatching_iff.2 List.prefix_rfl

theorem searchTerms_blocker (hword : IsWord (a :: u)) (hsmall : ∀ c ∈ a :: u, IsSmall c) :
    searchTerms (blocker a (a :: u).length ++ " ".toText ++ a :: u) = [blocker a (a :: u).length, a :: u] := by
  have hletter : ∀ c ∈ blocker a (a :: u).length, IsSmall c ∧ Text.isBlank c = false := by
    intro c hc
    rcases List.mem_append.1 hc with hc | hc
    · rw [(List.mem_replicate.1 hc).2]
      rcases stranger_eq a with heq | heq
      all_goals
        rw [heq]
        exact ⟨⟨by decide, by decide⟩, by decide⟩
    · rw [List.mem_singleton.1 hc]
      exact ⟨hsmall a List.mem_cons_self, hword.2 a List.mem_cons_self⟩
  refine Query.searchTerms_pair ⟨blocker_ne_nil _ _, fun c hc => (hletter c hc).2⟩ hword ?_ ?_
  · exact List.forall_mem_cons.2 ⟨fun c hc => (hletter c hc).1, List.forall_mem_singleton.2 hsmall⟩
  · intro heq
    have hlen := congrArg List.length heq
    rw [length_blocker] at hlen
    omega

/-- The blocker is marked, the first copy of the term is refused, and the second one is not offered. -/
theorem markTerms_blocked (h0 : 0 < k) (hk : k < (a :: u).length)
    (hends : Text.startsMatching ((a :: u).drop k) (a :: u) = true) :
    markTerms (blockedText a (a :: u) k) [blocker a (a :: u).length, a :: u] .term Tracker.empty =
      ⟨[spanFor .term (0, 2 * (a :: u).length + 1)]⟩ := by
  have hsort : longestFirst [blocker a (a :: u).length, a :: u] = [blocker a (a :: u).length, a :: u] := by
    have hlonger : (a :: u).length ≤ (blocker a (a :: u).length).length := by
      rw [length_blocker]
      omega
    exact Sorting.sort_eq_self (List.pairwise_pair.2 (decide_eq_true hlonger))
  have hfirst : Tracker.empty.claim (spanFor .term (0, 2 * (a :: u).length + 1)) =
      ⟨[spanFor .term (0, 2 * (a :: u).length + 1)]⟩ := by
    refine if_pos (Tracker.admits_iff.2 ⟨?_, List.forall_mem_nil _⟩)
    simp only [spanFor]
    omega
  have hsecond : (Tracker.mk [spanFor .term (0, 2 * (a :: u).length + 1)]).claim
      (spanFor .term (2 * (a :: u).length, 2 * (a :: u).length + (a :: u).length)) =
        ⟨[spanFor .term (0, 2 * (a :: u).length + 1)]⟩ := by
    refine if_neg fun hadmits => ?_
    have hclear := (Tracker.admits_iff.1 hadmits).2 _ List.mem_cons_self
    simp only [spanFor] at hclear
    omega
  rw [markTerms, hsort, List.flatMap_cons, List.flatMap_singleton, occurrences_blocker h0 hk,
    occurrences_blocked hk hends]
  simp only [List.map_singleton, List.singleton_append, Tracker.claimAll, List.foldl_cons, List.foldl_nil]
  rw [hfirst, hsecond]

/-- Some text and query leave an occurrence of a term that overlaps itself without a mark. -/
theorem exists_untouched (hword : IsWord term) (hsmall : ∀ c ∈ term, IsSmall c) (h : OverlapsItself term) :
    ∃ text query i, term ∈ searchTerms query ∧ OccursAt term text i ∧
      ¬Touched (highlight .text text query) i (i + term.length) := by
  obtain ⟨k, hk, h0, hends⟩ := h
  cases term with
  | nil => exact absurd rfl hword.1
  | cons a u =>
    have hterms := searchTerms_blocker hword hsmall
    have hterm : a :: u ∈ searchTerms (blocker a (a :: u).length ++ " ".toText ++ a :: u) := by
      rw [hterms]
      exact List.mem_cons_of_mem _ List.mem_cons_self
    have hoccurs : OccursAt (a :: u) (blockedText a (a :: u) k) (2 * (a :: u).length + k) := occursAt_blockedText hk
    refine ⟨_, _, _, hterm, hoccurs, ?_⟩
    rw [touched_iff_overlaps (isIdle_of_occursAt hterm hoccurs), hterms, markTerms_blocked h0 hk hends,
      Tracker.overlaps_iff]
    rintro ⟨s, hs, hmeets⟩
    rw [List.mem_singleton.1 hs, meets, decide_eq_true_eq] at hmeets
    simp only [spanFor] at hmeets
    omega

end Terms

/-- With nothing remembered, every occurrence of a term in a text is touched by a mark or begins inside of an earlier
one that is. Every occurrence is touched in all texts and beside all other terms exactly if no end of the term stands at
its own beginning. -/
theorem touched_iff_not_overlapsItself (capacity openingLength : Int) {term query : Text}
    (h : term ∈ searchTerms query) : (∀ text i, OccursAt term text i →
      Touched ((Cache.empty capacity openingLength).highlight .text text query).1 i (i + term.length) ∨
        ∃ j < i, i < j + term.length ∧ OccursAt term text j ∧
          Touched ((Cache.empty capacity openingLength).highlight .text text query).1 j (j + term.length)) ∧
    ((∀ text query, term ∈ searchTerms query → ∀ i, OccursAt term text i →
      Touched ((Cache.empty capacity openingLength).highlight .text text query).1 i (i + term.length)) ↔
        ¬OverlapsItself term) := by
  have hfresh : ∀ text query, ((Cache.empty capacity openingLength).highlight .text text query).1 =
      highlight .text text query := fun text query => fst_highlight_of_get?_eq_none rfl
  simp only [hfresh]
  refine ⟨fun text i hi => touched_or_begins_inside h hi, ?_, ?_⟩
  · intro hall hoverlaps
    obtain ⟨text, query', i, hterm, hi, huntouched⟩ :=
      exists_untouched (Query.isWord_of_mem_searchTerms h) (Query.isSmall_of_mem_searchTerms h) hoverlaps
    exact huntouched (hall text query' hterm i hi)
  · intro hfree text query' hterm i hi
    rcases touched_or_begins_inside hterm hi with htouched | ⟨j, hlt, hinside, hj, -⟩
    · exact htouched
    · exact absurd (Text.overlapsItself_of_occursAt hj hi hlt hinside) hfree

/-- In an order number the longer term stands in the way of one occurrence of the year, and the next one goes without a
mark. -/
theorem untouched_orderNumber : "2020".toText ∈ searchTerms "po-20 2020".toText ∧
    OccursAt "2020".toText "PO-202020".toText 5 ∧
    ¬Touched ((Cache.empty 1000 100).highlight .text "PO-202020".toText "po-20 2020".toText).1 5 9 := by
  refine ⟨by decide +kernel, by decide +kernel, ?_⟩
  have hmarks : marks .text "PO-202020".toText "po-20 2020".toText = [spanFor .term (0, 5)] := by decide +kernel
  rw [fst_highlight_of_get?_eq_none rfl, touched_highlight_iff (by decide +kernel), hmarks]
  decide

/-- The second roof is touched by the mark of a longer term. -/
theorem touched_roof : OccursAt "roof".toText "Roof, ROOFS".toText 6 ∧
    Touched ((Cache.empty 1000 100).highlight .text "Roof, ROOFS".toText "roof OR roofs".toText).1 6 10 := by
  have hterm : "roof".toText ∈ searchTerms "roof OR roofs".toText := by decide +kernel
  have hoccurs : OccursAt "roof".toText "Roof, ROOFS".toText 6 := by decide +kernel
  have hfree : ¬OverlapsItself "roof".toText := by decide +kernel
  exact ⟨hoccurs, (touched_iff_not_overlapsItself 1000 100 hterm).2.2 hfree _ _ hterm 6 hoccurs⟩

end Marking
end LedgerSearch

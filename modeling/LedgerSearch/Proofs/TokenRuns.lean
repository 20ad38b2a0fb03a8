import LedgerSearch.Proofs.LowerLetters
import LedgerSearch.Proofs.SearchedTexts
import LedgerSearch.Proofs.Spacing

/-!
# The runs that tokens are

A run of a text is a stretch of places without a blank that is part of no longer such stretch. A word in its place is a
run (`Cut.isRun`) and a run is a word in its place (`IsRun.cut`), so the words of a text are its runs from left to right
(`exists_runs`). Lower forms are made word by word, so the tokens of two texts that meet at a blank are those of the one
followed by those of the other (`tokens_append`), and lowering twice is lowering once, so tokens are their own tokens
(`tokens_joinWords`). A search asks for each token on its own (`tokens_set_apart`).
-/

namespace LedgerSearch

namespace Text

variable {t before word after : Text} {first stop i : Nat} {c : CodePoint}

/-- The places from one up to another: one at least, all of them in the text, and none of a blank. -/
structure IsSolid (t : Text) (first stop : Nat) : Prop where
  first_lt : first < stop
  stop_le : stop ≤ t.length
  solid : ∀ i, first ≤ i → i < stop → ∀ c ∈ t[i]?, isBlank c = false

/-- A stretch without a blank that is part of no longer one. -/
structure IsRun (t : Text) (first stop : Nat) : Prop extends IsSolid t first stop where
  maximal : ∀ first' stop', first' ≤ first → stop ≤ stop' → IsSolid t first' stop' → first' = first ∧ stop' = stop

theorem IsSolid.false_of_blank (h : IsSolid t first stop) (hfirst : first ≤ i) (hstop : i < stop) (hi : c ∈ t[i]?)
    (hc : isBlank c = true) : False := by
  rw [h.solid i hfirst hstop c hi] at hc
  cases hc

theorem IsSolid.grow_front (h : IsSolid t (first + 1) stop) (hi : c ∈ t[first]?) (hc : isBlank c = false) :
    IsSolid t first stop where
  first_lt := Nat.lt_of_succ_lt h.first_lt
  stop_le := h.stop_le
  solid i hfirst hstop d hd := by
    rcases Nat.eq_or_lt_of_le hfirst with rfl | hlt
    · rwa [Option.mem_unique hd hi]
    · exact h.solid i hlt hstop d hd

theorem IsSolid.grow_back (h : IsSolid t first stop) (hi : c ∈ t[stop]?) (hc : isBlank c = false) :
    IsSolid t first (stop + 1) where
  first_lt := Nat.lt_succ_of_lt h.first_lt
  stop_le := (List.getElem?_eq_some_iff.1 hi).1
  solid i hfirst hstop d hd := by
    rcases Nat.eq_or_lt_of_le (Nat.le_of_lt_succ hstop) with rfl | hlt
    · rwa [Option.mem_unique hd hi]
    · exact h.solid i hfirst hlt d hd

/-- What stands in front of a run ends with a blank: it would make the run longer otherwise. -/
theorem IsRun.endsBlank_take (h : IsRun t first stop) : EndsBlank (t.take first) := by
  intro c hc
  cases first with
  | zero => cases hc
  | succ n =>
    have hn : n < t.length := Nat.lt_of_lt_of_le (Nat.lt_of_succ_lt h.first_lt) h.stop_le
    have hplace : c ∈ t[n]? := by
      have hsome := List.getElem?_eq_getElem hn
      rw [List.getLast?_take, if_neg (Nat.succ_ne_zero n), Nat.add_sub_cancel, hsome, Option.some_or] at hc
      rwa [hsome]
    by_contra hblank
    have hlonger := h.grow_front hplace (Bool.eq_false_iff.2 hblank)
    have hsame := (h.maximal n stop (Nat.le_succ n) (Nat.le_refl stop) hlonger).1
    omega

/-- What stands behind a run starts with a blank. -/
theorem IsRun.startsBlank_drop (h : IsRun t first stop) : StartsBlank (t.drop stop) := by
  intro c hc
  rw [List.head?_drop] at hc
  by_contra hblank
  have hlonger := h.grow_back hc (Bool.eq_false_iff.2 hblank)
  have hsame := (h.maximal first (stop + 1) (Nat.le_refl first) (Nat.le_succ stop) hlonger).2
  omega

theorem length_extract (hstop : stop ≤ t.length) : (t.extract first stop).length = stop - first := by
  rw [List.extract_eq_take_drop, List.length_take, List.length_drop]
  omega

theorem getElem?_extract (hi : i < stop - first) : (t.extract first stop)[i]? = t[first + i]? := by
  rw [List.extract_eq_take_drop, List.getElem?_take, if_pos hi, List.getElem?_drop]

theorem take_extract_drop (hle : first ≤ stop) : t.take first ++ t.extract first stop ++ t.drop stop = t := by
  have hdrop : t.drop stop = (t.drop first).drop (stop - first) := by
    rw [List.drop_drop, Nat.add_sub_cancel' hle]
  rw [List.append_assoc, List.extract_eq_take_drop, hdrop, List.take_append_drop, List.take_append_drop]

theorem IsSolid.isWord (h : IsSolid t first stop) : IsWord (t.extract first stop) := by
  have hlength : (t.extract first stop).length = stop - first := length_extract h.stop_le
  refine ⟨List.ne_nil_of_length_pos ?_, fun c hc => ?_⟩
  · rw [hlength]
    exact Nat.sub_pos_of_lt h.first_lt
  · obtain ⟨i, hi⟩ := List.mem_iff_getElem?.1 hc
    have hlt : i < stop - first := hlength ▸ (List.getElem?_eq_some_iff.1 hi).1
    rw [getElem?_extract hlt] at hi
    exact h.solid (first + i) (Nat.le_add_right first i) (by omega) c hi

/-- A run is a word in its place. -/
theorem IsRun.cut (h : IsRun t first stop) : Cut t (t.take first) (t.extract first stop) (t.drop stop) where
  eq := (take_extract_drop (Nat.le_of_lt h.first_lt)).symm
  isWord := h.isWord
  endsBlank := h.endsBlank_take
  startsBlank := h.startsBlank_drop

theorem Cut.length_eq (h : Cut t before word after) : t.length = before.length + word.length + after.length := by
  rw [h.eq, List.length_append, List.length_append]

theorem Cut.isSolid (h : Cut t before word after) : IsSolid t before.length (before.length + word.length) where
  first_lt := Nat.lt_add_of_pos_right (List.length_pos_iff.2 h.isWord.1)
  stop_le := by
    rw [h.length_eq]
    exact Nat.le_add_right _ _
  solid i hfirst hstop c hc := by
    rw [h.eq, List.append_assoc, List.getElem?_append_right hfirst, List.getElem?_append_left (by omega)] at hc
    exact h.isWord.2 c (List.mem_of_getElem? hc)

/-- A word in its place is a run: a longer stretch would hold a blank beside it. -/
theorem Cut.isRun (h : Cut t before word after) : IsRun t before.length (before.length + word.length) where
  toIsSolid := h.isSolid
  maximal first' stop' hfirst hstop hsolid := by
    have hpos := List.length_pos_iff.2 h.isWord.1
    constructor
    · by_contra hne
      have hbefore : before ≠ [] := List.ne_nil_of_length_pos (by omega)
      have hlast : before.getLast hbefore ∈ t[before.length - 1]? := by
        rw [h.eq, List.append_assoc, List.getElem?_append_left (by omega), ← List.getLast?_eq_getElem?]
        exact List.getLast?_eq_some_getLast hbefore
      exact hsolid.false_of_blank (by omega) (by omega) hlast
        (h.endsBlank _ (List.getLast?_eq_some_getLast hbefore))
    · by_contra hne
      have hlength := h.length_eq ▸ hsolid.stop_le
      have hafter : after ≠ [] := List.ne_nil_of_length_pos (by omega)
      have hhead : after.head hafter ∈ t[before.length + word.length]? := by
        rw [h.eq, List.getElem?_append_right (by simp), List.length_append, Nat.sub_self, ← List.head?_eq_getElem?]
        exact List.head?_eq_some_head hafter
      exact hsolid.false_of_blank (by omega) (by omega) hhead (h.startsBlank _ (List.head?_eq_some_head hafter))

theorem Cut.extract_eq (h : Cut t before word after) :
    t.extract before.length (before.length + word.length) = word := by
  rw [h.eq, List.extract_eq_take_drop, List.append_assoc, List.drop_left, Nat.add_sub_cancel_left, List.take_left]

/-- Behind a blank a text goes on with further words. -/
theorem length_words_le_of_prefix {s : Text} (hs : EndsBlank s) (h : s <+: t) : (words s).length ≤ (words t).length := by
  obtain ⟨rest, rfl⟩ := h
  rw [words_append (.inl hs), List.length_append]
  exact Nat.le_add_right _ _

/-- The stretch of the word of an index. -/
def placeOf (t : Text) (i : Nat) : Nat × Nat := ((beforeWord i t).length, t.length - (afterWord i t).length)

theorem Cut.placeOf_eq (h : Cut t before word after) :
    placeOf t (words before).length = (before.length, before.length + word.length) := by
  rw [placeOf, h.beforeWord_eq, h.afterWord_eq, h.length_eq, Nat.add_sub_cancel]

theorem Cut.index_lt (h : Cut t before word after) : (words before).length < (words t).length := by
  rw [h.words_eq, List.length_append]
  exact Nat.lt_add_of_pos_right (Nat.succ_pos _)

theorem placeOf_eq (hi : i < (words t).length) :
    placeOf t i = ((beforeWord i t).length, (beforeWord i t).length + (words t)[i].length) := by
  obtain ⟨hcut, hcount⟩ := cut_of_lt hi
  have hplace := hcut.placeOf_eq
  rwa [hcount] at hplace

theorem extract_placeOf (hi : i < (words t).length) : t.extract (placeOf t i).1 (placeOf t i).2 = (words t)[i] := by
  rw [placeOf_eq hi]
  exact (cut_of_lt hi).1.extract_eq

theorem isRun_placeOf (hi : i < (words t).length) : IsRun t (placeOf t i).1 (placeOf t i).2 := by
  rw [placeOf_eq hi]
  exact (cut_of_lt hi).1.isRun

theorem IsRun.exists_placeOf (h : IsRun t first stop) : ∃ i < (words t).length, placeOf t i = (first, stop) := by
  refine ⟨_, h.cut.index_lt, ?_⟩
  have hlt := h.first_lt
  have hle := h.stop_le
  rw [h.cut.placeOf_eq, length_extract hle, List.length_take_of_le (by omega), Nat.add_sub_cancel' (Nat.le_of_lt hlt)]

/-- Places follow each other as the words do. -/
theorem fst_placeOf_lt {j : Nat} (hij : i < j) (hj : j < (words t).length) : (placeOf t i).1 < (placeOf t j).1 := by
  obtain ⟨hcut, hcount⟩ := cut_of_lt (Nat.lt_trans hij hj)
  obtain ⟨hcut', hcount'⟩ := cut_of_lt hj
  by_contra hle
  have hprefix : beforeWord j t <+: beforeWord i t :=
    List.prefix_of_prefix_length_le (List.take_prefix _ t) (List.take_prefix _ t) (Nat.not_lt.1 hle)
  have hcounts := length_words_le_of_prefix hcut'.endsBlank hprefix
  omega

/-- The stretches are the runs of the text, by their first places. -/
structure AreRuns (t : Text) (places : List (Nat × Nat)) : Prop where
  inOrder : places.Pairwise fun p q => p.1 < q.1
  mem_iff : ∀ p, p ∈ places ↔ IsRun t p.1 p.2

/-- The words of a text are its runs from left to right. -/
theorem exists_runs (t : Text) :
    ∃ places, AreRuns t places ∧ words t = places.map fun p => t.extract p.1 p.2 := by
  refine ⟨(List.range (words t).length).map (placeOf t), ⟨?_, fun p => ?_⟩, ?_⟩
  · rw [List.pairwise_map]
    exact List.pairwise_lt_range.imp_of_mem fun _ hj hij => fst_placeOf_lt hij (List.mem_range.1 hj)
  · rw [List.mem_map]
    constructor
    · rintro ⟨i, hi, rfl⟩
      exact isRun_placeOf (List.mem_range.1 hi)
    · intro hrun
      obtain ⟨i, hi, hplace⟩ := hrun.exists_placeOf
      exact ⟨i, List.mem_range.2 hi, hplace⟩
  · refine List.ext_getElem (by simp) fun i hi _ => ?_
    simp only [List.getElem_map, List.getElem_range]
    exact (extract_placeOf hi).symm

end Text

namespace Query

open Text (EndsBlank IsGap StartsBlank lower words)

variable {s t : Text}

/-- No token reaches from one text into another that it meets at a blank. -/
theorem tokens_append (h : EndsBlank s ∨ StartsBlank t) : tokens (s ++ t) = tokens s ++ tokens t := by
  rw [tokens_eq_map_lower, tokens_eq_map_lower, tokens_eq_map_lower, Text.words_append h, List.map_append]

theorem tokens_gap {g : Text} (hg : IsGap g) : tokens g = [] := by
  rw [tokens_eq_map_lower, Text.words_gap hg, List.map_nil]

/-- A gap between two texts sets their tokens apart. -/
theorem tokens_gap_between {g : Text} (hne : g ≠ []) (hg : IsGap g) (s t : Text) :
    tokens (s ++ g ++ t) = tokens s ++ tokens t := by
  rw [List.append_assoc, tokens_append (.inr (hg.startsBlank.append hne t)), tokens_append (.inl hg.endsBlank),
    tokens_gap hg, List.nil_append]

theorem tokens_lower (t : Text) : tokens (lower t) = tokens t := by
  rw [tokens, Text.lower_lower, tokens]

/-- Tokens joined by spaces are read as the same tokens. -/
theorem tokens_joinWords (t : Text) : tokens (joinWords (tokens t)) = tokens t := by
  have hwords : words (joinWords (tokens t)) = words (lower t) := Text.words_singleSpaced (lower t)
  rw [tokens_congr hwords, tokens_lower]

end Query

namespace Search

open Query (tokens)
open Text (AreRuns IsGap lower)

variable {r : Record}

/-- A query that has the tokens of two others finds what both of them find. -/
theorem holdsWords_of_tokens_append {a b q : Text} (hlink : r.quickLink? = none) (htext : r.IsTextual)
    (h : tokens q = tokens a ++ tokens b) :
    ∃ x y, holdsWords r a = .ok x ∧ holdsWords r b = .ok y ∧ holdsWords r q = .ok (x && y) := by
  obtain ⟨hay, hhay⟩ := haystack_ok htext
  refine ⟨_, _, holdsWords_eq_all hlink hhay a, holdsWords_eq_all hlink hhay b, ?_⟩
  rw [holdsWords_eq_all hlink hhay, h, List.all_append]

/-- Blanks between two texts set their tokens apart; the tokens of a text are the runs of its lower form, from left to
right and none of them empty, and joined by spaces they are their own tokens. So a record is found by the words of two
texts with blanks between them exactly if it is found by those of both. -/
theorem tokens_set_apart :
    (∀ a b s : Text, s ≠ [] → IsGap s → tokens (a ++ s ++ b) = tokens a ++ tokens b) ∧
    (∀ q, ∃ places, AreRuns (lower q) places ∧ tokens q = places.map fun p => (lower q).extract p.1 p.2) ∧
    (∀ q, ∀ token ∈ tokens q, token ≠ []) ∧
    (∀ q, tokens (joinWords (tokens q)) = tokens q) ∧
    (∀ r : Record, r.quickLink? = none → r.IsTextual → ∀ a b s : Text, s ≠ [] → IsGap s →
      ∃ x y, holdsWords r a = .ok x ∧ holdsWords r b = .ok y ∧ holdsWords r (a ++ s ++ b) = .ok (x && y)) := by
  have happend : ∀ a b s : Text, s ≠ [] → IsGap s → tokens (a ++ s ++ b) = tokens a ++ tokens b :=
    fun a b s hne hgap => Query.tokens_gap_between hne hgap a b
  refine ⟨happend, fun q => Text.exists_runs (lower q), fun q token htoken => (isWord_of_mem_tokens htoken).1,
    Query.tokens_joinWords, fun r hlink htext a b s hne hgap => ?_⟩
  exact holdsWords_of_tokens_append hlink htext (happend a b s hne hgap)

/-- The title of the house log is the first word with a number. That word ends in a capital whose lower form depends on
what follows, and the other one begins with a capital whose lower form is longer. -/
theorem tokens_set_apart_houseLog :
    tokens ("ΟΔΟΣ".toText ++ "\u3000\n".toText ++ "İvy".toText) = ["οδος".toText, "i\u0307vy".toText] ∧
      tokens (joinWords (tokens "ΟΔΟΣ\u3000\nİvy".toText)) = ["οδος".toText, "i\u0307vy".toText] ∧
      "οδος".toText ≠ [] ∧
      holdsWords houseLog ("ΟΔΟΣ".toText ++ "\u3000\n".toText ++ "Deck".toText) = .ok true ∧
      holdsWords houseLog ("ΟΔΟΣ".toText ++ "\u3000\n".toText ++ "İvy".toText) = .ok false := by
  obtain ⟨happend, -, hfilled, hjoined, hholds⟩ := tokens_set_apart
  have hne : "\u3000\n".toText ≠ [] := by decide
  have hgap : IsGap "\u3000\n".toText := by decide
  have htokens : tokens "ΟΔΟΣ\u3000\nİvy".toText = ["οδος".toText, "i\u0307vy".toText] := by decide +kernel
  have hfound : (holdsWords houseLog "ΟΔΟΣ".toText).toOption = some true := by decide +kernel
  have hdeck : (holdsWords houseLog "Deck".toText).toOption = some true := by decide +kernel
  have hivy : (holdsWords houseLog "İvy".toText).toOption = some false := by decide +kernel
  obtain ⟨x, y, hx, hy, hboth⟩ := hholds houseLog rfl (by decide) "ΟΔΟΣ".toText "Deck".toText _ hne hgap
  obtain ⟨x', z, hx', hz, hmissing⟩ := hholds houseLog rfl (by decide) "ΟΔΟΣ".toText "İvy".toText _ hne hgap
  rw [hx] at hfound
  rw [hy] at hdeck
  rw [hz] at hivy
  cases hfound
  cases hdeck
  cases hivy
  refine ⟨?_, (hjoined _).trans htokens, hfilled "ΟΔΟΣ\u3000\nİvy".toText _ (by rw [htokens]; exact List.mem_cons_self),
    hboth, ?_⟩
  · rw [happend _ _ _ hne hgap]
    decide +kernel
  · rw [hmissing, Bool.and_false]

end Search
end LedgerSearch

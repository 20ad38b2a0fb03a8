import LedgerSearch.Proofs.OpenRanges
import LedgerSearch.Proofs.Spacing

/-!
# Hits are scored

Whether a record is found and how many points it earns are decided apart, and they agree on what a hit is: a record
that a query finds earns points for it (`score_pos_of_holds`), as long as no leaf asks for nothing or for a price range
and none is negated. A leaf of this kind is found through an amount, through its words, or through the words of a line,
and each of the three has its own least number of points.
-/

namespace LedgerSearch

namespace Query

open Text (IsGap words strip)

/-- A leaf that asks for words or amounts: it is not blank, it is not a dollar sign alone, and no price range is in it. -/
structure IsPlainLeaf (leaf : Text) : Prop where
  ne_nil : strip leaf ≠ []
  ne_dollar : strip leaf ≠ "$".toText
  noRange : range? leaf = none

instance (leaf : Text) : Decidable (IsPlainLeaf leaf) :=
  decidable_of_iff (strip leaf ≠ [] ∧ strip leaf ≠ "$".toText ∧ range? leaf = none)
    ⟨fun ⟨hnil, hdollar, hrange⟩ => ⟨hnil, hdollar, hrange⟩, fun h => ⟨h.ne_nil, h.ne_dollar, h.noRange⟩⟩

/-- No part of the tree is negated; an exclusion between two parts is no negation. -/
def Tree.IsNegationFree : Tree → Prop
  | leaf _ => True
  | node _ left right => left.IsNegationFree ∧ right.IsNegationFree
  | negation _ => False

instance Tree.decidableIsNegationFree : (tree : Tree) → Decidable tree.IsNegationFree
  | leaf _ => inferInstanceAs (Decidable True)
  | node _ left right =>
    have := left.decidableIsNegationFree
    have := right.decidableIsNegationFree
    inferInstanceAs (Decidable (_ ∧ _))
  | negation _ => inferInstanceAs (Decidable False)

variable {leaf : Text}

theorem range?_strip (t : Text) : range? (strip t) = range? t := range?_congr (Text.words_strip t)

theorem moneyQuery_cases (leaf : Text) : (moneyQuery leaf = ⟨false, leaf⟩) ∨
    ∃ rest : Text, strip leaf = (('$' : CodePoint) :: rest) ∧ moneyQuery leaf = ⟨true, strip rest⟩ := by
  by_cases h : ∃ rest : Text, strip leaf = (('$' : CodePoint) :: rest)
  · obtain ⟨rest, hrest⟩ := h
    exact .inr ⟨rest, hrest, moneyQuery_eq hrest⟩
  · exact .inl (moneyQuery_other fun rest hrest => h ⟨rest, hrest⟩)

namespace IsPlainLeaf

theorem words_ne_nil (h : IsPlainLeaf leaf) : words (moneyQuery leaf).text ≠ [] := by
  rcases moneyQuery_cases leaf with hquery | ⟨rest, hrest, hquery⟩ <;> rw [hquery]
  · exact mt Text.strip_eq_nil_iff.2 h.ne_nil
  · rw [Text.words_strip]
    intro hnil
    have hgap := Text.words_eq_nil_iff.1 hnil
    have hsuffix : rest <:+ strip leaf := by rw [hrest]; exact List.suffix_cons _ _
    rw [eq_nil_of_suffix (Text.strip_strip leaf) hgap hsuffix] at hrest
    exact h.ne_dollar hrest

theorem range?_text (h : IsPlainLeaf leaf) : range? (moneyQuery leaf).text = none := by
  rcases moneyQuery_cases leaf with hquery | ⟨rest, hrest, hquery⟩ <;> rw [hquery]
  · exact h.noRange
  · rw [range?_strip, ← range?_dollar_cons, ← hrest, range?_strip, h.noRange]

end IsPlainLeaf

theorem tokens_ne_nil {t : Text} (h : words t ≠ []) : tokens t ≠ [] := by
  rw [tokens_eq_map_lower]
  simpa using h

/-- Each token is an amount or a word. -/
theorem isEmpty_moneyTokens {t : Text} (h : words t ≠ []) : (moneyTokens t).isEmpty = false := by
  unfold moneyTokens
  split
  case h_1 range hrange => simp [MoneyTokens.isEmpty]
  case h_2 hrange =>
    obtain ⟨token, rest, htokens⟩ := List.exists_cons_of_ne_nil (tokens_ne_nil h)
    cases hamount : amount? token <;> simp [MoneyTokens.isEmpty, htokens, hamount]

end Query

namespace Search

open Outcome
open Query (IsPlainLeaf MoneyTokens Tree asksMoney moneyQuery moneyTokens)

variable {r : Record} {f : Financial} {leaf : Text}

theorem le_sumPoints {n : Nat} {points : List Nat} (h : n ∈ points) : n ≤ sumPoints points := by
  induction points with
  | nil => cases h
  | cons m rest ih =>
    rw [sumPoints]
    rcases List.mem_cons.1 h with rfl | h
    · exact Nat.le_add_right _ _
    · exact Nat.le_trans (ih h) (Nat.le_add_left _ _)

theorem le_visiblePoints (kind : AmountKind) : 200 ≤ kind.visiblePoints := by
  cases kind <;> decide

theorem exists_isVisibleMatch {t : MoneyTokens} (h : holdsAmount f t = true) :
    ∃ a ∈ t.amounts, ∃ v ∈ amounts f, isVisibleMatch a v.2 = true := by
  simp only [holdsAmount, Bool.or_eq_true, List.any_eq_true] at h
  rcases h with ⟨a, ha, v, hv, hmatch⟩ | ⟨a, ha, v, hv, hmatch⟩ <;>
    exact ⟨a, ha, v, hv, by simp [isVisibleMatch, hmatch]⟩

/-- An amount that is found earns the points of one kind at least. -/
theorem le_visibleScore {t : MoneyTokens} (h : holdsAmount f t = true) : 2200 ≤ visibleScore f t := by
  obtain ⟨a, ha, v, hv, hmatch⟩ := exists_isVisibleMatch h
  have hkind : v.1 ∈ AmountKind.all.filter fun k =>
      t.amounts.any fun a => (amounts f).any fun v => v.1 == k && isVisibleMatch a v.2 := by
    refine List.mem_filter.2 ⟨by cases v.1 <;> decide, ?_⟩
    exact List.any_eq_true.2 ⟨a, ha, List.any_eq_true.2 ⟨v, hv, by simp [hmatch]⟩⟩
  have hpoints := Nat.le_trans (le_visiblePoints v.1) (le_sumPoints (List.mem_map_of_mem hkind))
  have hsome := List.isEmpty_eq_false_iff.2 (List.ne_nil_of_mem hkind)
  simp only [visibleScore, hsome, Bool.false_eq_true, if_false]
  omega

theorem wordsFound_eq_length {ws : List Text} {text : Text} (h : ∀ word ∈ ws, Text.occursIn word text = true) :
    wordsFound ws text = ws.length :=
  List.countP_eq_length.2 h

theorem le_moneyWordScore {t : MoneyTokens} (h : holdsLine f t = true) : 50 ≤ moneyWordScore r f t.words := by
  simp only [holdsLine, Bool.and_eq_true, Bool.not_eq_true', List.isEmpty_eq_false_iff, List.any_eq_true,
    List.all_eq_true] at h
  obtain ⟨hne, item, hitem, hfound⟩ := h
  have hline := le_sumPoints (List.mem_map_of_mem (f := fun item => 50 * wordsFound t.words (moneyText item)) hitem)
  have hwords := List.length_pos_iff.2 hne
  simp only [wordsFound_eq_length hfound] at hline
  unfold moneyWordScore
  omega

/-- Without a range the score for amounts is a plain sum. -/
theorem moneyScore_eq (explicit : Bool) {text : Text} (hf : r.financial? = some f) (hrange : Query.range? text = none)
    (hwords : Text.words text ≠ []) : moneyScore explicit r text = .ok (visibleScore f (moneyTokens text) +
      amountScore f (moneyTokens text) + if explicit then 0 else moneyWordScore r f (moneyTokens text).words) := by
  have hasks : ¬(moneyTokens text).isEmpty = true := by simp [Query.isEmpty_moneyTokens hwords]
  rw [moneyScore_eq_map hf, if_neg hasks, pointsInRange, (Query.range_moneyTokens text).trans hrange, map_ok, Nat.add_zero]

/-- A record that answers a query about money earns points for it: through an amount, or through the words of a line. -/
theorem moneyScore_pos (explicit : Bool) {text : Text} (hrange : Query.range? text = none)
    (hwords : Text.words text ≠ []) :
    ∃ points, moneyScore explicit r text = .ok points ∧ (holdsMoney explicit r text = true → 0 < points) := by
  have hasks : ¬(moneyTokens text).isEmpty = true := by simp [Query.isEmpty_moneyTokens hwords]
  cases hf : r.financial? with
  | none => exact ⟨0, moneyScore_of_none hf explicit text, by simp [holdsMoney, hasks, hf]⟩
  | some f =>
    refine ⟨_, moneyScore_eq explicit hf hrange hwords, fun h => ?_⟩
    have hnone := (Query.range_moneyTokens text).trans hrange
    rw [holdsMoney, if_neg hasks] at h
    simp only [hf, holdsRange, hnone, Bool.false_or, Bool.or_eq_true, Bool.and_eq_true, Bool.not_eq_true'] at h
    rcases h with hamount | ⟨rfl, hline⟩
    · have hvisible := le_visibleScore hamount
      omega
    · have hpoints := le_moneyWordScore (r := r) hline
      simp only [Bool.false_eq_true, if_false]
      omega

/-- A record that holds every word of a leaf earns five points for each. -/
theorem le_textScore_of_holdsWords (hlink : r.quickLink? = none) (htext : r.IsTextual) (leaf : Text) :
    ∃ b points, holdsWords r leaf = .ok b ∧ textScore r leaf = .ok points ∧
      (b = true → 5 * (Query.tokens leaf).length ≤ points) := by
  obtain ⟨hay, hhay⟩ := haystack_ok htext
  unfold holdsWords textScore
  simp only [hlink, hhay, map_ok]
  split
  case isTrue hnil => exact ⟨_, 0, rfl, rfl, by simp [List.isEmpty_iff.1 hnil]⟩
  case isFalse hsome =>
    refine ⟨_, _, rfl, rfl, fun h => ?_⟩
    rw [wordsFound_eq_length (List.all_eq_true.1 h)]
    omega

theorem leafScore_words {points more : Nat} (hexplicit : (moneyQuery leaf).isExplicit = false)
    (hpoints : textScore r leaf = .ok points) (hmore : moneyScore false r leaf = .ok more) :
    leafScore r leaf = .ok (points + if Query.mayBeMoney leaf then more else 0) := by
  rw [leafScore_eq_combine hexplicit, hpoints, hmore]
  split <;> rfl

theorem leafScore_pos_of_holdsLeaf (hlink : r.quickLink? = none) (htext : r.IsTextual) (h : IsPlainLeaf leaf) :
    ∃ b points, holdsLeaf r leaf = .ok b ∧ leafScore r leaf = .ok points ∧ (b = true → 0 < points) := by
  have hrange := h.range?_text
  have hwords := h.words_ne_nil
  cases hexplicit : (moneyQuery leaf).isExplicit with
  | true =>
    rw [holdsLeaf_explicit hlink hexplicit, leafScore_explicit hexplicit]
    obtain ⟨points, hpoints, hpos⟩ := moneyScore_pos (r := r) true hrange hwords
    exact ⟨_, points, rfl, hpoints, hpos⟩
  | false =>
    have hsame : (moneyQuery leaf).text = leaf := Query.text_moneyQuery (by simp [hexplicit])
    rw [hsame] at hrange hwords
    obtain ⟨more, hmore, hmorePos⟩ := moneyScore_pos (r := r) false hrange hwords
    obtain ⟨found, points, hfound, hpoints, hle⟩ := le_textScore_of_holdsWords hlink htext leaf
    refine ⟨_, _, holdsLeaf_words hlink hexplicit hfound, leafScore_words hexplicit hpoints hmore, fun h => ?_⟩
    rcases Bool.or_eq_true_iff.1 h with hall | hboth
    · have hlen := List.length_pos_iff.2 (Query.tokens_ne_nil hwords)
      have hpoints := hle hall
      omega
    · obtain ⟨hmoney, hhit⟩ := Bool.and_eq_true_iff.1 hboth
      have hpos := hmorePos hhit
      rw [if_pos hmoney]
      omega

/-- An amount that is found counts in the points of a leaf that asks for money. -/
theorem le_leafScore_of_holdsAmount (htext : r.IsTextual) (h : IsPlainLeaf leaf) (hf : r.financial? = some f)
    (hamount : holdsAmount f (moneyTokens (moneyQuery leaf).text) = true) :
    ∃ more, moneyScore (moneyQuery leaf).isExplicit r (moneyQuery leaf).text = .ok more ∧ 2200 ≤ more ∧
      (asksMoney leaf = true → ∃ points, leafScore r leaf = .ok points ∧ more ≤ points) := by
  have hvisible := le_visibleScore hamount
  have hscore := moneyScore_eq (moneyQuery leaf).isExplicit hf h.range?_text h.words_ne_nil
  refine ⟨_, hscore, by omega, fun hasks => ?_⟩
  cases hexplicit : (moneyQuery leaf).isExplicit with
  | true =>
    rw [hexplicit] at hscore
    exact ⟨_, (leafScore_explicit hexplicit).trans hscore, Nat.le_refl _⟩
  | false =>
    obtain ⟨points, hpoints⟩ := textScore_ok htext leaf
    rw [hexplicit, Query.text_moneyQuery (by simp [hexplicit])] at hscore
    rw [asksMoney, hexplicit, Bool.false_or] at hasks
    refine ⟨_, leafScore_words hexplicit hpoints hscore, ?_⟩
    rw [if_pos hasks, Query.text_moneyQuery (by simp [hexplicit])]
    exact Nat.le_add_left _ _

theorem le_leafScore_of_holdsWords (hlink : r.quickLink? = none) (htext : r.IsTextual) (h : IsPlainLeaf leaf)
    (hexplicit : (moneyQuery leaf).isExplicit = false) (hfound : holdsWords r leaf = .ok true) :
    ∃ points, leafScore r leaf = .ok points ∧ 5 * (Query.tokens leaf).length ≤ points := by
  have hsame : (moneyQuery leaf).text = leaf := Query.text_moneyQuery (by simp [hexplicit])
  obtain ⟨more, hmore, -⟩ := moneyScore_pos (r := r) false (hsame ▸ h.range?_text) (hsame ▸ h.words_ne_nil)
  obtain ⟨b, points, hb, hpoints, hle⟩ := le_textScore_of_holdsWords hlink htext leaf
  cases hb.symm.trans hfound
  exact ⟨_, leafScore_words hexplicit hpoints hmore, Nat.le_trans (hle rfl) (Nat.le_add_right _ _)⟩

theorem treeScore_pos_of_holdsTree (hlink : r.quickLink? = none) (htext : r.IsTextual) {tree : Tree}
    (hfree : tree.IsNegationFree) (hleaves : ∀ leaf ∈ tree.leaves, IsPlainLeaf leaf) :
    ∃ b points, holdsTree r tree = .ok b ∧ treeScore r tree = .ok points ∧ (b = true → 0 < points) := by
  induction tree with
  | leaf text => exact leafScore_pos_of_holdsLeaf hlink htext (hleaves text List.mem_cons_self)
  | node op left right ihl ihr =>
    obtain ⟨hl, hr⟩ := List.forall_mem_append.1 hleaves
    obtain ⟨a, m, ha, hm, hleft⟩ := ihl hfree.1 hl
    obtain ⟨b, n, hb, hn, hright⟩ := ihr hfree.2 hr
    cases op with
    | both =>
      refine ⟨a && b, min m n, by simp [holdsTree, ha, hb], by simp [treeScore, hm, hn], fun h => ?_⟩
      obtain ⟨hleft', hright'⟩ := Bool.and_eq_true_iff.1 h
      exact Nat.lt_min.2 ⟨hleft hleft', hright hright'⟩
    | either =>
      refine ⟨a || b, max m n, by simp [holdsTree, ha, hb], by simp [treeScore, hm, hn], fun h => ?_⟩
      rcases Bool.or_eq_true_iff.1 h with h | h
      · exact Nat.lt_of_lt_of_le (hleft h) (Nat.le_max_left m n)
      · exact Nat.lt_of_lt_of_le (hright h) (Nat.le_max_right m n)
    | without =>
      refine ⟨a && !b, if b then 0 else m, holdsTree_without ha hb, by rw [treeScore_without hb, hm, map_ok], ?_⟩
      cases b with
      | false => simpa using hleft
      | true => simp
  | negation operand => exact hfree.elim

/-- A record that a query finds earns points for it: an amount earns 2200 at least, and the words of a leaf five for
each. -/
theorem score_pos_of_holds (hlink : r.quickLink? = none) (htext : r.IsTextual) {query : Text}
    (hfree : (Query.parse query).IsNegationFree) (hleaves : ∀ leaf ∈ (Query.parse query).leaves, IsPlainLeaf leaf) :
    (∃ b points, holds r query = .ok b ∧ score r query = .ok points ∧ (b = true → 0 < points)) ∧
    (∀ leaf ∈ (Query.parse query).leaves, ∀ f, r.financial? = some f →
      holdsAmount f (moneyTokens (moneyQuery leaf).text) = true →
      ∃ more, moneyScore (moneyQuery leaf).isExplicit r (moneyQuery leaf).text = .ok more ∧ 2200 ≤ more ∧
        (asksMoney leaf = true → ∃ points, leafScore r leaf = .ok points ∧ more ≤ points)) ∧
    (∀ leaf ∈ (Query.parse query).leaves, (moneyQuery leaf).isExplicit = false → holdsWords r leaf = .ok true →
      ∃ points, leafScore r leaf = .ok points ∧ 5 * (Query.tokens leaf).length ≤ points) := by
  rw [holds_eq_holdsTree hlink]
  refine ⟨treeScore_pos_of_holdsTree hlink htext hfree hleaves, fun leaf hmem f hf hamount => ?_,
    fun leaf hmem hexplicit hfound => ?_⟩
  · exact le_leafScore_of_holdsAmount htext (hleaves leaf hmem) hf hamount
  · exact le_leafScore_of_holdsWords hlink htext (hleaves leaf hmem) hexplicit hfound

/-- A word and an amount beside an exclusion. -/
def postsQuery : Text := "posts AND $300 NOT door".toText

theorem score_pos_of_holds_posts :
    ∃ points, holds (sampleBill "Posts" postLine) postsQuery = .ok true ∧
      score (sampleBill "Posts" postLine) postsQuery = .ok points ∧ 0 < points := by
  have hfree : (Query.parse postsQuery).IsNegationFree := by decide +kernel
  have hleaves : ∀ leaf ∈ (Query.parse postsQuery).leaves, IsPlainLeaf leaf := by decide +kernel
  obtain ⟨⟨b, points, hb, hpoints, hpos⟩, -, -⟩ :=
    score_pos_of_holds (r := sampleBill "Posts" postLine) rfl (by decide) hfree hleaves
  have hvalue : (holds (sampleBill "Posts" postLine) postsQuery).toOption = some true := by decide +kernel
  rw [hb] at hvalue
  cases hvalue
  exact ⟨points, hb, hpoints, hpos rfl⟩

/-- A leaf that asks for nothing finds every record and earns nothing. -/
example : (holds (sampleBill "Posts" postLine) "$".toText).toOption = some true ∧
    (score (sampleBill "Posts" postLine) "$".toText).toOption = some 0 := by decide +kernel

end Search
end LedgerSearch

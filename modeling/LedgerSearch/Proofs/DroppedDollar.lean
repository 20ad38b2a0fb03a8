import LedgerSearch.Proofs.SearchFaults
import LedgerSearch.Proofs.Spacing

/-!
# A dollar sign in front of a query

A dollar sign in front of a query changes none of its words: both queries ask for the same amounts, the one with the
sign for nothing else. The other one is found by its words as well, and its words earn points, so a query that may be
about money finds no less without the sign and scores no lower (`holds_dropDollar`).
-/

namespace LedgerSearch

namespace Text

/-- A character in front of a text is a word of its own or joins the first word. -/
theorem mem_words_cons {c : CodePoint} (hc : isBlank c = false) {t w : Text} (h : w ∈ words (c :: t)) :
    w.head? = some c ∨ w ∈ words t := by
  by_cases hstart : StartsBlank t
  · have hword : IsWord [c] := ⟨List.cons_ne_nil _ _, List.forall_mem_singleton.2 hc⟩
    rw [← List.singleton_append, words_word_append hword hstart] at h
    exact (List.mem_cons.1 h).imp_left fun hw => by rw [hw]; rfl
  · obtain ⟨v, s, hv, hs, rfl⟩ := exists_word_of_not_startsBlank hstart
    have hword : IsWord (c :: v) := ⟨List.cons_ne_nil _ _, List.forall_mem_cons.2 ⟨hc, hv.2⟩⟩
    rw [← List.cons_append, words_word_append hword hs] at h
    rw [words_word_append hv hs]
    rcases List.mem_cons.1 h with rfl | h
    · exact .inl rfl
    · exact .inr (List.mem_cons_of_mem v h)

theorem respaced_strip_cons {c : CodePoint} (hc : isBlank c = false) (t : Text) : Respaced (c :: t) (strip (c :: t)) where
  words_eq := (words_strip _).symm
  startsBlank_iff := by
    refine iff_of_false (not_startsBlank_cons hc t) fun h => ?_
    have hgap := words_eq_nil_iff.1 (startsBlank_strip_iff.1 h)
    rw [hgap c List.mem_cons_self] at hc
    cases hc

end Text

namespace Query

open Text (words strip)

variable {q : Text}

theorem isLeaf_of_notMem (h : ∀ op : Operator, op.word ∉ words q) : IsLeaf q where
  whole op := innerIndex?_eq_none_of_notMem (h op)
  head _ hwords := absurd (hwords ▸ List.mem_cons_self) (h .without)

/-- No operator word begins with a dollar sign. -/
theorem notMem_words_dollar (h : ∀ op : Operator, op.word ∉ words q) (op : Operator) :
    op.word ∉ words (('$' : CodePoint) :: q) := by
  intro hmem
  rcases Text.mem_words_cons (by decide) hmem with hhead | hmem
  · cases op <;> cases hhead
  · exact h op hmem

/-- The text of a query behind a dollar sign has the words of the query. -/
theorem moneyQuery_dollar_cons (q : Text) :
    ∃ text, moneyQuery (strip (('$' : CodePoint) :: q)) = ⟨true, text⟩ ∧ words text = words q := by
  obtain ⟨rest, hstrip, hrest⟩ := (Text.respaced_strip_cons (by decide) q).solid (c := '$') (by decide)
  refine ⟨strip rest, moneyQuery_eq (by rw [Text.strip_strip, hstrip]), ?_⟩
  rw [Text.words_strip, hrest.words_eq]

end Query

namespace Search

open Outcome
open Query (Operator moneyQuery moneyTokens)
open Text (words strip)

variable {r : Record} {s t q : Text}

theorem moneyScore_congr_words (explicit : Bool) (h : words s = words t) : moneyScore explicit r s = moneyScore explicit r t := by
  simp only [moneyScore, Query.moneyTokens_congr h]

/-- A query for amounts alone asks for nothing that the same query with its words does not ask for. -/
theorem holdsMoney_of_explicit (h : holdsMoney true r t = true) : holdsMoney false r t = true := by
  rw [holdsMoney] at h ⊢
  split at h
  case isTrue hnone => rw [if_pos hnone]
  case isFalse hsome =>
    rw [if_neg hsome]
    cases hf : r.financial? with
    | none =>
      rw [hf] at h
      cases h
    | some f =>
      simp only [hf, Bool.not_true, Bool.false_and, Bool.or_false] at h
      simp only [h, Bool.true_or]

theorem moneyScore_atMost (t : Text) : AtMost (moneyScore true r t) (moneyScore false r t) := by
  cases hf : r.financial? with
  | none =>
    rw [moneyScore_of_none hf, moneyScore_of_none hf]
    exact .refl _
  | some f =>
    rw [moneyScore_eq_map hf, moneyScore_eq_map hf]
    split
    · exact .refl _
    · apply AtMost.map _ (.refl _)
      intro m n hmn
      rw [if_pos rfl, if_neg Bool.false_ne_true]
      omega

/-- A leaf for amounts alone finds no more and scores no higher than a leaf of the same words that may be about money. -/
theorem holdsLeaf_widen (hlink : r.quickLink? = none) (htext : r.IsTextual) {text : Text}
    (hs : moneyQuery s = ⟨true, text⟩) (hwords : words text = words t) (ht : (moneyQuery t).isExplicit = false)
    (hmoney : Query.mayBeMoney t = true) :
    (∃ a b, holdsLeaf r s = .ok a ∧ holdsLeaf r t = .ok b ∧ (a = true → b = true)) ∧
    AtMost (leafScore r s) (leafScore r t) := by
  have hexplicit : (moneyQuery s).isExplicit = true := by rw [hs]
  constructor
  · obtain ⟨found, hfound⟩ := holdsWords_ok htext t
    refine ⟨_, _, holdsLeaf_explicit hlink hexplicit, holdsLeaf_words hlink ht hfound, fun h => ?_⟩
    rw [hs, holdsMoney_congr_words true hwords] at h
    rw [hmoney, holdsMoney_of_explicit h, Bool.and_true, Bool.or_true]
  · obtain ⟨points, hpoints⟩ := textScore_ok htext t
    rw [leafScore_explicit hexplicit, hs, moneyScore_congr_words true hwords, leafScore_eq_combine ht, if_pos hmoney, hpoints]
    exact (moneyScore_atMost t).add_left points

/-- Without its dollar sign a query that may be about money finds each record that it finds with the sign, and no record
scores lower. -/
theorem holds_dropDollar (hlink : r.quickLink? = none) (htext : r.IsTextual) (hwords : ∀ op : Operator, op.word ∉ words q)
    (hsign : (strip q).head? ≠ some ('$' : CodePoint)) (hmoney : Query.mayBeMoney q = true) :
    (∃ a b, holds r (('$' : CodePoint) :: q) = .ok a ∧ holds r q = .ok b ∧ (a = true → b = true)) ∧
    AtMost (score r (('$' : CodePoint) :: q)) (score r q) := by
  obtain ⟨text, hdollar, htextWords⟩ := Query.moneyQuery_dollar_cons q
  have hplain : moneyQuery (strip q) = ⟨false, strip q⟩ := by
    apply Query.moneyQuery_other
    intro rest hrest
    rw [Text.strip_strip] at hrest
    exact hsign (by rw [hrest]; rfl)
  have hsame : words text = words (strip q) := by rw [htextWords, Text.words_strip]
  rw [holds_eq_holdsTree hlink, holds_eq_holdsTree hlink, score, score,
    (Query.isLeaf_of_notMem (Query.notMem_words_dollar hwords)).parse_eq, (Query.isLeaf_of_notMem hwords).parse_eq]
  exact holdsLeaf_widen hlink htext hdollar hsame (by rw [hplain])
    (by rw [Query.mayBeMoney_congr (Text.words_strip q), hmoney])

/-- The total of the bill is in the range of both queries. -/
theorem holds_dropDollar_range : holds (sampleBill "Posts" postLine) "$ 250 to 350".toText = .ok true ∧
    holds (sampleBill "Posts" postLine) " 250 to 350".toText = .ok true ∧
    ∃ m, score (sampleBill "Posts" postLine) "$ 250 to 350".toText = .ok m ∧ m ≤ 1500 := by
  obtain ⟨⟨a, b, ha, hb, hkeeps⟩, hscore⟩ :=
    holds_dropDollar (r := sampleBill "Posts" postLine) (q := " 250 to 350".toText) rfl (by decide)
      (by intro op; cases op <;> decide +kernel) (by decide +kernel) (by decide +kernel)
  have hfound : holds (sampleBill "Posts" postLine) "$ 250 to 350".toText = .ok true := eq_ok_of_toOption (by decide +kernel)
  have hpoints : score (sampleBill "Posts" postLine) " 250 to 350".toText = .ok 1500 := eq_ok_of_toOption (by decide +kernel)
  cases ha.symm.trans hfound
  cases hkeeps rfl
  exact ⟨hfound, hb, hscore 1500 hpoints⟩

/-- A number in a title is a word and no amount. -/
example : (holds (sampleBill "No. 7" postLine) "$No. 7".toText).toOption = some false ∧
    (holds (sampleBill "No. 7" postLine) "No. 7".toText).toOption = some true := by decide +kernel

end Search
end LedgerSearch

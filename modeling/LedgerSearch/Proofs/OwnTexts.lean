import LedgerSearch.Proofs.SearchedTexts
import LedgerSearch.Proofs.Spacing
import LedgerSearch.Proofs.WrittenTrees

/-!
# A record is found by its own texts

The lower form of a piece of a text stands in the lower form of the text if the piece has no capital sigma, the one
letter whose lower form depends on its neighbours, or if it begins and ends at blanks or at the ends of the text
(`lower_piece`). So any piece of its own texts finds a record, as long as it is a single leaf and asks for no amount
(`holds_own_text`).
-/

namespace LedgerSearch

namespace Text

variable {pre piece post s t : Text}

/-- The piece has no capital sigma, or it meets the text around it at blanks only. -/
def IsCutFreely (pre piece post : Text) : Prop :=
  ('Σ' : CodePoint) ∉ piece ∨ (EndsBlank pre ∨ StartsBlank piece) ∧ (EndsBlank piece ∨ StartsBlank post)

theorem lower_append_of_endsBlank (hs : EndsBlank s) (t : Text) : lower (s ++ t) = lower s ++ lower t := by
  rcases s.eq_nil_or_concat' with rfl | ⟨s, c, rfl⟩
  · rfl
  · have hc : isBlank c = true := hs c (by simp)
    have hend : lower [c] = [c] := lower_blank_cons hc [] []
    have hmiddle : lower (c :: t) = c :: lower t := lower_blank_cons hc [] t
    rw [List.append_assoc, List.singleton_append, lower_append (startsBlank_cons hc t),
      lower_append (startsBlank_cons hc []), hend, hmiddle, List.append_assoc, List.singleton_append]

theorem lower_append_of_blank (h : EndsBlank s ∨ StartsBlank t) : lower (s ++ t) = lower s ++ lower t :=
  h.elim (fun hs => lower_append_of_endsBlank hs t) (fun ht => lower_append ht s)

theorem lowerAt_of_ne {c : CodePoint} (hc : c ≠ 'Σ') (before before' after after' : Text) :
    lowerAt before c after = lowerAt before' c after' := by
  rw [lowerAt, lowerAt, if_neg hc, if_neg hc]

/-- Without a capital sigma the text around a piece does not count. -/
theorem lowerAfter_append_of_notMem (h : ('Σ' : CodePoint) ∉ piece) (before before' post : Text) :
    lowerAfter before (piece ++ post) = lowerAfter before' piece ++ lowerAfter (piece.reverse ++ before) post := by
  induction piece generalizing before before' with
  | nil => rfl
  | cons c piece ih =>
    obtain ⟨hc, hpiece⟩ := not_or.1 (mt List.mem_cons.2 h)
    rw [List.cons_append, lowerAfter, lowerAfter, ih hpiece (c :: before) (c :: before'),
      lowerAt_of_ne (Ne.symm hc) before before' _ piece, List.append_assoc, List.reverse_cons, List.append_assoc,
      List.singleton_append]

theorem lowerAfter_suffix (before pre t : Text) :
    lowerAfter (pre.reverse ++ before) t <:+ lowerAfter before (pre ++ t) := by
  induction pre generalizing before with
  | nil => exact List.suffix_rfl
  | cons c pre ih =>
    rw [List.reverse_cons, List.append_assoc, List.singleton_append]
    exact (ih (c :: before)).trans (List.suffix_append _ _)

theorem lower_piece (h : IsCutFreely pre piece post) : lower piece <:+: lower (pre ++ piece ++ post) := by
  rcases h with hsigma | ⟨hpre, hpost⟩
  · have hpiece := lowerAfter_append_of_notMem hsigma (pre.reverse ++ []) [] post
    have hprefix : lower piece <+: lowerAfter (pre.reverse ++ []) (piece ++ post) := ⟨_, hpiece.symm⟩
    rw [List.append_assoc]
    exact hprefix.isInfix.trans (lowerAfter_suffix [] pre (piece ++ post)).isInfix
  · rcases eq_or_ne piece [] with rfl | hne
    · exact List.nil_infix
    · have hpost' : EndsBlank (pre ++ piece) ∨ StartsBlank post := hpost.imp_left fun hends => hends.append hne pre
      rw [lower_append_of_blank hpost', lower_append_of_blank hpre]
      exact List.infix_append _ _ _

end Text

namespace Query

theorem isLeaf_of_not_compound {q : Text} (h : isCompound q = false) : IsLeaf q := by
  rcases shape q with ⟨op, b, a, hsplits⟩ | ⟨a, hnegates⟩ | hleaf
  · rw [isCompound, hsplits.parse_eq] at h
    cases h
  · rw [isCompound, hnegates.parse_eq] at h
    cases h
  · exact hleaf

end Query

namespace Search

open Query (isCompound tokens)
open Text (IsCutFreely lower)

variable {r : Record}

/-- The words of a piece of a text stand in the text. -/
theorem tokens_piece {pre q post : Text} (h : IsCutFreely pre q post) :
    ∀ token ∈ tokens q, token <:+: lower (pre ++ q ++ post) :=
  fun _ htoken => (Text.infix_of_mem_words htoken).trans (Text.lower_piece h)

/-- A record is found by any piece of a part that is searched, and by any piece of a single text of it. -/
theorem holds_own_text (hlink : r.quickLink? = none) (htext : r.IsTextual) {part pre q post : Text}
    (hpart : Payload.text part ∈ r.parts ∨ part ∈ r.texts) (heq : part = pre ++ q ++ post)
    (hleaf : isCompound q = false) (hdollar : (Text.strip q).head? ≠ some '$') (hcut : IsCutFreely pre q post) :
    holds r q = .ok true := by
  subst heq
  have hshown : ∀ token ∈ tokens q, FoundIn token (r.parts.filterMap Payload.text?) := by
    intro token htoken
    have hpiece := tokens_piece hcut token htoken
    rcases hpart with hpart | hpart
    · exact ⟨_, List.mem_filterMap.2 ⟨_, hpart, rfl⟩, hpiece⟩
    · exact (foundIn_parts (isWord_of_mem_tokens htoken) r).2 ⟨_, hpart, hpiece⟩
  have hsame : tokens (Text.strip q) = tokens q := Query.tokens_congr (Text.words_strip q)
  obtain ⟨found, hholds, hfound⟩ := exists_holdsWords htext hlink (Text.strip q)
  rw [hsame] at hfound
  have hwords : holdsWords r (Text.strip q) = .ok true := by rw [hholds, hfound.2 hshown]
  have hplain : (Query.moneyQuery (Text.strip q)).isExplicit = false := by
    rw [Query.moneyQuery_other]
    intro rest hrest
    rw [Text.strip_strip] at hrest
    rw [hrest] at hdollar
    exact hdollar rfl
  rw [holds_eq_holdsTree hlink, (Query.isLeaf_of_not_compound hleaf).parse_eq, holdsTree,
    holdsLeaf_words hlink hplain hwords, Bool.true_or]

/-- The street of the house log ends in a capital sigma at a blank, and the second query in the middle of a word. -/
theorem holds_own_text_houseLog : Payload.text "ΟΔΟΣ 12".toText ∈ houseLog.parts ∧ "porch".toText ∈ houseLog.texts ∧
    holds houseLog "ΟΔΟΣ".toText = .ok true ∧ holds houseLog "orc".toText = .ok true := by
  have hstreet : Payload.text "ΟΔΟΣ 12".toText ∈ houseLog.parts := List.mem_cons_self
  have hporch : "porch".toText ∈ houseLog.texts := by decide
  have hends : IsCutFreely [] "ΟΔΟΣ".toText " 12".toText :=
    .inr ⟨.inl Text.IsGap.nil.endsBlank, .inr (Text.startsBlank_cons (by decide) _)⟩
  have hmiddle : IsCutFreely "p".toText "orc".toText "h".toText := .inl (by decide)
  refine ⟨hstreet, hporch, ?_, ?_⟩
  · exact holds_own_text rfl (by decide) (.inl hstreet) (by decide) (by decide +kernel) (by decide) hends
  · exact holds_own_text rfl (by decide) (.inr hporch) (by decide) (by decide +kernel) (by decide) hmiddle

-- A sigma that ends the query but not its word in the title has another lower form in each.
example : (holds { houseLog with title := "ΟΔΟΣΑ".toText } "ΟΔΟΣ".toText).toOption = some false := by decide +kernel

end Search
end LedgerSearch

import LedgerSearch.Proofs.SearchFaults
import LedgerSearch.Proofs.Spacing

/-!
# Lines added to a record

More lines at the end of a financial record add parts to its searchable text, amounts to its amounts and texts to its
money texts, and take nothing away. Every test of a leaf asks whether something is there and every score is a sum over
what is there, so a query that excludes nothing still finds a record with more lines, and scores it no lower
(`holds_addLines`).
-/

namespace LedgerSearch

/-- The financial details with more lines at the end. -/
def Financial.addLines (f : Financial) (items : List LineItem) : Financial := { f with lineItems := f.lineItems ++ items }

/-- A financial record with more lines at the end; any other record as it is. -/
def Record.addLines (r : Record) (items : List LineItem) : Record :=
  match r.details with
  | .financial f => { r with details := .financial (f.addLines items) }
  | _ => r

namespace Search

open Outcome
open Query (MoneyTokens Tree moneyQuery moneyTokens)

variable {r : Record} {f : Financial}

theorem sumPoints_append (xs ys : List Nat) : sumPoints (xs ++ ys) = sumPoints xs + sumPoints ys := by
  induction xs with
  | nil => exact (Nat.zero_add _).symm
  | cons n rest ih => rw [List.cons_append, sumPoints, sumPoints, ih, Nat.add_assoc]

theorem sumPoints_map_mono {α : Type} {g g' : α → Nat} {xs : List α} (h : ∀ x ∈ xs, g x ≤ g' x) :
    sumPoints (xs.map g) ≤ sumPoints (xs.map g') := by
  induction xs with
  | nil => exact Nat.le_refl _
  | cons x rest ih =>
    obtain ⟨hx, hrest⟩ := List.forall_mem_cons.1 h
    exact Nat.add_le_add hx (ih hrest)

theorem sumPoints_filter_mono {α : Type} (g : α → Nat) {p q : α → Bool} (h : ∀ x, p x = true → q x = true)
    (xs : List α) : sumPoints ((xs.filter p).map g) ≤ sumPoints ((xs.filter q).map g) := by
  induction xs with
  | nil => exact Nat.le_refl _
  | cons x rest ih =>
    rw [List.filter_cons, List.filter_cons]
    cases hp : p x with
    | true =>
      rw [if_pos rfl, if_pos (h x hp)]
      exact Nat.add_le_add_left ih _
    | false =>
      rw [if_neg Bool.false_ne_true]
      split
      · exact Nat.le_trans ih (Nat.le_add_left _ _)
      · exact ih

theorem wordsFound_mono (ws : List Text) {text text' : Text} (h : text <:+: text') :
    wordsFound ws text ≤ wordsFound ws text' := by
  apply List.countP_mono_left
  intro word _ hword
  rw [Text.occursIn_iff] at hword ⊢
  exact hword.trans h

theorem any_append_mono {α : Type} {p : α → Bool} {xs : List α} (h : xs.any p = true) (ys : List α) :
    (xs ++ ys).any p = true := by
  rw [List.any_append, h, Bool.true_or]

theorem sumPoints_map_append_le {α : Type} (g : α → Nat) (xs ys : List α) :
    sumPoints (xs.map g) ≤ sumPoints ((xs ++ ys).map g) := by
  rw [List.map_append, sumPoints_append]
  exact Nat.le_add_right _ _

theorem filledTexts_append (ps qs : List Payload) :
    filledTexts (ps ++ qs) = combine (· ++ ·) (filledTexts ps) (filledTexts qs) := by
  induction ps with
  | nil =>
    rw [List.nil_append, filledTexts]
    cases filledTexts qs <;> rfl
  | cons p rest ih =>
    rw [List.cons_append, filledTexts, filledTexts, ih]
    split
    · split
      · cases filledTexts rest <;> cases filledTexts qs <;> rfl
      · rfl
    · rfl

theorem addLines_eq (hr : r.details = .financial f) (items : List LineItem) :
    r.addLines items = { r with details := .financial (f.addLines items) } := by
  rw [Record.addLines, hr]

section Lines

variable (hr : r.details = .financial f) (items : List LineItem)
include hr

theorem financial?_addLines : r.financial? = some f ∧ (r.addLines items).financial? = some (f.addLines items) := by
  rw [addLines_eq hr, Record.financial?, hr]
  exact ⟨rfl, rfl⟩

theorem quickLink?_addLines : r.quickLink? = none ∧ (r.addLines items).quickLink? = none := by
  rw [addLines_eq hr, Record.quickLink?, hr]
  exact ⟨rfl, rfl⟩

theorem parts_addLines : (r.addLines items).parts = r.parts ++ items.flatMap LineItem.parts := by
  rw [addLines_eq hr, Record.parts, Record.parts, hr, List.append_assoc]
  simp only [Details.parts, Financial.addLines, List.flatMap_append, List.append_assoc]

theorem isTextual_addLines : (r.addLines items).IsTextual := by
  rw [addLines_eq hr]
  exact isTextual_of_financial rfl

/-- The searchable text goes on with the texts of the added lines. -/
theorem haystack_addLines :
    ∃ text text', haystack r = .ok text ∧ haystack (r.addLines items) = .ok text' ∧ text <+: text' := by
  have htext : (r.addLines items).IsTextual := isTextual_addLines hr items
  rw [Record.IsTextual, parts_addLines hr items] at htext
  obtain ⟨hrecord, hlines⟩ := List.forall_mem_append.1 htext
  obtain ⟨xs, hxs⟩ := filledTexts_ok hrecord
  obtain ⟨ys, hys⟩ := filledTexts_ok hlines
  refine ⟨_, _, by rw [haystack, hxs, map_ok],
    by rw [haystack, parts_addLines hr items, filledTexts_append, hxs, hys, combine_ok, map_ok], ?_⟩
  rw [joinWords, joinWords, Text.lower_joinWith, Text.lower_joinWith, List.map_append]
  exact Text.joinWith_prefix _ _ _

theorem holdsWords_addLines {text : Text} (h : holdsWords r text = .ok true) : holdsWords (r.addLines items) text = .ok true := by
  obtain ⟨hlink, hlink'⟩ := quickLink?_addLines hr items
  obtain ⟨hay, hay', hhay, hhay', hprefix⟩ := haystack_addLines hr items
  rw [holdsWords_eq_all hlink hhay] at h
  have hall : ∀ token ∈ Query.tokens text, Text.occursIn token hay = true := List.all_eq_true.1 (Except.ok.inj h)
  rw [holdsWords_eq_all hlink' hhay']
  refine congrArg Except.ok (List.all_eq_true.2 fun token htoken => ?_)
  have hfound := (Text.occursIn_iff token hay).1 (hall token htoken)
  exact (Text.occursIn_iff token hay').2 (hfound.trans hprefix.isInfix)

theorem textScore_addLines (text : Text) : AtMost (textScore r text) (textScore (r.addLines items) text) := by
  obtain ⟨hay, hay', hhay, hhay', hprefix⟩ := haystack_addLines hr items
  have hfound := wordsFound_mono (Query.tokens text) hprefix.isInfix
  rw [textScore, textScore, hhay, hhay', addLines_eq hr]
  split
  · exact .refl _
  · apply AtMost.of_le
    dsimp only
    omega

end Lines

theorem amounts_addLines (f : Financial) (items : List LineItem) : amounts (f.addLines items) =
    amounts f ++ items.flatMap fun item => [(.lineTotal, item.total), (.unitPrice, item.unitPrice)] := by
  rw [amounts, amounts, Financial.addLines, List.flatMap_append, List.cons_append]

section Amounts

variable (f : Financial) (items : List LineItem) (t : MoneyTokens)

theorem any_amounts_addLines {p : Text × Binary64 → AmountKind × Binary64 → Bool}
    (h : (t.amounts.any fun a => (amounts f).any (p a)) = true) :
    (t.amounts.any fun a => (amounts (f.addLines items)).any (p a)) = true := by
  obtain ⟨a, ha, h⟩ := List.any_eq_true.1 h
  apply List.any_eq_true.2
  refine ⟨a, ha, ?_⟩
  rw [amounts_addLines]
  exact any_append_mono h _

theorem holdsAmount_addLines (h : holdsAmount f t = true) : holdsAmount (f.addLines items) t = true := by
  rw [holdsAmount, Bool.or_eq_true] at h ⊢
  exact h.imp (any_amounts_addLines f items t) (any_amounts_addLines f items t)

theorem holdsRange_addLines (h : holdsRange f t = true) : holdsRange (f.addLines items) t = true := by
  rw [holdsRange] at h ⊢
  split at h
  · rw [amounts_addLines]
    exact any_append_mono h _
  · cases h

theorem holdsLine_addLines (h : holdsLine f t = true) : holdsLine (f.addLines items) t = true := by
  rw [holdsLine, Bool.and_eq_true] at h ⊢
  exact h.imp_right fun hline => any_append_mono hline items

theorem visibleScore_addLines : visibleScore f t ≤ visibleScore (f.addLines items) t := by
  have hfound : ∀ k, (t.amounts.any fun a => (amounts f).any fun v => v.1 == k && isVisibleMatch a v.2) = true →
      (t.amounts.any fun a => (amounts (f.addLines items)).any fun v => v.1 == k && isVisibleMatch a v.2) = true :=
    fun k => any_amounts_addLines f items t
  have hequal := any_amounts_addLines f items t (p := fun a v => isVisibleMatch a v.2 && Binary64.eq v.2 a.2)
  have hkinds := sumPoints_filter_mono AmountKind.visiblePoints hfound AmountKind.all
  rw [visibleScore, visibleScore]
  split
  case isTrue => exact Nat.zero_le _
  case isFalse hsome =>
    -- a kind that is found stays found, so the kinds found do not vanish
    have hsome' : ¬(AmountKind.all.filter fun k =>
        t.amounts.any fun a => (amounts (f.addLines items)).any fun v => v.1 == k && isVisibleMatch a v.2).isEmpty = true := by
      rw [List.isEmpty_iff, List.filter_eq_nil_iff] at hsome ⊢
      exact fun hnone => hsome fun k hk hfoundk => hnone k hk (hfound k hfoundk)
    rw [if_neg hsome']
    apply Nat.add_le_add (Nat.add_le_add_left hkinds 2000)
    split
    case isTrue he => exact Nat.le_of_eq (if_pos (hequal he)).symm
    case isFalse => exact Nat.zero_le _

theorem rangeScore_append (range : PriceRange) (vs ws : List (AmountKind × Binary64)) :
    AtMost (rangeScore range vs) (rangeScore range (vs ++ ws)) := by
  induction vs with
  | nil =>
    intro n _
    exact ⟨0, rfl, Nat.zero_le n⟩
  | cons v rest ih =>
    rw [List.cons_append, rangeScore, rangeScore]
    split
    · exact AtMost.combine (fun h h' => Nat.add_le_add h h') (.refl _) ih
    · exact ih

theorem amountScore_addLines : amountScore f t ≤ amountScore (f.addLines items) t := by
  rw [amountScore, amountScore, amounts_addLines]
  apply Nat.add_le_add
  · exact sumPoints_map_mono fun a _ => sumPoints_map_append_le (tierScore a.2) _ _
  · exact sumPoints_map_mono fun a _ => sumPoints_map_append_le (admittedScore a.1) _ _

end Amounts

theorem moneyWordScore_addLines (hr : r.details = .financial f) (items : List LineItem) (ws : List Text) :
    moneyWordScore r f ws ≤ moneyWordScore (r.addLines items) (f.addLines items) ws := by
  have hlines := sumPoints_map_append_le (fun item => 50 * wordsFound ws (moneyText item)) f.lineItems items
  rw [moneyWordScore, moneyWordScore, addLines_eq hr]
  exact Nat.add_le_add_right (Nat.add_le_add_right hlines _) _

section Queries

variable (hr : r.details = .financial f) (items : List LineItem)
include hr

theorem holdsMoney_addLines (explicit : Bool) {text : Text} (h : holdsMoney explicit r text = true) :
    holdsMoney explicit (r.addLines items) text = true := by
  obtain ⟨hf, hf'⟩ := financial?_addLines hr items
  simp only [holdsMoney, hf, hf'] at h ⊢
  split at h
  case isTrue hnone => rw [if_pos hnone]
  case isFalse hsome =>
    rw [if_neg hsome]
    simp only [Bool.or_eq_true, Bool.and_eq_true] at h ⊢
    rcases h with (hrange | hamount) | ⟨himplicit, hline⟩
    · exact .inl (.inl (holdsRange_addLines f items _ hrange))
    · exact .inl (.inr (holdsAmount_addLines f items _ hamount))
    · exact .inr ⟨himplicit, holdsLine_addLines f items _ hline⟩

theorem moneyScore_addLines (explicit : Bool) (text : Text) :
    AtMost (moneyScore explicit r text) (moneyScore explicit (r.addLines items) text) := by
  obtain ⟨hf, hf'⟩ := financial?_addLines hr items
  have hrange : AtMost (pointsInRange f (moneyTokens text)) (pointsInRange (f.addLines items) (moneyTokens text)) := by
    rw [pointsInRange, pointsInRange]
    split
    · rw [amounts_addLines]
      exact rangeScore_append _ _ _
    · exact .refl _
  have hvisible := visibleScore_addLines f items (moneyTokens text)
  have hamounts := amountScore_addLines f items (moneyTokens text)
  have hwords := moneyWordScore_addLines hr items (moneyTokens text).words
  rw [moneyScore_eq_map hf, moneyScore_eq_map hf']
  split
  · exact .refl _
  · apply AtMost.map _ hrange
    intro m n hmn
    split <;> omega

theorem holdsLeaf_addLines {text : Text} (h : holdsLeaf r text = .ok true) : holdsLeaf (r.addLines items) text = .ok true := by
  obtain ⟨hlink, hlink'⟩ := quickLink?_addLines hr items
  cases hexplicit : (moneyQuery text).isExplicit with
  | true =>
    rw [holdsLeaf_explicit hlink hexplicit] at h
    rw [holdsLeaf_explicit hlink' hexplicit, holdsMoney_addLines hr items true (Except.ok.inj h)]
  | false =>
    obtain ⟨a, ha⟩ := holdsWords_ok (isTextual_of_financial hr) text
    obtain ⟨b, hb⟩ := holdsWords_ok (isTextual_addLines hr items) text
    rw [holdsLeaf_words hlink hexplicit ha] at h
    rw [holdsLeaf_words hlink' hexplicit hb]
    have hfound := Except.ok.inj h
    simp only [Bool.or_eq_true, Bool.and_eq_true] at hfound
    rcases hfound with rfl | ⟨hmoney, hhit⟩
    · cases hb.symm.trans (holdsWords_addLines hr items ha)
      rfl
    · rw [hmoney, holdsMoney_addLines hr items false hhit, Bool.and_true, Bool.or_true]

theorem leafScore_addLines (text : Text) : AtMost (leafScore r text) (leafScore (r.addLines items) text) := by
  cases hexplicit : (moneyQuery text).isExplicit with
  | true =>
    rw [leafScore_explicit hexplicit, leafScore_explicit hexplicit]
    exact moneyScore_addLines hr items true _
  | false =>
    rw [leafScore_eq_combine hexplicit, leafScore_eq_combine hexplicit]
    apply AtMost.combine Nat.add_le_add (textScore_addLines hr items text)
    split
    · exact moneyScore_addLines hr items false text
    · exact .refl _

/-- A query that excludes nothing finds a record with more lines where it finds the record, and where the longer record
has a score the record has one that is no greater. -/
theorem holds_addLines {query : Text} (hpos : (Query.parse query).IsPositive) :
    (∃ a b, holds r query = .ok a ∧ holds (r.addLines items) query = .ok b ∧ (a = true → b = true)) ∧
    AtMost (score r query) (score (r.addLines items) query) := by
  obtain ⟨hlink, hlink'⟩ := quickLink?_addLines hr items
  have htext : (r.addLines items).IsTextual := isTextual_addLines hr items
  constructor
  · obtain ⟨a, ha⟩ := holds_ok (isTextual_of_financial hr) query
    obtain ⟨b, hb⟩ := holds_ok htext query
    refine ⟨a, b, ha, hb, ?_⟩
    rintro rfl
    rw [holds_eq_holdsTree hlink] at ha
    rw [holds_eq_holdsTree hlink'] at hb
    have hfound := holdsTree_mono hpos (fun leaf _ => holdsLeaf_ok htext leaf) (fun leaf _ => holdsLeaf_addLines hr items) ha
    cases hb.symm.trans hfound
    rfl
  · exact treeScore_atMost hpos fun leaf _ => leafScore_addLines hr items leaf

end Queries

def doorLine : LineItem := sampleLine "Oak door" "" 1 (.finite false 0)

def oakQuery : Text := "posts AND $300 OR oak".toText

/-- The bill for posts has a word and the amount of the query; the added line has an amount and another word. -/
theorem holds_addLines_door : holds (sampleBill "Posts" postLine) oakQuery = .ok true ∧
    holds ((sampleBill "Posts" postLine).addLines [doorLine]) oakQuery = .ok true ∧
    ∃ m, score (sampleBill "Posts" postLine) oakQuery = .ok m ∧ m ≤ 175 := by
  have hpos : (Query.parse oakQuery).IsPositive := by decide +kernel
  obtain ⟨⟨a, b, ha, hb, hkeeps⟩, hscore⟩ := holds_addLines (r := sampleBill "Posts" postLine) rfl [doorLine] hpos
  have hfound : holds (sampleBill "Posts" postLine) oakQuery = .ok true := eq_ok_of_toOption (by decide +kernel)
  have hpoints : score ((sampleBill "Posts" postLine).addLines [doorLine]) oakQuery = .ok 175 :=
    eq_ok_of_toOption (by decide +kernel)
  cases ha.symm.trans hfound
  cases hkeeps rfl
  exact ⟨hfound, hb, hscore 175 hpoints⟩

/-- What a query excludes may come with a line. -/
example : (holds (sampleBill "Posts" postLine) "posts NOT oak".toText).toOption = some true ∧
    (holds ((sampleBill "Posts" postLine).addLines [doorLine]) "posts NOT oak".toText).toOption = some false := by
  decide +kernel

end Search
end LedgerSearch

import LedgerSearch.Proofs.Words
import LedgerSearch.Query.Tree

/-!
# Lower forms of words

The lower form of a character may depend on the letters around it, but never on what lies behind a blank: no blank is
cased, none is passed over in the search for a cased letter, and no letter is mapped to a blank or a blank to a letter.
So a lower form is made word by word (`words_lower`), and the tokens of a query are the lower forms of its words
(`tokens_eq_map_lower`).
-/

namespace LedgerSearch

theorem CodePoint.toNat_ofNat (n : Nat) : (ofNat n).toNat = n ∨ (ofNat n).toNat = 0 := by
  unfold ofNat
  split
  · left
    simp only [toNat]
    omega
  · by_cases hvalid : n.isValidChar
    · left
      rw [toNat, Char.ofNat, dif_pos hvalid]
      rfl
    · right
      rw [toNat, Char.ofNat, dif_neg hvalid]
      rfl

namespace Text

/-- No range of the one table meets a range of the other. -/
def areApart (ranges others : List CodeRange) : Bool :=
  ranges.all fun r => others.all fun q => Nat.blt r.2 q.1 || Nat.blt q.2 r.1

theorem isBlank_ofNat {ranges : List CodeRange} (hapart : areApart ranges blankRanges = true) {r : CodeRange}
    (hr : r ∈ ranges) {n : Nat} (hfirst : r.1 ≤ n) (hlast : n ≤ r.2) : isBlank (CodePoint.ofNat n) = false := by
  rw [← Bool.not_eq_true]
  intro hblank
  obtain ⟨q, hq, hin⟩ := List.any_eq_true.1 hblank
  simp only [Bool.and_eq_true, decide_eq_true_eq] at hin
  rcases CodePoint.toNat_ofNat n with hn | hn
  · have hr := List.all_eq_true.1 (List.all_eq_true.1 hapart r hr) q hq
    simp only [Bool.or_eq_true, Nat.blt_eq] at hr
    omega
  · rw [isBlank, inRanges, hn] at hblank
    exact absurd hblank (by decide)

theorem isBlank_of_inRanges {ranges : List CodeRange} (hapart : areApart ranges blankRanges = true) {c : CodePoint}
    (hc : inRanges ranges c = true) : isBlank c = false := by
  obtain ⟨r, hr, hin⟩ := List.any_eq_true.1 hc
  simp only [Bool.and_eq_true, decide_eq_true_eq] at hin
  rw [← CodePoint.ofNat_toNat c]
  exact isBlank_ofNat hapart hr hin.1 hin.2

theorem inRanges_blank {ranges : List CodeRange} (hapart : areApart ranges blankRanges = true) {c : CodePoint}
    (hc : isBlank c = true) : inRanges ranges c = false := by
  rw [← Bool.not_eq_true]
  intro hin
  rw [isBlank_of_inRanges hapart hin] at hc
  cases hc

/-- The plain letters with what stands between them. -/
theorem isBlank_ofNat_plain {n : Nat} (hfirst : 65 ≤ n) (hlast : n ≤ 122) : isBlank (CodePoint.ofNat n) = false := by
  have hapart : areApart [(65, 122)] blankRanges = true := by decide
  exact isBlank_ofNat hapart List.mem_cons_self hfirst hlast

theorem isPlainLetter_blank {c : CodePoint} (hc : isBlank c = true) : isPlainLetter c = false := by
  rw [← Bool.not_eq_true]
  intro hletter
  simp only [isPlainLetter, isPlainCapital, Bool.or_eq_true, Bool.and_eq_true, decide_eq_true_eq] at hletter
  have hplain : 65 ≤ c.toNat ∧ c.toNat ≤ 122 := by
    rcases hletter with ⟨hfirst, hlast⟩ | ⟨hfirst, hlast⟩
    · exact ⟨hfirst, Nat.le_trans hlast (by decide)⟩
    · exact ⟨Nat.le_trans (by decide) hfirst, hlast⟩
  rw [← CodePoint.ofNat_toNat c, isBlank_ofNat_plain hplain.1 hplain.2] at hc
  cases hc

theorem isCased_blank {c : CodePoint} (hc : isBlank c = true) : isCased c = false := by
  unfold isCased
  split
  · exact isPlainLetter_blank hc
  · exact inRanges_blank (by decide +kernel) hc

theorem isCaseIgnorable_blank {c : CodePoint} (hc : isBlank c = true) : isCaseIgnorable c = false := by
  have hne : ∀ d, isBlank d = false → decide (c = d) = false := by
    rintro d hd
    rw [decide_eq_false_iff_not]
    rintro rfl
    rw [hd] at hc
    cases hc
  unfold isCaseIgnorable
  split
  · rw [hne _ (by decide), hne _ (by decide), hne _ (by decide), hne _ (by decide), hne _ (by decide)]
    rfl
  · exact inRanges_blank (by decide +kernel) hc

theorem reachesCased_blank_cons {c : CodePoint} (hc : isBlank c = true) (t : Text) : reachesCased (c :: t) = false := by
  simp [reachesCased, isCaseIgnorable_blank hc, isCased_blank hc]

/-- What a run covers, and what it maps this to. -/
def Shift.ranges (run : Shift) : List CodeRange := [(run.first, run.last), (run.image run.first, run.image run.last)]

theorem areApart_lowerRuns : areApart (lowerRuns.flatMap Shift.ranges) blankRanges = true := by decide +kernel

/-- No run of the table takes a blank to anything or a letter to a blank. -/
theorem isBlank_of_find? {run : Shift} {c : CodePoint} (h : lowerRuns.find? (fun s => s.covers c.toNat) = some run) :
    isBlank c = false ∧ isBlank (CodePoint.ofNat (run.image c.toNat)) = false := by
  have hrun := List.mem_of_find?_eq_some h
  have hcovers := List.find?_some h
  simp only [Shift.covers, Bool.and_eq_true, decide_eq_true_eq] at hcovers
  obtain ⟨⟨hfirst, hlast⟩, -⟩ := hcovers
  have hfrom : (run.first, run.last) ∈ lowerRuns.flatMap Shift.ranges :=
    List.mem_flatMap.2 ⟨run, hrun, List.mem_cons_self⟩
  have hto : (run.image run.first, run.image run.last) ∈ lowerRuns.flatMap Shift.ranges :=
    List.mem_flatMap.2 ⟨run, hrun, List.mem_cons_of_mem _ List.mem_cons_self⟩
  constructor
  · rw [← CodePoint.ofNat_toNat c]
    exact isBlank_ofNat areApart_lowerRuns hfrom hfirst hlast
  · refine isBlank_ofNat areApart_lowerRuns hto ?_ ?_
    all_goals
      simp only [Shift.image]
      omega

theorem isBlank_apply_lowerRuns (c : CodePoint) : isBlank (Shift.apply lowerRuns c) = isBlank c := by
  unfold Shift.apply
  split
  case h_2 => rfl
  case h_1 run hrun =>
    obtain ⟨hcode, himage⟩ := isBlank_of_find? hrun
    rw [himage, hcode]

theorem apply_lowerRuns_blank {c : CodePoint} (hc : isBlank c = true) : Shift.apply lowerRuns c = c := by
  unfold Shift.apply
  split
  case h_2 => rfl
  case h_1 run hrun =>
    rw [(isBlank_of_find? hrun).1] at hc
    cases hc

theorem isBlank_lowerLetter (c : CodePoint) : isBlank (lowerLetter c) = isBlank c := by
  unfold lowerLetter
  split
  · split
    case isTrue hcapital =>
      simp only [isPlainCapital, Bool.and_eq_true, decide_eq_true_eq] at hcapital
      obtain ⟨hfirst, hlast⟩ : 65 ≤ c.toNat ∧ c.toNat ≤ 90 := hcapital
      have hcode := isBlank_ofNat_plain hfirst (by omega)
      rw [CodePoint.ofNat_toNat] at hcode
      rw [hcode, isBlank_ofNat_plain (by omega) (by omega)]
    case isFalse => rfl
  · exact isBlank_apply_lowerRuns c

theorem lowerLetter_blank {c : CodePoint} (hc : isBlank c = true) : lowerLetter c = c := by
  have hcapital : isPlainCapital c = false := (Bool.or_eq_false_iff.1 (isPlainLetter_blank hc)).1
  rw [lowerLetter, hcapital, apply_lowerRuns_blank hc, if_neg Bool.false_ne_true, ite_self]

theorem lowerAt_blank {c : CodePoint} (hc : isBlank c = true) (before after : Text) : lowerAt before c after = [c] := by
  have hsigma : c ≠ 'Σ' := by rintro rfl; exact absurd hc (by decide)
  have hdotted : c ≠ 'İ' := by rintro rfl; exact absurd hc (by decide)
  rw [lowerAt, if_neg hsigma, if_neg hdotted, lowerLetter_blank hc]

/-- The lower form of a character is blank where the character is. -/
theorem isBlank_of_mem_lowerAt {before after : Text} {c d : CodePoint} (h : d ∈ lowerAt before c after) :
    isBlank d = isBlank c := by
  unfold lowerAt at h
  split at h
  case isTrue hsigma =>
    rw [List.mem_singleton.1 h, hsigma]
    split <;> decide
  case isFalse =>
    split at h
    case isTrue hdotted =>
      rw [hdotted]
      simp only [List.mem_cons, List.not_mem_nil, or_false] at h
      rcases h with rfl | rfl <;> decide
    case isFalse => rw [List.mem_singleton.1 h, isBlank_lowerLetter]

theorem isBlank_of_mem_lowerAfter {before t : Text} {d : CodePoint} (ht : ∀ c ∈ t, isBlank c = false)
    (h : d ∈ lowerAfter before t) : isBlank d = false := by
  induction t generalizing before with
  | nil => cases h
  | cons c t ih =>
    obtain ⟨hc, ht⟩ := List.forall_mem_cons.1 ht
    rcases List.mem_append.1 h with h | h
    · exact (isBlank_of_mem_lowerAt h).trans hc
    · exact ih ht h

theorem lowerAt_ne_nil (before : Text) (c : CodePoint) (after : Text) : lowerAt before c after ≠ [] := by
  unfold lowerAt
  split
  · exact List.cons_ne_nil _ _
  · split <;> exact List.cons_ne_nil _ _

theorem reachesCased_cons (c : CodePoint) (t : Text) :
    reachesCased (c :: t) = if isCaseIgnorable c then reachesCased t else isCased c := by
  rw [reachesCased, List.dropWhile_cons]
  cases isCaseIgnorable c <;> rfl

/-- What lies behind a blank does not count. -/
theorem reachesCased_append {t : Text} (ht : StartsBlank t) (s : Text) : reachesCased (s ++ t) = reachesCased s := by
  induction s with
  | nil =>
    cases t with
    | nil => rfl
    | cons c t => exact reachesCased_blank_cons (ht c rfl) t
  | cons c s ih => rw [List.cons_append, reachesCased_cons, reachesCased_cons, ih]

theorem lowerAt_congr {before before' after after' : Text} (hbefore : reachesCased before = reachesCased before')
    (hafter : reachesCased after = reachesCased after') (c : CodePoint) :
    lowerAt before c after = lowerAt before' c after' := by
  simp only [lowerAt, hbefore, hafter]

theorem lowerAfter_congr {before before' : Text} (h : reachesCased before = reachesCased before') (t : Text) :
    lowerAfter before t = lowerAfter before' t := by
  induction t generalizing before before' with
  | nil => rfl
  | cons c t ih =>
    have hnext : reachesCased (c :: before) = reachesCased (c :: before') := by
      rw [reachesCased_cons, reachesCased_cons, h]
    rw [lowerAfter, lowerAfter, lowerAt_congr h rfl c, ih hnext]

theorem lowerAfter_append {t : Text} (ht : StartsBlank t) (before s : Text) :
    lowerAfter before (s ++ t) = lowerAfter before s ++ lowerAfter (s.reverse ++ before) t := by
  induction s generalizing before with
  | nil => rfl
  | cons c s ih =>
    rw [List.cons_append, lowerAfter, lowerAfter, ih, lowerAt_congr rfl (reachesCased_append ht s) c,
      List.append_assoc, List.reverse_cons, List.append_assoc, List.singleton_append]

theorem lower_blank_cons {c : CodePoint} (hc : isBlank c = true) (before t : Text) :
    lowerAfter before (c :: t) = c :: lower t := by
  have hstart : reachesCased (c :: before) = reachesCased [] := reachesCased_blank_cons hc before
  rw [lowerAfter, lowerAt_blank hc, List.singleton_append, lowerAfter_congr hstart t, lower]

theorem lowerAfter_of_startsBlank {t : Text} (ht : StartsBlank t) (before : Text) : lowerAfter before t = lower t := by
  cases t with
  | nil => rfl
  | cons c t => rw [lower, lower_blank_cons (ht c rfl), lower_blank_cons (ht c rfl)]

theorem lower_append {t : Text} (ht : StartsBlank t) (s : Text) : lower (s ++ t) = lower s ++ lower t := by
  rw [lower, lowerAfter_append ht, lowerAfter_of_startsBlank ht, ← lower]

theorem lower_gap_append {g : Text} (hg : IsGap g) (t : Text) : lower (g ++ t) = g ++ lower t := by
  induction g with
  | nil => rfl
  | cons c g ih =>
    obtain ⟨hc, hg⟩ := List.forall_mem_cons.1 hg
    rw [List.cons_append, lower, lower_blank_cons hc, ih hg, List.cons_append]

theorem lower_gap {g : Text} (hg : IsGap g) : lower g = g := by
  simpa [lower, lowerAfter] using lower_gap_append hg []

theorem IsWord.lower {w : Text} (hw : IsWord w) : IsWord (lower w) := by
  obtain ⟨hne, hsolid⟩ := hw
  constructor
  · cases w with
    | nil => exact absurd rfl hne
    | cons c w => exact List.append_ne_nil_of_left_ne_nil (lowerAt_ne_nil [] c w) _
  · exact fun d hd => isBlank_of_mem_lowerAfter hsolid hd

theorem StartsBlank.lower {t : Text} (ht : StartsBlank t) : StartsBlank (lower t) := by
  cases t with
  | nil => exact ht
  | cons c t =>
    have hc := ht c rfl
    rw [Text.lower, lower_blank_cons hc]
    exact startsBlank_cons hc _

/-- A lower form is made word by word. -/
theorem words_lower (t : Text) : words (lower t) = (words t).map lower := by
  induction t using words_induction with
  | gap g hg => rw [lower_gap hg, words_gap hg, List.map_nil]
  | word g w s hg hw hs ih =>
    rw [List.append_assoc, lower_gap_append hg, lower_append hs, words_gap_append hg, words_gap_append hg,
      words_word_append hw.lower hs.lower, words_word_append hw hs, List.map_cons, ih]

end Text

namespace Query

theorem tokens_eq_map_lower (query : Text) : tokens query = (Text.words query).map Text.lower := Text.words_lower query

/-- Queries with the same words have the same tokens. -/
theorem tokens_congr {s t : Text} (h : Text.words s = Text.words t) : tokens s = tokens t := by
  rw [tokens_eq_map_lower, tokens_eq_map_lower, h]

end Query
end LedgerSearch

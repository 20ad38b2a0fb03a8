import LedgerSearch.Proofs.ReadMarks
import LedgerSearch.Proofs.TokenClasses

/-!
# Marked numbers

The numbers of a text stand one behind the other (`pairwise_numbers`), so none is in the way of another one. What is
marked before them are exact amounts alone, and what comes after them takes no mark away. So each number that meets no
exact amount is decided on its own: by the amounts that were typed, or by the range (`numbers_marked_alone`).
-/

namespace LedgerSearch.Marking

open Query (moneyTokens range?)

namespace NumberSpan

/-- What a text has where the number stands. -/
def content (text : Text) (n : NumberSpan) : Text := (text.drop n.start).take (n.stop - n.start)

/-- The number stands in the text with a digit, and its value is what the text has there, without noise. -/
structure StandsIn (text : Text) (n : NumberSpan) : Prop where
  filled : n.start < n.stop
  stop_le : n.stop ≤ text.length
  value_eq : n.value = Query.dropNoise (n.content text)
  digit : ∃ c ∈ n.content text, Text.isDigit c = true

/-- The number as a mark that is set for a reason. -/
def mark (text : Text) (reason : Reason) (n : NumberSpan) : Mark := ⟨reason, n.start, n.content text⟩

/-- Some amount of a query begins the number. -/
def IsBegun (query : Text) (n : NumberSpan) : Prop :=
  ∃ token ∈ (moneyTokens query).amounts.map Prod.fst, Query.admits token n.value = true

def LiesIn (range : PriceRange) (n : NumberSpan) : Prop :=
  ∃ x, Query.leadingNumber? n.value = some x ∧ range.contains x = true

/-- The number has no position in common with a mark of an exact amount. -/
def IsFree (marks : List Mark) (n : NumberSpan) : Prop :=
  ∀ m ∈ marks, m.reason = .exactAmount → m.stop ≤ n.start ∨ n.stop ≤ m.start

/-- The number as it stands behind some more characters. -/
def behind (offset : Nat) (n : NumberSpan) : NumberSpan := ⟨offset + n.start, offset + n.stop, n.value⟩

end NumberSpan

section Numbers

variable {t written : Text} {offset skip : Nat} {n : NumberSpan}

theorem dropCommasEnd_opens (written : Text) : dropCommasEnd written <+: written := by
  have h := List.rdropWhile_prefix (fun c : CodePoint => decide (c = ',')) written
  exact h

/-- The number that is written at the start of a text stands there. -/
theorem exists_standsIn_of_numberSpan? (hopens : written <+: t) (h : numberSpan? offset written = some n) :
    ∃ k : NumberSpan, k.StandsIn t ∧ k.start = 0 ∧ k.stop ≤ written.length ∧ n = k.behind offset := by
  unfold numberSpan? at h
  dsimp only at h
  rw [Option.ite_none_right_eq_some, Option.some.injEq] at h
  obtain ⟨hany, rfl⟩ := h
  have hkept := (dropCommasEnd_opens written).trans hopens
  have hcontent : t.take (dropCommasEnd written).length = dropCommasEnd written := (List.prefix_iff_eq_take.1 hkept).symm
  obtain ⟨c, hc, hdigit⟩ := List.any_eq_true.1 hany
  have hmem := List.mem_of_mem_filter hc
  refine ⟨⟨0, (dropCommasEnd written).length, Query.dropNoise (dropCommasEnd written)⟩,
    ⟨?_, hkept.length_le, ?_, c, ?_, hdigit⟩, rfl, length_dropCommasEnd_le written, rfl⟩
  · exact List.length_pos_of_mem hmem
  · rw [NumberSpan.content, List.drop_zero, Nat.sub_zero, hcontent]
  · rw [NumberSpan.content, List.drop_zero, Nat.sub_zero, hcontent]
    exact hmem

theorem NumberSpan.StandsIn.cons {c : CodePoint} {rest : Text} (h : n.StandsIn rest) :
    (n.behind 1).StandsIn (c :: rest) := by
  have hcontent : (n.behind 1).content (c :: rest) = n.content rest := by
    rw [content, content, behind, Nat.add_comm 1, Nat.add_comm 1, List.drop_succ_cons, Nat.add_sub_add_right]
  refine ⟨Nat.add_lt_add_left h.filled 1, ?_, ?_, ?_⟩
  · have hstop := h.stop_le
    simp only [behind, List.length_cons]
    omega
  · rw [hcontent]
    exact h.value_eq
  · rw [hcontent]
    exact h.digit

theorem exists_standsIn_of_mem_numbersFrom (h : n ∈ numbersFrom offset skip t) :
    ∃ k : NumberSpan, k.StandsIn t ∧ skip ≤ k.start ∧ n = k.behind offset := by
  induction t generalizing offset skip with
  | nil => cases h
  | cons c rest ih =>
    have hlater : ∀ {skip : Nat}, n ∈ numbersFrom (offset + 1) skip rest →
        ∃ k : NumberSpan, k.StandsIn (c :: rest) ∧ skip + 1 ≤ k.start ∧ n = k.behind offset := by
      intro skip h
      obtain ⟨k, hk, hskip, rfl⟩ := ih h
      refine ⟨k.behind 1, hk.cons, ?_, ?_⟩
      · simp only [NumberSpan.behind]
        omega
      · simp only [NumberSpan.behind, Nat.add_assoc]
    cases skip with
    | succ skip => exact hlater h
    | zero =>
      rw [numbersFrom] at h
      rcases List.mem_append.1 h with h | h
      · obtain ⟨k, hk, -, -, rfl⟩ := exists_standsIn_of_numberSpan? (numberAt_opens _) (Option.mem_toList.1 h)
        exact ⟨k, hk, Nat.zero_le _, rfl⟩
      · obtain ⟨k, hk, -, rfl⟩ := hlater h
        exact ⟨k, hk, Nat.zero_le _, rfl⟩

theorem standsIn_of_mem_numbers {text : Text} (h : n ∈ numbers text) : n.StandsIn text := by
  obtain ⟨k, hk, -, rfl⟩ := exists_standsIn_of_mem_numbersFrom h
  simpa [NumberSpan.behind] using hk

theorem pairwise_numbersFrom (offset skip : Nat) (t : Text) :
    (numbersFrom offset skip t).Pairwise fun a b => a.stop ≤ b.start := by
  induction t generalizing offset skip with
  | nil => exact .nil
  | cons c rest ih =>
    cases skip with
    | succ skip => exact ih (offset + 1) skip
    | zero =>
      rw [numbersFrom]
      refine List.pairwise_append.2 ⟨?_, ih _ _, ?_⟩
      · cases numberSpan? offset (numberAt (c :: rest)) with
        | none => exact .nil
        | some n => exact List.pairwise_singleton _ n
      · -- behind what is written for a number the reader goes on
        intro a ha b hb
        obtain ⟨k, hk, hzero, hstop, rfl⟩ := exists_standsIn_of_numberSpan? (numberAt_opens _) (Option.mem_toList.1 ha)
        obtain ⟨j, -, hskip, rfl⟩ := exists_standsIn_of_mem_numbersFrom hb
        have hfilled := hk.filled
        simp only [NumberSpan.behind]
        omega

theorem pairwise_numbers (text : Text) : (numbers text).Pairwise fun a b => a.stop ≤ b.start :=
  pairwise_numbersFrom 0 0 text

end Numbers

/-- A number is known by its bounds. -/
theorem NumberSpan.StandsIn.eq_of_bounds {text : Text} {a b : NumberSpan} (ha : a.StandsIn text) (hb : b.StandsIn text)
    (hstart : a.start = b.start) (hstop : a.stop = b.stop) : a = b := by
  have hvalue : a.value = b.value := by
    rw [ha.value_eq, hb.value_eq, content, content, hstart, hstop]
  obtain ⟨_, _, _⟩ := a
  obtain ⟨_, _, _⟩ := b
  dsimp only at hstart hstop hvalue
  subst hstart hstop hvalue
  rfl

section Passes

variable {text query : Text} {t : Tracker} {s : Span} {reason : Reason}

/-- A pass over the numbers accepts those that pass its test and meet nothing that is accepted. -/
theorem mem_markNumbers {test : Text → Bool} :
    s ∈ (markNumbers text test reason t).accepted ↔ s ∈ t.accepted ∨
      ∃ n ∈ numbers text, test n.value = true ∧ t.overlaps n.start n.stop = false ∧ s = spanFor reason (n.start, n.stop) := by
  rw [markNumbers, Tracker.accepted_claimAll_of_apart, List.mem_append]
  · simp only [List.mem_filter, List.mem_map, Bool.not_eq_true']
    refine or_congr_right ⟨?_, ?_⟩
    · rintro ⟨⟨n, ⟨hn, htest⟩, rfl⟩, hclear⟩
      exact ⟨n, hn, htest, hclear, rfl⟩
    · rintro ⟨n, hn, htest, hclear, rfl⟩
      exact ⟨⟨n, ⟨hn, htest⟩, rfl⟩, hclear⟩
  · intro s hs
    obtain ⟨n, hn, rfl⟩ := List.mem_map.1 hs
    exact Int.ofNat_lt.2 (standsIn_of_mem_numbers (List.mem_filter.1 hn).1).filled
  · refine List.pairwise_map.2 (((pairwise_numbers text).filter _).imp fun h => ?_)
    exact .inl (Int.ofNat_le.2 h)

/-- A pass over words neither takes away nor adds marks of another style. -/
theorem mem_markTerms_of_style_ne {terms : List Text} (hstyle : s.style ≠ reason.style) :
    s ∈ (markTerms text terms reason t).accepted ↔ s ∈ t.accepted := by
  refine ⟨fun h => (Tracker.mem_claimAll h).resolve_right fun hoffered => ?_, fun h => Tracker.mem_claimAll_of_mem h _⟩
  obtain ⟨term, -, hs⟩ := List.mem_flatMap.1 hoffered
  obtain ⟨bounds, -, rfl⟩ := List.mem_map.1 hs
  exact hstyle rfl

theorem style_of_mem_markExact (h : s ∈ (markExact text query Tracker.empty).accepted) :
    s.style = Reason.exactAmount.style := by
  rcases Tracker.mem_claimAll h with h | h
  · cases h
  · obtain ⟨bounds, -, rfl⟩ := List.mem_map.1 h
    rfl

theorem markNumbers_eq_self {test : Text → Bool} (h : ∀ value, test value = false) :
    markNumbers text test reason t = t := by
  have hnone : (numbers text).filter (fun n => test n.value) = [] := List.filter_eq_nil_iff.2 fun n _ => by simp [h]
  rw [markNumbers, hnone]
  rfl

theorem markMoney_blank (h : Text.IsGap query) : markMoney text query t = t := by
  rw [markMoney, if_pos (Query.isEmpty_moneyTokens_iff.2 h)]

theorem markExact_blank (h : Text.IsGap query) : markExact text query t = t := by
  rw [markExact, Query.tokens_congr (t := []) (Text.words_gap h)]
  rfl

theorem moneyTokens_of_range {range : PriceRange} (h : range? query = some range) :
    moneyTokens query = ⟨[], [], some range⟩ := by
  simp only [moneyTokens, h]

/-- Apart from words, exact amounts are marked, and beside them the numbers that pass the test of the query. -/
theorem mem_markMoney_iff (hstyle : s.style ≠ Reason.wordBesideAmount.style) :
    s ∈ (markMoney text query Tracker.empty).accepted ↔ s ∈ (markExact text query Tracker.empty).accepted ∨
      ∃ n ∈ numbers text, (markExact text query Tracker.empty).overlaps n.start n.stop = false ∧
        ((range? query = none ∧ n.IsBegun query ∧ s = spanFor .begunAmount (n.start, n.stop)) ∨
          ∃ range, range? query = some range ∧ n.LiesIn range ∧ s = spanFor .amountInRange (n.start, n.stop)) := by
  by_cases hgap : Text.IsGap query
  · have htokens : moneyTokens query = ⟨[], [], none⟩ := Query.moneyTokens_congr (t := []) (Text.words_gap hgap)
    have hrange : range? query = none := by rw [← Query.range_moneyTokens, htokens]
    rw [markMoney_blank hgap, markExact_blank hgap]
    simp [htokens, hrange, NumberSpan.IsBegun]
  have hfilled : ¬(moneyTokens query).isEmpty = true := fun h => hgap (Query.isEmpty_moneyTokens_iff.1 h)
  rw [markMoney, if_neg hfilled, mem_markTerms_of_style_ne hstyle, Query.range_moneyTokens]
  cases hrange : range? query with
  | none =>
    simp only [markBegun, mem_markNumbers, List.any_eq_true, NumberSpan.IsBegun, true_and, reduceCtorEq, false_and,
      exists_false, or_false, and_left_comm]
  | some range =>
    have hbegun : markBegun text ((moneyTokens query).amounts.map Prod.fst) (markExact text query Tracker.empty) =
        markExact text query Tracker.empty := by
      rw [moneyTokens_of_range hrange]
      exact markNumbers_eq_self fun _ => rfl
    rw [hbegun]
    simp only [markRange, mem_markNumbers, Option.any_eq_true, NumberSpan.LiesIn, reduceCtorEq, false_and, false_or,
      Option.some.injEq, exists_eq_left', and_left_comm]

/-- Where nothing is looked for, nothing would be found. -/
theorem accepted_markMoney_of_isIdle (h : isIdle text query = true) :
    (markMoney text query Tracker.empty).accepted = [] := by
  rcases Bool.or_eq_true_iff.1 h with htext | hquery
  · rw [List.isEmpty_iff.1 htext]
    have hsound := sound_markMoney query (Tracker.sound_empty ([] : Text).length)
    refine List.eq_nil_iff_forall_not_mem.2 fun s hs => ?_
    have hstart := (hsound.fits s hs).start_nonneg
    have hstop := (hsound.fits s hs).stop_le
    have hfilled := hsound.filled s hs
    rw [List.length_nil, Int.natCast_zero] at hstop
    omega
  · rw [List.isEmpty_iff, Text.strip_eq_nil_iff, Text.words_eq_nil_iff] at hquery
    rw [markMoney_blank hquery]
    rfl

end Passes

section Marks

variable {text query : Text} {m : Mark} {n : NumberSpan}

theorem mem_marksIn_monetary : m ∈ marksIn (highlight .monetary text query) ↔
    m.span ∈ (markMoney text query Tracker.empty).accepted ∧ m.content <+: text.drop m.start := by
  have hmarks : m.span ∈ marks .monetary text query ↔ m.span ∈ (markMoney text query Tracker.empty).accepted :=
    Sorting.mem_sort
  rw [mem_marksIn_highlight, hmarks]
  refine and_iff_right_of_imp fun h => Bool.eq_false_iff.2 fun hidle => ?_
  rw [accepted_markMoney_of_isIdle hidle] at h
  exact List.not_mem_nil h.1

theorem Mark.style_ne {reason : Reason} (h : m.reason ≠ reason) : m.span.style ≠ reason.style := fun hstyle =>
  h (Reason.style_injective hstyle)

theorem mem_marksIn_exact (hreason : m.reason = .exactAmount) : m ∈ marksIn (highlight .monetary text query) ↔
    m.span ∈ (markExact text query Tracker.empty).accepted ∧ m.content <+: text.drop m.start := by
  have hne : ∀ reason : Reason, reason ≠ .exactAmount → m.span.style ≠ reason.style := fun reason hne =>
    Mark.style_ne (hreason ▸ hne.symm)
  rw [mem_marksIn_monetary, mem_markMoney_iff (hne _ (by decide))]
  refine and_congr_left fun _ => or_iff_left ?_
  rintro ⟨n, -, -, ⟨-, -, h⟩ | ⟨range, -, -, h⟩⟩
  · exact hne .begunAmount (by decide) (congrArg Span.style h)
  · exact hne .amountInRange (by decide) (congrArg Span.style h)

theorem NumberSpan.StandsIn.eq_mark_iff {reason : Reason} (h : n.StandsIn text) :
    m = n.mark text reason ↔ m.span = spanFor reason (n.start, n.stop) ∧ m.content <+: text.drop m.start :=
  Marking.eq_mark_iff (Nat.le_of_lt h.filled) h.stop_le

theorem meets_span_iff (hn : n.start < n.stop) (hm : m.span.start < m.span.stop) :
    meets n.start n.stop m.span.start m.span.stop = true ↔ ¬(m.stop ≤ n.start ∨ n.stop ≤ m.start) := by
  rw [meets, decide_eq_true_eq]
  simp only [Mark.span, spanFor] at *
  omega

theorem NumberSpan.StandsIn.isFree_iff (h : n.StandsIn text) : n.IsFree (marksIn (highlight .monetary text query)) ↔
    (markExact text query Tracker.empty).overlaps n.start n.stop = false := by
  have hsound := sound_markExact query (Tracker.sound_empty text.length)
  rw [Tracker.overlaps, List.any_eq_false]
  constructor
  · intro hfree s hs
    obtain ⟨m, rfl, hprefix⟩ := (hsound.fits s hs).exists_mark (hsound.filled s hs)
    have hreason : m.reason = .exactAmount := Reason.style_injective (style_of_mem_markExact hs)
    rw [meets_span_iff h.filled (hsound.filled _ hs), not_not]
    exact hfree m ((mem_marksIn_exact hreason).2 ⟨hs, hprefix⟩) hreason
  · intro hclear m hm hreason
    have hs := ((mem_marksIn_exact hreason).1 hm).1
    have hmeets := hclear _ hs
    rwa [meets_span_iff h.filled (hsound.filled _ hs), not_not] at hmeets

/-- What is marked as a number is a free number that passes the test of the query. -/
theorem mem_marksIn_number_iff (hreason : m.reason = .begunAmount ∨ m.reason = .amountInRange) :
    m ∈ marksIn (highlight .monetary text query) ↔
      ∃ n ∈ numbers text, n.IsFree (marksIn (highlight .monetary text query)) ∧
        ((range? query = none ∧ n.IsBegun query ∧ m = n.mark text .begunAmount) ∨
          ∃ range, range? query = some range ∧ n.LiesIn range ∧ m = n.mark text .amountInRange) := by
  have hexact : m.reason ≠ .exactAmount := by rcases hreason with h | h <;> simp [h]
  have hword : m.reason ≠ .wordBesideAmount := by rcases hreason with h | h <;> simp [h]
  have hnone : m.span ∉ (markExact text query Tracker.empty).accepted := fun h =>
    Mark.style_ne hexact (style_of_mem_markExact h)
  rw [mem_marksIn_monetary, mem_markMoney_iff (Mark.style_ne hword), or_iff_right hnone]
  constructor
  · rintro ⟨⟨n, hn, hclear, htest⟩, hprefix⟩
    have hstands := standsIn_of_mem_numbers hn
    refine ⟨n, hn, hstands.isFree_iff.2 hclear, ?_⟩
    simpa only [hstands.eq_mark_iff, hprefix, and_true] using htest
  · rintro ⟨n, hn, hfree, htest⟩
    have hstands := standsIn_of_mem_numbers hn
    rcases htest with ⟨hrange, hbegun, rfl⟩ | ⟨range, hrange, hlies, rfl⟩
    all_goals
      obtain ⟨hspan, hprefix⟩ := hstands.eq_mark_iff.1 rfl
      refine ⟨⟨n, hn, hstands.isFree_iff.1 hfree, ?_⟩, hprefix⟩
    · exact .inl ⟨hrange, hbegun, hspan⟩
    · exact .inr ⟨range, hrange, hlies, hspan⟩

theorem NumberSpan.StandsIn.mark_inj {k : NumberSpan} {a b : Reason} (hn : n.StandsIn text) (hk : k.StandsIn text) :
    n.mark text a = k.mark text b ↔ a = b ∧ n = k := by
  constructor
  · intro h
    have hspan := (hn.eq_mark_iff.1 rfl).1.symm.trans ((congrArg Mark.span h).trans (hk.eq_mark_iff.1 rfl).1)
    obtain ⟨hreason, hstart, hstop⟩ := spanFor_inj.1 hspan
    exact ⟨hreason, hn.eq_of_bounds hk hstart hstop⟩
  · rintro ⟨rfl, rfl⟩
    rfl

/-- The test alone decides for a number that is free. -/
theorem mark_mem_marksIn_iff {reason : Reason} (hreason : reason = .begunAmount ∨ reason = .amountInRange)
    (hn : n ∈ numbers text) (hfree : n.IsFree (marksIn (highlight .monetary text query))) :
    n.mark text reason ∈ marksIn (highlight .monetary text query) ↔
      (range? query = none ∧ n.IsBegun query ∧ reason = .begunAmount) ∨
        ∃ range, range? query = some range ∧ n.LiesIn range ∧ reason = .amountInRange := by
  have hstands := standsIn_of_mem_numbers hn
  rw [mem_marksIn_number_iff hreason]
  constructor
  · rintro ⟨k, hk, -, ⟨hrange, hbegun, hmark⟩ | ⟨range, hrange, hlies, hmark⟩⟩
    · obtain ⟨rfl, rfl⟩ := (hstands.mark_inj (standsIn_of_mem_numbers hk)).1 hmark
      exact .inl ⟨hrange, hbegun, rfl⟩
    · obtain ⟨rfl, rfl⟩ := (hstands.mark_inj (standsIn_of_mem_numbers hk)).1 hmark
      exact .inr ⟨range, hrange, hlies, rfl⟩
  · rintro (⟨hrange, hbegun, rfl⟩ | ⟨range, hrange, hlies, rfl⟩)
    · exact ⟨n, hn, hfree, .inl ⟨hrange, hbegun, rfl⟩⟩
    · exact ⟨n, hn, hfree, .inr ⟨range, hrange, hlies, rfl⟩⟩

end Marks

/-- The numbers of a text stand one behind the other. With nothing remembered, a number that meets no mark of an exact
amount is marked by the amounts of a query exactly if there is no range and one of them begins the number, and by a range
exactly if it lies in the range. Nothing else is marked for these reasons. -/
theorem numbers_marked_alone (capacity openingLength : Int) (text query : Text) :
    let marks := marksIn ((Cache.empty capacity openingLength).highlight .monetary text query).1
    (numbers text).Pairwise (fun a b => a.stop ≤ b.start) ∧ (∀ n ∈ numbers text, n.StandsIn text) ∧
    (∀ n ∈ numbers text, n.IsFree marks →
      (n.mark text .begunAmount ∈ marks ↔ range? query = none ∧ n.IsBegun query) ∧
      (n.mark text .amountInRange ∈ marks ↔ ∃ range, range? query = some range ∧ n.LiesIn range)) ∧
    ∀ m ∈ marks, m.reason = .begunAmount ∨ m.reason = .amountInRange →
      ∃ n ∈ numbers text, n.IsFree marks ∧ m = n.mark text m.reason := by
  dsimp only
  rw [fst_highlight_of_get?_eq_none rfl]
  refine ⟨pairwise_numbers text, fun n hn => standsIn_of_mem_numbers hn, ?_, ?_⟩
  · intro n hn hfree
    rw [mark_mem_marksIn_iff (.inl rfl) hn hfree, mark_mem_marksIn_iff (.inr rfl) hn hfree]
    simp
  · intro m hm hreason
    obtain ⟨n, hn, hfree, ⟨-, -, rfl⟩ | ⟨range, -, -, rfl⟩⟩ := (mem_marksIn_number_iff hreason).1 hm
    · exact ⟨n, hn, hfree, rfl⟩
    · exact ⟨n, hn, hfree, rfl⟩

/-- The last number is the exact amount, and the first one, which twelve begins, does not meet it. -/
theorem numbers_marked_alone_twelve : ∃ n ∈ numbers "$12.50, 7 and 12".toText,
    n.mark "$12.50, 7 and 12".toText .begunAmount ∈
      marksIn ((Cache.empty 10 100).highlight .monetary "$12.50, 7 and 12".toText "$12".toText).1 := by
  obtain ⟨-, -, hmarked, -⟩ := numbers_marked_alone 10 100 "$12.50, 7 and 12".toText "$12".toText
  have hn : (⟨0, 6, "12.50".toText⟩ : NumberSpan) ∈ numbers "$12.50, 7 and 12".toText := by decide +kernel
  refine ⟨_, hn, (hmarked _ hn ?_).1.2 ⟨by decide +kernel, "$12".toText, by decide +kernel, by decide +kernel⟩⟩
  unfold NumberSpan.IsFree
  decide +kernel

end LedgerSearch.Marking

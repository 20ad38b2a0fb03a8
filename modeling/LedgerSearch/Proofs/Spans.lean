import LedgerSearch.Marking.Highlighter

/-!
# Accepted spans

Every pass offers spans that lie inside the text. A tracker accepts an offered span only if it is filled and meets
none accepted before, so what it has accepted stays sound (`Tracker.Sound`), pass after pass. By their starts the
accepted spans stand one behind the other (`laid_marks`).
-/

namespace LedgerSearch

namespace Text

theorem length_le_of_startsMatching {term text : Text} (h : startsMatching term text = true) :
    term.length ≤ text.length := by
  induction term generalizing text with
  | nil => exact Nat.zero_le _
  | cons a term ih =>
    cases text with
    | nil => cases h
    | cons b text =>
      simp only [startsMatching, Bool.and_eq_true] at h
      exact Nat.succ_le_succ (ih h.2)

/-- What stops inside a text stops inside a longer one. -/
theorem stop_le_of_behind {stop offset : Nat} {c : CodePoint} {rest : Text} (h : stop ≤ offset + 1 + rest.length) :
    stop ≤ offset + (c :: rest).length := by
  simp only [List.length_cons]
  omega

theorem stop_le_of_mem_occurrencesFrom {term t : Text} {offset skip : Nat} {bounds : Nat × Nat}
    (h : bounds ∈ occurrencesFrom term offset skip t) : bounds.2 ≤ offset + t.length := by
  induction t generalizing offset skip with
  | nil => cases h
  | cons c rest ih =>
    cases skip with
    | succ n => exact stop_le_of_behind (ih h)
    | zero =>
      simp only [occurrencesFrom] at h
      split at h
      · rename_i hmatch
        rcases List.mem_cons.1 h with rfl | h
        · exact Nat.add_le_add_left (length_le_of_startsMatching hmatch) offset
        · exact stop_le_of_behind (ih h)
      · exact stop_le_of_behind (ih h)

theorem stop_le_of_mem_occurrences {term text : Text} {bounds : Nat × Nat} (h : bounds ∈ occurrences term text) :
    bounds.2 ≤ text.length := by
  simpa using stop_le_of_mem_occurrencesFrom h

end Text

namespace Marking

theorem formLength?_le {form t : Text} {n : Nat} (h : formLength? form t = some n) : n ≤ t.length := by
  have alone : ∀ {body : Text}, (form.isPrefixOf body && !continues (body.drop form.length)) = true →
      form.length ≤ body.length := by
    intro body h
    rw [Bool.and_eq_true, List.isPrefixOf_iff_prefix] at h
    exact h.1.length_le
  unfold formLength? at h
  dsimp only at h
  split at h
  · split at h
    · cases h
      rename_i rest hrest
      exact Nat.succ_le_succ (alone hrest)
    · split at h
      · cases h
        rename_i hform
        exact alone hform
      · cases h
  · split at h
    · cases h
      rename_i hform
      exact alone hform
    · cases h

theorem stop_le_of_mem_formsFrom {form t : Text} {offset skip : Nat} {previous : Option CodePoint}
    {bounds : Nat × Nat} (h : bounds ∈ formsFrom form offset skip previous t) : bounds.2 ≤ offset + t.length := by
  induction t generalizing offset skip previous with
  | nil => cases h
  | cons c rest ih =>
    cases skip with
    | succ n => exact Text.stop_le_of_behind (ih h)
    | zero =>
      simp only [formsFrom] at h
      split at h
      · rename_i n hlength
        rcases List.mem_cons.1 h with rfl | h
        · split at hlength
          · cases hlength
          · exact Nat.add_le_add_left (formLength?_le hlength) offset
        · exact Text.stop_le_of_behind (ih h)
      · exact Text.stop_le_of_behind (ih h)

theorem stop_le_of_mem_standingAlone {form text : Text} {bounds : Nat × Nat} (h : bounds ∈ standingAlone form text) :
    bounds.2 ≤ text.length := by
  simpa using stop_le_of_mem_formsFrom h

theorem places_opens (t : Text) : places t <+: t := by
  unfold places
  split
  · rename_i a b rest
    split
    · exact ⟨rest, rfl⟩
    · exact List.nil_prefix
  · exact List.nil_prefix

/-- A run of number characters and the places behind it stand at the start of a text. -/
theorem run_places_opens (body : Text) :
    body.takeWhile isRunChar ++ places (body.drop (body.takeWhile isRunChar).length) <+: body := by
  have hrun : body.takeWhile isRunChar ++ body.drop (body.takeWhile isRunChar).length = body :=
    List.prefix_iff_eq_append.1 (List.takeWhile_prefix isRunChar)
  conv => rhs; rw [← hrun]
  exact (List.prefix_append_right_inj _).2 (places_opens _)

theorem numberAt_opens (t : Text) : numberAt t <+: t := by
  unfold numberAt
  split
  rename_i dollar body hsplit
  have ht : t = dollar ++ body := by
    split at hsplit <;> cases hsplit <;> rfl
  dsimp only
  split
  · exact List.nil_prefix
  · rw [ht, List.append_assoc]
    exact (List.prefix_append_right_inj dollar).2 (run_places_opens body)

theorem length_dropCommasEnd_le (t : Text) : (dropCommasEnd t).length ≤ t.length := by
  have h := (List.dropWhile_sublist (l := t.reverse) fun c : CodePoint => decide (c = ',')).length_le
  simpa [dropCommasEnd, Text.dropEndWhile] using h

theorem stop_le_of_numberSpan? {offset : Nat} {written : Text} {n : NumberSpan}
    (h : numberSpan? offset written = some n) : n.stop ≤ offset + written.length := by
  simp only [numberSpan?] at h
  split at h
  · cases h
    exact Nat.add_le_add_left (length_dropCommasEnd_le written) offset
  · cases h

theorem stop_le_of_mem_numbersFrom {t : Text} {offset skip : Nat} {n : NumberSpan}
    (h : n ∈ numbersFrom offset skip t) : n.stop ≤ offset + t.length := by
  induction t generalizing offset skip with
  | nil => cases h
  | cons c rest ih =>
    cases skip with
    | succ k => exact Text.stop_le_of_behind (ih h)
    | zero =>
      rcases List.mem_append.1 h with h | h
      · have hstop := stop_le_of_numberSpan? (Option.mem_toList.1 h)
        have hwritten := (numberAt_opens (c :: rest)).length_le
        omega
      · exact Text.stop_le_of_behind (ih h)

theorem stop_le_of_mem_numbers {text : Text} {n : NumberSpan} (h : n ∈ numbers text) : n.stop ≤ text.length := by
  simpa using stop_le_of_mem_numbersFrom h

namespace Span

/-- The span lies inside a text of a length and is set for a reason. -/
structure Fits (length : Nat) (s : Span) : Prop where
  start_nonneg : 0 ≤ s.start
  stop_le : s.stop ≤ length
  styled : ∃ reason : Reason, s.style = reason.style

/-- The spans have no position in common. -/
def Apart (s t : Span) : Prop := s.stop ≤ t.start ∨ t.stop ≤ s.start

theorem Apart.symm {s t : Span} (h : Apart s t) : Apart t s := Or.symm h

end Span

theorem fits_spanFor {length : Nat} (reason : Reason) {bounds : Nat × Nat} (h : bounds.2 ≤ length) :
    (spanFor reason bounds).Fits length :=
  ⟨Int.natCast_nonneg _, Int.ofNat_le.2 h, reason, rfl⟩

namespace Tracker

/-- Each accepted span holds a position, and no two have one in common. -/
structure Separate (t : Tracker) : Prop where
  filled : ∀ s ∈ t.accepted, s.start < s.stop
  apart : t.accepted.Pairwise Span.Apart

/-- The accepted spans lie inside a text, each holds a position, and no two have one in common. -/
structure Sound (length : Nat) (t : Tracker) : Prop where
  fits : ∀ s ∈ t.accepted, s.Fits length
  filled : ∀ s ∈ t.accepted, s.start < s.stop
  apart : t.accepted.Pairwise Span.Apart

variable {length : Nat} {t : Tracker}

theorem separate_empty : empty.Separate := ⟨List.forall_mem_nil _, .nil⟩

theorem sound_empty (length : Nat) : empty.Sound length := ⟨List.forall_mem_nil _, List.forall_mem_nil _, .nil⟩

theorem Sound.separate (h : t.Sound length) : t.Separate := ⟨h.filled, h.apart⟩

theorem admits_iff {s : Span} :
    t.admits s = true ↔ s.start < s.stop ∧ ∀ a ∈ t.accepted, min s.stop a.stop ≤ max s.start a.start := by
  simp only [admits, overlaps, meets, Bool.and_eq_true, Bool.not_eq_true', List.any_eq_false, decide_eq_true_eq,
    Int.not_lt]

/-- Whatever its bounds are, an offered span leaves the accepted ones separate. -/
theorem Separate.claim (h : t.Separate) (s : Span) : (t.claim s).Separate := by
  unfold Tracker.claim
  split
  · rename_i hadmits
    obtain ⟨hfilled, hclear⟩ := admits_iff.1 hadmits
    refine ⟨List.forall_mem_append.2 ⟨h.filled, by simpa using hfilled⟩, ?_⟩
    refine List.pairwise_append.2 ⟨h.apart, List.pairwise_singleton _ s, ?_⟩
    intro a ha b hb
    obtain rfl := List.mem_singleton.1 hb
    have hmeets := hclear a ha
    have hafilled := h.filled a ha
    unfold Span.Apart
    omega
  · exact h

theorem Separate.claimAll (h : t.Separate) (spans : List Span) : (t.claimAll spans).Separate := by
  induction spans generalizing t with
  | nil => exact h
  | cons s rest ih => exact ih (h.claim s)

theorem Sound.claim (h : t.Sound length) {s : Span} (hs : s.Fits length) : (t.claim s).Sound length := by
  obtain ⟨hfilled, hapart⟩ := h.separate.claim s
  refine ⟨?_, hfilled, hapart⟩
  unfold Tracker.claim
  split
  · exact List.forall_mem_append.2 ⟨h.fits, by simpa using hs⟩
  · exact h.fits

theorem Sound.claimAll (h : t.Sound length) {spans : List Span} (hs : ∀ s ∈ spans, s.Fits length) :
    (t.claimAll spans).Sound length := by
  induction spans generalizing t with
  | nil => exact h
  | cons s rest ih =>
    obtain ⟨hs, hrest⟩ := List.forall_mem_cons.1 hs
    exact ih (h.claim hs) hrest

/-- Only offered spans are accepted. -/
theorem mem_claim {s a : Span} (h : a ∈ (t.claim s).accepted) : a ∈ t.accepted ∨ a = s := by
  unfold claim at h
  split at h
  case isTrue => exact (List.mem_append.1 h).imp_right List.mem_singleton.1
  case isFalse => exact .inl h

theorem mem_claimAll {spans : List Span} {a : Span} (h : a ∈ (t.claimAll spans).accepted) :
    a ∈ t.accepted ∨ a ∈ spans := by
  induction spans generalizing t with
  | nil => exact .inl h
  | cons s rest ih =>
    rcases ih h with h | h
    · refine (mem_claim h).imp_right ?_
      rintro rfl
      exact List.mem_cons_self
    · exact .inr (List.mem_cons_of_mem s h)

theorem mem_claim_of_mem {a : Span} (h : a ∈ t.accepted) (s : Span) : a ∈ (t.claim s).accepted := by
  unfold claim
  split
  case isTrue => exact List.mem_append_left _ h
  case isFalse => exact h

/-- What is accepted stays accepted. -/
theorem mem_claimAll_of_mem {a : Span} (h : a ∈ t.accepted) (spans : List Span) : a ∈ (t.claimAll spans).accepted := by
  induction spans generalizing t with
  | nil => exact h
  | cons s rest ih => exact ih (mem_claim_of_mem h s)

/-- Of spans that have no position in common those are accepted that meet none accepted before. -/
theorem accepted_claimAll_of_apart {spans : List Span} (hfilled : ∀ s ∈ spans, s.start < s.stop)
    (hapart : spans.Pairwise Span.Apart) :
    (t.claimAll spans).accepted = t.accepted ++ spans.filter fun s => !t.overlaps s.start s.stop := by
  induction spans generalizing t with
  | nil => exact (List.append_nil _).symm
  | cons s rest ih =>
    obtain ⟨hs, hrest⟩ := List.forall_mem_cons.1 hfilled
    obtain ⟨hnext, hlater⟩ := List.pairwise_cons.1 hapart
    rw [claimAll, List.foldl_cons, ← claimAll, ih hrest hlater, claim]
    split
    case isTrue hadmits =>
      have hclear : (!t.overlaps s.start s.stop) = true := (Bool.and_eq_true_iff.1 hadmits).2
      have hsame : ∀ a ∈ rest, (!(Tracker.mk (t.accepted ++ [s])).overlaps a.start a.stop) = !t.overlaps a.start a.stop := by
        intro a ha
        have hmeets : meets a.start a.stop s.start s.stop = false := by
          have := hnext a ha
          rw [meets, decide_eq_false_iff_not]
          unfold Span.Apart at this
          omega
        simp [overlaps, hmeets]
      rw [List.filter_cons, if_pos hclear, List.filter_congr hsame, List.append_assoc, List.singleton_append]
    case isFalse hrefused =>
      have hmet : ¬(!t.overlaps s.start s.stop) = true := fun hclear =>
        hrefused (Bool.and_eq_true_iff.2 ⟨decide_eq_true hs, hclear⟩)
      rw [List.filter_cons, if_neg hmet]

end Tracker

section Passes

variable {text : Text} {t : Tracker}

theorem sound_markTerms (terms : List Text) (reason : Reason) (h : t.Sound text.length) :
    (markTerms text terms reason t).Sound text.length := by
  apply h.claimAll
  intro s hs
  obtain ⟨term, -, hs⟩ := List.mem_flatMap.1 hs
  obtain ⟨bounds, hbounds, rfl⟩ := List.mem_map.1 hs
  exact fits_spanFor reason (Text.stop_le_of_mem_occurrences hbounds)

theorem stop_le_of_mem_exactBounds {token : Text} {bounds : Nat × Nat} (h : bounds ∈ exactBounds text token) :
    bounds.2 ≤ text.length := by
  unfold exactBounds at h
  split at h
  · split at h
    · obtain ⟨form, -, h⟩ := List.mem_flatMap.1 h
      exact stop_le_of_mem_standingAlone h
    · cases h
  · cases h

theorem sound_markExact (query : Text) (h : t.Sound text.length) : (markExact text query t).Sound text.length := by
  apply h.claimAll
  intro s hs
  obtain ⟨bounds, hbounds, rfl⟩ := List.mem_map.1 hs
  obtain ⟨token, -, hbounds⟩ := List.mem_flatMap.1 hbounds
  exact fits_spanFor .exactAmount (stop_le_of_mem_exactBounds hbounds)

theorem sound_markNumbers (test : Text → Bool) (reason : Reason) (h : t.Sound text.length) :
    (markNumbers text test reason t).Sound text.length := by
  apply h.claimAll
  intro s hs
  obtain ⟨n, hn, rfl⟩ := List.mem_map.1 hs
  exact fits_spanFor reason (stop_le_of_mem_numbers (List.mem_filter.1 hn).1)

theorem sound_markMoney (query : Text) (h : t.Sound text.length) : (markMoney text query t).Sound text.length := by
  unfold markMoney
  dsimp only
  split
  · exact h
  · have hbegun := sound_markNumbers
      (fun value => ((Query.moneyTokens query).amounts.map Prod.fst).any fun token => Query.admits token value)
      .begunAmount (sound_markExact query h)
    apply sound_markTerms
    split
    · exact sound_markNumbers _ _ hbegun
    · exact hbegun

end Passes

/-- Spans inside a text, each of them filled and behind the one before it. -/
structure Laid (length : Nat) (spans : List Span) : Prop where
  fits : ∀ s ∈ spans, s.Fits length
  filled : ∀ s ∈ spans, s.start < s.stop
  inOrder : spans.Pairwise fun a b => a.stop ≤ b.start

/-- By their starts separate spans stand one behind the other. -/
theorem Tracker.Separate.inOrder_spans {t : Tracker} (h : t.Separate) :
    t.spans.Pairwise fun a b => a.start < b.start ∧ a.stop ≤ b.start := by
  have hperm : t.spans.Perm t.accepted := Sorting.sort_perm _ _
  have hfilled : ∀ s ∈ t.spans, s.start < s.stop := fun s hs => h.filled s (hperm.mem_iff.1 hs)
  have hstarts : t.spans.Pairwise fun a b => decide (a.start ≤ b.start) = true := by
    apply Sorting.pairwise_sort (p := fun _ => True)
    · intro a b _ _
      simpa using Int.le_total a.start b.start
    · intro a b c _ _ _ hab hbc
      simp only [decide_eq_true_eq] at hab hbc ⊢
      exact Int.le_trans hab hbc
    · intro a _
      trivial
  have hapart : t.spans.Pairwise Span.Apart := (hperm.pairwise_iff Span.Apart.symm).2 h.apart
  -- The span that starts no later ends before the other one starts: the other way round it would hold nothing.
  refine (hstarts.and hapart).imp_of_mem fun {a b} ha hb hab => ?_
  obtain ⟨hle, hapart⟩ := hab
  have hpos := hfilled b hb
  have hpos' := hfilled a ha
  simp only [decide_eq_true_eq] at hle
  unfold Span.Apart at hapart
  omega

theorem Tracker.Sound.laid_spans {length : Nat} {t : Tracker} (h : t.Sound length) : Laid length t.spans := by
  have hperm : t.spans.Perm t.accepted := Sorting.sort_perm _ _
  exact ⟨fun s hs => h.fits s (hperm.mem_iff.1 hs), fun s hs => h.filled s (hperm.mem_iff.1 hs),
    h.separate.inOrder_spans.imp And.right⟩

theorem laid_marks (mode : Mode) (text query : Text) : Laid text.length (marks mode text query) := by
  have hempty := Tracker.sound_empty text.length
  unfold marks
  cases mode with
  | text => exact (sound_markTerms _ _ hempty).laid_spans
  | monetary => exact (sound_markMoney query hempty).laid_spans

end Marking
end LedgerSearch

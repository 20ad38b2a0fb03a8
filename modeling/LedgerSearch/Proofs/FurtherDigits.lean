import LedgerSearch.Proofs.TypedAmounts

/-!
# Typing on

Data that has at least as many whole digits as have been typed is seen by a typed amount through its whole part alone: a
whole part, with or without its point, admits what begins with it, and decimals admit nothing that begins otherwise. So
each further key narrows what is admitted (`admits_narrows`). Against shorter data it need not: four digits admit a
shorter whole part that three digits do not.
-/

namespace LedgerSearch

namespace Text

variable {c : CodePoint} {s t v : Text}

/-- What stands before a character is seen from a beginning that reaches the character. -/
theorem before_eq_of_prefix (h : s <+: t) (hc : c ∈ s) : before c s = before c t := by
  obtain ⟨r, rfl⟩ := h
  rcases eq_before_or c s with hs | ⟨s', hs⟩
  · rw [hs] at hc
    exact absurd hc (notMem_before c s)
  · conv => rhs; rw [hs, List.append_assoc, List.cons_append, before_append_cons (notMem_before c s)]

/-- A beginning that goes on past the text before a character goes on with the character. -/
theorem before_of_prefix_append_cons (hv : c ∉ v) (hstart : v <+: s) (h : s <+: v ++ c :: t) : before c s = v := by
  obtain ⟨r, rfl⟩ := hstart
  rw [List.prefix_append_right_inj] at h
  cases r with
  | nil => rw [List.append_nil, before_of_notMem hv]
  | cons d r =>
    obtain ⟨rfl, -⟩ := List.cons_prefix_cons.1 h
    exact before_append_cons hv r

end Text

namespace Query

open Text (allPlainDigits)

variable {w d : Digits} {data : Text}

theorem dropNoise_digits (w : Digits) : dropNoise w.1 = w.1 := dropNoise_eq_self fun c hc => .inl (w.isPlainDigit c hc)

theorem dropNoise_append_point (w : Digits) (f : Text) :
    dropNoise (w.1 ++ ('.' : CodePoint) :: f) = w.1 ++ ('.' : CodePoint) :: dropNoise f := by
  have hpoint : isMoneyNoise '.' = false := by decide
  rw [dropNoise, List.filter_append, List.filter_cons, hpoint, ← dropNoise, dropNoise_digits]
  rfl

/-- In data that are digits up to the first point, noise stands behind it. -/
theorem before_dropNoise (h : Text.before '.' data = d.1) : Text.before '.' (dropNoise data) = d.1 := by
  rcases Text.eq_before_or '.' data with hdata | ⟨rest, hdata⟩ <;> rw [h] at hdata
  · rw [hdata, dropNoise_digits, Text.before_of_notMem d.point_notMem]
  · rw [hdata, dropNoise_append_point, Text.before_append_cons d.point_notMem]

/-- Dropping the zeros of a fraction, and its point, leaves the whole part as it is. -/
theorem before_trimFraction (h : Text.before '.' data = d.1) : Text.before '.' (trimFraction data) = d.1 := by
  rcases Text.eq_before_or '.' data with hdata | ⟨rest, hdata⟩ <;> rw [h] at hdata
  · rw [trimFraction_of_notMem (by rw [hdata]; exact d.point_notMem), h]
  · have hzeros : trimFraction data =
        Text.dropEndWhile (· = '.') (d.1 ++ ('.' : CodePoint) :: Text.dropEndWhile (· = '0') rest) := by
      rw [trimFraction, if_pos (by rw [hdata]; simp), hdata, Text.dropEndWhile_append_cons (by decide)]
    have hlast : ∀ c ∈ d.1.getLast?, decide (c = '.') = false :=
      fun c hc => decide_eq_false fun h => d.point_notMem (h ▸ List.mem_of_getLast? hc)
    rw [hzeros]
    refine Text.before_of_prefix_append_cons d.point_notMem ?_ (List.rdropWhile_prefix _ _)
    exact (Text.prefix_dropEndWhile_iff hlast).2 (List.prefix_append _ _)

section Admits

variable {query q : Text}

theorem admits_iff_of_before (hq : dropNoise query = q) (hw : Text.before '.' q = w.1)
    (hdata : Text.before '.' data = d.1) : admits query data = true ↔ q = dropNoise data ∨
      (if q.contains ('.' : CodePoint) then admitsDecimal q (dropNoise data)
        else admitsWhole q (dropNoise data)) = true := by
  have hne : ∀ {t : Text} {v : Digits}, Text.before '.' t = v.1 → t.isEmpty = false := by
    intro t v h
    refine List.isEmpty_eq_false_iff.2 fun hnil => v.ne_nil ?_
    rw [← h, hnil]
    rfl
  simp only [admits, hq, hne hw, hne (before_dropNoise hdata), Bool.or_false, Bool.false_eq_true, if_false,
    Bool.or_eq_true, beq_iff_eq]

/-- An amount that is typed as it stands in data has the whole part of the data. -/
theorem eq_of_eq_dropNoise (hw : Text.before '.' q = w.1) (hdata : Text.before '.' data = d.1) (h : q = dropNoise data) :
    w = d :=
  Subtype.ext (by rw [← hw, h, before_dropNoise hdata])

theorem admits_whole_iff (hdata : Text.before '.' data = d.1) (hlength : w.1.length ≤ d.1.length) :
    admits w.1 data = true ↔ w.1 <+: d.1 := by
  have hw : Text.before '.' w.1 = w.1 := Text.before_of_notMem w.point_notMem
  have hlonger : ¬(4 ≤ w.1.length ∧ d.1 <+: w.1 ∧ d ≠ w) := by
    rintro ⟨-, hbegins, hne⟩
    exact hne (Subtype.ext (hbegins.eq_of_length_le hlength))
  rw [admits_iff_of_before (dropNoise_digits w) hw hdata, if_neg (by simpa using w.point_notMem),
    admitsWhole_iff_of_before (before_dropNoise hdata), or_iff_left hlonger]
  exact or_iff_right_of_imp fun h => eq_of_eq_dropNoise hw hdata h ▸ List.prefix_rfl

theorem admits_point_iff (hdata : Text.before '.' data = d.1) :
    admits (w.1 ++ [('.' : CodePoint)]) data = true ↔ w.1 <+: d.1 := by
  have hq : dropNoise (w.1 ++ [('.' : CodePoint)]) = w.1 ++ [('.' : CodePoint)] := dropNoise_append_point w []
  have hw : Text.before '.' (w.1 ++ [('.' : CodePoint)]) = w.1 := Text.before_append_cons w.point_notMem []
  rw [admits_iff_of_before hq hw hdata, if_pos (by simp), admitsDecimal_point_iff, before_dropNoise hdata]
  exact or_iff_right_of_imp fun h => eq_of_eq_dropNoise hw hdata h ▸ List.prefix_rfl

/-- Whatever is typed behind the point, nothing is admitted that does not begin with the digits before it. -/
theorem prefix_of_admits {f : Text} (hdata : Text.before '.' data = d.1)
    (h : admits (w.1 ++ ('.' : CodePoint) :: f) data = true) : w.1 <+: d.1 := by
  have hw : ∀ f, Text.before '.' (w.1 ++ ('.' : CodePoint) :: f) = w.1 := Text.before_append_cons w.point_notMem
  rw [admits_iff_of_before (dropNoise_append_point w f) (hw _) hdata, if_pos (by simp), admitsDecimal,
    splitPoint_append w.point_notMem] at h
  rcases h with h | h
  · exact eq_of_eq_dropNoise (hw _) hdata h ▸ List.prefix_rfl
  · have hdropped := before_dropNoise hdata
    dsimp only at h
    split at h
    · rw [Bool.and_eq_true, List.isPrefixOf_iff_prefix, ← Text.prefix_before_iff w.point_notMem, hdropped] at h
      exact h.2
    · -- without their zeros the decimals are the data, or go on behind its point: both have one whole part
      have hwhole : Text.before '.' (trimFraction (w.1 ++ ('.' : CodePoint) :: dropNoise f)) = w.1 :=
        before_trimFraction (hw _)
      have hdigits := before_trimFraction hdropped
      simp only [Bool.or_eq_true, beq_iff_eq, Bool.and_eq_true, List.contains_iff_mem, List.isPrefixOf_iff_prefix] at h
      have hsame : w.1 = d.1 := by
        rcases h with h | ⟨hpoint, h⟩
        · rw [← hwhole, h, hdigits]
        · rw [← hwhole, ← Text.before_eq_of_prefix h hpoint, hdigits]
      exact hsame ▸ List.prefix_rfl

end Admits

/-- Each further key narrows what a typed amount admits of the data with at least as many whole digits. -/
theorem admits_narrows {v w : Digits} (hbegins : v.1 <+: w.1) (f : Text) {data : Text}
    (hdata : allPlainDigits (Text.before '.' data) = true) (hlength : w.1.length ≤ (Text.before '.' data).length) :
    (admits (w.1 ++ ('.' : CodePoint) :: f) data = true → admits (w.1 ++ [('.' : CodePoint)]) data = true) ∧
    (admits (w.1 ++ [('.' : CodePoint)]) data = true → admits w.1 data = true) ∧
    (admits w.1 data = true → admits v.1 data = true) := by
  obtain ⟨d, hd⟩ : ∃ d : Digits, Text.before '.' data = d.1 := ⟨⟨_, hdata⟩, rfl⟩
  rw [hd] at hlength
  have hshorter := Nat.le_trans hbegins.length_le hlength
  rw [admits_point_iff hd, admits_whole_iff hd hlength, admits_whole_iff hd hshorter]
  exact ⟨prefix_of_admits hd, id, hbegins.trans⟩

theorem admits_narrows_rent : admits "1250.5".toText "1250.50 $".toText = true ∧
    admits "1250.".toText "1250.50 $".toText = true ∧ admits "1250".toText "1250.50 $".toText = true ∧
    admits "12".toText "1250.50 $".toText = true := by
  have hdata : allPlainDigits (Text.before '.' "1250.50 $".toText) = true := by decide
  obtain ⟨hpoint, hwhole, hfirst⟩ :=
    admits_narrows (v := ⟨"12".toText, by decide⟩) (w := ⟨"1250".toText, by decide⟩) (by decide) "5".toText hdata (by decide)
  have h : admits "1250.5".toText "1250.50 $".toText = true := by decide
  exact ⟨h, hpoint h, hwhole (hpoint h), hfirst (hwhole (hpoint h))⟩

/-- Against fewer whole digits a further key may widen. -/
example : admits "1250".toText "12".toText = true ∧ admits "125".toText "12".toText = false := by decide

end Query
end LedgerSearch

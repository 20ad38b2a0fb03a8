import LedgerSearch.Proofs.JoinedTexts
import LedgerSearch.Proofs.VisibleAmounts
import LedgerSearch.Proofs.WrittenTrees

/-!
# The spacing of a query

Each reader of a query is blind to the kind and the length of its gaps: the splitter, the tokens, the dollar sign in
front, the test for digits alone and the four range patterns. The patterns read the text itself, so they are followed
through two texts at once that differ in their gaps alone (`Text.Respaced`). A query without its gaps is its words with
one space between each two (`Text.singleSpaced`), and no answer of a record to a query changes with that
(`holds_singleSpaced`).
-/

namespace LedgerSearch

namespace Text

/-- Texts of the same words that both begin with a gap or both with a word. -/
structure Respaced (s t : Text) : Prop where
  words_eq : words s = words t
  startsBlank_iff : StartsBlank s ↔ StartsBlank t

variable {s t : Text} {c : CodePoint}

theorem Respaced.symm (h : Respaced s t) : Respaced t s := ⟨h.words_eq.symm, h.startsBlank_iff.symm⟩

theorem exists_word_of_not_startsBlank (h : ¬StartsBlank t) : ∃ w s, IsWord w ∧ StartsBlank s ∧ t = w ++ s := by
  rcases exists_first_word t with hgap | ⟨g, w, s, hg, hw, hs, rfl⟩
  · exact absurd hgap.startsBlank h
  · cases g with
    | nil => exact ⟨w, s, hw, hs, rfl⟩
    | cons d g => exact absurd (startsBlank_cons (hg d List.mem_cons_self) (g ++ w ++ s)) h

theorem not_startsBlank_cons (hc : isBlank c = false) (t : Text) : ¬StartsBlank (c :: t) := by
  intro h
  rw [h c rfl] at hc
  cases hc

/-- Texts with the same front part of one word differ in their gaps alone if the rests do. -/
theorem Respaced.word_append {w : Text} (hw : ∀ c ∈ w, isBlank c = false) (hs : StartsBlank s) (ht : StartsBlank t)
    (h : words s = words t) : Respaced (w ++ s) (w ++ t) := by
  by_cases hne : w = []
  · subst hne
    exact ⟨h, iff_of_true hs ht⟩
  · have hword : IsWord w := ⟨hne, hw⟩
    refine ⟨?_, iff_of_false (hword.not_startsBlank s) (hword.not_startsBlank t)⟩
    rw [words_word_append hword hs, words_word_append hword ht, h]

/-- A character of a word stands at the start of both texts or of neither. -/
theorem Respaced.solid (hc : isBlank c = false) (h : Respaced (c :: s) t) : ∃ t', t = c :: t' ∧ Respaced s t' := by
  have hstart := not_startsBlank_cons hc s
  obtain ⟨w, s', hw, hs', hs⟩ := exists_word_of_not_startsBlank hstart
  obtain ⟨v, t', hv, ht', rfl⟩ := exists_word_of_not_startsBlank (mt h.startsBlank_iff.2 hstart)
  have hwords := h.words_eq
  rw [hs, words_word_append hw hs', words_word_append hv ht', List.cons.injEq] at hwords
  obtain ⟨rfl, hwords⟩ := hwords
  cases w with
  | nil => exact absurd rfl hw.1
  | cons d w =>
    obtain ⟨rfl, rfl⟩ := List.cons.inj hs
    exact ⟨w ++ t', rfl, .word_append (List.forall_mem_cons.1 hw.2).2 hs' ht' hwords⟩

@[simp] theorem words_stripStart (t : Text) : words (stripStart t) = words t := by
  obtain ⟨g, hg, ht⟩ := exists_gap_stripStart t
  conv => rhs; rw [ht, words_gap_append hg]

theorem startsBlank_stripStart_iff : StartsBlank (stripStart t) ↔ words t = [] := by
  rcases exists_first_word t with hgap | ⟨g, w, s, hg, hw, hs, rfl⟩
  · rw [stripStart_gap hgap]
    exact iff_of_true IsGap.nil.startsBlank (words_gap hgap)
  · rw [List.append_assoc, stripStart_gap_append hg, stripStart_word_append hw, words_gap_append hg,
      words_word_append hw hs]
    exact iff_of_false (hw.not_startsBlank s) (List.cons_ne_nil _ _)

theorem startsBlank_strip_iff : StartsBlank (strip t) ↔ words t = [] := by
  constructor
  · intro h
    cases hs : strip t with
    | nil => exact strip_eq_nil_iff.1 hs
    | cons c s =>
      have hgap : IsGap [c] := by simpa [IsGap] using h c (by rw [hs]; rfl)
      have hnil := Query.eq_nil_of_prefix (strip_strip t) hgap (by rw [hs]; exact ⟨s, rfl⟩)
      cases hnil
  · intro h
    rw [strip_eq_nil_iff.2 h]
    exact IsGap.nil.startsBlank

theorem respaced_stripStart (h : words s = words t) : Respaced (stripStart s) (stripStart t) where
  words_eq := by rw [words_stripStart, words_stripStart, h]
  startsBlank_iff := by rw [startsBlank_stripStart_iff, startsBlank_stripStart_iff, h]

theorem respaced_strip (h : words s = words t) : Respaced (strip s) (strip t) where
  words_eq := by rw [words_strip, words_strip, h]
  startsBlank_iff := by rw [startsBlank_strip_iff, startsBlank_strip_iff, h]

theorem strip_word {w : Text} (hw : IsWord w) : strip w = w := by
  have hstart : ∀ {v}, IsWord v → stripStart v = v := fun hv => by simpa using stripStart_word_append hv []
  have hreverse : IsWord w.reverse := ⟨by simpa using hw.1, fun c hc => hw.2 c (List.mem_reverse.1 hc)⟩
  rw [strip, hstart hw, stripEnd_eq, hstart hreverse, List.reverse_reverse]

/-- A text of one word is that word between gaps. -/
theorem strip_eq_of_words {w : Text} (h : words t = [w]) : strip t = w := by
  obtain ⟨b, v, a, hcut, hb⟩ := exists_cut (t := t) (i := 0) (by simp [h])
  have hwords := hcut.words_eq
  rw [h, List.eq_nil_of_length_eq_zero hb, List.nil_append, List.cons.injEq] at hwords
  obtain ⟨rfl, ha⟩ := hwords
  have hgap := words_eq_nil_iff.1 (List.eq_nil_of_length_eq_zero hb)
  rw [hcut.eq, strip_append_gap (words_eq_nil_iff.1 ha.symm), strip_gap_append hgap]
  exact strip_word hcut.isWord

/-- The characters of a text that are not blank are those of its words. -/
theorem exists_mem_words_iff (hc : isBlank c = false) : (∃ w ∈ words t, c ∈ w) ↔ c ∈ t := by
  induction t using words_induction with
  | gap g hg =>
    rw [words_gap hg]
    refine iff_of_false (by simp) fun hmem => ?_
    rw [hg c hmem] at hc
    cases hc
  | word g w s hg hw hs ih =>
    have hnot : c ∉ g := by
      intro hmem
      rw [hg c hmem] at hc
      cases hc
    rw [List.append_assoc, words_gap_append hg, words_word_append hw hs]
    simp [hnot, ih]

end Text

namespace Query

open Text (IsGap Respaced StartsBlank words strip stripStart)

variable {s t : Text}

theorem digitValue?_blank {c : CodePoint} (hc : Text.isBlank c = true) : Text.digitValue? c = none := by
  have hapart : Text.areApart (Text.digitZeros.map fun first => (first, first + 9)) Text.blankRanges = true := by
    decide
  rw [Text.digitValue?, List.findSome?_eq_none_iff]
  intro first hfirst
  refine if_neg fun hin => ?_
  have hblank := Text.isBlank_ofNat hapart (List.mem_map_of_mem hfirst) hin.1 (Nat.lt_succ_iff.1 hin.2)
  rw [CodePoint.ofNat_toNat, hc] at hblank
  cases hblank

theorem isBlank_of_isPlainDigit {c : CodePoint} (hc : Text.isPlainDigit c = true) : Text.isBlank c = false := by
  have hdigit := Text.isDigit_of_isPlainDigit c hc
  cases hblank : Text.isBlank c with
  | false => rfl
  | true => simp [Text.isDigit, digitValue?_blank hblank] at hdigit

theorem readDigits_of_startsBlank (h : StartsBlank t) : Numeral.readDigits t = ([], t) := by
  cases t with
  | nil => rfl
  | cons c t => simp [Numeral.readDigits, digitValue?_blank (h c rfl)]

theorem respaced_readDigits (h : Respaced s t) : (Numeral.readDigits t).1 = (Numeral.readDigits s).1 ∧
    Respaced (Numeral.readDigits s).2 (Numeral.readDigits t).2 := by
  induction s generalizing t with
  | nil =>
    have ht := h.startsBlank_iff.1 IsGap.nil.startsBlank
    rw [readDigits_of_startsBlank ht]
    exact ⟨rfl, h⟩
  | cons c s ih =>
    cases hc : Text.isBlank c with
    | true =>
      have hs := Text.startsBlank_cons hc s
      rw [readDigits_of_startsBlank hs, readDigits_of_startsBlank (h.startsBlank_iff.1 hs)]
      exact ⟨rfl, h⟩
    | false =>
      obtain ⟨t, rfl, htail⟩ := h.solid hc
      obtain ⟨hdigits, hrest⟩ := ih htail
      simp only [Numeral.readDigits]
      cases Text.digitValue? c with
      | none => exact ⟨rfl, h⟩
      | some d => exact ⟨by simp [hdigits], hrest⟩

theorem readBound?_of_startsBlank (h : StartsBlank t) : readBound? t = none := by
  simp [readBound?, readDigits_of_startsBlank h]

theorem respaced_readBound? (h : Respaced s t) {n : Numeral} {rest : Text} (hs : readBound? s = some (n, rest)) :
    ∃ rest', readBound? t = some (n, rest') ∧ Respaced rest rest' := by
  -- the same digits are read from both texts; a point behind them is part of the number only with digits behind it
  obtain ⟨hdigits, hrest⟩ := respaced_readDigits h
  unfold readBound? at hs ⊢
  generalize Numeral.readDigits s = p at *
  generalize Numeral.readDigits t = p' at *
  obtain ⟨ws, back⟩ := p
  obtain ⟨ws', back'⟩ := p'
  obtain rfl : ws' = ws := hdigits
  cases ws' with
  | nil => cases hs
  | cons d ds =>
    have hpoint : Text.isBlank '.' = false := by decide
    dsimp only at hs hrest ⊢
    split at hs
    case h_1 back after =>
      obtain ⟨after', rfl, hafter⟩ := hrest.solid hpoint
      obtain ⟨hfraction, htail⟩ := respaced_readDigits hafter
      simp only
      generalize Numeral.readDigits after = p at *
      generalize Numeral.readDigits after' = p' at *
      obtain ⟨fs, tail⟩ := p
      obtain ⟨fs', tail'⟩ := p'
      obtain rfl : fs' = fs := hfraction
      cases fs' <;> cases hs
      · exact ⟨_, rfl, hrest⟩
      · exact ⟨_, rfl, htail⟩
    case h_2 back hother =>
      cases hs
      split
      case h_1 back' after' =>
        obtain ⟨after, rfl, -⟩ := hrest.symm.solid hpoint
        exact absurd rfl (hother after)
      case h_2 => exact ⟨_, rfl, hrest⟩

theorem afterHyphen?_eq_some_iff {r : Text} :
    afterHyphen? s = some r ↔
    ∃ rest : Text, stripStart s = (('-' : CodePoint) :: rest) ∧ r = stripStart rest := by
  unfold afterHyphen?
  split
  case h_1 rest hs => simp [hs, eq_comm]
  case h_2 hother =>
    refine iff_of_false nofun ?_
    rintro ⟨rest, hs, -⟩
    exact hother rest hs

theorem respaced_afterHyphen? (h : Respaced s t) {r : Text} (hs : afterHyphen? s = some r) :
    ∃ r', afterHyphen? t = some r' ∧ Respaced r r' := by
  obtain ⟨rest, hrest, rfl⟩ := afterHyphen?_eq_some_iff.1 hs
  have hstrip := Text.respaced_stripStart h.words_eq
  rw [hrest] at hstrip
  obtain ⟨rest', hrest', hrests⟩ := hstrip.solid (by decide)
  exact ⟨_, afterHyphen?_eq_some_iff.2 ⟨rest', hrest', rfl⟩, Text.respaced_stripStart hrests.words_eq⟩

/-- The letters of the word for an upper end. -/
def IsTo (a b : CodePoint) : Prop := (a = 't' ∨ a = 'T') ∧ (b = 'o' ∨ b = 'O')

instance (a b : CodePoint) : Decidable (IsTo a b) :=
  inferInstanceAs (Decidable ((a = 't' ∨ a = 'T') ∧ (b = 'o' ∨ b = 'O')))

theorem IsTo.solid {a b : CodePoint} (h : IsTo a b) : Text.isBlank a = false ∧ Text.isBlank b = false := by
  obtain ⟨rfl | rfl, rfl | rfl⟩ := h <;> exact ⟨by decide, by decide⟩

theorem afterTo?_eq_some_iff {r : Text} : afterTo? s = some r ↔
    s ≠ [] ∧ StartsBlank s ∧ ∃ (a b d : CodePoint) (rest : Text), stripStart s = a :: b :: d :: rest ∧ IsTo a b ∧
      Text.isBlank d = true ∧ r = stripStart rest := by
  cases s with
  | nil => simp [afterTo?]
  | cons c s =>
    cases hc : Text.isBlank c with
    | false =>
      have hsolid := Text.not_startsBlank_cons hc s
      simp [afterTo?, hc, hsolid]
    | true =>
      have hblank := Text.startsBlank_cons hc s
      have hstrip : stripStart (c :: s) = stripStart s := by simp [stripStart, hc]
      simp only [afterTo?, hc, if_true, hstrip, ne_eq, List.cons_ne_nil, not_false_eq_true, hblank, true_and]
      split
      case h_1 a b d rest hs =>
        constructor
        · intro h
          rw [Option.ite_none_right_eq_some] at h
          obtain ⟨⟨ha, hb, hd⟩, hr⟩ := h
          cases hr
          exact ⟨a, b, d, rest, hs, ⟨ha, hb⟩, hd, rfl⟩
        · rintro ⟨a', b', d', rest', hs', ⟨ha, hb⟩, hd, rfl⟩
          rw [hs] at hs'
          cases hs'
          rw [if_pos ⟨ha, hb, hd⟩]
      case h_2 hother =>
        refine iff_of_false nofun ?_
        rintro ⟨a, b, d, rest, hs, -⟩
        exact hother a b d rest hs

/-- A text that goes on behind the separator does so in every spacing; a gap at its end may be missing in another. -/
theorem respaced_afterTo? (h : Respaced s t) {r : Text} (hs : afterTo? s = some r) (hne : r ≠ []) :
    ∃ r', afterTo? t = some r' ∧ Respaced r r' := by
  obtain ⟨-, hblank, a, b, d, rest, hrest, hto, hd, rfl⟩ := afterTo?_eq_some_iff.1 hs
  have hstrip := Text.respaced_stripStart h.words_eq
  rw [hrest] at hstrip
  obtain ⟨t₁, ht, hsecond⟩ := hstrip.solid hto.solid.1
  obtain ⟨t₂, rfl, hbehind⟩ := hsecond.solid hto.solid.2
  have hwords : words rest = words t₂ := by rw [← hbehind.words_eq, Text.words_cons_blank hd]
  have ht₂ : StartsBlank t₂ := hbehind.startsBlank_iff.1 (Text.startsBlank_cons hd rest)
  -- the blank behind the letters is what another spacing may lack, at the end of the text alone
  cases t₂ with
  | nil => exact absurd (Text.stripStart_gap (Text.words_eq_nil_iff.1 hwords)) hne
  | cons d' t₂ =>
    have hd' := ht₂ d' rfl
    rw [Text.words_cons_blank hd'] at hwords
    refine ⟨_, afterTo?_eq_some_iff.2 ⟨?_, h.startsBlank_iff.1 hblank, a, b, d', t₂, ht, hto, hd', rfl⟩,
      Text.respaced_stripStart hwords⟩
    rintro rfl
    cases ht

theorem respaced_separator {n : RangeNotation} (hn : n ∈ rangeNotations) (h : Respaced s t) {r : Text}
    (hs : n.separator s = some r) (hne : r ≠ []) : ∃ r', n.separator t = some r' ∧ Respaced r r' := by
  simp only [rangeNotations, List.mem_cons, List.not_mem_nil, or_false] at hn
  rcases hn with rfl | rfl | rfl | rfl
  · exact respaced_afterHyphen? h hs
  · exact respaced_afterTo? h hs hne
  · exact respaced_afterHyphen? h hs
  · exact respaced_afterTo? h hs hne

namespace RangeNotation

variable {n : RangeNotation}

theorem bounds?_of_startsBlank (h : StartsBlank t) : n.bounds? t = none := by
  simp [bounds?, readBound?_of_startsBlank h]

theorem bounds?_eq_some_iff {b : Numeral × Numeral} : n.bounds? s = some b ↔
    ∃ front back body rest, readBound? s = some (b.1, front) ∧ n.separator front = some back ∧
      (if n.dollar then back = (('$' : CodePoint) :: body) else back = body) ∧ readBound? body = some (b.2, rest) := by
  obtain ⟨low, high⟩ := b
  cases hdollar : n.dollar with
  | false => simp [bounds?, hdollar, Option.bind_eq_some_iff]
  | true =>
    simp only [bounds?, hdollar, Option.bind_eq_bind, Option.bind_eq_some_iff, Prod.exists, if_true]
    constructor
    · rintro ⟨low, front, hlow, back, hsep, body, hbody, high, rest, hhigh, hb⟩
      cases hb
      split at hbody
      case h_1 body' =>
        cases hbody
        exact ⟨front, _, body, rest, hlow, hsep, rfl, hhigh⟩
      case h_2 => cases hbody
    · rintro ⟨front, back, body, rest, hlow, hsep, rfl, hhigh⟩
      exact ⟨low, front, hlow, _, hsep, body, rfl, high, rest, hhigh, rfl⟩

theorem respaced_bounds? (hn : n ∈ rangeNotations) (h : Respaced s t) {b : Numeral × Numeral} (hs : n.bounds? s = some b) :
    n.bounds? t = some b := by
  obtain ⟨front, back, body, rest, hlow, hsep, hbody, hhigh⟩ := bounds?_eq_some_iff.1 hs
  have hne : body ≠ [] := by
    rintro rfl
    cases hhigh
  have hback : back ≠ [] := by
    rintro rfl
    cases hdollar : n.dollar <;> simp [hdollar] at hbody
    exact hne hbody
  obtain ⟨front', hlow', hfront⟩ := respaced_readBound? h hlow
  obtain ⟨back', hsep', hbacks⟩ := respaced_separator hn hfront hsep hback
  obtain ⟨body', hbody', hbodies⟩ : ∃ body' : Text,
      (if n.dollar then back' = (('$' : CodePoint) :: body') else back' = body') ∧ Respaced body body' := by
    cases hdollar : n.dollar with
    | false =>
      simp only [hdollar, Bool.false_eq_true, if_false] at hbody ⊢
      exact ⟨back', rfl, hbody ▸ hbacks⟩
    | true =>
      simp only [hdollar, if_true] at hbody ⊢
      rw [hbody] at hbacks
      exact hbacks.solid (by decide)
  obtain ⟨rest', hhigh', -⟩ := respaced_readBound? hbodies hhigh
  exact bounds?_eq_some_iff.2 ⟨front', back', body', rest', hlow', hsep', hbody', hhigh'⟩

theorem bounds?_congr (hn : n ∈ rangeNotations) (h : Respaced s t) : n.bounds? s = n.bounds? t :=
  Option.ext fun _ => ⟨respaced_bounds? hn h, respaced_bounds? hn h.symm⟩

/-- No range begins with a character that is no digit. -/
theorem find?_cons_of_no_digit {c : CodePoint} (hc : Text.digitValue? c = none) (t : Text) : n.find? (c :: t) = n.find? t := by
  simp [find?, bounds?, readBound?, Numeral.readDigits, hc]

theorem find?_append_of_no_digits {g : Text} (hg : ∀ c ∈ g, Text.digitValue? c = none) (t : Text) :
    n.find? (g ++ t) = n.find? t := by
  induction g with
  | nil => rfl
  | cons c g ih =>
    obtain ⟨hc, hg⟩ := List.forall_mem_cons.1 hg
    rw [List.cons_append, find?_cons_of_no_digit hc, ih hg]

theorem find?_gap_append {g : Text} (hg : IsGap g) (t : Text) : n.find? (g ++ t) = n.find? t :=
  find?_append_of_no_digits (fun c hc => digitValue?_blank (hg c hc)) t

theorem find?_stripStart (t : Text) : n.find? (stripStart t) = n.find? t := by
  obtain ⟨g, hg, ht⟩ := Text.exists_gap_stripStart t
  conv => rhs; rw [ht, find?_gap_append hg]

theorem find?_congr (hn : n ∈ rangeNotations) (h : words s = words t) : n.find? s = n.find? t := by
  -- the texts are followed character by character, past the gaps in front of each place
  induction s generalizing t with
  | nil =>
    have ht : IsGap t := Text.words_eq_nil_iff.1 h.symm
    simpa using (find?_gap_append ht []).symm
  | cons c s ih =>
    cases hc : Text.isBlank c with
    | true =>
      rw [Text.words_cons_blank hc] at h
      rw [find?, bounds?_of_startsBlank (Text.startsBlank_cons hc s), ih h]
    | false =>
      have hstrip := Text.respaced_stripStart h
      have hs : stripStart (c :: s) = c :: s := by simp [stripStart, hc]
      rw [hs] at hstrip
      obtain ⟨t', ht, htail⟩ := hstrip.solid hc
      rw [← find?_stripStart t, ht, find?, find?, bounds?_congr hn (ht ▸ hstrip), ih htail.words_eq]

end RangeNotation

theorem range?_congr (h : words s = words t) : range? s = range? t := by
  have hfind : ∀ n ∈ rangeNotations, n.find? s = n.find? t := fun n hn => RangeNotation.find?_congr hn h
  simp only [rangeNotations, List.forall_mem_cons] at hfind
  simp only [range?, rangeNotations, List.findSome?_cons, List.findSome?_nil, hfind]

/-- A dollar sign in front of a text begins no range. -/
theorem range?_dollar_cons (rest : Text) : range? (('$' : CodePoint) :: rest) = range? rest := by
  have hdigit : Text.digitValue? '$' = none := by decide
  simp only [range?, RangeNotation.find?_cons_of_no_digit hdigit]

theorem moneyTokens_congr (h : words s = words t) : moneyTokens s = moneyTokens t := by
  unfold moneyTokens
  rw [range?_congr h, tokens_congr h]

theorem moneyQuery_eq {rest : Text} (h : strip t = (('$' : CodePoint) :: rest)) : moneyQuery t = ⟨true, strip rest⟩ := by
  simp [moneyQuery, h]

theorem moneyQuery_other (h : ∀ rest : Text, strip t ≠ (('$' : CodePoint) :: rest)) : moneyQuery t = ⟨false, t⟩ := by
  unfold moneyQuery
  split
  case h_1 rest hs => exact absurd hs (h rest)
  case h_2 => rfl

theorem moneyQuery_congr (h : words s = words t) : (moneyQuery s).isExplicit = (moneyQuery t).isExplicit ∧
    words (moneyQuery s).text = words (moneyQuery t).text := by
  have hstrip := Text.respaced_strip h
  have hsign : Text.isBlank '$' = false := by decide
  by_cases hs : ∃ rest : Text, strip s = (('$' : CodePoint) :: rest)
  · obtain ⟨rest, hs⟩ := hs
    rw [hs] at hstrip
    obtain ⟨rest', ht, hrest⟩ := hstrip.solid hsign
    rw [moneyQuery_eq hs, moneyQuery_eq ht, Text.words_strip, Text.words_strip]
    exact ⟨rfl, hrest.words_eq⟩
  · have ht : ∀ rest : Text, strip t ≠ (('$' : CodePoint) :: rest) := by
      intro rest ht
      rw [ht] at hstrip
      obtain ⟨rest', hs', -⟩ := hstrip.symm.solid hsign
      exact hs ⟨rest', hs'⟩
    rw [moneyQuery_other fun rest hrest => hs ⟨rest, hrest⟩, moneyQuery_other ht]
    exact ⟨rfl, h⟩

theorem any_strip_congr {p : CodePoint → Bool} (hp : ∀ c, p c = true → Text.isBlank c = false)
    (h : words s = words t) : (strip s).any p = (strip t).any p := by
  have hany : ∀ t : Text, (strip t).any p = true ↔ ∃ c, (∃ w ∈ words t, c ∈ w) ∧ p c = true := by
    intro t
    rw [List.any_eq_true]
    refine exists_congr fun c => and_congr_left fun hc => ?_
    rw [← Text.exists_mem_words_iff (hp c hc), Text.words_strip]
  rw [Bool.eq_iff_iff, hany s, hany t, h]

/-- Digits alone are one word, which every spacing has alone. -/
theorem strip_eq_of_allPlainDigits (hs : Text.allPlainDigits (strip s) = true) (h : words s = words t) :
    strip t = strip s := by
  simp only [Text.allPlainDigits, Bool.and_eq_true, Bool.not_eq_true', List.isEmpty_eq_false_iff, List.all_eq_true] at hs
  have hword : Text.IsWord (strip s) := ⟨hs.1, fun c hc => isBlank_of_isPlainDigit (hs.2 c hc)⟩
  exact Text.strip_eq_of_words (by rw [← h, ← Text.words_strip, Text.words_word hword])

theorem allPlainDigits_strip_congr (h : words s = words t) :
    Text.allPlainDigits (strip s) = Text.allPlainDigits (strip t) := by
  rw [Bool.eq_iff_iff]
  constructor
  · intro hs
    rwa [strip_eq_of_allPlainDigits hs h]
  · intro ht
    rwa [strip_eq_of_allPlainDigits ht h.symm]

theorem mayBeMoney_congr (h : words s = words t) : mayBeMoney s = mayBeMoney t := by
  have hempty : (strip s).isEmpty = (strip t).isEmpty := by
    rw [Bool.eq_iff_iff, List.isEmpty_iff, List.isEmpty_iff, Text.strip_eq_nil_iff, Text.strip_eq_nil_iff, h]
  have hmark : ∀ c : CodePoint, (c = '$' || c = '.' || c = ',') = true → Text.isBlank c = false := by
    intro c hc
    simp only [Bool.or_eq_true, decide_eq_true_eq] at hc
    rcases hc with (rfl | rfl) | rfl <;> decide
  have hrange : range? (strip s) = range? (strip t) := range?_congr (by rw [Text.words_strip, Text.words_strip, h])
  simp only [mayBeMoney, hempty, any_strip_congr hmark h, allPlainDigits_strip_congr h, hrange]

end Query

namespace Text

/-- The text without the blanks at its ends, and with one space for each gap inside. -/
def singleSpaced (t : Text) : Text := joinWith [' '] (words t)

@[simp] theorem words_singleSpaced (t : Text) : words (singleSpaced t) = words t :=
  words_joinWith fun _ hw => isWord_of_mem_words hw

theorem singleSpaced_congr {s t : Text} (h : words s = words t) : singleSpaced s = singleSpaced t := by
  rw [singleSpaced, h, singleSpaced]

theorem strip_eq_self {t : Text} (hstart : ¬StartsBlank t) (hend : ¬EndsBlank t) : strip t = t := by
  obtain ⟨g, h, hg, hh, ht⟩ := exists_gaps_strip t
  have hg' : g = [] := by
    by_cases hne : g = []
    · exact hne
    · rw [ht, List.append_assoc] at hstart
      exact absurd (hg.startsBlank.append hne _) hstart
  have hh' : h = [] := by
    by_cases hne : h = []
    · exact hne
    · rw [ht] at hend
      exact absurd (hh.endsBlank.append hne _) hend
  rw [hg', hh', List.nil_append, List.append_nil] at ht
  exact ht.symm

theorem strip_joinWith {ws : List Text} (h : ∀ w ∈ ws, IsWord w) : strip (joinWith [' '] ws) = joinWith [' '] ws := by
  cases ws with
  | nil => rfl
  | cons w ws =>
    obtain ⟨hw, hws⟩ := List.forall_mem_cons.1 h
    rcases List.eq_nil_or_concat ws with rfl | ⟨front, v, rfl⟩
    · exact strip_word hw
    · rw [List.concat_eq_append] at hws ⊢
      have hv : IsWord v := hws v (by simp)
      apply strip_eq_self
      · rw [joinWith_cons (by simp), List.append_assoc]
        exact hw.not_startsBlank _
      · rw [← List.cons_append, joinWith_append (List.cons_ne_nil w front) (List.cons_ne_nil v [])]
        exact hv.not_endsBlank _

@[simp] theorem strip_singleSpaced (t : Text) : strip (singleSpaced t) = singleSpaced t :=
  strip_joinWith fun _ hw => isWord_of_mem_words hw

end Text

namespace Query

open Text (IsGap words strip singleSpaced)

/-- The tree with single spaces in each leaf. -/
def Tree.singleSpaced : Tree → Tree
  | leaf text => leaf (Text.singleSpaced text)
  | node op left right => node op left.singleSpaced right.singleSpaced
  | negation operand => negation operand.singleSpaced

variable {q b a : Text} {op : Operator}

theorem Splits.singleSpaced_eq (h : Splits q op b a) :
    singleSpaced q = Query.joined op (singleSpaced b) (singleSpaced a) := by
  rw [singleSpaced, h.words_eq, Text.joinWith_append h.before (List.cons_ne_nil _ _), Text.joinWith_cons h.after]
  simp [Query.joined, singleSpaced, String.toText]

theorem Negates.singleSpaced_eq (h : Negates q a) :
    singleSpaced q = Operator.without.word ++ " ".toText ++ singleSpaced a := by
  rw [singleSpaced, h.words_eq, Text.joinWith_cons h.after]
  rfl

theorem IsLeaf.singleSpaced (h : IsLeaf q) : IsLeaf (singleSpaced q) where
  whole op := by rw [Text.words_singleSpaced]; exact h.whole op
  head rest hrest := h.head rest (by rwa [Text.words_singleSpaced] at hrest)

/-- A query in single spaces is read as the tree of the query, in single spaces. -/
theorem parse_singleSpaced (q : Text) : parse (singleSpaced q) = (parse q).singleSpaced := by
  induction q using parse_induction with
  | splits q op b a h ihb iha =>
    have hjoined := (h.joined (Text.words_singleSpaced b) (Text.words_singleSpaced a)).parse_eq
    rw [parse_congr (Text.strip_append_gap isGap_space _), parse_congr (Text.strip_gap_append isGap_space _), ihb, iha]
      at hjoined
    rw [h.singleSpaced_eq, hjoined, h.parse_eq, Tree.singleSpaced]
  | negates q a h ih =>
    have hwritten := (h.written (Text.words_singleSpaced a)).parse_eq
    rw [parse_congr (Text.strip_gap_append isGap_space _), ih] at hwritten
    rw [h.singleSpaced_eq, hwritten, h.parse_eq, Tree.singleSpaced]
  | leaf q h =>
    rw [h.singleSpaced.parse_eq, h.parse_eq, Tree.singleSpaced, Text.strip_singleSpaced,
      Text.singleSpaced_congr (Text.words_strip q)]

end Query

namespace Search

open Query (Tree parse)
open Text (words singleSpaced)

variable {r : Record} {s t : Text}

theorem holdsWords_congr_words (hlink : r.quickLink? = none) (h : words s = words t) :
    holdsWords r s = holdsWords r t := by
  simp only [holdsWords, hlink, Query.tokens_congr h]

theorem holdsMoney_congr_words (explicit : Bool) (h : words s = words t) : holdsMoney explicit r s = holdsMoney explicit r t := by
  simp only [holdsMoney, Query.moneyTokens_congr h]

theorem holdsLeaf_congr_words (hlink : r.quickLink? = none) (h : words s = words t) : holdsLeaf r s = holdsLeaf r t := by
  obtain ⟨hexplicit, htext⟩ := Query.moneyQuery_congr h
  simp only [holdsLeaf, hexplicit, hlink, holdsMoney_congr_words _ htext, holdsWords_congr_words hlink h,
    Query.mayBeMoney_congr h, holdsMoney_congr_words _ h]

theorem holdsTree_singleSpaced (hlink : r.quickLink? = none) (tree : Tree) :
    holdsTree r tree.singleSpaced = holdsTree r tree := by
  induction tree with
  | leaf text => exact holdsLeaf_congr_words hlink (Text.words_singleSpaced text)
  | node op left right ihl ihr => cases op <;> simp only [Tree.singleSpaced, holdsTree, ihl, ihr]
  | negation operand ih => simp only [Tree.singleSpaced, holdsTree, ih]

theorem holds_singleSpaced_eq (hlink : r.quickLink? = none) (query : Text) :
    holds r (singleSpaced query) = holds r query := by
  rw [holds_eq_holdsTree hlink, holds_eq_holdsTree hlink, Query.parse_singleSpaced, holdsTree_singleSpaced hlink]

/-- A record answers a query, and it gives the same answer to the query in single spaces and to every other spacing. -/
theorem holds_singleSpaced (hlink : r.quickLink? = none) (htext : r.IsTextual) (query : Text) :
    ∃ b, holds r query = .ok b ∧ holds r (singleSpaced query) = .ok b ∧
      ∀ other, words other = words query → holds r other = .ok b := by
  obtain ⟨b, hb⟩ : ∃ b, holdsTree r (parse query) = .ok b := holdsTree_ok fun leaf _ => holdsLeaf_ok htext leaf
  rw [← holds_eq_holdsTree hlink] at hb
  refine ⟨b, hb, (holds_singleSpaced_eq hlink query).trans hb, fun other hother => ?_⟩
  rw [← holds_singleSpaced_eq hlink, Text.singleSpaced_congr hother, holds_singleSpaced_eq hlink, hb]

/-- A range and two words, set apart by blanks of several kinds. -/
def looseQuery : Text := "\u3000$250 \u2003to\t350\n OR\u00a0 oak  door ".toText

theorem holds_singleSpaced_loose :
    holds (sampleBill "Posts" postLine) looseQuery = .ok true ∧
      singleSpaced looseQuery = "$250 to 350 OR oak door".toText ∧
      holds (sampleBill "Posts" postLine) "$250 to 350 OR oak door".toText = .ok true := by
  obtain ⟨b, hloose, hsingle, -⟩ :=
    holds_singleSpaced (r := sampleBill "Posts" postLine) rfl (by decide) looseQuery
  have hvalue : (holds (sampleBill "Posts" postLine) looseQuery).toOption = some true := by decide +kernel
  have hspaced : singleSpaced looseQuery = "$250 to 350 OR oak door".toText := by decide +kernel
  rw [hloose] at hvalue
  cases hvalue
  exact ⟨hloose, hspaced, hspaced ▸ hsingle⟩

end Search
end LedgerSearch

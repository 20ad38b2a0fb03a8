import LedgerSearch.Text.Blank

/-!
# Words and gaps

A text is cut into words by its blanks: between two texts that meet at a blank the words are those of the
one followed by those of the other (`words_append`), and every text is built from gaps and words
(`words_induction`). Stripping takes away gaps alone. A word that is found by its index has one place in the
text, with what stands before it and behind it.
-/

namespace LedgerSearch.Text

/-- Blanks alone. -/
def IsGap (t : Text) : Prop := ∀ c ∈ t, isBlank c = true

instance (t : Text) : Decidable (IsGap t) := inferInstanceAs (Decidable (∀ c ∈ t, isBlank c = true))

/-- A word has characters, none of which is blank. -/
def IsWord (t : Text) : Prop := t ≠ [] ∧ ∀ c ∈ t, isBlank c = false

def StartsBlank (t : Text) : Prop := ∀ c ∈ t.head?, isBlank c = true

def EndsBlank (t : Text) : Prop := ∀ c ∈ t.getLast?, isBlank c = true

theorem IsGap.nil : IsGap [] := List.forall_mem_nil _

theorem IsGap.append {s t : Text} (hs : IsGap s) (ht : IsGap t) : IsGap (s ++ t) :=
  List.forall_mem_append.2 ⟨hs, ht⟩

theorem IsGap.startsBlank {g : Text} (hg : IsGap g) : StartsBlank g := fun c hc => hg c (List.mem_of_mem_head? hc)

theorem IsGap.endsBlank {g : Text} (hg : IsGap g) : EndsBlank g := fun c hc => hg c (List.mem_of_getLast? hc)

theorem startsBlank_cons {c : CodePoint} (hc : isBlank c = true) (t : Text) : StartsBlank (c :: t) := by
  intro d hd
  cases hd
  exact hc

theorem EndsBlank.of_append {s t : Text} (h : EndsBlank (s ++ t)) : EndsBlank t := by
  intro c hc
  exact h c (by rw [List.getLast?_append, Option.mem_def.1 hc]; rfl)

theorem EndsBlank.append {t : Text} (ht : EndsBlank t) (hne : t ≠ []) (s : Text) : EndsBlank (s ++ t) := by
  intro c hc
  rw [List.getLast?_append, List.getLast?_eq_some_getLast hne, Option.some_or] at hc
  exact ht c (by rw [List.getLast?_eq_some_getLast hne]; exact hc)

theorem StartsBlank.append {s : Text} (hs : StartsBlank s) (hne : s ≠ []) (t : Text) : StartsBlank (s ++ t) := by
  cases s with
  | nil => exact absurd rfl hne
  | cons c s => exact startsBlank_cons (hs c rfl) (s ++ t)

theorem IsWord.not_startsBlank {w : Text} (hw : IsWord w) (s : Text) : ¬StartsBlank (w ++ s) := by
  obtain ⟨hne, hsolid⟩ := hw
  cases w with
  | nil => exact absurd rfl hne
  | cons c w =>
    intro h
    have hc := h c rfl
    rw [hsolid c List.mem_cons_self] at hc
    cases hc

theorem IsWord.not_endsBlank {w : Text} (hw : IsWord w) (s : Text) : ¬EndsBlank (s ++ w) := by
  intro h
  have hlast := h.of_append _ (List.getLast?_eq_some_getLast hw.1)
  rw [hw.2 _ (List.getLast_mem hw.1)] at hlast
  cases hlast

theorem IsWord.ne_nil_of_endsBlank {w g s : Text} (hw : IsWord w) (h : EndsBlank (g ++ w ++ s)) : s ≠ [] := by
  rintro rfl
  rw [List.append_nil] at h
  exact hw.not_endsBlank g h

@[simp] theorem words_nil : words [] = [] := rfl

theorem words_cons_blank {c : CodePoint} (hc : isBlank c = true) (t : Text) : words (c :: t) = words t := by
  simp [words, hc]

theorem words_gap_append {g : Text} (hg : IsGap g) (t : Text) : words (g ++ t) = words t := by
  induction g with
  | nil => rfl
  | cons c g ih =>
    obtain ⟨hc, hg⟩ := List.forall_mem_cons.1 hg
    rw [List.cons_append, words_cons_blank hc, ih hg]

theorem words_gap {g : Text} (hg : IsGap g) : words g = [] := by
  simpa using words_gap_append hg []

theorem words_word_append {w s : Text} (hw : IsWord w) (hs : StartsBlank s) : words (w ++ s) = w :: words s := by
  obtain ⟨hne, hsolid⟩ := hw
  induction w with
  | nil => exact absurd rfl hne
  | cons c w ih =>
    obtain ⟨hc, hw⟩ := List.forall_mem_cons.1 hsolid
    cases w with
    | nil =>
      cases s with
      | nil => simp [words, hc]
      | cons d s => simp [words, hc, hs d rfl]
    | cons d w =>
      have hd : isBlank d = false := hw d List.mem_cons_self
      have ih := ih (List.cons_ne_nil d w) hw
      rw [List.cons_append] at ih
      rw [List.cons_append, List.cons_append, words, ih]
      simp [hc, hd]

theorem words_word {w : Text} (hw : IsWord w) : words w = [w] := by
  simpa using words_word_append hw IsGap.nil.startsBlank

theorem exists_first_word (t : Text) :
    IsGap t ∨ ∃ g w s, IsGap g ∧ IsWord w ∧ StartsBlank s ∧ t = g ++ w ++ s := by
  induction t with
  | nil => exact .inl .nil
  | cons c t ih =>
    cases hc : isBlank c with
    | true =>
      rcases ih with hgap | ⟨g, w, s, hg, hw, hs, rfl⟩
      · exact .inl (List.forall_mem_cons.2 ⟨hc, hgap⟩)
      · exact .inr ⟨c :: g, w, s, List.forall_mem_cons.2 ⟨hc, hg⟩, hw, hs, rfl⟩
    | false =>
      have hone : IsWord [c] := ⟨List.cons_ne_nil c [], by simpa using hc⟩
      rcases ih with hgap | ⟨g, w, s, hg, hw, hs, rfl⟩
      · exact .inr ⟨[], [c], t, .nil, hone, hgap.startsBlank, rfl⟩
      · cases g with
        | nil => exact .inr ⟨[], c :: w, s, .nil, ⟨List.cons_ne_nil c w, List.forall_mem_cons.2 ⟨hc, hw.2⟩⟩, hs, rfl⟩
        | cons d g =>
          have hd : isBlank d = true := hg d List.mem_cons_self
          exact .inr ⟨[], [c], d :: g ++ w ++ s, .nil, hone, startsBlank_cons hd _, rfl⟩

/-- Every text is a gap, or a gap and a word before a text that starts with a blank. -/
theorem words_induction {motive : Text → Prop} (gap : ∀ g, IsGap g → motive g)
    (word : ∀ g w s, IsGap g → IsWord w → StartsBlank s → motive s → motive (g ++ w ++ s)) (t : Text) : motive t := by
  rcases exists_first_word t with hgap | ⟨g, w, s, hg, hw, hs, ht⟩
  · exact gap t hgap
  · rw [ht]
    exact word g w s hg hw hs (words_induction gap word s)
termination_by t.length
decreasing_by
  have hpos : 0 < w.length := List.length_pos_iff.2 hw.1
  rw [ht]
  simp only [List.length_append]
  omega

/-- Two texts that meet at a blank share no word. -/
theorem words_append {s t : Text} (h : EndsBlank s ∨ StartsBlank t) : words (s ++ t) = words s ++ words t := by
  induction s using words_induction with
  | gap g hg => rw [words_gap_append hg, words_gap hg, List.nil_append]
  | word g w s hg hw hs ih =>
    have hst : StartsBlank (s ++ t) := by
      by_cases hne : s = []
      · subst hne
        exact h.resolve_left fun h => hw.ne_nil_of_endsBlank h rfl
      · exact hs.append hne t
    have h' : EndsBlank s ∨ StartsBlank t := h.imp_left EndsBlank.of_append
    rw [List.append_assoc, List.append_assoc, List.append_assoc, words_gap_append hg, words_gap_append hg,
      words_word_append hw hst, words_word_append hw hs, ih h', List.cons_append]

theorem isWord_of_mem_words {w t : Text} (h : w ∈ words t) : IsWord w := by
  induction t using words_induction with
  | gap g hg =>
    rw [words_gap hg] at h
    cases h
  | word g v s hg hv hs ih =>
    rw [List.append_assoc, words_gap_append hg, words_word_append hv hs] at h
    rcases List.mem_cons.1 h with rfl | h
    · exact hv
    · exact ih h

theorem words_eq_nil_iff {t : Text} : words t = [] ↔ IsGap t := by
  refine ⟨fun h => ?_, words_gap⟩
  induction t using words_induction with
  | gap g hg => exact hg
  | word g w s hg hw hs =>
    rw [List.append_assoc, words_gap_append hg, words_word_append hw hs] at h
    cases h

theorem stripStart_gap_append {g : Text} (hg : IsGap g) (t : Text) : stripStart (g ++ t) = stripStart t :=
  List.dropWhile_append_of_pos hg

theorem stripStart_gap {g : Text} (hg : IsGap g) : stripStart g = [] := by
  simpa [stripStart] using stripStart_gap_append hg []

theorem stripStart_word_append {w : Text} (hw : IsWord w) (s : Text) : stripStart (w ++ s) = w ++ s := by
  obtain ⟨hne, hsolid⟩ := hw
  cases w with
  | nil => exact absurd rfl hne
  | cons c w => simp [stripStart, hsolid c List.mem_cons_self]

theorem exists_gap_stripStart (t : Text) : ∃ g, IsGap g ∧ t = g ++ stripStart t :=
  ⟨t.takeWhile isBlank, List.all_eq_true.1 List.all_takeWhile, List.takeWhile_append_dropWhile.symm⟩

theorem stripEnd_eq (t : Text) : stripEnd t = (stripStart t.reverse).reverse := rfl

theorem IsGap.reverse {g : Text} (hg : IsGap g) : IsGap g.reverse := fun c hc => hg c (List.mem_reverse.1 hc)

theorem stripEnd_append_gap {g : Text} (hg : IsGap g) (t : Text) : stripEnd (t ++ g) = stripEnd t := by
  rw [stripEnd_eq, List.reverse_append, stripStart_gap_append hg.reverse, stripEnd_eq]

theorem exists_stripEnd_gap (t : Text) : ∃ g, IsGap g ∧ t = stripEnd t ++ g := by
  obtain ⟨g, hg, ht⟩ := exists_gap_stripStart t.reverse
  refine ⟨g.reverse, hg.reverse, ?_⟩
  rw [stripEnd_eq, ← List.reverse_append, ← ht, List.reverse_reverse]

/-- Stripping takes away the gaps at both ends. -/
theorem exists_gaps_strip (t : Text) : ∃ g h, IsGap g ∧ IsGap h ∧ t = g ++ strip t ++ h := by
  obtain ⟨g, hg, ht⟩ := exists_gap_stripStart t
  obtain ⟨h, hh, hs⟩ := exists_stripEnd_gap (stripStart t)
  refine ⟨g, h, hg, hh, ?_⟩
  rw [strip, List.append_assoc, ← hs, ← ht]

theorem strip_gap {g : Text} (hg : IsGap g) : strip g = [] := by
  rw [strip, stripStart_gap hg]
  rfl

theorem strip_gap_append {g : Text} (hg : IsGap g) (t : Text) : strip (g ++ t) = strip t := by
  rw [strip, stripStart_gap_append hg, strip]

theorem strip_append_gap {g : Text} (hg : IsGap g) (t : Text) : strip (t ++ g) = strip t := by
  rcases exists_first_word t with hgap | ⟨h, w, s, hh, hw, -, rfl⟩
  · rw [strip_gap (hgap.append hg), strip_gap hgap]
  · simp only [List.append_assoc]
    rw [strip_gap_append hh, strip_gap_append hh, strip, strip, stripStart_word_append hw,
      stripStart_word_append hw, ← List.append_assoc, stripEnd_append_gap hg]

@[simp] theorem strip_strip (t : Text) : strip (strip t) = strip t := by
  obtain ⟨g, h, hg, hh, ht⟩ := exists_gaps_strip t
  conv => rhs; rw [ht, strip_append_gap hh, strip_gap_append hg]

@[simp] theorem strip_stripStart (t : Text) : strip (stripStart t) = strip t := by
  obtain ⟨g, hg, ht⟩ := exists_gap_stripStart t
  conv => rhs; rw [ht, strip_gap_append hg]

@[simp] theorem words_strip (t : Text) : words (strip t) = words t := by
  obtain ⟨g, h, hg, hh, ht⟩ := exists_gaps_strip t
  conv => rhs; rw [ht, words_append (.inr hh.startsBlank), words_gap hh, words_gap_append hg, List.append_nil]

theorem strip_eq_nil_iff {t : Text} : strip t = [] ↔ words t = [] := by
  constructor
  · intro h
    rw [← words_strip, h, words_nil]
  · intro h
    exact strip_gap (words_eq_nil_iff.1 h)

/-- A word of a text, with what stands before it and behind it. -/
structure Cut (t before word after : Text) : Prop where
  eq : t = before ++ word ++ after
  isWord : IsWord word
  endsBlank : EndsBlank before
  startsBlank : StartsBlank after

/-- A text from its word of an index on. -/
def fromWord : Nat → Text → Text
  | 0, t => stripStart t
  | i + 1, t => fromWord i ((stripStart t).dropWhile fun c => !isBlank c)

/-- The text before its word of an index. -/
def beforeWord (i : Nat) (t : Text) : Text := t.take (t.length - (fromWord i t).length)

/-- The text behind its word of an index. -/
def afterWord (i : Nat) (t : Text) : Text := (fromWord i t).dropWhile fun c => !isBlank c

theorem dropWord {w s : Text} (hw : IsWord w) (hs : StartsBlank s) : (w ++ s).dropWhile (fun c => !isBlank c) = s := by
  rw [List.dropWhile_append_of_pos (by simpa using hw.2)]
  cases s with
  | nil => rfl
  | cons c s => simp [hs c rfl]

namespace Cut

variable {t before word after : Text}

theorem words_eq (h : Cut t before word after) : words t = words before ++ word :: words after := by
  rw [h.eq, List.append_assoc, words_append (.inl h.endsBlank), words_word_append h.isWord h.startsBlank]

/-- A text that goes on with more behind the word. -/
theorem append (h : Cut t before word after) (hne : after ≠ []) (s : Text) :
    Cut (t ++ s) before word (after ++ s) :=
  ⟨by rw [h.eq, List.append_assoc], h.isWord, h.endsBlank, h.startsBlank.append hne s⟩

theorem gap_append_gap (h : Cut t before word after) {g g' : Text} (hg : IsGap g) (hg' : IsGap g') :
    Cut (g ++ t ++ g') (g ++ before) word (after ++ g') := by
  refine ⟨by rw [h.eq]; simp, h.isWord, ?_, ?_⟩
  · by_cases hne : before = []
    · rw [hne, List.append_nil]
      exact hg.endsBlank
    · exact h.endsBlank.append hne g
  · by_cases hne : after = []
    · rw [hne, List.nil_append]
      exact hg'.startsBlank
    · exact h.startsBlank.append hne g'

theorem fromWord_eq (h : Cut t before word after) : fromWord (words before).length t = word ++ after := by
  obtain ⟨rfl, hword, hends, hstarts⟩ := h
  induction before using words_induction with
  | gap g hg =>
    rw [words_gap hg, List.append_assoc]
    exact (stripStart_gap_append hg _).trans (stripStart_word_append hword after)
  | word g w s hg hw hs ih =>
    have hne : s ≠ [] := hw.ne_nil_of_endsBlank hends
    rw [List.append_assoc g, words_gap_append hg, words_word_append hw hs, List.length_cons, fromWord]
    simp only [List.append_assoc] at ih ⊢
    rw [stripStart_gap_append hg, stripStart_word_append hw, dropWord hw (hs.append hne _)]
    exact ih hends.of_append

theorem beforeWord_eq (h : Cut t before word after) : beforeWord (words before).length t = before := by
  rw [beforeWord, h.fromWord_eq, h.eq, List.append_assoc]
  simp

theorem afterWord_eq (h : Cut t before word after) : afterWord (words before).length t = after := by
  rw [afterWord, h.fromWord_eq, dropWord h.isWord h.startsBlank]

end Cut

/-- Each word has a place. -/
theorem exists_cut {t : Text} {i : Nat} (hi : i < (words t).length) :
    ∃ before word after, Cut t before word after ∧ (words before).length = i := by
  induction t using words_induction generalizing i with
  | gap g hg =>
    rw [words_gap hg] at hi
    cases hi
  | word g w s hg hw hs ih =>
    cases i with
    | zero => exact ⟨g, w, s, ⟨rfl, hw, hg.endsBlank, hs⟩, by rw [words_gap hg]; rfl⟩
    | succ i =>
      rw [List.append_assoc, words_gap_append hg, words_word_append hw hs, List.length_cons] at hi
      obtain ⟨before, word, after, hcut, hlen⟩ := ih (Nat.lt_of_succ_lt_succ hi)
      have hne : before ≠ [] := by
        rintro rfl
        exact hcut.isWord.not_startsBlank after (by simpa [hcut.eq] using hs)
      have hstarts : StartsBlank before := by
        intro c hc
        apply hs c
        rw [hcut.eq, List.append_assoc, List.head?_append, Option.mem_def.1 hc]
        rfl
      refine ⟨g ++ w ++ before, word, after, ⟨by rw [hcut.eq]; simp, hcut.isWord, hcut.endsBlank.append hne _,
        hcut.startsBlank⟩, ?_⟩
      rw [List.append_assoc, words_gap_append hg, words_word_append hw hstarts, List.length_cons, hlen]

theorem cut_of_lt {t : Text} {i : Nat} (hi : i < (words t).length) :
    Cut t (beforeWord i t) (words t)[i] (afterWord i t) ∧ (words (beforeWord i t)).length = i := by
  obtain ⟨before, word, after, hcut, rfl⟩ := exists_cut hi
  have hword : (words t)[(words before).length] = word := by simp [hcut.words_eq]
  rw [hcut.beforeWord_eq, hcut.afterWord_eq, hword]
  exact ⟨hcut, rfl⟩

end LedgerSearch.Text

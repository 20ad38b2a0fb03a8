import LedgerSearch.Proofs.Words
import LedgerSearch.Query.Tree

/-!
# The grammar of queries

A query is read by its words alone: it is split at the first operator word that stands between two other
words, conjunctions before disjunctions before exclusions, and a leading exclusion word is taken off only
where nothing can be split (`readWords`). `parse_eq_readWords` says that the scan for blanks and operator
characters reads every query in this way, whatever blanks stand around the words.
-/

namespace LedgerSearch.Query

open Text (Cut IsGap IsWord StartsBlank EndsBlank words strip stripStart beforeWord afterWord)

/-- The index of the first word of an operator that stands between two other words. -/
def innerIndex? (op : Operator) (ws : List Text) : Option Nat :=
  (List.range ws.length).find? fun i => decide (1 ≤ i ∧ i + 2 ≤ ws.length ∧ ws[i]? = some op.word)

/-- The operator a list of words is split at, with the index of its word. -/
def firstInner? (ws : List Text) : Option (Operator × Nat) :=
  Operator.all.findSome? fun op => (innerIndex? op ws).map fun i => (op, i)

theorem isWord_word (op : Operator) : IsWord op.word := by
  cases op <;> exact ⟨by decide, by decide⟩

theorem eq_take_append_drop {ws : List Text} {w : Text} {i : Nat} (h : ws[i]? = some w) :
    ws = ws.take i ++ w :: ws.drop (i + 1) := by
  obtain ⟨hi, rfl⟩ := List.getElem?_eq_some_iff.1 h
  rw [← List.drop_eq_getElem_cons hi, List.take_append_drop]

theorem innerIndex?_eq_some_iff {op : Operator} {ws : List Text} {i : Nat} :
    innerIndex? op ws = some i ↔
      ∃ xs ys, ws = xs ++ op.word :: ys ∧ xs.length = i ∧ xs ≠ [] ∧ ys ≠ [] ∧ op.word ∉ xs.tail := by
  simp only [innerIndex?, List.find?_range_eq_some, List.mem_range, decide_eq_true_eq, Bool.not_eq_true',
    decide_eq_false_iff_not]
  constructor
  · rintro ⟨⟨hpos, hle, hget⟩, hlt, hfirst⟩
    refine ⟨ws.take i, ws.drop (i + 1), eq_take_append_drop hget, ?_, ?_, ?_, ?_⟩
    · exact List.length_take_of_le (Nat.le_of_lt hlt)
    · exact List.ne_nil_of_length_pos (by rw [List.length_take]; omega)
    · exact List.ne_nil_of_length_pos (by rw [List.length_drop]; omega)
    · intro hmem
      obtain ⟨j, hj, hjw⟩ := List.getElem_of_mem hmem
      simp only [List.length_tail, List.length_take] at hj
      refine hfirst (j + 1) (by omega) ⟨by omega, by omega, ?_⟩
      rw [List.getElem?_eq_getElem (by omega), ← hjw]
      simp
  · rintro ⟨xs, ys, rfl, rfl, hxs, hys, hnot⟩
    have hx := List.length_pos_iff.2 hxs
    have hy := List.length_pos_iff.2 hys
    refine ⟨⟨hx, by simp; omega, by simp⟩, by simp, fun j hj hcontra => hnot ?_⟩
    obtain ⟨hpos, -, hget⟩ := hcontra
    rw [List.getElem?_append_left hj] at hget
    obtain ⟨x, xs, rfl⟩ := List.exists_cons_of_ne_nil hxs
    obtain ⟨j, rfl⟩ := Nat.exists_eq_succ_of_ne_zero (Nat.one_le_iff_ne_zero.1 hpos)
    exact List.mem_of_getElem? hget

theorem innerIndex?_eq_none_iff {op : Operator} {ws : List Text} :
    innerIndex? op ws = none ↔ ∀ xs ys, ws = xs ++ op.word :: ys → xs = [] ∨ ys = [] := by
  simp only [innerIndex?, List.find?_range_eq_none, Bool.not_eq_true', decide_eq_false_iff_not]
  constructor
  · rintro h xs ys rfl
    rcases xs with - | ⟨x, xs⟩
    · exact .inl rfl
    rcases ys with - | ⟨y, ys⟩
    · exact .inr rfl
    · exact absurd ⟨by simp, by simp, by simp⟩ (h (x :: xs).length (by simp))
  · rintro h i hi ⟨hpos, hle, hget⟩
    rcases h _ _ (eq_take_append_drop hget) with hnil | hnil
    · have := congrArg List.length hnil
      simp only [List.length_take, List.length_nil] at this
      omega
    · have := congrArg List.length hnil
      simp only [List.length_drop, List.length_nil] at this
      omega

theorem innerIndex?_lt {op : Operator} {ws : List Text} {i : Nat} (h : innerIndex? op ws = some i) :
    1 ≤ i ∧ i + 1 < ws.length := by
  obtain ⟨xs, ys, rfl, rfl, hxs, hys, -⟩ := innerIndex?_eq_some_iff.1 h
  have hx := List.length_pos_iff.2 hxs
  have hy := List.length_pos_iff.2 hys
  simp only [List.length_append, List.length_cons]
  omega

theorem innerIndex?_eq_none_of_notMem {op : Operator} {ws : List Text} (h : op.word ∉ ws) :
    innerIndex? op ws = none :=
  innerIndex?_eq_none_iff.2 fun xs _ hws => absurd (hws ▸ List.mem_append_right xs List.mem_cons_self) h

theorem exists_innerIndex? {op : Operator} {ws : List Text} {i : Nat} (h : firstInner? ws = some (op, i)) :
    innerIndex? op ws = some i := by
  obtain ⟨op', -, hmap⟩ := List.exists_of_findSome?_eq_some h
  obtain ⟨j, hj, heq⟩ := Option.map_eq_some_iff.1 hmap
  cases heq
  exact hj

/-- Each part of a text has fewer words. -/
theorem length_words_afterWord {i : Nat} {q : Text} (hi : i < (words q).length) :
    (words (afterWord i q)).length < (words q).length := by
  have hwords := congrArg List.length (Text.cut_of_lt hi).1.words_eq
  simp only [List.length_append, List.length_cons] at hwords
  omega

theorem length_words_parts {q : Text} {op : Operator} {i : Nat} (h : firstInner? (words q) = some (op, i)) :
    (words (beforeWord i q)).length < (words q).length ∧ (words (afterWord i q)).length < (words q).length := by
  have hi := (innerIndex?_lt (exists_innerIndex? h)).2
  exact ⟨by rw [(Text.cut_of_lt (by omega)).2]; omega, length_words_afterWord (by omega)⟩

/-- The tree of a query, read off its words. -/
def readWords (q : Text) : Tree :=
  match _h : firstInner? (words q) with
  | some (op, i) => .node op (readWords (beforeWord i q)) (readWords (afterWord i q))
  | none =>
    if 2 ≤ (words q).length ∧ (words q)[0]? = some Operator.without.word then
      .negation (readWords (afterWord 0 q))
    else .leaf (strip q)
termination_by (words q).length
decreasing_by
  · exact (length_words_parts _h).1
  · exact (length_words_parts _h).2
  · rename_i hlen
    exact length_words_afterWord (by omega)

theorem afterWord?_eq_some_iff {w t r : Text} :
    afterWord? w t = some r ↔ ∃ s, t = w ++ s ∧ StartsBlank s ∧ s ≠ [] ∧ r = stripStart s := by
  constructor
  · intro h
    unfold afterWord? at h
    split at h
    · rename_i hpre
      obtain ⟨s, rfl⟩ := List.isPrefixOf_iff_prefix.1 hpre
      rw [List.drop_left] at h
      cases s with
      | nil => cases h
      | cons c s =>
        simp only [Option.ite_none_right_eq_some, Option.some.injEq] at h
        obtain ⟨hc, rfl⟩ := h
        refine ⟨c :: s, rfl, Text.startsBlank_cons hc s, List.cons_ne_nil c s, ?_⟩
        exact (Text.stripStart_gap_append (g := [c]) (by simpa [IsGap] using hc) s).symm
    · cases h
  · rintro ⟨s, rfl, hs, hne, rfl⟩
    cases s with
    | nil => exact absurd rfl hne
    | cons c s =>
      have hc : Text.isBlank c = true := hs c rfl
      have hpre : w.isPrefixOf (w ++ c :: s) = true := List.isPrefixOf_iff_prefix.2 (List.prefix_append w _)
      simp [afterWord?, hpre, hc, stripStart]

theorem splitAt?_cons {op : Operator} {c : CodePoint} {t l r : Text} (h : splitAt? op (c :: t) = some (l, r)) :
    (Text.isBlank c = true ∧ l = [] ∧ afterWord? op.word (stripStart t) = some r) ∨
      ∃ l', l = c :: l' ∧ splitAt? op t = some (l', r) := by
  have later : (splitAt? op t).map (fun p => (c :: p.1, p.2)) = some (l, r) →
      ∃ l', l = c :: l' ∧ splitAt? op t = some (l', r) := by
    intro hmap
    obtain ⟨⟨l', r'⟩, hsplit, heq⟩ := Option.map_eq_some_iff.1 hmap
    cases heq
    exact ⟨l', rfl, hsplit⟩
  simp only [splitAt?] at h
  split at h
  · rename_i hc
    split at h
    · rename_i hafter
      cases h
      exact .inl ⟨hc, rfl, hafter⟩
    · exact .inr (later h)
  · exact .inr (later h)

/-- A split takes out an operator word between two blanks, and the blanks around it. -/
theorem splitAt?_sound {op : Operator} {t l r : Text} (h : splitAt? op t = some (l, r)) :
    ∃ g s, t = l ++ g ++ op.word ++ s ∧ IsGap g ∧ g ≠ [] ∧ StartsBlank s ∧ s ≠ [] ∧ r = stripStart s := by
  induction t generalizing l with
  | nil => cases h
  | cons c t ih =>
    rcases splitAt?_cons h with ⟨hc, rfl, hafter⟩ | ⟨l', rfl, hsplit⟩
    · obtain ⟨g, hg, ht⟩ := Text.exists_gap_stripStart t
      obtain ⟨s, hword, hs, hne, hr⟩ := afterWord?_eq_some_iff.1 hafter
      refine ⟨c :: g, s, ?_, List.forall_mem_cons.2 ⟨hc, hg⟩, List.cons_ne_nil c g, hs, hne, hr⟩
      rw [ht, hword]
      simp
    · obtain ⟨g, s, ht, hg⟩ := ih hsplit
      exact ⟨g, s, by rw [ht]; rfl, hg⟩

theorem splitAt?_word_append {w : Text} (hw : IsWord w) (op : Operator) (s : Text) :
    splitAt? op (w ++ s) = (splitAt? op s).map fun p => (w ++ p.1, p.2) := by
  have hsolid := hw.2
  clear hw
  induction w with
  | nil => simp
  | cons c w ih =>
    obtain ⟨hc, hsolid⟩ := List.forall_mem_cons.1 hsolid
    simp [splitAt?, hc, ih hsolid, Function.comp_def]

theorem splitAt?_gap_append {g t : Text} {op : Operator} (hg : IsGap g)
    (hnone : afterWord? op.word (stripStart t) = none) :
    splitAt? op (g ++ t) = (splitAt? op t).map fun p => (g ++ p.1, p.2) := by
  induction g with
  | nil => simp
  | cons c g ih =>
    obtain ⟨hc, hg⟩ := List.forall_mem_cons.1 hg
    simp [splitAt?, hc, Text.stripStart_gap_append hg, hnone, ih hg, Function.comp_def]

theorem afterWord?_other_word {v w s : Text} (hv : IsWord v) (hw : IsWord w) (hs : StartsBlank s) (hne : w ≠ v) :
    afterWord? v (w ++ s) = none := by
  rw [Option.eq_none_iff_forall_ne_some]
  intro r hr
  obtain ⟨s', heq, hs', -, -⟩ := afterWord?_eq_some_iff.1 hr
  have hwords := congrArg words heq
  rw [Text.words_word_append hw hs, Text.words_word_append hv hs'] at hwords
  exact hne (List.cons.inj hwords).1

/-- The scan stops at the first operator word behind a blank that has more behind it. -/
theorem splitAt?_of_cut {op : Operator} {t b a : Text} (hcut : Cut t b op.word a) (ht : StartsBlank t) (ha : a ≠ [])
    (hnot : op.word ∉ words b) : ∃ l g, b = l ++ g ∧ IsGap g ∧ splitAt? op t = some (l, stripStart a) := by
  obtain ⟨rfl, hword, hends, hstarts⟩ := hcut
  -- by the words before the place: none of them is the operator word, so the scan passes each with its gap
  induction b using Text.words_induction with
  | gap g hg =>
    cases g with
    | nil => exact absurd ht (hword.not_startsBlank a)
    | cons c g =>
      obtain ⟨hc, hg'⟩ := List.forall_mem_cons.1 hg
      have hafter : afterWord? op.word (stripStart (g ++ op.word ++ a)) = some (stripStart a) := by
        rw [List.append_assoc, Text.stripStart_gap_append hg', Text.stripStart_word_append hword]
        exact afterWord?_eq_some_iff.2 ⟨a, rfl, hstarts, ha, rfl⟩
      exact ⟨[], c :: g, rfl, hg, by simp [splitAt?, hc, hafter, -List.append_assoc]⟩
  | word g w s hg hw hs ih =>
    have hsne : s ≠ [] := hw.ne_nil_of_endsBlank hends
    rw [List.append_assoc, Text.words_gap_append hg, Text.words_word_append hw hs, List.mem_cons, not_or] at hnot
    have hs' : StartsBlank (s ++ op.word ++ a) := by
      rw [List.append_assoc]
      exact hs.append hsne _
    obtain ⟨l, h, rfl, hh, hsplit⟩ := ih hnot.2 hends.of_append hs'
    have hother : afterWord? op.word (stripStart (w ++ (l ++ h ++ op.word ++ a))) = none := by
      rw [Text.stripStart_word_append hw]
      exact afterWord?_other_word hword hw hs' (Ne.symm hnot.1)
    refine ⟨g ++ w ++ l, h, by simp, hh, ?_⟩
    have heq : g ++ w ++ (l ++ h) ++ op.word ++ a = g ++ (w ++ (l ++ h ++ op.word ++ a)) := by simp
    rw [heq, splitAt?_gap_append hg hother, splitAt?_word_append hw, hsplit]
    simp

theorem eq_nil_of_prefix {g t : Text} (ht : strip t = t) (hg : IsGap g) (h : g <+: t) : g = [] := by
  obtain ⟨s, rfl⟩ := h
  have hlen := length_strip_le s
  rw [Text.strip_gap_append hg] at ht
  rw [ht, List.length_append] at hlen
  exact List.eq_nil_of_length_eq_zero (by omega)

theorem eq_nil_of_suffix {g t : Text} (ht : strip t = t) (hg : IsGap g) (h : g <:+ t) : g = [] := by
  obtain ⟨s, rfl⟩ := h
  have hlen := length_strip_le s
  rw [Text.strip_append_gap hg] at ht
  rw [ht, List.length_append] at hlen
  exact List.eq_nil_of_length_eq_zero (by omega)

/-- Where a stripped text is split, there are words on both sides. -/
theorem cut_of_splitAt? {op : Operator} {t l r : Text} (ht : strip t = t) (h : splitAt? op t = some (l, r)) :
    ∃ b a, Cut t b op.word a ∧ strip l = strip b ∧ strip r = strip a ∧ words b ≠ [] ∧ words a ≠ [] := by
  obtain ⟨g, a, rfl, hg, hgne, ha, hane, rfl⟩ := splitAt?_sound h
  refine ⟨l ++ g, a, ⟨rfl, isWord_word op, hg.endsBlank.append hgne l, ha⟩, ?_, ?_, ?_, ?_⟩
  · exact (Text.strip_append_gap hg l).symm
  · exact Text.strip_stripStart a
  · intro hnil
    have hfront := eq_nil_of_prefix ht (Text.words_eq_nil_iff.1 hnil) (by simp)
    exact hgne (List.append_eq_nil_iff.1 hfront).2
  · intro hnil
    exact hane (eq_nil_of_suffix ht (Text.words_eq_nil_iff.1 hnil) (List.suffix_append _ _))

theorem cut_of_innerIndex? {op : Operator} {t : Text} {i : Nat} (h : innerIndex? op (words t) = some i) :
    Cut t (beforeWord i t) op.word (afterWord i t) ∧ words (beforeWord i t) ≠ [] ∧ words (afterWord i t) ≠ [] ∧
      op.word ∉ (words (beforeWord i t)).tail := by
  obtain ⟨xs, ys, hws, rfl, hxs, hys, hnot⟩ := innerIndex?_eq_some_iff.1 h
  have hi : xs.length < (words t).length := by simp [hws]
  obtain ⟨hcut, hlen⟩ := Text.cut_of_lt hi
  have hwords := hcut.words_eq.symm.trans hws
  obtain ⟨hbefore, hafter⟩ := List.append_inj hwords hlen
  obtain ⟨hword, hafter⟩ := List.cons.inj hafter
  rw [hword] at hcut
  rw [hbefore, hafter]
  exact ⟨hcut, hxs, hys, hnot⟩

theorem splitAt?_of_innerIndex? {op : Operator} {t : Text} {i : Nat} (ht : strip t = t)
    (h : innerIndex? op (words t) = some i) :
    ∃ l, splitAt? op t = some (l, stripStart (afterWord i t)) ∧ strip l = strip (beforeWord i t) := by
  obtain ⟨hcut, hbefore, hafter, hnot⟩ := cut_of_innerIndex? h
  generalize beforeWord i t = b at *
  generalize afterWord i t = a at *
  obtain ⟨rfl, hword, hends, hstarts⟩ := hcut
  have ha : a ≠ [] := by
    rintro rfl
    exact hafter rfl
  rcases Text.exists_first_word b with hgap | ⟨g, w, s, hg, hw, hs, rfl⟩
  · exact absurd (Text.words_gap hgap) hbefore
  · -- a stripped text begins with its first word, which no blank comes before, so the scan passes it too
    obtain rfl := eq_nil_of_prefix ht hg (by simp)
    have hsne : s ≠ [] := hw.ne_nil_of_endsBlank hends
    rw [List.nil_append, Text.words_word_append hw hs, List.tail_cons] at hnot
    have hs' : StartsBlank (s ++ op.word ++ a) := by
      rw [List.append_assoc]
      exact hs.append hsne _
    obtain ⟨l, g, rfl, hg, hsplit⟩ := splitAt?_of_cut ⟨rfl, hword, hends.of_append, hstarts⟩ hs' ha hnot
    refine ⟨w ++ l, ?_, ?_⟩
    · have heq : [] ++ w ++ (l ++ g) ++ op.word ++ a = w ++ (l ++ g ++ op.word ++ a) := by simp
      rw [heq, splitAt?_word_append hw, hsplit]
      rfl
    · rw [List.nil_append, ← List.append_assoc, Text.strip_append_gap hg]

theorem parts?_eq {t : Text} (ht : strip t = t) (op : Operator) :
    parts? op t = (innerIndex? op (words t)).map fun i => (strip (beforeWord i t), strip (afterWord i t)) := by
  cases hi : innerIndex? op (words t) with
  | none =>
    have hnone : splitAt? op t = none := by
      rw [Option.eq_none_iff_forall_ne_some]
      rintro ⟨l, r⟩ hsplit
      obtain ⟨b, a, hcut, -, -, hb, ha⟩ := cut_of_splitAt? ht hsplit
      rcases innerIndex?_eq_none_iff.1 hi _ _ hcut.words_eq with hnil | hnil
      · exact hb hnil
      · exact ha hnil
    simp [parts?, hnone]
  | some i =>
    obtain ⟨l, hsplit, hl⟩ := splitAt?_of_innerIndex? ht hi
    obtain ⟨-, hbefore, hafter, -⟩ := cut_of_innerIndex? hi
    have hleft : strip (beforeWord i t) ≠ [] := mt Text.strip_eq_nil_iff.1 hbefore
    have hright : strip (afterWord i t) ≠ [] := mt Text.strip_eq_nil_iff.1 hafter
    simp [parts?, hsplit, hl, hleft, hright]

theorem split?_eq {t : Text} (ht : strip t = t) :
    split? t = (firstInner? (words t)).map fun p => (p.1, strip (beforeWord p.2 t), strip (afterWord p.2 t)) := by
  rw [split?, firstInner?, List.map_findSome?]
  congr 1
  funext op
  rw [parts?_eq ht op]
  simp [Function.comp_def]

/-- The parts of a text and of its stripped form differ in blanks alone. -/
theorem strip_parts {q : Text} {i : Nat} (hi : i < (words q).length) :
    strip (beforeWord i (strip q)) = strip (beforeWord i q) ∧ strip (afterWord i (strip q)) = strip (afterWord i q) := by
  obtain ⟨g, h, hg, hh, hq⟩ := Text.exists_gaps_strip q
  obtain ⟨b, w, a, hcut, rfl⟩ := Text.exists_cut (t := strip q) (by rwa [Text.words_strip])
  have hwide : Cut q (g ++ b) w (a ++ h) := by
    rw [hq]
    exact hcut.gap_append_gap hg hh
  have hlen : (words b).length = (words (g ++ b)).length := by rw [Text.words_gap_append hg]
  rw [hcut.beforeWord_eq, hcut.afterWord_eq, hlen, hwide.beforeWord_eq, hwide.afterWord_eq]
  exact ⟨(Text.strip_gap_append hg b).symm, (Text.strip_append_gap hh a).symm⟩

theorem negated?_eq {t : Text} (ht : strip t = t) :
    negated? t = if 2 ≤ (words t).length ∧ (words t)[0]? = some Operator.without.word then
      some (stripStart (afterWord 0 t)) else none := by
  rcases Text.exists_first_word t with hgap | ⟨g, w, s, hg, hw, hs, rfl⟩
  · rw [Text.strip_gap hgap] at ht
    subst ht
    rfl
  · obtain rfl := eq_nil_of_prefix ht hg (by simp)
    have hcut : Cut (w ++ s) [] w s := ⟨rfl, hw, IsGap.nil.endsBlank, hs⟩
    have hafter : afterWord 0 (w ++ s) = s := hcut.afterWord_eq
    rw [List.nil_append, hafter, Text.words_word_append hw hs]
    by_cases hword : w = Operator.without.word
    · subst hword
      by_cases hnil : words s = []
      · obtain rfl := eq_nil_of_suffix ht (Text.words_eq_nil_iff.1 hnil) (List.suffix_append _ _)
        rfl
      · have hs' : s ≠ [] := by
          rintro rfl
          exact hnil rfl
        have hrest : afterWord? Operator.without.word (Operator.without.word ++ s) = some (stripStart s) :=
          afterWord?_eq_some_iff.2 ⟨s, rfl, hs, hs', rfl⟩
        have hpos := List.length_pos_iff.2 hnil
        have hne : strip s ≠ [] := mt Text.strip_eq_nil_iff.1 hnil
        simp [negated?, hrest, hne]
        omega
    · have hnone := afterWord?_other_word (isWord_word .without) hw hs hword
      simp [negated?, hnone, hword]

theorem startsWithOperator_of_afterWord? {op : Operator} {t r : Text} (h : afterWord? op.word t = some r) :
    startsWithOperator t = true := by
  refine List.any_eq_true.2 ⟨op, ?_, by rw [h]; rfl⟩
  cases op <;> decide

theorem operatorFollows_append {t : Text} (h : operatorFollows t = true) (s : Text) : operatorFollows (s ++ t) = true := by
  induction s with
  | nil => exact h
  | cons c s ih => simp [operatorFollows, ih]

theorem hasOperatorWord_of_splitAt? {op : Operator} {t l r : Text} (h : splitAt? op t = some (l, r)) :
    hasOperatorWord t = true := by
  obtain ⟨g, s, rfl, hg, hne, hs, hsne, -⟩ := splitAt?_sound h
  have hlast : Text.isBlank (g.getLast hne) = true := hg _ (List.getLast_mem hne)
  have hstart : startsWithOperator (op.word ++ s) = true :=
    startsWithOperator_of_afterWord? (afterWord?_eq_some_iff.2 ⟨s, rfl, hs, hsne, rfl⟩)
  have hfollows : operatorFollows (g.getLast hne :: (op.word ++ s)) = true := by simp [operatorFollows, hlast, hstart]
  have heq : l ++ g ++ op.word ++ s = l ++ g.dropLast ++ g.getLast hne :: (op.word ++ s) := by
    conv => lhs; rw [← List.dropLast_concat_getLast hne]
    simp
  rw [hasOperatorWord, heq, operatorFollows_append hfollows, Bool.or_true]

/-- A text without an operator word before a blank is not split, and nothing is taken off it. -/
theorem hasOperatorWord_guard {t : Text} (h : hasOperatorWord t = false) : split? t = none ∧ negated? t = none := by
  constructor
  · refine List.findSome?_eq_none_iff.2 fun op _ => ?_
    have hnone : splitAt? op t = none := by
      rw [Option.eq_none_iff_forall_ne_some]
      rintro ⟨l, r⟩ hsplit
      rw [hasOperatorWord_of_splitAt? hsplit] at h
      cases h
    simp [parts?, hnone]
  · have hnone : afterWord? Operator.without.word t = none := by
      rw [Option.eq_none_iff_forall_ne_some]
      intro r hr
      rw [hasOperatorWord, startsWithOperator_of_afterWord? hr] at h
      cases h
    simp [negated?, hnone]

theorem parse_eq (q : Text) :
    parse q = match split? (strip q) with
      | some (op, l, r) => .node op (parse l) (parse r)
      | none => match negated? (strip q) with
        | some x => .negation (parse x)
        | none => .leaf (strip q) := by
  conv => lhs; unfold parse
  cases hword : hasOperatorWord (strip q) with
  | false =>
    obtain ⟨hsplit, hneg⟩ := hasOperatorWord_guard hword
    simp [hsplit, hneg]
  | true =>
    rw [if_pos rfl]
    split <;> rename_i hsplit
    · rw [hsplit]
    · rw [hsplit]
      split <;> rename_i hneg
      · rw [hneg]
      · rw [hneg]

@[simp] theorem parse_strip (q : Text) : parse (strip q) = parse q := by
  rw [parse_eq, Text.strip_strip, ← parse_eq]

theorem parse_congr {s t : Text} (h : strip s = strip t) : parse s = parse t := by
  rw [← parse_strip, h, parse_strip]

/-- One level of a query, read off its words. -/
theorem parse_eq_words (q : Text) :
    parse q = match firstInner? (words q) with
      | some (op, i) => .node op (parse (beforeWord i q)) (parse (afterWord i q))
      | none =>
        if 2 ≤ (words q).length ∧ (words q)[0]? = some Operator.without.word then .negation (parse (afterWord 0 q))
        else .leaf (strip q) := by
  rw [parse_eq, split?_eq (Text.strip_strip q), negated?_eq (Text.strip_strip q), Text.words_strip]
  cases hinner : firstInner? (words q) with
  | some p =>
    obtain ⟨op, i⟩ := p
    have hi := (innerIndex?_lt (exists_innerIndex? hinner)).2
    obtain ⟨hbefore, hafter⟩ := strip_parts (q := q) (i := i) (by omega)
    simp [hbefore, hafter]
  | none =>
    by_cases hneg : 2 ≤ (words q).length ∧ (words q)[0]? = some Operator.without.word
    · have hafter := (strip_parts (q := q) (i := 0) (by omega)).2
      simp only [Option.map_none, if_pos hneg]
      rw [parse_congr ((Text.strip_stripStart _).trans hafter)]
    · simp only [Option.map_none, if_neg hneg]

/-- A query is split at an operator word between words, if it is the first of its operator and no operator
that comes earlier has such a word. -/
theorem parse_of_cut {q b a : Text} {op : Operator} {earlier later : List Operator}
    (hall : Operator.all = earlier ++ op :: later) (hcut : Cut q b op.word a) (hb : words b ≠ []) (ha : words a ≠ [])
    (hnot : op.word ∉ (words b).tail) (hnone : ∀ op' ∈ earlier, innerIndex? op' (words q) = none) :
    parse q = .node op (parse b) (parse a) := by
  have hindex : innerIndex? op (words q) = some (words b).length :=
    innerIndex?_eq_some_iff.2 ⟨words b, words a, hcut.words_eq, rfl, hb, ha, hnot⟩
  have hfirst : firstInner? (words q) = some (op, (words b).length) :=
    List.findSome?_eq_some_iff.2 ⟨earlier, op, later, hall, by rw [hindex]; rfl, fun op' hop => by rw [hnone op' hop]; rfl⟩
  simp [parse_eq_words q, hfirst, hcut.beforeWord_eq, hcut.afterWord_eq]

/-- Every query is read by its words; the early exit skips no split, and each split that is found has words on
both sides. -/
theorem parse_eq_readWords (q : Text) :
    parse q = readWords q ∧
      (hasOperatorWord (strip q) = false → split? (strip q) = none ∧ negated? (strip q) = none) ∧
      ∀ op l r, splitAt? op (strip q) = some (l, r) → strip l ≠ [] ∧ strip r ≠ [] := by
  refine ⟨?_, hasOperatorWord_guard, ?_⟩
  · fun_induction readWords q with
    | case1 q op i hinner ihb iha => simp only [parse_eq_words q, hinner, ihb, iha]
    | case2 q hinner hneg ih => simp only [parse_eq_words q, hinner, if_pos hneg, ih]
    | case3 q hinner hneg => simp only [parse_eq_words q, hinner, if_neg hneg]
  · intro op l r hsplit
    obtain ⟨b, a, -, hl, hr, hb, ha⟩ := cut_of_splitAt? (Text.strip_strip q) hsplit
    rw [hl, hr]
    exact ⟨mt Text.strip_eq_nil_iff.1 hb, mt Text.strip_eq_nil_iff.1 ha⟩

/-- A dangling operator word is no split, and a first word that spells an operator is text. -/
theorem parse_eq_readWords_dangling :
    (hasOperatorWord (strip "salt OR ".toText) = false ∧ split? (strip "salt OR ".toText) = none ∧
      negated? (strip "salt OR ".toText) = none) ∧
      splitAt? .both (strip "AND AND AND".toText) = some ("AND".toText, "AND".toText) ∧
      strip "AND".toText ≠ [] ∧ strip "AND".toText ≠ [] := by
  have hsplit : splitAt? .both (strip "AND AND AND".toText) = some ("AND".toText, "AND".toText) := by decide
  have hguard : hasOperatorWord (strip "salt OR ".toText) = false := by decide
  exact ⟨⟨hguard, (parse_eq_readWords _).2.1 hguard⟩, hsplit, (parse_eq_readWords _).2.2 _ _ _ hsplit⟩

end LedgerSearch.Query

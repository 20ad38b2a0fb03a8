import LedgerSearch.Proofs.Composition

/-!
# Trees and the queries they are written as

A query tree is written with its operator words between its parts. The written form of the tree of a query has the
words of the query, and it is read as the same tree again (`parse_write`), although leaves may begin or end with
operator words: no part of a query has a place for a split that the query itself does not have
(`innerIndex?_parts`). So operators stand in a tree in the order in which queries are split (`Tree.IsRanked`).
-/

namespace LedgerSearch.Query

open Text (Cut IsGap words strip beforeWord afterWord)

/-- The operators that a query is split at in preference to one. -/
def Operator.earlier (op : Operator) : List Operator := Operator.all.takeWhile (· != op)

theorem Operator.all_eq (op : Operator) : ∃ later, Operator.all = op.earlier ++ op :: later := by
  cases op <;> exact ⟨_, rfl⟩

/-- The place where a query is split: an operator word between two others, the first one of its operator, in a query
without such a place for an earlier operator. -/
structure Splits (q : Text) (op : Operator) (b a : Text) : Prop where
  cut : Cut q b op.word a
  before : words b ≠ []
  after : words a ≠ []
  first : op.word ∉ (words b).tail
  earlier : ∀ op' ∈ op.earlier, innerIndex? op' (words q) = none

/-- A query without a place for a split. -/
def IsWhole (q : Text) : Prop := ∀ op, innerIndex? op (words q) = none

/-- A query of an exclusion word and others behind it that is not split. -/
structure Negates (q a : Text) : Prop where
  cut : ∃ b, IsGap b ∧ Cut q b Operator.without.word a
  after : words a ≠ []
  whole : IsWhole q

/-- A query that is neither split nor negated. -/
structure IsLeaf (q : Text) : Prop where
  whole : IsWhole q
  head : ∀ rest, words q = Operator.without.word :: rest → rest = []

variable {q b a : Text} {op : Operator}

theorem Splits.words_eq (h : Splits q op b a) : words q = words b ++ op.word :: words a := h.cut.words_eq

theorem Splits.parse_eq (h : Splits q op b a) : parse q = .node op (parse b) (parse a) := by
  obtain ⟨later, hall⟩ := op.all_eq
  exact parse_of_cut hall h.cut h.before h.after h.first h.earlier

theorem Splits.innerIndex?_eq (h : Splits q op b a) : innerIndex? op (words q) = some (words b).length :=
  innerIndex?_eq_some_iff.2 ⟨words b, words a, h.words_eq, rfl, h.before, h.after, h.first⟩

theorem Negates.words_eq (h : Negates q a) : words q = Operator.without.word :: words a := by
  obtain ⟨b, hb, hcut⟩ := h.cut
  rw [hcut.words_eq, Text.words_gap hb, List.nil_append]

theorem firstInner?_eq_none_iff : firstInner? (words q) = none ↔ IsWhole q := by
  simp only [firstInner?, List.findSome?_eq_none_iff, Option.map_eq_none_iff]
  constructor
  · intro h op
    exact h op (by cases op <;> decide)
  · exact fun h op _ => h op

theorem Negates.parse_eq (h : Negates q a) : parse q = .negation (parse a) := by
  obtain ⟨b, hb, hcut⟩ := h.cut
  have hafter : afterWord 0 q = a := by
    have := hcut.afterWord_eq
    rwa [Text.words_gap hb, List.length_nil] at this
  have hlen : 2 ≤ (words q).length := by
    rw [h.words_eq, List.length_cons]
    have := List.length_pos_iff.2 h.after
    omega
  have hhead : (words q)[0]? = some Operator.without.word := by rw [h.words_eq]; rfl
  simp only [parse_eq_words q, firstInner?_eq_none_iff.2 h.whole, if_pos (And.intro hlen hhead), hafter]

theorem IsLeaf.parse_eq (h : IsLeaf q) : parse q = .leaf (strip q) := by
  have hneg : ¬(2 ≤ (words q).length ∧ (words q)[0]? = some Operator.without.word) := by
    rintro ⟨hlen, hhead⟩
    cases hwords : words q with
    | nil => simp [hwords] at hlen
    | cons w rest =>
      rw [hwords, List.getElem?_cons_zero, Option.some.injEq] at hhead
      rw [h.head rest (hhead ▸ hwords)] at hwords
      simp [hwords] at hlen
  simp only [parse_eq_words q, firstInner?_eq_none_iff.2 h.whole, if_neg hneg]

theorem mem_of_mem_earlier {op' : Operator} {first later : List Operator} (hall : Operator.all = first ++ op :: later)
    (h : op' ∈ op.earlier) : op' ∈ first := by
  rw [Operator.earlier, hall, List.takeWhile_append] at h
  split at h
  · simpa using h
  · exact List.takeWhile_subset _ h

theorem splits_of_firstInner? {i : Nat} (h : firstInner? (words q) = some (op, i)) :
    Splits q op (beforeWord i q) (afterWord i q) := by
  obtain ⟨hcut, hbefore, hafter, hnot⟩ := cut_of_innerIndex? (exists_innerIndex? h)
  refine ⟨hcut, hbefore, hafter, hnot, fun op' hop' => ?_⟩
  obtain ⟨first, found, later, hall, hfound, hnone⟩ := List.findSome?_eq_some_iff.1 h
  obtain ⟨j, -, heq⟩ := Option.map_eq_some_iff.1 hfound
  cases heq
  exact Option.map_eq_none_iff.1 (hnone op' (mem_of_mem_earlier hall hop'))

theorem shape (q : Text) : (∃ op b a, Splits q op b a) ∨ (∃ a, Negates q a) ∨ IsLeaf q := by
  cases hinner : firstInner? (words q) with
  | some p => exact .inl ⟨p.1, _, _, splits_of_firstInner? hinner⟩
  | none =>
    have hwhole := firstInner?_eq_none_iff.1 hinner
    by_cases hneg : ∃ rest, words q = Operator.without.word :: rest ∧ rest ≠ []
    · obtain ⟨rest, hwords, hrest⟩ := hneg
      obtain ⟨hcut, hlen⟩ := Text.cut_of_lt (t := q) (i := 0) (by simp [hwords])
      have hgap := Text.words_eq_nil_iff.1 (List.eq_nil_of_length_eq_zero hlen)
      have hafter := hcut.words_eq
      simp only [hwords, List.getElem_cons_zero] at hcut hafter
      rw [Text.words_gap hgap, List.nil_append, List.cons.injEq] at hafter
      exact .inr (.inl ⟨_, ⟨_, hgap, hcut⟩, hafter.2 ▸ hrest, hwhole⟩)
    · refine .inr (.inr ⟨hwhole, fun rest hwords => ?_⟩)
      cases rest with
      | nil => rfl
      | cons w rest => exact absurd ⟨_, hwords, List.cons_ne_nil w rest⟩ hneg

/-- Induction along the splits of a query. -/
theorem parse_induction {motive : Text → Prop} (splits : ∀ q op b a, Splits q op b a → motive b → motive a → motive q)
    (negates : ∀ q a, Negates q a → motive a → motive q) (leaf : ∀ q, IsLeaf q → motive q) (q : Text) : motive q := by
  induction hn : (words q).length using Nat.strongRecOn generalizing q with
  | ind n ih =>
    subst hn
    rcases shape q with ⟨op, b, a, h⟩ | ⟨a, h⟩ | h
    · have hlen := congrArg List.length h.words_eq
      simp only [List.length_append, List.length_cons] at hlen
      exact splits q op b a h (ih _ (by omega) b rfl) (ih _ (by omega) a rfl)
    · have hlen := congrArg List.length h.words_eq
      rw [List.length_cons] at hlen
      exact negates q a h (ih _ (by omega) a rfl)
    · exact leaf q h

namespace Tree

/-- The operators that a tree is split at. -/
def operators : Tree → List Operator
  | leaf _ => []
  | node op left right => op :: (left.operators ++ right.operators)
  | negation operand => operand.operators

/-- Precedence form: below a split there is none at an earlier operator, and none at the same one on its left; only a
leaf is negated. -/
inductive IsRanked : Tree → Prop
  | leaf (text : Text) : IsRanked (leaf text)
  | negation (text : Text) : IsRanked (negation (leaf text))
  | node {op : Operator} {left right : Tree} (hleft : IsRanked left) (hright : IsRanked right)
      (earlier : ∀ op' ∈ op.earlier, op' ∉ left.operators ∧ op' ∉ right.operators) (same : op ∉ left.operators) :
      IsRanked (node op left right)

end Tree

/-- The words before and behind a place have no place for a split that all of them do not have. -/
theorem innerIndex?_parts {op' : Operator} (xs : List Text) {ys : List Text} {w : Text}
    (h : innerIndex? op' (xs ++ w :: ys) = none) :
    innerIndex? op' xs = none ∧ innerIndex? op' ys = none := by
  simp only [innerIndex?_eq_none_iff] at h ⊢
  constructor
  · rintro front back rfl
    exact .inl ((h front (back ++ w :: ys) (by simp)).resolve_right (by simp))
  · rintro front back rfl
    exact .inr ((h (xs ++ w :: front) back (by simp)).resolve_left (by simp))

theorem notMem_operators_parse {op' : Operator} (h : innerIndex? op' (words q) = none) :
    op' ∉ (parse q).operators := by
  induction q using parse_induction with
  | splits q op b a hsplits ihb iha =>
    have hne : op' ≠ op := by
      rintro rfl
      rw [hsplits.innerIndex?_eq] at h
      cases h
    rw [hsplits.words_eq] at h
    obtain ⟨hb, ha⟩ := innerIndex?_parts _ h
    simp [hsplits.parse_eq, Tree.operators, hne, ihb hb, iha ha]
  | negates q a hnegates ih =>
    rw [hnegates.words_eq] at h
    rw [hnegates.parse_eq, Tree.operators]
    exact ih (innerIndex?_parts [] h).2
  | leaf q hleaf =>
    rw [hleaf.parse_eq]
    exact List.not_mem_nil

/-- Nothing is split or negated behind an exclusion word that leads a query without a place for a split. -/
theorem Negates.isLeaf (h : Negates q a) : IsLeaf a where
  whole op := (innerIndex?_parts [] (h.words_eq ▸ h.whole op)).2
  head rest hrest := by
    have hwhole := h.whole .without
    rw [h.words_eq, hrest, innerIndex?_eq_none_iff] at hwhole
    exact (hwhole [Operator.without.word] rest rfl).resolve_left (List.cons_ne_nil _ _)

theorem isRanked_parse (q : Text) : (parse q).IsRanked := by
  induction q using parse_induction with
  | splits q op b a h ihb iha =>
    rw [h.parse_eq]
    refine .node ihb iha (fun op' hop' => ?_) (notMem_operators_parse ?_)
    · have hnone := h.earlier op' hop'
      rw [h.words_eq] at hnone
      obtain ⟨hb, ha⟩ := innerIndex?_parts _ hnone
      exact ⟨notMem_operators_parse hb, notMem_operators_parse ha⟩
    · exact innerIndex?_eq_none_iff.2 fun front back hwords => by
        cases front with
        | nil => exact .inl rfl
        | cons w front => exact absurd (by simp [hwords]) h.first
  | negates q a h ih =>
    rw [h.parse_eq, h.isLeaf.parse_eq]
    exact .negation _
  | leaf q h =>
    rw [h.parse_eq]
    exact .leaf _

/-- An operator word put between two texts with the words of the parts splits the whole at the same place. -/
theorem Splits.joined (h : Splits q op b a) {left right : Text} (hleft : words left = words b)
    (hright : words right = words a) :
    Splits (joined op left right) op (left ++ " ".toText) (" ".toText ++ right) where
  cut := cut_joined op left right
  before := by rw [words_append_space, hleft]; exact h.before
  after := by rw [Text.words_gap_append isGap_space, hright]; exact h.after
  first := by rw [words_append_space, hleft]; exact h.first
  earlier := by rw [words_joined, hleft, hright, ← h.words_eq]; exact h.earlier

/-- An exclusion word put before a text with the words behind the leading one negates that text. -/
theorem Negates.written (h : Negates q a) {operand : Text} (hoperand : words operand = words a) :
    Negates (Operator.without.word ++ " ".toText ++ operand) (" ".toText ++ operand) where
  cut := ⟨[], .nil, by simp, isWord_word _, IsGap.nil.endsBlank,
    isGap_space.startsBlank.append (List.cons_ne_nil _ _) operand⟩
  after := by rw [Text.words_gap_append isGap_space, hoperand]; exact h.after
  whole := by
    intro op
    have hwords : words (Operator.without.word ++ " ".toText ++ operand) = words q := by
      rw [List.append_assoc, Text.words_word_append (isWord_word _)
        (isGap_space.startsBlank.append (List.cons_ne_nil _ _) _), Text.words_gap_append isGap_space, hoperand, h.words_eq]
    rw [hwords]
    exact h.whole op

theorem words_write_parse (q : Text) : words (parse q).write = words q := by
  induction q using parse_induction with
  | splits q op b a h ihb iha => rw [h.parse_eq, h.words_eq, ← ihb, ← iha, ← words_joined]; rfl
  | negates q a h ih =>
    have hwords := (h.written ih).words_eq
    rw [Text.words_gap_append isGap_space, ih] at hwords
    rw [h.parse_eq, h.words_eq]
    exact hwords
  | leaf q h => rw [h.parse_eq, Tree.write, Text.words_strip]

theorem parse_write_parse (q : Text) : parse (parse q).write = parse q := by
  -- the written parts have the words of the parts, so the whole is split where the query is
  induction q using parse_induction with
  | splits q op b a h ihb iha =>
    have hwritten := (h.joined (words_write_parse b) (words_write_parse a)).parse_eq
    rw [parse_congr (Text.strip_append_gap isGap_space _), parse_congr (Text.strip_gap_append isGap_space _), ihb, iha]
      at hwritten
    rw [h.parse_eq]
    exact hwritten
  | negates q a h ih =>
    have hwritten := (h.written (words_write_parse a)).parse_eq
    rw [parse_congr (Text.strip_gap_append isGap_space _), ih] at hwritten
    rw [h.parse_eq]
    exact hwritten
  | leaf q h => rw [h.parse_eq, Tree.write, parse_strip, h.parse_eq]

/-- The tree of a query is written with the words of the query and read again as the same tree, and its operators
stand in the order in which queries are split. -/
theorem parse_write (q : Text) :
    words (parse q).write = words q ∧ parse (parse q).write = parse q ∧ (parse q).IsRanked :=
  ⟨words_write_parse q, parse_write_parse q, isRanked_parse q⟩

/-- Operator words at the ends of leaves stay in them. -/
example : parse "roof OR  AND NOT  NOT oak".toText =
    .node .both (.leaf "roof OR".toText) (.node .without (.leaf "NOT".toText) (.leaf "oak".toText)) := by decide +kernel

end LedgerSearch.Query

import LedgerSearch.Proofs.Grammar
import LedgerSearch.Proofs.Leaves

/-!
# Queries joined by an operator

Two queries joined by an operator word are answered from the answers of the two. The joining word is not
always the place of the first split: where the left query contains the operator itself, it is split before, and
the law follows from the associativity of the operation (`eval_joined`). A left query that ends in the operator
word after other words would be split at that word instead, and so it is left out.
-/

namespace LedgerSearch.Query

open Text (Cut IsGap words strip beforeWord afterWord)

/-- Two queries with an operator word between them. -/
def joined (op : Operator) (left right : Text) : Text := left ++ " ".toText ++ op.word ++ " ".toText ++ right

theorem isGap_space : IsGap " ".toText := by
  intro c hc
  rw [List.mem_singleton.1 hc]
  decide

theorem cut_joined (op : Operator) (left right : Text) :
    Cut (joined op left right) (left ++ " ".toText) op.word (" ".toText ++ right) where
  eq := by simp [joined]
  isWord := isWord_word op
  endsBlank := isGap_space.endsBlank.append (List.cons_ne_nil _ _) left
  startsBlank := isGap_space.startsBlank.append (List.cons_ne_nil _ _) right

theorem words_append_space (t : Text) : words (t ++ " ".toText) = words t := by
  rw [Text.words_append (.inr isGap_space.startsBlank), Text.words_gap isGap_space, List.append_nil]

theorem words_joined (op : Operator) (left right : Text) :
    words (joined op left right) = words left ++ op.word :: words right := by
  rw [(cut_joined op left right).words_eq, words_append_space, Text.words_gap_append isGap_space]

theorem notMem_earlier {op : Operator} {earlier later : List Operator} (hall : Operator.all = earlier ++ op :: later) :
    op ∉ earlier := by
  intro hmem
  have hnodup : Operator.all.Nodup := by decide
  rw [hall, List.nodup_append] at hnodup
  exact hnodup.2.2 op hmem op List.mem_cons_self rfl

theorem word_injective {op op' : Operator} (h : op.word = op'.word) : op = op' := by
  revert h
  cases op <;> cases op' <;> decide

section Joined

variable {op : Operator} {earlier later : List Operator} {left right : Text}

theorem innerIndex?_joined (hall : Operator.all = earlier ++ op :: later)
    (hnone : ∀ op' ∈ earlier, op'.word ∉ words left ∧ op'.word ∉ words right) :
    ∀ op' ∈ earlier, innerIndex? op' (words (joined op left right)) = none := by
  intro op' hop
  apply innerIndex?_eq_none_of_notMem
  rw [words_joined, List.mem_append, List.mem_cons]
  rintro (hmem | hmem | hmem)
  · exact (hnone op' hop).1 hmem
  · exact notMem_earlier hall (word_injective hmem ▸ hop)
  · exact (hnone op' hop).2 hmem

/-- The joining word is the place of the split if the left query has no such word behind its first. -/
theorem parse_joined (hall : Operator.all = earlier ++ op :: later) (hleft : words left ≠ []) (hright : words right ≠ [])
    (hnone : ∀ op' ∈ earlier, op'.word ∉ words left ∧ op'.word ∉ words right) (hnot : op.word ∉ (words left).tail) :
    parse (joined op left right) = .node op (parse left) (parse right) := by
  have hsplit := parse_of_cut hall (cut_joined op left right) (by rwa [words_append_space])
    (by rwa [Text.words_gap_append isGap_space]) (by rwa [words_append_space]) (innerIndex?_joined hall hnone)
  rw [hsplit, parse_congr (Text.strip_append_gap isGap_space left), parse_congr (Text.strip_gap_append isGap_space right)]

/-- A word that is not inside a list but behind its first word is its last. -/
theorem notMem_tail {ws : List Text} (hnone : innerIndex? op ws = none)
    (hlast : ws.length = 1 ∨ ws.getLast? ≠ some op.word) : op.word ∉ ws.tail := by
  intro hmem
  obtain ⟨xs, ys, hsplit⟩ := List.append_of_mem hmem
  cases ws with
  | nil => cases hmem
  | cons w ws =>
    rw [List.tail_cons] at hsplit
    subst hsplit
    rcases innerIndex?_eq_none_iff.1 hnone (w :: xs) ys rfl with hnil | rfl
    · cases hnil
    · rcases hlast with hlen | hlast
      · simp at hlen
      · rw [← List.cons_append, List.getLast?_concat] at hlast
        exact hlast rfl

/-- Where the left query is split at the operator itself, the joined one is split at the same word, and the rest of
the left query is joined to the right one. -/
theorem parse_joined_inner (hall : Operator.all = earlier ++ op :: later)
    (hnone : ∀ op' ∈ earlier, op'.word ∉ words left ∧ op'.word ∉ words right) {i : Nat}
    (hinner : innerIndex? op (words left) = some i) :
    parse left = .node op (parse (beforeWord i left)) (parse (afterWord i left)) ∧
      parse (joined op left right) = .node op (parse (beforeWord i left)) (parse (joined op (afterWord i left) right)) := by
  obtain ⟨hcut, hbefore, hafter, hnot⟩ := cut_of_innerIndex? hinner
  constructor
  · exact parse_of_cut hall hcut hbefore hafter hnot fun op' hop => innerIndex?_eq_none_of_notMem (hnone op' hop).1
  · have hne : afterWord i left ≠ [] := by
      intro hnil
      exact hafter (by rw [hnil, Text.words_nil])
    have hwide : Cut (joined op left right) (beforeWord i left) op.word (joined op (afterWord i left) right) := by
      simpa [joined] using hcut.append hne (" ".toText ++ op.word ++ " ".toText ++ right)
    refine parse_of_cut hall hwide hbefore ?_ hnot (innerIndex?_joined hall hnone)
    rw [words_joined]
    exact List.append_ne_nil_of_left_ne_nil hafter _

theorem getLast?_afterWord {i : Nat} (hinner : innerIndex? op (words left) = some i) :
    (words (afterWord i left)).getLast? = (words left).getLast? := by
  obtain ⟨hcut, -, hafter, -⟩ := cut_of_innerIndex? hinner
  rw [hcut.words_eq, List.append_cons, List.getLast?_append, List.getLast?_eq_some_getLast hafter, Option.some_or]

/-- An associative operation that evaluates an operator evaluates two queries joined by it. -/
theorem eval_joined {γ : Type} (eval : Tree → γ) (comb : γ → γ → γ)
    (hnode : ∀ l r, eval (.node op l r) = comb (eval l) (eval r))
    (hassoc : ∀ x y z, comb (comb x y) z = comb x (comb y z))
    (hall : Operator.all = earlier ++ op :: later) (hleft : words left ≠ []) (hright : words right ≠ [])
    (hnone : ∀ op' ∈ earlier, op'.word ∉ words left ∧ op'.word ∉ words right)
    (hlast : (words left).length = 1 ∨ (words left).getLast? ≠ some op.word) :
    eval (parse (joined op left right)) = comb (eval (parse left)) (eval (parse right)) := by
  induction hn : (words left).length using Nat.strongRecOn generalizing left with
  | ind n ih =>
    cases hinner : innerIndex? op (words left) with
    | none => rw [parse_joined hall hleft hright hnone (notMem_tail hinner hlast), hnode]
    | some i =>
      obtain ⟨hcut, -, hafter, -⟩ := cut_of_innerIndex? hinner
      obtain ⟨hparse, hjoined⟩ := parse_joined_inner hall hnone hinner
      have hlt := length_words_afterWord (q := left) (i := i) (by have := innerIndex?_lt hinner; omega)
      have hnone' : ∀ op' ∈ earlier, op'.word ∉ words (afterWord i left) ∧ op'.word ∉ words right := by
        intro op' hop
        obtain ⟨hl, hr⟩ := hnone op' hop
        exact ⟨fun hmem => hl (by rw [hcut.words_eq]; simp [hmem]), hr⟩
      have hlast' : (words (afterWord i left)).getLast? ≠ some op.word := by
        rw [getLast?_afterWord hinner]
        have := innerIndex?_lt hinner
        exact hlast.resolve_left (by omega)
      rw [hjoined, hparse, hnode, hnode, ih _ (hn ▸ hlt) hafter hnone' (.inr hlast') rfl, hassoc]

end Joined

end LedgerSearch.Query

namespace LedgerSearch

/-- Every filled field that a search looks through is a text. -/
def Record.IsTextual (r : Record) : Prop := ∀ p ∈ r.parts, p.isFilled = true → p.text?.isSome = true

instance (r : Record) : Decidable r.IsTextual := inferInstanceAs (Decidable (∀ p ∈ r.parts, _))

namespace Search

open Outcome (combine combine_ok combine_assoc)
open Query (Operator joined parse)
open Text (words)

variable {r : Record}

theorem filledTexts_ok {parts : List Payload} (h : ∀ p ∈ parts, p.isFilled = true → p.text?.isSome = true) :
    ∃ texts, filledTexts parts = .ok texts := by
  induction parts with
  | nil => exact ⟨[], rfl⟩
  | cons p parts ih =>
    obtain ⟨hp, hparts⟩ := List.forall_mem_cons.1 h
    obtain ⟨texts, ih⟩ := ih hparts
    by_cases hfilled : p.isFilled = true
    · obtain ⟨t, ht⟩ := Option.isSome_iff_exists.1 (hp hfilled)
      exact ⟨t :: texts, by simp [filledTexts, hfilled, ht, ih]⟩
    · exact ⟨texts, by simp [filledTexts, hfilled, ih]⟩

theorem haystack_ok (h : r.IsTextual) : ∃ text, haystack r = .ok text := by
  obtain ⟨texts, htexts⟩ := filledTexts_ok h
  exact ⟨_, by rw [haystack, htexts, Outcome.map_ok]⟩

/-- Each token of a query is looked for in the searchable text of a record. -/
theorem holdsWords_eq_all {hay : Text} (hlink : r.quickLink? = none) (hhay : haystack r = .ok hay) (query : Text) :
    holdsWords r query = .ok ((Query.tokens query).all fun token => Text.occursIn token hay) := by
  rw [holdsWords, hlink]
  dsimp only
  split
  case isTrue hempty => rw [List.isEmpty_iff.1 hempty, List.all_nil]
  case isFalse => rw [hhay, Outcome.map_ok]

theorem holdsWords_ok (h : r.IsTextual) (text : Text) : ∃ b, holdsWords r text = .ok b := by
  obtain ⟨hay, hhay⟩ := haystack_ok h
  unfold holdsWords
  split
  · exact ⟨_, rfl⟩
  · split
    · exact ⟨_, rfl⟩
    · exact ⟨_, by rw [hhay, Outcome.map_ok]⟩

theorem holdsLeaf_ok (h : r.IsTextual) (text : Text) : ∃ b, holdsLeaf r text = .ok b := by
  obtain ⟨b, hb⟩ := holdsWords_ok h text
  unfold holdsLeaf
  split
  · split <;> exact ⟨_, rfl⟩
  · rw [hb]
    cases b <;> exact ⟨_, rfl⟩

theorem holds_eq_holdsTree (hr : r.quickLink? = none) (query : Text) : holds r query = holdsTree r (parse query) := by
  simp [holds, hr]

/-- Search is compositional in the text of a query: two queries joined by an operator are answered and scored from
the two alone, wherever the joined text is split. -/
theorem holds_joined {A B : Text} (hr : r.quickLink? = none) (htext : r.IsTextual) (hA : Text.strip A ≠ [])
    (hB : Text.strip B ≠ []) :
    ∃ a b, holds r A = .ok a ∧ holds r B = .ok b ∧
      (((words A).length = 1 ∨ (words A).getLast? ≠ some Operator.both.word) →
        holds r (joined .both A B) = .ok (a && b) ∧
        score r (joined .both A B) = combine min (score r A) (score r B)) ∧
      (Operator.both.word ∉ words A → Operator.both.word ∉ words B →
        ((words A).length = 1 ∨ (words A).getLast? ≠ some Operator.either.word) →
        holds r (joined .either A B) = .ok (a || b) ∧
        score r (joined .either A B) = combine max (score r A) (score r B)) ∧
      (Operator.both.word ∉ words A → Operator.both.word ∉ words B →
        Operator.either.word ∉ words A → Operator.either.word ∉ words B → Operator.without.word ∉ (words A).tail →
        holds r (joined .without A B) = .ok (a && !b) ∧
        score r (joined .without A B) = (score r A).map fun x => if b then 0 else x) := by
  have hA' : words A ≠ [] := mt Text.strip_eq_nil_iff.2 hA
  have hB' : words B ≠ [] := mt Text.strip_eq_nil_iff.2 hB
  obtain ⟨a, ha⟩ : ∃ a, holdsTree r (parse A) = .ok a := holdsTree_ok fun leaf _ => holdsLeaf_ok htext leaf
  obtain ⟨b, hb⟩ : ∃ b, holdsTree r (parse B) = .ok b := holdsTree_ok fun leaf _ => holdsLeaf_ok htext leaf
  simp only [holds_eq_holdsTree hr, score]
  refine ⟨a, b, ha, hb, ?_, ?_, ?_⟩
  · intro hlast
    have hnone : ∀ op ∈ ([] : List Operator), op.word ∉ words A ∧ op.word ∉ words B := List.forall_mem_nil _
    constructor
    · rw [Query.eval_joined (holdsTree r) (combine (· && ·)) (fun _ _ => rfl) (combine_assoc Bool.and_assoc) rfl hA' hB'
        hnone hlast, ha, hb, combine_ok]
    · exact Query.eval_joined (treeScore r) (combine min) (fun _ _ => rfl) (combine_assoc Nat.min_assoc) rfl hA' hB'
        hnone hlast
  · intro hbothA hbothB hlast
    have hnone : ∀ op ∈ [Operator.both], op.word ∉ words A ∧ op.word ∉ words B := by
      intro op hop
      obtain rfl := List.mem_singleton.1 hop
      exact ⟨hbothA, hbothB⟩
    constructor
    · rw [Query.eval_joined (holdsTree r) (combine (· || ·)) (fun _ _ => rfl) (combine_assoc Bool.or_assoc) rfl hA' hB'
        hnone hlast, ha, hb, combine_ok]
    · exact Query.eval_joined (treeScore r) (combine max) (fun _ _ => rfl) (combine_assoc Nat.max_assoc) rfl hA' hB'
        hnone hlast
  · intro hbothA hbothB heitherA heitherB hnot
    have hnone : ∀ op ∈ [Operator.both, Operator.either], op.word ∉ words A ∧ op.word ∉ words B := by
      intro op hop
      rcases List.mem_cons.1 hop with rfl | hop
      · exact ⟨hbothA, hbothB⟩
      · obtain rfl := List.mem_singleton.1 hop
        exact ⟨heitherA, heitherB⟩
    have hparse : parse (joined .without A B) = .node .without (parse A) (parse B) :=
      Query.parse_joined rfl hA' hB' hnone hnot
    rw [hparse]
    exact ⟨holdsTree_without ha hb, treeScore_without hb⟩

def oakDoor : Record := Record.bare "1" "Oak door" (.document ⟨[], []⟩)

theorem holds_joined_oakDoor :
    holds oakDoor (joined .both "oak door".toText "pine".toText) = .ok false ∧
      holds oakDoor (joined .either "oak door".toText "pine".toText) = .ok true ∧
      holds oakDoor (joined .without "oak door".toText "pine".toText) = .ok true ∧
      score oakDoor (joined .both "oak door".toText "pine".toText) =
        combine min (score oakDoor "oak door".toText) (score oakDoor "pine".toText) := by
  obtain ⟨a, b, ha, hb, hboth, heither, hwithout⟩ :=
    holds_joined (r := oakDoor) (A := "oak door".toText) (B := "pine".toText) rfl (by decide) (by decide) (by decide)
  have hleft : (holds oakDoor "oak door".toText).toOption = some true := by decide +kernel
  have hright : (holds oakDoor "pine".toText).toOption = some false := by decide +kernel
  rw [ha] at hleft
  rw [hb] at hright
  cases hleft
  cases hright
  obtain ⟨hboth, hscore⟩ := hboth (by decide)
  obtain ⟨heither, -⟩ := heither (by decide) (by decide) (by decide)
  obtain ⟨hwithout, -⟩ := hwithout (by decide) (by decide) (by decide) (by decide) (by decide)
  exact ⟨hboth, heither, hwithout, hscore⟩

end Search
end LedgerSearch

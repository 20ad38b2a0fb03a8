import LedgerSearch.Proofs.Outcome
import LedgerSearch.Search.Score

/-!
# Trees and their leaves

A record answers a query tree through its answers to the leaves: no fault comes from an operator, and two records
that answer and score each leaf alike answer and score the tree alike. Where nothing is excluded, a record that answers
and scores each leaf no worse does so for the tree. A leaf is answered and scored by its words and its amounts, or by its
amounts alone.
-/

namespace LedgerSearch

/-- Nothing in the tree is excluded or negated. -/
def Query.Tree.IsPositive : Tree → Prop
  | leaf _ => True
  | node .without _ _ => False
  | node _ left right => left.IsPositive ∧ right.IsPositive
  | negation _ => False

instance Query.Tree.decidableIsPositive : (tree : Tree) → Decidable tree.IsPositive
  | leaf _ => inferInstanceAs (Decidable True)
  | node .without _ _ => inferInstanceAs (Decidable False)
  | node .both left right | node .either left right =>
    have := left.decidableIsPositive
    have := right.decidableIsPositive
    inferInstanceAs (Decidable (_ ∧ _))
  | negation _ => inferInstanceAs (Decidable False)

namespace Search

open Outcome (AtMost combine)
open Query (MoneyTokens Tree moneyQuery moneyTokens)

variable {r s : Record}

theorem holdsLeaf_explicit {text : Text} (hlink : r.quickLink? = none) (h : (moneyQuery text).isExplicit = true) :
    holdsLeaf r text = .ok (holdsMoney true r (moneyQuery text).text) := by
  simp [holdsLeaf, h, hlink]

/-- A leaf that does not begin with a dollar sign is answered by its words or by its amounts. -/
theorem holdsLeaf_words {text : Text} (hlink : r.quickLink? = none) (h : (moneyQuery text).isExplicit = false)
    {found : Bool} (hfound : holdsWords r text = .ok found) :
    holdsLeaf r text = .ok (found || (Query.mayBeMoney text && holdsMoney false r text)) := by
  cases found <;> simp [holdsLeaf, h, hfound, hlink]

/-- Points for the visible amounts in the queried range, if there is one. -/
def pointsInRange (f : Financial) (t : MoneyTokens) : Except Fault Nat :=
  match t.range with
  | some range => rangeScore range (amounts f)
  | none => .ok 0

theorem moneyScore_of_none (h : r.financial? = none) (explicit : Bool) (text : Text) : moneyScore explicit r text = .ok 0 := by
  rw [moneyScore, h]

/-- The score for amounts is a sum, in which only the points for amounts in a range may be missing. -/
theorem moneyScore_eq_map {f : Financial} (hf : r.financial? = some f) (explicit : Bool) (text : Text) :
    moneyScore explicit r text = if (moneyTokens text).isEmpty then .ok 0
      else (pointsInRange f (moneyTokens text)).map fun inRange =>
        visibleScore f (moneyTokens text) + inRange + amountScore f (moneyTokens text) +
          if explicit then 0 else moneyWordScore r f (moneyTokens text).words := by
  simp only [moneyScore, hf, pointsInRange]
  congr 1
  cases (moneyTokens text).range with
  | none => rfl
  | some range => cases rangeScore range (amounts f) <;> rfl

theorem leafScore_explicit {text : Text} (h : (moneyQuery text).isExplicit = true) :
    leafScore r text = moneyScore true r (moneyQuery text).text := by
  simp [leafScore, h]

/-- A leaf that does not begin with a dollar sign is scored for its words and for its amounts. -/
theorem leafScore_eq_combine {text : Text} (h : (moneyQuery text).isExplicit = false) : leafScore r text =
    combine (· + ·) (textScore r text) (if Query.mayBeMoney text then moneyScore false r text else .ok 0) := by
  rw [leafScore, h, if_neg Bool.false_ne_true, combine]
  split <;> rfl

theorem holdsTree_without {left right : Tree} {a b : Bool} (ha : holdsTree r left = .ok a)
    (hb : holdsTree r right = .ok b) : holdsTree r (.node .without left right) = .ok (a && !b) := by
  cases a <;> simp [holdsTree, ha, hb]

theorem treeScore_without {left right : Tree} {b : Bool} (hb : holdsTree r right = .ok b) :
    treeScore r (.node .without left right) = (treeScore r left).map fun x => if b then 0 else x := by
  cases hleft : treeScore r left with
  | error fault => simp [treeScore, hleft, Except.map]
  | ok x => cases b <;> simp [treeScore, hleft, hb]

theorem holdsTree_ok {tree : Tree} (h : ∀ leaf ∈ tree.leaves, ∃ b, holdsLeaf r leaf = .ok b) :
    ∃ b, holdsTree r tree = .ok b := by
  induction tree with
  | leaf text => exact h text List.mem_cons_self
  | node op left right ihl ihr =>
    obtain ⟨hl, hr⟩ := List.forall_mem_append.1 h
    obtain ⟨a, ha⟩ := ihl hl
    obtain ⟨b, hb⟩ := ihr hr
    cases op with
    | both => exact ⟨a && b, by simp [holdsTree, ha, hb]⟩
    | either => exact ⟨a || b, by simp [holdsTree, ha, hb]⟩
    | without => exact ⟨a && !b, holdsTree_without ha hb⟩
  | negation operand ih =>
    obtain ⟨a, ha⟩ := ih h
    exact ⟨!a, by simp [holdsTree, ha]⟩

theorem holdsTree_congr {tree : Tree} (h : ∀ leaf ∈ tree.leaves, holdsLeaf r leaf = holdsLeaf s leaf) :
    holdsTree r tree = holdsTree s tree := by
  induction tree with
  | leaf text => exact h text List.mem_cons_self
  | node op left right ihl ihr =>
    obtain ⟨hl, hr⟩ := List.forall_mem_append.1 h
    cases op <;> simp only [holdsTree, ihl hl, ihr hr]
  | negation operand ih => simp only [holdsTree, ih h]

theorem treeScore_congr {tree : Tree} (h : ∀ leaf ∈ tree.leaves, holdsLeaf r leaf = holdsLeaf s leaf)
    (hscore : ∀ leaf ∈ tree.leaves, leafScore r leaf = leafScore s leaf) : treeScore r tree = treeScore s tree := by
  induction tree with
  | leaf text => exact hscore text List.mem_cons_self
  | node op left right ihl ihr =>
    obtain ⟨hl, hr⟩ := List.forall_mem_append.1 h
    obtain ⟨hsl, hsr⟩ := List.forall_mem_append.1 hscore
    -- an exclusion is scored by its left part but asks whether the right one holds
    cases op with
    | both => simp only [treeScore, ihl hl hsl, ihr hr hsr]
    | either => simp only [treeScore, ihl hl hsl, ihr hr hsr]
    | without => simp only [treeScore, ihl hl hsl, holdsTree_congr hr]
  | negation operand ih => simp only [treeScore, ih h hscore]

theorem holdsTree_mono {tree : Tree} (hpos : tree.IsPositive) (hok : ∀ leaf ∈ tree.leaves, ∃ b, holdsLeaf s leaf = .ok b)
    (h : ∀ leaf ∈ tree.leaves, holdsLeaf r leaf = .ok true → holdsLeaf s leaf = .ok true) :
    holdsTree r tree = .ok true → holdsTree s tree = .ok true := by
  induction tree with
  | leaf text => exact h text List.mem_cons_self
  | node op left right ihl ihr =>
    obtain ⟨hl, hr⟩ := List.forall_mem_append.1 h
    obtain ⟨hokl, hokr⟩ := List.forall_mem_append.1 hok
    intro hboth
    cases op with
    | both =>
      obtain ⟨a, ha, hboth⟩ := Outcome.bind_eq_ok.1 hboth
      obtain ⟨b, hb, hboth⟩ := Outcome.bind_eq_ok.1 hboth
      cases a <;> cases b <;> cases hboth
      simp [holdsTree, ihl hpos.1 hokl hl ha, ihr hpos.2 hokr hr hb]
    | either =>
      obtain ⟨a, ha, hboth⟩ := Outcome.bind_eq_ok.1 hboth
      obtain ⟨b, hb, hboth⟩ := Outcome.bind_eq_ok.1 hboth
      obtain ⟨c, hc⟩ := holdsTree_ok hokl
      obtain ⟨d, hd⟩ := holdsTree_ok hokr
      have hor : (a || b) = true := Except.ok.inj hboth
      have hfound : (c || d) = true := by
        rcases Bool.or_eq_true_iff.1 hor with rfl | rfl
        · cases hc.symm.trans (ihl hpos.1 hokl hl ha)
          rfl
        · cases hd.symm.trans (ihr hpos.2 hokr hr hb)
          exact Bool.or_true c
      simp [holdsTree, hc, hd, hfound]
    | without => exact hpos.elim
  | negation operand ih => exact hpos.elim

theorem treeScore_atMost {tree : Tree} (hpos : tree.IsPositive)
    (h : ∀ leaf ∈ tree.leaves, AtMost (leafScore r leaf) (leafScore s leaf)) :
    AtMost (treeScore r tree) (treeScore s tree) := by
  induction tree with
  | leaf text => exact h text List.mem_cons_self
  | node op left right ihl ihr =>
    obtain ⟨hl, hr⟩ := List.forall_mem_append.1 h
    cases op with
    | both => exact AtMost.combine (fun hab hcd => by omega) (ihl hpos.1 hl) (ihr hpos.2 hr)
    | either => exact AtMost.combine (fun hab hcd => by omega) (ihl hpos.1 hl) (ihr hpos.2 hr)
    | without => exact hpos.elim
  | negation operand ih => exact hpos.elim

end Search
end LedgerSearch

import LedgerSearch.Proofs.Markup
import LedgerSearch.Proofs.RangeBounds
import LedgerSearch.Proofs.SearchFaults
import LedgerSearch.Proofs.VisibleAmounts

/-!
# Queries that cannot be scored

Over records whose fields are texts and whose amounts are finite, a query text is always answered and always marked,
and one thing alone can make its score fail: a scored leaf asks for a range so high that its upper end is infinite, and
a visible amount lies in it. So a search ends with an answer exactly if it keeps no record of which this is true
(`search_ok_iff`).
-/

namespace LedgerSearch

namespace Query

/-- The leaf is compared with amounts. -/
def asksMoney (leaf : Text) : Bool := (moneyQuery leaf).isExplicit || mayBeMoney leaf

/-- The leaves that a score is made of; those of what is excluded only decide whether there is one. -/
def Tree.scored : Tree → List Text
  | leaf text => [text]
  | node .without left _ => left.scored
  | node _ left right => left.scored ++ right.scored
  | negation operand => operand.scored

theorem Tree.scored_subset_leaves (tree : Tree) : tree.scored ⊆ tree.leaves := by
  induction tree with
  | leaf text => exact List.Subset.refl _
  | node op left right ihl ihr =>
    have hleft : left.scored ⊆ left.leaves ++ right.leaves := List.subset_append_of_subset_left _ ihl
    have hright : right.scored ⊆ left.leaves ++ right.leaves := List.subset_append_of_subset_right _ ihr
    cases op with
    | both | either => exact List.append_subset.2 ⟨hleft, hright⟩
    | without => exact hleft
  | negation operand ih => exact ih

theorem text_moneyQuery {leaf : Text} (h : ¬ (moneyQuery leaf).isExplicit = true) : (moneyQuery leaf).text = leaf := by
  unfold moneyQuery at h ⊢
  split at h
  · exact absurd rfl h
  · rfl

theorem range_moneyTokens (text : Text) : (moneyTokens text).range = range? text := by
  unfold moneyTokens
  split
  · rename_i h
    exact h.symm
  · rename_i h
    exact h.symm

end Query

/-- Every amount that the record shows is finite. -/
def Record.HasFiniteAmounts (r : Record) : Prop :=
  ∀ f, r.financial? = some f → ∀ x ∈ Search.visibleAmounts f, x.isFinite = true

namespace Search

open Outcome
open Query (asksMoney Tree moneyQuery)

variable {r : Record} {f : Financial}

/-- A visible amount of the record lies in a range that the text asks for and that has no upper end. -/
def liesInOpenRange (r : Record) (text : Text) : Bool :=
  match r.financial?, Query.range? text with
  | some f, some range => !range.max.isFinite && (visibleAmounts f).any range.contains
  | _, _ => false

/-- Some scored leaf of the query compares the record with a range that has no upper end and that it lies in. -/
def meetsOpenRange (r : Record) (query : Text) : Bool :=
  (Query.parse query).scored.any fun leaf => asksMoney leaf && liesInOpenRange r (moneyQuery leaf).text

/-- In a query of fewer than 308 characters every range has an upper end. -/
theorem meetsOpenRange_of_length (r : Record) {query : Text} (h : query.length ≤ 307) :
    meetsOpenRange r query = false := by
  unfold meetsOpenRange
  rw [List.any_eq_false]
  intro leaf hleaf
  have hlen : (moneyQuery leaf).text.length ≤ 307 :=
    calc (moneyQuery leaf).text.length ≤ leaf.length := Query.length_moneyQuery_le leaf
      _ ≤ query.length := Query.length_le_of_mem_leaves leaf (Tree.scored_subset_leaves _ hleaf)
      _ ≤ 307 := h
  have hclosed : liesInOpenRange r (moneyQuery leaf).text = false := by
    unfold liesInOpenRange
    split
    · rename_i range _ hrange
      rw [Query.isFinite_max_of_length hrange hlen]
      rfl
    · rfl
  simp [hclosed]

theorem rangePoints_le (kind : AmountKind) : kind.rangePoints ≤ 800 := by
  cases kind <;> decide

theorem rangeScore_ok_iff {range : PriceRange} (h : IsOrdered range) {vs : List (AmountKind × Binary64)}
    (hvs : ∀ v ∈ vs, v.2.isFinite = true) :
    (∃ points, rangeScore range vs = .ok points) ↔ ∀ v ∈ vs, range.contains v.2 = true → range.max.isFinite = true := by
  induction vs with
  | nil => exact iff_of_true ⟨0, rfl⟩ (List.forall_mem_nil _)
  | cons v rest ih =>
    obtain ⟨kind, x⟩ := v
    obtain ⟨hx, hrest⟩ := List.forall_mem_cons.1 hvs
    have hpoints := proximity_ok_iff h (rangePoints_le kind) hx
    rw [List.forall_mem_cons, ← ih hrest, rangeScore]
    split
    · rename_i hin
      rw [← hpoints]
      simp [bind_ok_iff, hin]
    · rename_i hout
      exact ⟨fun hmore => ⟨fun hin => absurd hin hout, hmore⟩, And.right⟩

theorem moneyScore_ok_iff (hfinite : r.HasFiniteAmounts) (explicit : Bool) (text : Text) :
    (∃ points, moneyScore explicit r text = .ok points) ↔ liesInOpenRange r text = false := by
  cases hf : r.financial? with
  | none => exact iff_of_true ⟨0, moneyScore_of_none hf explicit text⟩ (by rw [liesInOpenRange, hf])
  | some f =>
    have hrange := Query.range_moneyTokens text
    rw [moneyScore_eq_map hf, liesInOpenRange, hf]
    cases hread : Query.range? text with
    | none =>
      rw [hread] at hrange
      refine iff_of_true ?_ rfl
      rw [pointsInRange, hrange]
      split <;> exact ⟨_, rfl⟩
    | some range =>
      rw [hread] at hrange
      have hnonempty : (Query.moneyTokens text).isEmpty = false := by simp [Query.MoneyTokens.isEmpty, hrange]
      have hvisible : ∀ v ∈ amounts f, v.2.isFinite = true := fun v hv => hfinite f hf v.2 (List.mem_map_of_mem hv)
      rw [hnonempty, if_neg Bool.false_ne_true, map_ok_iff, pointsInRange, hrange]
      dsimp only
      rw [rangeScore_ok_iff (isOrdered_of_range? hread) hvisible]
      cases range.max.isFinite <;> simp [visibleAmounts]

theorem leafScore_ok_iff (htext : r.IsTextual) (hfinite : r.HasFiniteAmounts) (leaf : Text) :
    (∃ points, leafScore r leaf = .ok points) ↔
      (asksMoney leaf && liesInOpenRange r (moneyQuery leaf).text) = false := by
  unfold asksMoney
  by_cases hexplicit : (moneyQuery leaf).isExplicit = true
  · simp [hexplicit, leafScore_explicit hexplicit, moneyScore_ok_iff hfinite]
  · obtain ⟨points, hpoints⟩ := textScore_ok htext leaf
    have hscore := moneyScore_ok_iff hfinite false leaf
    rw [leafScore_eq_combine (eq_false_of_ne_true hexplicit), hpoints, Query.text_moneyQuery hexplicit,
      eq_false_of_ne_true hexplicit, Bool.false_or]
    by_cases hmoney : Query.mayBeMoney leaf = true
    · simp [combine, hmoney, bind_ok_iff, hscore]
    · simp [hmoney]

theorem treeScore_ok_iff (htext : r.IsTextual) (tree : Tree) :
    (∃ points, treeScore r tree = .ok points) ↔ ∀ leaf ∈ tree.scored, ∃ points, leafScore r leaf = .ok points := by
  induction tree with
  | leaf text => simp [treeScore, Tree.scored]
  | node op left right ihl ihr =>
    cases op with
    | both => simp only [treeScore, Tree.scored, bind_ok_iff, List.forall_mem_append, ← ihl, ← ihr]; simp
    | either => simp only [treeScore, Tree.scored, bind_ok_iff, List.forall_mem_append, ← ihl, ← ihr]; simp
    | without =>
      obtain ⟨b, hb⟩ : ∃ b, holdsTree r right = .ok b := holdsTree_ok fun leaf _ => holdsLeaf_ok htext leaf
      rw [treeScore_without hb, map_ok_iff, ihl, Tree.scored]
  | negation operand ih =>
    rw [Tree.scored, ← ih, treeScore]
    simp [bind_ok_iff]

theorem score_ok_iff (htext : r.IsTextual) (hfinite : r.HasFiniteAmounts) (query : Text) :
    (∃ points, score r query = .ok points) ↔ meetsOpenRange r query = false := by
  rw [score, treeScore_ok_iff htext]
  simp only [leafScore_ok_iff htext hfinite, meetsOpenRange, List.any_eq_false, Bool.not_eq_true]

end Search

namespace Engine

open Search Outcome
open Marking (Mode Lossless highlight)

variable {e : Engine} {now : Instant} {req : Request}

/-- A record whose fields are texts and whose amounts are finite. -/
structure IsSound (r : Record) : Prop where
  texts : r.HasTextFields
  amounts : r.HasFiniteAmounts

theorem areReadable_of_isSound {records : List Record} (h : ∀ r ∈ records, IsSound r) : AreReadable now records :=
  ⟨fun r hr => (h r hr).texts.isTextual, fun key => .of_texts fun r hr => (h r hr).texts.isTextValue now key⟩

/-- A search ends with an answer exactly if it keeps no record that meets a range without an upper end. -/
theorem search_ok_iff (hrecords : ∀ r ∈ e.records, IsSound r) (hreq : req.IsValid) :
    (∃ res, e.search now req = .ok res) ↔
      ∀ r ∈ e.records, isKept now req r = true → meetsOpenRange r req.query = false := by
  rw [search_ok_iff_scored (areReadable_of_isSound hrecords) hreq]
  refine forall₂_congr fun r hr => forall_congr' fun _ => ?_
  exact score_ok_iff (hrecords r hr).texts.isTextual (hrecords r hr).amounts req.query

/-- A query text is answered and marked, and it is scored and searched for unless it meets a range without an upper
end, which no query of fewer than 308 characters does. -/
theorem query_ok_iff (hrecords : ∀ r ∈ e.records, IsSound r) (hreq : req.IsValid) :
    (∀ r ∈ e.records, ∃ b, holds r req.query = .ok b) ∧
    (∀ r ∈ e.records, (∃ points, score r req.query = .ok points) ↔ meetsOpenRange r req.query = false) ∧
    (∀ mode text, Lossless text (highlight mode text req.query)) ∧
    ((∃ res, e.search now req = .ok res) ↔
      ∀ r ∈ e.records, isKept now req r = true → meetsOpenRange r req.query = false) ∧
    (req.query.length ≤ 307 → ∀ r ∈ e.records, meetsOpenRange r req.query = false) := by
  refine ⟨?_, ?_, ?_, search_ok_iff hrecords hreq, fun hlen r _ => meetsOpenRange_of_length r hlen⟩
  · exact fun r hr => holds_ok (hrecords r hr).texts.isTextual _
  · exact fun r hr => score_ok_iff (hrecords r hr).texts.isTextual (hrecords r hr).amounts _
  · exact fun mode text => Marking.lossless_highlight mode text req.query

/-- A range from one dollar up to a number of so many digits that it has no finite value. -/
def endlessRange : Text := "$1-".toText ++ Text.fill 400 '9'

def postBill : Record := sampleBill "Posts" postLine

/-- A document and a bill for 300 dollars. -/
def billEngine : Engine := ⟨[oakDoor, postBill], .standard, .default⟩

def plainRequest (query : Text) : Request := ⟨query, [], .null, .null⟩

theorem isValid_plainRequest (query : Text) : (plainRequest query).IsValid :=
  ⟨List.forall_mem_nil _, fun h => (by cases h), fun h => (by cases h)⟩

theorem isSound_oakDoor : IsSound oakDoor := ⟨⟨by decide, by decide⟩, fun _ h => by cases h⟩

theorem isSound_postBill : IsSound postBill := by
  refine ⟨⟨by decide, by decide⟩, ?_⟩
  rintro f ⟨⟩
  decide +kernel

theorem query_ok_iff_posts :
    (∃ points, score oakDoor endlessRange = .ok points) ∧ (¬ ∃ points, score postBill endlessRange = .ok points) ∧
    (¬ ∃ res, billEngine.search Instant.epoch (plainRequest endlessRange) = .ok res) ∧
    ∃ res, billEngine.search Instant.epoch (plainRequest "$250-350 OR door".toText) = .ok res := by
  have hrecords : ∀ r ∈ billEngine.records, IsSound r :=
    List.forall_mem_cons.2 ⟨isSound_oakDoor, List.forall_mem_singleton.2 isSound_postBill⟩
  have hdoor : oakDoor ∈ billEngine.records := List.mem_cons_self
  have hbill : postBill ∈ billEngine.records := List.mem_cons_of_mem _ List.mem_cons_self
  have hmeets : meetsOpenRange postBill endlessRange = true := by decide +kernel
  obtain ⟨-, hscore, -, hsearch, -⟩ :=
    @query_ok_iff billEngine Instant.epoch _ hrecords (isValid_plainRequest endlessRange)
  obtain ⟨-, -, -, hclosed, hshort⟩ :=
    @query_ok_iff billEngine Instant.epoch _ hrecords (isValid_plainRequest "$250-350 OR door".toText)
  refine ⟨(hscore oakDoor hdoor).2 (by decide +kernel), ?_, ?_, hclosed.2 fun r hr _ => hshort (by decide) r hr⟩
  · intro h
    exact ne_false_of_eq_true hmeets ((hscore postBill hbill).1 h)
  · intro h
    exact ne_false_of_eq_true hmeets (hsearch.1 h postBill hbill (by decide +kernel))

/-- The bill is found by a range without an upper end, and cannot be scored for it. -/
theorem score_endlessRange : IsSound postBill ∧ (holds postBill endlessRange).toOption = some true ∧
    score postBill endlessRange = .error .undefinedProximity ∧
    (billEngine.search Instant.epoch (plainRequest endlessRange)).toOption.isNone = true :=
  ⟨isSound_postBill, by decide +kernel, by decide +kernel, by decide +kernel⟩

end Engine
end LedgerSearch

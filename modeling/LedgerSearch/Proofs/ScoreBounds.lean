import LedgerSearch.Proofs.OpenRanges
import LedgerSearch.Proofs.ScoredHits
import LedgerSearch.Proofs.WholeNumbers
import Mathlib.Tactic.Ring

/-!
# Bounds of scores

A score is a sum over the words of a query and the lines of a record, and each summand has a bound: a product of the
two lengths bounds the score (`score_le`). So the score of a query and a record that fit into memory is a finite number
(`isFinite_score`).
-/

namespace LedgerSearch

theorem Text.length_words_le (t : Text) : (words t).length ≤ t.length := by
  induction t using words_induction with
  | gap g hg => simp [words_gap hg]
  | word g w s hg hw hs ih =>
    have hpos := List.length_pos_iff.2 hw.1
    rw [List.append_assoc, words_gap_append hg, words_word_append hw hs]
    simp only [List.length_cons, List.length_append]
    omega

namespace Query

theorem length_tokens_le (query : Text) : (tokens query).length ≤ query.length := by
  rw [tokens_eq_map_lower, List.length_map]
  exact Text.length_words_le query

theorem length_moneyTokens_le (query : Text) : (moneyTokens query).amounts.length ≤ query.length ∧
    (moneyTokens query).words.length ≤ query.length := by
  unfold moneyTokens
  split
  case h_1 => exact ⟨Nat.zero_le _, Nat.zero_le _⟩
  case h_2 =>
    have htokens := length_tokens_le query
    exact ⟨Nat.le_trans (List.length_filterMap_le _ _) htokens, Nat.le_trans (List.length_filter_le _ _) htokens⟩

end Query

/-- How many lines a record has. -/
def Record.lineCount (r : Record) : Nat := (r.financial?.map fun f => f.lineItems.length).getD 0

namespace Search

open Binary64 Outcome
open Query (MoneyTokens moneyQuery moneyTokens)

variable {r : Record} {f : Financial}

theorem toNat_floor_le {k : Nat} {x : Binary64} (h : Bounded k x) {n : Int} (hfloor : floor? x = some n) :
    n.toNat ≤ k := by
  obtain ⟨s, u, rfl, hu⟩ := h
  cases hfloor
  have hunits : signedUnits s u ≤ (k : Int) * unitsPerOne := by
    have hcast : (u : Int) ≤ k * unitsPerOne := by exact_mod_cast hu
    cases s <;> simp only [signedUnits] <;> omega
  have hquotient := Int.ediv_le_of_le_mul (Int.natCast_pos.2 unitsPerOne_pos) hunits
  rw [← Int.fdiv_eq_ediv_of_nonneg _ (Int.natCast_nonneg _)] at hquotient
  omega

/-- An amount that a range with an upper end contains is finite. -/
theorem isFinite_of_contains {range : PriceRange} (h : IsOrdered range) (hmax : range.max.isFinite = true)
    {x : Binary64} (hx : range.contains x = true) : x.isFinite = true := by
  obtain ⟨u, v, hu, hv, -, -⟩ := h.exists_units hmax
  simp only [PriceRange.contains, hu, hv, Bool.and_eq_true] at hx
  cases x with
  | nan => simp at hx
  | infinite s => cases s <;> simp [Binary64.le] at hx
  | finite s w => rfl

theorem proximity_le {range : PriceRange} (h : IsOrdered range) {weight : Nat} (hweight : weight ≤ 800)
    {x : Binary64} (hx : range.contains x = true) {points : Nat} (hpoints : proximity range weight x = .ok points) :
    points ≤ 40000 := by
  rcases h.max with hmax | ⟨v, hmax, -⟩
  · rw [proximity_of_infinite h hmax] at hpoints
    cases hpoints
  · have hfinite : range.max.isFinite = true := by rw [hmax]; rfl
    have hshare := bounded_one.add (bounded_distance h hfinite (isFinite_of_contains h hfinite hx)).neg (by decide)
    have hproduct := (bounded_ofNat weight (by omega)).mul hshare (by omega)
    have hsum := hproduct.add bounded_half (by omega)
    rw [proximity, sub, roundHalfUp] at hpoints
    split at hpoints
    case h_1 n hfloor =>
      cases hpoints
      have hle := toNat_floor_le hsum hfloor
      omega
    case h_2 => cases hpoints

theorem rangeScore_le {range : PriceRange} (h : IsOrdered range) {vs : List (AmountKind × Binary64)} {points : Nat}
    (hpoints : rangeScore range vs = .ok points) : points ≤ 40000 * vs.length := by
  induction vs generalizing points with
  | nil =>
    cases hpoints
    exact Nat.zero_le _
  | cons v rest ih =>
    obtain ⟨kind, x⟩ := v
    rw [rangeScore] at hpoints
    rw [List.length_cons]
    split at hpoints
    case isTrue hx =>
      obtain ⟨first, hfirst, hpoints⟩ := bind_eq_ok.1 hpoints
      obtain ⟨more, hmore, hpoints⟩ := bind_eq_ok.1 hpoints
      cases hpoints
      have hle := proximity_le h (rangePoints_le kind) hx hfirst
      have hrest := ih hmore
      omega
    case isFalse =>
      have hrest := ih hpoints
      omega

theorem sumPoints_map_le {α : Type} {g : α → Nat} {k : Nat} (items : List α) (h : ∀ a ∈ items, g a ≤ k) :
    sumPoints (items.map g) ≤ items.length * k := by
  induction items with
  | nil => exact Nat.zero_le _
  | cons a rest ih =>
    obtain ⟨ha, hrest⟩ := List.forall_mem_cons.1 h
    rw [List.map_cons, sumPoints, List.length_cons, Nat.succ_mul, Nat.add_comm]
    exact Nat.add_le_add (ih hrest) ha

theorem visibleScore_le (f : Financial) (t : MoneyTokens) : visibleScore f t ≤ 4500 := by
  have hkinds (p : AmountKind → Bool) : sumPoints ((AmountKind.all.filter p).map AmountKind.visiblePoints) ≤ 1500 := by
    have hlength : (AmountKind.all.filter p).length ≤ 3 := List.length_filter_le _ _
    have hsum := sumPoints_map_le (AmountKind.all.filter p) (g := AmountKind.visiblePoints) (k := 500)
      (by rintro (_ | _ | _) - <;> decide)
    omega
  unfold visibleScore
  dsimp only
  split
  · exact Nat.zero_le _
  · change _ ≤ 2000 + 1500 + 1000
    refine Nat.add_le_add (Nat.add_le_add_left (hkinds _) 2000) ?_
    split <;> decide

theorem tierScore_le (amount : Binary64) (v : AmountKind × Binary64) : tierScore amount v ≤ 1000 := by
  have hpoints : ∀ kind : AmountKind, kind.tierPoints.1 ≤ 1000 ∧ kind.tierPoints.2.1 ≤ 1000 ∧
      kind.tierPoints.2.2 ≤ 1000 := by
    rintro (_ | _ | _) <;> decide
  obtain ⟨hequal, hclose, hnear⟩ := hpoints v.1
  unfold tierScore
  split
  · exact hequal
  · split
    · exact hclose
    · split
      · exact hnear
      · exact Nat.zero_le _

theorem admittedScore_le (token : Text) (v : AmountKind × Binary64) : admittedScore token v ≤ 750 := by
  unfold admittedScore
  split
  · cases v.1 <;> decide
  · exact Nat.zero_le _

theorem amountScore_le (f : Financial) (t : MoneyTokens) :
    amountScore f t ≤ t.amounts.length * ((amounts f).length * 1750) := by
  have htiers := sumPoints_map_le t.amounts fun a _ =>
    sumPoints_map_le (amounts f) fun v _ => tierScore_le a.2 v
  have hadmitted := sumPoints_map_le t.amounts fun a _ =>
    sumPoints_map_le (amounts f) fun v _ => admittedScore_le a.1 v
  have hsplit : t.amounts.length * ((amounts f).length * 1750) =
      t.amounts.length * ((amounts f).length * 1000) + t.amounts.length * ((amounts f).length * 750) := by
    rw [← Nat.mul_add, ← Nat.mul_add]
  rw [hsplit]
  exact Nat.add_le_add htiers hadmitted

theorem wordsFound_le (ws : List Text) (text : Text) : wordsFound ws text ≤ ws.length := List.countP_le_length

theorem moneyWordScore_le (r : Record) (f : Financial) (ws : List Text) :
    moneyWordScore r f ws ≤ f.lineItems.length * (50 * ws.length) + 15 * ws.length := by
  have hlines := sumPoints_map_le f.lineItems fun item _ =>
    Nat.mul_le_mul_left 50 (wordsFound_le ws (moneyText item))
  have htitle := wordsFound_le ws (Text.lower r.title)
  have hsummary := wordsFound_le ws (Text.lower r.summary)
  unfold moneyWordScore
  split <;> split <;> omega

theorem textScore_le {query : Text} {points : Nat} (hpoints : textScore r query = .ok points) :
    points ≤ 175 + 35 * query.length := by
  have htokens := Query.length_tokens_le query
  unfold textScore at hpoints
  split at hpoints
  · cases hpoints
    exact Nat.zero_le _
  · obtain ⟨hay, -, hpoints⟩ := map_eq_ok.1 hpoints
    have htitle := wordsFound_le (Query.tokens query) (Text.lower r.title)
    have hsummary := wordsFound_le (Query.tokens query) (Text.lower r.summary)
    have hall := wordsFound_le (Query.tokens query) hay
    split at hpoints <;> split at hpoints <;> omega

theorem length_amounts (f : Financial) : (amounts f).length = 2 * f.lineItems.length + 1 := by
  simp [amounts, List.length_flatMap, Nat.mul_comm]

/-- A bound of the score of a text of a length for a record of some lines. -/
def scoreBound (length lines : Nat) : Nat := 80000 * ((length + 1) * (lines + 1))

theorem scoreBound_mono {length length' : Nat} (h : length ≤ length') (lines : Nat) :
    scoreBound length lines ≤ scoreBound length' lines :=
  Nat.mul_le_mul_left _ (Nat.mul_le_mul_right _ (Nat.succ_le_succ h))

theorem pointsInRange_le {text : Text} {points : Nat} (hpoints : pointsInRange f (moneyTokens text) = .ok points) :
    points ≤ 40000 * (amounts f).length := by
  rw [pointsInRange] at hpoints
  split at hpoints
  case h_1 range hread =>
    exact rangeScore_le (isOrdered_of_range? ((Query.range_moneyTokens text).symm.trans hread)) hpoints
  case h_2 =>
    cases hpoints
    exact Nat.zero_le _

theorem moneyScore_le {explicit : Bool} {text : Text} {points : Nat} (hpoints : moneyScore explicit r text = .ok points) :
    points ≤ 44500 + 80000 * r.lineCount + 1765 * text.length + 3550 * (text.length * r.lineCount) := by
  cases hf : r.financial? with
  | none =>
    cases (moneyScore_of_none hf explicit text).symm.trans hpoints
    exact Nat.zero_le _
  | some f =>
    rw [moneyScore_eq_map hf] at hpoints
    split at hpoints
    · cases hpoints
      exact Nat.zero_le _
    obtain ⟨inRange, hinRange, rfl⟩ := map_eq_ok.1 hpoints
    have hrange := pointsInRange_le hinRange
    have hlines : r.lineCount = f.lineItems.length := by simp [Record.lineCount, hf]
    obtain ⟨hamounts, hwords⟩ := Query.length_moneyTokens_le text
    have hvisible := visibleScore_le f (moneyTokens text)
    have hscore : amountScore f (moneyTokens text) ≤ text.length * ((amounts f).length * 1750) :=
      Nat.le_trans (amountScore_le f _) (Nat.mul_le_mul_right _ hamounts)
    have hfound : (if explicit then 0 else moneyWordScore r f (moneyTokens text).words) ≤
        f.lineItems.length * (50 * text.length) + 15 * text.length := by
      split
      · exact Nat.zero_le _
      · exact Nat.le_trans (moneyWordScore_le r f _) (Nat.add_le_add
          (Nat.mul_le_mul_left _ (Nat.mul_le_mul_left 50 hwords)) (Nat.mul_le_mul_left 15 hwords))
    rw [length_amounts] at hrange hscore
    rw [hlines]
    calc visibleScore f (moneyTokens text) + inRange + amountScore f (moneyTokens text) +
          (if explicit then 0 else moneyWordScore r f (moneyTokens text).words)
        ≤ 4500 + 40000 * (2 * f.lineItems.length + 1) + text.length * ((2 * f.lineItems.length + 1) * 1750) +
          (f.lineItems.length * (50 * text.length) + 15 * text.length) :=
          Nat.add_le_add (Nat.add_le_add (Nat.add_le_add hvisible hrange) hscore) hfound
      _ = 44500 + 80000 * f.lineItems.length + 1765 * text.length + 3550 * (text.length * f.lineItems.length) := by ring

theorem leafScore_le {leaf : Text} {points : Nat} (hpoints : leafScore r leaf = .ok points) :
    points ≤ scoreBound leaf.length r.lineCount := by
  have hbound : scoreBound leaf.length r.lineCount =
      80000 + 80000 * r.lineCount + 80000 * leaf.length + 80000 * (leaf.length * r.lineCount) := by
    unfold scoreBound
    ring
  unfold leafScore at hpoints
  split at hpoints
  case isTrue hexplicit =>
    have hlength := Query.length_moneyQuery_le leaf
    have hproduct := Nat.mul_le_mul_right r.lineCount hlength
    have hmoney := moneyScore_le hpoints
    omega
  case isFalse =>
    obtain ⟨text, htext, hpoints⟩ := bind_eq_ok.1 hpoints
    have hwords := textScore_le htext
    split at hpoints
    · obtain ⟨more, hmore, hpoints⟩ := bind_eq_ok.1 hpoints
      cases hpoints
      have hmoney := moneyScore_le hmore
      omega
    · cases hpoints
      omega

theorem treeScore_le {tree : Query.Tree} {k : Nat} (hk : negationPoints ≤ k)
    (hleaves : ∀ leaf ∈ tree.leaves, ∀ points, leafScore r leaf = .ok points → points ≤ k) {points : Nat}
    (hpoints : treeScore r tree = .ok points) : points ≤ k := by
  induction tree generalizing points with
  | leaf text => exact hleaves text List.mem_cons_self points hpoints
  | node op left right ihl ihr =>
    obtain ⟨hl, hr⟩ := List.forall_mem_append.1 hleaves
    cases op with
    | both =>
      obtain ⟨m, hm, hpoints⟩ := bind_eq_ok.1 hpoints
      obtain ⟨n, hn, hpoints⟩ := bind_eq_ok.1 hpoints
      cases hpoints
      exact Nat.le_trans (Nat.min_le_left m n) (ihl hl hm)
    | either =>
      obtain ⟨m, hm, hpoints⟩ := bind_eq_ok.1 hpoints
      obtain ⟨n, hn, hpoints⟩ := bind_eq_ok.1 hpoints
      cases hpoints
      exact Nat.max_le.2 ⟨ihl hl hm, ihr hr hn⟩
    | without =>
      obtain ⟨m, hm, hpoints⟩ := bind_eq_ok.1 hpoints
      obtain ⟨b, -, hpoints⟩ := bind_eq_ok.1 hpoints
      cases b <;> cases hpoints
      · exact ihl hl hm
      · exact Nat.zero_le _
  | negation operand ih =>
    obtain ⟨m, -, hpoints⟩ := bind_eq_ok.1 hpoints
    cases hpoints
    split
    · exact hk
    · exact Nat.zero_le _

/-- The lengths of the query and of the list of lines bound a score. -/
theorem score_le {query : Text} {points : Nat} (hpoints : score r query = .ok points) :
    points ≤ scoreBound query.length r.lineCount := by
  refine treeScore_le ?_ (fun leaf hleaf points hleafPoints => ?_) hpoints
  · have hpos : 1 ≤ (query.length + 1) * (r.lineCount + 1) := Nat.mul_pos (Nat.succ_pos _) (Nat.succ_pos _)
    unfold negationPoints scoreBound
    omega
  · exact Nat.le_trans (leafScore_le hleafPoints)
      (scoreBound_mono (Query.length_le_of_mem_leaves leaf hleaf) r.lineCount)

/-- The greatest length of a text or a list in memory. -/
def memoryLimit : Nat := Nat.pow 2 63

/-- The score of a query and a record that fit into memory is a finite number. -/
theorem isFinite_score {query : Text} {points : Nat} (hpoints : score r query = .ok points)
    (hquery : query.length < memoryLimit) (hlines : r.lineCount < memoryLimit) : (ofNat points).isFinite = true := by
  have hlarge : scoreBound memoryLimit memoryLimit < overflowBound := by decide +kernel
  have hbound : points ≤ scoreBound memoryLimit memoryLimit :=
    Nat.le_trans (score_le hpoints) (Nat.mul_le_mul_left _
      (Nat.mul_le_mul (Nat.succ_le_succ (Nat.le_of_lt hquery)) (Nat.succ_le_succ (Nat.le_of_lt hlines))))
  exact (isFinite_ofRatio_iff false points).2 (Nat.not_le.2 (Nat.lt_of_le_of_lt hbound hlarge))

end Search
end LedgerSearch

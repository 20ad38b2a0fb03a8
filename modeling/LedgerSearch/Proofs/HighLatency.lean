import LedgerSearch.Proofs.RoundedShares
import LedgerSearch.Proofs.StableOrder
import LedgerSearch.Proofs.TraceSummaries

/-!
# The high latency

An item of a list in order has at most some number of items below it, so the position of an item tells how many are no
greater than a bound (`lt_countP_iff`). With 95 of 100 latencies in question this leads to a position where the fraction
of the share counts (`duePosition`). The high latency of a summary stands at one where it is dropped, which is the same
only if there is no fraction, or one search only (`highPosition_eq_if`).
-/

namespace LedgerSearch

namespace Host.TraceStore

open Binary64 (unitsPerOne maxUnits roundUnits share)

theorem highPosition_eq {n units : Nat} (hmax : units ≤ maxUnits)
    (h : Binary64.mul (Binary64.ofNat n) (Binary64.ofRatio false 95 100) = .finite false units) :
    highPosition n = roundUnits (units - unitsPerOne) 1 / unitsPerOne := by
  rw [highPosition, h, Binary64.toNat_floor_sub_one hmax]

/-- The position is one before nineteen twentieths of the number of traces. -/
theorem highPosition_of_lt {n : Nat} (hpos : 0 < n) (hless : n < 2 ^ 48) : highPosition n = 19 * n / 20 - 1 := by
  have hwithin := Binary64.within_share hpos hless
  have hmul := Binary64.mul_share (Nat.lt_trans hless (by decide))
  have hm : 19 * n / 20 < 2 ^ 48 := by omega
  have hmax := hwithin.le_maxUnits hm
  rw [Binary64.ofUnits_of_le false hmax] at hmul
  rw [highPosition_eq hmax hmul]
  generalize 19 * n / 20 = m at *
  cases m with
  | zero =>
    have hnone : roundUnits (n * share) 1 - unitsPerOne = 0 := by
      have hhigh := hwithin.high
      omega
    rw [hnone]
    exact Nat.div_eq_of_lt Binary64.unitsPerOne_pos
  | succ k => exact (hwithin.sub_one.roundUnits (by omega)).div_eq

/-- No position is beyond the traces. -/
theorem highPosition_lt {n : Nat} (hpos : 0 < n) : highPosition n < n := by
  cases h : Binary64.mul (Binary64.ofNat n) (Binary64.ofRatio false 95 100) with
  | nan =>
    rw [highPosition, h]
    exact hpos
  | infinite s =>
    rw [highPosition, h, Binary64.sub, Binary64.one_eq]
    exact hpos
  | finite s units =>
    obtain ⟨rfl, hmax, hless⟩ := Binary64.mul_share_lt hpos h
    have hnear := Binary64.roundUnits_relative (units - unitsPerOne) Nat.one_pos (.inl rfl)
    rw [Nat.mul_one] at hnear
    rw [highPosition_eq hmax h, Nat.div_lt_iff_lt_mul Binary64.unitsPerOne_pos]
    omega

end Host.TraceStore

namespace Sorting

variable {α : Type} {le : α → α → Bool} {items : List α}

/-- In order, more items than stand before one are no greater than a bound exactly if that one is not. -/
theorem lt_countP_iff (hself : ∀ a ∈ items, le a a = true) (htrans : ∀ {a b c}, le a b = true → le b c = true → le a c = true)
    (h : items.Pairwise fun a b => le a b = true) {k : Nat} {a : α} (ha : items[k]? = some a) (bound : α) :
    (k < items.countP fun b => le b bound) ↔ le a bound = true := by
  obtain ⟨hk, rfl⟩ := List.getElem?_eq_some_iff.1 ha
  have hordered : ∀ {i j : Nat} (hi : i < items.length) (hj : j < items.length), i ≤ j → le items[i] items[j] = true := by
    intro i j hi hj hij
    rcases Nat.lt_or_eq_of_le hij with hless | rfl
    · exact List.pairwise_iff_getElem.1 h i j hi hj hless
    · exact hself _ (List.getElem_mem hi)
  constructor
  · -- one that is greater has no item behind it that is not
    intro hcount
    refine Decidable.byContradiction fun hgreater => ?_
    have hnone : ∀ b ∈ items.drop k, ¬le b bound = true := by
      intro b hb hle
      obtain ⟨i, hi, rfl⟩ := List.mem_drop_iff_getElem.1 hb
      exact hgreater (htrans (hordered hk (by omega) (by omega)) hle)
    have htake : (items.take k).countP (fun b => le b bound) ≤ k :=
      Nat.le_trans List.countP_le_length (by rw [List.length_take]; exact Nat.min_le_left _ _)
    rw [← List.take_append_drop k items, List.countP_append, List.countP_eq_zero.2 hnone] at hcount
    omega
  · intro hle
    have hall : ∀ b ∈ items.take (k + 1), le b bound = true := by
      intro b hb
      obtain ⟨i, hi, rfl⟩ := List.mem_take_iff_getElem.1 hb
      exact htrans (hordered (by omega) hk (by omega)) hle
    calc k < (items.take (k + 1)).length := by rw [List.length_take]; omega
      _ = (items.take (k + 1)).countP fun b => le b bound := (List.countP_eq_length.2 hall).symm
      _ ≤ items.countP fun b => le b bound := (List.take_sublist _ _).countP_le

end Sorting

namespace Binary64

theorem not_lt_eq_le {x y : Binary64} (hx : x.isNumber = true) (hy : y.isNumber = true) : (!lt y x) = le x y := by
  have htotal := le_total hx hy
  unfold lt
  cases hxy : le x y with
  | true => simp
  | false => simp [htotal.resolve_left (by simp [hxy])]

/-- Numbers are sorted into their order. -/
theorem pairwise_sortBy {xs : List Binary64} (h : ∀ x ∈ xs, x.isNumber = true) :
    (Sorting.sortBy isNumber lt xs).Pairwise fun x y => le x y = true := by
  have hsorted : (Sorting.sort (fun x y => !lt y x) xs).Pairwise fun x y => (!lt y x) = true := by
    refine Sorting.pairwise_sort (p := fun x => x.isNumber = true) (fun x y hx hy => ?_) (fun x y z hx hy hz => ?_) h
    · rw [not_lt_eq_le hx hy, not_lt_eq_le hy hx]
      exact le_total hx hy
    · rw [not_lt_eq_le hx hy, not_lt_eq_le hy hz, not_lt_eq_le hx hz]
      exact le_trans
  rw [Sorting.sortBy_eq_sort (List.all_eq_true.2 h)]
  refine hsorted.imp_of_mem fun hx hy hxy => ?_
  rwa [not_lt_eq_le (h _ (Sorting.mem_sort.1 hx)) (h _ (Sorting.mem_sort.1 hy))] at hxy

end Binary64

namespace Host.TraceStore

variable {s : TraceStore}

def sortedLatencies (s : TraceStore) : List Binary64 :=
  Sorting.sortBy Binary64.isNumber Binary64.lt (s.toList.map Trace.latency)

/-- How many traces took no longer than the high latency. -/
def covered (s : TraceStore) : Nat := s.toList.countP fun t => t.latency.le s.summary.highLatency

/-- All measured times are numbers. -/
def IsTimed (s : TraceStore) : Prop := ∀ t ∈ s.toList, t.latency.isNumber = true

theorem sortedLatencies_perm (s : TraceStore) : s.sortedLatencies.Perm (s.toList.map Trace.latency) := Sorting.sortBy_perm _ _ _

/-- The high latency stands at its position in order. -/
theorem sortedLatencies_highPosition (h : s.toList ≠ []) :
    s.sortedLatencies[highPosition s.toList.length]? = some s.summary.highLatency := by
  have hlength : highPosition s.toList.length < s.sortedLatencies.length := by
    rw [s.sortedLatencies_perm.length_eq, List.length_map]
    exact highPosition_lt (List.length_pos_iff.2 h)
  have hhigh : s.summary.highLatency = s.sortedLatencies.getD (highPosition s.toList.length) Binary64.zero := by
    unfold summary
    dsimp only
    rw [if_neg (by rwa [List.isEmpty_iff])]
    rfl
  rw [hhigh, List.getD_eq_getElem?_getD, List.getElem?_eq_getElem hlength, Option.getD_some]

theorem mem_latencies_highLatency (h : s.toList ≠ []) : s.summary.highLatency ∈ s.toList.map Trace.latency :=
  s.sortedLatencies_perm.mem_iff.1 (List.mem_of_getElem? (sortedLatencies_highPosition h))

theorem covered_eq_countP (s : TraceStore) : s.covered = s.sortedLatencies.countP fun x => x.le s.summary.highLatency := by
  rw [s.sortedLatencies_perm.countP_eq, List.countP_map]
  rfl

/-- The first position among some items up to which 95 of 100 stand. -/
def duePosition (n : Nat) : Nat := (19 * n - 1) / 20

/-- The fraction is dropped one position too early, if there is one. -/
theorem highPosition_eq_if {n : Nat} (hpos : 0 < n) (hless : n < 2 ^ 48) :
    highPosition n = if n = 1 ∨ 20 ∣ n then duePosition n else duePosition n - 1 := by
  rw [highPosition_of_lt hpos hless, duePosition]
  split
  case isTrue => omega
  case isFalse h =>
    have hfraction : 19 * n % 20 ≠ 0 := by omega
    omega

/-- The high latency covers 95 of 100 searches exactly if it is no less than the latency at the due position. -/
theorem covers_iff (h : s.toList ≠ []) (htimed : s.IsTimed) : 95 * s.toList.length ≤ 100 * s.covered ↔
    ∃ x, s.sortedLatencies[duePosition s.toList.length]? = some x ∧ x.le s.summary.highLatency = true := by
  have hnumbers : ∀ x ∈ s.toList.map Trace.latency, x.isNumber = true := List.forall_mem_map.2 htimed
  have hself : ∀ x ∈ s.sortedLatencies, x.le x = true := fun x hx => by
    have hx := hnumbers x (s.sortedLatencies_perm.mem_iff.1 hx)
    exact or_self_iff.1 (Binary64.le_total hx hx)
  have hpos := List.length_pos_iff.2 h
  have hdue : duePosition s.toList.length < s.sortedLatencies.length := by
    rw [s.sortedLatencies_perm.length_eq, List.length_map, duePosition]
    omega
  have hrank := Sorting.lt_countP_iff hself Binary64.le_trans (Binary64.pairwise_sortBy hnumbers)
    (List.getElem?_eq_getElem hdue) s.summary.highLatency
  rw [List.getElem?_eq_getElem hdue]
  simp only [Option.some.injEq, exists_eq_left']
  rw [← hrank, ← covered_eq_countP, duePosition]
  omega

/-- The high latency of a store is one of its latencies. It covers 95 of 100 searches exactly if it is no less than the
latency at the due position, and it stands there itself if there is one search or if the searches are a multiple of twenty,
but one position earlier otherwise. -/
theorem highLatency_covers {s : TraceStore} (h : s.toList ≠ []) :
    s.summary.highLatency ∈ s.toList.map Trace.latency ∧
    s.sortedLatencies[highPosition s.toList.length]? = some s.summary.highLatency ∧
    (s.IsTimed → (95 * s.toList.length ≤ 100 * s.covered ↔
      ∃ x, s.sortedLatencies[duePosition s.toList.length]? = some x ∧ x.le s.summary.highLatency = true)) ∧
    (s.toList.length < 2 ^ 48 → highPosition s.toList.length =
      if s.toList.length = 1 ∨ 20 ∣ s.toList.length then duePosition s.toList.length else duePosition s.toList.length - 1) :=
  ⟨mem_latencies_highLatency h, sortedLatencies_highPosition h, covers_iff h, highPosition_eq_if (List.length_pos_iff.2 h)⟩

/-- A search that took a millisecond and one that took two. -/
def twoSearches : List Trace :=
  [⟨"1".toText, "door".toText, 2, false, false, Binary64.one⟩, ⟨"2".toText, "frame".toText, 2, false, false, Binary64.ofNat 2⟩]

/-- Of two searches the faster one has the high latency, which does not cover the other one. -/
theorem covered_twoSearches : ((empty 2).createAll twoSearches).IsTimed ∧
    ((empty 2).createAll twoSearches).toList.length = 2 ∧
    ((empty 2).createAll twoSearches).summary.highLatency = Binary64.one ∧
    ¬95 * ((empty 2).createAll twoSearches).toList.length ≤ 100 * ((empty 2).createAll twoSearches).covered := by
  unfold IsTimed
  decide +kernel

/-- Two searches that took the same time are both covered. -/
theorem highLatency_covers_sampleTraces : ((empty 2).createAll sampleTraces).toList ≠ [] ∧
    ((empty 2).createAll sampleTraces).IsTimed ∧ ((empty 2).createAll sampleTraces).toList.length = 2 ∧
    highPosition 2 = duePosition 2 - 1 ∧ 95 * 2 ≤ 100 * ((empty 2).createAll sampleTraces).covered := by
  have hlength : ((empty 2).createAll sampleTraces).toList.length = 2 := by decide
  have hsome : ((empty 2).createAll sampleTraces).toList ≠ [] := List.length_pos_iff.1 (by rw [hlength]; decide)
  have htimed : ((empty 2).createAll sampleTraces).IsTimed := by
    unfold IsTimed
    decide +kernel
  obtain ⟨-, -, hcovers, hposition⟩ := highLatency_covers hsome
  have hcovers := hcovers htimed
  rw [hlength] at hcovers hposition
  exact ⟨hsome, htimed, hlength, hposition (by decide), hcovers.2 ⟨Binary64.one, by decide +kernel, by decide +kernel⟩⟩

end Host.TraceStore
end LedgerSearch

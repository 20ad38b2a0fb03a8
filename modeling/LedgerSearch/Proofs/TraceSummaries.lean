import LedgerSearch.Proofs.RoundedCounts
import LedgerSearch.Proofs.TraceRetention

/-!
# What a store of traces answers

A store that was filled by creations holds the newest traces, and all its answers speak of these: a lookup finds them
and no others, and the summary counts them. There is a summary unless the mean of the totals lies beyond all numbers
(`summary?_eq_none_iff`).
-/

namespace LedgerSearch

namespace Binary64

/-- A count that is rounded past the numbers below a power of two is rounded to that power at least. -/
theorem IsRounded.pow_le {units e : Nat} (h : IsRounded units) (hlt : (2 ^ 53 - 1) * 2 ^ e < units) :
    2 ^ (53 + e) ≤ units := by
  refine Nat.not_lt.1 fun hless => ?_
  have hgap := gapExponent_le_iff.2 hless
  obtain ⟨q, hq, hsmall, -⟩ := h.exists_multiple
  have hle : units ≤ (2 ^ 53 - 1) * 2 ^ e := by
    calc units = q * 2 ^ gapExponent units := hq
      _ ≤ (2 ^ 53 - 1) * 2 ^ e := Nat.mul_le_mul (by omega) (Nat.pow_le_pow_right (by decide) hgap)
  omega

/-- A quotient is rounded past the numbers below a power of two from the middle of the last gap on. -/
theorem lt_roundUnits_div_iff {num den e : Nat} (hden : 0 < den) :
    (2 ^ 53 - 1) * 2 ^ (e + 1) < roundUnits num den ↔ ((2 ^ 53 - 1) * 2 ^ (e + 1) + 2 ^ e) * den ≤ num := by
  constructor
  · intro h
    have hhalf : 2 ^ (e + 1) = 2 * 2 ^ e := Nat.pow_succ'
    have hunits : 2 ^ (53 + (e + 1)) * den = 2 ^ 54 * (2 ^ e * den) := by
      rw [← Nat.mul_assoc, ← Nat.pow_add]
      congr 2
      omega
    have hbound : ((2 ^ 53 - 1) * 2 ^ (e + 1) + 2 ^ e) * den = (2 ^ 54 - 1) * (2 ^ e * den) := by
      rw [hhalf, Nat.add_mul, Nat.mul_assoc, Nat.mul_assoc 2]
      omega
    rw [hbound]
    -- below the power the gap bounds how far a quotient is moved, and from the power on there is room to spare
    rcases Nat.lt_or_ge (num / den) (2 ^ (53 + (e + 1))) with hless | hge
    · have hround := Nat.mul_le_mul_right den ((isRounded_roundUnits num hden).pow_le h)
      have hclose := (roundUnits_close num hden).1
      have hgap : den * 2 ^ gapExponent (num / den) ≤ 2 * (2 ^ e * den) := by
        calc den * 2 ^ gapExponent (num / den) ≤ den * 2 ^ (e + 1) :=
              Nat.mul_le_mul_left den (Nat.pow_le_pow_right (by decide) (gapExponent_le_iff.2 hless))
          _ = 2 * (2 ^ e * den) := by rw [hhalf, Nat.mul_comm, Nat.mul_assoc]
      omega
    · have hpow := (Nat.le_div_iff_mul_le hden).1 hge
      omega
  · intro h
    exact Nat.lt_of_lt_of_le (lt_roundUnits_iff.2 ((Nat.le_div_iff_mul_le hden).2 h)) (roundUnits_floor_le num hden)

/-- A quotient has a finite number next to it below the least integer that has none. -/
theorem isFinite_ofRatio_div_iff (negative : Bool) {num den : Nat} (hden : 0 < den) :
    (ofRatio negative num den).isFinite = true ↔ num < overflowBound * den := by
  have hunits : maxUnits < roundUnits (num * unitsPerOne) den ↔ overflowBound * den ≤ num := by
    have hbound : (maxUnits + Nat.pow 2 2044) * den ≤ num * unitsPerOne ↔ overflowBound * den ≤ num := by
      rw [← overflowBound_units, Nat.mul_right_comm]
      exact Nat.mul_le_mul_right_iff unitsPerOne_pos
    rw [← hbound]
    -- with a variable for the exponent nothing computes the power
    have hsucc : 2045 = 2044 + 1 := rfl
    unfold maxUnits
    rw [hsucc]
    generalize 2044 = e
    exact lt_roundUnits_div_iff hden
  rw [← Nat.not_le, ← hunits, ofRatio, ofUnits]
  split
  · rename_i h
    exact iff_of_false Bool.false_ne_true (not_not_intro h)
  · rename_i h
    exact iff_of_true rfl h

end Binary64

namespace Host.TraceStore

open Binary64 (overflowBound)

variable {s : TraceStore} {ts : List Trace}

/-- The counts of a summary are those over the kept traces. -/
theorem summary_counts (s : TraceStore) : s.summary.total = s.toList.length ∧
    s.summary.monetary = s.toList.countP Trace.isMonetary ∧ s.summary.compound = s.toList.countP Trace.isCompound := by
  unfold summary
  dsimp only
  split
  case isTrue hnone =>
    rw [List.isEmpty_iff.1 hnone]
    exact ⟨rfl, rfl, rfl⟩
  case isFalse => exact ⟨rfl, rfl, rfl⟩

/-- The totals of some traces, added up. -/
def sumOfTotals (ts : List Trace) : Int := ts.foldl (fun n t => n + t.total) 0

/-- There is a summary unless the mean of the totals is beyond all numbers. -/
theorem summary?_eq_none_iff : s.summary? = none ↔
    s.toList ≠ [] ∧ overflowBound * s.toList.length ≤ (sumOfTotals s.toList).natAbs := by
  have hmean : s.summary.meanTotal.isFinite = true ↔
      s.toList = [] ∨ (sumOfTotals s.toList).natAbs < overflowBound * s.toList.length := by
    unfold summary
    dsimp only
    split
    case isTrue hnone => exact iff_of_true rfl (.inl (List.isEmpty_iff.1 hnone))
    case isFalse hsome =>
      rw [List.isEmpty_iff] at hsome
      dsimp only
      rw [← sumOfTotals, or_iff_right hsome]
      exact Binary64.isFinite_ofRatio_div_iff _ (List.length_pos_iff.2 hsome)
  have hnone : s.summary? = none ↔ ¬s.summary.meanTotal.isFinite = true := by
    unfold summary?
    split
    case isTrue h => exact iff_of_false (Option.some_ne_none _) (not_not_intro h)
    case isFalse h => exact iff_of_true rfl h
  rw [hnone, hmean, not_or, Nat.not_lt]

theorem eq_summary {summary : TraceSummary} (h : s.summary? = some summary) : summary = s.summary := by
  unfold summary? at h
  split at h
  · exact (Option.some.inj h).symm
  · cases h

theorem traces_createAll_empty (limit : Nat) (hdistinct : (ts.map Trace.id).Nodup) :
    ((empty limit).createAll ts).traces = (newest limit ts).map fun t => (t.id, t) := by
  have hheld : (empty limit).toList.length ≤ (empty limit).limit.toNat := Nat.zero_le _
  rw [traces_createAll hheld hdistinct, map_newest]
  rfl

theorem toList_createAll_empty (limit : Nat) (hdistinct : (ts.map Trace.id).Nodup) :
    ((empty limit).createAll ts).toList = newest limit ts :=
  toList_createAll (s := empty limit) (Nat.zero_le _) hdistinct

theorem keys_createAll_empty (limit : Nat) (hdistinct : (ts.map Trace.id).Nodup) :
    Entries.keys ((empty limit).createAll ts).traces = (newest limit ts).map Trace.id := by
  rw [traces_createAll_empty limit hdistinct, Entries.keys, List.map_map]
  rfl

theorem get?_createAll_of_mem {limit : Nat} {t : Trace} (hdistinct : (ts.map Trace.id).Nodup) (h : t ∈ newest limit ts) :
    ((empty limit).createAll ts).get? t.id = some t := by
  apply Entries.find?_of_mem
  · rw [keys_createAll_empty limit hdistinct]
    exact hdistinct.sublist ((newest_sublist limit ts).map Trace.id)
  · rw [traces_createAll_empty limit hdistinct]
    exact List.mem_map_of_mem h

theorem get?_createAll_eq_none_iff (limit : Nat) (hdistinct : (ts.map Trace.id).Nodup) (id : Text) :
    ((empty limit).createAll ts).get? id = none ↔ id ∉ (newest limit ts).map Trace.id := by
  rw [get?, Entries.find?_eq_none_iff, keys_createAll_empty limit hdistinct]

/-- A store that was filled by creations of traces with different names holds the newest ones up to its limit in order,
finds each of these under its name and nothing under other names, and counts these in its summary, which it has unless
the mean of their totals is beyond all numbers. -/
theorem answers_createAll (limit : Nat) (hdistinct : (ts.map Trace.id).Nodup) :
    ((empty limit).createAll ts).toList = newest limit ts ∧
    (newest limit ts).length = min limit ts.length ∧
    (∀ t ∈ newest limit ts, ((empty limit).createAll ts).get? t.id = some t) ∧
    (∀ id, ((empty limit).createAll ts).get? id = none ↔ id ∉ (newest limit ts).map Trace.id) ∧
    (((empty limit).createAll ts).summary? = none ↔ newest limit ts ≠ [] ∧
      overflowBound * (newest limit ts).length ≤ (sumOfTotals (newest limit ts)).natAbs) ∧
    ∀ summary, ((empty limit).createAll ts).summary? = some summary → summary.total = (newest limit ts).length ∧
      summary.monetary = (newest limit ts).countP Trace.isMonetary ∧
      summary.compound = (newest limit ts).countP Trace.isCompound := by
  have hheld := toList_createAll_empty limit hdistinct
  refine ⟨hheld, length_newest limit ts, fun t => get?_createAll_of_mem hdistinct,
    get?_createAll_eq_none_iff limit hdistinct, ?_, fun summary hsummary => ?_⟩
  · rw [summary?_eq_none_iff, hheld]
  · rw [eq_summary hsummary, ← hheld]
    exact summary_counts _

/-- A trace of a search that found two records. -/
def sampleTrace (id : String) (isMonetary isCompound : Bool) : Trace :=
  ⟨id.toText, "door".toText, 2, isMonetary, isCompound, Binary64.one⟩

/-- Of three traces a store for two gives up the first one. -/
def sampleTraces : List Trace := [sampleTrace "1" true true, sampleTrace "2" true false, sampleTrace "3" false false]

theorem answers_createAll_three : (sampleTraces.map Trace.id).Nodup ∧
    ((empty 2).createAll sampleTraces).toList.map Trace.id = ["2".toText, "3".toText] ∧
    ((empty 2).createAll sampleTraces).get? "1".toText = none ∧
    ∃ summary, ((empty 2).createAll sampleTraces).summary? = some summary ∧
      (summary.total, summary.monetary, summary.compound) = (2, 1, 0) := by
  have hdistinct : (sampleTraces.map Trace.id).Nodup := by decide
  obtain ⟨hlist, -, -, hnone, hsummary, hcounts⟩ := answers_createAll 2 hdistinct
  refine ⟨hdistinct, ?_, (hnone _).2 (by decide), ?_⟩
  · exact (congrArg (List.map Trace.id) hlist).trans rfl
  · obtain ⟨summary, hsome⟩ := Option.ne_none_iff_exists'.1 (mt hsummary.1 (by decide +kernel))
    obtain ⟨htotal, hmonetary, hcompound⟩ := hcounts summary hsome
    refine ⟨summary, hsome, ?_⟩
    rw [htotal, hmonetary, hcompound]
    rfl

end Host.TraceStore
end LedgerSearch

import LedgerSearch.Proofs.TraceSummaries

/-!
# The latest traces

The latest traces are cut off at the negated bound on their number. Against a bound that is not zero the cut counts from
the end and leaves the newest traces. Zero is its own negation and counts from the start, so a bound of zero cuts nothing
off: it is the one bound that is not kept, unless there is no trace at all (`recent_createAll`).
-/

namespace LedgerSearch.Host

theorem newest_newest {α : Type} (m n : Nat) (items : List α) : newest m (newest n items) = newest (min m n) items := by
  rw [newest, length_newest, newest, newest, List.drop_drop]
  congr 1
  omega

namespace TraceStore

variable {s : TraceStore} {ts : List Trace}

theorem position_neg_pos (length : Nat) {n : Nat} (hn : 0 < n) : Text.position length (-(n : Int)) = length - n := by
  unfold Text.position
  split <;> omega

/-- A bound that is not zero leaves the newest traces. -/
theorem recent_of_pos (s : TraceStore) {n : Nat} (hn : 0 < n) : s.recent n = newest n s.toList := by
  rw [recent, Text.cutFrom, position_neg_pos _ hn, newest]

/-- A bound of zero leaves all traces. -/
theorem recent_zero (s : TraceStore) : s.recent 0 = s.toList := by
  rw [recent, Int.neg_zero, Text.cutFrom, ← Int.natCast_zero, Text.position_ofNat, Nat.zero_min, List.drop_zero]

/-- A list of the newest traces is no longer than its bound, and zero newest traces are none. -/
theorem recent_eq_newest_iff {n : Nat} : s.recent n = newest n s.toList ↔ 0 < n ∨ s.toList = [] := by
  rcases Nat.eq_zero_or_pos n with rfl | hn
  · have hnone : newest 0 s.toList = [] := List.drop_length
    rw [Int.natCast_zero, recent_zero, hnone, or_iff_right (Nat.lt_irrefl 0)]
  · exact iff_of_true (recent_of_pos s hn) (.inl hn)

theorem length_recent_le_iff {n : Nat} : (s.recent n).length ≤ n ↔ 0 < n ∨ s.toList = [] := by
  constructor
  · intro h
    rcases Nat.eq_zero_or_pos n with rfl | hn
    · rw [Int.natCast_zero, recent_zero] at h
      exact .inr (List.length_eq_zero_iff.1 (Nat.le_zero.1 h))
    · exact .inl hn
  · intro h
    rw [recent_eq_newest_iff.2 h, length_newest]
    exact Nat.min_le_left _ _

/-- A store that was filled by creations of traces with different names lists the newest ones that it kept, in the order
of their creation: as many as the bound says or all there are, if the bound is not zero. If it is, all are listed, so the
bound is kept exactly if it is not zero or nothing was kept. -/
theorem recent_createAll (capacity : Int) (n : Nat) (hdistinct : (ts.map Trace.id).Nodup) :
    ((empty capacity).createAll ts).toList = newest capacity.toNat ts ∧
    ((empty capacity).createAll ts).recent n =
      (if n = 0 then newest capacity.toNat ts else newest (min n capacity.toNat) ts) ∧
    (((empty capacity).createAll ts).recent n = newest n (newest capacity.toNat ts) ↔
      0 < n ∨ newest capacity.toNat ts = []) ∧
    ((((empty capacity).createAll ts).recent n).length ≤ n ↔ 0 < n ∨ newest capacity.toNat ts = []) := by
  have hkept : ((empty capacity).createAll ts).toList = newest capacity.toNat ts :=
    toList_createAll (s := empty capacity) (Nat.zero_le _) hdistinct
  refine ⟨hkept, ?_, ?_, ?_⟩
  · split
    case isTrue hzero => rw [hzero, Int.natCast_zero, recent_zero, hkept]
    case isFalse hne => rw [recent_of_pos _ (Nat.pos_of_ne_zero hne), hkept, newest_newest]
  · rw [← hkept]
    exact recent_eq_newest_iff
  · rw [← hkept]
    exact length_recent_le_iff

/-- Two traces are kept, and both are listed where none is asked for. -/
theorem recent_zero_all : (sampleTraces.map Trace.id).Nodup ∧
    ¬((empty 2).createAll sampleTraces).recent (0 : Nat) = newest 0 ((empty 2).createAll sampleTraces).toList ∧
    ¬(((empty 2).createAll sampleTraces).recent (0 : Nat)).length ≤ 0 := by
  have hdistinct : (sampleTraces.map Trace.id).Nodup := by decide
  have hkept : ((empty 2).createAll sampleTraces).toList = newest 2 sampleTraces := toList_createAll_empty 2 hdistinct
  have hsome : ¬((0 : Nat) < 0 ∨ ((empty 2).createAll sampleTraces).toList = []) := by
    rw [hkept]
    exact not_or.2 ⟨Nat.lt_irrefl 0, List.cons_ne_nil _ _⟩
  exact ⟨hdistinct, mt recent_eq_newest_iff.1 hsome, mt length_recent_le_iff.1 hsome⟩

/-- Where one trace is asked for, it is the newest of two that were kept. -/
theorem recent_createAll_one : (sampleTraces.map Trace.id).Nodup ∧
    (((empty 2).createAll sampleTraces).recent (1 : Nat)).map Trace.id = ["3".toText] ∧
    (((empty 2).createAll sampleTraces).recent (1 : Nat)).length ≤ 1 := by
  have hdistinct : (sampleTraces.map Trace.id).Nodup := by decide
  obtain ⟨-, hrecent, -, hlength⟩ := recent_createAll 2 1 hdistinct
  exact ⟨hdistinct, (congrArg (List.map Trace.id) hrecent).trans rfl, hlength.2 (.inl Nat.one_pos)⟩

end TraceStore
end LedgerSearch.Host

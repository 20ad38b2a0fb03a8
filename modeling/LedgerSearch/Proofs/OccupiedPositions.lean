import LedgerSearch.Proofs.Spans

/-!
# Occupied positions

An offered span can also be tested against all positions that are occupied, if these are kept beside the accepted spans.
Positions and spans stay in step through all offers (`InStep.claimAll`), so a tracker answers as one that keeps the
positions: it accepts a span exactly if that holds a position and none that is occupied, whatever its bounds are
(`offers_kept_in_step`).
-/

namespace LedgerSearch.Marking

variable {start stop start' stop' : Int} {s a b : Span}

/-- The positions from one up to another: none if that is no greater. -/
def positions (start stop : Int) : List Int := (List.range (stop - start).toNat).map fun (i : Nat) => start + i

theorem mem_positions {p : Int} : p ∈ positions start stop ↔ start ≤ p ∧ p < stop := by
  rw [positions, List.mem_map]
  constructor
  · rintro ⟨i, hi, rfl⟩
    rw [List.mem_range] at hi
    omega
  · intro h
    exact ⟨(p - start).toNat, List.mem_range.2 (by omega), by omega⟩

/-- Ranges meet exactly if they have a position in common. -/
theorem meets_eq_true_iff : meets start stop start' stop' = true ↔ ∃ p ∈ positions start stop, p ∈ positions start' stop' := by
  simp only [meets, decide_eq_true_eq, mem_positions]
  constructor
  · intro h
    exact ⟨max start start', by omega, by omega⟩
  · rintro ⟨p, hp, hp'⟩
    omega

def Span.positions (s : Span) : List Int := Marking.positions s.start s.stop

theorem Span.positions_ne_nil_iff : s.positions ≠ [] ↔ s.start < s.stop := by
  constructor
  · intro h
    obtain ⟨p, hp⟩ := List.exists_mem_of_ne_nil _ h
    have hbounds := mem_positions.1 hp
    omega
  · intro h
    exact List.ne_nil_of_mem (mem_positions.2 ⟨Int.le_refl s.start, h⟩)

/-- No position of one span belongs to the other. -/
def Span.SharesNone (a b : Span) : Prop := ∀ p ∈ a.positions, p ∉ b.positions

theorem Span.sharesNone_iff : a.SharesNone b ↔ meets a.start a.stop b.start b.stop = false := by
  rw [← Bool.not_eq_true, meets_eq_true_iff]
  simp only [SharesNone, Span.positions, not_exists, not_and]

/-- Spans that hold a position are apart exactly if they share none. -/
theorem Span.apart_iff_sharesNone (ha : a.start < a.stop) (hb : b.start < b.stop) : Span.Apart a b ↔ a.SharesNone b := by
  rw [sharesNone_iff, meets, decide_eq_false_iff_not, Span.Apart]
  omega

theorem Tracker.overlaps_eq_true_iff {t : Tracker} : t.overlaps start stop = true ↔
    ∃ a ∈ t.accepted, ∃ p ∈ positions start stop, p ∈ a.positions := by
  simp only [Tracker.overlaps, List.any_eq_true, meets_eq_true_iff, Span.positions]

theorem Tracker.admits_iff_sharesNone {t : Tracker} : t.admits s = true ↔
    s.start < s.stop ∧ ∀ a ∈ t.accepted, s.SharesNone a := by
  rw [Tracker.admits, Bool.and_eq_true, decide_eq_true_eq, Bool.not_eq_true', Tracker.overlaps, List.any_eq_false]
  simp only [Span.sharesNone_iff, Bool.not_eq_true]

/-- The accepted spans and the positions that are occupied by them. -/
structure Occupancy where
  occupied : List Int
  accepted : List Span

namespace Occupancy

def empty : Occupancy := ⟨[], []⟩

/-- Some position of a range is occupied. -/
def overlaps (o : Occupancy) (start stop : Int) : Bool := (positions start stop).any fun p => p ∈ o.occupied

def admits (o : Occupancy) (s : Span) : Bool := s.start < s.stop && !o.overlaps s.start s.stop

/-- An accepted span occupies its positions. -/
def claim (o : Occupancy) (s : Span) : Occupancy :=
  if o.admits s then ⟨o.occupied ++ s.positions, o.accepted ++ [s]⟩ else o

def claimAll (o : Occupancy) (spans : List Span) : Occupancy := spans.foldl claim o

end Occupancy

/-- Both have accepted the same spans, and what is occupied are the positions of these. -/
structure InStep (o : Occupancy) (t : Tracker) : Prop where
  accepted : o.accepted = t.accepted
  mem_occupied : ∀ p, p ∈ o.occupied ↔ ∃ a ∈ t.accepted, p ∈ a.positions

namespace InStep

variable {o : Occupancy} {t : Tracker}

theorem start_empty : InStep Occupancy.empty Tracker.empty :=
  ⟨rfl, fun _ => iff_of_false List.not_mem_nil fun ⟨_, ha, _⟩ => List.not_mem_nil ha⟩

theorem overlaps_eq (h : InStep o t) (start stop : Int) : o.overlaps start stop = t.overlaps start stop := by
  rw [Bool.eq_iff_iff, Tracker.overlaps_eq_true_iff, Occupancy.overlaps, List.any_eq_true]
  simp only [decide_eq_true_eq, h.mem_occupied]
  constructor
  · rintro ⟨p, hp, a, ha, hpa⟩
    exact ⟨a, ha, p, hp, hpa⟩
  · rintro ⟨a, ha, p, hp, hpa⟩
    exact ⟨p, hp, a, ha, hpa⟩

theorem admits_eq (h : InStep o t) (s : Span) : o.admits s = t.admits s := by
  rw [Occupancy.admits, Tracker.admits, h.overlaps_eq]

theorem claim (h : InStep o t) (s : Span) : InStep (o.claim s) (t.claim s) := by
  unfold Occupancy.claim Tracker.claim
  rw [h.admits_eq]
  split
  case isTrue =>
    refine ⟨congrArg (· ++ [s]) h.accepted, fun p => ?_⟩
    rw [List.mem_append, h.mem_occupied]
    simp only [List.mem_append, List.mem_singleton, or_and_right, exists_or, exists_eq_left]
  case isFalse => exact h

/-- Positions and spans stay in step, however many spans are offered. -/
theorem claimAll (h : InStep o t) (offers : List Span) : InStep (o.claimAll offers) (t.claimAll offers) := by
  induction offers generalizing o t with
  | nil => exact h
  | cons s rest ih => exact ih (h.claim s)

end InStep

/-- After any offers a further one is accepted exactly if it holds a position and none that an accepted span holds; it
changes nothing otherwise. The accepted spans hold a position each and none twice, the occupied positions are theirs, a
range overlaps exactly if it holds one of these, and by their starts the accepted spans stand one behind the other. -/
theorem offers_kept_in_step (offers : List Span) :
    let t := Tracker.empty.claimAll offers
    let o := Occupancy.empty.claimAll offers
    (∀ s, o.admits s = t.admits s ∧
      (t.admits s = true ↔ s.start < s.stop ∧ ∀ a ∈ t.accepted, s.SharesNone a)) ∧
    (∀ s, t.admits s = true → (t.claim s).accepted = t.accepted ++ [s] ∧ (o.claim s).accepted = o.accepted ++ [s]) ∧
    (∀ s, t.admits s = false → t.claim s = t ∧ o.claim s = o) ∧
    o.accepted = t.accepted ∧
    (∀ a ∈ t.accepted, a.positions ≠ []) ∧
    t.accepted.Pairwise Span.SharesNone ∧
    (∀ p, p ∈ o.occupied ↔ ∃ a ∈ t.accepted, p ∈ a.positions) ∧
    (∀ start stop, o.overlaps start stop = t.overlaps start stop ∧
      (t.overlaps start stop = true ↔ ∃ a ∈ t.accepted, ∃ p ∈ positions start stop, p ∈ a.positions)) ∧
    t.spans.Perm t.accepted ∧
    t.spans.Pairwise (fun a b => a.start < b.start ∧ a.stop ≤ b.start) := by
  intro t o
  have hstep : InStep o t := InStep.start_empty.claimAll offers
  have hseparate : t.Separate := Tracker.separate_empty.claimAll offers
  have hadmits := hstep.admits_eq
  refine ⟨fun s => ⟨hadmits s, Tracker.admits_iff_sharesNone⟩, fun s hs => ?_, fun s hs => ?_, hstep.accepted, ?_, ?_,
    hstep.mem_occupied, fun start stop => ⟨hstep.overlaps_eq start stop, Tracker.overlaps_eq_true_iff⟩,
    Sorting.sort_perm _ _, hseparate.inOrder_spans⟩
  · rw [Tracker.claim, Occupancy.claim, hadmits s, if_pos hs, if_pos hs]
    exact ⟨rfl, rfl⟩
  · have hrefused : ¬t.admits s = true := Bool.eq_false_iff.1 hs
    rw [Tracker.claim, Occupancy.claim, hadmits s, if_neg hrefused, if_neg hrefused]
    exact ⟨rfl, rfl⟩
  · exact fun a ha => Span.positions_ne_nil_iff.2 (hseparate.filled a ha)
  · refine hseparate.apart.imp_of_mem fun {a b} ha hb hab => ?_
    exact (Span.apart_iff_sharesNone (hseparate.filled a ha) (hseparate.filled b hb)).1 hab

/-- An empty span, one that ends before it starts and one that meets the first are refused; a negative start is not. -/
example : ((Tracker.empty.claimAll [⟨2, 5, []⟩, ⟨5, 5, []⟩, ⟨7, 6, []⟩, ⟨4, 9, []⟩, ⟨-3, 2, []⟩]).spans.map
    fun s => (s.start, s.stop)) = [(-3, 2), (2, 5)] := by decide

end LedgerSearch.Marking

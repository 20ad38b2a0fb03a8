import LedgerSearch.Proofs.LowerWords

/-!
# Small letters

A lower form holds small letters alone (`isSmall_of_mem_lower`): what a run of the table maps a letter to is covered by
no run. A text of small letters is its own lower form (`lower_eq_self`), so lowering twice is lowering once
(`lower_lower`).
-/

namespace LedgerSearch.Text

/-- The letter is its own lower form, on its own and in every text. -/
structure IsSmall (c : CodePoint) : Prop where
  lowerLetter_eq : lowerLetter c = c
  ne_dotted : c ≠ 'İ'

theorem IsSmall.ne_sigma {c : CodePoint} (h : IsSmall c) : c ≠ 'Σ' := by
  rintro rfl
  exact absurd h.lowerLetter_eq (by decide +kernel)

/-- The runs of the letters that have another lower form, the plain capitals among them. -/
def letterRuns : List Shift := ⟨65, 90, 1, 32⟩ :: lowerRuns

namespace Shift

/-- No letter of the first run is mapped into the second one: past it, or between its letters. -/
def avoids (run other : Shift) : Bool :=
  decide (0 ≤ run.first + run.offset) &&
    (Nat.blt (run.image run.last) other.first || Nat.blt other.last (run.image run.first) ||
      (other.step == 2 && (run.step == 2 || run.first == run.last) && (run.image run.first + other.first) % 2 == 1))

theorem covers_iff {run : Shift} {n : Nat} :
    run.covers n = true ↔ run.first ≤ n ∧ n ≤ run.last ∧ (n - run.first) % run.step = 0 := by
  simp only [covers, Bool.and_eq_true, decide_eq_true_eq, beq_iff_eq, and_assoc]

theorem covers_image {run other : Shift} {n : Nat} (havoids : run.avoids other = true) (hn : run.covers n = true) :
    other.covers (run.image n) = false := by
  rw [← Bool.not_eq_true]
  intro hother
  simp only [avoids, image, Bool.and_eq_true, Bool.or_eq_true, Nat.blt_eq, decide_eq_true_eq, beq_iff_eq] at havoids
  rw [covers_iff] at hn hother
  simp only [image] at hother
  obtain ⟨hnonneg, (hbelow | habove) | ⟨⟨hother2, hrun⟩, hodd⟩⟩ := havoids
  · omega
  · omega
  · rw [hother2] at hother
    rcases hrun with hrun | hrun
    · rw [hrun] at hn
      omega
    · omega

end Shift

/-- What a run maps a letter to is in no run, nor is it the dotted capital I, which no run covers. -/
theorem avoids_letterRuns {run other : Shift} (hrun : run ∈ letterRuns)
    (hother : other ∈ ⟨304, 304, 1, 0⟩ :: letterRuns) : run.avoids other = true := by
  have hall : (letterRuns.all fun a => (⟨304, 304, 1, 0⟩ :: letterRuns).all fun b => a.avoids b) = true := by
    decide +kernel
  exact List.all_eq_true.1 (List.all_eq_true.1 hall run hrun) other hother

theorem lowerLetter_cases (c : CodePoint) : lowerLetter c = c ∨
    ∃ run ∈ letterRuns, run.covers c.toNat = true ∧ lowerLetter c = CodePoint.ofNat (run.image c.toNat) := by
  unfold lowerLetter
  split
  · split
    case isTrue hcapital =>
      simp only [isPlainCapital, Bool.and_eq_true, decide_eq_true_eq] at hcapital
      obtain ⟨hfirst, hlast⟩ : 65 ≤ c.toNat ∧ c.toNat ≤ 90 := hcapital
      refine .inr ⟨_, List.mem_cons_self, Shift.covers_iff.2 ⟨hfirst, hlast, Nat.mod_one _⟩, ?_⟩
      congr 1
    case isFalse => exact .inl rfl
  · unfold Shift.apply
    split
    case h_1 run hrun =>
      have hcovers := List.find?_some hrun
      exact .inr ⟨run, List.mem_cons_of_mem _ (List.mem_of_find?_eq_some hrun), hcovers, rfl⟩
    case h_2 => exact .inl rfl

theorem isSmall_ofNat {n : Nat} (h : ∀ run ∈ ⟨304, 304, 1, 0⟩ :: letterRuns, run.covers n = false) :
    IsSmall (CodePoint.ofNat n) := by
  rcases CodePoint.toNat_ofNat n with hn | hn
  · constructor
    · rcases lowerLetter_cases (CodePoint.ofNat n) with hsame | ⟨run, hrun, hcovers, -⟩
      · exact hsame
      · rw [hn, h run (List.mem_cons_of_mem _ hrun)] at hcovers
        cases hcovers
    · intro hdotted
      rw [hdotted] at hn
      subst hn
      exact absurd (h _ List.mem_cons_self) (by decide)
  · have hzero : CodePoint.ofNat n = CodePoint.ofNat 0 := by rw [← CodePoint.ofNat_toNat (CodePoint.ofNat n), hn]
    rw [hzero]
    exact ⟨by decide, by decide⟩

theorem isSmall_lowerLetter {c : CodePoint} (hc : c ≠ 'İ') : IsSmall (lowerLetter c) := by
  rcases lowerLetter_cases c with hsame | ⟨run, hrun, hcovers, himage⟩
  · rw [hsame]
    exact ⟨hsame, hc⟩
  · rw [himage]
    exact isSmall_ofNat fun other hother => Shift.covers_image (avoids_letterRuns hrun hother) hcovers

theorem isSmall_of_mem_lowerAt {before after : Text} {c d : CodePoint} (h : d ∈ lowerAt before c after) :
    IsSmall d := by
  unfold lowerAt at h
  split at h
  case isTrue =>
    rw [List.mem_singleton.1 h]
    split
    · exact ⟨by decide +kernel, by decide⟩
    · exact ⟨by decide +kernel, by decide⟩
  case isFalse =>
    split at h
    case isTrue =>
      simp only [List.mem_cons, List.not_mem_nil, or_false] at h
      rcases h with rfl | rfl
      · exact ⟨by decide, by decide⟩
      · exact ⟨by decide +kernel, by decide⟩
    case isFalse hdotted =>
      rw [List.mem_singleton.1 h]
      exact isSmall_lowerLetter hdotted

theorem isSmall_of_mem_lowerAfter {before t : Text} {d : CodePoint} (h : d ∈ lowerAfter before t) : IsSmall d := by
  induction t generalizing before with
  | nil => cases h
  | cons c t ih =>
    rcases List.mem_append.1 h with h | h
    · exact isSmall_of_mem_lowerAt h
    · exact ih h

theorem isSmall_of_mem_lower {t : Text} {d : CodePoint} (h : d ∈ lower t) : IsSmall d := isSmall_of_mem_lowerAfter h

theorem lowerAt_of_isSmall {c : CodePoint} (hc : IsSmall c) (before after : Text) : lowerAt before c after = [c] := by
  rw [lowerAt, if_neg hc.ne_sigma, if_neg hc.ne_dotted, hc.lowerLetter_eq]

theorem lowerAfter_eq_self {t : Text} (ht : ∀ c ∈ t, IsSmall c) (before : Text) : lowerAfter before t = t := by
  induction t generalizing before with
  | nil => rfl
  | cons c t ih =>
    obtain ⟨hc, ht⟩ := List.forall_mem_cons.1 ht
    rw [lowerAfter, lowerAt_of_isSmall hc, ih ht, List.singleton_append]

theorem lower_eq_self {t : Text} (ht : ∀ c ∈ t, IsSmall c) : lower t = t := lowerAfter_eq_self ht []

@[simp] theorem lower_lower (t : Text) : lower (lower t) = lower t := lower_eq_self fun _ => isSmall_of_mem_lower

end LedgerSearch.Text

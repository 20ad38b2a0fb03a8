import LedgerSearch.Proofs.Spans
import Mathlib.Data.List.Infix

/-!
# Occurrences of a term

The enumerated occurrences of a term leave out those that begin inside of one found before. So every occurrence begins
inside of an enumerated one (`exists_enumerated`), and if that is another one, then an end of the term stands at its own
beginning (`OverlapsItself`).
-/

namespace LedgerSearch.Text

variable {term text t : Text} {i j k : Nat}

/-- The term stands at a position of the text, letter case aside. -/
def OccursAt (term text : Text) (i : Nat) : Prop := startsMatching term (text.drop i) = true

instance : Decidable (OccursAt term text i) := inferInstanceAs (Decidable (_ = true))

/-- Some end of the term, from behind its first letter on, stands at its beginning. -/
def OverlapsItself (term : Text) : Prop := ∃ k < term.length, 0 < k ∧ startsMatching (term.drop k) term = true

instance : Decidable (OverlapsItself term) :=
  inferInstanceAs (Decidable (∃ k < term.length, 0 < k ∧ startsMatching (term.drop k) term = true))

/-- A term stands at the start of a text if the letters that stand for its letters do. -/
theorem startsMatching_iff : startsMatching term t = true ↔ term.map matchKey <+: t.map matchKey := by
  induction term generalizing t with
  | nil => simp [startsMatching]
  | cons a term ih =>
    cases t with
    | nil => simp [startsMatching]
    | cons b t =>
      rw [startsMatching, Bool.and_eq_true, ih, lettersMatch, beq_iff_eq, List.map_cons, List.map_cons,
        List.cons_prefix_cons]

theorem occursAt_iff : OccursAt term text i ↔ term.map matchKey <+: (text.map matchKey).drop i := by
  rw [OccursAt, startsMatching_iff, List.map_drop]

/-- Two occurrences of a term that share a position let it overlap itself. -/
theorem overlapsItself_of_occursAt (hj : OccursAt term text j) (hi : OccursAt term text i) (hlt : j < i)
    (hinside : i < j + term.length) : OverlapsItself term := by
  rw [occursAt_iff] at hj hi
  have hend : (term.map matchKey).drop (i - j) <+: (text.map matchKey).drop i := by
    have hdrop := List.IsPrefix.drop hj (i - j)
    rwa [List.drop_drop, Nat.add_sub_of_le (Nat.le_of_lt hlt)] at hdrop
  refine ⟨i - j, by omega, by omega, startsMatching_iff.2 ?_⟩
  rw [List.map_drop]
  exact List.prefix_of_prefix_length_le hend hi (List.drop_sublist _ _).length_le

/-- A term whose end stands at its beginning occurs twice in its two copies with the end shared. -/
theorem startsMatching_take_append (h : startsMatching (term.drop k) term = true) :
    startsMatching term (term.take k ++ term) = true := by
  rw [startsMatching_iff, List.map_drop] at h
  rw [startsMatching_iff, List.map_append, List.map_take]
  conv => lhs; rw [← List.take_append_drop k (term.map matchKey)]
  exact (List.prefix_append_right_inj _).2 h

theorem not_startsMatching_nil (hne : term ≠ []) : ¬startsMatching term [] = true := by
  rw [startsMatching_iff]
  intro h
  exact hne (List.map_eq_nil_iff.1 (List.prefix_nil.1 h))

/-- An occurrence begins among the skipped letters or inside of an enumerated occurrence. -/
theorem exists_enumeratedFrom (hne : term ≠ []) (offset skip : Nat) (h : startsMatching term (t.drop i) = true) :
    i < skip ∨ ∃ j ≤ i, i < j + term.length ∧ startsMatching term (t.drop j) = true ∧
      (offset + j, offset + j + term.length) ∈ occurrencesFrom term offset skip t := by
  have hpos := List.length_pos_iff.2 hne
  induction t generalizing offset skip i with
  | nil =>
    rw [List.drop_nil] at h
    exact absurd h (not_startsMatching_nil hne)
  | cons c rest ih =>
    -- What is enumerated behind the first letter is enumerated one place further on.
    have hrest : ∀ {i : Nat} (skip : Nat), startsMatching term (rest.drop i) = true → i < skip ∨
        ∃ j ≤ i + 1, i + 1 < j + term.length ∧ startsMatching term ((c :: rest).drop j) = true ∧
          (offset + j, offset + j + term.length) ∈ occurrencesFrom term (offset + 1) skip rest := by
      intro i skip h
      refine (ih (offset + 1) skip h).imp_right ?_
      rintro ⟨j, hle, hlt, hmatch, hmem⟩
      refine ⟨j + 1, by omega, by omega, hmatch, ?_⟩
      rwa [Nat.add_right_comm] at hmem
    cases skip with
    | succ n =>
      cases i with
      | zero => exact .inl (Nat.succ_pos n)
      | succ i => exact (hrest n h).imp_left Nat.succ_lt_succ
    | zero =>
      right
      rw [occurrencesFrom]
      split
      case isTrue hmatch =>
        by_cases hinside : i < term.length
        · exact ⟨0, Nat.zero_le i, by omega, hmatch, List.mem_cons_self⟩
        · obtain ⟨i, rfl⟩ := Nat.exists_eq_add_of_le' (Nat.le_trans hpos (Nat.le_of_not_lt hinside))
          obtain ⟨j, hle, hlt, hstarts, hmem⟩ := (hrest (term.length - 1) h).resolve_left (by omega)
          exact ⟨j, hle, hlt, hstarts, List.mem_cons_of_mem _ hmem⟩
      case isFalse hmatch =>
        cases i with
        | zero => exact absurd h hmatch
        | succ i => exact (hrest 0 h).resolve_left (Nat.not_lt_zero i)

/-- Every occurrence begins inside of an enumerated one. -/
theorem exists_enumerated (hne : term ≠ []) (h : OccursAt term text i) : ∃ j ≤ i, i < j + term.length ∧
    OccursAt term text j ∧ (j, j + term.length) ∈ occurrences term text := by
  obtain ⟨j, hle, hlt, hmatch, hmem⟩ := (exists_enumeratedFrom hne 0 0 h).resolve_left (Nat.not_lt_zero i)
  rw [Nat.zero_add] at hmem
  exact ⟨j, hle, hlt, hmatch, hmem⟩

theorem occurrencesFrom_skip (term : Text) (offset skip : Nat) (t : Text) :
    occurrencesFrom term offset skip t = occurrencesFrom term (offset + skip) 0 (t.drop skip) := by
  induction t generalizing offset skip with
  | nil => rw [List.drop_nil, occurrencesFrom, occurrencesFrom]
  | cons c rest ih =>
    cases skip with
    | zero => rfl
    | succ n => rw [occurrencesFrom, ih, List.drop_succ_cons, Nat.add_right_comm, Nat.add_assoc]

theorem occurrencesFrom_short (h : t.length < term.length) (offset : Nat) : occurrencesFrom term offset 0 t = [] := by
  induction t generalizing offset with
  | nil => rfl
  | cons c rest ih =>
    have hmatch : ¬startsMatching term (c :: rest) = true := fun hmatch =>
      absurd (length_le_of_startsMatching hmatch) (Nat.not_le.2 h)
    rw [occurrencesFrom, if_neg hmatch]
    exact ih (Nat.lt_of_succ_lt h) _

/-- Behind an occurrence at the start there is none if the rest is shorter than the term. -/
theorem occurrencesFrom_single (hne : term ≠ []) (h : startsMatching term t = true)
    (hshort : t.length < 2 * term.length) (offset : Nat) :
    occurrencesFrom term offset 0 t = [(offset, offset + term.length)] := by
  have hpos := List.length_pos_iff.2 hne
  cases t with
  | nil => exact absurd h (not_startsMatching_nil hne)
  | cons c rest =>
    rw [occurrencesFrom, if_pos h, occurrencesFrom_skip, occurrencesFrom_short]
    rw [List.length_cons] at hshort
    rw [List.length_drop]
    omega

/-- A term does not begin among letters that its first one does not match. -/
theorem occurrencesFrom_replicate_append {a c : CodePoint} (h : lettersMatch a c = false) (term : Text) (offset n : Nat)
    (t : Text) : occurrencesFrom (a :: term) offset 0 (List.replicate n c ++ t) =
      occurrencesFrom (a :: term) (offset + n) 0 t := by
  induction n generalizing offset with
  | zero => rfl
  | succ n ih =>
    have hmatch : ¬startsMatching (a :: term) (c :: (List.replicate n c ++ t)) = true := by simp [startsMatching, h]
    rw [List.replicate_succ, List.cons_append, occurrencesFrom, if_neg hmatch, ih, Nat.add_right_comm, Nat.add_assoc]

end LedgerSearch.Text

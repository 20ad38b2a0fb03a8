import LedgerSearch.Proofs.LowerWords
import Mathlib.Data.List.Basic

/-!
# Joined texts

Pieces are joined by a separator between each two. Joined by spaces they keep to themselves: the words of joined words
are these words (`words_joinWith`), the lower form is made piece by piece (`lower_joinWith`), and a word stands in the
joined text only if it stands in one of the pieces (`infix_joinWith_iff`).
-/

namespace LedgerSearch.Text

variable {separator : Text}

theorem joinWith_cons {x : Text} {ys : List Text} (hy : ys ≠ []) :
    joinWith separator (x :: ys) = x ++ separator ++ joinWith separator ys := by
  obtain ⟨y, ys, rfl⟩ := List.exists_cons_of_ne_nil hy
  rfl

theorem joinWith_append {xs ys : List Text} (hx : xs ≠ []) (hy : ys ≠ []) :
    joinWith separator (xs ++ ys) = joinWith separator xs ++ separator ++ joinWith separator ys := by
  induction xs with
  | nil => exact absurd rfl hx
  | cons x xs ih =>
    by_cases hne : xs = []
    · subst hne
      exact joinWith_cons hy
    · rw [List.cons_append, joinWith_cons (by simp [hne]), ih hne, joinWith_cons hne]
      simp

theorem joinWith_prefix (separator : Text) (xs ys : List Text) :
    joinWith separator xs <+: joinWith separator (xs ++ ys) := by
  by_cases hx : xs = []
  · rw [hx]
    exact List.nil_prefix
  · by_cases hy : ys = []
    · simp only [hy, List.append_nil, List.prefix_rfl]
    · rw [joinWith_append hx hy, List.append_assoc]
      exact List.prefix_append _ _

theorem words_joinWith {ws : List Text} (h : ∀ w ∈ ws, IsWord w) : words (joinWith [' '] ws) = ws := by
  induction ws with
  | nil => rfl
  | cons w ws ih =>
    obtain ⟨hw, hws⟩ := List.forall_mem_cons.1 h
    cases ws with
    | nil => exact words_word hw
    | cons w' ws =>
      have hblank : isBlank ' ' = true := by decide
      rw [joinWith, List.append_assoc, List.singleton_append, words_word_append hw (startsBlank_cons hblank _),
        words_cons_blank hblank, ih hws]

/-- The lower form of joined pieces is made piece by piece. -/
theorem lower_joinWith (pieces : List Text) : lower (joinWith [' '] pieces) = joinWith [' '] (pieces.map lower) := by
  have hspace : IsGap [' '] := by decide
  induction pieces with
  | nil => rfl
  | cons piece rest ih =>
    cases rest with
    | nil => rfl
    | cons next rest =>
      have hstarts := hspace.startsBlank.append (List.cons_ne_nil _ _) (joinWith [' '] (next :: rest))
      rw [joinWith, List.append_assoc, lower_append hstarts, lower_gap_append hspace, ih, ← List.append_assoc]
      rfl

variable {c : CodePoint} {v w f : Text}

/-- A beginning without a character stands before the first such character. -/
theorem prefix_append_cons_iff (hv : c ∉ v) : v <+: w ++ c :: f ↔ v <+: w := by
  constructor
  · intro h
    rcases List.prefix_or_prefix_of_prefix h (List.prefix_append w (c :: f)) with hle | ⟨s, rfl⟩
    · exact hle
    · obtain ⟨t, ht⟩ := h
      rw [List.append_assoc, List.append_cancel_left_eq] at ht
      cases s with
      | nil => simp only [List.append_nil, List.prefix_rfl]
      | cons d s =>
        cases ht
        exact absurd (List.mem_append_right w List.mem_cons_self) hv
  · intro h
    exact h.trans (List.prefix_append w (c :: f))

/-- A run without a character stands on one side of it. -/
theorem infix_append_cons_iff (hv : c ∉ v) : v <:+: w ++ c :: f ↔ v <:+: w ∨ v <:+: f := by
  induction w with
  | nil =>
    have hnil : v <+: c :: f ↔ v <+: [] := prefix_append_cons_iff (w := []) hv
    rw [List.nil_append, List.infix_cons_iff, hnil, List.prefix_nil, List.infix_nil]
  | cons d w ih =>
    rw [List.cons_append, List.infix_cons_iff, List.infix_cons_iff, ih, ← List.cons_append, prefix_append_cons_iff hv,
      or_assoc]

theorem IsWord.notMem_of_isBlank (hw : IsWord w) (hc : isBlank c = true) : c ∉ w :=
  fun hmem => Bool.false_ne_true ((hw.2 c hmem).symm.trans hc)

/-- A word stands in joined pieces exactly if it stands in one of them: none reaches over a space. -/
theorem infix_joinWith_iff (hw : IsWord w) (pieces : List Text) :
    w <:+: joinWith [' '] pieces ↔ ∃ piece ∈ pieces, w <:+: piece := by
  have hspace : (' ' : CodePoint) ∉ w := hw.notMem_of_isBlank (by decide)
  induction pieces with
  | nil => simpa [joinWith] using hw.1
  | cons piece rest ih =>
    cases rest with
    | nil => simp [joinWith]
    | cons next rest =>
      rw [joinWith, List.append_assoc, List.singleton_append, infix_append_cons_iff hspace, List.exists_mem_cons_iff]
      exact or_congr_right ih

/-- The words of a text stand in it. -/
theorem infix_of_mem_words {t : Text} (h : w ∈ words t) : w <:+: t := by
  obtain ⟨i, hi, rfl⟩ := List.getElem_of_mem h
  exact ⟨beforeWord i t, afterWord i t, (cut_of_lt hi).1.eq.symm⟩

end LedgerSearch.Text

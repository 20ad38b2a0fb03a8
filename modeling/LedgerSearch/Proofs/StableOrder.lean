import LedgerSearch.Calendar.Instant
import LedgerSearch.Sorting
import LedgerSearch.Text.Lower

/-!
# Orders in stages

A stable sort refines the order that it is given: it decides by its own comparison and leaves ties as they
were. So sorts one after the other give a lexicographic order whose last criterion is the first order of
the items, and choosing items after a sort is choosing them before it. Times are never `nan`, which makes
their comparison total, as that of texts is.
-/

namespace LedgerSearch

namespace Sorting

variable {α κ : Type}

/-- Each two items can be compared, and comparisons follow on one another. -/
structure IsPreorder (le : α → α → Bool) : Prop where
  total : ∀ a b, le a b = true ∨ le b a = true
  trans : ∀ {a b c}, le a b = true → le b c = true → le a c = true

namespace IsPreorder

theorem flip {le : α → α → Bool} (h : IsPreorder le) : IsPreorder fun a b => le b a :=
  ⟨fun a b => h.total b a, fun hab hbc => h.trans hbc hab⟩

theorem pairwise_sort {le : α → α → Bool} (h : IsPreorder le) (items : List α) :
    (sort le items).Pairwise fun a b => le a b = true :=
  Sorting.pairwise_sort (p := fun _ => True) (fun a b _ _ => h.total a b)
    (fun _ _ _ _ _ _ hab hbc => h.trans hab hbc) fun _ _ => trivial

end IsPreorder

/-- One comparison decides between two items, and a further relation where it ties. -/
def Lex (le : α → α → Bool) (next : α → α → Prop) (a b : α) : Prop :=
  le a b = true ∧ (le b a = true → next a b)

theorem pairwise_insert_lex {le : α → α → Bool} (hle : IsPreorder le) {next : α → α → Prop} {a : α}
    {items : List α} (hnext : ∀ b ∈ items, next a b) (h : items.Pairwise (Lex le next)) :
    (insert le a items).Pairwise (Lex le next) := by
  induction items with
  | nil => simp [insert]
  | cons b rest ih =>
    obtain ⟨hb, hrest⟩ := List.pairwise_cons.1 h
    simp only [insert]
    split
    · rename_i hab
      refine List.pairwise_cons.2 ⟨?_, h⟩
      intro c hc
      have hac : le a c = true := by
        rcases List.mem_cons.1 hc with rfl | hc
        · exact hab
        · exact hle.trans hab (hb c hc).1
      exact ⟨hac, fun _ => hnext c hc⟩
    · rename_i hab
      refine List.pairwise_cons.2 ⟨?_, ih (fun c hc => hnext c (List.mem_cons_of_mem b hc)) hrest⟩
      intro c hc
      rcases List.mem_cons.1 ((insert_perm le a rest).mem_iff.1 hc) with rfl | hc
      · exact ⟨(hle.total _ _).resolve_left hab, fun h => absurd h hab⟩
      · exact hb c hc

/-- Sorting items that stand in some order keeps that order between items that tie. -/
theorem pairwise_sort_lex {le : α → α → Bool} (hle : IsPreorder le) {next : α → α → Prop} {items : List α}
    (h : items.Pairwise next) : (sort le items).Pairwise (Lex le next) := by
  induction items with
  | nil => exact .nil
  | cons a rest ih =>
    obtain ⟨ha, hrest⟩ := List.pairwise_cons.1 h
    exact pairwise_insert_lex hle (fun b hb => ha b (mem_sort.1 hb)) (ih hrest)

theorem sortOn_perm (key : α → κ) (le : κ → κ → Bool) (items : List α) : (sortOn key le items).Perm items := by
  rw [sortOn_eq_sort]
  exact sort_perm _ items

theorem pairwise_sortOn_lex (key : α → κ) (le : κ → κ → Bool) (hle : IsPreorder fun a b => le (key a) (key b))
    {next : α → α → Prop} {items : List α} (h : items.Pairwise next) :
    (sortOn key le items).Pairwise (Lex (fun a b => le (key a) (key b)) next) := by
  rw [sortOn_eq_sort]
  exact pairwise_sort_lex hle h

theorem insert_of_le {le : α → α → Bool} {a : α} {items : List α} (h : ∀ b ∈ items, le a b = true) :
    insert le a items = a :: items := by
  cases items with
  | nil => rfl
  | cons b rest => rw [insert, if_pos (h b List.mem_cons_self)]

theorem filter_insert {le : α → α → Bool} (hle : IsPreorder le) (p : α → Bool) (a : α) {items : List α}
    (h : items.Pairwise fun a b => le a b = true) : (insert le a items).filter p =
      if p a then insert le a (items.filter p) else items.filter p := by
  induction items with
  | nil => simp only [insert, List.filter_cons, List.filter_nil]
  | cons b rest ih =>
    obtain ⟨hb, hrest⟩ := List.pairwise_cons.1 h
    specialize ih hrest
    rw [insert]
    split
    · rename_i hab
      -- what is in front of all items is in front of those that are chosen
      have hfront : ∀ c ∈ (b :: rest).filter p, le a c = true := by
        intro c hc
        rcases List.mem_cons.1 (List.mem_filter.1 hc).1 with rfl | hc
        · exact hab
        · exact hle.trans hab (hb c hc)
      rw [List.filter_cons, insert_of_le hfront]
    · rename_i hab
      rw [List.filter_cons, ih, List.filter_cons]
      by_cases hpb : p b = true
      · by_cases hpa : p a = true
        · simp only [if_pos hpb, if_pos hpa, insert, if_neg hab]
        · simp only [if_pos hpb, if_neg hpa]
      · simp only [if_neg hpb]

/-- Choosing items from a sorted list gives what sorting the chosen ones gives. -/
theorem filter_sort {le : α → α → Bool} (hle : IsPreorder le) (p : α → Bool) (items : List α) :
    (sort le items).filter p = sort le (items.filter p) := by
  induction items with
  | nil => rfl
  | cons a rest ih =>
    rw [sort, filter_insert hle p a (hle.pairwise_sort rest), ih, List.filter_cons]
    split
    · rw [sort]
    · rfl

theorem filter_sortOn (key : α → κ) (le : κ → κ → Bool) (hle : IsPreorder fun a b => le (key a) (key b))
    (p : α → Bool) (items : List α) : (sortOn key le items).filter p = sortOn key le (items.filter p) := by
  rw [sortOn_eq_sort, sortOn_eq_sort, filter_sort hle]

theorem sortOn_congr {key key' : α → κ} {items : List α} (h : ∀ a ∈ items, key a = key' a) (le : κ → κ → Bool) :
    sortOn key le items = sortOn key' le items := by
  have hkeys : withKeys key items = withKeys key' items := List.map_congr_left fun a ha => by rw [h a ha]
  rw [sortOn, sortOn, hkeys]

end Sorting

namespace Text

theorem le_total (s t : Text) : le s t = true ∨ le t s = true := by
  induction s generalizing t with
  | nil => exact .inl rfl
  | cons a s ih =>
    cases t with
    | nil => exact .inr rfl
    | cons b t =>
      simp only [le, Bool.or_eq_true, decide_eq_true_eq, Bool.and_eq_true, beq_iff_eq]
      rcases Nat.lt_trichotomy a.toNat b.toNat with hlt | heq | hgt
      · exact .inl (.inl hlt)
      · have hab := CodePoint.toNat_inj heq
        exact (ih t).imp (fun h => .inr ⟨hab, h⟩) fun h => .inr ⟨hab.symm, h⟩
      · exact .inr (.inl hgt)

theorem le_trans {s t u : Text} (hst : le s t = true) (htu : le t u = true) : le s u = true := by
  induction s generalizing t u with
  | nil => rfl
  | cons a s ih =>
    cases t with
    | nil => cases hst
    | cons b t =>
      cases u with
      | nil => cases htu
      | cons c u =>
        simp only [le, Bool.or_eq_true, decide_eq_true_eq, Bool.and_eq_true, beq_iff_eq] at hst htu ⊢
        rcases hst with hab | ⟨rfl, hst⟩
        · rcases htu with hbc | ⟨rfl, -⟩
          · exact .inl (Nat.lt_trans hab hbc)
          · exact .inl hab
        · exact htu.imp id fun ⟨hbc, htu⟩ => ⟨hbc, ih hst htu⟩

theorem le_antisymm {s t : Text} (hst : le s t = true) (hts : le t s = true) : s = t := by
  induction s generalizing t with
  | nil =>
    cases t with
    | nil => rfl
    | cons b t => cases hts
  | cons a s ih =>
    cases t with
    | nil => cases hst
    | cons b t =>
      simp only [le, Bool.or_eq_true, decide_eq_true_eq, Bool.and_eq_true, beq_iff_eq] at hst hts
      rcases hst with hab | ⟨rfl, hst⟩
      · rcases hts with hba | ⟨rfl, -⟩ <;> omega
      · rcases hts with hba | ⟨-, hts⟩
        · omega
        · rw [ih hst hts]

end Text

namespace Binary64

theorem le_total {a b : Binary64} (ha : a.isNumber = true) (hb : b.isNumber = true) : le a b = true ∨ le b a = true := by
  cases a with
  | nan => cases ha
  | infinite s =>
    cases b with
    | nan => cases hb
    | infinite t => cases s <;> cases t <;> decide
    | finite t v => cases s <;> simp [le]
  | finite s u =>
    cases b with
    | nan => cases hb
    | infinite t => cases t <;> simp [le]
    | finite t v =>
      simp only [le, decide_eq_true_eq]
      omega

theorem le_trans {a b c : Binary64} (hab : le a b = true) (hbc : le b c = true) : le a c = true := by
  cases a <;> cases b <;> cases c <;> simp_all [le]
  · rename_i s t u
    cases s <;> cases t <;> simp_all
  · omega

theorem isNumber_ofUnits (negative : Bool) (num den : Nat) : (ofUnits negative num den).isNumber = true := by
  unfold ofUnits
  dsimp only
  split
  · rfl
  · rfl

end Binary64

theorem Instant.isNumber_seconds (i : Instant) : i.seconds.isNumber = true := by
  unfold Instant.seconds Binary64.ofRatio
  exact Binary64.isNumber_ofUnits _ _ _

end LedgerSearch

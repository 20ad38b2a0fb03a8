/-! # Stable sorting
Items that compare as equal keep their order, whichever way the comparison runs. The sorted list is
a permutation of the given one, and where the comparison is a total preorder it is in order. -/
namespace LedgerSearch.Sorting

variable {α : Type}

/-- Puts an item before the first one that it may precede. -/
def insert (le : α → α → Bool) (a : α) : List α → List α
  | [] => [a]
  | b :: rest => if le a b then a :: b :: rest else b :: insert le a rest

def sort (le : α → α → Bool) : List α → List α
  | [] => []
  | a :: rest => insert le a (sort le rest)

theorem insert_perm (le : α → α → Bool) (a : α) (items : List α) : (insert le a items).Perm (a :: items) := by
  induction items with
  | nil => exact .refl _
  | cons b rest ih =>
    simp only [insert]
    split
    · exact .refl _
    · exact (ih.cons b).trans (.swap a b rest)

theorem sort_perm (le : α → α → Bool) (items : List α) : (sort le items).Perm items := by
  induction items with
  | nil => exact .refl _
  | cons a rest ih => exact (insert_perm le a (sort le rest)).trans (ih.cons a)

theorem mem_sort {le : α → α → Bool} {a : α} {items : List α} : a ∈ sort le items ↔ a ∈ items :=
  (sort_perm le items).mem_iff

/-- Inserting keeps a list in order, if the comparison orders the items in question. -/
theorem pairwise_insert {le : α → α → Bool} {p : α → Prop} (total : ∀ a b, p a → p b → le a b = true ∨ le b a = true)
    (trans : ∀ a b c, p a → p b → p c → le a b = true → le b c = true → le a c = true) {a : α} (ha : p a)
    {items : List α} (hp : ∀ b ∈ items, p b) (h : items.Pairwise fun a b => le a b = true) :
    (insert le a items).Pairwise fun a b => le a b = true := by
  induction items with
  | nil => simp [insert]
  | cons b rest ih =>
    obtain ⟨hb, hrest⟩ := List.pairwise_cons.1 h
    have hpb : p b := hp b List.mem_cons_self
    have hprest : ∀ c ∈ rest, p c := fun c hc => hp c (List.mem_cons_of_mem b hc)
    simp only [insert]
    split
    · rename_i hab
      refine List.pairwise_cons.2 ⟨?_, h⟩
      intro c hc
      rcases List.mem_cons.1 hc with rfl | hc
      · exact hab
      · exact trans _ _ _ ha hpb (hprest c hc) hab (hb c hc)
    · rename_i hab
      refine List.pairwise_cons.2 ⟨?_, ih hprest hrest⟩
      intro c hc
      rcases List.mem_cons.1 ((insert_perm le a rest).mem_iff.1 hc) with rfl | hc
      · exact (total _ _ ha hpb).resolve_left hab
      · exact hb c hc

/-- Items that the comparison orders are sorted into that order. -/
theorem pairwise_sort {le : α → α → Bool} {p : α → Prop} (total : ∀ a b, p a → p b → le a b = true ∨ le b a = true)
    (trans : ∀ a b c, p a → p b → p c → le a b = true → le b c = true → le a c = true) {items : List α}
    (hp : ∀ a ∈ items, p a) : (sort le items).Pairwise fun a b => le a b = true := by
  induction items with
  | nil => exact .nil
  | cons a rest ih =>
    have hprest : ∀ c ∈ rest, p c := fun c hc => hp c (List.mem_cons_of_mem a hc)
    exact pairwise_insert total trans (hp a List.mem_cons_self) (fun b hb => hprest b (mem_sort.1 hb)) (ih hprest)

/-- A list that is in order is left as it is. -/
theorem sort_eq_self {le : α → α → Bool} {items : List α} (h : items.Pairwise fun a b => le a b = true) :
    sort le items = items := by
  induction items with
  | nil => rfl
  | cons a rest ih =>
    obtain ⟨ha, hrest⟩ := List.pairwise_cons.1 h
    rw [sort, ih hrest]
    cases rest with
    | nil => rfl
    | cons b rest => rw [insert, if_pos (ha b List.mem_cons_self)]

theorem insert_map {β : Type} (f : α → β) (le : β → β → Bool) (a : α) (items : List α) :
    insert le (f a) (items.map f) = (insert (fun x y => le (f x) (f y)) a items).map f := by
  induction items with
  | nil => rfl
  | cons b rest ih =>
    simp only [List.map_cons, insert]
    split <;> simp [ih]

theorem sort_map {β : Type} (f : α → β) (le : β → β → Bool) (items : List α) :
    sort le (items.map f) = (sort (fun x y => le (f x) (f y)) items).map f := by
  induction items with
  | nil => rfl
  | cons a rest ih => rw [List.map_cons, sort, ih, insert_map, sort]

/-- The items, each with its key. -/
def withKeys {κ : Type} (key : α → κ) (items : List α) : List (κ × α) := items.map fun a => (key a, a)

/-- Sorts by keys, each of which is found once. -/
def sortOn {κ : Type} (key : α → κ) (le : κ → κ → Bool) (items : List α) : List α :=
  (sort (fun a b => le a.1 b.1) (withKeys key items)).map Prod.snd

theorem sortOn_eq_sort {κ : Type} (key : α → κ) (le : κ → κ → Bool) (items : List α) :
    sortOn key le items = sort (fun a b => le (key a) (key b)) items := by
  have h : (Prod.snd ∘ fun a => (key a, a)) = (id : α → α) := rfl
  simp [sortOn, withKeys, sort_map, h]

end LedgerSearch.Sorting

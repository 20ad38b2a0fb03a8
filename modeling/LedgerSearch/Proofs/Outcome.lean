import LedgerSearch.Search.Haystack

/-!
# Outcomes

A computation that may end in a fault is taken apart step by step: it has a value only if each of its
steps has one.
-/

namespace LedgerSearch.Outcome

variable {ε α β : Type}

@[simp] theorem ok_bind (a : α) (f : α → Except ε β) : (Except.ok a >>= f) = f a := rfl

@[simp] theorem error_bind (fault : ε) (f : α → Except ε β) : (Except.error fault >>= f) = .error fault := rfl

@[simp] theorem pure_eq_ok (a : α) : (pure a : Except ε α) = .ok a := rfl

@[simp] theorem map_ok (f : α → β) (a : α) : Except.map f (.ok a : Except ε α) = .ok (f a) := rfl

theorem bind_eq_ok {x : Except ε α} {f : α → Except ε β} {b : β} :
    (x >>= f) = .ok b ↔ ∃ a, x = .ok a ∧ f a = .ok b := by
  cases x with
  | error fault => simp
  | ok a => simp

theorem map_eq_ok {x : Except ε α} {f : α → β} {b : β} : Except.map f x = .ok b ↔ ∃ a, x = .ok a ∧ f a = b := by
  cases x with
  | error fault => simp [Except.map]
  | ok a => simp

theorem map_ok_iff {x : Except ε α} {f : α → β} : (∃ b, Except.map f x = .ok b) ↔ ∃ a, x = .ok a := by
  cases x with
  | error fault => simp [Except.map]
  | ok a => simp

theorem bind_ok_iff {x : Except ε α} {f : α → Except ε β} :
    (∃ b, (x >>= f) = .ok b) ↔ ∃ a, x = .ok a ∧ ∃ b, f a = .ok b := by
  cases x with
  | error fault => simp
  | ok a => simp

theorem eq_ok_of_toOption {x : Except ε α} {a : α} (h : x.toOption = some a) : x = .ok a := by
  cases x with
  | error fault => cases h
  | ok b => exact congrArg Except.ok (Option.some.inj h)

/-- A computation that ends in no other fault than the given one. -/
def FailsOnlyAs (fault : ε) (x : Except ε α) : Prop := ∀ other, x = .error other → other = fault

namespace FailsOnlyAs

variable {fault : ε} {x : Except ε α}

theorem of_ok (h : ∃ a, x = .ok a) : FailsOnlyAs fault x := by
  rintro other rfl
  obtain ⟨a, ha⟩ := h
  cases ha

theorem bind {f : α → Except ε β} (hx : FailsOnlyAs fault x) (hf : ∀ a, x = .ok a → FailsOnlyAs fault (f a)) :
    FailsOnlyAs fault (x >>= f) := by
  cases x with
  | error other =>
    rintro _ ⟨⟩
    exact hx other rfl
  | ok a => exact hf a rfl

theorem map {f : α → β} (hx : FailsOnlyAs fault x) : FailsOnlyAs fault (Except.map f x) := by
  cases x with
  | error other =>
    rintro _ ⟨⟩
    exact hx other rfl
  | ok a => exact of_ok ⟨f a, rfl⟩

end FailsOnlyAs

section MapM

variable {f : α → Except ε β} {items : List α}

theorem mapM_ok_iff : (∃ values, items.mapM f = .ok values) ↔ ∀ a ∈ items, ∃ b, f a = .ok b := by
  induction items with
  | nil => simp
  | cons a rest ih =>
    rw [List.forall_mem_cons, ← ih]
    simp [List.mapM_cons, bind_ok_iff]

/-- What is read off the values agrees with what is read off the items. -/
theorem map_of_mapM {γ : Type} {values : List β} (h : items.mapM f = .ok values) {g : β → γ} {g' : α → γ}
    (hg : ∀ a b, f a = .ok b → g b = g' a) : values.map g = items.map g' := by
  induction items generalizing values with
  | nil =>
    cases h
    rfl
  | cons a rest ih =>
    rw [List.mapM_cons] at h
    obtain ⟨b, hb, h⟩ := bind_eq_ok.1 h
    obtain ⟨more, hmore, h⟩ := bind_eq_ok.1 h
    cases h
    rw [List.map_cons, List.map_cons, hg a b hb, ih hmore]

theorem mem_of_mapM {values : List β} (h : items.mapM f = .ok values) {b : β} (hb : b ∈ values) :
    ∃ a ∈ items, f a = .ok b := by
  induction items generalizing values with
  | nil =>
    cases h
    cases hb
  | cons a rest ih =>
    rw [List.mapM_cons] at h
    obtain ⟨c, hc, h⟩ := bind_eq_ok.1 h
    obtain ⟨more, hmore, h⟩ := bind_eq_ok.1 h
    cases h
    rcases List.mem_cons.1 hb with rfl | hb
    · exact ⟨a, List.mem_cons_self, hc⟩
    · obtain ⟨a', ha', h⟩ := ih hmore hb
      exact ⟨a', List.mem_cons_of_mem a ha', h⟩

end MapM

/-- The values of two computations under an operation, the left computation first. -/
def combine (f : α → α → α) (x y : Except ε α) : Except ε α := do return f (← x) (← y)

@[simp] theorem combine_ok (f : α → α → α) (a b : α) : combine f (.ok a) (.ok b : Except ε α) = .ok (f a b) := rfl

theorem combine_assoc {f : α → α → α} (hf : ∀ a b c, f (f a b) c = f a (f b c)) (x y z : Except ε α) :
    combine f (combine f x y) z = combine f x (combine f y z) := by
  cases x with
  | error fault => rfl
  | ok a =>
    cases y with
    | error fault => rfl
    | ok b =>
      cases z with
      | error fault => rfl
      | ok c => simp [hf]

theorem FailsOnlyAs.combine {fault : ε} {f : α → α → α} {x y : Except ε α} (hx : FailsOnlyAs fault x)
    (hy : FailsOnlyAs fault y) : FailsOnlyAs fault (combine f x y) :=
  hx.bind fun _ _ => hy.bind fun _ _ => .of_ok ⟨_, rfl⟩

/-- Wherever the second computation has a value, the first has one that is no greater. -/
def AtMost (x y : Except ε Nat) : Prop := ∀ n, y = .ok n → ∃ m, x = .ok m ∧ m ≤ n

namespace AtMost

variable {x x' y y' : Except ε Nat}

theorem refl (x : Except ε Nat) : AtMost x x := fun n h => ⟨n, h, Nat.le_refl n⟩

theorem of_le {m n : Nat} (h : m ≤ n) : AtMost (.ok m : Except ε Nat) (.ok n) := by
  rintro _ ⟨⟩
  exact ⟨m, rfl, h⟩

theorem map {g g' : Nat → Nat} (hg : ∀ {m n}, m ≤ n → g m ≤ g' n) (h : AtMost x y) : AtMost (x.map g) (y.map g') := by
  intro k hk
  obtain ⟨n, hn, rfl⟩ := map_eq_ok.1 hk
  obtain ⟨m, hm, hle⟩ := h n hn
  exact ⟨g m, by rw [hm, map_ok], hg hle⟩

/-- An operation that grows with both values keeps the order of computations. -/
theorem combine {f : Nat → Nat → Nat} (hf : ∀ {a b c d}, a ≤ b → c ≤ d → f a c ≤ f b d) (hx : AtMost x y)
    (hx' : AtMost x' y') : AtMost (combine f x x') (combine f y y') := by
  intro n h
  obtain ⟨b, hb, h⟩ := bind_eq_ok.1 h
  obtain ⟨d, hd, h⟩ := bind_eq_ok.1 h
  obtain ⟨a, ha, hab⟩ := hx b hb
  obtain ⟨c, hc, hcd⟩ := hx' d hd
  cases h
  exact ⟨f a c, by rw [ha, hc, combine_ok], hf hab hcd⟩

theorem add_left (h : AtMost x y) (k : Nat) : AtMost x (Outcome.combine (· + ·) (.ok k) y) := by
  intro n hn
  obtain ⟨_, ⟨⟩, hn⟩ := bind_eq_ok.1 hn
  obtain ⟨b, hb, hn⟩ := bind_eq_ok.1 hn
  obtain ⟨a, ha, hab⟩ := h b hb
  cases hn
  exact ⟨a, ha, Nat.le_trans hab (Nat.le_add_left b k)⟩

end AtMost

end LedgerSearch.Outcome

import LedgerSearch.Proofs.Proximity
import Mathlib.Algebra.Group.Nat.Defs

/-!
# Integers beyond all numbers

An integer is read as the nearest number. The greatest finite number lies one gap below a power of two, and from the
middle of that gap on an integer is nearer to the power than to any number, so there it has none
(`ofInt?_eq_none_iff`). Reading keeps the order of whole numbers (`le_ofNat`).
-/

namespace LedgerSearch.Binary64

theorem le_nearest (num den : Nat) : num / den ≤ nearest num den := by
  unfold nearest
  dsimp only
  split
  · exact Nat.le_refl _
  · split
    · exact Nat.le_succ _
    · split
      · exact Nat.le_refl _
      · exact Nat.le_succ _

theorem gapExponent_eq {units e : Nat} (hlow : 2 ^ (52 + e) ≤ units) (hhigh : units < 2 ^ (53 + e)) :
    gapExponent units = e := by
  have hne : units ≠ 0 := Nat.ne_of_gt (Nat.lt_of_lt_of_le (Nat.two_pow_pos _) hlow)
  have hlog : units.log2 = 52 + e := by
    rw [Nat.log2_eq_iff hne]
    exact ⟨hlow, by rwa [Nat.add_right_comm]⟩
  unfold gapExponent precision
  omega

/-- Between the last two multiples of a gap before a power of two, rounding goes up from the middle on. -/
theorem roundUnits_near_top {r e : Nat} (hr : r < 2 ^ e) :
    roundUnits ((2 ^ 53 - 1) * 2 ^ e + r) 1 = if 2 * r < 2 ^ e then (2 ^ 53 - 1) * 2 ^ e else 2 ^ 53 * 2 ^ e := by
  have hgap : gapExponent ((2 ^ 53 - 1) * 2 ^ e + r) = e := by
    apply gapExponent_eq
    · rw [Nat.pow_add]
      omega
    · rw [Nat.pow_add]
      omega
  have hquotient : ((2 ^ 53 - 1) * 2 ^ e + r) / 2 ^ e = 2 ^ 53 - 1 := by
    rw [Nat.mul_comm, Nat.mul_add_div (Nat.two_pow_pos e), Nat.div_eq_of_lt hr, Nat.add_zero]
  have hrest : ((2 ^ 53 - 1) * 2 ^ e + r) % 2 ^ e = r := by
    rw [Nat.mul_comm, Nat.mul_add_mod, Nat.mod_eq_of_lt hr]
  unfold roundUnits
  dsimp only
  rw [Nat.div_one, hgap, Nat.one_mul, nearest]
  simp only [Nat.pow_eq, hquotient, hrest]
  split
  · rfl
  · split <;> rfl

/-- Rounding does not take a count below a power of two that it reaches. -/
theorem le_roundUnits_of_pow {units e : Nat} (h : 2 ^ (53 + e) ≤ units) : 2 ^ (53 + e) ≤ roundUnits units 1 := by
  have hne : units ≠ 0 := Nat.ne_of_gt (Nat.lt_of_lt_of_le (Nat.two_pow_pos _) h)
  have hlog : 53 + e ≤ units.log2 := (Nat.le_log2 hne).2 h
  have hgap : gapExponent units = units.log2 - 52 := by
    unfold gapExponent precision
    omega
  calc 2 ^ (53 + e) ≤ 2 ^ units.log2 := Nat.pow_le_pow_right (by decide) hlog
    _ = 2 ^ 52 * 2 ^ (units.log2 - 52) := by
      rw [← Nat.pow_add]
      congr 1
      omega
    _ ≤ units / 2 ^ (units.log2 - 52) * 2 ^ (units.log2 - 52) := by
      apply Nat.mul_le_mul_right
      rw [Nat.le_div_iff_mul_le (Nat.two_pow_pos _), ← Nat.pow_add]
      refine Nat.le_trans (Nat.le_of_eq ?_) (Nat.log2_self_le hne)
      congr 1
      omega
    _ ≤ roundUnits units 1 := by
      unfold roundUnits
      dsimp only
      rw [Nat.div_one, Nat.one_mul, hgap]
      exact Nat.mul_le_mul_right _ (le_nearest _ _)

/-- The numbers below a power of two end a gap below it, and a count is rounded up to it from the middle of that gap on. -/
theorem lt_roundUnits_iff {units e : Nat} :
    (2 ^ 53 - 1) * 2 ^ (e + 1) < roundUnits units 1 ↔ (2 ^ 53 - 1) * 2 ^ (e + 1) + 2 ^ e ≤ units := by
  have hhalf : 2 ^ (e + 1) = 2 * 2 ^ e := Nat.pow_succ'
  have hpos : 0 < 2 ^ e := Nat.two_pow_pos e
  rcases Nat.lt_or_ge units ((2 ^ 53 - 1) * 2 ^ (e + 1)) with hlow | hhigh
  · have hgap : gapExponent units ≤ e + 1 := by
      by_cases hzero : units = 0
      · rw [hzero]
        exact Nat.zero_le _
      · have hlog : units.log2 < 53 + (e + 1) := by
          rw [Nat.log2_lt hzero, Nat.pow_add]
          omega
        unfold gapExponent precision
        omega
    have hround : roundUnits units 1 ≤ (2 ^ 53 - 1) * 2 ^ (e + 1) := roundUnits_le_of_gap (Nat.le_of_lt hlow) hgap
    omega
  · obtain ⟨r, rfl⟩ := Nat.exists_eq_add_of_le hhigh
    rcases Nat.lt_or_ge r (2 ^ (e + 1)) with hr | hr
    · rw [roundUnits_near_top hr]
      split <;> omega
    · have hpow : 2 ^ (53 + (e + 1)) ≤ (2 ^ 53 - 1) * 2 ^ (e + 1) + r := by
        rw [Nat.pow_add]
        omega
      have hround := le_roundUnits_of_pow hpow
      rw [Nat.pow_add] at hround
      omega

/-- The least integer that is nearer to the power of two past all numbers than to the greatest number, or as near. -/
def overflowBound : Nat := Nat.pow 2 1024 - Nat.pow 2 970

theorem overflowBound_units : overflowBound * unitsPerOne = maxUnits + Nat.pow 2 2044 := by decide +kernel

theorem maxUnits_lt_roundUnits_iff {units : Nat} :
    maxUnits < roundUnits units 1 ↔ maxUnits + Nat.pow 2 2044 ≤ units := by
  have hsucc : 2045 = 2044 + 1 := rfl
  unfold maxUnits
  rw [hsucc]
  generalize 2044 = e
  exact lt_roundUnits_iff

/-- Whole numbers are rounded to finite ones up to the bound. -/
theorem isFinite_ofRatio_iff (negative : Bool) (k : Nat) :
    (ofRatio negative k 1).isFinite = true ↔ ¬ overflowBound ≤ k := by
  have hbound : maxUnits < roundUnits (k * unitsPerOne) 1 ↔ overflowBound ≤ k := by
    rw [maxUnits_lt_roundUnits_iff, ← overflowBound_units]
    exact Nat.mul_le_mul_right_iff unitsPerOne_pos
  rw [← hbound, ofRatio, ofUnits]
  split
  · rename_i h
    exact iff_of_false Bool.false_ne_true (not_not_intro h)
  · rename_i h
    exact iff_of_true rfl h

theorem isSome_ofInt? (n : Int) : (ofInt? n).isSome = (ofRatio (n < 0) n.natAbs 1).isFinite := by
  -- the function is opened before it is applied: comparing its value at `n` would round
  have hopened : ∀ read, read = ofInt? → (read n).isSome = (ofRatio (n < 0) n.natAbs 1).isFinite := by
    delta ofInt?
    rintro read rfl
    dsimp only
    generalize ofRatio (n < 0) n.natAbs 1 = x
    cases x <;> rfl
  exact hopened ofInt? rfl

theorem ofInt?_eq_none_iff {n : Int} : ofInt? n = none ↔ overflowBound ≤ n.natAbs := by
  have hfinite := isFinite_ofRatio_iff (n < 0) n.natAbs
  rw [← isSome_ofInt?] at hfinite
  rw [← Option.not_isSome_iff_eq_none, hfinite, Decidable.not_not]

theorem nearest_mono (den : Nat) {a b : Nat} (h : a ≤ b) : nearest a den ≤ nearest b den := by
  rcases Nat.lt_or_ge (a / den) (b / den) with hlt | hge
  · calc nearest a den ≤ a / den + 1 := nearest_le_succ a den
      _ ≤ b / den := hlt
      _ ≤ nearest b den := le_nearest b den
  · -- in one gap the rests decide, and the greater one is rounded up if the other is
    have hquotient : b / den = a / den := Nat.le_antisymm hge (Nat.div_le_div_right h)
    have hrest : a % den ≤ b % den := by
      have ha := Nat.div_add_mod a den
      have hb := Nat.div_add_mod b den
      rw [hquotient] at hb
      omega
    unfold nearest
    simp only [hquotient]
    generalize a / den = q at *
    generalize a % den = r at *
    generalize b % den = t at *
    repeat' split
    all_goals omega

theorem gapExponent_mono {u v : Nat} (h : u ≤ v) : gapExponent u ≤ gapExponent v := by
  by_cases hu : u = 0
  · rw [hu]
    exact Nat.zero_le _
  · have hv : v ≠ 0 := by omega
    have hlog : u.log2 ≤ v.log2 := (Nat.le_log2 hv).2 (Nat.le_trans (Nat.log2_self_le hu) h)
    unfold gapExponent
    omega

theorem lt_pow_of_gapExponent {u e : Nat} (h : gapExponent u ≤ e) : u < 2 ^ (53 + e) := by
  have hlog : u.log2 + 1 ≤ 53 + e := by
    unfold gapExponent precision at h
    omega
  exact Nat.lt_of_lt_of_le Nat.lt_log2_self (Nat.pow_le_pow_right (by decide) hlog)

theorem pow_le_of_gapExponent {v e : Nat} (h : e < gapExponent v) : 2 ^ (53 + e) ≤ v := by
  have hlog : 53 + e ≤ v.log2 := by
    unfold gapExponent precision at h
    omega
  have hv : v ≠ 0 := by
    rintro rfl
    exact absurd h (Nat.not_lt_zero e)
  exact (Nat.le_log2 hv).1 hlog

/-- A greater count is not rounded to a smaller one. -/
theorem roundUnits_mono {u v : Nat} (h : u ≤ v) : roundUnits u 1 ≤ roundUnits v 1 := by
  rcases Nat.lt_or_ge (gapExponent u) (gapExponent v) with hlt | hge
  · -- between counts of different gaps there is a power of two that neither is rounded past
    have hu : u ≤ 2 ^ 53 * Nat.pow 2 (gapExponent u) := by
      rw [Nat.pow_eq, ← Nat.pow_add]
      exact Nat.le_of_lt (lt_pow_of_gapExponent (Nat.le_refl _))
    calc roundUnits u 1 ≤ 2 ^ 53 * Nat.pow 2 (gapExponent u) := roundUnits_le_of_gap hu (Nat.le_refl _)
      _ = 2 ^ (53 + gapExponent u) := (Nat.pow_add 2 53 _).symm
      _ ≤ roundUnits v 1 := le_roundUnits_of_pow (pow_le_of_gapExponent hlt)
  · have hgap : gapExponent u = gapExponent v := Nat.le_antisymm (gapExponent_mono h) hge
    unfold roundUnits
    simp only [Nat.div_one, Nat.one_mul, hgap]
    exact Nat.mul_le_mul_right _ (nearest_mono _ h)

theorem le_ofNat {m n : Nat} (h : m ≤ n) : le (ofNat m) (ofNat n) = true := by
  have hunits := roundUnits_mono (Nat.mul_le_mul_right unitsPerOne h)
  unfold ofNat ofRatio ofUnits
  dsimp only
  split <;> split
  · rfl
  · omega
  · rfl
  · simpa [le, signedUnits] using hunits

end LedgerSearch.Binary64

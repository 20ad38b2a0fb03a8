import LedgerSearch.Number.Shortest
import LedgerSearch.Proofs.WholeNumbers

/-!
# Rounded counts

A count of units that is rounded already (`IsRounded`) is the nearest one to all quotients between its bounds. The bounds
lie half a gap away, below a power of two a quarter of it, for there the next gap is half as wide (`roundUnits_eq`). So a
decimal that passes the test against these bounds is read as the count (`ofUnits_of_roundsTo`).
-/

namespace LedgerSearch.Binary64

section Nearest

variable {num den q : Nat}

/-- The whole number less than half a step away is the nearest one; so is an even one that is half a step away. -/
theorem nearest_eq (hlow : 2 * (q * den) ≤ 2 * num + den) (hhigh : 2 * num ≤ 2 * (q * den) + den)
    (hodd : q % 2 = 1 → 2 * (q * den) < 2 * num + den ∧ 2 * num < 2 * (q * den) + den) (hden : 0 < den) :
    nearest num den = q := by
  have hsum := Nat.div_add_mod num den
  have hrest := Nat.mod_lt num hden
  rw [Nat.mul_comm] at hsum
  unfold nearest
  dsimp only
  rcases Nat.lt_trichotomy (num / den) q with hlt | heq | hgt
  · -- the quotient is one below: two steps would be too far
    rcases Nat.lt_or_eq_of_le (Nat.succ_le_of_lt hlt) with hfar | hnext
    · have htwo : (num / den + 1 + 1) * den ≤ q * den := Nat.mul_le_mul_right den hfar
      rw [Nat.succ_mul, Nat.succ_mul] at htwo
      omega
    · rw [← hnext, Nat.succ_mul (num / den)] at hlow hhigh hodd
      rw [← hnext]
      repeat' split
      all_goals omega
  · rw [← heq] at hlow hhigh hodd ⊢
    repeat' split
    all_goals omega
  · have hnext : (q + 1) * den ≤ num / den * den := Nat.mul_le_mul_right den hgt
    rw [Nat.succ_mul] at hnext
    omega

/-- The nearest whole number is at most half a step away. -/
theorem nearest_close (num : Nat) (hden : 0 < den) :
    2 * (nearest num den * den) ≤ 2 * num + den ∧ 2 * num ≤ 2 * (nearest num den * den) + den := by
  have hsum := Nat.div_add_mod num den
  have hrest := Nat.mod_lt num hden
  rw [Nat.mul_comm] at hsum
  have hnext : (num / den + 1) * den = num / den * den + den := Nat.succ_mul _ _
  unfold nearest
  dsimp only
  repeat' split
  all_goals omega

theorem nearest_mul_mul {c : Nat} (hc : 0 < c) (num den : Nat) : nearest (c * num) (c * den) = nearest num den := by
  have hlow : 2 * (c * (num % den)) < c * den ↔ 2 * (num % den) < den := by
    rw [Nat.mul_left_comm, Nat.mul_lt_mul_left hc]
  have hhigh : c * den < 2 * (c * (num % den)) ↔ den < 2 * (num % den) := by
    rw [Nat.mul_left_comm, Nat.mul_lt_mul_left hc]
  unfold nearest
  simp only [Nat.mul_div_mul_left num den hc, Nat.mul_mod_mul_left, hlow, hhigh]

end Nearest

section Quotients

variable {num den : Nat}

theorem roundUnits_mul_mul {c : Nat} (hc : 0 < c) (num den : Nat) :
    roundUnits (c * num) (c * den) = roundUnits num den := by
  unfold roundUnits
  dsimp only
  rw [Nat.mul_div_mul_left num den hc, Nat.mul_assoc c, nearest_mul_mul hc]

theorem ofUnits_mul_mul (negative : Bool) {c : Nat} (hc : 0 < c) (num den : Nat) :
    ofUnits negative (c * num) (c * den) = ofUnits negative num den := by
  unfold ofUnits
  rw [roundUnits_mul_mul hc]

/-- A quotient is rounded no lower than what is left of it without its places. -/
theorem roundUnits_floor_le (num : Nat) (hden : 0 < den) : roundUnits (num / den) 1 ≤ roundUnits num den := by
  unfold roundUnits
  dsimp only
  rw [Nat.div_one, Nat.one_mul]
  apply Nat.mul_le_mul_right
  rw [← nearest_mul_mul hden (num / den)]
  exact nearest_mono _ (Nat.mul_div_le num den)

theorem gapExponent_le_iff {units e : Nat} : gapExponent units ≤ e ↔ units < 2 ^ (53 + e) :=
  ⟨lt_pow_of_gapExponent, fun h => Nat.not_lt.1 fun hlt => Nat.not_lt.2 (pow_le_of_gapExponent hlt) h⟩

theorem gapExponent_eq_of {units e : Nat} (hhigh : units < 2 ^ (53 + e)) (hlow : e = 0 ∨ 2 ^ (52 + e) ≤ units) :
    gapExponent units = e := by
  refine Nat.le_antisymm (gapExponent_le_iff.2 hhigh) ?_
  rcases hlow with rfl | hlow
  · exact Nat.zero_le _
  · refine Nat.not_lt.1 fun hlt => ?_
    have hless : units < 2 ^ (53 + (e - 1)) := gapExponent_le_iff.1 (by omega)
    have hexponent : 53 + (e - 1) = 52 + e := by omega
    rw [hexponent] at hless
    omega

end Quotients

/-- A count of at most `precision` binary digits, apart from the zeros at its end. -/
def IsRounded (units : Nat) : Prop := 2 ^ gapExponent units ∣ units

theorem isRounded_roundUnits (num : Nat) {den : Nat} (hden : 0 < den) : IsRounded (roundUnits num den) := by
  have hle : nearest num (den * Nat.pow 2 (gapExponent (num / den))) ≤ 2 ^ 53 := by
    apply nearest_le (Nat.mul_pos hden (Nat.two_pow_pos _))
    have hlt := lt_pow_of_gapExponent (Nat.le_refl (gapExponent (num / den)))
    rw [Nat.div_lt_iff_lt_mul hden, Nat.pow_add, Nat.mul_assoc, Nat.mul_comm _ den] at hlt
    exact Nat.le_of_lt hlt
  unfold IsRounded roundUnits
  dsimp only
  rw [Nat.pow_eq] at hle ⊢
  generalize gapExponent (num / den) = e at *
  rcases Nat.lt_or_eq_of_le hle with hlt | heq
  · have hgap : gapExponent (nearest num (den * 2 ^ e) * 2 ^ e) ≤ e := by
      rw [gapExponent_le_iff, Nat.pow_add]
      exact Nat.mul_lt_mul_of_pos_right hlt (Nat.two_pow_pos e)
    exact Nat.dvd_trans (Nat.pow_dvd_pow 2 hgap) (Nat.dvd_mul_left _ _)
  · have hgap : gapExponent (2 ^ 53 * 2 ^ e) ≤ 53 + e := by
      rw [gapExponent_le_iff, ← Nat.pow_add]
      exact Nat.pow_lt_pow_right (by decide) (by omega)
    rw [heq, ← Nat.pow_add] at *
    exact Nat.pow_dvd_pow 2 hgap

/-- A quotient is rounded by at most half a gap. -/
theorem roundUnits_close (num : Nat) {den : Nat} (hden : 0 < den) :
    2 * (roundUnits num den * den) ≤ 2 * num + den * 2 ^ gapExponent (num / den) ∧
      2 * num ≤ 2 * (roundUnits num den * den) + den * 2 ^ gapExponent (num / den) := by
  have hclose := nearest_close num (Nat.mul_pos hden (Nat.two_pow_pos (gapExponent (num / den))))
  have hproduct : roundUnits num den * den =
      nearest num (den * 2 ^ gapExponent (num / den)) * (den * 2 ^ gapExponent (num / den)) := by
    unfold roundUnits
    dsimp only
    rw [Nat.mul_assoc, Nat.mul_comm _ den, Nat.pow_eq]
  rwa [hproduct]

/-- Rounding does not make a gap narrower. -/
theorem gapExponent_div_le (num : Nat) {den : Nat} (hden : 0 < den) :
    gapExponent (num / den) ≤ gapExponent (roundUnits num den) := by
  refine Nat.not_lt.1 fun hlt => ?_
  have hquotient := le_roundUnits_of_pow (pow_le_of_gapExponent hlt)
  have hround := lt_pow_of_gapExponent (Nat.le_refl (gapExponent (roundUnits num den)))
  exact Nat.not_lt.2 (Nat.le_trans hquotient (roundUnits_floor_le num hden)) hround

/-- A rounded count stays as it is. -/
theorem IsRounded.roundUnits_eq_self {units : Nat} (h : IsRounded units) : roundUnits units 1 = units := by
  have hpos : 0 < 2 ^ gapExponent units := Nat.two_pow_pos _
  obtain ⟨q, hq⟩ := h
  have hnearest : nearest units (1 * Nat.pow 2 (gapExponent (units / 1))) = q := by
    rw [Nat.div_one, Nat.one_mul, Nat.pow_eq]
    generalize 2 ^ gapExponent units = gap at *
    rw [Nat.mul_comm] at hq
    exact nearest_eq (by omega) (by omega) (by omega) hpos
  unfold roundUnits
  dsimp only
  rw [hnearest, Nat.div_one, Nat.pow_eq, Nat.mul_comm, ← hq]

theorem roundUnits_of_ofUnits {negative s : Bool} {num den units : Nat} (h : ofUnits negative num den = finite s units) :
    roundUnits num den = units ∧ units ≤ maxUnits := by
  unfold ofUnits at h
  dsimp only at h
  split at h
  case isTrue => cases h
  case isFalse hle =>
    rw [finite.injEq] at h
    exact ⟨h.2, h.2 ▸ Nat.not_lt.1 hle⟩

/-- A rounded count that is not zero is a multiple of its gap with 53 binary digits, or with fewer if the gap is one. -/
theorem IsRounded.exists_multiple {units : Nat} (h : IsRounded units) :
    ∃ q, units = q * 2 ^ gapExponent units ∧ q < 2 ^ 53 ∧ (gapExponent units = 0 ∨ 2 ^ 52 ≤ q) := by
  obtain ⟨q, hq⟩ := h
  rw [Nat.mul_comm] at hq
  have hlt := lt_pow_of_gapExponent (Nat.le_refl (gapExponent units))
  have hlow : gapExponent units = 0 ∨ 2 ^ (52 + gapExponent units) ≤ units := by
    rcases Nat.eq_zero_or_pos (gapExponent units) with hzero | hpos
    · exact .inl hzero
    · obtain ⟨e, he⟩ := Nat.exists_eq_add_of_lt hpos
      have hle : 2 ^ (53 + e) ≤ units := pow_le_of_gapExponent (by omega)
      refine .inr (Nat.le_trans (Nat.le_of_eq ?_) hle)
      congr 1
      omega
  generalize gapExponent units = e at *
  rw [Nat.pow_add, hq] at hlt hlow
  exact ⟨q, hq, Nat.lt_of_mul_lt_mul_right hlt, hlow.imp_right fun h => Nat.le_of_mul_le_mul_right h (Nat.two_pow_pos e)⟩

theorem gapExponent_div_eq {num den e : Nat} (hden : 0 < den) (hhigh : num < 2 ^ 53 * (den * 2 ^ e))
    (hlow : e = 0 ∨ 2 ^ 52 * (den * 2 ^ e) ≤ num) : gapExponent (num / den) = e := by
  have hscale : ∀ k, 2 ^ (k + e) * den = 2 ^ k * (den * 2 ^ e) := fun k => by
    rw [Nat.pow_add]
    ac_rfl
  apply gapExponent_eq_of
  · rwa [Nat.div_lt_iff_lt_mul hden, hscale]
  · rwa [Nat.le_div_iff_mul_le hden, hscale]

/-- The bounds are counted in quarters of a unit. -/
theorem roundingBounds_eq (units : Nat) : roundingBounds units =
    (4 * units - if units = 2 ^ 52 * 2 ^ gapExponent units ∧ 1 < 2 ^ gapExponent units then 2 ^ gapExponent units
      else 2 * 2 ^ gapExponent units, 4 * units + 2 * 2 ^ gapExponent units) := rfl

theorem roundUnits_of_gapExponent {num den e q : Nat} (hden : 0 < den) (hgap : gapExponent (num / den) = e)
    (hlow : 2 * (q * (den * 2 ^ e)) ≤ 2 * num + den * 2 ^ e) (hhigh : 2 * num ≤ 2 * (q * (den * 2 ^ e)) + den * 2 ^ e)
    (hodd : q % 2 = 1 →
      2 * (q * (den * 2 ^ e)) < 2 * num + den * 2 ^ e ∧ 2 * num < 2 * (q * (den * 2 ^ e)) + den * 2 ^ e) :
    roundUnits num den = q * 2 ^ e := by
  have hstep : 0 < den * 2 ^ e := Nat.mul_pos hden (Nat.two_pow_pos e)
  have hnearest : nearest num (den * 2 ^ e) = q := nearest_eq hlow hhigh hodd hstep
  unfold roundUnits
  dsimp only
  rw [hgap, Nat.pow_eq, hnearest]

/-- Below a power of two a step is half as long, so the quotient has to be nearer to it. -/
theorem roundUnits_below_pow {num den k : Nat} (hden : 0 < den)
    (hlow : 2 * (2 ^ 53 * (den * 2 ^ k)) ≤ 2 * num + den * 2 ^ k) (hless : num < 2 ^ 53 * (den * 2 ^ k)) :
    roundUnits num den = 2 ^ 53 * 2 ^ k := by
  have hpos : 0 < den * 2 ^ k := Nat.mul_pos hden (Nat.two_pow_pos k)
  have hgap : gapExponent (num / den) = k := gapExponent_div_eq hden hless (.inr (by omega))
  exact roundUnits_of_gapExponent hden hgap hlow (by omega) (by omega)

/-- A quotient at most half a gap away is rounded to a multiple of the gap, if it does not lie in a narrower gap. -/
theorem roundUnits_of_near {num den e q : Nat} (hden : 0 < den) (hq : q < 2 ^ 53)
    (hleast : e = 0 ∨ 2 ^ 52 * (den * 2 ^ e) ≤ num) (hlow : 2 * (q * (den * 2 ^ e)) ≤ 2 * num + den * 2 ^ e)
    (hhigh : 2 * num ≤ 2 * (q * (den * 2 ^ e)) + den * 2 ^ e) (hodd : q % 2 = 1 →
      2 * (q * (den * 2 ^ e)) < 2 * num + den * 2 ^ e ∧ 2 * num < 2 * (q * (den * 2 ^ e)) + den * 2 ^ e) :
    roundUnits num den = q * 2 ^ e := by
  have hpos : 0 < den * 2 ^ e := Nat.mul_pos hden (Nat.two_pow_pos e)
  have hmost : q * (den * 2 ^ e) ≤ (2 ^ 53 - 1) * (den * 2 ^ e) := Nat.mul_le_mul_right _ (Nat.le_sub_one_of_lt hq)
  exact roundUnits_of_gapExponent hden (gapExponent_div_eq hden (by omega) hleast) hlow hhigh hodd

/-- All quotients between the bounds of a rounded count are rounded to it. -/
theorem roundUnits_eq {units num den : Nat} (hrounded : IsRounded units) (hden : 0 < den)
    (hlow : (roundingBounds units).1 * den ≤ 4 * num) (hhigh : 4 * num ≤ (roundingBounds units).2 * den)
    (hodd : units / 2 ^ gapExponent units % 2 = 1 →
      (roundingBounds units).1 * den < 4 * num ∧ 4 * num < (roundingBounds units).2 * den) :
    roundUnits num den = units := by
  obtain ⟨q, hunits, hq, hdigits⟩ := hrounded.exists_multiple
  have hquotient : units / 2 ^ gapExponent units = q := by
    conv => lhs; lhs; rw [hunits]
    exact Nat.mul_div_cancel q (Nat.two_pow_pos _)
  rw [hquotient] at hodd
  rw [roundingBounds_eq] at hlow hhigh hodd
  dsimp only at hlow hhigh hodd
  generalize gapExponent units = e at *
  subst hunits
  -- everything is measured in steps of one gap
  have hscale : 4 * (q * 2 ^ e) * den = 4 * (q * (den * 2 ^ e)) ∧ 2 * 2 ^ e * den = 2 * (den * 2 ^ e) :=
    ⟨by ac_rfl, by ac_rfl⟩
  rw [Nat.add_mul, hscale.1, hscale.2] at hhigh hodd
  rw [Nat.sub_mul, hscale.1] at hlow hodd
  by_cases hedge : e ≠ 0 ∧ q = 2 ^ 52 ∧ num < q * (den * 2 ^ e)
  · obtain ⟨he, rfl, hless⟩ := hedge
    obtain ⟨k, rfl⟩ : ∃ k, e = k + 1 := Nat.exists_eq_succ_of_ne_zero he
    have hhalf : den * 2 ^ (k + 1) = 2 * (den * 2 ^ k) := by
      rw [Nat.pow_succ]
      ac_rfl
    rw [if_pos ⟨rfl, Nat.one_lt_two_pow he⟩, Nat.mul_comm _ den, hhalf] at hlow
    rw [hhalf] at hless
    rw [roundUnits_below_pow (k := k) hden (by omega) (by omega), Nat.pow_succ _ k]
    omega
  · have hwidth : (if q * 2 ^ e = 2 ^ 52 * 2 ^ e ∧ 1 < 2 ^ e then 2 ^ e else 2 * 2 ^ e) * den ≤ 2 * (den * 2 ^ e) := by
      split
      · rw [Nat.mul_comm _ den]
        omega
      · exact Nat.le_of_eq hscale.2
    have hleast : e = 0 ∨ 2 ^ 52 * (den * 2 ^ e) ≤ num := by
      rcases hdigits with hzero | hq
      · exact .inl hzero
      · rcases Nat.lt_or_eq_of_le hq with hmore | rfl
        · have hnext : (2 ^ 52 + 1) * (den * 2 ^ e) ≤ q * (den * 2 ^ e) := Nat.mul_le_mul_right _ hmore
          omega
        · by_cases hzero : e = 0
          · exact .inl hzero
          · exact .inr (Nat.not_lt.1 fun hless => hedge ⟨hzero, rfl, hless⟩)
    refine roundUnits_of_near hden hq hleast (by omega) (by omega) fun h => ?_
    obtain ⟨habove, hbelow⟩ := hodd h
    omega

theorem ofUnits_of_roundsTo {units d num den : Nat} (hrounded : IsRounded units) (hmax : units ≤ maxUnits) (hden : 0 < den)
    (h : roundsTo units d num den = true) : ofUnits false (d * num) den = finite false units := by
  have hround : roundUnits (d * num) den = units := by
    unfold roundsTo at h
    simp only [Nat.mul_assoc, Nat.pow_eq] at h
    split at h
    case isTrue heven =>
      rw [Bool.and_eq_true, decide_eq_true_eq, decide_eq_true_eq] at h
      exact roundUnits_eq hrounded hden h.1 h.2 fun hodd => absurd heven (by omega)
    case isFalse =>
      rw [Bool.and_eq_true, decide_eq_true_eq, decide_eq_true_eq] at h
      exact roundUnits_eq hrounded hden (Nat.le_of_lt h.1) (Nat.le_of_lt h.2) fun _ => h
  rw [ofUnits_of_le false (hround.symm ▸ hmax), hround]

end LedgerSearch.Binary64

import LedgerSearch.Proofs.RoundedCounts

/-!
# Rounded shares

The share that a high latency is to cover, nineteen twentieths, is no number; the one next to it lies below. Of a multiple
of twenty this loss is less than half a gap and is rounded away (`roundUnits_share_of_eq`), so a rounded share never drops
below the whole number that it reaches, and it stays below the next one (`within_share`). Rounding as such adds no more
than a part in as many as 53 binary digits tell apart (`roundUnits_relative`).
-/

namespace LedgerSearch

namespace Binary64

section Rounding

variable {q n units : Nat}

/-- A number of few binary digits, moved to any place, is rounded already. -/
theorem isRounded_mul_pow (hq : q < 2 ^ 53) (e : Nat) : IsRounded (q * 2 ^ e) := by
  have hless : q * 2 ^ e < 2 ^ (53 + e) := by
    rw [Nat.pow_add]
    exact Nat.mul_lt_mul_of_pos_right hq (Nat.two_pow_pos e)
  exact Nat.dvd_trans (Nat.pow_dvd_pow 2 (gapExponent_le_iff.2 hless)) (Nat.dvd_mul_left _ _)

theorem isRounded_ofNat (h : n < 2 ^ 53) : IsRounded (n * unitsPerOne) := by
  unfold unitsPerOne
  generalize 1074 = e
  exact isRounded_mul_pow h e

/-- Rounding adds at most one part in as many as 53 binary digits tell apart. -/
theorem roundUnits_relative (num : Nat) {den : Nat} (hden : 0 < den) (h : den = 1 ∨ 2 ^ 52 * den ≤ num) :
    2 ^ 53 * (roundUnits num den * den) ≤ (2 ^ 53 + 1) * num := by
  have hclose := (roundUnits_close num hden).1
  cases hgap : gapExponent (num / den) with
  | zero =>
    rw [hgap, Nat.pow_zero, Nat.mul_one] at hclose
    rcases h with rfl | h
    · have hrounded : IsRounded num := by
        rw [Nat.div_one] at hgap
        rw [IsRounded, hgap]
        exact Nat.one_dvd _
      rw [hrounded.roundUnits_eq_self]
      omega
    · omega
  | succ e =>
    have hquotient : 2 ^ (53 + e) * den ≤ num :=
      (Nat.le_div_iff_mul_le hden).1 (pow_le_of_gapExponent (hgap ▸ Nat.lt_succ_self e))
    have hgapWidth : 2 ^ (53 + e) * den = 2 ^ 52 * (den * 2 ^ (e + 1)) := by
      rw [Nat.mul_comm den, ← Nat.mul_assoc, ← Nat.pow_add]
      congr 2
      omega
    rw [hgap] at hclose
    omega

theorem ofNat_eq (h : n < 2 ^ 53) : ofNat n = finite false (n * unitsPerOne) := by
  have hround := (isRounded_ofNat h).roundUnits_eq_self
  rw [ofNat, ofRatio, ofUnits_of_le false (by rw [hround]; exact units_le_maxUnits h), hround]

/-- What a number is above one, without its places. -/
theorem toNat_floor_sub_one (hmax : units ≤ maxUnits) :
    ((sub (finite false units) one).floor?.getD 0).toNat = roundUnits (units - unitsPerOne) 1 / unitsPerOne := by
  rw [sub, one_eq, neg, add_finite, if_neg (by decide), ofSigned]
  simp only [signedUnits, Bool.not_false, if_true, Bool.false_eq_true, if_false]
  rcases Nat.lt_or_ge units unitsPerOne with hless | hge
  · have hneg : ((units : Int) + -(unitsPerOne : Int) < 0) := by omega
    have hnone : roundUnits (units - unitsPerOne) 1 = 0 := by
      rw [Nat.sub_eq_zero_of_le (Nat.le_of_lt hless)]
      rfl
    rw [decide_eq_true hneg, hnone, Nat.zero_div, Int.toNat_eq_zero, ofUnits]
    split
    · exact Int.le_refl 0
    · rw [floor?, Option.getD_some, signedUnits, if_pos rfl]
      rw [Int.fdiv_eq_ediv_of_nonneg _ (Int.natCast_nonneg _)]
      exact Int.ediv_nonpos_of_nonpos_of_neg (by omega) (Int.natCast_pos.2 unitsPerOne_pos)
  · have hpos : ¬((units : Int) + -(unitsPerOne : Int) < 0) := by omega
    have habs : ((units : Int) + -(unitsPerOne : Int)).natAbs = units - unitsPerOne := by omega
    have hround := roundUnits_le_maxUnits (Nat.le_trans (Nat.sub_le units unitsPerOne) hmax)
    rw [decide_eq_false hpos, habs, ofUnits_of_le false hround, floor?, Option.getD_some, signedUnits, if_neg (by decide),
      ← Int.ofNat_fdiv, Int.toNat_natCast]

end Rounding

/-- The gap between the numbers from a half to one. -/
def halfGap : Nat := Nat.pow 2 1021

theorem unitsPerOne_eq : unitsPerOne = 2 ^ 53 * halfGap := by decide +kernel

theorem mul_unitsPerOne_eq (n : Nat) : n * unitsPerOne = 2 ^ 53 * (n * halfGap) := by
  rw [unitsPerOne_eq, Nat.mul_left_comm]

theorem unitsPerOne_parts : ∃ e, unitsPerOne = 32 * 2 ^ e := ⟨1069, by decide +kernel⟩

theorem halfGap_pos : 0 < halfGap := by decide +kernel

/-- The number next to nineteen twentieths, two fifths of a gap below them. -/
def share : Nat := 8556839292003942 * halfGap

theorem ofRatio_share : ofRatio false 95 100 = finite false share := by decide +kernel

theorem mul_share_eq (n : Nat) : n * share = 8556839292003942 * (n * halfGap) := Nat.mul_left_comm _ _ _

section Share

variable {n m units : Nat}

/-- No less than a whole number, and by a part in 32 at least below the next one. -/
structure Within (m units : Nat) : Prop where
  low : m * unitsPerOne ≤ units
  high : 32 * units ≤ 32 * (m * unitsPerOne) + 31 * unitsPerOne

namespace Within

theorem div_eq (h : Within m units) : units / unitsPerOne = m := by
  have hones := unitsPerOne_pos
  have hhigh := h.high
  refine Nat.div_eq_of_lt_le h.low ?_
  rw [Nat.succ_mul]
  omega

theorem le_maxUnits (h : Within m units) (hm : m < 2 ^ 48) : units ≤ maxUnits := by
  have hmax := units_le_maxUnits (show m + 1 < 2 ^ 53 by omega)
  have hhigh := h.high
  rw [Nat.succ_mul] at hmax
  omega

theorem sub_one (h : Within (m + 1) units) : Within m (units - unitsPerOne) := by
  obtain ⟨hlow, hhigh⟩ := h
  rw [Nat.succ_mul m] at hlow hhigh
  constructor
  · omega
  · omega

/-- Both bounds have few binary digits, so rounding does not pass them. -/
theorem roundUnits (h : Within m units) (hm : m < 2 ^ 48) : Within m (roundUnits units 1) := by
  obtain ⟨e, hparts⟩ := unitsPerOne_parts
  have hfloor := (isRounded_ofNat (Nat.lt_trans hm (by decide))).roundUnits_eq_self
  have htop := (isRounded_mul_pow (q := 32 * m + 31) (by omega) e).roundUnits_eq_self
  obtain ⟨hlow, hhigh⟩ := h
  constructor
  · rw [← hfloor]
    exact roundUnits_mono hlow
  · have hbound : 32 * (m * unitsPerOne) + 31 * unitsPerOne = 32 * ((32 * m + 31) * 2 ^ e) := by
      rw [hparts, Nat.add_mul, Nat.mul_assoc 32 m, Nat.mul_left_comm m 32]
      omega
    rw [hbound] at hhigh ⊢
    rw [← htop]
    exact Nat.mul_le_mul_left 32 (roundUnits_mono (Nat.le_of_mul_le_mul_left hhigh (by decide)))

end Within

/-- Nineteen twentieths of a multiple of twenty are rounded to the whole number they are. -/
theorem roundUnits_share_of_eq (hpos : 0 < n) (hless : n < 2 ^ 48) (hm : 20 * m = 19 * n) :
    roundUnits (n * share) 1 = m * unitsPerOne := by
  have hrounded : IsRounded (m * unitsPerOne) := isRounded_ofNat (by omega)
  have hwidth := lt_pow_of_gapExponent (Nat.le_refl (gapExponent (m * unitsPerOne)))
  have hbounds := roundingBounds_eq (m * unitsPerOne)
  have hgaps : 0 < n * halfGap := Nat.mul_pos hpos halfGap_pos
  have hparts : 20 * (m * halfGap) = 19 * (n * halfGap) := by
    rw [← Nat.mul_assoc, hm, Nat.mul_assoc]
  rw [Nat.pow_add] at hwidth
  rw [mul_share_eq]
  -- the share misses the whole number by less than half a gap, and even by less than a quarter of it below a power of two
  have hnear : (roundingBounds (m * unitsPerOne)).1 < 4 * (8556839292003942 * (n * halfGap)) ∧
      4 * (8556839292003942 * (n * halfGap)) < (roundingBounds (m * unitsPerOne)).2 := by
    rw [hbounds]
    dsimp only
    generalize 2 ^ gapExponent (m * unitsPerOne) = gap at *
    rw [mul_unitsPerOne_eq] at hwidth ⊢
    split <;> omega
  apply roundUnits_eq hrounded Nat.one_pos
  · rw [Nat.mul_one]
    exact Nat.le_of_lt hnear.1
  · rw [Nat.mul_one]
    exact Nat.le_of_lt hnear.2
  · rw [Nat.mul_one, Nat.mul_one]
    exact fun _ => hnear

/-- Nineteen twentieths of a number are rounded to no less than the whole number below them, and short of the next one. -/
theorem within_share (hpos : 0 < n) (hless : n < 2 ^ 48) : Within (19 * n / 20) (roundUnits (n * share) 1) := by
  by_cases hdvd : 19 * n % 20 = 0
  · rw [roundUnits_share_of_eq (m := 19 * n / 20) hpos hless (by omega)]
    exact ⟨Nat.le_refl _, Nat.le_add_right _ _⟩
  · have hfloor : 20 * (19 * n / 20) + 1 ≤ 19 * n ∧ 19 * n ≤ 20 * (19 * n / 20) + 19 := by omega
    generalize 19 * n / 20 = m at *
    have hlow := Nat.mul_le_mul_right halfGap hfloor.1
    have hhigh := Nat.mul_le_mul_right halfGap hfloor.2
    have hbound := Nat.mul_le_mul_right halfGap hless
    simp only [Nat.add_mul, Nat.mul_assoc, Nat.succ_mul] at hlow hhigh hbound
    refine Within.roundUnits ⟨?_, ?_⟩ (by omega)
    · rw [mul_share_eq, mul_unitsPerOne_eq]
      omega
    · rw [mul_share_eq, mul_unitsPerOne_eq, unitsPerOne_eq]
      omega

theorem mul_share (h : n < 2 ^ 53) : mul (ofNat n) (ofRatio false 95 100) = ofUnits false (n * share) 1 := by
  rw [ofNat_eq h, ofRatio_share, mul_finite, Nat.mul_right_comm, Nat.mul_comm _ unitsPerOne]
  conv => lhs; arg 3; rw [← Nat.mul_one unitsPerOne]
  exact ofUnits_mul_mul false unitsPerOne_pos _ 1

/-- A share of one or more exceeds the exact one by no more than rounding adds. -/
theorem roundUnits_share_le (h : unitsPerOne ≤ units) :
    2 ^ 106 * roundUnits (units * share) unitsPerOne ≤ (2 ^ 53 + 1) * (8556839292003942 * units) := by
  have hlarge : 2 ^ 52 * unitsPerOne ≤ units * share := by
    have hshare : 2 ^ 52 ≤ share := by decide +kernel
    rw [Nat.mul_comm]
    exact Nat.mul_le_mul h hshare
  have hnear := roundUnits_relative _ unitsPerOne_pos (.inr hlarge)
  rw [mul_unitsPerOne_eq, mul_share_eq] at hnear
  rw [mul_share_eq]
  refine Nat.le_of_mul_le_mul_right ?_ halfGap_pos
  rw [Nat.mul_assoc, Nat.mul_assoc, Nat.mul_assoc 8556839292003942]
  omega

theorem negative_of_ofUnits {negative s : Bool} {num den : Nat} (h : ofUnits negative num den = finite s units) :
    s = negative := by
  unfold ofUnits at h
  dsimp only at h
  split at h
  · cases h
  · rw [finite.injEq] at h
    exact h.1.symm

/-- However large a number is, a finite share of it is rounded to nowhere near the number itself. -/
theorem mul_share_lt {s : Bool} (hpos : 0 < n) (h : mul (ofNat n) (ofRatio false 95 100) = finite s units) :
    s = false ∧ units ≤ maxUnits ∧ 2 ^ 53 * units < (2 ^ 53 - 1) * (n * unitsPerOne) := by
  rw [ofRatio_share] at h
  cases hn : ofNat n with
  | nan =>
    rw [hn] at h
    cases h
  | infinite t =>
    have hshare : share ≠ 0 := by decide +kernel
    rw [hn, mul, if_neg hshare] at h
    cases h
  | finite t whole =>
    rw [hn, mul_finite] at h
    rw [ofNat, ofRatio] at hn
    obtain rfl := negative_of_ofUnits hn
    obtain ⟨hround, hmax⟩ := roundUnits_of_ofUnits h
    obtain ⟨hwhole, -⟩ := roundUnits_of_ofUnits hn
    refine ⟨negative_of_ofUnits h, hmax, ?_⟩
    have hones : unitsPerOne ≤ whole := by
      have hone := (isRounded_ofNat (n := 1) (by decide)).roundUnits_eq_self
      rw [Nat.one_mul] at hone
      rw [← hone, ← hwhole]
      exact roundUnits_mono (Nat.le_mul_of_pos_left _ hpos)
    have hnear := roundUnits_relative (n * unitsPerOne) Nat.one_pos (.inl rfl)
    have hshare := roundUnits_share_le hones
    rw [hwhole, Nat.mul_one] at hnear
    rw [hround] at hshare
    have hsome : 0 < n * unitsPerOne := Nat.mul_pos hpos unitsPerOne_pos
    omega

end Share

end Binary64
end LedgerSearch

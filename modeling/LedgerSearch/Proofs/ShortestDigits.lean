import LedgerSearch.Number.Notation
import LedgerSearch.Proofs.RoundedCounts

/-!
# Shortest digits

The grids of decimals are tried from the coarsest on. On a grid of seventeen digits two neighbours lie less than a gap
apart, so one of them is rounded to the number (`exists_onGrid`), and whatever grid comes first, what is found on it is
rounded to the number (`ofScaled_shortest`).
-/

namespace LedgerSearch.Binary64

/-- The number nearest to `digits * 10 ^ exponent`. -/
def ofScaled (digits : Nat) (exponent : Int) : Binary64 :=
  ofUnits false (digits * (gridScale exponent).1) (gridScale exponent).2

theorem gridScale_pos (exponent : Int) : 0 < (gridScale exponent).1 ∧ 0 < (gridScale exponent).2 := by
  unfold gridScale
  split <;> dsimp only
  · exact ⟨Nat.mul_pos unitsPerOne_pos (Nat.pow_pos (by decide)), Nat.one_pos⟩
  · exact ⟨unitsPerOne_pos, Nat.pow_pos (by decide)⟩

/-- The scale of a grid over a power of ten. -/
theorem gridScale_eq {exponent : Int} {n s : Nat} (h : exponent + s = n) :
    (gridScale exponent).1 * 10 ^ s = unitsPerOne * 10 ^ n * (gridScale exponent).2 := by
  unfold gridScale
  split
  case isTrue =>
    have hn : n = exponent.toNat + s := by omega
    rw [hn, Nat.pow_add, Nat.pow_eq, Nat.mul_one, Nat.mul_assoc]
  case isFalse =>
    have hs : s = n + (-exponent).toNat := by omega
    rw [hs, Nat.pow_add, Nat.pow_eq, Nat.mul_assoc]

theorem ofScaled_eq {exponent : Int} {n s : Nat} (h : exponent + s = n) (digits : Nat) :
    ofScaled digits exponent = ofUnits false (digits * (unitsPerOne * 10 ^ n)) (10 ^ s) := by
  have hscale := gridScale_eq h
  have hten : 0 < 10 ^ s := Nat.pow_pos (by decide)
  unfold ofScaled
  rw [← ofUnits_mul_mul false hten, ← ofUnits_mul_mul false (gridScale_pos exponent).2 _ (10 ^ s)]
  refine congrArg₂ (ofUnits false) ?_ (Nat.mul_comm _ _)
  calc 10 ^ s * (digits * (gridScale exponent).1) = digits * ((gridScale exponent).1 * 10 ^ s) := by ac_rfl
    _ = (gridScale exponent).2 * (digits * (unitsPerOne * 10 ^ n)) := by
      rw [hscale]
      generalize unitsPerOne = one
      ac_rfl

theorem ofScaled_neg (digits s : Nat) : ofScaled digits (-s) = ofUnits false (digits * unitsPerOne) (10 ^ s) := by
  have h : -(s : Int) + s = (0 : Nat) := by omega
  rw [ofScaled_eq h, Nat.pow_zero, Nat.mul_one]

/-- Zeros at the end of the digits may be counted by the exponent. -/
theorem ofScaled_mul_pow (digits : Nat) (exponent : Int) (k : Nat) :
    ofScaled (digits * 10 ^ k) exponent = ofScaled digits (exponent + k) := by
  obtain ⟨n, s, h⟩ : ∃ n s : Nat, exponent + s = n := ⟨exponent.toNat, (-exponent).toNat, by omega⟩
  have hk : exponent + k + s = (n + k : Nat) := by omega
  have hproduct : digits * 10 ^ k * (unitsPerOne * 10 ^ n) = digits * (unitsPerOne * 10 ^ (n + k)) := by
    rw [Nat.pow_add]
    generalize unitsPerOne = one
    ac_rfl
  rw [ofScaled_eq h, ofScaled_eq hk, hproduct]

theorem ofScaled_trimZeros (d : Decimal) (fuel : Nat) :
    ofScaled (trimZeros d fuel).digits (trimZeros d fuel).exponent = ofScaled d.digits d.exponent := by
  induction fuel generalizing d with
  | zero => rfl
  | succ fuel ih =>
    rw [trimZeros]
    split
    case isTrue hzero =>
      have hdigits : d.digits / 10 * 10 ^ 1 = d.digits := by omega
      have hstep := ofScaled_mul_pow (d.digits / 10) d.exponent 1
      rw [hdigits] at hstep
      rw [ih, hstep]
      rfl
    case isFalse => rfl

theorem reaches_mono {u v : Nat} (h : u ≤ v) {exponent : Int} (hu : reaches u exponent = true) :
    reaches v exponent = true := by
  unfold reaches at hu ⊢
  dsimp only at hu ⊢
  rw [decide_eq_true_eq] at hu ⊢
  exact Nat.le_trans hu (Nat.mul_le_mul_right _ h)

/-- What is estimated for a power of two is at most one too high. -/
theorem reaches_estimate {log : Nat} (h : log < 2098) :
    reaches (2 ^ log) (((log : Int) - 1074) * 30103 / 100000 - 1) = true := by
  have hall : ((List.range 2098).all fun log => reaches (2 ^ log) (((log : Int) - 1074) * 30103 / 100000 - 1)) = true := by
    decide +kernel
  exact List.all_eq_true.1 hall log (List.mem_range.2 h)

theorem reaches_leadingExponent {units : Nat} (hpos : 0 < units) (hmax : units ≤ maxUnits) :
    reaches units (leadingExponent units) = true := by
  have hne : units ≠ 0 := Nat.ne_of_gt hpos
  have hlog : units.log2 < 2098 := by
    rw [Nat.log2_lt hne]
    exact Nat.lt_of_le_of_lt hmax (by decide +kernel)
  unfold leadingExponent
  dsimp only
  split
  case isTrue h => exact h
  case isFalse =>
    split
    case isTrue h => exact h
    case isFalse => exact reaches_mono (Nat.log2_self_le hne) (reaches_estimate hlog)

/-- What is found on a grid is rounded to the count. -/
theorem roundsTo_of_onGrid? {units d : Nat} {exponent : Int} (h : onGrid? units exponent = some d) :
    roundsTo units d (gridScale exponent).1 (gridScale exponent).2 = true := by
  have hfound : ∀ {first second num den : Nat}, (if roundsTo units first num den = true then some first
      else if roundsTo units second num den = true then some second else none) = some d →
      roundsTo units d num den = true := by
    intro first second num den h
    split at h
    case isTrue hfirst =>
      cases h
      exact hfirst
    case isFalse =>
      split at h
      case isTrue hsecond =>
        cases h
        exact hsecond
      case isFalse => cases h
  exact hfound h

/-- The nearer one of two neighbours on a grid is at most half a step away. -/
theorem near_of_step (count : Nat) {num : Nat} (hnum : 0 < num) :
    let first := if num < 2 * (count % num) || (num == 2 * (count % num) && count / num % 2 == 1) then count / num + 1
      else count / num
    2 * count ≤ 2 * (first * num) + num ∧ 2 * (first * num) ≤ 2 * count + num := by
  have hsum := Nat.div_add_mod count num
  have hrest := Nat.mod_lt count hnum
  rw [Nat.mul_comm] at hsum
  have hnext : (count / num + 1) * num = count / num * num + num := Nat.succ_mul _ _
  dsimp only
  split
  case isTrue h =>
    simp only [Bool.or_eq_true, Bool.and_eq_true, decide_eq_true_eq, beq_iff_eq] at h
    omega
  case isFalse h =>
    simp only [Bool.or_eq_true, decide_eq_true_eq, not_or] at h
    omega

/-- A decimal at most half a step away is rounded to the count if two neighbours on the grid lie less than a gap apart, and
less than half a gap below a power of two. -/
theorem roundsTo_of_near {units d num den : Nat} (hnear : 2 * (units * den) ≤ 2 * (d * num) + num ∧
    2 * (d * num) ≤ 2 * (units * den) + num) (hgap : 2 ^ gapExponent units ≤ units)
    (hfine : num < 2 ^ gapExponent units * den)
    (hpow : units = 2 ^ 52 * 2 ^ gapExponent units → 2 * num < 2 ^ gapExponent units * den) :
    roundsTo units d num den = true := by
  have hvalue : 4 * d * num = 4 * (d * num) := Nat.mul_assoc _ _ _
  have hscale : 4 * units * den = 4 * (units * den) ∧ 2 * 2 ^ gapExponent units * den = 2 * (2 ^ gapExponent units * den) :=
    ⟨Nat.mul_assoc _ _ _, Nat.mul_assoc _ _ _⟩
  have hinside : (roundingBounds units).1 * den < 4 * (d * num) ∧ 4 * (d * num) < (roundingBounds units).2 * den := by
    have hleast : 2 ^ gapExponent units * den ≤ units * den := Nat.mul_le_mul_right den hgap
    rw [roundingBounds_eq]
    dsimp only
    rw [Nat.sub_mul, Nat.add_mul, hscale.1, hscale.2]
    refine ⟨?_, by omega⟩
    split
    case isTrue hedge =>
      have hshort := hpow hedge.1
      omega
    case isFalse =>
      rw [hscale.2]
      omega
  unfold roundsTo
  dsimp only
  rw [hvalue]
  split
  · simp [Nat.le_of_lt hinside.1, Nat.le_of_lt hinside.2]
  · simp [hinside]

/-- On a grid of `k` more digits the steps are that much shorter than the count. -/
theorem step_le_of_reaches {units : Nat} {leading : Int} (h : reaches units leading = true) (k : Nat) :
    (gridScale (leading - k)).1 * 10 ^ k ≤ units * (gridScale (leading - k)).2 := by
  have hreach : (gridScale leading).1 ≤ units * (gridScale leading).2 := by simpa [reaches] using h
  obtain ⟨n, s, hscale⟩ : ∃ n s : Nat, leading - k + s = n := ⟨(leading - k).toNat, (k - leading).toNat, by omega⟩
  have hfine := gridScale_eq hscale
  have hcoarse : (gridScale leading).1 * 10 ^ s = unitsPerOne * 10 ^ (n + k) * (gridScale leading).2 :=
    gridScale_eq (by omega)
  have hpos : 0 < (gridScale leading).2 * 10 ^ s := Nat.mul_pos (gridScale_pos leading).2 (Nat.pow_pos (by decide))
  generalize gridScale leading = coarse at *
  generalize gridScale (leading - k) = fine at *
  generalize unitsPerOne = one at *
  refine Nat.le_of_mul_le_mul_right ?_ hpos
  calc fine.1 * 10 ^ k * (coarse.2 * 10 ^ s) = fine.1 * 10 ^ s * (10 ^ k * coarse.2) := by ac_rfl
    _ = coarse.1 * 10 ^ s * fine.2 := by
      rw [hfine, hcoarse, Nat.pow_add]
      ac_rfl
    _ ≤ units * coarse.2 * 10 ^ s * fine.2 := Nat.mul_le_mul_right _ (Nat.mul_le_mul_right _ hreach)
    _ = units * fine.2 * (coarse.2 * 10 ^ s) := by ac_rfl

/-- On the grid of seventeen digits something is found. -/
theorem exists_onGrid {units : Nat} {leading : Int} (hpos : 0 < units) (hrounded : IsRounded units)
    (h : reaches units leading = true) : (onGrid? units (leading - 16)).isSome = true := by
  have hstep := step_le_of_reaches h 16
  have hnum := (gridScale_pos (leading - 16)).1
  have hden := (gridScale_pos (leading - 16)).2
  have hgap : 2 ^ gapExponent units ≤ units := Nat.le_of_dvd hpos hrounded
  have hmost : units < 2 ^ 53 * 2 ^ gapExponent units := by
    rw [← Nat.pow_add]
    exact lt_pow_of_gapExponent (Nat.le_refl _)
  have hcast : ((16 : Nat) : Int) = 16 := rfl
  rw [hcast] at hstep
  unfold onGrid?
  dsimp only
  generalize gridScale (leading - 16) = scale at *
  obtain ⟨num, den⟩ := scale
  dsimp only at *
  have hnear := near_of_step (units * den) hnum
  dsimp only at hnear
  have hwidth : 0 < 2 ^ gapExponent units * den := Nat.mul_pos (Nat.two_pow_pos _) hden
  rw [if_pos]
  · rfl
  · apply roundsTo_of_near hnear hgap
    · have hbound : units * den < 2 ^ 53 * (2 ^ gapExponent units * den) := by
        rw [← Nat.mul_assoc]
        exact Nat.mul_lt_mul_of_pos_right hmost hden
      omega
    · intro hpow
      rw [hpow, Nat.mul_assoc] at hstep
      omega

/-- If one of the grids that are tried has a decimal for the count, one is found. -/
theorem roundsTo_shortestFrom {units : Nat} {leading : Int} {last : Nat} (count fuel : Nat) (hfirst : count ≤ last)
    (hlast : last < count + fuel) (h : (onGrid? units (leading + 1 - last)).isSome = true) :
    let d := shortestFrom units leading count fuel
    roundsTo units d.digits (gridScale d.exponent).1 (gridScale d.exponent).2 = true := by
  induction fuel generalizing count with
  | zero => omega
  | succ fuel ih =>
    rw [shortestFrom]
    dsimp only
    cases hfound : onGrid? units (leading + 1 - count) with
    | some d => exact roundsTo_of_onGrid? hfound
    | none =>
      have hne : count ≠ last := by
        rintro rfl
        rw [hfound] at h
        cases h
      exact ih (count + 1) (by omega) (by omega)

/-- The shortest digits of a number that is not zero are read as the number. -/
theorem ofScaled_shortest {units : Nat} (hpos : 0 < units) (hrounded : IsRounded units) (hmax : units ≤ maxUnits) :
    ofScaled (shortest units).digits (shortest units).exponent = finite false units := by
  have hfine := exists_onGrid hpos hrounded (reaches_leadingExponent hpos hmax)
  have hlast : leadingExponent units - 16 = leadingExponent units + 1 - (17 : Nat) := by omega
  rw [hlast] at hfine
  have hrounds := roundsTo_shortestFrom 1 17 (by decide) (by decide) hfine
  exact ofUnits_of_roundsTo hrounded hmax (gridScale_pos _).2 hrounds

/-- So are they without the zeros at their end. -/
theorem ofScaled_trimmed {units : Nat} (hpos : 0 < units) (hrounded : IsRounded units) (hmax : units ≤ maxUnits)
    (fuel : Nat) : ofScaled (trimZeros (shortest units) fuel).digits (trimZeros (shortest units) fuel).exponent =
      finite false units := by
  rw [ofScaled_trimZeros, ofScaled_shortest hpos hrounded hmax]

end LedgerSearch.Binary64

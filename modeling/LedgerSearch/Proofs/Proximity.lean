import LedgerSearch.Proofs.Outcome
import LedgerSearch.Proofs.StableOrder
import LedgerSearch.Search.Score

/-!
# Proximity to a range

Points for an amount in a range are rounded to a whole number, which only a finite number can be. The distance to the
centre of a range never passes one, so the points are finite as long as the range is: then they are within a few
thousand (`Binary64.Bounded`). In a range without an upper end the distance is infinite over infinite and no number,
and no points can be given (`proximity_ok_iff`).
-/

namespace LedgerSearch

namespace Binary64

theorem nearest_le_succ (num den : Nat) : nearest num den ≤ num / den + 1 := by
  unfold nearest
  dsimp only
  split
  · omega
  · split
    · omega
    · split <;> omega

/-- A quotient is rounded past no whole number that it does not pass. -/
theorem nearest_le {num den m : Nat} (hden : 0 < den) (h : num ≤ m * den) : nearest num den ≤ m := by
  have hquotient : num / den ≤ m := Nat.div_le_of_le_mul (by rwa [Nat.mul_comm] at h)
  have hsum := Nat.div_add_mod num den
  by_cases hm : num / den = m
  · have hrest : num % den = 0 := by
      rw [hm, Nat.mul_comm] at hsum
      omega
    have hlow : 2 * (num % den) < den := by omega
    simp [nearest, hlow, hm]
  · have := nearest_le_succ num den
    omega

theorem gap_le (units : Nat) : Nat.pow 2 (gapExponent units) ≤ units + 1 := by
  change 2 ^ (units.log2 + 1 - 53) ≤ units + 1
  by_cases hsmall : units.log2 + 1 ≤ 53
  · rw [Nat.sub_eq_zero_of_le hsmall]
    omega
  · have hne : units ≠ 0 := by
      rintro rfl
      exact hsmall (by decide)
    calc 2 ^ (units.log2 + 1 - 53) ≤ 2 ^ units.log2 := Nat.pow_le_pow_right (by decide) (by omega)
      _ ≤ units := Nat.log2_self_le hne
      _ ≤ units + 1 := Nat.le_succ units

theorem roundUnits_le (num den : Nat) : roundUnits num den ≤ 2 * (num / den) + 1 := by
  -- rounding goes at most one gap up, and a gap is at most as wide as the count and one more
  have hgap := gap_le (num / den)
  have hcount := nearest_le_succ num (den * Nat.pow 2 (gapExponent (num / den)))
  rw [← Nat.div_div_eq_div_mul] at hcount
  have hfloor := Nat.div_mul_le_self (num / den) (Nat.pow 2 (gapExponent (num / den)))
  calc roundUnits num den
      ≤ (num / den / Nat.pow 2 (gapExponent (num / den)) + 1) * Nat.pow 2 (gapExponent (num / den)) :=
        Nat.mul_le_mul_right _ hcount
    _ = num / den / Nat.pow 2 (gapExponent (num / den)) * Nat.pow 2 (gapExponent (num / den)) +
        Nat.pow 2 (gapExponent (num / den)) := Nat.succ_mul _ _
    _ ≤ 2 * (num / den) + 1 := by omega

/-- Rounding does not take a count past a multiple of a gap that is no narrower than its own. -/
theorem roundUnits_le_of_gap {units m e : Nat} (h : units ≤ m * Nat.pow 2 e) (hgap : gapExponent units ≤ e) :
    roundUnits units 1 ≤ m * Nat.pow 2 e := by
  have hpos : 0 < Nat.pow 2 (gapExponent units) := Nat.two_pow_pos _
  have hsplit : m * Nat.pow 2 e = m * 2 ^ (e - gapExponent units) * Nat.pow 2 (gapExponent units) := by
    rw [Nat.pow_eq, Nat.pow_eq, Nat.mul_assoc, ← Nat.pow_add, Nat.sub_add_cancel hgap]
  unfold roundUnits
  dsimp only
  rw [Nat.div_one, Nat.one_mul, hsplit]
  rw [hsplit] at h
  exact Nat.mul_le_mul_right _ (nearest_le hpos h)

/-- Rounding does not take a count past the greatest finite one. -/
theorem roundUnits_le_maxUnits {units : Nat} (h : units ≤ maxUnits) : roundUnits units 1 ≤ maxUnits := by
  have hgap : gapExponent units ≤ 2045 := by
    by_cases hzero : units = 0
    · rw [hzero]
      decide
    · have hlog : units.log2 < 2098 := by
        rw [Nat.log2_lt hzero]
        exact Nat.lt_of_le_of_lt h (by decide +kernel)
      unfold gapExponent precision
      omega
  unfold maxUnits at h ⊢
  generalize 2045 = e at h hgap ⊢
  exact roundUnits_le_of_gap h hgap

/-- A finite number of at most `k` in size. -/
def Bounded (k : Nat) (x : Binary64) : Prop := ∃ s u, x = finite s u ∧ u ≤ k * unitsPerOne

theorem unitsPerOne_pos : 0 < unitsPerOne := by decide +kernel

theorem units_le_maxUnits {k : Nat} (hk : k < Nat.pow 2 53) : k * unitsPerOne ≤ maxUnits := by
  have hmost : (Nat.pow 2 53 - 1) * unitsPerOne ≤ maxUnits := by decide +kernel
  exact Nat.le_trans (Nat.mul_le_mul_right unitsPerOne (Nat.le_sub_one_of_lt hk)) hmost

theorem ofUnits_of_le (negative : Bool) {num den : Nat} (h : roundUnits num den ≤ maxUnits) :
    ofUnits negative num den = finite negative (roundUnits num den) := by
  unfold ofUnits
  dsimp only
  rw [if_neg (Nat.not_lt.2 h)]

theorem bounded_ofUnits (negative : Bool) {num den k : Nat} (h : num / den ≤ k * unitsPerOne)
    (hk : 2 * k + 1 ≤ 1000000) : Bounded (2 * k + 1) (ofUnits negative num den) := by
  have hround : roundUnits num den ≤ (2 * k + 1) * unitsPerOne := by
    have := roundUnits_le num den
    have := unitsPerOne_pos
    rw [Nat.succ_mul, Nat.mul_assoc]
    omega
  have hfinite := Nat.le_trans hround (units_le_maxUnits (Nat.lt_of_le_of_lt hk (by decide)))
  exact ⟨negative, roundUnits num den, ofUnits_of_le negative hfinite, hround⟩

theorem bounded_ofNat (n : Nat) (h : 2 * n + 1 ≤ 1000000) : Bounded (2 * n + 1) (ofNat n) := by
  unfold ofNat ofRatio
  exact bounded_ofUnits false (Nat.le_of_eq (Nat.div_one _)) h

theorem one_eq : one = finite false unitsPerOne := by decide +kernel

theorem bounded_one : Bounded 1 one := ⟨false, unitsPerOne, one_eq, Nat.le_of_eq (Nat.one_mul _).symm⟩

theorem add_finite (s t : Bool) (u v : Nat) : add (finite s u) (finite t v) =
    if s = t then ofUnits s (u + v) 1 else ofSigned (signedUnits s u + signedUnits t v) := rfl

theorem mul_finite (s t : Bool) (u v : Nat) :
    mul (finite s u) (finite t v) = ofUnits (s != t) (u * v) unitsPerOne := rfl

namespace Bounded

variable {j k : Nat} {x y : Binary64}

theorem neg (h : Bounded k x) : Bounded k (neg x) := by
  obtain ⟨s, u, rfl, hu⟩ := h
  exact ⟨!s, u, rfl, hu⟩

theorem add (hx : Bounded j x) (hy : Bounded k y) (h : 2 * (j + k) + 1 ≤ 1000000) :
    Bounded (2 * (j + k) + 1) (add x y) := by
  obtain ⟨s, u, rfl, hu⟩ := hx
  obtain ⟨t, v, rfl, hv⟩ := hy
  have hsum : u + v ≤ (j + k) * unitsPerOne := by
    rw [Nat.add_mul]
    exact Nat.add_le_add hu hv
  rw [add_finite]
  split
  · exact bounded_ofUnits s (by rwa [Nat.div_one]) h
  · have hsize : (signedUnits s u + signedUnits t v).natAbs ≤ u + v := by
      cases s <;> cases t <;> simp [signedUnits] <;> omega
    exact bounded_ofUnits _ (by rw [Nat.div_one]; exact Nat.le_trans hsize hsum) h

theorem mul (hx : Bounded j x) (hy : Bounded k y) (h : 2 * (j * k) + 1 ≤ 1000000) :
    Bounded (2 * (j * k) + 1) (mul x y) := by
  obtain ⟨s, u, rfl, hu⟩ := hx
  obtain ⟨t, v, rfl, hv⟩ := hy
  rw [mul_finite]
  refine bounded_ofUnits _ ?_ h
  apply Nat.div_le_of_le_mul
  calc u * v ≤ j * unitsPerOne * (k * unitsPerOne) := Nat.mul_le_mul hu hv
    _ = unitsPerOne * (j * k * unitsPerOne) := by
      rw [Nat.mul_mul_mul_comm, ← Nat.mul_assoc, Nat.mul_comm]

theorem exists_floor (h : Bounded k x) : ∃ n, floor? x = some n := by
  obtain ⟨s, u, rfl, -⟩ := h
  exact ⟨_, rfl⟩

end Bounded

variable {x y : Binary64}

theorem isNumber_neg (h : x.isNumber = true) : (neg x).isNumber = true := by
  cases x with
  | nan => cases h
  | infinite s => rfl
  | finite s u => rfl

theorem isNumber_add (hx : x.isFinite = true) (hy : y.isNumber = true) : (add x y).isNumber = true := by
  cases x with
  | nan => cases hx
  | infinite s => cases hx
  | finite s u =>
    cases y with
    | nan => cases hy
    | infinite t => rfl
    | finite t v =>
      rw [add_finite]
      unfold ofSigned
      split <;> exact isNumber_ofUnits _ _ _

theorem isNumber_div (hx : x.isNumber = true) {s : Bool} {v : Nat} (hv : v ≠ 0) :
    (div x (finite s v)).isNumber = true := by
  cases x with
  | nan => cases hx
  | infinite t => rfl
  | finite t u =>
    unfold div ofRatio
    dsimp only
    rw [if_neg hv]
    exact isNumber_ofUnits _ _ _

@[simp] theorem add_nan (x : Binary64) : add x nan = nan := by cases x <;> rfl

@[simp] theorem mul_nan (x : Binary64) : mul x nan = nan := by cases x <;> rfl

@[simp] theorem div_nan (x : Binary64) : div x nan = nan := by cases x <;> rfl

@[simp] theorem nan_le (x : Binary64) : le nan x = false := rfl

@[simp] theorem le_nan (x : Binary64) : le x nan = false := by cases x <;> rfl

@[simp] theorem lt_nan (x : Binary64) : lt x nan = false := by rw [lt, le_nan, Bool.false_and]

/-- Neither below zero nor no number. -/
def IsSize (x : Binary64) : Prop := x = infinite false ∨ ∃ u, x = finite false u

theorem isSize_ofUnits (num den : Nat) : IsSize (ofUnits false num den) := by
  unfold ofUnits
  dsimp only
  split
  · exact .inl rfl
  · exact .inr ⟨_, rfl⟩

theorem isSize_abs (h : x.isNumber = true) : IsSize (abs x) := by
  cases x with
  | nan => cases h
  | infinite s => exact .inl rfl
  | finite s u => exact .inr ⟨u, rfl⟩

theorem IsSize.div (h : IsSize x) {v : Nat} (hv : v ≠ 0) : IsSize (div x (finite false v)) := by
  rcases h with rfl | ⟨u, rfl⟩
  · exact .inl rfl
  · unfold Binary64.div ofRatio
    dsimp only
    rw [if_neg hv]
    exact isSize_ofUnits _ _

theorem IsSize.bounded_one (h : IsSize x) (hle : lt one x = false) : Bounded 1 x := by
  rw [one_eq] at hle
  rcases h with rfl | ⟨u, rfl⟩
  · cases hle
  · refine ⟨false, u, rfl, ?_⟩
    simp only [lt, le, signedUnits, Bool.and_eq_false_iff, decide_eq_false_iff_not, Bool.not_eq_false',
      decide_eq_true_eq, if_neg Bool.false_ne_true] at hle
    omega

theorem exists_units_of_pos (hfinite : x.isFinite = true) (hpos : le x zero = false) :
    ∃ v, x = finite false v ∧ v ≠ 0 := by
  cases x with
  | nan => cases hfinite
  | infinite s => cases hfinite
  | finite s v =>
    cases s with
    | true =>
      simp [le, zero, signedUnits] at hpos
    | false =>
      refine ⟨v, rfl, ?_⟩
      rintro rfl
      cases hpos

/-- A size that the format can hold. -/
def IsBound (x : Binary64) : Prop := x = infinite false ∨ ∃ u, x = finite false u ∧ u ≤ maxUnits

theorem IsBound.isNumber (h : IsBound x) : x.isNumber = true := by
  rcases h with rfl | ⟨u, rfl, -⟩ <;> rfl

theorem isBound_ofUnits (num den : Nat) : IsBound (ofUnits false num den) := by
  unfold ofUnits
  dsimp only
  split
  · exact .inl rfl
  · rename_i hle
    exact .inr ⟨_, rfl, Nat.not_lt.1 hle⟩

theorem isBound_ofDecimal (mantissa digits : Nat) (exponent : Int) :
    IsBound (ofDecimal false mantissa digits exponent) := by
  have hzero : IsBound (finite false 0) := .inr ⟨0, rfl, Nat.zero_le _⟩
  unfold ofDecimal ofRatio
  split
  · exact hzero
  · split
    · exact .inl rfl
    · split
      · exact hzero
      · split <;> exact isBound_ofUnits _ _

theorem isFinite_sub {u v : Nat} (hu : u ≤ maxUnits) (hv : v ≤ maxUnits) :
    (sub (finite false u) (finite false v)).isFinite = true := by
  have hsize : (signedUnits false u + signedUnits true v).natAbs ≤ maxUnits := by
    generalize maxUnits = top at *
    simp only [signedUnits, if_neg Bool.false_ne_true, if_true]
    omega
  unfold sub neg
  rw [add_finite, Bool.not_false]
  unfold ofSigned
  rw [if_neg (by decide), ofUnits_of_le _ (roundUnits_le_maxUnits hsize)]
  rfl

end Binary64

namespace Search

open Binary64

/-- A range as queries are read for one: its bounds are sizes in order. -/
structure IsOrdered (range : PriceRange) : Prop where
  min : IsBound range.min
  max : IsBound range.max
  le : Binary64.le range.min range.max = true

theorem isOrdered_of_range? {query : Text} {range : PriceRange} (h : Query.range? query = some range) :
    IsOrdered range := by
  obtain ⟨n, -, hfound⟩ := List.exists_of_findSome?_eq_some h
  obtain ⟨bounds, -, hbetween⟩ := Option.bind_eq_some_iff.1 hfound
  unfold Query.between? at hbetween
  split at hbetween
  · rename_i hle
    cases hbetween
    exact ⟨isBound_ofDecimal _ _ _, isBound_ofDecimal _ _ _, hle⟩
  · cases hbetween

section Proximity

variable {range : PriceRange} {x : Binary64}

/-- The bounds of an ordered range whose upper end is finite. -/
theorem IsOrdered.exists_units (h : IsOrdered range) (hmax : range.max.isFinite = true) :
    ∃ u v, range.min = finite false u ∧ range.max = finite false v ∧ u ≤ maxUnits ∧ v ≤ maxUnits := by
  rcases h.max with hinf | ⟨v, hv, hvmax⟩
  · rw [hinf] at hmax
    cases hmax
  · rcases h.min with hinf | ⟨u, hu, humax⟩
    · have hle := h.le
      rw [hinf, hv] at hle
      cases hle
    · exact ⟨u, v, hu, hv, humax, hvmax⟩

theorem bounded_distance (h : IsOrdered range) (hmax : range.max.isFinite = true) (hx : x.isFinite = true) :
    Bounded 1 (distance range x) := by
  obtain ⟨u, v, hu, hv, humax, hvmax⟩ := h.exists_units hmax
  have hwidth : (sub range.max range.min).isFinite = true := by
    rw [hu, hv]
    exact isFinite_sub hvmax humax
  have htwo : ∃ n, ofNat 2 = finite false n ∧ n ≠ 0 := exists_units_of_pos (by decide +kernel) (by decide +kernel)
  have hcentre : (div (add range.min range.max) (ofNat 2)).isNumber = true := by
    obtain ⟨n, hn, hne⟩ := htwo
    rw [hn]
    exact isNumber_div (isNumber_add (by rw [hu]; rfl) h.max.isNumber) hne
  unfold distance
  dsimp only
  split
  · exact ⟨false, 0, rfl, Nat.zero_le _⟩
  · rename_i hpos
    split
    · exact bounded_one
    · rename_i hle
      -- the width is finite and above zero, so what is divided by it stays a size, here of at most one
      obtain ⟨n, hn, hne⟩ := exists_units_of_pos hwidth (eq_false_of_ne_true hpos)
      rw [hn] at hle ⊢
      apply IsSize.bounded_one _ (eq_false_of_ne_true hle)
      exact (isSize_abs (isNumber_add hx (isNumber_neg hcentre))).div hne

/-- Where the upper end is infinite, the distance to the centre is infinite over infinite. -/
theorem distance_of_infinite (h : IsOrdered range) (hmax : range.max = infinite false) : distance range x = nan := by
  obtain ⟨n, hn, -⟩ : ∃ n, ofNat 2 = finite false n ∧ n ≠ 0 :=
    exists_units_of_pos (by decide +kernel) (by decide +kernel)
  rcases h.min with hmin | ⟨u, hmin, -⟩
  · have hwidth : sub range.max range.min = nan := by rw [hmax, hmin]; rfl
    simp only [distance, hwidth, div_nan, lt_nan, nan_le, if_neg Bool.false_ne_true]
  · have hwidth : sub range.max range.min = infinite false := by rw [hmax, hmin]; rfl
    have hcentre : div (add range.min range.max) (ofNat 2) = infinite false := by rw [hmax, hmin, hn]; rfl
    have hpos : le (infinite false) zero = false := rfl
    have hpart : div (abs (sub x (infinite false))) (infinite false) = nan := by
      cases x with
      | nan => rfl
      | infinite s => cases s <;> rfl
      | finite s u => rfl
    simp only [distance, hwidth, hcentre, hpart, hpos, lt_nan, if_neg Bool.false_ne_true]

theorem proximity_of_infinite (h : IsOrdered range) (hmax : range.max = infinite false) (weight : Nat) :
    proximity range weight x = .error .undefinedProximity := by
  have hshare : sub one (distance range x) = nan := by
    rw [distance_of_infinite h hmax]
    exact add_nan one
  rw [proximity, hshare, mul_nan]
  rfl

theorem bounded_half : Bounded 3 (ofRatio false 1 2) := by
  unfold ofRatio
  apply bounded_ofUnits false (k := 1) _ (by decide)
  exact Nat.div_le_self _ _

theorem proximity_of_finite (h : IsOrdered range) (hmax : range.max.isFinite = true) {weight : Nat}
    (hweight : weight ≤ 800) (hx : x.isFinite = true) : ∃ points, proximity range weight x = .ok points := by
  have hshare := bounded_one.add (bounded_distance h hmax hx).neg (by decide)
  have hproduct := (bounded_ofNat weight (by omega)).mul hshare (by omega)
  obtain ⟨n, hn⟩ := (hproduct.add bounded_half (by omega)).exists_floor
  refine ⟨n.toNat, ?_⟩
  rw [proximity, sub, roundHalfUp, hn]

/-- An amount in a range earns points exactly if the range has an upper end. -/
theorem proximity_ok_iff (h : IsOrdered range) {weight : Nat} (hweight : weight ≤ 800) (hx : x.isFinite = true) :
    (∃ points, proximity range weight x = .ok points) ↔ range.max.isFinite = true := by
  rcases h.max with hmax | ⟨v, hmax, -⟩
  · simp [hmax, proximity_of_infinite h hmax, isFinite]
  · have hfinite : range.max.isFinite = true := by rw [hmax]; rfl
    exact iff_of_true (proximity_of_finite h hfinite hweight hx) hfinite

end Proximity

end Search
end LedgerSearch

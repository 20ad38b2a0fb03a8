import LedgerSearch.Marking.Amount
import LedgerSearch.Proofs.ReadBack
import LedgerSearch.Proofs.TokenClasses

/-!
# Forms of an amount

An amount is looked for as its shortest digits, as a whole number, with two places, with commas between groups of digits,
and as it was typed. Commas are noise, so a grouped form is read as the form without them. The form with two places is
read as the hundredth nearest to the amount, which is the amount itself exactly if the amount is the number nearest to some
count of hundredths (`IsCents`). Of such an amount every form is read back (`standsFor_of_mem_writtenForms`).
-/

namespace LedgerSearch

open Text (digitValue?)

namespace Binary64

variable {u : Nat}

theorem IsRounded.ofUnits_eq_self (h : IsRounded u) (hmax : u ≤ maxUnits) : ofUnits false u 1 = finite false u := by
  rw [ofUnits_of_le false (by rwa [h.roundUnits_eq_self]), h.roundUnits_eq_self]

theorem reads_ofNat (n : Nat) : Reads (Text.ofNat n) (ofNat n) := by
  have hdigits : AreDigits (Text.ofNat n) := (Query.decimal n).areDigits
  refine ⟨⟨digitValues (Text.ofNat n), [], 0⟩,
    ⟨_, [], (List.append_nil _).symm, .whole (Query.ofNat_ne_nil n) hdigits, .none⟩, ?_⟩
  rw [Numeral.value_whole, Numeral.ofDigits_ofNat]

/-- A whole number is read back from all its digits. -/
theorem reads_whole (hrounded : IsRounded u) (hmax : u ≤ maxUnits) (h : u % unitsPerOne = 0) :
    Reads (Text.ofNat (u / unitsPerOne)) (finite false u) := by
  have hwhole : ofNat (u / unitsPerOne) = finite false u := by
    rw [ofNat, ofRatio, Nat.div_mul_cancel (Nat.dvd_of_mod_eq_zero h), hrounded.ofUnits_eq_self hmax]
  exact hwhole ▸ reads_ofNat _

theorem ofInt_natCast (n : Nat) : Text.ofInt n = Text.ofNat n := by
  rw [Text.ofInt, if_neg (Int.not_lt.2 (Int.natCast_nonneg n)), Int.natAbs_natCast]

theorem whole?_finite (u : Nat) : whole? (finite false u) =
    if u % unitsPerOne = 0 then some ((u / unitsPerOne : Nat) : Int) else none := rfl

theorem writePlain_finite (u : Nat) : writePlain (finite false u) =
    if u % unitsPerOne = 0 ∧ u / unitsPerOne < Nat.pow 10 21 then Text.ofNat (u / unitsPerOne) else writeUnits u := by
  unfold writePlain
  rw [whole?_finite]
  by_cases hwhole : u % unitsPerOne = 0
  · rw [if_pos hwhole]
    dsimp only
    rw [ofInt_natCast, Int.natAbs_natCast, write, if_neg Bool.false_ne_true]
    simp only [hwhole, true_and]
  · have hother : ¬(u % unitsPerOne = 0 ∧ u / unitsPerOne < Nat.pow 10 21) := fun h => hwhole h.1
    rw [if_neg hwhole, if_neg hother]
    rfl

/-- The number nearest to some count of hundredths. -/
def IsCents (x : Binary64) : Prop := ∃ k : Nat, x = ofRatio false k 100

/-- The count of hundredths nearest to a count of units. -/
def nearestCents (u : Nat) : Nat := nearest (u * 100) unitsPerOne

theorem ofScaled_hundredths (k : Nat) : ofScaled k (-(2 : Nat)) = ofRatio false k 100 := by
  have hhundred : 10 ^ 2 = 100 := rfl
  rw [ofScaled_neg, ofRatio, hhundred]

theorem writeCents_finite (u : Nat) : writeCents (finite false u) =
    Text.ofNat (nearestCents u / 100) ++ ('.' : CodePoint) :: Text.ofNatWide 2 (nearestCents u % 100) := by
  have hpoint : ".".toText = [('.' : CodePoint)] := rfl
  unfold writeCents nearestCents
  dsimp only
  rw [if_neg Bool.false_ne_true, hpoint, List.append_assoc, List.singleton_append]

/-- Two places are read as the nearest count of hundredths. -/
theorem reads_writeCents (u : Nat) : Reads (writeCents (finite false u)) (ofRatio false (nearestCents u) 100) := by
  have hlast : nearestCents u % 100 < 10 ^ 2 := Nat.mod_lt _ (by decide)
  have hdigits : AreDigits (Text.ofNat (nearestCents u / 100)) := (Query.decimal _).areDigits
  have hplaces := areDigits_ofNatWide 2 (nearestCents u % 100)
  have hread := reads_decimals (Query.ofNat_ne_nil (nearestCents u / 100)) hdigits hplaces
  have hhundred : 10 ^ 2 = 100 := rfl
  rw [digitValues_append, Numeral.ofDigits_append, length_digitValues hplaces, Numeral.ofDigits_ofNatWide,
    Numeral.ofDigits_ofNat, Text.length_ofNatWide (by decide) hlast, hhundred, Nat.div_add_mod', ofScaled_hundredths] at hread
  rwa [writeCents_finite]

/-- A gap that is much narrower than a hundredth leaves no choice. -/
theorem nearestCents_of_gap {k : Nat} (hround : roundUnits (k * unitsPerOne) 100 = u) (hgap : gapExponent u ≤ 1067) :
    nearestCents u = k := by
  obtain ⟨p, hp, hone⟩ : ∃ p, p = 1067 ∧ unitsPerOne = 128 * 2 ^ p := ⟨1067, rfl, by decide +kernel⟩
  have hhundred : 0 < 100 := by decide
  have hclose := roundUnits_close (k * unitsPerOne) hhundred
  have hnarrow := gapExponent_div_le (k * unitsPerOne) hhundred
  rw [hround] at hclose hnarrow
  rw [← hp] at hgap
  have hpow : 2 ^ gapExponent (k * unitsPerOne / 100) ≤ 2 ^ p := Nat.pow_le_pow_right (by decide) (Nat.le_trans hnarrow hgap)
  have hpos : 0 < 2 ^ p := Nat.two_pow_pos p
  generalize 2 ^ gapExponent (k * unitsPerOne / 100) = gap at *
  unfold nearestCents
  rw [hone] at *
  exact nearest_eq (by omega) (by omega) (by omega) (by omega)

/-- In a gap that is wider than a hundredth the nearest count of hundredths is rounded to the number. -/
theorem ofRatio_nearestCents_of_gap (hrounded : IsRounded u) (hmax : u ≤ maxUnits) (hleast : 1068 ≤ gapExponent u) :
    ofRatio false (nearestCents u) 100 = finite false u := by
  obtain ⟨p, hp, hone, hedge⟩ : ∃ p, p = 1068 ∧ unitsPerOne = 64 * 2 ^ p ∧
      ofRatio false (nearestCents (Nat.pow 2 (52 + p))) 100 = finite false (Nat.pow 2 (52 + p)) :=
    ⟨1068, rfl, by decide +kernel, by decide +kernel⟩
  rw [← hp] at hleast
  by_cases hu : u = Nat.pow 2 (52 + p)
  · rw [hu]
    exact hedge
  have hpos : 0 < u := by
    refine Nat.pos_of_ne_zero fun hzero => ?_
    rw [hzero] at hleast
    have hnone : gapExponent 0 = 0 := rfl
    omega
  have hwide : 2 ^ p ≤ 2 ^ gapExponent u := Nat.pow_le_pow_right (by decide) hleast
  have hgap : 2 ^ gapExponent u ≤ u := Nat.le_of_dvd hpos hrounded
  have hpow : 0 < 2 ^ p := Nat.two_pow_pos p
  have hclose := nearest_close (u * 100) unitsPerOne_pos
  rw [← nearestCents] at hclose
  refine ofUnits_of_roundsTo hrounded hmax (by decide) (roundsTo_of_near ⟨hclose.2, hclose.1⟩ hgap ?_ ?_)
  · omega
  · intro hpow
    rcases Nat.lt_or_eq_of_le hleast with hwider | heq
    · have hdouble : 2 ^ (p + 1) ≤ 2 ^ gapExponent u := Nat.pow_le_pow_right (by decide) hwider
      rw [Nat.pow_succ] at hdouble
      omega
    · rw [← heq, ← Nat.pow_add] at hpow
      exact absurd hpow hu

theorem isCents_iff (hrounded : IsRounded u) (hmax : u ≤ maxUnits) :
    IsCents (finite false u) ↔ ofRatio false (nearestCents u) 100 = finite false u := by
  constructor
  · rintro ⟨k, hk⟩
    rcases Nat.lt_or_ge 1067 (gapExponent u) with hwide | hnarrow
    · exact ofRatio_nearestCents_of_gap hrounded hmax hwide
    · rw [nearestCents_of_gap (roundUnits_of_ofUnits hk.symm).1 hnarrow, hk]
  · exact fun h => ⟨_, h.symm⟩

/-- Two places are read as the amount exactly if it is a number of hundredths. -/
theorem amount?_writeCents_iff (hrounded : IsRounded u) (hmax : u ≤ maxUnits) :
    Query.amount? (writeCents (finite false u)) = some (finite false u) ↔ IsCents (finite false u) := by
  rw [isCents_iff hrounded hmax, (reads_writeCents u).amount?_eq, Option.ite_none_right_eq_some, Option.some.injEq]
  refine and_iff_right_of_imp fun h => ?_
  rw [h]
  rfl

theorem lt_pow_length_ofNat (n : Nat) : n < 10 ^ (Text.ofNat n).length := by
  have hdigits : AreDigits (Text.ofNat n) := (Query.decimal n).areDigits
  have hlt := Numeral.ofDigits_lt (digitValues_lt (Text.ofNat n))
  rwa [Numeral.ofDigits_ofNat, length_digitValues hdigits] at hlt

/-- A decimal that begins more than four places behind the point is rounded to less than two units in 10000. -/
theorem units_le_of_small {d : Decimal} (hvalue : ofScaled d.digits d.exponent = finite false u)
    (hsmall : d.exponent + (Text.ofNat d.digits).length ≤ -4) : u ≤ 2 * (unitsPerOne / 10 ^ 4) + 1 := by
  obtain ⟨s, hs⟩ : ∃ s : Nat, d.exponent = -s := ⟨(-d.exponent).toNat, by omega⟩
  have hround : roundUnits (d.digits * unitsPerOne) (10 ^ s) = u := by
    rw [hs, ofScaled_neg] at hvalue
    exact (roundUnits_of_ofUnits hvalue).1
  have hdigits : d.digits * 10 ^ 4 ≤ 10 ^ s := by
    calc d.digits * 10 ^ 4 ≤ 10 ^ (Text.ofNat d.digits).length * 10 ^ 4 :=
        Nat.mul_le_mul_right _ (Nat.le_of_lt (lt_pow_length_ofNat d.digits))
      _ = 10 ^ ((Text.ofNat d.digits).length + 4) := (Nat.pow_add _ _ _).symm
      _ ≤ 10 ^ s := Nat.pow_le_pow_right (by decide) (by omega)
  have hquotient : d.digits * unitsPerOne / 10 ^ s ≤ unitsPerOne / 10 ^ 4 := by
    have hten : 0 < 10 ^ s := Nat.pow_pos (by decide)
    rw [Nat.le_div_iff_mul_le (by decide)]
    refine Nat.le_of_mul_le_mul_right ?_ hten
    calc d.digits * unitsPerOne / 10 ^ s * 10 ^ 4 * 10 ^ s = d.digits * unitsPerOne / 10 ^ s * 10 ^ s * 10 ^ 4 :=
        Nat.mul_right_comm _ _ _
      _ ≤ d.digits * unitsPerOne * 10 ^ 4 := Nat.mul_le_mul_right _ (Nat.div_mul_le_self _ _)
      _ = unitsPerOne * (d.digits * 10 ^ 4) := by rw [Nat.mul_comm d.digits, Nat.mul_assoc]
      _ ≤ unitsPerOne * 10 ^ s := Nat.mul_le_mul_left _ hdigits
  calc u = roundUnits (d.digits * unitsPerOne) (10 ^ s) := hround.symm
    _ ≤ 2 * (d.digits * unitsPerOne / 10 ^ s) + 1 := roundUnits_le _ _
    _ ≤ 2 * (unitsPerOne / 10 ^ 4) + 1 := Nat.add_le_add_right (Nat.mul_le_mul_left 2 hquotient) 1

/-- A number of hundredths does not begin that far behind the point. -/
theorem not_isCents_of_small {d : Decimal} (hne : u ≠ 0) (hvalue : ofScaled d.digits d.exponent = finite false u)
    (hsmall : d.exponent + (Text.ofNat d.digits).length ≤ -4) : ¬IsCents (finite false u) := by
  rintro ⟨k, hk⟩
  have hhundred : 0 < 100 := by decide
  rcases Nat.eq_zero_or_pos k with rfl | hpos
  · rw [ofRatio, Nat.zero_mul, ofUnits_eq_zero hhundred, finite.injEq] at hk
    exact hne hk.2
  have hgap : 2 * (unitsPerOne / 10 ^ 4) + 1 < roundUnits (unitsPerOne / 100) 1 := by decide +kernel
  refine Nat.not_lt.2 ?_ hgap
  calc roundUnits (unitsPerOne / 100) 1 ≤ roundUnits (k * unitsPerOne / 100) 1 :=
        roundUnits_mono (Nat.div_le_div_right (Nat.le_mul_of_pos_left _ hpos))
    _ ≤ roundUnits (k * unitsPerOne) 100 := roundUnits_floor_le _ hhundred
    _ = u := (roundUnits_of_ofUnits hk.symm).1
    _ ≤ 2 * (unitsPerOne / 10 ^ 4) + 1 := units_le_of_small hvalue hsmall

theorem ofDecimal_cases (negative : Bool) (mantissa digits : Nat) (exponent : Int) :
    ofDecimal negative mantissa digits exponent = infinite negative ∨
      ofDecimal negative mantissa digits exponent = finite negative 0 ∨
      ∃ num den, 0 < den ∧ ofDecimal negative mantissa digits exponent = ofRatio negative num den := by
  unfold ofDecimal
  repeat' split
  · exact .inr (.inl rfl)
  · exact .inl rfl
  · exact .inr (.inl rfl)
  · exact .inr (.inr ⟨_, 1, Nat.one_pos, rfl⟩)
  · exact .inr (.inr ⟨_, _, Nat.pow_pos (by decide), rfl⟩)

/-- A finite number that is read is a rounded count of units. -/
theorem exists_rounded_ofDecimal {mantissa digits : Nat} {exponent : Int}
    (h : (ofDecimal false mantissa digits exponent).isFinite = true) :
    ∃ u, ofDecimal false mantissa digits exponent = finite false u ∧ IsRounded u ∧ u ≤ maxUnits := by
  rcases ofDecimal_cases false mantissa digits exponent with heq | heq | ⟨num, den, hden, heq⟩
  · rw [heq] at h
    cases h
  · exact ⟨0, heq, Nat.dvd_zero _, Nat.zero_le _⟩
  · rcases isBound_ofUnits (num * unitsPerOne) den with hinfinite | ⟨u, hunits, hmax⟩
    · rw [heq, ofRatio, hinfinite] at h
      cases h
    · exact ⟨u, heq.trans hunits, (roundUnits_of_ofUnits hunits).1 ▸ isRounded_roundUnits _ hden, hmax⟩

end Binary64

namespace Query

open Binary64

variable {s t : Text} {x : Binary64}

/-- An amount is a rounded count of units. -/
theorem exists_rounded_of_amount? (h : amount? t = some x) : ∃ u, x = finite false u ∧ IsRounded u ∧ u ≤ maxUnits := by
  rw [amount?, Option.ite_none_left_eq_some] at h
  obtain ⟨sign, body, -, -, hnumber⟩ := exists_leading (dropNoise t)
  rw [hnumber, Option.bind_eq_some_iff] at h
  obtain ⟨-, found, -, hvalue⟩ := h
  rw [Option.ite_none_right_eq_some, Option.some.injEq] at hvalue
  rw [← hvalue.2]
  exact exists_rounded_ofDecimal hvalue.1

theorem amount?_congr (h : dropNoise s = dropNoise t) : amount? s = amount? t := by
  unfold amount?
  rw [h]

theorem dropNoise_append (s t : Text) : dropNoise (s ++ t) = dropNoise s ++ dropNoise t :=
  List.filter_append s t

theorem dropNoise_dropWhile_dollar (t : Text) : dropNoise (t.dropWhile (· = '$')) = dropNoise t := by
  have hdollars : dropNoise (t.takeWhile (· = '$')) = [] := List.filter_eq_nil_iff.2 fun c hc => by
    have hdollar : c = '$' := by simpa using List.mem_takeWhile_imp hc
    rw [hdollar]
    decide
  conv => rhs; rw [← List.takeWhile_append_dropWhile (p := fun c : CodePoint => decide (c = '$')) (l := t)]
  rw [dropNoise_append, hdollars, List.nil_append]

theorem dropNoise_groupThousands (t : Text) : dropNoise (groupThousands t) = dropNoise t := by
  have hcons : ∀ (c : CodePoint) (s : Text), dropNoise (c :: s) = dropNoise [c] ++ dropNoise s := fun c s =>
    dropNoise_append [c] s
  have hcomma : dropNoise [','] = [] := by decide
  unfold groupThousands
  induction t with
  | nil => rfl
  | cons d t ih =>
    cases t with
    | nil => rfl
    | cons e t =>
      rw [groupThousands.go, hcons d (e :: t), ← ih]
      · split
        · rw [hcons d, hcons ',', hcomma, List.nil_append]
        · rw [hcons d]
      · exact List.cons_ne_nil e t

theorem dropNoise_groupNumeral (t : Text) : dropNoise (groupNumeral t) = dropNoise t := by
  unfold groupNumeral
  dsimp only
  rw [dropNoise_append, dropNoise_groupThousands, ← dropNoise_append, List.takeWhile_append_dropWhile]

theorem hyphen_mem_dropNoise : ('-' : CodePoint) ∈ dropNoise t ↔ ('-' : CodePoint) ∈ t := by
  have hhyphen : isMoneyNoise '-' = false := by decide
  simp [dropNoise, hhyphen]

end Query

namespace Marking

open Binary64
open Query (amount? dropNoise)

/-- A text is read as an amount, or the amount is no number of hundredths, and the text has a hyphen or two places of the
amount. -/
def StandsFor (t : Text) (x : Binary64) : Prop :=
  amount? t = some x ∨ ¬IsCents x ∧ (('-' : CodePoint) ∈ t ∨ dropNoise t = writeCents x)

section Forms

variable {s t token form : Text} {x : Binary64} {u : Nat}

theorem standsFor_congr (h : dropNoise s = dropNoise t) : StandsFor s x ↔ StandsFor t x := by
  unfold StandsFor
  rw [Query.amount?_congr h, ← Query.hyphen_mem_dropNoise, h, Query.hyphen_mem_dropNoise]

theorem standsFor_writeUnits (hrounded : IsRounded u) (hmax : u ≤ maxUnits) :
    StandsFor (writeUnits u) (finite false u) := by
  rcases reads_writeUnits_or hrounded hmax with hread | ⟨hne, d, hvalue, hsmall, hhyphen⟩
  · exact .inl hread.amount?_eq
  · exact .inr ⟨not_isCents_of_small hne hvalue hsmall, .inl hhyphen⟩

theorem standsFor_writePlain (hrounded : IsRounded u) (hmax : u ≤ maxUnits) :
    StandsFor (writePlain (finite false u)) (finite false u) := by
  rw [writePlain_finite]
  split
  case isTrue hwhole => exact .inl (reads_whole hrounded hmax hwhole.1).amount?_eq
  case isFalse => exact standsFor_writeUnits hrounded hmax

theorem standsFor_writeCents (hrounded : IsRounded u) (hmax : u ≤ maxUnits) :
    StandsFor (writeCents (finite false u)) (finite false u) := by
  by_cases hcents : IsCents (finite false u)
  · exact .inl ((amount?_writeCents_iff hrounded hmax).2 hcents)
  · exact .inr ⟨hcents, .inr (reads_writeCents u).dropNoise_eq⟩

/-- Every form stands for the amount. -/
theorem standsFor_of_mem_writtenForms {hfinite : x.isFinite = true} (htoken : amount? token = some x)
    (h : form ∈ writtenForms x hfinite token) : StandsFor form x := by
  obtain ⟨u, rfl, hrounded, hmax⟩ := Query.exists_rounded_of_amount? htoken
  rw [writtenForms, Sorting.mem_sort, List.mem_eraseDups] at h
  have hform := List.mem_of_mem_filter h
  simp only [List.mem_cons, List.not_mem_nil, or_false] at hform
  rcases hform with rfl | hgrouped | rfl | rfl | rfl
  · exact standsFor_writePlain hrounded hmax
  · have htruncate : (finite false u).truncate hfinite = ((u / unitsPerOne : Nat) : Int) := rfl
    rw [whole?_finite, htruncate] at hgrouped
    by_cases hwhole : u % unitsPerOne = 0
    · rw [if_pos hwhole, if_pos rfl, ofInt_natCast] at hgrouped
      rw [hgrouped, standsFor_congr (Query.dropNoise_groupThousands _)]
      exact .inl (reads_whole hrounded hmax hwhole).amount?_eq
    · rw [if_neg hwhole, if_neg (Option.some_ne_none _).symm, write, if_neg Bool.false_ne_true] at hgrouped
      rw [hgrouped, standsFor_congr (Query.dropNoise_groupNumeral _)]
      exact standsFor_writeUnits hrounded hmax
  · exact standsFor_writeCents hrounded hmax
  · rw [standsFor_congr (Query.dropNoise_groupNumeral _)]
    exact standsFor_writeCents hrounded hmax
  · exact .inl ((Query.amount?_congr (Query.dropNoise_dropWhile_dollar token)).trans htoken)

end Forms

end Marking
end LedgerSearch

import LedgerSearch.Proofs.GroupedRanges
import LedgerSearch.Proofs.RangeBounds
import LedgerSearch.Proofs.ShortestDigits

/-!
# Numbers read back

A numeral stands for a decimal, and its value is the number nearest to that, however it is written
(`Numeral.value_eq_ofScaled`). So a number that is written with its shortest digits is read back, whether they are set
around a point or before an exponent (`reads_writeUnits_or`). Only a negative exponent is not read: its hyphen makes a token
no amount.
-/

namespace LedgerSearch

open Text (digitValue?)

namespace Binary64

/-- Less than half a unit is rounded to none. -/
theorem ofUnits_eq_zero {num den : Nat} (h : 2 * num < den) : ofUnits false num den = finite false 0 := by
  have hgap : gapExponent 0 = 0 := rfl
  have hround : roundUnits num den = 0 := by
    unfold roundUnits
    dsimp only
    rw [Nat.div_eq_of_lt (by omega), hgap, Nat.pow_eq, Nat.pow_zero, Nat.mul_one, Nat.mul_one]
    exact nearest_eq (by omega) (by omega) (by omega) (by omega)
  rw [ofUnits_of_le false (by rw [hround]; exact Nat.zero_le _), hround]

theorem ofScaled_zero (exponent : Int) : ofScaled 0 exponent = finite false 0 := by
  rw [ofScaled, Nat.zero_mul]
  exact ofUnits_eq_zero (gridScale_pos exponent).2

/-- A decimal of more than 400 digits before the point is beyond all numbers. -/
theorem ofScaled_eq_infinite {digits : Nat} {exponent : Int} {k : Nat} (hdigits : 10 ^ k ≤ digits) (h : 400 ≤ k + exponent) :
    ofScaled digits exponent = infinite false := by
  obtain ⟨n, s, hscale⟩ : ∃ n s : Nat, exponent + s = n := ⟨exponent.toNat, (-exponent).toNat, by omega⟩
  have hten : 0 < 10 ^ s := Nat.pow_pos (by decide)
  have hcount : maxUnits + Nat.pow 2 2044 ≤ digits * (unitsPerOne * 10 ^ n) / 10 ^ s := by
    have hbound : maxUnits + Nat.pow 2 2044 ≤ unitsPerOne * 10 ^ 400 := by decide +kernel
    have hpow : 10 ^ 400 * 10 ^ s ≤ digits * 10 ^ n := by
      rw [← Nat.pow_add]
      calc 10 ^ (400 + s) ≤ 10 ^ (k + n) := Nat.pow_le_pow_right (by decide) (by omega)
        _ = 10 ^ k * 10 ^ n := Nat.pow_add _ _ _
        _ ≤ digits * 10 ^ n := Nat.mul_le_mul_right _ hdigits
    rw [Nat.le_div_iff_mul_le hten]
    calc (maxUnits + Nat.pow 2 2044) * 10 ^ s ≤ unitsPerOne * 10 ^ 400 * 10 ^ s := Nat.mul_le_mul_right _ hbound
      _ = unitsPerOne * (10 ^ 400 * 10 ^ s) := Nat.mul_assoc _ _ _
      _ ≤ unitsPerOne * (digits * 10 ^ n) := Nat.mul_le_mul_left _ hpow
      _ = digits * (unitsPerOne * 10 ^ n) := Nat.mul_left_comm _ _ _
  have hround := Nat.lt_of_lt_of_le (maxUnits_lt_roundUnits_iff.2 hcount) (roundUnits_floor_le _ hten)
  rw [ofScaled_eq hscale, ofUnits]
  exact if_pos hround

/-- A decimal that begins more than 400 places behind the point is too small for all numbers. -/
theorem ofScaled_eq_zero {digits : Nat} {exponent : Int} {k : Nat} (hdigits : digits < 10 ^ k) (h : k + exponent ≤ -400) :
    ofScaled digits exponent = finite false 0 := by
  obtain ⟨s, rfl⟩ : ∃ s : Nat, exponent = -s := ⟨(-exponent).toNat, by omega⟩
  obtain ⟨e, he, hbound⟩ : ∃ e ≤ 400, 2 * unitsPerOne ≤ 10 ^ e := ⟨400, Nat.le_refl _, by decide +kernel⟩
  rw [ofScaled_neg]
  apply ofUnits_eq_zero
  calc 2 * (digits * unitsPerOne) = digits * (2 * unitsPerOne) := Nat.mul_left_comm _ _ _
    _ ≤ digits * 10 ^ e := Nat.mul_le_mul_left _ hbound
    _ < 10 ^ k * 10 ^ e := Nat.mul_lt_mul_of_pos_right hdigits (Nat.pow_pos (by decide))
    _ = 10 ^ (k + e) := (Nat.pow_add _ _ _).symm
    _ ≤ 10 ^ s := Nat.pow_le_pow_right (by decide) (by omega)

/-- The cuts that are made before rounding agree with it. -/
theorem ofDecimal_eq_ofScaled {digits count : Nat} {exponent : Int} (hleast : digits ≠ 0 → 10 ^ count ≤ 10 * digits)
    (hmost : digits < 10 ^ count) : ofDecimal false digits count exponent = ofScaled digits exponent := by
  unfold ofDecimal
  split
  case isTrue hzero => rw [hzero, ofScaled_zero]
  case isFalse hne =>
    split
    case isTrue hhigh =>
      have hpos : 0 < count := Nat.pos_of_ne_zero fun hzero => by
        rw [hzero, Nat.pow_zero] at hmost
        omega
      obtain ⟨k, rfl⟩ := Nat.exists_eq_add_of_lt hpos
      have hdigits : 10 ^ (0 + k) ≤ digits := by
        have := hleast hne
        rw [Nat.pow_succ] at this
        omega
      exact (ofScaled_eq_infinite hdigits (by omega)).symm
    case isFalse =>
      split
      case isTrue hlow => exact (ofScaled_eq_zero hmost (by omega)).symm
      case isFalse =>
        unfold ofScaled gridScale ofRatio
        split
        · dsimp only
          rw [Nat.mul_right_comm, Nat.mul_assoc]
        · dsimp only

end Binary64

theorem digitValues_lt (t : Text) : ∀ d ∈ digitValues t, d < 10 := by
  intro d hd
  obtain ⟨c, -, hc⟩ := List.mem_filterMap.1 hd
  exact Text.digitValue?_lt hc

/-- The value of a numeral is the number nearest to the decimal that it stands for. -/
theorem Numeral.value_eq_ofScaled {n : Numeral} (h : ∀ d ∈ n.whole ++ n.fraction, d < 10) :
    n.value false = Binary64.ofScaled (ofDigits (n.whole ++ n.fraction)) (n.exponent - n.fraction.length) := by
  have hhead := List.head?_dropWhile_not (fun d : Nat => decide (d = 0)) (n.whole ++ n.fraction)
  have hkept : ∀ d ∈ (n.whole ++ n.fraction).dropWhile (· = 0), d < 10 := fun d hd =>
    h d (List.dropWhile_subset _ hd)
  unfold value
  dsimp only
  rw [← ofDigits_dropWhile (n.whole ++ n.fraction)]
  generalize (n.whole ++ n.fraction).dropWhile (· = 0) = digits at *
  refine Binary64.ofDecimal_eq_ofScaled (fun hne => ?_) (ofDigits_lt hkept)
  cases digits with
  | nil => exact absurd rfl hne
  | cons d ds =>
    have hd : d ≠ 0 := by simpa using hhead
    have hpow := pow_le_ofDigits hd ds
    rw [List.length_cons, Nat.pow_succ]
    omega

/-- The text is a numeral with the value. -/
def Reads (t : Text) (x : Binary64) : Prop := ∃ n : Numeral, n.IsNumeralText t ∧ n.value false = x

namespace Query

open Numeral.IsNumeralText (IsNumeralChar)

theorem isMoneyNoise_of_isNumeralChar {c : CodePoint} (h : IsNumeralChar c) : isMoneyNoise c = false := by
  have hsign : c ≠ '$' ∧ c ≠ ',' := by
    constructor <;> rintro rfl <;> exact absurd h (by decide)
  simp [isMoneyNoise, hsign, Binary64.not_isBlank_of_isNumeralChar h]

theorem leadingNumber?_eq {c : CodePoint} {t : Text} (hblank : ∀ d ∈ c :: t, Text.isBlank d = false) (hc : c ≠ '+') :
    leadingNumber? (c :: t) = (Numeral.read? false (c :: t)).bind fun found =>
      if (found.1.value false).isFinite then some (found.1.value false) else none := by
  have hword : Text.IsWord (c :: t) := ⟨List.cons_ne_nil c t, hblank⟩
  unfold leadingNumber?
  rw [Text.strip_word hword]
  simp only [List.cons.injEq, hc, false_and, imp_self, implies_true]
  cases Numeral.read? false (c :: t) <;> rfl

end Query

theorem Reads.dropNoise_eq {t : Text} {x : Binary64} (h : Reads t x) : Query.dropNoise t = t := by
  obtain ⟨n, htext, -⟩ := h
  refine List.filter_eq_self.2 fun c hc => ?_
  rw [Query.isMoneyNoise_of_isNumeralChar (htext.isNumeralChar c hc)]
  rfl

theorem Reads.hyphen_notMem {t : Text} {x : Binary64} (h : Reads t x) : ('-' : CodePoint) ∉ t := by
  obtain ⟨n, htext, -⟩ := h
  exact fun hmem => absurd (htext.isNumeralChar _ hmem) (by decide)

/-- A text that is a numeral is an amount, unless the number is beyond the finite ones. -/
theorem Reads.amount?_eq {t : Text} {x : Binary64} (h : Reads t x) :
    Query.amount? t = if x.isFinite then some x else none := by
  have hnoise := h.dropNoise_eq
  have hhyphen : ¬t.contains '-' = true := fun hmem => h.hyphen_notMem (List.contains_iff_mem.1 hmem)
  obtain ⟨n, htext, rfl⟩ := h
  have hread := htext.read?_numeral false
  have hblank : ∀ c ∈ t, Text.isBlank c = false := fun c hc =>
    Binary64.not_isBlank_of_isNumeralChar (htext.isNumeralChar c hc)
  obtain ⟨c, rest, rfl, hc⟩ := htext.exists_first
  have hplus : c ≠ '+' := by
    rintro rfl
    exact absurd hc (by decide)
  unfold Query.amount?
  dsimp only
  rw [hnoise, if_neg hhyphen, Query.leadingNumber?_eq hblank hplus, hread, Option.bind_some]

theorem digitValues_append (s t : Text) : digitValues (s ++ t) = digitValues s ++ digitValues t := List.filterMap_append

theorem length_digitValues {t : Text} (h : AreDigits t) : (digitValues t).length = t.length := by
  induction t with
  | nil => rfl
  | cons c t ih =>
    obtain ⟨hc, ht⟩ := List.forall_mem_cons.1 h
    obtain ⟨d, hd⟩ := exists_digitValue hc
    have hcons : digitValues (c :: t) = d :: digitValues t := List.filterMap_cons_some hd
    rw [hcons, List.length_cons, List.length_cons, ih ht]

theorem digitValues_fill (k : Nat) : digitValues (Text.fill k '0') = List.replicate k 0 := by
  induction k with
  | zero => rfl
  | succ k ih =>
    have hzero : digitValue? '0' = some 0 := by decide
    rw [List.replicate_succ, ← ih]
    exact List.filterMap_cons_some hzero

theorem areDigits_fill (k : Nat) : AreDigits (Text.fill k '0') := by
  intro c hc
  rw [(List.mem_replicate.1 hc).2]
  decide

theorem Text.isPlainDigit_ofNatWide (width n : Nat) : ∀ c ∈ Text.ofNatWide width n, Text.isPlainDigit c = true := by
  refine List.forall_mem_append.2 ⟨fun c hc => ?_, (Query.decimal n).isPlainDigit⟩
  rw [(List.mem_replicate.1 hc).2]
  decide

theorem Text.length_ofNat_le {width n : Nat} (hwidth : 0 < width) (h : n < 10 ^ width) : (Text.ofNat n).length ≤ width := by
  induction width generalizing n with
  | zero => exact absurd hwidth (Nat.lt_irrefl 0)
  | succ width ih =>
    rcases Nat.lt_or_ge n 10 with hsmall | hlarge
    · rw [ofNat_of_lt hsmall]
      exact Nat.succ_le_succ (Nat.zero_le width)
    · have hfront : n / 10 < 10 ^ width := by
        rw [Nat.div_lt_iff_lt_mul (by decide)]
        exact h
      have hmore : 0 < width := Nat.pos_of_ne_zero fun hzero => by
        rw [hzero, Nat.pow_zero] at hfront
        omega
      rw [ofNat_of_le hlarge, List.length_append]
      exact Nat.succ_le_succ (ih hmore hfront)

/-- A number that fits in some places is written on as many. -/
theorem Text.length_ofNatWide {width n : Nat} (hwidth : 0 < width) (h : n < 10 ^ width) :
    (Text.ofNatWide width n).length = width := by
  rw [ofNatWide, List.length_append, fill, List.length_replicate]
  exact Nat.sub_add_cancel (length_ofNat_le hwidth h)

theorem areDigits_ofNatWide (width n : Nat) : AreDigits (Text.ofNatWide width n) :=
  List.forall_mem_append.2 ⟨areDigits_fill _, (Query.decimal n).areDigits⟩

theorem ofNatWide_ne_nil (width n : Nat) : Text.ofNatWide width n ≠ [] :=
  List.append_ne_nil_of_right_ne_nil _ (Query.ofNat_ne_nil n)

namespace Numeral

theorem ofDigits_append (as bs : List Nat) : ofDigits (as ++ bs) = ofDigits as * 10 ^ bs.length + ofDigits bs := by
  induction bs using List.reverseRecOn with
  | nil => simp [ofDigits]
  | append_singleton bs d ih =>
    have hstep : ∀ ds : List Nat, ofDigits (ds ++ [d]) = 10 * ofDigits ds + d := fun ds => by simp [ofDigits]
    rw [← List.append_assoc, hstep, hstep, ih, List.length_append, List.length_singleton, Nat.pow_succ, Nat.mul_add,
      Nat.add_assoc, Nat.mul_left_comm, Nat.mul_comm 10]

theorem ofDigits_replicate (k : Nat) : ofDigits (List.replicate k 0) = 0 := by
  rw [← ofDigits_dropWhile]
  simp [ofDigits]

theorem ofDigits_fill_append (k : Nat) (t : Text) :
    ofDigits (digitValues (Text.fill k '0' ++ t)) = ofDigits (digitValues t) := by
  rw [digitValues_append, digitValues_fill, ofDigits_append, ofDigits_replicate, Nat.zero_mul, Nat.zero_add]

theorem ofDigits_ofNatWide (width n : Nat) : ofDigits (digitValues (Text.ofNatWide width n)) = n := by
  rw [Text.ofNatWide, ofDigits_fill_append, ofDigits_ofNat]

theorem ofDigits_append_fill (t : Text) (k : Nat) :
    ofDigits (digitValues (t ++ Text.fill k '0')) = ofDigits (digitValues t) * 10 ^ k := by
  rw [digitValues_append, digitValues_fill, ofDigits_append, ofDigits_replicate, List.length_replicate, Nat.add_zero]

end Numeral

namespace Binary64

open Numeral

section Notations

variable {ws fs t : Text}

theorem reads_decimals (hne : ws ≠ []) (hws : AreDigits ws) (hfs : AreDigits fs) :
    Reads (ws ++ ('.' : CodePoint) :: fs) (ofScaled (ofDigits (digitValues (ws ++ fs))) (-fs.length)) := by
  have hlt := digitValues_lt (ws ++ fs)
  rw [digitValues_append] at hlt ⊢
  refine ⟨⟨digitValues ws, digitValues fs, 0⟩, ⟨_, [], (List.append_nil _).symm, .decimals hne hws hfs, .none⟩, ?_⟩
  rw [value_eq_ofScaled hlt]
  simp [length_digitValues hfs]

/-- Digits around a point are read as the decimal that they stand for. -/
theorem reads_positional (hne : t ≠ []) (ht : AreDigits t) (point : Int) :
    Reads (positional t point) (ofScaled (ofDigits (digitValues t)) (point - t.length)) := by
  have hone : Text.fill 1 '0' ≠ [] ∧ AreDigits (Text.fill 1 '0') := ⟨List.cons_ne_nil _ _, areDigits_fill 1⟩
  unfold positional
  split
  case isTrue hpoint =>
    have hread := reads_decimals hone.1 hone.2
      (List.forall_mem_append.2 ⟨areDigits_fill (-point).toNat, ht⟩)
    have hplaces : -((Text.fill (-point).toNat '0' ++ t).length : Int) = point - t.length := by
      rw [List.length_append, Text.fill, List.length_replicate]
      omega
    rw [ofDigits_fill_append, ofDigits_fill_append, hplaces] at hread
    rw [List.append_assoc]
    exact hread
  case isFalse hpoint =>
    dsimp only
    split
    case isTrue hlength =>
      have hread := reads_decimals (List.append_ne_nil_of_left_ne_nil hne _)
        (List.forall_mem_append.2 ⟨ht, areDigits_fill (point.toNat - t.length)⟩) hone.2
      have hplaces : -((Text.fill 1 '0').length : Int) + (point.toNat - t.length + 1 : Nat) = point - t.length := by
        rw [Text.fill, List.length_replicate]
        omega
      rw [ofDigits_append_fill, ofDigits_append_fill, Nat.mul_assoc, ← Nat.pow_add, ofScaled_mul_pow, hplaces] at hread
      exact hread
    case isFalse hlength =>
      have hfront : t.take point.toNat ≠ [] := by
        rw [Ne, List.take_eq_nil_iff, not_or]
        exact ⟨by omega, hne⟩
      have hdigits : AreDigits (t.take point.toNat) ∧ AreDigits (t.drop point.toNat) :=
        ⟨fun c hc => ht c (List.mem_of_mem_take hc), fun c hc => ht c (List.mem_of_mem_drop hc)⟩
      have hread := reads_decimals hfront hdigits.1 hdigits.2
      have hplaces : -((t.drop point.toNat).length : Int) = point - t.length := by
        rw [List.length_drop]
        omega
      rw [List.take_append_drop, hplaces] at hread
      rw [List.append_assoc]
      exact hread

theorem isExponent_plus (k : Nat) : IsExponent ("e+".toText ++ Text.ofNatWide 2 k) k := by
  have hplus := IsExponent.plus (e := 'e') (.inl rfl) (ofNatWide_ne_nil 2 k) (areDigits_ofNatWide 2 k)
  rw [ofDigits_ofNatWide] at hplus
  exact hplus

/-- A digit before the point and an exponent behind the others are read as the decimal that they stand for. -/
theorem reads_scientific (hne : t ≠ []) (ht : AreDigits t) (k : Nat) :
    Reads (scientific t k) (ofScaled (ofDigits (digitValues t)) (k + 1 - t.length)) := by
  have hlt := digitValues_lt t
  unfold scientific
  rw [if_neg (Int.not_lt.2 (Int.natCast_nonneg k)), Int.natAbs_natCast, List.append_assoc]
  match t with
  | [] => exact absurd rfl hne
  | [d] =>
    refine ⟨⟨digitValues [d], [], k⟩, ⟨[d], _, rfl, .whole hne ht, isExponent_plus k⟩, ?_⟩
    rw [value_eq_ofScaled (by simpa using hlt)]
    simp
  | d :: e :: rest =>
    obtain ⟨hd, hrest⟩ := List.forall_mem_cons.1 ht
    have hone : AreDigits [d] := List.forall_mem_singleton.2 hd
    have hcons : digitValues [d] ++ digitValues (e :: rest) = digitValues (d :: e :: rest) :=
      (digitValues_append [d] (e :: rest)).symm
    have hplaces : (k : Int) - (digitValues (e :: rest)).length = k + 1 - (d :: e :: rest).length := by
      rw [length_digitValues hrest, List.length_cons (a := d)]
      omega
    refine ⟨⟨digitValues [d], digitValues (e :: rest), k⟩,
      ⟨_, _, rfl, .decimals (List.cons_ne_nil d []) hone hrest, isExponent_plus k⟩, ?_⟩
    rw [← hcons] at hlt
    rw [value_eq_ofScaled hlt]
    dsimp only
    rw [hcons, hplaces]

end Notations

section Written

variable {u : Nat}

theorem hyphen_mem_scientific (t : Text) {exponent : Int} (h : exponent < 0) :
    ('-' : CodePoint) ∈ scientific t exponent := by
  have hsign : ('-' : CodePoint) ∈ "e-".toText := by decide
  unfold scientific
  rw [if_pos h]
  exact List.mem_append_left _ (List.mem_append_right _ hsign)

/-- A number is read back, unless its shortest digits begin more than four places behind the point. -/
theorem reads_writeUnits_or (hrounded : IsRounded u) (hmax : u ≤ maxUnits) : Reads (writeUnits u) (finite false u) ∨
    u ≠ 0 ∧ ∃ d : Decimal, ofScaled d.digits d.exponent = finite false u ∧
      d.exponent + (Text.ofNat d.digits).length ≤ -4 ∧ ('-' : CodePoint) ∈ writeUnits u := by
  unfold writeUnits
  split
  case isTrue hzero =>
    have hread := reads_decimals (List.cons_ne_nil _ _) (areDigits_fill 1) (areDigits_fill 1)
    have hdigits : ofDigits (digitValues (Text.fill 1 '0' ++ Text.fill 1 '0')) = 0 := by decide
    rw [hzero, ← ofScaled_zero (-1), ← hdigits]
    exact .inl hread
  case isFalse hne =>
    have hvalue := ofScaled_trimmed (Nat.pos_of_ne_zero hne) hrounded hmax 20
    dsimp only
    generalize trimZeros (shortest u) 20 = d at *
    have hfilled : Text.ofNat d.digits ≠ [] := Query.ofNat_ne_nil _
    have hdigits : AreDigits (Text.ofNat d.digits) := (Query.decimal d.digits).areDigits
    have hplaces : d.exponent + (Text.ofNat d.digits).length - 1 + 1 - (Text.ofNat d.digits).length = d.exponent := by
      omega
    split
    case isTrue =>
      have hread := reads_positional hfilled hdigits (d.exponent + (Text.ofNat d.digits).length - 1 + 1)
      rw [ofDigits_ofNat, hplaces, hvalue] at hread
      exact .inl hread
    case isFalse hrange =>
      have hbounds : positionalExponents = (-4, 15) := rfl
      rw [hbounds] at hrange
      by_cases hneg : d.exponent + (Text.ofNat d.digits).length - 1 < 0
      · exact .inr ⟨hne, d, hvalue, by omega, hyphen_mem_scientific _ hneg⟩
      · have hread := reads_scientific hfilled hdigits (d.exponent + (Text.ofNat d.digits).length - 1).toNat
        rw [ofDigits_ofNat, Int.toNat_of_nonneg (Int.not_lt.1 hneg), hplaces, hvalue] at hread
        exact .inl hread

end Written

end Binary64
end LedgerSearch

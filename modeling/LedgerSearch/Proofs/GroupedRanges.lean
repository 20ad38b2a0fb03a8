import LedgerSearch.Proofs.OpenRanges
import LedgerSearch.Proofs.RangeSpellings
import LedgerSearch.Proofs.WholeNumbers
import Mathlib.Data.Nat.Log

/-!
# Ranges between grouped numbers

A comma between the digits of an amount is noise, but no notation of ranges knows one. In front of the separator the
notations see the last group of a grouped number, and behind it the first group of the other one (`range?_grouped`). So a
range between grouped numbers is the range between the numbers only if there is no comma in them, and otherwise it is
another range or none (`range_grouped_iff`).
-/

namespace LedgerSearch

open Text (digitValue? isPlainDigit)

namespace Text

/-- The character of a digit. -/
def digit (d : Nat) : CodePoint := .scalar d.digitChar

theorem digit_values : ∀ d < 10, digitValue? (digit d) = some d ∧ isPlainDigit (digit d) = true := by decide

variable {n : Nat}

theorem ofNat_of_lt (h : n < 10) : ofNat n = [digit n] := by
  rw [ofNat, Nat.toDigits_of_lt_base h]
  rfl

theorem ofNat_of_le (h : 10 ≤ n) : ofNat n = ofNat (n / 10) ++ [digit (n % 10)] := by
  rw [ofNat, Nat.toDigits_of_base_le (by decide) h, List.map_append]
  rfl

theorem allPlainDigits_append_digit {t : Text} (ht : ∀ c ∈ t, isPlainDigit c = true) {d : Nat} (hd : d < 10) :
    allPlainDigits (t ++ [digit d]) = true := by
  simpa [allPlainDigits, (digit_values d hd).2] using ht

theorem allPlainDigits_ofNat (n : Nat) : allPlainDigits (ofNat n) = true := by
  induction n using Nat.strongRecOn with
  | ind n ih =>
    rcases Nat.lt_or_ge n 10 with h | h
    · rw [ofNat_of_lt h]
      exact allPlainDigits_append_digit (List.forall_mem_nil _) h
    · rw [ofNat_of_le h]
      have hfront := ih (n / 10) (by omega)
      simp only [allPlainDigits, Bool.and_eq_true, List.all_eq_true] at hfront
      exact allPlainDigits_append_digit hfront.2 (Nat.mod_lt n (by decide))

end Text

namespace Numeral

theorem ofDigits_append_digit {t : Text} {d : Nat} (hd : d < 10) :
    ofDigits (digitValues (t ++ [Text.digit d])) = 10 * ofDigits (digitValues t) + d := by
  simp [digitValues, ofDigits, (Text.digit_values d hd).1]

theorem ofDigits_ofNat (n : Nat) : ofDigits (digitValues (Text.ofNat n)) = n := by
  induction n using Nat.strongRecOn with
  | ind n ih =>
    rcases Nat.lt_or_ge n 10 with h | h
    · rw [Text.ofNat_of_lt h]
      exact (ofDigits_append_digit (t := []) h).trans (Nat.zero_add n)
    · rw [Text.ofNat_of_le h, ofDigits_append_digit (Nat.mod_lt n (by decide)), ih (n / 10) (by omega)]
      exact Nat.div_add_mod n 10

theorem ofDigits_dropWhile (ws : List Nat) : ofDigits (ws.dropWhile (· = 0)) = ofDigits ws := by
  induction ws with
  | nil => rfl
  | cons d ws ih =>
    by_cases hd : d = 0
    · subst hd
      exact ih
    · rw [List.dropWhile_cons_of_neg (by simpa using hd)]

theorem pow_le_foldl {n k : Nat} (hn : 10 ^ k ≤ n) (ds : List Nat) :
    10 ^ (k + ds.length) ≤ ds.foldl (fun n d => 10 * n + d) n := by
  induction ds generalizing n k with
  | nil => exact hn
  | cons d ds ih =>
    have hstep : 10 ^ (k + 1) ≤ 10 * n + d := by
      rw [Nat.pow_succ]
      omega
    rw [List.length_cons, Nat.add_comm ds.length, ← Nat.add_assoc]
    exact ih hstep

/-- Digits that do not begin with zero stand for a number as great as their count tells. -/
theorem pow_le_ofDigits {d : Nat} (hd : d ≠ 0) (ds : List Nat) : 10 ^ ds.length ≤ ofDigits (d :: ds) := by
  have hone : 10 ^ 0 ≤ 10 * 0 + d := by omega
  simpa [ofDigits] using pow_le_foldl hone ds

end Numeral

theorem Binary64.ofNat_eq_infinite {n : Nat} (h : overflowBound ≤ n) : ofNat n = infinite false := by
  have hinfinite := mt (isFinite_ofRatio_iff false n).1 (not_not_intro h)
  unfold ofNat
  unfold ofRatio at hinfinite ⊢
  rcases isSize_ofUnits (n * unitsPerOne) 1 with heq | ⟨u, heq⟩
  · exact heq
  · rw [heq] at hinfinite
    exact absurd rfl hinfinite

theorem Binary64.ofNat_zero : ofNat 0 = finite false 0 := by decide +kernel

/-- Digits alone are read as the number that they stand for, however many they are. -/
theorem Numeral.value_whole (ws : List Nat) : value false ⟨ws, [], 0⟩ = Binary64.ofNat (ofDigits ws) := by
  have hhead := List.head?_dropWhile_not (fun d : Nat => decide (d = 0)) ws
  unfold value
  simp only [List.append_nil, List.length_nil]
  rw [← ofDigits_dropWhile ws]
  generalize ws.dropWhile (· = 0) = digits at *
  cases digits with
  | nil => exact Binary64.ofNat_zero.symm
  | cons d ds =>
    have hd : d ≠ 0 := by simpa using hhead
    have hpow := pow_le_ofDigits hd ds
    have hpos : ofDigits (d :: ds) ≠ 0 := Nat.ne_of_gt (Nat.lt_of_lt_of_le (Nat.pow_pos (by decide)) hpow)
    unfold Binary64.ofDecimal
    rw [if_neg hpos]
    split
    case isTrue hmany =>
      have hlen : 400 ≤ ds.length := by
        rw [List.length_cons] at hmany
        omega
      obtain ⟨e, he, hbound⟩ : ∃ e ≤ 400, Binary64.overflowBound ≤ Nat.pow 10 e := ⟨400, Nat.le_refl _, by decide +kernel⟩
      have hten : Nat.pow 10 e ≤ 10 ^ ds.length := Nat.pow_le_pow_right (by decide) (Nat.le_trans he hlen)
      exact (Binary64.ofNat_eq_infinite (Nat.le_trans hbound (Nat.le_trans hten hpow))).symm
    case isFalse =>
      have hfew : ¬(((d :: ds).length : Int) + (0 - ((0 : Nat) : Int)) < -400) := by omega
      rw [if_neg hfew, if_pos (by decide)]
      simp [Binary64.ofNat]

namespace Binary64

theorem go_append {a b : Text} (ha : a ≠ []) (hb : b ≠ []) (h : b.length % 3 = 0) :
    groupThousands.go (a ++ b) = groupThousands.go a ++ (',' : CodePoint) :: groupThousands.go b := by
  induction a with
  | nil => exact absurd rfl ha
  | cons d a ih =>
    cases a with
    | nil =>
      obtain ⟨e, b, rfl⟩ := List.exists_cons_of_ne_nil hb
      have hone : groupThousands.go [d] = [d] := rfl
      rw [hone, List.singleton_append, List.singleton_append, groupThousands.go, if_pos h]
      exact hb
    | cons e a =>
      have hrest := ih (List.cons_ne_nil e a)
      have hcount : (e :: (a ++ b)).length % 3 = (e :: a).length % 3 := by
        rw [← List.cons_append, List.length_append]
        omega
      simp only [List.cons_append, groupThousands.go, hcount] at hrest ⊢
      rw [hrest]
      split <;> rfl

end Binary64

namespace Query

/-- A number with a comma between each two groups of three digits. -/
def grouped (n : Nat) : Text := Binary64.groupThousands (Text.ofNat n)

/-- The last three digits of a number. -/
def lastThree (n : Nat) : Text := [Text.digit (n / 10 / 10 % 10), Text.digit (n / 10 % 10), Text.digit (n % 10)]

/-- The number that the digits in front of the first comma stand for. -/
def leadingGroup (n : Nat) : Nat := n / 1000 ^ Nat.log 1000 n

variable {n : Nat}

theorem lastThree_eq (n : Nat) :
    lastThree n = [] ++ [Text.digit (n / 10 / 10 % 10)] ++ [Text.digit (n / 10 % 10)] ++ [Text.digit (n % 10)] := rfl

theorem ofDigits_lastThree (n : Nat) : Numeral.ofDigits (digitValues (lastThree n)) = n % 1000 := by
  have hlt : ∀ k : Nat, k % 10 < 10 := fun k => Nat.mod_lt k (by decide)
  have hnil : Numeral.ofDigits (digitValues []) = 0 := rfl
  rw [lastThree_eq, Numeral.ofDigits_append_digit (hlt _), Numeral.ofDigits_append_digit (hlt _),
    Numeral.ofDigits_append_digit (hlt _), hnil]
  omega

theorem ofNat_eq_lastThree (h : 1000 ≤ n) : Text.ofNat n = Text.ofNat (n / 1000) ++ lastThree n := by
  have hthousand : n / 10 / 10 / 10 = n / 1000 := by omega
  rw [Text.ofNat_of_le (by omega : 10 ≤ n), Text.ofNat_of_le (by omega : 10 ≤ n / 10),
    Text.ofNat_of_le (by omega : 10 ≤ n / 10 / 10), hthousand]
  simp [lastThree]

theorem ofNat_ne_nil (n : Nat) : Text.ofNat n ≠ [] := Digits.ne_nil ⟨_, Text.allPlainDigits_ofNat n⟩

theorem grouped_of_lt (h : n < 1000) : grouped n = Text.ofNat n := by
  rcases Nat.lt_or_ge n 10 with hone | hten
  · rw [grouped, Text.ofNat_of_lt hone]
    rfl
  rcases Nat.lt_or_ge n 100 with htwo | hhundred
  · rw [grouped, Text.ofNat_of_le hten, Text.ofNat_of_lt (by omega : n / 10 < 10)]
    rfl
  · rw [grouped, Text.ofNat_of_le hten, Text.ofNat_of_le (by omega : 10 ≤ n / 10),
      Text.ofNat_of_lt (by omega : n / 10 / 10 < 10)]
    rfl

theorem grouped_of_le (h : 1000 ≤ n) : grouped n = grouped (n / 1000) ++ (',' : CodePoint) :: lastThree n := by
  rw [grouped, ofNat_eq_lastThree h]
  exact Binary64.go_append (ofNat_ne_nil _) (List.cons_ne_nil _ _) (by simp [lastThree])

theorem leadingGroup_of_lt (h : n < 1000) : leadingGroup n = n := by
  rw [leadingGroup, Nat.log_of_lt h, Nat.pow_zero, Nat.div_one]

theorem leadingGroup_of_le (h : 1000 ≤ n) : leadingGroup n = leadingGroup (n / 1000) := by
  rw [leadingGroup, Nat.log_of_one_lt_of_le (by decide) h, Nat.pow_succ', leadingGroup, Nat.div_div_eq_div_mul]

theorem leadingGroup_lt (n : Nat) : leadingGroup n < 1000 := by
  rw [leadingGroup]
  apply Nat.div_lt_of_lt_mul
  rw [← Nat.pow_succ]
  exact Nat.lt_pow_succ_log_self (by decide) n

theorem grouped_induction {P : Nat → Prop} (small : ∀ n < 1000, P n) (step : ∀ n, 1000 ≤ n → P (n / 1000) → P n)
    (n : Nat) : P n := by
  induction n using Nat.strongRecOn with
  | ind n ih =>
    rcases Nat.lt_or_ge n 1000 with h | h
    · exact small n h
    · exact step n h (ih (n / 1000) (by omega))

def decimal (n : Nat) : Digits := ⟨Text.ofNat n, Text.allPlainDigits_ofNat n⟩

def lastDigits (n : Nat) : Digits :=
  ⟨lastThree n, by simp [lastThree, Text.allPlainDigits, Text.digit_values, Nat.mod_lt]⟩

theorem value_whole (w : Digits) :
    (TypedBound.whole w).numeral.value false = Binary64.ofNat (Numeral.ofDigits (digitValues w.1)) :=
  Numeral.value_whole (digitValues w.1)

theorem value_decimal (n : Nat) : (TypedBound.whole (decimal n)).numeral.value false = Binary64.ofNat n := by
  rw [value_whole, decimal, Numeral.ofDigits_ofNat]

theorem isAmountText_grouped (n : Nat) : IsAmountText (grouped n) := by
  induction n using grouped_induction with
  | small n h =>
    rw [grouped_of_lt h]
    exact (decimal n).isAmountText
  | step n h ih =>
    rw [grouped_of_le h]
    exact List.forall_mem_append.2 ⟨ih, List.forall_mem_cons.2 ⟨by decide, (lastDigits n).isAmountText⟩⟩

theorem endsMantissa_comma (t : Text) : Numeral.EndsMantissa ((',' : CodePoint) :: t) := by
  rintro c ⟨⟩
  decide

/-- No bound goes on behind a comma. -/
theorem lastBound?_append_comma (x t : Text) : lastBound? (x ++ (',' : CodePoint) :: t) = lastBound? t := by
  induction x with
  | nil =>
    have hcomma : readBound? ((',' : CodePoint) :: t) = none := readBound?_append (endsMantissa_comma t) []
    rw [List.nil_append, lastBound?, hcomma]
  | cons c x ih =>
    have hread := readBound?_append (endsMantissa_comma t) (c :: x)
    rw [List.cons_append] at hread ⊢
    rw [lastBound?, hread]
    cases readBound? (c :: x) with
    | none => exact ih
    | some found => simpa using ih

theorem lastBound?_grouped (n : Nat) :
    ∃ bound, lastBound? (grouped n) = some bound ∧ bound.value false = Binary64.ofNat (n % 1000) := by
  rcases Nat.lt_or_ge n 1000 with h | h
  · rw [grouped_of_lt h, Nat.mod_eq_of_lt h]
    exact ⟨_, lastBound?_of_readBound? (TypedBound.whole (decimal n)).readBound?_text, value_decimal n⟩
  · rw [grouped_of_le h, lastBound?_append_comma]
    refine ⟨_, lastBound?_of_readBound? (TypedBound.whole (lastDigits n)).readBound?_text, ?_⟩
    rw [value_whole, lastDigits, ofDigits_lastThree]

theorem readBound?_grouped (n : Nat) :
    ∃ bound rest, readBound? (grouped n) = some (bound, rest) ∧ bound.value false = Binary64.ofNat (leadingGroup n) := by
  induction n using grouped_induction with
  | small n h =>
    rw [grouped_of_lt h, leadingGroup_of_lt h]
    exact ⟨_, _, (TypedBound.whole (decimal n)).readBound?_text, value_decimal n⟩
  | step n h ih =>
    obtain ⟨bound, rest, hread, hvalue⟩ := ih
    rw [grouped_of_le h, leadingGroup_of_le h, readBound?_append (endsMantissa_comma _), hread]
    exact ⟨bound, _, rfl, hvalue⟩

/-- Of grouped bounds the last group of the lower one and the first group of the upper one are found. -/
theorem range?_grouped (s : RangeSpelling) (m n : Nat) : range? (s.text (grouped m) (grouped n)) =
    between? (Binary64.ofNat (m % 1000)) (Binary64.ofNat (leadingGroup n)) := by
  obtain ⟨low, hlow, hlowValue⟩ := lastBound?_grouped m
  obtain ⟨high, rest, hhigh, hhighValue⟩ := readBound?_grouped n
  rw [range?_spelled s (isAmountText_grouped m) (isAmountText_grouped n) (head_of_readBound? hhigh), hlow, hhigh, ← hlowValue,
    ← hhighValue]
  rfl

theorem range?_decimal (s : RangeSpelling) (m n : Nat) :
    range? (s.text (Text.ofNat m) (Text.ofNat n)) = between? (Binary64.ofNat m) (Binary64.ofNat n) := by
  rw [← value_decimal m, ← value_decimal n]
  exact TypedBound.range?_text s (.whole (decimal m)) (.whole (decimal n))

/-- The first group of a number with a comma is read as less than the number. -/
theorem ofNat_leadingGroup_ne (h : 1000 ≤ n) : Binary64.ofNat (leadingGroup n) ≠ Binary64.ofNat n := by
  intro heq
  have hlow := Binary64.le_ofNat h
  rw [← heq] at hlow
  have hhigh := Binary64.le_ofNat (Nat.le_of_lt_succ (leadingGroup_lt n))
  exact absurd (Binary64.le_trans hlow hhigh) (by decide +kernel)

/-- Between whole numbers in order the range of the plain numbers runs from the lower to the upper one, and the range of
the grouped numbers is the same only if neither number has a comma. -/
theorem range_grouped_iff (s : RangeSpelling) {m n : Nat} (h : m ≤ n) :
    (moneyTokens (s.text (Text.ofNat m) (Text.ofNat n))).range = some ⟨Binary64.ofNat m, Binary64.ofNat n⟩ ∧
    (moneyTokens (s.text (grouped m) (grouped n))).range =
      between? (Binary64.ofNat (m % 1000)) (Binary64.ofNat (leadingGroup n)) ∧
    ((moneyTokens (s.text (grouped m) (grouped n))).range = (moneyTokens (s.text (Text.ofNat m) (Text.ofNat n))).range ↔
      n < 1000) := by
  have hplain : range? (s.text (Text.ofNat m) (Text.ofNat n)) = some ⟨Binary64.ofNat m, Binary64.ofNat n⟩ := by
    rw [range?_decimal, between?, if_pos (Binary64.le_ofNat h)]
  rw [range_moneyTokens, range_moneyTokens, hplain, range?_grouped]
  refine ⟨rfl, rfl, fun hsame => ?_, fun hlt => ?_⟩
  · rw [between?, Option.ite_none_right_eq_some, Option.some.injEq, PriceRange.mk.injEq] at hsame
    exact Nat.lt_of_not_le fun hle => ofNat_leadingGroup_ne hle hsame.2.2
  · rw [Nat.mod_eq_of_lt (Nat.lt_of_le_of_lt h hlt), leadingGroup_of_lt hlt, between?, if_pos (Binary64.le_ofNat h)]

def dollarHyphen : RangeSpelling := ⟨true, .hyphen [] [] .nil .nil, true⟩

/-- With a comma the upper bound falls below the lower one, and no range is left. -/
theorem range_grouped_iff_fifteenHundred :
    (moneyTokens "$999-$1500".toText).range = some ⟨Binary64.ofNat 999, Binary64.ofNat 1500⟩ ∧
    (moneyTokens "$999-$1,500".toText).range = none := by
  obtain ⟨hplain, hgrouped, -⟩ := range_grouped_iff dollarHyphen (m := 999) (n := 1500) (by decide)
  have hplainText : dollarHyphen.text (Text.ofNat 999) (Text.ofNat 1500) = "$999-$1500".toText := by decide +kernel
  have hgroupedText : dollarHyphen.text (grouped 999) (grouped 1500) = "$999-$1,500".toText := by decide +kernel
  rw [hplainText] at hplain
  rw [hgroupedText] at hgrouped
  exact ⟨hplain, hgrouped.trans (by decide +kernel)⟩

/-- Grouped and plain bounds of one range are not read alike: the groups next to the hyphen make a range of their own. -/
theorem range_thousands : (moneyTokens "1000-2000".toText).range = some ⟨Binary64.ofNat 1000, Binary64.ofNat 2000⟩ ∧
    (moneyTokens "1,000-2,000".toText).range = some ⟨Binary64.ofNat 0, Binary64.ofNat 2⟩ ∧
    (moneyTokens "1,000-2,000".toText).range ≠ (moneyTokens "1000-2000".toText).range := by
  decide +kernel

end Query
end LedgerSearch

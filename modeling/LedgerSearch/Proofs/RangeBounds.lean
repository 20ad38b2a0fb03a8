import LedgerSearch.Proofs.Proximity

/-!
# How high a range can reach

A bound of a range has no exponent, so its value lies below the power of ten of its whole digits. A text of fewer than
308 characters holds no bound that is out of the finite numbers, and every range in it has an upper end
(`isFinite_max_of_length`).
-/

namespace LedgerSearch

theorem Text.digitValue?_lt {c : CodePoint} {d : Nat} (h : Text.digitValue? c = some d) : d < 10 := by
  obtain ⟨first, -, hfirst⟩ := List.exists_of_findSome?_eq_some h
  split at hfirst
  · cases hfirst
    omega
  · cases hfirst

namespace Numeral

theorem foldl_digits_lt {digits : List Nat} (h : ∀ d ∈ digits, d < 10) {n k : Nat} (hn : n < Nat.pow 10 k) :
    digits.foldl (fun n d => 10 * n + d) n < Nat.pow 10 (k + digits.length) := by
  induction digits generalizing n k with
  | nil => exact hn
  | cons d rest ih =>
    obtain ⟨hd, hrest⟩ := List.forall_mem_cons.1 h
    have hstep : 10 * n + d < Nat.pow 10 k * 10 := by omega
    have hlen : k + (d :: rest).length = k + 1 + rest.length := by
      rw [List.length_cons]
      omega
    rw [List.foldl_cons, hlen]
    exact ih hrest hstep

theorem ofDigits_lt {digits : List Nat} (h : ∀ d ∈ digits, d < 10) :
    ofDigits digits < Nat.pow 10 digits.length := by
  have hfold := foldl_digits_lt h (n := 0) (k := 0) (by decide)
  rwa [Nat.zero_add] at hfold

theorem readDigits_lt {t : Text} : ∀ d ∈ (readDigits t).1, d < 10 := by
  induction t with
  | nil => exact fun d hd => by cases hd
  | cons c rest ih =>
    rw [readDigits]
    split
    · rename_i d hd
      exact List.forall_mem_cons.2 ⟨Text.digitValue?_lt hd, ih⟩
    · exact fun d hd => by cases hd

theorem length_readDigits (t : Text) : (readDigits t).1.length + (readDigits t).2.length = t.length := by
  induction t with
  | nil => rfl
  | cons c rest ih =>
    rw [readDigits]
    split
    · simp only [List.length_cons]
      omega
    · simp

end Numeral

/-- A numeral of decimal digits without an exponent. -/
structure Numeral.IsPlain (n : Numeral) : Prop where
  whole : ∀ d ∈ n.whole, d < 10
  fraction : ∀ d ∈ n.fraction, d < 10
  exponent : n.exponent = 0

namespace Binary64

theorem isFinite_ofUnits (negative : Bool) {num den m : Nat} (h : num / den ≤ m) (hm : 2 * m + 1 ≤ maxUnits) :
    (ofUnits negative num den).isFinite = true := by
  have hround := roundUnits_le num den
  have hle : roundUnits num den ≤ maxUnits := by
    generalize maxUnits = top at *
    omega
  rw [ofUnits_of_le negative hle]
  rfl

theorem isFinite_ofRatio (negative : Bool) {num den m : Nat} (h : num ≤ m * den)
    (hm : 2 * (m * unitsPerOne) + 1 ≤ maxUnits) : (ofRatio negative num den).isFinite = true := by
  unfold ofRatio
  apply isFinite_ofUnits negative _ hm
  apply Nat.div_le_of_le_mul
  calc num * unitsPerOne ≤ m * den * unitsPerOne := Nat.mul_le_mul_right _ h
    _ = den * (m * unitsPerOne) := by rw [Nat.mul_comm m den, Nat.mul_assoc]

theorem pow_units_le {k e : Nat} (hk : k ≤ e) (he : 2 * (Nat.pow 10 e * unitsPerOne) + 1 ≤ maxUnits) :
    2 * (Nat.pow 10 k * unitsPerOne) + 1 ≤ maxUnits := by
  have hpow : Nat.pow 10 k ≤ Nat.pow 10 e := Nat.pow_le_pow_right (by decide) hk
  have hunits := Nat.mul_le_mul_right unitsPerOne hpow
  exact Nat.le_trans (Nat.succ_le_succ (Nat.mul_le_mul_left 2 hunits)) he

end Binary64

theorem Numeral.IsPlain.isFinite_value {n : Numeral} (h : n.IsPlain) (hlen : n.whole.length ≤ 307) (negative : Bool) :
    (n.value negative).isFinite = true := by
  have hdigits : ∀ d ∈ (n.whole ++ n.fraction).dropWhile (· = 0), d < 10 :=
    fun d hd => (List.forall_mem_append.2 ⟨h.whole, h.fraction⟩) d (List.dropWhile_subset _ hd)
  have hcount : ((n.whole ++ n.fraction).dropWhile (· = 0)).length ≤ n.whole.length + n.fraction.length := by
    rw [← List.length_append]
    exact (List.dropWhile_sublist _).length_le
  have hmantissa := ofDigits_lt hdigits
  unfold value
  rw [h.exponent]
  dsimp only
  generalize (n.whole ++ n.fraction).dropWhile (· = 0) = digits at *
  -- the digits behind the point only divide: what is left lies below the power of ten of the whole digits
  have hbound : ofDigits digits ≤ Nat.pow 10 n.whole.length * Nat.pow 10 n.fraction.length := by
    rw [Nat.pow_eq, Nat.pow_eq, ← Nat.pow_add]
    exact Nat.le_trans (Nat.le_of_lt hmantissa) (Nat.pow_le_pow_right (by decide) hcount)
  have hunits := Binary64.pow_units_le hlen (by decide +kernel)
  unfold Binary64.ofDecimal
  split
  · rfl
  · split
    · omega
    · split
      · rfl
      · split
        · have hzero : ((0 : Int) - (n.fraction.length : Int)).toNat = 0 := by omega
          have hfraction : n.fraction.length = 0 := by omega
          apply Binary64.isFinite_ofRatio negative _ hunits
          have hone : Nat.pow 10 0 = 1 := rfl
          rw [hfraction, hone] at hbound
          rwa [hzero, hone, Nat.mul_one (ofDigits digits)]
        · have hfraction : (-((0 : Int) - (n.fraction.length : Int))).toNat = n.fraction.length := by omega
          apply Binary64.isFinite_ofRatio negative _ hunits
          rwa [hfraction]

namespace Query

theorem readBound?_plain {t rest : Text} {n : Numeral} (h : readBound? t = some (n, rest)) :
    n.IsPlain ∧ n.whole.length + rest.length ≤ t.length := by
  have hwhole := @Numeral.readDigits_lt t
  have hlen := Numeral.length_readDigits t
  unfold readBound? at h
  split at h
  · cases h
  · rename_i ws tail _ hread
    rw [hread] at hwhole hlen
    dsimp only at hwhole hlen
    split at h
    · rename_i after
      have hfraction := @Numeral.readDigits_lt after
      have hafter := Numeral.length_readDigits after
      split at h
      · cases h
        exact ⟨⟨hwhole, List.forall_mem_nil _, rfl⟩, Nat.le_of_eq hlen⟩
      · rename_i fs _ _ hread
        cases h
        rw [hread] at hfraction hafter
        rw [List.length_cons] at hlen
        dsimp only at hfraction hafter
        exact ⟨⟨hwhole, hfraction, rfl⟩, by dsimp only; omega⟩
    · cases h
      exact ⟨⟨hwhole, List.forall_mem_nil _, rfl⟩, Nat.le_of_eq hlen⟩

theorem length_afterHyphen?_le {t rest : Text} (h : afterHyphen? t = some rest) : rest.length ≤ t.length := by
  have hstrip := length_stripStart_le t
  unfold afterHyphen? at h
  split at h
  · rename_i after heq
    cases h
    have := length_stripStart_le after
    rw [heq, List.length_cons] at hstrip
    omega
  · cases h

theorem length_afterTo?_le {t rest : Text} (h : afterTo? t = some rest) : rest.length ≤ t.length := by
  unfold afterTo? at h
  split at h
  · cases h
  · rename_i c tail
    have hstrip := length_stripStart_le tail
    split at h
    · split at h
      · rename_i a b d after heq
        rw [heq] at hstrip
        have := length_stripStart_le after
        split at h
        · cases h
          simp only [List.length_cons] at hstrip ⊢
          omega
        · cases h
      · cases h
    · cases h

namespace RangeNotation

/-- A way to set bounds apart that only leaves text out. -/
def Shortens (n : RangeNotation) : Prop := ∀ t rest, n.separator t = some rest → rest.length ≤ t.length

theorem shortens_of_mem {n : RangeNotation} (h : n ∈ rangeNotations) : n.Shortens := by
  simp only [rangeNotations, List.mem_cons, List.not_mem_nil, or_false] at h
  rcases h with rfl | rfl | rfl | rfl
  · exact fun t rest => length_afterHyphen?_le
  · exact fun t rest => length_afterTo?_le
  · exact fun t rest => length_afterHyphen?_le
  · exact fun t rest => length_afterTo?_le

theorem bounds?_plain {n : RangeNotation} (hn : n.Shortens) {t : Text} {low high : Numeral}
    (h : n.bounds? t = some (low, high)) : high.IsPlain ∧ high.whole.length ≤ t.length := by
  unfold bounds? at h
  obtain ⟨⟨low', rest⟩, hlow, h⟩ := Option.bind_eq_some_iff.1 h
  obtain ⟨behind, hbehind, h⟩ := Option.bind_eq_some_iff.1 h
  have hrest := (readBound?_plain hlow).2
  have hshort := hn rest behind hbehind
  have hupper : ∀ body : Text, body.length ≤ behind.length →
      ((readBound? body).bind fun found => some (low', found.1)) = some (low, high) →
      high.IsPlain ∧ high.whole.length ≤ t.length := by
    intro body hbody hread
    obtain ⟨⟨found, tail⟩, hfound, hhigh⟩ := Option.bind_eq_some_iff.1 hread
    obtain ⟨hplain, hlen⟩ := readBound?_plain hfound
    cases hhigh
    exact ⟨hplain, by dsimp only; omega⟩
  dsimp only at h
  split at h
  · obtain ⟨body, hbody, h⟩ := Option.bind_eq_some_iff.1 h
    split at hbody
    · cases hbody
      exact hupper _ (Nat.le_succ _) h
    · cases hbody
  · exact hupper behind (Nat.le_refl _) h

theorem find?_plain {n : RangeNotation} (hn : n.Shortens) {t : Text} {low high : Numeral}
    (h : n.find? t = some (low, high)) : high.IsPlain ∧ high.whole.length ≤ t.length := by
  induction t with
  | nil => cases h
  | cons c rest ih =>
    rw [find?] at h
    split at h
    · rename_i hbounds
      cases h
      exact bounds?_plain hn hbounds
    · obtain ⟨hplain, hlen⟩ := ih h
      exact ⟨hplain, Nat.le_succ_of_le hlen⟩

end RangeNotation

theorem length_moneyQuery_le (leaf : Text) : (moneyQuery leaf).text.length ≤ leaf.length := by
  have hstrip := length_strip_le leaf
  unfold moneyQuery
  split
  · rename_i rest heq
    have hrest := length_strip_le rest
    rw [heq, List.length_cons] at hstrip
    dsimp only
    omega
  · exact Nat.le_refl _

theorem length_le_of_mem_leaves {query : Text} : ∀ leaf ∈ (parse query).leaves, leaf.length ≤ query.length := by
  fun_induction parse query with
  | case1 query _ op left right hsplit ihl ihr =>
    obtain ⟨hleft, hright⟩ := length_split?_lt hsplit
    have hstrip := length_strip_le query
    rw [Tree.leaves, List.forall_mem_append]
    exact ⟨fun leaf hleaf => by have := ihl leaf hleaf; omega, fun leaf hleaf => by have := ihr leaf hleaf; omega⟩
  | case2 query _ _ operand hnegated ih =>
    intro leaf hleaf
    have hoperand := length_negated?_lt hnegated
    have hstrip := length_strip_le query
    have := ih leaf hleaf
    omega
  | case3 query | case4 query =>
    intro leaf hleaf
    rw [List.mem_singleton.1 hleaf]
    exact length_strip_le query

/-- In a text of fewer than 308 characters every range has an upper end. -/
theorem isFinite_max_of_length {query : Text} {range : PriceRange} (h : range? query = some range)
    (hlen : query.length ≤ 307) : range.max.isFinite = true := by
  obtain ⟨n, hn, hfound⟩ := List.exists_of_findSome?_eq_some h
  obtain ⟨⟨low, high⟩, hbounds, hbetween⟩ := Option.bind_eq_some_iff.1 hfound
  obtain ⟨hplain, hwhole⟩ := RangeNotation.find?_plain (RangeNotation.shortens_of_mem hn) hbounds
  unfold between? at hbetween
  split at hbetween
  · cases hbetween
    exact hplain.isFinite_value (Nat.le_trans hwhole hlen) false
  · cases hbetween

end Query
end LedgerSearch

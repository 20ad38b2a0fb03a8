import LedgerSearch.Proofs.Spacing
import Mathlib.Data.List.TakeWhile

/-!
# Pieces of a text that are numbers

A query is read for numbers by their shape: a mantissa and, for an amount, an exponent without a minus sign. Each piece of
a text that has this shape is a number also to the reader of whole texts, which knows more shapes, and it is the same
number (`IsNumeralText.read?_eq`). So nothing that is taken from a query as a number fails to be read as one.
-/

namespace LedgerSearch

open Text (digitValue? isBlank isDigit)

/-- The values of the digits of a text. -/
def digitValues (t : Text) : List Nat := t.filterMap digitValue?

/-- Digits of any script, and nothing else. -/
def AreDigits (t : Text) : Prop := ∀ c ∈ t, isDigit c = true

/-- The text does not go on with a digit. -/
def EndsDigits (t : Text) : Prop := ∀ c ∈ t.head?, isDigit c = false

theorem digitValue?_eq_none {c : CodePoint} (h : isDigit c = false) : digitValue? c = none := by
  simpa [isDigit] using h

theorem exists_digitValue {c : CodePoint} (h : isDigit c = true) : ∃ d, digitValue? c = some d :=
  Option.isSome_iff_exists.1 h

theorem digitValues_eq_nil_iff {t : Text} (h : AreDigits t) : digitValues t = [] ↔ t = [] := by
  cases t with
  | nil => exact iff_of_true rfl rfl
  | cons c t =>
    obtain ⟨d, hd⟩ := exists_digitValue (h c List.mem_cons_self)
    simp [digitValues, hd]

namespace Numeral

theorem readDigits_append {ws rest : Text} (hws : AreDigits ws) (hrest : EndsDigits rest) :
    readDigits (ws ++ rest) = (digitValues ws, rest) := by
  induction ws with
  | nil =>
    cases rest with
    | nil => rfl
    | cons c rest => simp [readDigits, digitValue?_eq_none (hrest c rfl), digitValues]
  | cons c ws ih =>
    obtain ⟨hc, hws⟩ := List.forall_mem_cons.1 hws
    obtain ⟨d, hd⟩ := exists_digitValue hc
    simp [readDigits, hd, ih hws, digitValues]

/-- What is read as digits are all the digits at the start. -/
theorem exists_readDigits (t : Text) : ∃ ws rest, t = ws ++ rest ∧ AreDigits ws ∧ EndsDigits rest ∧
    readDigits t = (digitValues ws, rest) := by
  have hws : AreDigits (t.takeWhile isDigit) := fun c hc => List.mem_takeWhile_imp hc
  have hrest : EndsDigits (t.dropWhile isDigit) := by
    intro c hc
    have h := List.head?_dropWhile_not isDigit t
    rw [Option.mem_def.1 hc] at h
    simpa using h
  have hparts : t = t.takeWhile isDigit ++ t.dropWhile isDigit := List.takeWhile_append_dropWhile.symm
  refine ⟨_, _, hparts, hws, hrest, ?_⟩
  conv => lhs; rw [hparts]
  exact readDigits_append hws hrest

/-- A mantissa with the digit values of its whole part and its fraction. -/
inductive IsMantissa : Text → List Nat → List Nat → Prop
  | whole {ws : Text} (hne : ws ≠ []) (hws : AreDigits ws) : IsMantissa ws (digitValues ws) []
  | decimals {ws fs : Text} (hne : ws ≠ []) (hws : AreDigits ws) (hfs : AreDigits fs) :
    IsMantissa (ws ++ ('.' : CodePoint) :: fs) (digitValues ws) (digitValues fs)
  | fraction {fs : Text} (hne : fs ≠ []) (hfs : AreDigits fs) :
    IsMantissa (('.' : CodePoint) :: fs) [] (digitValues fs)

/-- An exponent that is not negative, or nothing. -/
inductive IsExponent : Text → Int → Prop
  | none : IsExponent [] 0
  | mark {e : CodePoint} (he : e = 'e' ∨ e = 'E') {ds : Text} (hne : ds ≠ []) (hds : AreDigits ds) :
    IsExponent (e :: ds) (ofDigits (digitValues ds))
  | plus {e : CodePoint} (he : e = 'e' ∨ e = 'E') {ds : Text} (hne : ds ≠ []) (hds : AreDigits ds) :
    IsExponent (e :: ('+' : CodePoint) :: ds) (ofDigits (digitValues ds))

/-- A text that is a numeral from its first to its last character. -/
def IsNumeralText (n : Numeral) (s : Text) : Prop :=
  ∃ m x, s = m ++ x ∧ IsMantissa m n.whole n.fraction ∧ IsExponent x n.exponent

/-- The text goes on neither with a digit nor with a point. -/
def EndsMantissa (t : Text) : Prop := ∀ c ∈ t.head?, isDigit c = false ∧ c ≠ '.'

theorem exists_isMantissa {t : Text} {ws fs : List Nat} {tail : Text} (h : readMantissa t = some (ws, fs, tail)) :
    ∃ m, t = m ++ tail ∧ IsMantissa m ws fs := by
  obtain ⟨ds, rest, rfl, hds, -, hread⟩ := exists_readDigits t
  unfold readMantissa at h
  rw [hread] at h
  split at h
  case h_1 body heq =>
    obtain ⟨hnone, rfl⟩ := Prod.mk.inj heq
    obtain rfl := (digitValues_eq_nil_iff hds).1 hnone
    obtain ⟨es, tail', rfl, hes, -, hfraction⟩ := exists_readDigits body
    rw [hfraction] at h
    split at h
    case h_1 => cases h
    case h_2 hsome heq' =>
      cases heq'
      cases h
      exact ⟨_, rfl, .fraction (mt (digitValues_eq_nil_iff hes).2 hsome) hes⟩
  case h_2 => cases h
  case h_3 body hsome heq =>
    obtain ⟨rfl, rfl⟩ := Prod.mk.inj heq
    obtain ⟨es, tail', rfl, hes, -, hfraction⟩ := exists_readDigits body
    rw [hfraction] at h
    cases h
    exact ⟨ds ++ ('.' : CodePoint) :: es, by simp, .decimals (mt (digitValues_eq_nil_iff hds).2 hsome) hds hes⟩
  case h_4 hsome _ heq =>
    obtain ⟨rfl, rfl⟩ := Prod.mk.inj heq
    cases h
    exact ⟨_, rfl, .whole (mt (digitValues_eq_nil_iff hds).2 hsome) hds⟩

theorem endsDigits_point (t : Text) : EndsDigits (('.' : CodePoint) :: t) := by
  rintro c ⟨⟩
  decide

theorem IsMantissa.readMantissa_append {m tail : Text} {ws fs : List Nat} (h : IsMantissa m ws fs)
    (htail : EndsMantissa tail) : readMantissa (m ++ tail) = some (ws, fs, tail) := by
  have hdigits : EndsDigits tail := fun c hc => (htail c hc).1
  cases h with
  | whole hne hws =>
    obtain ⟨d, ds, hd⟩ := List.exists_cons_of_ne_nil (mt (digitValues_eq_nil_iff hws).1 hne)
    rw [readMantissa, readDigits_append hws hdigits, hd]
    cases tail with
    | nil => rfl
    | cons c tail =>
      have hc := (htail c rfl).2
      split <;> simp_all
  | @decimals ws fs hne hws hfs =>
    obtain ⟨d, ds, hd⟩ := List.exists_cons_of_ne_nil (mt (digitValues_eq_nil_iff hws).1 hne)
    rw [readMantissa, List.append_assoc, List.cons_append, readDigits_append hws (endsDigits_point _), hd]
    simp [readDigits_append hfs hdigits]
  | @fraction fs hne hfs =>
    obtain ⟨d, ds, hd⟩ := List.exists_cons_of_ne_nil (mt (digitValues_eq_nil_iff hfs).1 hne)
    have hfirst : readDigits (('.' : CodePoint) :: (fs ++ tail)) = ([], ('.' : CodePoint) :: (fs ++ tail)) :=
      readDigits_append (List.forall_mem_nil _) (endsDigits_point _)
    rw [readMantissa, List.cons_append, hfirst]
    simp [readDigits_append hfs hdigits, hd]

/-- The exponent whose digits stand at the start of a body, in a text that is returned as it is if there are none. -/
def exponentFrom (t body : Text) : Int × Text :=
  match readDigits body with
  | ([], _) => (0, t)
  | (ds, tail) => (ofDigits ds, tail)

section Exponent

variable {e : CodePoint} (he : e = 'e' ∨ e = 'E')
include he

theorem readExponent_plus (minus : Bool) (body : Text) :
    readExponent minus (e :: ('+' : CodePoint) :: body) = exponentFrom (e :: ('+' : CodePoint) :: body) body := by
  unfold readExponent exponentFrom
  simp only [if_pos he]
  rfl

theorem readExponent_mark (minus : Bool) {body : Text} (hplus : ∀ r : Text, body ≠ ('+' : CodePoint) :: r)
    (hminus : minus = true → ∀ r : Text, body ≠ ('-' : CodePoint) :: r) :
    readExponent minus (e :: body) = exponentFrom (e :: body) body := by
  cases body with
  | nil =>
    unfold readExponent exponentFrom
    simp [he, readDigits]
  | cons c r =>
    by_cases hm : c = '-'
    · cases minus with
      | true => exact absurd (by rw [hm]) (hminus rfl r)
      | false =>
        subst hm
        unfold readExponent exponentFrom
        simp only [if_pos he]
        rfl
    · unfold readExponent exponentFrom
      simp only [if_pos he, List.cons.injEq, hm, false_and, imp_self, implies_true]
      rfl

end Exponent

theorem exists_isExponent {t rest : Text} {k : Int} (h : readExponent false t = (k, rest)) :
    ∃ x, t = x ++ rest ∧ IsExponent x k := by
  have hfrom : ∀ (sign : Text) {body : Text}, t = sign ++ body → exponentFrom t body = (k, rest) →
      (∀ {ds : Text}, ds ≠ [] → AreDigits ds → IsExponent (sign ++ ds) (ofDigits (digitValues ds))) →
      ∃ x, t = x ++ rest ∧ IsExponent x k := by
    intro sign body ht h hshape
    obtain ⟨ds, tail, rfl, hds, -, hread⟩ := exists_readDigits body
    rw [exponentFrom, hread] at h
    split at h
    case h_1 =>
      cases h
      exact ⟨[], rfl, .none⟩
    case h_2 hsome heq =>
      cases heq
      cases h
      exact ⟨sign ++ ds, by rw [ht, List.append_assoc], hshape (mt (digitValues_eq_nil_iff hds).2 hsome) hds⟩
  cases t with
  | nil =>
    cases h
    exact ⟨[], rfl, .none⟩
  | cons e body =>
    by_cases he : e = 'e' ∨ e = 'E'
    · by_cases hplus : ∃ r : Text, body = ('+' : CodePoint) :: r
      · obtain ⟨r, rfl⟩ := hplus
        exact hfrom [e, ('+' : CodePoint)] rfl (readExponent_plus he false r ▸ h) fun hne hds => .plus he hne hds
      · rw [readExponent_mark he false (fun r hr => hplus ⟨r, hr⟩) fun h => nomatch h] at h
        exact hfrom [e] rfl h fun hne hds => .mark he hne hds
    · simp only [readExponent, if_neg he] at h
      cases h
      exact ⟨[], rfl, .none⟩

theorem IsExponent.readExponent_eq {x : Text} {k : Int} (h : IsExponent x k) (minus : Bool) :
    readExponent minus x = (k, []) := by
  have hfrom : ∀ {ds : Text} (t : Text), ds ≠ [] → AreDigits ds →
      exponentFrom t ds = ((ofDigits (digitValues ds) : Int), []) := by
    intro ds t hne hds
    obtain ⟨d, values, hd⟩ := List.exists_cons_of_ne_nil (mt (digitValues_eq_nil_iff hds).1 hne)
    have hread : readDigits (ds ++ []) = (digitValues ds, []) := readDigits_append hds nofun
    rw [List.append_nil] at hread
    rw [exponentFrom, hread, hd]
  cases h with
  | none => rfl
  | @mark e he ds hne hds =>
    have hdigit : ∀ c : CodePoint, isDigit c = false → ∀ r : Text, ds ≠ c :: r := by
      rintro c hc r rfl
      rw [hds c List.mem_cons_self] at hc
      cases hc
    rw [readExponent_mark he minus (hdigit '+' (by decide)) fun _ => hdigit '-' (by decide), hfrom _ hne hds]
  | @plus e he ds hne hds => rw [readExponent_plus he, hfrom _ hne hds]

theorem IsExponent.endsMantissa {x : Text} {k : Int} (h : IsExponent x k) : EndsMantissa x := by
  have hmark : ∀ e : CodePoint, e = 'e' ∨ e = 'E' → isDigit e = false ∧ e ≠ '.' := by
    rintro e (rfl | rfl) <;> decide
  cases h with
  | none => exact nofun
  | mark he | plus he =>
    rintro c ⟨⟩
    exact hmark _ he

namespace IsNumeralText

variable {s : Text} {n : Numeral}

theorem read?_numeral (h : IsNumeralText n s) (minus : Bool) : read? minus s = some (n, []) := by
  obtain ⟨m, x, rfl, hm, hx⟩ := h
  simp only [read?, hm.readMantissa_append hx.endsMantissa, hx.readExponent_eq]

/-- A character that numerals consist of. -/
def IsNumeralChar (c : CodePoint) : Prop := isDigit c = true ∨ c = '.' ∨ c = 'e' ∨ c = 'E' ∨ c = '+'

instance : DecidablePred IsNumeralChar := fun c =>
  inferInstanceAs (Decidable (isDigit c = true ∨ c = '.' ∨ c = 'e' ∨ c = 'E' ∨ c = '+'))

theorem isNumeralChar (h : IsNumeralText n s) : ∀ c ∈ s, IsNumeralChar c := by
  have hdigits : ∀ {ds : Text}, AreDigits ds → ∀ c ∈ ds, IsNumeralChar c := fun hds c hc => .inl (hds c hc)
  have hpoint : IsNumeralChar '.' := .inr (.inl rfl)
  have hplus : IsNumeralChar '+' := .inr (.inr (.inr (.inr rfl)))
  have hmark : ∀ e : CodePoint, e = 'e' ∨ e = 'E' → IsNumeralChar e := fun e he => .inr (.inr (he.imp_right .inl))
  obtain ⟨ws, fs, k⟩ := n
  obtain ⟨m, x, rfl, hm, hx⟩ := h
  rw [List.forall_mem_append]
  constructor
  · cases hm with
    | whole hne hws => exact hdigits hws
    | decimals hne hws hfs => exact List.forall_mem_append.2 ⟨hdigits hws, List.forall_mem_cons.2 ⟨hpoint, hdigits hfs⟩⟩
    | fraction hne hfs => exact List.forall_mem_cons.2 ⟨hpoint, hdigits hfs⟩
  · cases hx with
    | none => exact List.forall_mem_nil _
    | mark he hne hds => exact List.forall_mem_cons.2 ⟨hmark _ he, hdigits hds⟩
    | plus he hne hds => exact List.forall_mem_cons.2 ⟨hmark _ he, List.forall_mem_cons.2 ⟨hplus, hdigits hds⟩⟩

theorem exists_first (h : IsNumeralText n s) : ∃ c rest, s = c :: rest ∧ (isDigit c = true ∨ c = '.') := by
  obtain ⟨ws, fs, k⟩ := n
  obtain ⟨m, x, rfl, hm, -⟩ := h
  cases hm with
  | @whole ws hne hws | @decimals ws _ hne hws =>
    obtain ⟨c, ws, rfl⟩ := List.exists_cons_of_ne_nil hne
    exact ⟨c, _, rfl, .inl (hws c List.mem_cons_self)⟩
  | fraction hne hfs => exact ⟨_, _, rfl, .inr rfl⟩

end IsNumeralText
end Numeral

namespace Binary64

open Numeral IsNumeralText

theorem isBlank_of_isNumberBlank {c : CodePoint} (h : isNumberBlank c = true) : isBlank c = true := by
  unfold isNumberBlank at h
  split at h
  · rw [Bool.or_eq_true, decide_eq_true_eq, Bool.and_eq_true, decide_eq_true_eq, decide_eq_true_eq] at h
    rcases h with rfl | h
    · decide
    · have htab : '\t'.toNat = 9 := rfl
      have hreturn : '\r'.toNat = 13 := rfl
      rw [htab, hreturn] at h
      simp [isBlank, Text.inRanges, Text.blankRanges, h]
  · exact h

theorem not_isBlank_of_isNumeralChar {c : CodePoint} (h : IsNumeralChar c) : isBlank c = false := by
  rcases h with hdigit | rfl | rfl | rfl | rfl
  · cases hblank : isBlank c with
    | false => rfl
    | true => simp [isDigit, Query.digitValue?_blank hblank] at hdigit
  all_goals decide

theorem not_isNumberBlank {c : CodePoint} (h : IsNumeralChar c) : isNumberBlank c = false :=
  eq_false_of_ne_true fun hblank =>
    ne_true_of_eq_false (not_isBlank_of_isNumeralChar h) (isBlank_of_isNumberBlank hblank)

theorem joinDigits?_eq_some {t : Text} {previous : CodePoint} (hprevious : previous ≠ '_') (h : ∀ c ∈ t, c ≠ '_') :
    joinDigits? previous t = some t := by
  induction t generalizing previous with
  | nil => simp [joinDigits?, hprevious]
  | cons c t ih =>
    obtain ⟨hc, ht⟩ := List.forall_mem_cons.1 h
    simp [joinDigits?, hc, hprevious, ih hc ht]

/-- In a text of characters of numerals there is nothing to drop before it is read. -/
theorem joinDigits?_trimmed {t : Text} (h : ∀ c ∈ t, IsNumeralChar c) :
    joinDigits? ' ' (Text.dropEndWhile isNumberBlank (t.dropWhile isNumberBlank)) = some t := by
  have hkeep : ∀ {t : Text}, (∀ c ∈ t, IsNumeralChar c) → t.dropWhile isNumberBlank = t := by
    intro t h
    cases t with
    | nil => rfl
    | cons c t => rw [List.dropWhile_cons_of_neg (by simp [not_isNumberBlank (h c List.mem_cons_self)])]
  rw [hkeep h, Text.dropEndWhile, hkeep fun c hc => h c (List.mem_reverse.1 hc), List.reverse_reverse]
  refine joinDigits?_eq_some (by decide) fun c hc => ?_
  rintro rfl
  exact absurd (h _ hc) (by decide)

theorem read?_plus {t : Text} (h : ∀ c ∈ t, IsNumeralChar c) : read? (('+' : CodePoint) :: t) = readUnsigned? false t := by
  have hplus : IsNumeralChar '+' := by decide
  rw [read?, joinDigits?_trimmed (List.forall_mem_cons.2 ⟨hplus, h⟩)]
  rfl

theorem read?_unsigned {c : CodePoint} {t : Text} (h : ∀ d ∈ c :: t, IsNumeralChar d) (hc : c ≠ '+') :
    read? (c :: t) = readUnsigned? false (c :: t) := by
  have hminus : c ≠ '-' := by
    rintro rfl
    exact absurd (h _ List.mem_cons_self) (by decide)
  rw [read?, joinDigits?_trimmed h]
  simp [hc, hminus]

end Binary64

/-- A numeral is read from the whole text that it is, with a plus sign in front or without one. -/
theorem Numeral.IsNumeralText.read?_eq {s : Text} {n : Numeral} (h : n.IsNumeralText s) :
    Binary64.read? s = some (n.value false) ∧ Binary64.read? (('+' : CodePoint) :: s) = some (n.value false) := by
  have hunsigned : Binary64.readUnsigned? false s = some (n.value false) := by
    rw [Binary64.readUnsigned?, h.read?_numeral]
  obtain ⟨c, rest, rfl, hc⟩ := h.exists_first
  have hplus : c ≠ '+' := by
    rintro rfl
    exact absurd hc (by decide)
  rw [Binary64.read?_unsigned h.isNumeralChar hplus, Binary64.read?_plus h.isNumeralChar]
  exact ⟨hunsigned, hunsigned⟩

/-- The numeral at the start of a text is a piece of it. -/
theorem Numeral.exists_isNumeralText {t rest : Text} {n : Numeral} (h : Numeral.read? false t = some (n, rest)) :
    ∃ s, t = s ++ rest ∧ n.IsNumeralText s := by
  unfold Numeral.read? at h
  split at h
  case h_1 => cases h
  case h_2 ws fs tail hread =>
    obtain ⟨m, rfl, hm⟩ := exists_isMantissa hread
    obtain ⟨k, hexponent⟩ : ∃ k, readExponent false tail = k := ⟨_, rfl⟩
    rw [hexponent] at h
    cases h
    obtain ⟨x, rfl, hx⟩ := exists_isExponent hexponent
    exact ⟨m ++ x, (List.append_assoc m x _).symm, m, x, rfl, hm, hx⟩

/-- The bound at the start of a text is a piece of it. -/
theorem Query.exists_isNumeralText {t rest : Text} {n : Numeral} (h : readBound? t = some (n, rest)) :
    ∃ s, t = s ++ rest ∧ n.IsNumeralText s := by
  have hmantissa : ∀ {m : Text} {ws fs : List Nat}, Numeral.IsMantissa m ws fs → Numeral.IsNumeralText ⟨ws, fs, 0⟩ m :=
    fun hm => ⟨_, [], (List.append_nil _).symm, hm, .none⟩
  obtain ⟨ws, back, rfl, hws, -, hread⟩ := Numeral.exists_readDigits t
  unfold readBound? at h
  rw [hread] at h
  split at h
  case h_1 => cases h
  case h_2 hsome heq =>
    cases heq
    have hne := mt (digitValues_eq_nil_iff hws).2 hsome
    split at h
    case h_1 body =>
      obtain ⟨fs, tail, rfl, hfs, -, hfraction⟩ := Numeral.exists_readDigits body
      rw [hfraction] at h
      split at h
      case h_1 =>
        cases h
        exact ⟨ws, rfl, hmantissa (.whole hne hws)⟩
      case h_2 heq =>
        cases heq
        cases h
        exact ⟨_, by simp, hmantissa (.decimals hne hws hfs)⟩
    case h_2 =>
      cases h
      exact ⟨ws, rfl, hmantissa (.whole hne hws)⟩

end LedgerSearch

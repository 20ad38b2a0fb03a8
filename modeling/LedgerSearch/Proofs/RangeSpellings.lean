import LedgerSearch.Proofs.DroppedDollar
import LedgerSearch.Proofs.NumberPieces
import LedgerSearch.Proofs.TypedAmounts

/-!
# How ranges are spelled

A range is typed as two bounds around a hyphen or around the word for an upper end, each bound with a dollar sign or
without one. Four notations are searched for, each where it comes first; of a spelled range only the notation that it is
written in is ever found, and what is found are the numeral that ends the text in front of the separator and the numeral
that begins the text behind it (`range?_spelled`). So spelled bounds are read in full, and a query that begins with a dollar
sign finds the records that show an amount between them (`holds_spelled`).
-/

namespace LedgerSearch

namespace Query

open Text (IsGap StartsBlank digitValue? isDigit isPlainDigit stripStart)

/-- What sets the bounds of a range apart. -/
inductive Separator
  | hyphen (before after : Text) (hbefore : IsGap before) (hafter : IsGap after)
  | word (before after : Text) (hbefore : IsGap before ∧ before ≠ []) (hafter : IsGap after ∧ after ≠ [])
    (t o : CodePoint) (hto : IsTo t o)

def Separator.text : Separator → Text
  | hyphen before after _ _ => before ++ ('-' : CodePoint) :: after
  | word before after _ _ t o _ => before ++ t :: o :: after

/-- A dollar sign, if there is one. -/
def dollarSign (signed : Bool) : Text := if signed then ['$'] else []

/-- A way to write a range. -/
structure RangeSpelling where
  lowSign : Bool
  separator : Separator
  highSign : Bool

def RangeSpelling.text (s : RangeSpelling) (low high : Text) : Text :=
  dollarSign s.lowSign ++ low ++ (s.separator.text ++ (dollarSign s.highSign ++ high))

/-- A character of amounts. -/
def isAmountChar (c : CodePoint) : Bool := isPlainDigit c || c = '.' || c = ',' || c = '$'

/-- A text of digits, points, commas and dollar signs. -/
def IsAmountText (t : Text) : Prop := ∀ c ∈ t, isAmountChar c = true

/-- The same spelling without a dollar sign in front. -/
def RangeSpelling.unsigned (s : RangeSpelling) : RangeSpelling := ⟨false, s.separator, s.highSign⟩

variable {n : RangeNotation} {x y z : Text}

theorem isAmountChar_cases {c : CodePoint} (h : isAmountChar c = true) :
    isPlainDigit c = true ∨ c = '.' ∨ c = ',' ∨ c = '$' := by
  simpa [isAmountChar, or_assoc] using h

theorem not_isBlank_of_isAmountChar {c : CodePoint} (h : isAmountChar c = true) : Text.isBlank c = false := by
  rcases isAmountChar_cases h with hc | rfl | rfl | rfl
  · exact isBlank_of_isPlainDigit hc
  all_goals decide

theorem readDigits_append_of_endsDigits (hy : EndsDigits y) (x : Text) :
    Numeral.readDigits (x ++ y) = ((Numeral.readDigits x).1, (Numeral.readDigits x).2 ++ y) := by
  obtain ⟨ws, rest, rfl, hws, hrest, hread⟩ := Numeral.exists_readDigits x
  have hends : EndsDigits (rest ++ y) := by
    cases rest with
    | nil => exact hy
    | cons c rest =>
      rintro d ⟨⟩
      exact hrest c rfl
  rw [List.append_assoc, Numeral.readDigits_append hws hends, hread]

theorem readBound?_append (hy : Numeral.EndsMantissa y) (x : Text) :
    readBound? (x ++ y) = (readBound? x).map fun found => (found.1, found.2 ++ y) := by
  have hdigits : EndsDigits y := fun c hc => (hy c hc).1
  unfold readBound?
  rw [readDigits_append_of_endsDigits hdigits]
  generalize Numeral.readDigits x = found
  obtain ⟨ws, rest⟩ := found
  cases ws with
  | nil => rfl
  | cons w ws =>
    cases rest with
    | nil =>
      cases y with
      | nil => rfl
      | cons c y =>
        have hc : c ≠ '.' := (hy c rfl).2
        simp [hc]
    | cons c rest =>
      by_cases hc : c = '.'
      · subst hc
        simp only [List.cons_append, readDigits_append_of_endsDigits hdigits]
        generalize Numeral.readDigits rest = fraction
        obtain ⟨fs, tail⟩ := fraction
        cases fs <;> rfl
      · simp [hc]

/-- The last numeral of a text, if it ends the text. -/
def lastBound? : Text → Option Numeral
  | [] => none
  | c :: t =>
    match readBound? (c :: t) with
    | some (bound, []) => some bound
    | _ => lastBound? t

namespace RangeNotation

/-- What follows the dollar sign that a notation asks for. -/
def afterSign? (n : RangeNotation) (t : Text) : Option Text :=
  if n.dollar then (match t with | '$' :: rest => some rest | _ => none) else some t

/-- The upper bound behind the separator at the start of a text. -/
def upper? (n : RangeNotation) (t : Text) : Option Numeral :=
  (n.separator t).bind fun rest => (n.afterSign? rest).bind fun body => (readBound? body).map Prod.fst

theorem afterSign?_eq_some_iff {t body : Text} :
    n.afterSign? t = some body ↔ if n.dollar then t = (('$' : CodePoint) :: body) else t = body := by
  unfold afterSign?
  cases n.dollar with
  | false => simp
  | true =>
    simp only [if_true]
    split
    case h_1 rest => simp
    case h_2 hother =>
      refine iff_of_false nofun ?_
      rintro rfl
      exact hother body rfl

theorem bounds?_eq (n : RangeNotation) (t : Text) :
    n.bounds? t = (readBound? t).bind fun low => (n.upper? low.2).map fun high => (low.1, high) := by
  ext ⟨low, high⟩
  simp only [bounds?_eq_some_iff, upper?, Option.bind_eq_some_iff, Option.map_eq_some_iff, afterSign?_eq_some_iff]
  constructor
  · rintro ⟨front, back, body, rest, hlow, hsep, hbody, hhigh⟩
    exact ⟨(low, front), hlow, high, ⟨back, hsep, body, hbody, (high, rest), hhigh, rfl⟩, rfl⟩
  · rintro ⟨⟨low, front⟩, hlow, high, ⟨back, hsep, body, hbody, ⟨high, rest⟩, hhigh, rfl⟩, heq⟩
    cases heq
    exact ⟨front, back, body, rest, hlow, hsep, hbody, hhigh⟩

/-- The separator of a notation begins with a blank or a hyphen. -/
theorem separator_cons (hn : n ∈ rangeNotations) {c : CodePoint} (hblank : Text.isBlank c = false) (hhyphen : c ≠ '-')
    (t : Text) : n.separator (c :: t) = none := by
  have hstrip : stripStart (c :: t) = c :: t := by simp [stripStart, hblank]
  have hnone : afterHyphen? (c :: t) = none := by simp [afterHyphen?, hstrip, hhyphen]
  simp only [rangeNotations, List.mem_cons, List.not_mem_nil, or_false] at hn
  rcases hn with rfl | rfl | rfl | rfl <;> simp [hnone, afterTo?, hblank]

theorem upper?_nil (hn : n ∈ rangeNotations) : n.upper? [] = none := by
  simp only [rangeNotations, List.mem_cons, List.not_mem_nil, or_false] at hn
  rcases hn with rfl | rfl | rfl | rfl <;> rfl

theorem upper?_cons (hn : n ∈ rangeNotations) {c : CodePoint} (hc : isAmountChar c = true) (t : Text) :
    n.upper? (c :: t) = none := by
  have hhyphen : c ≠ '-' := by
    rintro rfl
    exact absurd hc (by decide)
  rw [upper?, separator_cons hn (not_isBlank_of_isAmountChar hc) hhyphen, Option.bind_none]

/-- A range that begins in a text of amounts has its separator behind that text. -/
theorem bounds?_append (hn : n ∈ rangeNotations) (hx : IsAmountText x) (hy : Numeral.EndsMantissa y) :
    n.bounds? (x ++ y) = (readBound? x).bind fun low =>
      if low.2 = [] then (n.upper? y).map fun high => (low.1, high) else none := by
  rw [bounds?_eq, readBound?_append hy]
  cases hlow : readBound? x with
  | none => rfl
  | some low =>
    obtain ⟨bound, rest⟩ := low
    obtain ⟨front, rfl, -⟩ := exists_isNumeralText hlow
    cases rest with
    | nil => simp
    | cons c rest =>
      -- a bound within the text goes on with a character that begins no separator
      simp [upper?_cons hn (hx c (by simp))]

/-- The first range is that of the last bound in front of the separator, or it lies behind the separator. -/
theorem find?_append (hn : n ∈ rangeNotations) (hx : IsAmountText x) (hy : Numeral.EndsMantissa y) :
    n.find? (x ++ y) = ((lastBound? x).bind fun low => (n.upper? y).map fun high => (low, high)).or (n.find? y) := by
  induction x with
  | nil => rfl
  | cons c x ih =>
    obtain ⟨-, htail⟩ := List.forall_mem_cons.1 hx
    have hbounds := bounds?_append hn hx hy
    rw [List.cons_append] at hbounds ⊢
    rw [find?, lastBound?, hbounds]
    cases hlow : readBound? (c :: x) with
    | none => exact ih htail
    | some low =>
      obtain ⟨bound, rest⟩ := low
      cases rest with
      | cons d rest => exact ih htail
      | nil =>
        cases hupper : n.upper? y with
        | some high => simp
        | none => simpa [hupper] using ih htail

/-- In a text of amounts there is no range. -/
theorem find?_amounts (hn : n ∈ rangeNotations) (hx : IsAmountText x) : n.find? x = none := by
  have hnone : Numeral.EndsMantissa [] := nofun
  simpa [upper?_nil hn, find?] using find?_append hn hx hnone

end RangeNotation

theorem IsAmountText.stripStart_eq (h : IsAmountText x) : stripStart x = x := by
  cases x with
  | nil => rfl
  | cons c x => simp [stripStart, not_isBlank_of_isAmountChar (h c List.mem_cons_self)]

theorem IsAmountText.dollarSign_append (h : IsAmountText x) (signed : Bool) : IsAmountText (dollarSign signed ++ x) := by
  cases signed with
  | false => exact h
  | true => exact List.forall_mem_cons.2 ⟨by decide, h⟩

theorem stripStart_gap_cons {g : Text} (hg : IsGap g) {c : CodePoint} (hc : Text.isBlank c = false) (t : Text) :
    stripStart (g ++ c :: t) = c :: t := by
  rw [Text.stripStart_gap_append hg]
  simp [stripStart, hc]

namespace Separator

def isHyphen : Separator → Bool
  | hyphen .. => true
  | word .. => false

variable (s : Separator)

theorem head_text : ∃ c rest, s.text = c :: rest ∧ (Text.isBlank c = true ∨ c = '-') := by
  cases s with
  | hyphen before after hbefore hafter =>
    cases before with
    | nil => exact ⟨_, _, rfl, .inr rfl⟩
    | cons c before => exact ⟨c, _, rfl, .inl (hbefore c List.mem_cons_self)⟩
  | word before after hbefore hafter t o hto =>
    obtain ⟨c, rest, rfl⟩ := List.exists_cons_of_ne_nil hbefore.2
    exact ⟨c, _, rfl, .inl (hbefore.1 c List.mem_cons_self)⟩

theorem endsMantissa_text_append (t : Text) : Numeral.EndsMantissa (s.text ++ t) := by
  obtain ⟨c, rest, htext, hc⟩ := s.head_text
  rw [htext]
  rintro d ⟨⟩
  rcases hc with hblank | rfl
  · refine ⟨by simp [isDigit, digitValue?_blank hblank], ?_⟩
    rintro rfl
    exact absurd hblank (by decide)
  · decide

theorem digitValue?_text : ∀ c ∈ s.text, digitValue? c = none := by
  have hgap : ∀ {g : Text}, IsGap g → ∀ c ∈ g, digitValue? c = none := fun hg c hc => digitValue?_blank (hg c hc)
  cases s with
  | hyphen before after hbefore hafter =>
    exact List.forall_mem_append.2 ⟨hgap hbefore, List.forall_mem_cons.2 ⟨by decide, hgap hafter⟩⟩
  | word before after hbefore hafter t o hto =>
    have hletters : digitValue? t = none ∧ digitValue? o = none := by
      obtain ⟨rfl | rfl, rfl | rfl⟩ := hto <;> exact ⟨by decide, by decide⟩
    exact List.forall_mem_append.2 ⟨hgap hbefore.1,
      List.forall_mem_cons.2 ⟨hletters.1, List.forall_mem_cons.2 ⟨hletters.2, hgap hafter.1⟩⟩⟩

theorem afterHyphen?_text (hz : stripStart z = z) : afterHyphen? (s.text ++ z) = if s.isHyphen then some z else none := by
  cases s with
  | hyphen before after hbefore hafter =>
    rw [text, List.append_assoc, List.cons_append, afterHyphen?, stripStart_gap_cons hbefore (by decide)]
    simp [Text.stripStart_gap_append hafter, hz, isHyphen]
  | word before after hbefore hafter t o hto =>
    have hletter : t ≠ '-' := by
      obtain ⟨rfl | rfl, -⟩ := hto <;> decide
    rw [text, List.append_assoc, List.cons_append, afterHyphen?, stripStart_gap_cons hbefore.1 hto.solid.1]
    simp [hletter, isHyphen]

theorem afterTo?_text (hz : stripStart z = z) : afterTo? (s.text ++ z) = if !s.isHyphen then some z else none := by
  cases s with
  | hyphen before after hbefore hafter =>
    refine Option.eq_none_iff_forall_ne_some.2 fun r h => ?_
    obtain ⟨-, -, a, b, d, rest, hstrip, ⟨ha, -⟩, -⟩ := afterTo?_eq_some_iff.1 h
    rw [text, List.append_assoc, List.cons_append, stripStart_gap_cons hbefore (by decide)] at hstrip
    rw [← (List.cons.inj hstrip).1] at ha
    exact absurd ha (by decide)
  | word before after hbefore hafter t o hto =>
    obtain ⟨d, after, rfl⟩ := List.exists_cons_of_ne_nil hafter.2
    obtain ⟨hd, hafter⟩ := List.forall_mem_cons.1 hafter.1
    have hstart : StartsBlank (before ++ t :: o :: d :: (after ++ z)) := by
      obtain ⟨c, before, rfl⟩ := List.exists_cons_of_ne_nil hbefore.2
      exact Text.startsBlank_cons (hbefore.1 c List.mem_cons_self) _
    have hrest : stripStart (after ++ z) = z := by rw [Text.stripStart_gap_append hafter, hz]
    simp only [text, List.append_assoc, List.cons_append]
    refine afterTo?_eq_some_iff.2 ⟨by simp, hstart, t, o, d, after ++ z, ?_, hto, hd, hrest.symm⟩
    exact stripStart_gap_cons hbefore.1 hto.solid.1 _

end Separator

theorem readBound?_dollar (t : Text) : readBound? (('$' : CodePoint) :: t) = none := by
  have hdigit : digitValue? '$' = none := by decide
  simp [readBound?, Numeral.readDigits, hdigit]

theorem head_of_readBound? {t : Text} {found : Numeral × Text} (h : readBound? t = some found) :
    t.head? ≠ some ('$' : CodePoint) := by
  intro hhead
  obtain ⟨rest, rfl⟩ := List.head?_eq_some_iff.1 hhead
  rw [readBound?_dollar] at h
  cases h

/-- A bound behind a dollar sign is read by the notations that ask for one, a bound without a sign by the others. -/
theorem RangeNotation.upper?_dollarSign {signed : Bool} (hsep : n.separator x = some (dollarSign signed ++ z))
    (hz : z.head? ≠ some ('$' : CodePoint)) :
    n.upper? x = if n.dollar = signed then (readBound? z).map Prod.fst else none := by
  have hnone : n.dollar = true → n.afterSign? z = none := by
    intro hdollar
    refine Option.eq_none_iff_forall_ne_some.2 fun body h => hz ?_
    rw [afterSign?_eq_some_iff, if_pos hdollar] at h
    rw [h]
    rfl
  rw [upper?, hsep, Option.bind_some]
  cases signed with
  | true => cases hdollar : n.dollar <;> simp [afterSign?, hdollar, dollarSign, readBound?_dollar]
  | false =>
    cases hdollar : n.dollar with
    | true => simp [dollarSign, hnone hdollar]
    | false => simp [afterSign?, hdollar, dollarSign]

theorem lastBound?_dollarSign (signed : Bool) (t : Text) : lastBound? (dollarSign signed ++ t) = lastBound? t := by
  cases signed with
  | false => rfl
  | true => simp [dollarSign, lastBound?, readBound?_dollar]

section Spelled

variable (s : RangeSpelling) {low high : Text}

/-- A notation finds a spelled range if the range is written in it. -/
theorem find?_spelled (hn : n ∈ rangeNotations) {reads : Bool} (hlow : IsAmountText low) (hhigh : IsAmountText high)
    (hhead : high.head? ≠ some ('$' : CodePoint))
    (hsep : ∀ z, stripStart z = z → n.separator (s.separator.text ++ z) = if reads then some z else none) :
    n.find? (s.text low high) = if reads = true ∧ n.dollar = s.highSign then
      (lastBound? low).bind fun l => (readBound? high).map fun h => (l, h.1) else none := by
  have hsep := hsep _ (hhigh.dollarSign_append s.highSign).stripStart_eq
  rw [RangeSpelling.text, RangeNotation.find?_append hn (hlow.dollarSign_append _) (s.separator.endsMantissa_text_append _),
    RangeNotation.find?_append_of_no_digits s.separator.digitValue?_text,
    RangeNotation.find?_amounts hn (hhigh.dollarSign_append _), Option.or_none, lastBound?_dollarSign]
  cases reads with
  | false => simp [RangeNotation.upper?, hsep]
  | true =>
    rw [RangeNotation.upper?_dollarSign hsep hhead]
    by_cases hsign : n.dollar = s.highSign
    · rw [if_pos hsign, if_pos ⟨rfl, hsign⟩]
      simp only [Option.map_map, Function.comp_def]
    · rw [if_neg hsign, if_neg fun h => hsign h.2]
      simp

/-- A spelled range lies between the numeral in front of the separator and the one behind it. -/
theorem range?_spelled (hlow : IsAmountText low) (hhigh : IsAmountText high)
    (hhead : high.head? ≠ some ('$' : CodePoint)) : range? (s.text low high) =
      (lastBound? low).bind fun l => (readBound? high).bind fun h => between? (l.value false) (h.1.value false) := by
  have hhyphen : ∀ dollar : Bool, (⟨afterHyphen?, dollar⟩ : RangeNotation).find? (s.text low high) =
      if s.separator.isHyphen = true ∧ dollar = s.highSign then
        (lastBound? low).bind fun l => (readBound? high).map fun h => (l, h.1) else none :=
    fun dollar => find?_spelled s (by cases dollar <;> simp [rangeNotations]) hlow hhigh hhead
      fun z hz => s.separator.afterHyphen?_text hz
  have hword : ∀ dollar : Bool, (⟨afterTo?, dollar⟩ : RangeNotation).find? (s.text low high) =
      if (!s.separator.isHyphen) = true ∧ dollar = s.highSign then
        (lastBound? low).bind fun l => (readBound? high).map fun h => (l, h.1) else none :=
    fun dollar => find?_spelled s (by cases dollar <;> simp [rangeNotations]) hlow hhigh hhead
      fun z hz => s.separator.afterTo?_text hz
  have hfound : range? (s.text low high) = ((lastBound? low).bind fun l => (readBound? high).map fun h => (l, h.1)).bind
      fun bounds => between? (bounds.1.value false) (bounds.2.value false) := by
    simp only [range?, rangeNotations, List.findSome?_cons, List.findSome?_nil, hhyphen, hword]
    generalize ((lastBound? low).bind fun l => (readBound? high).map fun h => (l, h.1)) = found
    cases found with
    | none => simp
    | some bounds =>
      cases hout : between? (bounds.1.value false) (bounds.2.value false) <;>
        cases s.separator.isHyphen <;> cases s.highSign <;> simp [hout]
  simp only [hfound, Option.bind_assoc, Option.bind_map, Function.comp_def]

/-- Each operator word has a letter that no spelled range has. -/
theorem RangeSpelling.letters_text (hlow : IsAmountText low) (hhigh : IsAmountText high) :
    ∀ c ∈ s.text low high, c ≠ 'N' ∧ c ≠ 'R' := by
  have hgap : ∀ {g : Text}, IsGap g → ∀ c ∈ g, c ≠ 'N' ∧ c ≠ 'R' := by
    intro g hg c hc
    constructor <;> rintro rfl <;> exact absurd (hg _ hc) (by decide)
  have hamount : ∀ {x : Text}, IsAmountText x → ∀ c ∈ x, c ≠ 'N' ∧ c ≠ 'R' := by
    intro x hx c hc
    constructor <;> rintro rfl <;> exact absurd (hx _ hc) (by decide)
  have hseparator : ∀ c ∈ s.separator.text, c ≠ 'N' ∧ c ≠ 'R' := by
    cases s.separator with
    | hyphen before after hbefore hafter =>
      exact List.forall_mem_append.2 ⟨hgap hbefore, List.forall_mem_cons.2 ⟨by decide, hgap hafter⟩⟩
    | word before after hbefore hafter t o hto =>
      have hletters : (t ≠ 'N' ∧ t ≠ 'R') ∧ o ≠ 'N' ∧ o ≠ 'R' := by
        obtain ⟨rfl | rfl, rfl | rfl⟩ := hto <;> decide
      exact List.forall_mem_append.2 ⟨hgap hbefore.1,
        List.forall_mem_cons.2 ⟨hletters.1, List.forall_mem_cons.2 ⟨hletters.2, hgap hafter.1⟩⟩⟩
  exact List.forall_mem_append.2 ⟨hamount (hlow.dollarSign_append _),
    List.forall_mem_append.2 ⟨hseparator, hamount (hhigh.dollarSign_append _)⟩⟩

theorem RangeSpelling.notMem_words (hlow : IsAmountText low) (hhigh : IsAmountText high) (op : Operator) :
    op.word ∉ Text.words (s.text low high) := by
  have hletters := s.letters_text hlow hhigh
  intro hmem
  cases op with
  | both => exact (hletters 'N' ((Text.exists_mem_words_iff (by decide)).1 ⟨_, hmem, by decide⟩)).1 rfl
  | either => exact (hletters 'R' ((Text.exists_mem_words_iff (by decide)).1 ⟨_, hmem, by decide⟩)).2 rfl
  | without => exact (hletters 'N' ((Text.exists_mem_words_iff (by decide)).1 ⟨_, hmem, by decide⟩)).1 rfl

end Spelled

theorem Digits.areDigits (w : Digits) : AreDigits w.1 :=
  fun c hc => Text.isDigit_of_isPlainDigit c (w.isPlainDigit c hc)

theorem Digits.isAmountText (w : Digits) : IsAmountText w.1 := fun c hc => by
  rw [isAmountChar, w.isPlainDigit c hc]
  rfl

theorem Digits.exists_digitValues (w : Digits) : ∃ d ds, digitValues w.1 = d :: ds :=
  List.exists_cons_of_ne_nil (mt (digitValues_eq_nil_iff w.areDigits).1 w.ne_nil)

theorem Digits.readDigits_append (w : Digits) {rest : Text} (hrest : EndsDigits rest) :
    Numeral.readDigits (w.1 ++ rest) = (digitValues w.1, rest) :=
  Numeral.readDigits_append w.areDigits hrest

theorem Digits.readDigits_eq (w : Digits) : Numeral.readDigits w.1 = (digitValues w.1, []) := by
  have hends : EndsDigits [] := nofun
  simpa using w.readDigits_append hends

theorem lastBound?_of_readBound? {t : Text} {bound : Numeral} (h : readBound? t = some (bound, [])) :
    lastBound? t = some bound := by
  cases t with
  | nil => cases h
  | cons c t => rw [lastBound?, h]

/-- A bound as it is typed: a whole part, or decimals. -/
inductive TypedBound
  | whole (w : Digits)
  | decimals (w f : Digits)

namespace TypedBound

def text : TypedBound → Text
  | whole w => w.1
  | decimals w f => w.1 ++ ('.' : CodePoint) :: f.1

def numeral : TypedBound → Numeral
  | whole w => ⟨digitValues w.1, [], 0⟩
  | decimals w f => ⟨digitValues w.1, digitValues f.1, 0⟩

variable (b : TypedBound)

theorem isAmountText : IsAmountText b.text := by
  cases b with
  | whole w => exact w.isAmountText
  | decimals w f => exact List.forall_mem_append.2 ⟨w.isAmountText, List.forall_mem_cons.2 ⟨by decide, f.isAmountText⟩⟩

theorem readBound?_text : readBound? b.text = some (b.numeral, []) := by
  cases b with
  | whole w =>
    obtain ⟨d, ds, hd⟩ := w.exists_digitValues
    rw [text, numeral, readBound?, w.readDigits_eq, hd]
  | decimals w f =>
    obtain ⟨d, ds, hd⟩ := w.exists_digitValues
    obtain ⟨e, es, he⟩ := f.exists_digitValues
    rw [text, numeral, readBound?, w.readDigits_append (Numeral.endsDigits_point _), hd, he]
    simp [f.readDigits_eq, he]

theorem read?_text : Binary64.read? b.text = some (b.numeral.value false) := by
  obtain ⟨s, htext, hs⟩ := exists_isNumeralText b.readBound?_text
  rw [htext, List.append_nil]
  exact hs.read?_eq.1

/-- A range is read from its typed bounds. -/
theorem range?_text (s : RangeSpelling) (low high : TypedBound) :
    range? (s.text low.text high.text) = between? (low.numeral.value false) (high.numeral.value false) := by
  rw [range?_spelled s low.isAmountText high.isAmountText (head_of_readBound? high.readBound?_text), lastBound?_of_readBound? low.readBound?_text,
    high.readBound?_text]
  rfl

end TypedBound
end Query

namespace Search

open Query (Operator RangeSpelling TypedBound moneyTokens range?)
open Text (words)

variable {r : Record} {q : Text}

/-- A text with a range in it is compared with visible amounts alone. -/
theorem holdsMoney_of_range {range : PriceRange} (h : range? q = some range) :
    holdsMoney true r q = true ↔
      ∃ f, r.financial? = some f ∧ ∃ x ∈ visibleAmounts f, range.contains x = true := by
  have htokens : moneyTokens q = ⟨[], [], some range⟩ := by simp only [moneyTokens, h]
  rw [holdsMoney, htokens]
  cases r.financial? with
  | none => simp [Query.MoneyTokens.isEmpty]
  | some f =>
    have hvisible : (amounts f).any (fun v => range.contains v.2) = (visibleAmounts f).any range.contains := by
      rw [visibleAmounts, List.any_map]
      rfl
    simp [Query.MoneyTokens.isEmpty, holdsRange, holdsAmount, hvisible]

/-- Behind a dollar sign a range without operators finds the records that show an amount in it. -/
theorem holds_dollar_range (hlink : r.quickLink? = none) (hwords : ∀ op : Operator, op.word ∉ words q) {range : PriceRange}
    (h : range? q = some range) : ∃ found, holds r (('$' : CodePoint) :: q) = .ok found ∧
      (found = true ↔ ∃ f, r.financial? = some f ∧ ∃ x ∈ visibleAmounts f, range.contains x = true) := by
  obtain ⟨text, hquery, htext⟩ := Query.moneyQuery_dollar_cons q
  have hleaf := (Query.isLeaf_of_notMem (Query.notMem_words_dollar hwords)).parse_eq
  refine ⟨_, ?_, holdsMoney_of_range (Query.range?_congr htext ▸ h)⟩
  rw [holds_eq_holdsTree hlink, hleaf, holdsTree, holdsLeaf_explicit hlink (by rw [hquery]), hquery]

/-- Typed bounds are read in full in every spelling of a range, and there is no range between bounds that are not in
order. A spelling that begins with a dollar sign finds the records that show an amount between the bounds. -/
theorem holds_spelled (s : RangeSpelling) (low high : TypedBound) :
    ∃ a b, Binary64.read? low.text = some a ∧ Binary64.read? high.text = some b ∧
      range? (s.text low.text high.text) = (if Binary64.le a b = true then some ⟨a, b⟩ else none) ∧
      (s.lowSign = true → Binary64.le a b = true → ∀ r : Record, r.quickLink? = none →
        ∃ found, holds r (s.text low.text high.text) = .ok found ∧ (found = true ↔ ∃ f, r.financial? = some f ∧
          ∃ x ∈ visibleAmounts f, Binary64.le a x = true ∧ Binary64.le x b = true)) := by
  have hrange := TypedBound.range?_text s low high
  refine ⟨_, _, low.read?_text, high.read?_text, hrange, fun hsign hle r hlink => ?_⟩
  have htext : s.text low.text high.text = ('$' : CodePoint) :: s.unsigned.text low.text high.text := by
    rw [RangeSpelling.text, hsign]
    rfl
  have hwords := s.unsigned.notMem_words low.isAmountText high.isAmountText
  rw [Query.between?, if_pos hle, htext, Query.range?_dollar_cons] at hrange
  simpa only [htext, PriceRange.contains, Bool.and_eq_true] using holds_dollar_range hlink hwords hrange

def dollarTo : RangeSpelling :=
  ⟨true, .word " ".toText "\t ".toText (by decide) (by decide) 't' 'O' (by decide), false⟩

def wholeBound : TypedBound := .whole ⟨"250".toText, by decide⟩

def tenthsBound : TypedBound := .decimals ⟨"350".toText, by decide⟩ ⟨"5".toText, by decide⟩

/-- A bill of 300 is found between 250 and 350.5. -/
theorem holds_spelled_bill : holds (sampleBill "Posts" postLine) "$250 tO\t 350.5".toText = .ok true := by
  obtain ⟨a, b, ha, hb, -, hfinds⟩ := holds_spelled dollarTo wholeBound tenthsBound
  have htext : dollarTo.text wholeBound.text tenthsBound.text = "$250 tO\t 350.5".toText := by decide
  have hbetween : ((Binary64.read? wholeBound.text).bind fun a => (Binary64.read? tenthsBound.text).map fun b =>
      Binary64.le a b && (visibleAmounts (billOf postLine)).any fun x => Binary64.le a x && Binary64.le x b) =
        some true := by decide +kernel
  rw [ha, hb, Option.bind_some, Option.map_some, Option.some.injEq, Bool.and_eq_true, List.any_eq_true] at hbetween
  obtain ⟨hle, x, hx, hin⟩ := hbetween
  obtain ⟨found, hfound, hiff⟩ := hfinds rfl hle (sampleBill "Posts" postLine) rfl
  rw [← htext, hfound, hiff.2 ⟨billOf postLine, rfl, x, hx, by simpa using hin⟩]

end Search
end LedgerSearch

import LedgerSearch.Proofs.Spacing
import LedgerSearch.Query.Restriction
import Mathlib.Data.List.DropRight

/-!
# Amounts typed digit by digit

What a typed amount admits is decided by texts: equal ones, beginnings, a cut at the point, zeros dropped from the end.
On amounts written in digits these tests come down to one rule (`TypedAmount.Fits`). Both sides are first freed of
noise; typed decimals are brought into the form of written ones, after which only beginnings are compared.
-/

namespace LedgerSearch

namespace Text

variable {p : CodePoint → Bool} {v w f g : Text} {c : CodePoint}

theorem dropEndWhile_eq_rdropWhile (p : CodePoint → Bool) (t : Text) : dropEndWhile p t = t.rdropWhile p := rfl

/-- Nothing is dropped before a character that is kept. -/
theorem dropEndWhile_append_cons (hc : p c = false) (s t : Text) :
    dropEndWhile p (s ++ c :: t) = s ++ c :: dropEndWhile p t := by
  induction t using List.reverseRecOn with
  | nil =>
    rw [dropEndWhile_eq_rdropWhile, List.rdropWhile_concat_neg p s c (by simp [hc])]
    rfl
  | append_singleton t d ih =>
    rw [← List.cons_append, ← List.append_assoc]
    simp only [dropEndWhile_eq_rdropWhile, List.rdropWhile_concat] at ih ⊢
    split
    · exact ih
    · rw [List.append_assoc, List.cons_append]

theorem dropEndWhile_eq_self (h : ∀ c ∈ w.getLast?, p c = false) : dropEndWhile p w = w := by
  rw [dropEndWhile_eq_rdropWhile, List.rdropWhile_eq_self_iff]
  intro hne
  rw [h _ (List.getLast?_eq_some_getLast hne)]
  exact Bool.false_ne_true

/-- A text whose last character would be kept stands at the start of both or of neither. -/
theorem prefix_dropEndWhile_iff (h : ∀ c ∈ g.getLast?, p c = false) : g <+: dropEndWhile p f ↔ g <+: f := by
  constructor
  · intro hprefix
    exact hprefix.trans (List.rdropWhile_prefix p f)
  · rintro ⟨s, rfl⟩
    rcases List.eq_nil_or_concat g with rfl | ⟨g, c, rfl⟩
    · exact List.nil_prefix
    · have hc : p c = false := h c (by simp)
      rw [List.concat_eq_append, List.append_assoc, List.singleton_append, dropEndWhile_append_cons hc]
      exact ⟨dropEndWhile p s, by simp⟩

/-- Texts cut at the first point are compared part by part. -/
theorem append_cons_prefix_iff (hv : c ∉ v) (hw : c ∉ w) : v ++ c :: f <+: w ++ c :: g ↔ v = w ∧ f <+: g := by
  induction v generalizing w with
  | nil =>
    cases w with
    | nil => simp
    | cons d w =>
      have hne : c ≠ d := fun h => hw (h ▸ List.mem_cons_self)
      simp [hne]
  | cons e v ih =>
    cases w with
    | nil =>
      have hne : e ≠ c := fun h => hv (h ▸ List.mem_cons_self)
      simp [hne]
    | cons d w =>
      rw [List.mem_cons, not_or] at hv hw
      simp only [List.cons_append, List.cons_prefix_cons, ih hv.2 hw.2, List.cons.injEq, and_assoc]

theorem before_append_cons (hv : c ∉ v) (f : Text) : before c (v ++ c :: f) = v := by
  have hall : ∀ d ∈ v, (d != c) = true := fun d hd => bne_iff_ne.2 fun h => hv (h ▸ hd)
  rw [before, List.takeWhile_append_of_pos hall, List.takeWhile_cons_of_neg (by simp), List.append_nil]

theorem after_append_cons (hv : c ∉ v) (f : Text) : after c (v ++ c :: f) = f := by
  have hall : ∀ d ∈ v, (d != c) = true := fun d hd => bne_iff_ne.2 fun h => hv (h ▸ hd)
  rw [after, List.dropWhile_append_of_pos hall, List.dropWhile_cons_of_neg (by simp)]
  rfl

theorem before_of_notMem (hv : c ∉ v) : before c v = v := by
  rw [before, List.takeWhile_eq_self_iff]
  exact fun d hd => bne_iff_ne.2 fun h => hv (h ▸ hd)

theorem notMem_before (c : CodePoint) (t : Text) : c ∉ before c t := fun h => by
  have hne := List.mem_takeWhile_imp h
  simp at hne

/-- A text is what stands before a character, alone or with the character behind it. -/
theorem eq_before_or (c : CodePoint) (t : Text) : t = before c t ∨ ∃ s, t = before c t ++ c :: s := by
  have hparts : before c t ++ t.dropWhile (· != c) = t := List.takeWhile_append_dropWhile
  cases hrest : t.dropWhile (· != c) with
  | nil => exact .inl (by rw [← hparts, hrest, List.append_nil, before_of_notMem (notMem_before c t)])
  | cons d s =>
    have hd : (d != c) = false := by
      simpa [hrest] using List.head?_dropWhile_not (· != c) t
    obtain rfl : d = c := by simpa using hd
    exact .inr ⟨s, by rw [← hrest, hparts]⟩

/-- A beginning without a character stands before the first such character. -/
theorem prefix_before_iff (hv : c ∉ v) (t : Text) : v <+: before c t ↔ v <+: t := by
  rcases eq_before_or c t with h | ⟨s, h⟩
  · rw [← h]
  · conv => rhs; rw [h, prefix_append_cons_iff hv]

end Text

namespace Query

open Text (allPlainDigits isPlainDigit)

/-- A text with noise put in anywhere. -/
inductive Littered : Text → Text → Prop
  | nil : Littered [] []
  | keep (c : CodePoint) {s t : Text} (h : Littered s t) : Littered (c :: s) (c :: t)
  | noise {c : CodePoint} (hc : isMoneyNoise c = true) {s t : Text} (h : Littered s t) : Littered s (c :: t)

theorem Littered.dropNoise_eq {s t : Text} (h : Littered s t) : dropNoise t = dropNoise s := by
  induction h with
  | nil => rfl
  | keep c h ih => rw [dropNoise, dropNoise, List.filter_cons, List.filter_cons, ← dropNoise, ← dropNoise, ih]
  | noise hc h ih => rw [dropNoise, List.filter_cons, hc, ← ih]; rfl

theorem isMoneyNoise_of_isPlainDigit {c : CodePoint} (hc : isPlainDigit c = true) : isMoneyNoise c = false := by
  have hsign : c ≠ '$' ∧ c ≠ ',' := by
    constructor <;> rintro rfl <;> exact absurd hc (by decide)
  simp [isMoneyNoise, hsign, isBlank_of_isPlainDigit hc]

/-- One digit or more. -/
abbrev Digits := { t : Text // allPlainDigits t = true }

/-- A fraction behind its point, or nothing. -/
def withPoint : Text → Text
  | [] => []
  | c :: f => '.' :: c :: f

/-- An amount as it is typed: a whole part, that and a point, or decimals. -/
inductive TypedAmount
  | whole (w : Digits)
  | point (w : Digits)
  | decimals (w f : Digits)

def TypedAmount.text : TypedAmount → Text
  | whole w => w.1
  | point w => w.1 ++ [('.' : CodePoint)]
  | decimals w f => w.1 ++ ('.' : CodePoint) :: f.1

/-- An amount as it is written down: a whole part and, behind a point, a fraction that does not end in zero, if there is
one. -/
structure WrittenAmount where
  whole : Digits
  fraction : Text
  plain : ∀ c ∈ fraction, isPlainDigit c = true
  trimmed : fraction.getLast? ≠ some ('0' : CodePoint)

def WrittenAmount.text (a : WrittenAmount) : Text := a.whole.1 ++ withPoint a.fraction

/-- The written amounts that a typed one goes with. A whole part goes with those that it begins and, from four digits on,
with shorter whole parts that begin it; decimals go with the same whole part and a fraction that begins theirs. -/
def TypedAmount.Fits (a : WrittenAmount) : TypedAmount → Prop
  | whole w => w.1 <+: a.whole.1 ∨ 4 ≤ w.1.length ∧ a.whole.1 <+: w.1 ∧ a.whole ≠ w
  | point w => w.1 <+: a.whole.1
  | decimals w f => w = a.whole ∧ (a.fraction = [] ∧ (∀ c ∈ f.1, c = '0') ∨ a.fraction ≠ [] ∧ a.fraction <+: f.1)

variable {v w f g : Text}

theorem Digits.ne_nil (w : Digits) : w.1 ≠ [] := by
  have h := w.2
  simp only [allPlainDigits, Bool.and_eq_true, Bool.not_eq_true', List.isEmpty_eq_false_iff] at h
  exact h.1

theorem Digits.isPlainDigit (w : Digits) : ∀ c ∈ w.1, isPlainDigit c = true := by
  have h := w.2
  simp only [allPlainDigits, Bool.and_eq_true, List.all_eq_true] at h
  exact h.2

theorem point_notMem (h : ∀ c ∈ v, isPlainDigit c = true) : ('.' : CodePoint) ∉ v :=
  fun hmem => absurd (h _ hmem) (by decide)

theorem Digits.point_notMem (w : Digits) : ('.' : CodePoint) ∉ w.1 := Query.point_notMem w.isPlainDigit

theorem WrittenAmount.point_notMem (a : WrittenAmount) : ('.' : CodePoint) ∉ a.fraction := Query.point_notMem a.plain

theorem WrittenAmount.text_eq (a : WrittenAmount) : a.fraction = [] ∧ a.text = a.whole.1 ∨
    a.fraction ≠ [] ∧ a.text = a.whole.1 ++ ('.' : CodePoint) :: a.fraction := by
  rw [text]
  cases a.fraction with
  | nil => exact .inl ⟨rfl, List.append_nil _⟩
  | cons c f => exact .inr ⟨List.cons_ne_nil _ _, rfl⟩

theorem splitPoint_append (hv : ('.' : CodePoint) ∉ v) (f : Text) : splitPoint (v ++ ('.' : CodePoint) :: f) = (v, f) := by
  rw [splitPoint, Text.before_append_cons hv, Text.after_append_cons hv]

theorem WrittenAmount.before_text (a : WrittenAmount) : Text.before '.' a.text = a.whole.1 := by
  rcases a.text_eq with ⟨-, htext⟩ | ⟨-, htext⟩
  · rw [htext, Text.before_of_notMem a.whole.point_notMem]
  · rw [htext, Text.before_append_cons a.whole.point_notMem]

theorem trimFraction_of_notMem (hv : ('.' : CodePoint) ∉ v) : trimFraction v = v := by
  rw [trimFraction, if_neg (by simpa using hv)]

/-- Typed decimals without the zeros at their end are in the form of a written amount. -/
theorem trimFraction_append (hw : ('.' : CodePoint) ∉ w) (hf : ('.' : CodePoint) ∉ f) :
    trimFraction (w ++ ('.' : CodePoint) :: f) = w ++ withPoint (Text.dropEndWhile (· = '0') f) := by
  have hbegins : Text.dropEndWhile (· = '0') f <+: f := List.rdropWhile_prefix _ f
  rw [trimFraction, if_pos (by simp), Text.dropEndWhile_append_cons (by decide)]
  cases hg : Text.dropEndWhile (· = '0') f with
  | nil =>
    rw [withPoint, List.append_nil, Text.dropEndWhile_eq_rdropWhile, List.rdropWhile_concat_pos _ _ _ (by decide)]
    apply Text.dropEndWhile_eq_self
    intro c hc
    exact decide_eq_false fun h => hw (h ▸ List.mem_of_getLast? hc)
  | cons d g =>
    apply Text.dropEndWhile_eq_self
    intro c hc
    rw [List.getLast?_append_of_ne_nil _ (List.cons_ne_nil _ _), List.getLast?_cons_cons] at hc
    exact decide_eq_false fun h => hf (hbegins.subset (hg ▸ h ▸ List.mem_of_getLast? hc))

theorem WrittenAmount.last_fraction (a : WrittenAmount) : ∀ c ∈ a.fraction.getLast?, decide (c = '0') = false := by
  intro c hc
  exact decide_eq_false fun h => a.trimmed (h ▸ hc)

theorem WrittenAmount.trimFraction_text (a : WrittenAmount) : trimFraction a.text = a.text := by
  rcases a.text_eq with ⟨-, htext⟩ | ⟨-, htext⟩
  · rw [htext, trimFraction_of_notMem a.whole.point_notMem]
  · rw [htext, trimFraction_append a.whole.point_notMem a.point_notMem, Text.dropEndWhile_eq_self a.last_fraction, ← htext]
    rfl

theorem append_prefix_withPoint_iff (hv : ('.' : CodePoint) ∉ v) (hw : ('.' : CodePoint) ∉ w) (hf : f ≠ []) :
    v ++ ('.' : CodePoint) :: f <+: w ++ withPoint g ↔ v = w ∧ f <+: g := by
  cases g with
  | nil =>
    rw [withPoint, List.append_nil, List.prefix_nil]
    exact iff_of_false (fun h => hw (h.subset (by simp))) fun h => hf h.2
  | cons c g => exact Text.append_cons_prefix_iff hv hw

theorem append_withPoint_eq_iff (hv : ('.' : CodePoint) ∉ v) : w ++ withPoint g = v ↔ w = v ∧ g = [] := by
  cases g with
  | nil => rw [withPoint, List.append_nil, and_iff_left rfl]
  | cons c g =>
    refine iff_of_false (fun h => hv ?_) fun h => List.cons_ne_nil _ _ h.2
    rw [← h]
    exact List.mem_append_right _ List.mem_cons_self

theorem WrittenAmount.prefix_text_iff (a : WrittenAmount) (w : Digits) : w.1 <+: a.text ↔ w.1 <+: a.whole.1 := by
  rw [← Text.prefix_before_iff w.point_notMem, a.before_text]

/-- Of data that are digits up to the first point a whole part looks at these digits alone. -/
theorem admitsWhole_iff_of_before {w d : Digits} {data : Text} (hdata : Text.before '.' data = d.1) :
    admitsWhole w.1 data = true ↔ w.1 <+: d.1 ∨ 4 ≤ w.1.length ∧ d.1 <+: w.1 ∧ d ≠ w := by
  have hshorter : d.1.length < w.1.length ∧ d.1 <+: w.1 ↔ d.1 <+: w.1 ∧ d ≠ w := by
    rw [and_comm, and_congr_right_iff]
    intro h
    rw [Ne, Subtype.ext_iff, Nat.lt_iff_le_and_ne, and_iff_right h.length_le, not_iff_not]
    exact ⟨h.eq_of_length, congrArg List.length⟩
  simp only [admitsWhole, splitPoint, hdata, w.2, d.2, Bool.not_true, Bool.or_false, Bool.false_eq_true, if_false]
  split
  case isTrue hone =>
    obtain ⟨c, hc⟩ := List.length_eq_one_iff.1 hone
    obtain ⟨e, rest, he⟩ := List.exists_cons_of_ne_nil d.ne_nil
    have hshort : ¬4 ≤ w.1.length := by omega
    rw [or_iff_left fun h => hshort h.1, hc, he, List.head?_cons, List.head?_cons, beq_iff_eq, Option.some.injEq,
      List.cons_prefix_cons, and_iff_left List.nil_prefix, eq_comm]
  case isFalse =>
    rw [Bool.or_eq_true, List.isPrefixOf_iff_prefix, ← Text.prefix_before_iff w.point_notMem, hdata]
    simp only [Bool.and_eq_true, decide_eq_true_eq, List.isPrefixOf_iff_prefix, and_assoc, hshorter]

/-- A whole part with its point admits what begins with the whole part. -/
theorem admitsDecimal_point_iff (w : Digits) (data : Text) :
    admitsDecimal (w.1 ++ [('.' : CodePoint)]) data = true ↔ w.1 <+: Text.before '.' data := by
  rw [admitsDecimal, splitPoint_append w.point_notMem, Text.prefix_before_iff w.point_notMem]
  simp [w.ne_nil]

section Admits

variable (w f : Digits) (a : WrittenAmount)

theorem admitsWhole_iff : admitsWhole w.1 a.text = true ↔ (TypedAmount.whole w).Fits a :=
  admitsWhole_iff_of_before a.before_text

theorem admitsDecimal_decimals_iff :
    admitsDecimal (w.1 ++ ('.' : CodePoint) :: f.1) a.text = true ↔ (TypedAmount.decimals w f).Fits a := by
  have hzeros : Text.dropEndWhile (· = '0') f.1 = [] ↔ ∀ c ∈ f.1, c = '0' := by
    rw [Text.dropEndWhile_eq_rdropWhile, List.rdropWhile_eq_nil_iff]
    simp only [decide_eq_true_eq]
  rw [admitsDecimal, splitPoint_append w.point_notMem, trimFraction_append w.point_notMem f.point_notMem,
    a.trimFraction_text]
  simp only [List.isEmpty_eq_false_iff.2 f.ne_nil, Bool.false_eq_true, if_false, Bool.or_eq_true, Bool.and_eq_true,
    beq_iff_eq, List.isPrefixOf_iff_prefix, TypedAmount.Fits]
  rcases a.text_eq with ⟨hnone, htext⟩ | ⟨hsome, htext⟩
  · have hpoint : ¬a.text.contains ('.' : CodePoint) = true := by
      rw [htext, List.contains_iff_mem]
      exact a.whole.point_notMem
    rw [or_iff_left fun h => hpoint h.1, or_iff_left fun h => h.1 hnone, and_iff_right hnone, ← hzeros, htext,
      append_withPoint_eq_iff a.whole.point_notMem, Subtype.ext_iff]
  · have hpoint : a.text.contains ('.' : CodePoint) = true := by
      rw [htext, List.contains_iff_mem]
      exact List.mem_append_right _ List.mem_cons_self
    rw [and_iff_right hpoint, or_iff_right_of_imp fun h => h ▸ List.prefix_rfl, or_iff_right fun h => hsome h.1,
      and_iff_right hsome, htext, append_prefix_withPoint_iff a.whole.point_notMem w.point_notMem hsome,
      Text.prefix_dropEndWhile_iff a.last_fraction, Subtype.ext_iff, eq_comm]

end Admits

theorem dropNoise_eq_self {t : Text} (h : ∀ c ∈ t, isPlainDigit c = true ∨ c = '.') : dropNoise t = t := by
  refine List.filter_eq_self.2 fun c hc => ?_
  rcases h c hc with hdigit | rfl
  · rw [isMoneyNoise_of_isPlainDigit hdigit, Bool.not_false]
  · decide

theorem TypedAmount.dropNoise_text (q : TypedAmount) : dropNoise q.text = q.text := by
  apply dropNoise_eq_self
  intro c hc
  cases q with
  | whole w => exact .inl (w.isPlainDigit c hc)
  | point w => exact (List.mem_append.1 hc).imp (w.isPlainDigit c) List.mem_singleton.1
  | decimals w f =>
    simp only [text, List.mem_append, List.mem_cons] at hc
    rcases hc with hc | rfl | hc
    · exact .inl (w.isPlainDigit c hc)
    · exact .inr rfl
    · exact .inl (f.isPlainDigit c hc)

theorem WrittenAmount.dropNoise_text (a : WrittenAmount) : dropNoise a.text = a.text := by
  apply dropNoise_eq_self
  intro c hc
  rcases a.text_eq with ⟨-, htext⟩ | ⟨-, htext⟩
  · exact .inl (a.whole.isPlainDigit c (htext ▸ hc))
  · rw [htext, List.mem_append, List.mem_cons] at hc
    rcases hc with hc | rfl | hc
    · exact .inl (a.whole.isPlainDigit c hc)
    · exact .inr rfl
    · exact .inl (a.plain c hc)

/-- An amount typed just as it is written fits. -/
theorem TypedAmount.fits_of_text_eq {q : TypedAmount} {a : WrittenAmount} (h : q.text = a.text) : q.Fits a := by
  cases q with
  | whole w => exact .inl ((a.prefix_text_iff w).1 (h ▸ List.prefix_rfl))
  | point w => exact (a.prefix_text_iff w).1 (h ▸ List.prefix_append w.1 _)
  | decimals w f =>
    rcases a.text_eq with ⟨-, htext⟩ | ⟨hsome, htext⟩
    · refine absurd ?_ a.whole.point_notMem
      rw [← htext, ← h]
      exact List.mem_append_right _ List.mem_cons_self
    · have hparts := congrArg splitPoint (h.trans htext)
      rw [text, splitPoint_append w.point_notMem, splitPoint_append a.whole.point_notMem, Prod.mk.injEq] at hparts
      exact ⟨Subtype.ext hparts.1, .inr ⟨hsome, hparts.2 ▸ List.prefix_rfl⟩⟩

/-- Noise aside, a typed amount admits the written amounts that fit it digit by digit, and no others. -/
theorem admits_iff_fits (q : TypedAmount) (a : WrittenAmount) {query data : Text} (hquery : Littered q.text query)
    (hdata : Littered a.text data) : admits query data = true ↔ q.Fits a := by
  have hq : q.text ≠ [] := by cases q <;> simp [TypedAmount.text, Digits.ne_nil]
  have ha : a.text ≠ [] := List.append_ne_nil_of_left_ne_nil a.whole.ne_nil _
  have hrule : (if q.text.contains ('.' : CodePoint) then admitsDecimal q.text a.text else admitsWhole q.text a.text) = true ↔
      q.Fits a := by
    cases q with
    | whole w =>
      rw [if_neg (by simpa [TypedAmount.text] using w.point_notMem)]
      exact admitsWhole_iff w a
    | point w =>
      rw [if_pos (by simp [TypedAmount.text])]
      exact (admitsDecimal_point_iff w a.text).trans (by rw [a.before_text, TypedAmount.Fits])
    | decimals w f =>
      rw [if_pos (by simp [TypedAmount.text])]
      exact admitsDecimal_decimals_iff w f a
  simp only [admits, hquery.dropNoise_eq, hdata.dropNoise_eq, q.dropNoise_text, a.dropNoise_text,
    List.isEmpty_eq_false_iff.2 hq, List.isEmpty_eq_false_iff.2 ha, Bool.or_false, Bool.false_eq_true, if_false]
  rw [Bool.or_eq_true, beq_iff_eq, hrule, or_iff_right_of_imp TypedAmount.fits_of_text_eq]

def typedThousand : TypedAmount := .whole ⟨"1250".toText, by decide⟩

def writtenDozen : WrittenAmount := ⟨⟨"12".toText, by decide⟩, [], by decide, by decide⟩

def writtenThirteen : WrittenAmount := ⟨⟨"13".toText, by decide⟩, "5".toText, by decide, by decide⟩

/-- Four digits go with a whole part of the first two, but not with one that differs in its second digit. -/
theorem admits_iff_fits_thousand :
    admits "$1,250".toText "12".toText = true ∧ ¬admits "$1,250".toText "1 3.5".toText = true := by
  have htyped : Littered typedThousand.text "$1,250".toText :=
    .noise (by decide) (.keep _ (.noise (by decide) (.keep _ (.keep _ (.keep _ .nil)))))
  have hdozen : Littered writtenDozen.text "12".toText := .keep _ (.keep _ .nil)
  have hthirteen : Littered writtenThirteen.text "1 3.5".toText :=
    .keep _ (.noise (by decide) (.keep _ (.keep _ (.keep _ .nil))))
  constructor
  · exact (admits_iff_fits typedThousand writtenDozen htyped hdozen).2 (.inr (by decide))
  · rw [admits_iff_fits typedThousand writtenThirteen htyped hthirteen]
    rintro (h | ⟨-, h, -⟩)
    · exact absurd h (by decide)
    · exact absurd h (by decide)

/-- Decimals may be more than are written, not fewer. -/
example : admits "800.55".toText "800.5".toText = true ∧ admits "800.5".toText "800.55".toText = false := by decide

end Query
end LedgerSearch

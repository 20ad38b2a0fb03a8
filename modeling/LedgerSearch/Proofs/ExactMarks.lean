import LedgerSearch.Proofs.FreeOccurrences
import LedgerSearch.Proofs.NumberMarks
import LedgerSearch.Proofs.WrittenForms

/-!
# Marks of exact amounts

An exact amount is marked where one of its forms stands alone, with a dollar sign or without one. What is marked is read
back as the amount if that is a number of hundredths (`exact_mark_stands_for`). Otherwise two places are not enough: the form
with two places stands for another number, and in a text of its own it is marked all the same (`exists_mark_writeCents`).
-/

namespace LedgerSearch.Marking

open Binary64 (IsCents writeCents)
open Query (amount? dollarSign dropNoise tokens)

/-- The mark is neither preceded by a character of numbers nor followed by what goes on with one. -/
structure Mark.StandsAlone (text : Text) (m : Mark) : Prop where
  before : ∀ c ∈ (text.take m.start).getLast?, joinsBefore c = false
  after : continues (text.drop m.stop) = false

section Places

variable {text form t : Text} {n : Nat} {bounds : Nat × Nat}

/-- A form that is found at the start of a text ends where no number goes on. -/
theorem exists_dollarSign_of_formLength? (h : formLength? form t = some n) : ∃ signed, dollarSign signed ++ form <+: t ∧
    n = (dollarSign signed ++ form).length ∧ continues (t.drop n) = false := by
  have halone : ∀ {body : Text}, (form.isPrefixOf body && !continues (body.drop form.length)) = true →
      form <+: body ∧ continues (body.drop form.length) = false := by
    intro body h
    simpa [List.isPrefixOf_iff_prefix] using h
  have hplain : (form.isPrefixOf t && !continues (t.drop form.length)) = true →
      ∃ signed, dollarSign signed ++ form <+: t ∧ form.length = (dollarSign signed ++ form).length ∧
        continues (t.drop form.length) = false :=
    fun h => ⟨false, (halone h).1, rfl, (halone h).2⟩
  unfold formLength? at h
  dsimp only at h
  split at h
  case h_1 rest =>
    split at h
    case isTrue hsigned =>
      cases h
      obtain ⟨hbegins, hafter⟩ := halone hsigned
      exact ⟨true, List.cons_prefix_cons.2 ⟨rfl, hbegins⟩, rfl, hafter⟩
    case isFalse =>
      split at h
      case isTrue halone =>
        cases h
        exact hplain halone
      case isFalse => cases h
  case h_2 =>
    split at h
    case isTrue halone =>
      cases h
      exact hplain halone
    case isFalse => cases h

/-- A form stands between two positions, behind a character that joins nothing. -/
structure IsPlace (form text : Text) (bounds : Nat × Nat) : Prop where
  before : ∀ c ∈ (text.take bounds.1).getLast?, joinsBefore c = false
  found : ∃ n, formLength? form (text.drop bounds.1) = some n ∧ bounds.2 = bounds.1 + n

theorem isPlace_of_mem_formsFrom (front : Text) {skip : Nat}
    (h : bounds ∈ formsFrom form front.length skip front.getLast? t) : IsPlace form (front ++ t) bounds := by
  induction t generalizing front skip with
  | nil => cases h
  | cons c rest ih =>
    have hlater : ∀ {skip : Nat}, bounds ∈ formsFrom form (front.length + 1) skip (some c) rest →
        IsPlace form (front ++ c :: rest) bounds := by
      intro skip h
      have hlength : (front ++ [c]).length = front.length + 1 := List.length_append
      have hlast : (front ++ [c]).getLast? = some c := List.getLast?_concat
      rw [← hlength, ← hlast] at h
      simpa using ih _ h
    cases skip with
    | succ skip => exact hlater h
    | zero =>
      rw [formsFrom] at h
      split at h
      case h_1 n hfound =>
        rcases List.mem_cons.1 h with rfl | h
        · rw [Option.ite_none_left_eq_some] at hfound
          refine ⟨fun d hd => ?_, n, ?_, rfl⟩
          · dsimp only at hd
            rw [List.take_left] at hd
            refine Bool.eq_false_iff.2 fun hjoins => hfound.1 ?_
            rw [Option.mem_def.1 hd]
            exact hjoins
          · dsimp only
            rw [List.drop_left]
            exact hfound.2
        · exact hlater h
      case h_2 => exact hlater h

theorem isPlace_of_mem_standingAlone (h : bounds ∈ standingAlone form text) : IsPlace form text bounds :=
  isPlace_of_mem_formsFrom [] h

end Places

section Marks

variable {text query token : Text} {m : Mark}

theorem exists_form_of_mem_exactBounds {bounds : Nat × Nat} (h : bounds ∈ exactBounds text token) :
    token.head? = some '$' ∧ ∃ (x : Binary64) (hfinite : x.isFinite = true), amount? token = some x ∧
      ∃ form ∈ writtenForms x hfinite token, IsPlace form text bounds := by
  unfold exactBounds at h
  split at h
  case isTrue hdollar =>
    split at h
    case h_1 x hx =>
      obtain ⟨form, hform, hplace⟩ := List.mem_flatMap.1 h
      exact ⟨beq_iff_eq.1 hdollar, x, Query.isFinite_of_amount? hx, hx, form, hform, isPlace_of_mem_standingAlone hplace⟩
    case h_2 => cases h
  case isFalse => cases h

/-- An exact mark is set where a form of an amount stands alone. -/
theorem exists_form_of_mark (hm : m ∈ marksIn (highlight .monetary text query)) (hreason : m.reason = .exactAmount) :
    m.StandsAlone text ∧ ∃ token ∈ tokens query, token.head? = some '$' ∧
      ∃ (x : Binary64) (hfinite : x.isFinite = true), amount? token = some x ∧
        ∃ form ∈ writtenForms x hfinite token, ∃ signed, m.content = dollarSign signed ++ form := by
  obtain ⟨hspan, hbegins⟩ := (mem_marksIn_exact hreason).1 hm
  rcases Tracker.mem_claimAll hspan with hnone | hoffered
  · cases hnone
  obtain ⟨bounds, hbounds, heq⟩ := List.mem_map.1 hoffered
  obtain ⟨token, htoken, hmem⟩ := List.mem_flatMap.1 hbounds
  obtain ⟨hdollar, x, hfinite, hx, form, hform, hplace⟩ := exists_form_of_mem_exactBounds hmem
  obtain ⟨n, hfound, hstop⟩ := hplace.found
  obtain ⟨signed, hopens, rfl, hafter⟩ := exists_dollarSign_of_formLength? hfound
  obtain ⟨-, hstart, hend⟩ := span_eq_iff.1 heq.symm
  rw [List.drop_drop, ← hstop, ← hend] at hafter
  rw [← hstart] at hopens
  refine ⟨⟨hstart ▸ hplace.before, hafter⟩, token, htoken, hdollar, x, hfinite, hx, form, hform, signed, ?_⟩
  have hlength : m.content.length = (dollarSign signed ++ form).length := by
    rw [Mark.stop] at hend
    omega
  exact (List.prefix_of_prefix_length_le hbegins hopens (Nat.le_of_eq hlength)).eq_of_length hlength

theorem dropNoise_dollarSign_append (signed : Bool) (t : Text) : dropNoise (dollarSign signed ++ t) = dropNoise t := by
  have hsign : dropNoise (dollarSign signed) = [] := by cases signed <;> rfl
  rw [Query.dropNoise_append, hsign, List.nil_append]

theorem exact_mark_stands_for (hm : m ∈ marksIn (highlight .monetary text query)) (hreason : m.reason = .exactAmount) :
    ∃ token ∈ tokens query, token.head? = some '$' ∧ ∃ x, amount? token = some x ∧ StandsFor m.content x := by
  obtain ⟨-, token, htoken, hdollar, x, hfinite, hx, form, hform, signed, hcontent⟩ := exists_form_of_mark hm hreason
  refine ⟨token, htoken, hdollar, x, hx, ?_⟩
  rw [hcontent, standsFor_congr (dropNoise_dollarSign_append signed form)]
  exact standsFor_of_mem_writtenForms hx hform

end Marks

/-- Digits, a point, and digits. -/
inductive IsPointed : Text → Prop
  | digits {v f : Text} (hne : v ≠ []) (hv : AreDigits v) (hplaces : f ≠ []) (hf : AreDigits f) :
      IsPointed (v ++ ('.' : CodePoint) :: f)

theorem isPointed_writeCents (u : Nat) : IsPointed (writeCents (.finite false u)) := by
  rw [Binary64.writeCents_finite]
  exact .digits (Query.ofNat_ne_nil _) (Query.decimal _).areDigits (ofNatWide_ne_nil 2 _) (areDigits_ofNatWide 2 _)

theorem continues_cons (c : CodePoint) (t : Text) :
    continues (c :: t) = (Text.isDigit c || ((c = '.' || c = ',') && t.head?.any Text.isDigit)) := by
  cases t with
  | nil => simp [continues]
  | cons => rfl

section Pointed

variable {t s : Text} {m : Mark}

/-- Whatever is left of such a text goes on with a number. -/
theorem IsPointed.continues_of_suffix (h : IsPointed t) (hsuffix : s <:+ t) (hs : s ≠ []) : continues s = true := by
  have hdigit : ∀ {c : CodePoint} {t : Text}, Text.isDigit c = true → continues (c :: t) = true := fun hc => by
    rw [continues_cons, hc, Bool.true_or]
  obtain @⟨v, f, -, hv, hplaces, hf⟩ := h
  induction v with
  | nil =>
    rcases List.suffix_cons_iff.1 hsuffix with rfl | hsuffix
    · obtain ⟨d, g, rfl⟩ := List.exists_cons_of_ne_nil hplaces
      rw [continues_cons, List.head?_cons, Option.any_some, hf d List.mem_cons_self]
      decide
    · obtain ⟨d, g, rfl⟩ := List.exists_cons_of_ne_nil hs
      exact hdigit (hf d (hsuffix.mem List.mem_cons_self))
  | cons a v ih =>
    obtain ⟨ha, hv⟩ := List.forall_mem_cons.1 hv
    rcases List.suffix_cons_iff.1 hsuffix with rfl | hsuffix
    · exact hdigit ha
    · exact ih hv hsuffix

theorem IsPointed.joinsBefore (h : IsPointed t) : ∀ c ∈ t, joinsBefore c = true := by
  obtain ⟨-, hv, -, hf⟩ := h
  intro c hc
  unfold Marking.joinsBefore
  rcases List.mem_append.1 hc with hc | hc
  · rw [hv c hc, Bool.true_or, Bool.true_or]
  · rcases List.mem_cons.1 hc with rfl | hc
    · decide
    · rw [hf c hc, Bool.true_or, Bool.true_or]

theorem IsPointed.exists_cons (h : IsPointed t) : ∃ c w, t = c :: w ∧ c ≠ '$' := by
  obtain ⟨hne, hv, -, -⟩ := h
  obtain ⟨c, w, rfl⟩ := List.exists_cons_of_ne_nil hne
  refine ⟨c, _, List.cons_append, ?_⟩
  rintro rfl
  exact absurd (hv _ List.mem_cons_self) (by decide)

/-- A mark that stands alone in such a text is all of it. -/
theorem Mark.StandsAlone.content_eq (h : m.StandsAlone t) (ht : IsPointed t) (hbegins : m.content <+: t.drop m.start) :
    m.content = t := by
  have hfront : t.take m.start = [] := by
    by_contra hbefore
    obtain ⟨c, hc⟩ := Option.ne_none_iff_exists'.1 fun hnone => hbefore (List.getLast?_eq_none_iff.1 hnone)
    have hjoins := ht.joinsBefore c (List.mem_of_mem_take (List.mem_of_getLast? hc))
    rw [h.before c hc] at hjoins
    cases hjoins
  have hstart : m.start = 0 := by
    obtain ⟨c, w, rfl, -⟩ := ht.exists_cons
    exact (List.take_eq_nil_iff.1 hfront).resolve_right (List.cons_ne_nil c w)
  have hback : t.drop m.content.length = [] := by
    by_contra hafter
    have hcontinues := ht.continues_of_suffix (List.drop_suffix _ _) hafter
    have hstop : m.stop = m.content.length := by rw [Mark.stop, hstart, Nat.zero_add]
    rw [← hstop, h.after] at hcontinues
    cases hcontinues
  rw [hstart, List.drop_zero] at hbegins
  exact hbegins.eq_of_length_le (List.drop_eq_nil_iff.1 hback)

/-- Such a form is found in a text of its own. -/
theorem IsPointed.mem_standingAlone (h : IsPointed t) : (0, t.length) ∈ standingAlone t t := by
  have halone : (t.isPrefixOf t && !continues (t.drop t.length)) = true := by
    rw [List.drop_length, Bool.and_eq_true, List.isPrefixOf_iff_prefix]
    exact ⟨List.prefix_rfl, rfl⟩
  have hfree : ¬(none : Option CodePoint).any Marking.joinsBefore = true := Bool.false_ne_true
  obtain ⟨c, w, rfl, hc⟩ := h.exists_cons
  have hfound : formLength? (c :: w) (c :: w) = some (c :: w).length := by
    unfold formLength?
    split
    case h_1 rest heq => exact absurd (List.cons.inj heq).1 hc
    case h_2 => exact if_pos halone
  rw [standingAlone, formsFrom, if_neg hfree, hfound]
  dsimp only
  rw [Nat.zero_add]
  exact List.mem_cons_self

end Pointed

section Offered

variable {text query token : Text} {x : Binary64} {bounds : Nat × Nat}

/-- Where the bounds of an exact amount are offered, some exact amount is marked. -/
theorem exists_mark_of_mem_exactBounds (htoken : token ∈ tokens query) (hbounds : bounds ∈ exactBounds text token)
    (hfilled : bounds.1 < bounds.2) : ∃ m ∈ marksIn (highlight .monetary text query), m.reason = .exactAmount := by
  have hoffered : spanFor .exactAmount bounds ∈ ((tokens query).flatMap (exactBounds text)).map (spanFor .exactAmount) :=
    List.mem_map_of_mem (List.mem_flatMap.2 ⟨token, htoken, hbounds⟩)
  obtain ⟨s, hs, -⟩ := Tracker.overlaps_iff.1
    (Tracker.overlaps_claimAll_of_mem hoffered (Int.ofNat_lt.2 hfilled) Tracker.empty)
  have hsound := sound_markExact query (Tracker.sound_empty text.length)
  obtain ⟨m, rfl, hbegins⟩ := (hsound.fits s hs).exists_mark (hsound.filled s hs)
  have hreason : m.reason = .exactAmount := Reason.style_injective (style_of_mem_markExact hs)
  exact ⟨m, (mem_marksIn_exact hreason).2 ⟨hs, hbegins⟩, hreason⟩

theorem mem_exactBounds_writeCents (hdollar : token.head? = some '$') (hx : amount? token = some x)
    (h : IsPointed (writeCents x)) : (0, (writeCents x).length) ∈ exactBounds (writeCents x) token := by
  have hform : ∀ hfinite, writeCents x ∈ writtenForms x hfinite token := by
    intro hfinite
    obtain ⟨c, w, hcons, -⟩ := h.exists_cons
    rw [writtenForms, Sorting.mem_sort, List.mem_eraseDups, List.mem_filter, hcons]
    exact ⟨by simp, rfl⟩
  unfold exactBounds
  rw [if_pos (beq_iff_eq.2 hdollar)]
  split
  case h_1 y hy =>
    cases hx.symm.trans hy
    exact List.mem_flatMap.2 ⟨_, hform _, h.mem_standingAlone⟩
  case h_2 hy => cases hx.symm.trans hy

/-- Two places of an amount are marked in a text of their own. -/
theorem exists_mark_writeCents (htoken : token ∈ tokens query) (hdollar : token.head? = some '$')
    (hx : amount? token = some x) : ∃ m ∈ marksIn (highlight .monetary (writeCents x) query),
      m.reason = .exactAmount ∧ m.content = writeCents x := by
  have hpointed : IsPointed (writeCents x) := by
    obtain ⟨u, rfl, -, -⟩ := Query.exists_rounded_of_amount? hx
    exact isPointed_writeCents u
  have hfilled : 0 < (writeCents x).length := by
    obtain ⟨c, w, hcons, -⟩ := hpointed.exists_cons
    rw [hcons]
    exact Nat.zero_lt_succ _
  obtain ⟨m, hm, hreason⟩ :=
    exists_mark_of_mem_exactBounds htoken (mem_exactBounds_writeCents hdollar hx hpointed) hfilled
  have hbegins := ((mem_marksIn_exact hreason).1 hm).2
  exact ⟨m, hm, hreason, (exists_form_of_mark hm hreason).1.content_eq hpointed hbegins⟩

/-- The marks of one exact amount are read back in every text exactly if it is a number of hundredths. -/
theorem exact_marks_read_iff (hquery : tokens query = [token]) (hdollar : token.head? = some '$')
    (hx : amount? token = some x) : (∀ text, ∀ m ∈ marksIn (highlight .monetary text query), m.reason = .exactAmount →
      amount? m.content = some x) ↔ IsCents x := by
  have htoken : token ∈ tokens query := hquery ▸ List.mem_singleton.2 rfl
  constructor
  · intro hread
    obtain ⟨m, hm, hreason, hcontent⟩ := exists_mark_writeCents htoken hdollar hx
    have hcents := hread _ m hm hreason
    obtain ⟨u, rfl, hrounded, hmax⟩ := Query.exists_rounded_of_amount? hx
    rwa [hcontent, Binary64.amount?_writeCents_iff hrounded hmax] at hcents
  · intro hcents text m hm hreason
    obtain ⟨found, hfound, -, y, hy, hread⟩ := exact_mark_stands_for hm hreason
    rw [hquery, List.mem_singleton] at hfound
    cases (hfound ▸ hx).symm.trans hy
    exact hread.resolve_right fun hother => hother.1 hcents

end Offered

/-- With nothing remembered, an exact mark stands alone, and it is read as the amount of a token with a dollar sign, unless
this is no number of hundredths: then the mark may be its two places, or hold a hyphen. The marks of one such token are read
as its amount in every text exactly if the amount is a number of hundredths. -/
theorem exact_marks_read (capacity openingLength : Int) :
    (∀ text query, ∀ m ∈ marksIn ((Cache.empty capacity openingLength).highlight .monetary text query).1,
      m.reason = .exactAmount → m.StandsAlone text ∧ ∃ token ∈ tokens query, token.head? = some '$' ∧
        ∃ x, amount? token = some x ∧ (amount? m.content = some x ∨
          ¬IsCents x ∧ (('-' : CodePoint) ∈ m.content ∨ dropNoise m.content = writeCents x))) ∧
    ∀ query token x, tokens query = [token] → token.head? = some '$' → amount? token = some x →
      ((∀ text, ∀ m ∈ marksIn ((Cache.empty capacity openingLength).highlight .monetary text query).1,
        m.reason = .exactAmount → amount? m.content = some x) ↔ IsCents x) := by
  have hfresh : ∀ text query, ((Cache.empty capacity openingLength).highlight .monetary text query).1 =
      highlight .monetary text query := fun text query => fst_highlight_of_get?_eq_none rfl
  simp only [hfresh]
  exact ⟨fun text query m hm hreason => ⟨(exists_form_of_mark hm hreason).1, exact_mark_stands_for hm hreason⟩,
    fun query token x hquery hdollar hx => exact_marks_read_iff hquery hdollar hx⟩

/-- The grouped form of a rent with two places stands alone and is read as the amount that was typed. -/
theorem exact_marks_read_rent : ∃ m ∈
    marksIn ((Cache.empty 10 100).highlight .monetary "Rent: $1,250.50.".toText "$1250.5".toText).1,
    m.reason = .exactAmount ∧ m.StandsAlone "Rent: $1,250.50.".toText ∧
      amount? m.content = some (.ofRatio false 125050 100) := by
  obtain ⟨hmarks, hreads⟩ := exact_marks_read 10 100
  have hm : (⟨.exactAmount, 6, "$1,250.50".toText⟩ : Mark) ∈
      marksIn ((Cache.empty 10 100).highlight .monetary "Rent: $1,250.50.".toText "$1250.5".toText).1 := by
    decide +kernel
  have hquery : tokens "$1250.5".toText = ["$1250.5".toText] := by decide +kernel
  have hx : amount? "$1250.5".toText = some (.ofRatio false 125050 100) := by decide +kernel
  exact ⟨_, hm, rfl, (hmarks _ _ _ hm rfl).1, (hreads _ _ _ hquery rfl hx).2 ⟨125050, rfl⟩ _ _ hm rfl⟩

/-- The amount has three places. Its form with two is marked as exact, and it is read as another amount. -/
theorem exact_mark_misread : ∃ m ∈ marksIn ((Cache.empty 10 100).highlight .monetary "12.35".toText "$12.345".toText).1,
    m.reason = .exactAmount ∧ m.content = "12.35".toText ∧
      ∀ token ∈ tokens "$12.345".toText, amount? token ≠ amount? m.content := by
  have hm : (⟨.exactAmount, 0, "12.35".toText⟩ : Mark) ∈
      marksIn ((Cache.empty 10 100).highlight .monetary "12.35".toText "$12.345".toText).1 := by
    decide +kernel
  exact ⟨_, hm, rfl, rfl, by decide +kernel⟩

end LedgerSearch.Marking

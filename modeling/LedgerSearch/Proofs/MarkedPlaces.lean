import LedgerSearch.Proofs.Markup
import Mathlib.Data.List.Basic

/-!
# Places in marks

A marked text says of each character that it shows whether this stands in a mark (`inMarks`). In a highlighted text
these are the characters at the positions of the marked spans (`touched_highlight_iff`).
-/

namespace LedgerSearch.Marking

/-- The written forms that stand for one character. -/
def forms : List Text := ["&amp;".toText, "&lt;".toText, "&gt;".toText]

/-- What follows the form of one character at the start of an escaped text. -/
def afterForm (c : CodePoint) (rest : Text) : Text :=
  match forms.find? fun form => form.isPrefixOf (c :: rest) with
  | some form => rest.drop (form.length - 1)
  | none => rest

theorem length_afterForm_le (c : CodePoint) (rest : Text) : (afterForm c rest).length ≤ rest.length := by
  unfold afterForm
  split
  · exact (List.drop_sublist _ _).length_le
  · exact Nat.le_refl _

/-- For each character that a marked text shows, whether it stands in a mark. -/
def inMarks (inMark : Bool) : Text → List Bool
  | [] => []
  | c :: rest =>
    match _h : afterTag? inMark (c :: rest) with
    | some tail => inMarks (!inMark) tail
    | none => inMark :: inMarks inMark (afterForm c rest)
termination_by t => t.length
decreasing_by
  · exact length_afterTag?_lt _h
  · exact Nat.lt_succ_of_le (length_afterForm_le c rest)

/-- Some character between two positions of the shown text stands in a mark. -/
def Touched (html : Text) (start stop : Nat) : Prop := ∃ p, start ≤ p ∧ p < stop ∧ (inMarks false html)[p]? = some true

theorem inMarks_nil (inMark : Bool) : inMarks inMark [] = [] := by rw [inMarks]

theorem inMarks_cons {inMark : Bool} {c : CodePoint} (hc : ¬IsBracket c) (rest : Text) :
    inMarks inMark (c :: rest) = inMark :: inMarks inMark (afterForm c rest) := by
  rw [inMarks]
  split
  case h_1 tail htail =>
    rw [afterTag?_cons hc] at htail
    cases htail
  case h_2 => rfl

theorem inMarks_tag {inMark : Bool} {tag : Text} (h : tag ∈ tags inMark) (tail : Text) :
    inMarks inMark (tag ++ tail) = inMarks (!inMark) tail := by
  have hafter := afterTag?_tag h tail
  cases tag with
  | nil => cases head?_of_mem_tags h
  | cons c tag =>
    rw [List.cons_append] at hafter ⊢
    rw [inMarks]
    split
    case h_1 tail' htail =>
      rw [hafter] at htail
      cases htail
      rfl
    case h_2 hnone =>
      rw [hafter] at hnone
      cases hnone

theorem head?_of_mem_forms {form : Text} (h : form ∈ forms) : form.head? = some ('&' : CodePoint) := by
  revert form
  decide

theorem afterForm_of_ne {c : CodePoint} (hc : c ≠ '&') (rest : Text) : afterForm c rest = rest := by
  have hnone : forms.find? (fun form => form.isPrefixOf (c :: rest)) = none := by
    rw [List.find?_eq_none]
    intro form hform hopens
    have hhead : form.head? = some ('&' : CodePoint) := head?_of_mem_forms hform
    obtain ⟨more, heq⟩ := List.isPrefixOf_iff_prefix.1 hopens
    cases form with
    | nil => cases hhead
    | cons d form =>
      cases hhead
      cases heq
      exact hc rfl
  rw [afterForm, hnone]

theorem inMarks_escapeChar_append (inMark : Bool) (c : CodePoint) (t : Text) :
    inMarks inMark (escapeChar c ++ t) = inMark :: inMarks inMark t := by
  unfold escapeChar
  split
  case isTrue => exact inMarks_cons (by decide) _
  case isFalse hamp =>
    split
    case isTrue => exact inMarks_cons (by decide) _
    case isFalse hlt =>
      split
      case isTrue => exact inMarks_cons (by decide) _
      case isFalse hgt =>
        rw [List.singleton_append, inMarks_cons (fun hc => hc.elim hlt hgt), afterForm_of_ne hamp]

theorem inMarks_escape_append (inMark : Bool) (s t : Text) :
    inMarks inMark (escape s ++ t) = List.replicate s.length inMark ++ inMarks inMark t := by
  induction s with
  | nil => rfl
  | cons c s ih =>
    rw [escape, List.flatMap_cons, List.append_assoc, inMarks_escapeChar_append, ← escape, ih, List.length_cons,
      List.replicate_succ, List.cons_append]

example : inMarks false "a&amp;<mark class=\"search-highlight\">b</mark>".toText = [false, false, true] := by
  decide +kernel

namespace Piece

/-- For each character of a piece, whether it stands in a mark. -/
def places : Piece → List Bool
  | plain content => List.replicate content.length false
  | marked _ content => List.replicate content.length true

theorem inMarks_write_append {p : Piece} (hp : p.IsProper) (t : Text) :
    inMarks false (p.write ++ t) = p.places ++ inMarks false t := by
  cases p with
  | plain content => exact inMarks_escape_append false content t
  | marked style content =>
    obtain ⟨-, reason, rfl⟩ := hp
    have hopen : openTag reason.style ∈ tags false := List.mem_map_of_mem reason.mem_all
    have hclose : closeTag ∈ tags true := List.mem_singleton_self closeTag
    rw [write_marked, List.append_assoc, List.append_assoc, inMarks_tag hopen, Bool.not_false,
      inMarks_escape_append, inMarks_tag hclose, Bool.not_true]
    rfl

theorem inMarks_writes {ps : List Piece} (h : ∀ p ∈ ps, p.IsProper) :
    inMarks false (ps.flatMap write) = ps.flatMap places := by
  induction ps with
  | nil => exact inMarks_nil false
  | cons p ps ih =>
    obtain ⟨hp, hps⟩ := List.forall_mem_cons.1 h
    rw [List.flatMap_cons, inMarks_write_append hp, ih hps, List.flatMap_cons]

end Piece

section Pieces

variable {text : Text}

theorem length_cut {start stop : Int} (h0 : 0 ≤ start) (hle : start ≤ stop) (hstop : stop ≤ text.length) :
    (Text.cut text start stop).length = (stop - start).toNat := by
  rw [Text.cut, position_eq_toNat h0 (Int.le_trans hle hstop), position_eq_toNat (Int.le_trans h0 hle) hstop,
    List.length_take, List.length_drop]
  omega

theorem getElem?_replicate_append {b : Bool} {n i : Nat} {l : List Bool} :
    (List.replicate n b ++ l)[i]? = some true ↔ (i < n ∧ b = true) ∨ (n ≤ i ∧ l[i - n]? = some true) := by
  rw [List.getElem?_append, List.length_replicate]
  split
  case isTrue hlt => simp [hlt, Nat.not_le.2 hlt]
  case isFalse hge => simp [hge, Nat.not_lt.1 hge]

/-- Pieces cut at spans from a position on stand in marks at the positions of the spans. -/
theorem getElem?_places_pieces {spans : List Span} (h : Laid text.length spans) {position : Int} (h0 : 0 ≤ position)
    (hposition : position ≤ text.length) (hbehind : ∀ s ∈ spans, position ≤ s.start) {x : Int} (hx : position ≤ x) :
    ((pieces text position spans).flatMap Piece.places)[(x - position).toNat]? = some true ↔
      ∃ s ∈ spans, s.start ≤ x ∧ x < s.stop := by
  induction spans generalizing position with
  | nil => simp [pieces, Piece.places, List.getElem?_replicate]
  | cons s rest ih =>
    obtain ⟨hfits, hfitsRest⟩ := List.forall_mem_cons.1 h.fits
    obtain ⟨hfilled, hfilledRest⟩ := List.forall_mem_cons.1 h.filled
    obtain ⟨hnext, hrest⟩ := List.pairwise_cons.1 h.inOrder
    have hstart := hbehind s List.mem_cons_self
    have hnonneg := hfits.start_nonneg
    have hstop := hfits.stop_le
    rw [pieces, List.flatMap_cons, List.flatMap_cons, Piece.places, Piece.places, getElem?_replicate_append,
      getElem?_replicate_append, length_cut h0 hstart (by omega), length_cut hnonneg (by omega) hstop,
      List.exists_mem_cons_iff]
    by_cases hinside : x < s.stop
    · have hlater : ¬∃ a ∈ rest, a.start ≤ x ∧ x < a.stop := by
        rintro ⟨a, ha, hle, -⟩
        have := hnext a ha
        omega
      rw [or_iff_left hlater]
      constructor
      · rintro (⟨-, hfalse⟩ | ⟨hle, -⟩)
        · cases hfalse
        · omega
      · rintro ⟨hle, -⟩
        exact .inr ⟨by omega, .inl ⟨by omega, rfl⟩⟩
    · have hindex : (x - position).toNat - (s.start - position).toNat - (s.stop - s.start).toNat =
          (x - s.stop).toNat := by omega
      rw [hindex, ih ⟨hfitsRest, hfilledRest, hrest⟩ (by omega) hstop hnext (by omega)]
      constructor
      · rintro (⟨-, hfalse⟩ | ⟨-, ⟨hlt, -⟩ | ⟨-, hlater⟩⟩)
        · cases hfalse
        · omega
        · exact .inr hlater
      · rintro (⟨-, hlt⟩ | hlater)
        · exact absurd hlt hinside
        · exact .inr ⟨by omega, .inr ⟨by omega, hlater⟩⟩

end Pieces

theorem getElem?_inMarks_highlight {mode : Mode} {text query : Text} (hidle : isIdle text query = false) (p : Nat) :
    (inMarks false (highlight mode text query))[p]? = some true ↔
      ∃ s ∈ marks mode text query, s.start ≤ p ∧ (p : Int) < s.stop := by
  have hlaid := laid_marks mode text query
  have hplaces := getElem?_places_pieces hlaid (Int.le_refl 0) (Int.natCast_nonneg _)
    (fun s hs => (hlaid.fits s hs).start_nonneg) (Int.natCast_nonneg p)
  rw [Int.sub_zero, Int.toNat_natCast] at hplaces
  rw [highlight, hidle, if_neg Bool.false_ne_true, render, Piece.inMarks_writes (isProper_of_mem_pieces hlaid), hplaces]

/-- A highlighted text is touched where a marked span has a position, unless there is nothing to look for. -/
theorem touched_highlight_iff {mode : Mode} {text query : Text} (hidle : isIdle text query = false) {start stop : Nat} :
    Touched (highlight mode text query) start stop ↔
      ∃ s ∈ marks mode text query, meets start stop s.start s.stop = true := by
  constructor
  · rintro ⟨p, hstart, hstop, hmarked⟩
    obtain ⟨s, hs, hle, hlt⟩ := (getElem?_inMarks_highlight hidle p).1 hmarked
    refine ⟨s, hs, ?_⟩
    rw [meets, decide_eq_true_eq]
    omega
  · rintro ⟨s, hs, hmeets⟩
    rw [meets, decide_eq_true_eq] at hmeets
    have hnonneg := ((laid_marks mode text query).fits s hs).start_nonneg
    refine ⟨(max (start : Int) s.start).toNat, by omega, by omega, ?_⟩
    exact (getElem?_inMarks_highlight hidle _).2 ⟨s, hs, by omega, by omega⟩

end LedgerSearch.Marking

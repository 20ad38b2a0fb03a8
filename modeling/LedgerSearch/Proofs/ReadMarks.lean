import LedgerSearch.Proofs.MarkedPlaces

/-!
# Reading marks

A marked text tells its marks: up to each tag it shows characters, and between the tags of a mark those that are marked
(`marksIn`). The marks of a highlighted text are the accepted spans, each with the characters that the text has there
(`mem_marksIn_highlight`).
-/

namespace LedgerSearch.Marking

/-- A mark: what it is set for, where it begins among the characters shown, and the characters in it. -/
structure Mark where
  reason : Reason
  start : Nat
  content : Text
  deriving DecidableEq, Repr

namespace Mark

/-- The position behind the mark. -/
def stop (m : Mark) : Nat := m.start + m.content.length

def span (m : Mark) : Span := spanFor m.reason (m.start, m.stop)

end Mark

/-- The characters that a marked text shows up to its first tag. -/
def shown (html : Text) : Text := unescape (html.takeWhile (· != '<'))

/-- A marked text from its first tag on. -/
def fromTag (html : Text) : Text := html.dropWhile (· != '<')

/-- What the opening tag at the start of a text is set for. -/
def openedFor? (t : Text) : Option Reason := Reason.all.find? fun reason => (openTag reason.style).isPrefixOf t

theorem length_fromTag_le (html : Text) : (fromTag html).length ≤ html.length := (List.dropWhile_sublist _).length_le

theorem openTag_ne_nil (style : Text) : openTag style ≠ [] := List.cons_ne_nil _ _

theorem length_openTag_pos (style : Text) : 0 < (openTag style).length := List.length_pos_iff.2 (openTag_ne_nil style)

theorem openTag_opens {t : Text} {reason : Reason} (h : openedFor? t = some reason) : openTag reason.style <+: t := by
  rw [openedFor?] at h
  have hopens := List.find?_some h
  exact List.isPrefixOf_iff_prefix.1 hopens

/-- The marks of a marked text that follows as many shown characters as its position says. -/
def marksFrom (position : Nat) (html : Text) : List Mark :=
  match _h : openedFor? (fromTag html) with
  | none => []
  | some reason =>
    let start := position + (shown html).length
    let inside := (fromTag html).drop (openTag reason.style).length
    ⟨reason, start, shown inside⟩ :: marksFrom (start + (shown inside).length) ((fromTag inside).drop closeTag.length)
termination_by html.length
decreasing_by
  have hopens := (openTag_opens _h).length_le
  have hpos := length_openTag_pos reason.style
  have hhtml := length_fromTag_le html
  have hinside := length_fromTag_le ((fromTag html).drop (openTag reason.style).length)
  rw [List.length_drop] at hinside ⊢
  omega

def marksIn (html : Text) : List Mark := marksFrom 0 html

example : marksIn "a&amp;<mark class=\"search-highlight\">b&lt;</mark>c".toText = [⟨.term, 2, "b<".toText⟩] := by
  decide +kernel

theorem Reason.style_injective {a b : Reason} (h : a.style = b.style) : a = b := by
  have hall : ∀ a ∈ all, ∀ b ∈ all, a.style = b.style → a = b := by decide +kernel
  exact hall a a.mem_all b b.mem_all h

theorem openedFor?_tag (reason : Reason) (tail : Text) : openedFor? (openTag reason.style ++ tail) = some reason := by
  have hmem : ∀ found : Reason, openTag found.style ∈ tags false := fun found => List.mem_map_of_mem found.mem_all
  have hopens : openTag reason.style <+: openTag reason.style ++ tail := List.prefix_append _ tail
  cases hfound : openedFor? (openTag reason.style ++ tail) with
  | none => exact absurd (List.isPrefixOf_iff_prefix.2 hopens) (List.find?_eq_none.1 hfound reason reason.mem_all)
  | some found =>
    have htag : openTag found.style = openTag reason.style := by
      rcases List.prefix_or_prefix_of_prefix (openTag_opens hfound) hopens with h | h
      · exact eq_of_tag_opens (hmem found) (hmem reason) h
      · exact (eq_of_tag_opens (hmem reason) (hmem found) h).symm
    rw [openTag, openTag, List.append_left_inj, List.append_right_inj] at htag
    rw [Reason.style_injective htag]

theorem takeWhile_shown {t : Text} : ∀ c ∈ escape t, (c != '<') = true := fun _ hc =>
  bne_iff_ne.2 fun h => not_isBracket_of_mem_escape hc (.inl h)

section Tags

variable {tag : Text} (htag : tag.head? = some ('<' : CodePoint)) (t rest : Text)
include htag

theorem shown_escape_append : shown (escape t ++ (tag ++ rest)) = t := by
  cases tag with
  | nil => cases htag
  | cons c tag =>
    cases htag
    rw [shown, List.takeWhile_append_of_pos takeWhile_shown, List.cons_append, List.takeWhile_cons_of_neg (by simp),
      List.append_nil, unescape_escape]

theorem fromTag_escape_append : fromTag (escape t ++ (tag ++ rest)) = tag ++ rest := by
  cases tag with
  | nil => cases htag
  | cons c tag =>
    cases htag
    rw [fromTag, List.dropWhile_append_of_pos takeWhile_shown, List.cons_append, List.dropWhile_cons_of_neg (by simp)]

end Tags

theorem marksFrom_escape (position : Nat) (t : Text) : marksFrom position (escape t) = [] := by
  have hnone : fromTag (escape t) = [] := by
    rw [fromTag, ← List.append_nil (escape t), List.dropWhile_append_of_pos takeWhile_shown, List.dropWhile_nil]
  rw [marksFrom]
  split
  case h_1 => rfl
  case h_2 reason hopened =>
    rw [hnone] at hopened
    exact absurd (List.prefix_nil.1 (openTag_opens hopened)) (openTag_ne_nil _)

theorem head?_openTag (style : Text) : (openTag style).head? = some ('<' : CodePoint) := rfl

theorem marksFrom_marked (position : Nat) (before : Text) (reason : Reason) (content rest : Text) :
    marksFrom position ((Piece.plain before).write ++ ((Piece.marked reason.style content).write ++ rest)) =
      ⟨reason, position + before.length, content⟩ :: marksFrom (position + before.length + content.length) rest := by
  have hclose : closeTag.head? = some ('<' : CodePoint) := rfl
  rw [Piece.write, Piece.write_marked, List.append_assoc, List.append_assoc, marksFrom]
  split
  case h_1 hopened =>
    rw [fromTag_escape_append (head?_openTag _), openedFor?_tag] at hopened
    cases hopened
  case h_2 found hopened =>
    rw [fromTag_escape_append (head?_openTag _), openedFor?_tag] at hopened
    cases hopened
    simp only [shown_escape_append (head?_openTag _), fromTag_escape_append (head?_openTag _), List.drop_left,
      shown_escape_append hclose, fromTag_escape_append hclose]

section Highlighted

variable {text : Text} {m : Mark}

theorem spanFor_inj {reason other : Reason} {start stop start' stop' : Nat} :
    spanFor reason (start, stop) = spanFor other (start', stop') ↔ reason = other ∧ start = start' ∧ stop = stop' := by
  simp only [spanFor, Span.mk.injEq, Int.natCast_inj]
  constructor
  · rintro ⟨hstart, hstop, hstyle⟩
    exact ⟨Reason.style_injective hstyle, hstart, hstop⟩
  · rintro ⟨rfl, hstart, hstop⟩
    exact ⟨hstart, hstop, rfl⟩

theorem span_eq_iff {reason : Reason} {start stop : Nat} : m.span = spanFor reason (start, stop) ↔
    m.reason = reason ∧ m.start = start ∧ m.stop = stop := spanFor_inj

theorem length_take_drop {start stop : Nat} (hstop : stop ≤ text.length) :
    ((text.drop start).take (stop - start)).length = stop - start := by
  rw [List.length_take, List.length_drop]
  omega

/-- A mark at given bounds with what the text has there. -/
theorem eq_mark_iff {reason : Reason} {start stop : Nat} (hle : start ≤ stop) (hstop : stop ≤ text.length) :
    m = ⟨reason, start, (text.drop start).take (stop - start)⟩ ↔
      m.span = spanFor reason (start, stop) ∧ m.content <+: text.drop m.start := by
  rw [span_eq_iff]
  constructor
  · rintro rfl
    refine ⟨⟨rfl, rfl, ?_⟩, List.take_prefix _ _⟩
    dsimp only [Mark.stop]
    rw [length_take_drop hstop, Nat.add_sub_of_le hle]
  · obtain ⟨found, first, content⟩ := m
    rintro ⟨⟨rfl, rfl, hend⟩, hprefix⟩
    rw [Mark.stop] at hend
    dsimp only at *
    have hcount : stop - first = content.length := by omega
    rw [hcount, ← List.prefix_iff_eq_take.1 hprefix]

theorem cut_of_le {start stop : Nat} (hle : start ≤ stop) (hstop : stop ≤ text.length) :
    Text.cut text start stop = (text.drop start).take (stop - start) := by
  rw [Text.cut, Text.position_ofNat, Text.position_ofNat, Nat.min_eq_left hstop,
    Nat.min_eq_left (Nat.le_trans hle hstop)]

theorem Span.Fits.exists_bounds {length : Nat} {s : Span} (h : s.Fits length) (hfilled : s.start < s.stop) :
    ∃ (reason : Reason) (start stop : Nat), s = spanFor reason (start, stop) ∧ start ≤ stop ∧ stop ≤ length := by
  obtain ⟨reason, hstyle⟩ := h.styled
  have hstart := h.start_nonneg
  have hstop := h.stop_le
  obtain ⟨start, stop, style⟩ := s
  dsimp only at *
  refine ⟨reason, start.toNat, stop.toNat, ?_, by omega, by omega⟩
  rw [spanFor, hstyle, Span.mk.injEq]
  exact ⟨by omega, by omega, rfl⟩

theorem Span.Fits.exists_mark {s : Span} (h : s.Fits text.length) (hfilled : s.start < s.stop) :
    ∃ m : Mark, m.span = s ∧ m.content <+: text.drop m.start := by
  obtain ⟨reason, start, stop, rfl, hle, hstop⟩ := h.exists_bounds hfilled
  exact ⟨_, (eq_mark_iff hle hstop).1 rfl⟩

/-- The marks of pieces cut at spans are the spans, each with what the text has there. -/
theorem mem_marksFrom_pieces {spans : List Span} (h : Laid text.length spans) {position : Nat}
    (hposition : position ≤ text.length) (hbehind : ∀ s ∈ spans, position ≤ s.start) :
    m ∈ marksFrom position ((pieces text position spans).flatMap Piece.write) ↔
      m.span ∈ spans ∧ m.content <+: text.drop m.start := by
  induction spans generalizing position with
  | nil => simp [pieces, Piece.write, marksFrom_escape]
  | cons s rest ih =>
    obtain ⟨hfits, hfitsRest⟩ := List.forall_mem_cons.1 h.fits
    obtain ⟨hfilled, hfilledRest⟩ := List.forall_mem_cons.1 h.filled
    obtain ⟨hnext, hrest⟩ := List.pairwise_cons.1 h.inOrder
    have hstart := hbehind s List.mem_cons_self
    obtain ⟨reason, start, stop, rfl, hle, hstop⟩ := hfits.exists_bounds hfilled
    have hfirst : position ≤ start := Int.ofNat_le.1 hstart
    have hlater := ih ⟨hfitsRest, hfilledRest, hrest⟩ hstop hnext
    have hbefore : ((text.drop position).take (start - position)).length = start - position :=
      length_take_drop (Nat.le_trans hle hstop)
    rw [pieces, List.flatMap_cons, List.flatMap_cons]
    dsimp only [spanFor]
    rw [cut_of_le hfirst (Nat.le_trans hle hstop), cut_of_le hle hstop, marksFrom_marked, hbefore, length_take_drop hstop,
      Nat.add_sub_of_le hfirst, Nat.add_sub_of_le hle, List.mem_cons, List.mem_cons, hlater, eq_mark_iff hle hstop]
    exact or_and_right.symm

theorem mem_marksIn_highlight {mode : Mode} {query : Text} :
    m ∈ marksIn (highlight mode text query) ↔
      isIdle text query = false ∧ m.span ∈ marks mode text query ∧ m.content <+: text.drop m.start := by
  have hlaid := laid_marks mode text query
  rw [highlight]
  cases hidle : isIdle text query with
  | true => simp [marksIn, marksFrom_escape]
  | false =>
    have hpieces := mem_marksFrom_pieces (m := m) hlaid (Nat.zero_le _) fun s hs => (hlaid.fits s hs).start_nonneg
    rw [if_neg Bool.false_ne_true, render, marksIn]
    exact hpieces.trans (by simp)

/-- Every accepted span is read back as a mark. -/
theorem exists_mark_of_mem_marks {mode : Mode} {query : Text} (hidle : isIdle text query = false) {s : Span}
    (hs : s ∈ marks mode text query) : ∃ m ∈ marksIn (highlight mode text query), m.span = s := by
  have hlaid := laid_marks mode text query
  obtain ⟨m, rfl, hprefix⟩ := (hlaid.fits s hs).exists_mark (hlaid.filled s hs)
  exact ⟨m, mem_marksIn_highlight.2 ⟨hidle, hs, hprefix⟩, rfl⟩

end Highlighted

end LedgerSearch.Marking

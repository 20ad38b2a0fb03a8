import LedgerSearch.Proofs.Spans

/-!
# Marked texts lose nothing

A marked text is its pieces one after the other, escaped, some of them between the tags of a mark. The pieces are
those of the given text, whatever characters it and the query hold: without its tags the marked text is the escaped
text, which reads back as the text (`Lossless`).
-/

namespace LedgerSearch.Marking

/-- The text that an escaped text stands for. -/
def unescape : Text → Text
  | '&' :: 'a' :: 'm' :: 'p' :: ';' :: rest => '&' :: unescape rest
  | '&' :: 'l' :: 't' :: ';' :: rest => '<' :: unescape rest
  | '&' :: 'g' :: 't' :: ';' :: rest => '>' :: unescape rest
  | c :: rest => c :: unescape rest
  | [] => []

theorem unescape_cons {c : CodePoint} (hc : c ≠ '&') (t : Text) : unescape (c :: t) = c :: unescape t := by
  conv => lhs; unfold unescape
  split <;> simp_all

theorem unescape_escapeChar_append (c : CodePoint) (t : Text) : unescape (escapeChar c ++ t) = c :: unescape t := by
  unfold escapeChar
  split
  · rename_i hc
    rw [hc]
    rfl
  · rename_i hc
    split
    · rename_i hlt
      rw [hlt]
      rfl
    · split
      · rename_i hgt
        rw [hgt]
        rfl
      · exact unescape_cons hc t

theorem unescape_escape (t : Text) : unescape (escape t) = t := by
  induction t with
  | nil => rfl
  | cons c t ih => rw [escape, List.flatMap_cons, unescape_escapeChar_append, ← escape, ih]

theorem escape_append (s t : Text) : escape (s ++ t) = escape s ++ escape t := List.flatMap_append

/-- The characters that tags begin and end with. -/
def IsBracket (c : CodePoint) : Prop := c = '<' ∨ c = '>'

instance (c : CodePoint) : Decidable (IsBracket c) := inferInstanceAs (Decidable (_ ∨ _))

theorem not_isBracket_of_mem_escapeChar {c d : CodePoint} (h : d ∈ escapeChar c) : ¬IsBracket d := by
  unfold escapeChar at h
  split at h
  · revert d
    decide
  · split at h
    · revert d
      decide
    · split at h
      · revert d
        decide
      · rename_i hlt hgt
        rw [List.mem_singleton.1 h]
        exact fun hc => hc.elim hlt hgt

theorem not_isBracket_of_mem_escape {t : Text} {d : CodePoint} (h : d ∈ escape t) : ¬IsBracket d := by
  obtain ⟨c, -, h⟩ := List.mem_flatMap.1 h
  exact not_isBracket_of_mem_escapeChar h

namespace Reason

def all : List Reason := [term, exactAmount, begunAmount, amountInRange, wordBesideAmount]

theorem mem_all (reason : Reason) : reason ∈ all := by
  cases reason <;> decide

end Reason

/-- The tag that a mark of a style begins with. -/
def openTag (style : Text) : Text := "<mark class=\"".toText ++ style ++ "\">".toText

/-- The tag that a mark ends with. -/
def closeTag : Text := "</mark>".toText

/-- The tags that may come next, in a mark or outside of one. -/
def tags (inMark : Bool) : List Text := if inMark then [closeTag] else Reason.all.map fun reason => openTag reason.style

/-- What stands behind the tag at the start of a text, if it begins with one that may come next. -/
def afterTag? (inMark : Bool) (t : Text) : Option Text :=
  (tags inMark).findSome? fun tag => if tag.isPrefixOf t then some (t.drop tag.length) else none

theorem head?_of_mem_tags {inMark : Bool} {tag : Text} (h : tag ∈ tags inMark) :
    tag.head? = some ('<' : CodePoint) := by
  cases inMark <;> revert tag <;> decide

theorem length_afterTag?_lt {inMark : Bool} {t tail : Text} (h : afterTag? inMark t = some tail) :
    tail.length < t.length := by
  obtain ⟨tag, hmem, htail⟩ := List.exists_of_findSome?_eq_some h
  split at htail
  · rename_i hstarts
    cases htail
    have hle := (List.isPrefixOf_iff_prefix.1 hstarts).length_le
    have hpos : 0 < tag.length := by
      cases tag with
      | nil => cases head?_of_mem_tags hmem
      | cons c tag => exact Nat.succ_pos _
    rw [List.length_drop]
    omega
  · cases htail

/-- A marked text without its tags. None is left if a mark stands in another or is not closed, or if an angle
bracket stands outside of the tags. -/
def untag? (inMark : Bool) : Text → Option Text
  | [] => if inMark then none else some []
  | c :: rest =>
    match _h : afterTag? inMark (c :: rest) with
    | some tail => untag? (!inMark) tail
    | none => if IsBracket c then none else (untag? inMark rest).map (c :: ·)
termination_by t => t.length
decreasing_by
  · exact length_afterTag?_lt _h
  · exact Nat.lt_succ_self _

theorem afterTag?_cons {inMark : Bool} {c : CodePoint} (hc : ¬IsBracket c) (t : Text) :
    afterTag? inMark (c :: t) = none := by
  rw [afterTag?, List.findSome?_eq_none_iff]
  intro tag hmem
  rw [if_neg]
  intro hstarts
  obtain ⟨more, htag⟩ := List.isPrefixOf_iff_prefix.1 hstarts
  have hhead := head?_of_mem_tags hmem
  cases tag with
  | nil => cases hhead
  | cons d tag =>
    cases hhead
    cases htag
    exact hc (.inl rfl)

theorem untag?_cons {inMark : Bool} {c : CodePoint} (hc : ¬IsBracket c) (t : Text) :
    untag? inMark (c :: t) = (untag? inMark t).map (c :: ·) := by
  rw [untag?]
  split
  · rename_i tail htail
    rw [afterTag?_cons hc] at htail
    cases htail
  · rw [if_neg hc]

/-- No tag begins with another one that may stand in its place. -/
theorem eq_of_tag_opens {inMark : Bool} {tag tag' : Text} (h : tag ∈ tags inMark) (h' : tag' ∈ tags inMark)
    (hopens : tag <+: tag') : tag = tag' := by
  have hall : ∀ inMark, ∀ a ∈ tags inMark, ∀ b ∈ tags inMark, a.isPrefixOf b = true → a = b := by decide +kernel
  exact hall inMark tag h tag' h' (List.isPrefixOf_iff_prefix.2 hopens)

theorem afterTag?_tag {inMark : Bool} {tag : Text} (h : tag ∈ tags inMark) (tail : Text) :
    afterTag? inMark (tag ++ tail) = some tail := by
  have hstarts : tag.isPrefixOf (tag ++ tail) = true := List.isPrefixOf_iff_prefix.2 (List.prefix_append tag tail)
  cases hfound : afterTag? inMark (tag ++ tail) with
  | none =>
    have hnone := List.findSome?_eq_none_iff.1 hfound tag h
    rw [if_pos hstarts] at hnone
    cases hnone
  | some tail' =>
    obtain ⟨tag', hmem, htail⟩ := List.exists_of_findSome?_eq_some hfound
    split at htail
    · rename_i hstarts'
      have htag : tag' = tag := by
        rcases List.prefix_or_prefix_of_prefix (List.isPrefixOf_iff_prefix.1 hstarts')
          (List.prefix_append tag tail) with hopens | hopens
        · exact eq_of_tag_opens hmem h hopens
        · exact (eq_of_tag_opens h hmem hopens).symm
      rw [← htail, htag, List.drop_left]
    · cases htail

theorem untag?_tag {inMark : Bool} {tag : Text} (h : tag ∈ tags inMark) (tail : Text) :
    untag? inMark (tag ++ tail) = untag? (!inMark) tail := by
  have hafter := afterTag?_tag h tail
  cases tag with
  | nil => cases head?_of_mem_tags h
  | cons c tag =>
    rw [List.cons_append] at hafter ⊢
    rw [untag?]
    split
    · rename_i tail' htail
      rw [hafter] at htail
      cases htail
      rfl
    · rename_i hnone
      rw [hafter] at hnone
      cases hnone

theorem untag?_append {inMark : Bool} {s : Text} (hs : ∀ c ∈ s, ¬IsBracket c) (t : Text) :
    untag? inMark (s ++ t) = (untag? inMark t).map (s ++ ·) := by
  induction s with
  | nil => simp
  | cons c s ih =>
    obtain ⟨hc, hs⟩ := List.forall_mem_cons.1 hs
    rw [List.cons_append, untag?_cons hc, ih hs, Option.map_map]
    rfl

namespace Piece

/-- The piece of the given text. -/
def content : Piece → Text
  | plain content => content
  | marked _ content => content

/-- A mark holds something, and its style is that of a reason. -/
def IsProper : Piece → Prop
  | plain _ => True
  | marked style content => content ≠ [] ∧ ∃ reason : Reason, style = reason.style

theorem write_marked (style content : Text) :
    (marked style content).write = openTag style ++ escape content ++ closeTag := rfl

theorem untag?_write_append {p : Piece} (hp : p.IsProper) (t : Text) :
    untag? false (p.write ++ t) = (untag? false t).map (escape p.content ++ ·) := by
  cases p with
  | plain content => exact untag?_append (fun _ => not_isBracket_of_mem_escape) t
  | marked style content =>
    obtain ⟨-, reason, rfl⟩ := hp
    have hopen : openTag reason.style ∈ tags false := List.mem_map_of_mem reason.mem_all
    have hclose : closeTag ∈ tags true := List.mem_singleton_self closeTag
    rw [write_marked, List.append_assoc, List.append_assoc, untag?_tag hopen, Bool.not_false,
      untag?_append (fun _ => not_isBracket_of_mem_escape), untag?_tag hclose, Bool.not_true]
    rfl

theorem untag?_writes {ps : List Piece} (h : ∀ p ∈ ps, p.IsProper) :
    untag? false (ps.flatMap write) = some (escape (ps.flatMap content)) := by
  induction ps with
  | nil => simp [untag?, escape]
  | cons p ps ih =>
    obtain ⟨hp, hps⟩ := List.forall_mem_cons.1 h
    rw [List.flatMap_cons, untag?_write_append hp, ih hps, List.flatMap_cons, escape_append, Option.map_some]

end Piece

section Pieces

variable {text : Text}

theorem position_eq_toNat {length : Nat} {i : Int} (h0 : 0 ≤ i) (hi : i ≤ length) :
    Text.position length i = i.toNat := by
  unfold Text.position
  rw [if_neg (Int.not_lt.2 h0)]
  omega

theorem cut_append_cutFrom {start stop : Int} (h0 : 0 ≤ start) (hle : start ≤ stop) (hstop : stop ≤ text.length) :
    Text.cut text start stop ++ Text.cutFrom text stop = Text.cutFrom text start := by
  rw [Text.cut, Text.cutFrom, Text.cutFrom, position_eq_toNat h0 (Int.le_trans hle hstop),
    position_eq_toNat (Int.le_trans h0 hle) hstop]
  have hdrop : text.drop stop.toNat = (text.drop start.toNat).drop (stop.toNat - start.toNat) := by
    rw [List.drop_drop]
    congr 1
    omega
  rw [hdrop, List.take_append_drop]

theorem cut_ne_nil {start stop : Int} (h0 : 0 ≤ start) (hlt : start < stop) (hstop : stop ≤ text.length) :
    Text.cut text start stop ≠ [] := by
  rw [Text.cut, position_eq_toNat h0 (by omega), position_eq_toNat (by omega) hstop, ← List.length_pos_iff,
    List.length_take, List.length_drop]
  omega

/-- From a position on, pieces cut at spans behind it hold every character once. -/
theorem content_pieces {spans : List Span} (h : Laid text.length spans) {position : Int} (h0 : 0 ≤ position)
    (hposition : position ≤ text.length) (hbehind : ∀ s ∈ spans, position ≤ s.start) :
    (pieces text position spans).flatMap Piece.content = Text.cutFrom text position := by
  induction spans generalizing position with
  | nil => exact List.append_nil _
  | cons s rest ih =>
    obtain ⟨hfits, hfitsRest⟩ := List.forall_mem_cons.1 h.fits
    obtain ⟨hfilled, hfilledRest⟩ := List.forall_mem_cons.1 h.filled
    obtain ⟨hnext, hrest⟩ := List.pairwise_cons.1 h.inOrder
    have hstart := hbehind s List.mem_cons_self
    have hstop : 0 ≤ s.stop := by have := hfits.start_nonneg; omega
    rw [pieces, List.flatMap_cons, List.flatMap_cons,
      ih ⟨hfitsRest, hfilledRest, hrest⟩ hstop hfits.stop_le hnext]
    dsimp only [Piece.content]
    rw [cut_append_cutFrom hfits.start_nonneg (Int.le_of_lt hfilled) hfits.stop_le,
      cut_append_cutFrom h0 hstart (by have := hfits.stop_le; omega)]

theorem isProper_of_mem_pieces {spans : List Span} (h : Laid text.length spans) {position : Int} :
    ∀ p ∈ pieces text position spans, p.IsProper := by
  induction spans generalizing position with
  | nil => simp [pieces, Piece.IsProper]
  | cons s rest ih =>
    obtain ⟨hfits, hfitsRest⟩ := List.forall_mem_cons.1 h.fits
    obtain ⟨hfilled, hfilledRest⟩ := List.forall_mem_cons.1 h.filled
    have hrest : ∀ p ∈ pieces text s.stop rest, p.IsProper :=
      ih ⟨hfitsRest, hfilledRest, (List.pairwise_cons.1 h.inOrder).2⟩
    have hmark : (Piece.marked s.style (Text.cut text s.start s.stop)).IsProper :=
      ⟨cut_ne_nil hfits.start_nonneg hfilled hfits.stop_le, hfits.styled⟩
    exact List.forall_mem_cons.2 ⟨trivial, List.forall_mem_cons.2 ⟨hmark, hrest⟩⟩

end Pieces

/-- A marked text is made of the pieces of a text, and reads back as that text. -/
structure Lossless (text html : Text) : Prop where
  pieces : ∃ ps : List Piece, html = ps.flatMap Piece.write ∧ ps.flatMap Piece.content = text ∧ ∀ p ∈ ps, p.IsProper
  untagged : untag? false html = some (escape text)
  unescaped : unescape (escape text) = text

theorem lossless_pieces {text : Text} {ps : List Piece} (hcontent : ps.flatMap Piece.content = text)
    (hproper : ∀ p ∈ ps, p.IsProper) : Lossless text (ps.flatMap Piece.write) :=
  ⟨⟨ps, rfl, hcontent, hproper⟩, by rw [Piece.untag?_writes hproper, hcontent], unescape_escape text⟩

theorem lossless_highlight (mode : Mode) (text query : Text) : Lossless text (highlight mode text query) := by
  unfold highlight
  split
  · have h : Lossless text ([.plain text].flatMap Piece.write) :=
      lossless_pieces (List.append_nil text) (by simp [Piece.IsProper])
    simpa [Piece.write] using h
  · have hlaid := laid_marks mode text query
    refine lossless_pieces ?_ (isProper_of_mem_pieces hlaid)
    rw [content_pieces hlaid (Int.le_refl 0) (Int.natCast_nonneg _) fun s hs => (hlaid.fits s hs).start_nonneg]
    rfl

theorem fst_highlight_of_get?_eq_none {c : Cache} {mode : Mode} {text query : Text}
    (h : c.get? (c.key mode.name text query) = none) : (c.highlight mode text query).1 = highlight mode text query := by
  unfold Cache.highlight
  split
  · rename_i hidle
    rw [highlight, if_pos hidle]
  · simp only [h]

/-- A highlighter that remembers nothing loses nothing and lets nothing in. -/
theorem highlight_empty_lossless (capacity openingLength : Int) (mode : Mode) (text query : Text) :
    Lossless text ((Cache.empty capacity openingLength).highlight mode text query).1 := by
  rw [fst_highlight_of_get?_eq_none rfl]
  exact lossless_highlight mode text query

end LedgerSearch.Marking

import LedgerSearch.Proofs.BestField
import LedgerSearch.Proofs.Spacing

/-!
# The window of a snippet

A snippet of a long field is a window of its words, one for eight characters begun, that starts two words before the
first hit. A window of three words holds the hit (`IsFirstHit.mem_windowWords`); the shortest snippets that a
configuration admits have room for two words, and behind two others the hit is cut off (`IsFirstHit.window_eq_pair`).
A window that saves nothing gives way to the field as it was highlighted when it was found, which is the rendering of
another field where the cache does not tell the two apart (`html_of_bestMatch`).
-/

namespace LedgerSearch

namespace Text

variable {c : CodePoint} {g s t w : Text}

theorem infix_blank_cons_iff (hw : IsWord w) (hc : isBlank c = true) : w <:+: c :: t ↔ w <:+: t := by
  have hsides : w <:+: c :: t ↔ w <:+: [] ∨ w <:+: t := infix_append_cons_iff (w := []) (hw.notMem_of_isBlank hc)
  rw [hsides, List.infix_nil, or_iff_right hw.1]

theorem infix_gap_append_iff (hw : IsWord w) (hg : IsGap g) : w <:+: g ++ t ↔ w <:+: t := by
  induction g with
  | nil => rfl
  | cons c g ih =>
    obtain ⟨hc, hg⟩ := List.forall_mem_cons.1 hg
    rw [List.cons_append, infix_blank_cons_iff hw hc, ih hg]

theorem not_infix_gap (hw : IsWord w) (hg : IsGap g) : ¬w <:+: g := by
  have h := infix_gap_append_iff (t := []) hw hg
  rw [List.append_nil, List.infix_nil] at h
  exact mt h.1 hw.1

theorem infix_append_iff_of_startsBlank (hw : IsWord w) (hs : StartsBlank s) :
    w <:+: t ++ s ↔ w <:+: t ∨ w <:+: s := by
  cases s with
  | nil => rw [List.append_nil, List.infix_nil, or_iff_left hw.1]
  | cons c s =>
    have hc := hs c rfl
    rw [infix_append_cons_iff (hw.notMem_of_isBlank hc), infix_blank_cons_iff hw hc]

/-- A run without blanks stands inside of a word. -/
theorem infix_iff_exists_word (hw : IsWord w) (t : Text) : w <:+: t ↔ ∃ v ∈ words t, w <:+: v := by
  induction t using words_induction with
  | gap g hg =>
    rw [words_gap hg]
    exact iff_of_false (not_infix_gap hw hg) (by simp)
  | word g v s hg hv hs ih =>
    rw [List.append_assoc, infix_gap_append_iff hw hg, infix_append_iff_of_startsBlank hw hs, words_gap_append hg,
      words_word_append hv hs, List.exists_mem_cons_iff, ih]

theorem joinWith_suffix (separator : Text) (xs ys : List Text) :
    joinWith separator ys <:+ joinWith separator (xs ++ ys) := by
  by_cases hx : xs = []
  · rw [hx, List.nil_append]
  · by_cases hy : ys = []
    · rw [hy]
      exact List.nil_suffix
    · rw [joinWith_append hx hy]
      exact List.suffix_append _ _

/-- Joined pieces are longer than joined pieces that others follow. -/
theorem length_joinWith_lt {separator : Text} (hseparator : separator ≠ []) (xs : List Text) {ys zs : List Text}
    (hy : ys ≠ []) (hz : zs ≠ []) :
    (joinWith separator ys).length < (joinWith separator (xs ++ (ys ++ zs))).length := by
  have hle := (joinWith_suffix separator xs (ys ++ zs)).length_le
  have hpos := List.length_pos_iff.2 hseparator
  rw [joinWith_append hy hz, List.length_append, List.length_append] at hle
  omega

theorem length_stripStart_lt (hc : isBlank c = true) (t : Text) : (stripStart (c :: t)).length < (c :: t).length := by
  rw [stripStart, List.dropWhile_cons_of_pos hc]
  exact Nat.lt_succ_of_le (Query.length_stripStart_le t)

theorem length_singleSpaced_le (t : Text) : (singleSpaced t).length ≤ (stripStart t).length := by
  induction t using words_induction with
  | gap g hg =>
    rw [singleSpaced, words_gap hg]
    exact Nat.zero_le _
  | word g w s hg hw hs ih =>
    rw [List.append_assoc, stripStart_gap_append hg, stripStart_word_append hw, singleSpaced, words_gap_append hg,
      words_word_append hw hs, List.length_append]
    by_cases hnone : words s = []
    · rw [hnone]
      exact Nat.le_add_right _ _
    · obtain ⟨c, s, rfl⟩ := List.exists_cons_of_ne_nil (fun hnil : s = [] => hnone (by rw [hnil, words_nil]))
      -- the blank behind the word pays for the space before the next one
      have hlt := length_stripStart_lt (hs c rfl) s
      rw [joinWith_cons hnone, ← singleSpaced]
      simp only [List.length_append, List.length_singleton]
      omega

/-- The items behind a position, up to a number of them. -/
theorem cut_add {α : Type} (items : List α) (start count : Nat) :
    cut items start (start + count : Nat) = (items.drop start).take count := by
  rw [cut, position_ofNat, position_ofNat]
  rcases Nat.le_total start items.length with hle | hle
  · rw [Nat.min_eq_left hle, List.take_eq_take_iff, List.length_drop]
    omega
  · rw [Nat.min_eq_right hle, List.drop_length, List.drop_eq_nil_of_le hle, List.take_nil, List.take_nil]

end Text

namespace Marking

open Query (searchTerms)
open Text (IsWord joinWith lower words)

section FirstHit

variable {terms ws : List Text} {index n : Nat} {word : Text}

/-- The first of some words that holds a term. -/
structure IsFirstHit (terms ws : List Text) (index : Nat) (word : Text) : Prop where
  getElem?_eq : ws[index]? = some word
  holds : 0 < termsIn terms word
  before : ∀ v ∈ ws.take index, termsIn terms v = 0

theorem isFirstHit_iff : IsFirstHit terms ws index word ↔ firstHit? terms ws = some index ∧ ws[index]? = some word := by
  rw [firstHit?, List.findIdx?_eq_some_iff_getElem]
  constructor
  · intro h
    obtain ⟨hlt, rfl⟩ := List.getElem?_eq_some_iff.1 h.getElem?_eq
    refine ⟨⟨hlt, decide_eq_true h.holds, fun j hj => ?_⟩, h.getElem?_eq⟩
    have hmem : ws[j] ∈ ws.take index := List.mem_take_iff_getElem.2 ⟨j, by omega, rfl⟩
    simp [h.before _ hmem]
  · rintro ⟨⟨hlt, hholds, hbefore⟩, hword⟩
    obtain rfl : ws[index] = word := by rwa [List.getElem?_eq_getElem hlt, Option.some.injEq] at hword
    refine ⟨hword, of_decide_eq_true hholds, fun v hv => ?_⟩
    obtain ⟨j, hj, rfl⟩ := List.mem_take_iff_getElem.1 hv
    simpa using hbefore j (by omega)

theorem exists_isFirstHit (h : ∃ word ∈ ws, 0 < termsIn terms word) : ∃ index word, IsFirstHit terms ws index word := by
  obtain ⟨word, hmem, hholds⟩ := h
  cases hfirst : firstHit? terms ws with
  | none => simpa [hholds] using List.findIdx?_eq_none_iff.1 hfirst word hmem
  | some index =>
    obtain ⟨hlt, -⟩ := List.findIdx?_eq_some_iff_getElem.1 hfirst
    exact ⟨index, ws[index], isFirstHit_iff.2 ⟨hfirst, List.getElem?_eq_getElem hlt⟩⟩

theorem wordCount_ofNat (n : Nat) : wordCount n = ((n + 7) / 8 : Nat) := by
  rw [wordCount, Int.fdiv_eq_ediv_of_nonneg _ (by decide)]
  omega

/-- The words of a snippet, the first of which stands two before the hit. -/
def windowWords (ws : List Text) (index n : Nat) : List Text := (ws.drop (index - 2)).take ((n + 7) / 8)

theorem IsFirstHit.window_eq (h : IsFirstHit terms ws index word) (n : Nat) :
    window terms ws n = joinWith [' '] (windowWords ws index n) := by
  rw [window, (isFirstHit_iff.1 h).1, wordCount_ofNat]
  dsimp only [Option.getD_some]
  rw [← Int.natCast_add, Text.cut_add, windowWords]

/-- Two words before the hit leave it room among three, and one among two. -/
theorem IsFirstHit.mem_windowWords (h : IsFirstHit terms ws index word) (hadmitted : 10 ≤ n)
    (hroom : index < 2 ∨ 16 < n) : word ∈ windowWords ws index n := by
  refine List.mem_of_getElem? (i := index - (index - 2)) ?_
  rw [windowWords, List.getElem?_take_of_lt (by omega), List.getElem?_drop, ← h.getElem?_eq]
  congr 1
  omega

/-- Behind two other words the hit of the shortest snippets is cut off. -/
theorem IsFirstHit.windowWords_eq_pair (h : IsFirstHit terms ws index word) (hadmitted : 10 ≤ n) (hshort : n ≤ 16)
    (hbehind : 2 ≤ index) : ∃ pre v v' post, ws = pre ++ ([v, v'] ++ word :: post) ∧ pre.length + 2 = index ∧
      windowWords ws index n = [v, v'] ∧ termsIn terms v = 0 ∧ termsIn terms v' = 0 := by
  obtain ⟨k, rfl⟩ := Nat.exists_eq_add_of_le' hbehind
  obtain ⟨hlt, hword⟩ := List.getElem?_eq_some_iff.1 h.getElem?_eq
  have hdrop : ws.drop k = ws[k] :: ws[k + 1] :: word :: ws.drop (k + 3) := by
    rw [List.drop_eq_getElem_cons (by omega), List.drop_eq_getElem_cons (by omega), List.drop_eq_getElem_cons hlt, hword]
  have hzero : ∀ j (hj : j < k + 2), termsIn terms ws[j] = 0 := fun j hj =>
    h.before _ (List.mem_take_iff_getElem.2 ⟨j, by omega, rfl⟩)
  have hcount : (n + 7) / 8 = 2 := by omega
  refine ⟨ws.take k, ws[k], ws[k + 1], ws.drop (k + 3), ?_, ?_, ?_, hzero k (by omega), hzero (k + 1) (by omega)⟩
  · rw [List.cons_append, List.cons_append, List.nil_append, ← hdrop, List.take_append_drop]
  · rw [List.length_take, Nat.min_eq_left (by omega)]
  · rw [windowWords, hcount, Nat.add_sub_cancel, hdrop]
    rfl

end FirstHit

/-- What a reader sees of a marked text. -/
def plainText? (html : Text) : Option Text := (untag? false html).map unescape

/-- A reader of a marked text sees a word in it. -/
def Shows (html word : Text) : Prop := ∃ shown, plainText? html = some shown ∧ word <:+: shown

theorem plainText?_highlight (mode : Mode) (text query : Text) :
    plainText? (highlight mode text query) = some text := by
  have h := lossless_highlight mode text query
  rw [plainText?, h.untagged, Option.map_some, h.unescaped]

theorem shows_highlight_iff {mode : Mode} {text query word : Text} :
    Shows (highlight mode text query) word ↔ word <:+: text := by
  simp [Shows, plainText?_highlight]

section Snippet

variable {c s : Cache} {r : Record} {query word : Text} {m : FieldMatch} {index n openingLength : Nat}

/-- The field of a match was rendered anew. -/
def FieldMatch.IsFresh (m : FieldMatch) (query : Text) : Prop := m.html = highlight .text m.content query

/-- The calls that a highlighter may get in search of the best field of a record. -/
def fieldCalls (r : Record) (query : Text) (call : Call) : Prop := ∃ f ∈ fields r, call = ⟨.text, f.2, query⟩

theorem Cache.Renders.afterFields {calls : Call → Prop} (h : c.Renders calls) {fields : List Field}
    (hcalls : ∀ f ∈ fields, calls ⟨.text, f.2, query⟩) : (c.afterFields query fields).Renders calls ∧
      (c.afterFields query fields).openingLength = c.openingLength := by
  induction fields generalizing c with
  | nil => exact ⟨h, rfl⟩
  | cons f rest ih =>
    obtain ⟨hf, hrest⟩ := List.forall_mem_cons.1 hcalls
    obtain ⟨hrenders, hlength⟩ := h.step (s := .highlight ⟨.text, f.2, query⟩) (by rintro call ⟨⟩; exact hf)
    obtain ⟨hall, hsame⟩ := ih hrenders hrest
    exact ⟨hall, hsame.trans hlength⟩

/-- A highlighter that remembered nothing before it looked through the fields shows the best one as it is, or as a
field that it does not tell apart from it. -/
theorem html_of_bestMatch (hempty : c.entries = []) (hlength : c.openingLength = openingLength)
    (hm : (bestMatch c r query).1 = some m) : m.IsFresh query ∨ ∃ f ∈ fields r,
      Call.Meets openingLength ⟨.text, f.2, query⟩ ⟨.text, m.content, query⟩ ∧ m.html = highlight .text f.2 query := by
  obtain ⟨before, after, hfields, -, hhtml⟩ := leads_of_bestMatch hm
  have hcalls : ∀ f ∈ leaders (searchTerms query) 0 before, fieldCalls r query ⟨.text, f.2, query⟩ := by
    intro f hf
    refine ⟨f, ?_, rfl⟩
    rw [hfields]
    exact List.mem_append_left _ (leaders_subset _ _ _ hf)
  have hnone : c.Renders (fieldCalls r query) := by
    rw [Cache.Renders, hempty]
    exact List.forall_mem_nil _
  obtain ⟨hrenders, hsame⟩ := hnone.afterFields hcalls
  rcases hrenders.answer ⟨.text, m.content, query⟩ with hfresh | ⟨source, ⟨f, hf, rfl⟩, -, -, hkey, hsource⟩
  · exact .inl (hhtml.trans (Option.some.inj hfresh))
  · have hmeets := (Cache.keyOf_eq_iff (hsame.trans hlength)).1 hkey
    exact .inr ⟨f, hf, hmeets, hhtml.trans (Option.some.inj hsource)⟩

theorem fst_snippet (hempty : s.entries = []) (hlong : n < m.content.length)
    (hhit : IsFirstHit (searchTerms query) (words m.content) index word) :
    (snippet s m query n).1 =
      if (joinWith [' '] (windowWords (words m.content) index n)).length < m.content.length then
        highlight .text (joinWith [' '] (windowWords (words m.content) index n) ++ "...".toText) query
      else m.html := by
  have hget : ∀ key, s.get? key = none := by
    intro key
    rw [Cache.get?, hempty]
    rfl
  rw [snippet, if_neg (by omega), hhit.window_eq]
  dsimp only
  split
  · exact fst_highlight_of_get?_eq_none (hget _)
  · rfl

theorem exists_isFirstHit_of_bestMatch (hm : (bestMatch c r query).1 = some m) :
    ∃ index word, IsFirstHit (searchTerms query) (words m.content) index word := by
  obtain ⟨-, term, hterm, hfound⟩ := exists_hit_of_bestMatch hm
  rw [Text.infix_iff_exists_word (Query.isWord_of_mem_searchTerms hterm), Text.words_lower] at hfound
  obtain ⟨v, hv, hstands⟩ := hfound
  obtain ⟨word, hword, rfl⟩ := List.mem_map.1 hv
  exact exists_isFirstHit ⟨word, hword, termsIn_pos_iff.2 ⟨term, hterm, hstands⟩⟩

/-- A snippet of a match that is longer than it shows the first word that holds a term if that is one of the first two
words or the snippet has room for three, unless it saves nothing and the match was not rendered anew. Snippets with
room for two words show two without a term in place of a hit behind them. The match of a highlighter that remembered
nothing was rendered anew, or for a field that its cache does not tell apart from the best one. -/
theorem snippet_of_bestMatch (config : Engine.MarkingConfig) (hempty : s.entries = [])
    (hm : (bestMatch c r query).1 = some m) (hlong : config.snippetLength < m.content.length) :
    ∃ index word, IsFirstHit (searchTerms query) (words m.content) index word ∧
      (index < 2 ∨ 16 < config.snippetLength →
        Shows (snippet s m query config.snippetLength).1 word ∨
          (snippet s m query config.snippetLength).1 = m.html ∧ ¬m.IsFresh query) ∧
      (2 ≤ index → config.snippetLength ≤ 16 → ∃ pre v v' post,
        words m.content = pre ++ ([v, v'] ++ word :: post) ∧ pre.length + 2 = index ∧
        plainText? (snippet s m query config.snippetLength).1 = some (v ++ " ".toText ++ v' ++ "...".toText) ∧
        termsIn (searchTerms query) v = 0 ∧ termsIn (searchTerms query) v' = 0) ∧
      (∀ openingLength : Nat, c.entries = [] → c.openingLength = openingLength → m.IsFresh query ∨ ∃ f ∈ fields r,
        Call.Meets openingLength ⟨.text, f.2, query⟩ ⟨.text, m.content, query⟩ ∧
        m.html = highlight .text f.2 query) := by
  obtain ⟨index, word, hhit⟩ := exists_isFirstHit_of_bestMatch hm
  have hword := List.mem_of_getElem? hhit.getElem?_eq
  have hsnippet := fst_snippet hempty hlong hhit
  refine ⟨index, word, hhit, fun hroom => ?_, fun hbehind hshort => ?_, fun _ hc hlength => html_of_bestMatch hc hlength hm⟩
  · have hshown := hhit.mem_windowWords config.snippetLength_ge hroom
    rw [hsnippet]
    split
    case isTrue =>
      have hstands := (Text.infix_joinWith_iff (Text.isWord_of_mem_words hword) _).2 ⟨word, hshown, List.infix_rfl⟩
      exact .inl (shows_highlight_iff.2 (hstands.trans (List.prefix_append _ _).isInfix))
    case isFalse =>
      by_cases hfresh : m.IsFresh query
      · rw [hfresh]
        exact .inl (shows_highlight_iff.2 (Text.infix_of_mem_words hword))
      · exact .inr ⟨rfl, hfresh⟩
  · obtain ⟨pre, v, v', post, hwords, hpre, hwindow, hv, hv'⟩ :=
      hhit.windowWords_eq_pair config.snippetLength_ge hshort hbehind
    refine ⟨pre, v, v', post, hwords, hpre, ?_, hv, hv'⟩
    have hshorter : (joinWith [' '] [v, v']).length < m.content.length := by
      calc (joinWith [' '] [v, v']).length
          < (joinWith [' '] (words m.content)).length := by
            rw [hwords]
            exact Text.length_joinWith_lt (List.cons_ne_nil _ _) pre (List.cons_ne_nil _ _) (List.cons_ne_nil _ _)
        _ ≤ (Text.stripStart m.content).length := Text.length_singleSpaced_le m.content
        _ ≤ m.content.length := Query.length_stripStart_le m.content
    rw [hsnippet, hwindow, if_pos hshorter, plainText?_highlight]
    rfl

/-- The shortest snippets that a configuration admits. -/
def shortestSnippets : Engine.MarkingConfig :=
  { Engine.MarkingConfig.standard with snippetLength := 10, snippetLength_ge := Nat.le_refl 10 }

/-- A plan with a title of four words. -/
def framePlan : Record := Record.bare "1" "Oak frame and door" (.document ⟨"Plan".toText, "Ann".toText⟩)

/-- The second word of the title is shown. -/
theorem snippet_of_bestMatch_frame : ∃ m, (bestMatch shortestSnippets.cache framePlan "frame".toText).1 = some m ∧
    shortestSnippets.snippetLength < m.content.length ∧
    Shows (snippet shortestSnippets.cache m "frame".toText shortestSnippets.snippetLength).1 "frame".toText := by
  have hbest : (bestMatch shortestSnippets.cache framePlan "frame".toText).1.map (fun m => (m.content, m.html)) =
      some ("Oak frame and door".toText, highlight .text "Oak frame and door".toText "frame".toText) := by
    decide +kernel
  obtain ⟨m, hm, hmatch⟩ := Option.map_eq_some_iff.1 hbest
  obtain ⟨hcontent, hhtml⟩ := Prod.mk.inj hmatch
  have hlong : shortestSnippets.snippetLength < m.content.length := by rw [hcontent]; decide
  obtain ⟨index, word, hhit, hroom, -, -⟩ :=
    snippet_of_bestMatch (s := shortestSnippets.cache) shortestSnippets rfl hm hlong
  obtain ⟨hfirst, hword⟩ := isFirstHit_iff.1 hhit
  have hindex : firstHit? (searchTerms "frame".toText) (words m.content) = some 1 := by
    rw [hcontent]
    decide +kernel
  obtain rfl : 1 = index := Option.some.inj (hindex.symm.trans hfirst)
  obtain rfl : "frame".toText = word := by
    rw [hcontent] at hword
    exact Option.some.inj (Eq.trans (by decide) hword)
  refine ⟨m, hm, hlong, (hroom (.inl (by decide))).resolve_right fun hstale => hstale.2 ?_⟩
  rw [FieldMatch.IsFresh, hcontent, hhtml]

/-- The last word of the title is looked for, and a snippet with room for two words shows those before it. -/
theorem snippet_misses_door : ∃ m, (bestMatch shortestSnippets.cache framePlan "door".toText).1 = some m ∧
    shortestSnippets.snippetLength < m.content.length ∧
    IsFirstHit (searchTerms "door".toText) (words m.content) 3 "door".toText ∧
    ¬Shows (snippet shortestSnippets.cache m "door".toText shortestSnippets.snippetLength).1 "door".toText := by
  obtain ⟨m, hm, hcontent⟩ : ∃ m, (bestMatch shortestSnippets.cache framePlan "door".toText).1 = some m ∧
      m.content = "Oak frame and door".toText :=
    Option.map_eq_some_iff.1 (by decide +kernel)
  have hlong : shortestSnippets.snippetLength < m.content.length := by rw [hcontent]; decide
  have hhit : IsFirstHit (searchTerms "door".toText) (words m.content) 3 "door".toText := by
    rw [hcontent, isFirstHit_iff]
    decide +kernel
  refine ⟨m, hm, hlong, hhit, ?_⟩
  rw [fst_snippet rfl hlong hhit, hcontent, if_pos (by decide), shows_highlight_iff]
  decide

end Snippet
end Marking
end LedgerSearch

import LedgerSearch.Engine.Config
import LedgerSearch.Proofs.Markup

/-!
# When a cache shows

A cache knows a text by its opening and its length alone. Every text that it gives back was rendered for a call of
the same key (`Cache.Renders`), so as long as keys tell the texts of calls apart a highlighter with a cache answers
as one without. Two texts that meet under a key are rendered differently, for a rendering loses nothing, and the
second of them gets the rendering of the first: the cache shows exactly there (`answers_fresh_iff`).
-/

namespace LedgerSearch

namespace Entries

variable {κ α : Type} [BEq κ] [LawfulBEq κ]

theorem eq_or_mem_of_mem_put {key : κ} {value : α} {entries : Entries κ α} {p : κ × α}
    (h : p ∈ put key value entries) : p = (key, value) ∨ p ∈ entries := by
  induction entries with
  | nil => exact .inl (List.mem_singleton.1 h)
  | cons entry rest ih =>
    by_cases hk : entry.1 == key
    · simp only [put, if_pos hk] at h
      rcases List.mem_cons.1 h with rfl | h
      · exact .inl (Prod.ext (eq_of_beq hk) rfl)
      · exact .inr (List.mem_cons_of_mem _ h)
    · simp only [put, if_neg hk] at h
      rcases List.mem_cons.1 h with rfl | h
      · exact .inr List.mem_cons_self
      · exact (ih h).imp_right (List.mem_cons_of_mem _)

/-- An entry behind others is found if they have other keys. -/
theorem find?_append_single {key : κ} {entries : Entries κ α} (value : α) (h : find? key entries = none) :
    find? key (entries ++ [(key, value)]) = some value := by
  rw [← put_of_find?_eq_none value h, find?_put_self]

theorem find?_drop_eq_none {key : κ} {entries : Entries κ α} (count : Nat) (h : find? key entries = none) :
    find? key (entries.drop count) = none := by
  rw [find?_eq_none_iff] at h ⊢
  exact fun hmem => h ((List.drop_sublist count entries).map Prod.fst |>.mem hmem)

end Entries

namespace Marking

/-- A text to be highlighted for a query. -/
structure Call where
  mode : Mode
  text : Text
  query : Text
  deriving DecidableEq, Repr

/-- What a highlighter is asked to do. -/
inductive Step | highlight (call : Call) | clear deriving DecidableEq, Repr

namespace Call

/-- The highlighted text, rendered anew. -/
def fresh (call : Call) : Text := Marking.highlight call.mode call.text call.query

/-- The call looks for something, so that it goes to the cache. -/
def Active (call : Call) : Prop := isIdle call.text call.query = false

instance (call : Call) : Decidable call.Active := inferInstanceAs (Decidable (_ = false))

/-- A rendering tells of its text. -/
theorem text_eq_of_fresh_eq {a b : Call} (h : a.fresh = b.fresh) : a.text = b.text := by
  have ha := lossless_highlight a.mode a.text a.query
  have hb := lossless_highlight b.mode b.text b.query
  have hescape : some (escape a.text) = some (escape b.text) := by
    rw [← ha.untagged, ← hb.untagged]
    exact congrArg _ h
  rw [← ha.unescaped, Option.some.inj hescape, hb.unescaped]

end Call

/-- The answer to a step of a highlighter that remembers nothing. -/
def Step.fresh : Step → Option Text
  | highlight call => some call.fresh
  | clear => none

theorem Mode.name_injective {a b : Mode} (h : a.name = b.name) : a = b := by
  cases a <;> cases b <;> first | rfl | exact absurd h (by decide)

namespace Cache

def keyOf (c : Cache) (call : Call) : CacheKey := c.key call.mode.name call.text call.query

/-- The answer to a step, if it has one, and the cache afterwards. -/
def step (c : Cache) : Step → Option Text × Cache
  | .highlight call =>
    let (html, c) := c.highlight call.mode call.text call.query
    (some html, c)
  | .clear => (none, c.clear)

/-- The answers to steps that are done one after the other. -/
def answers (c : Cache) : List Step → List (Option Text)
  | [] => []
  | s :: rest => (c.step s).1 :: answers (c.step s).2 rest

variable {c : Cache}

theorem openingLength_put (c : Cache) (key : CacheKey) (value : Text) :
    (c.put key value).openingLength = c.openingLength := by
  unfold put
  split
  · rfl
  · split <;> rfl

theorem mem_of_mem_put {key : CacheKey} {value : Text} {p : CacheKey × Text} (h : p ∈ (c.put key value).entries) :
    p = (key, value) ∨ p ∈ c.entries := by
  unfold put at h
  split at h
  · exact .inr h
  · split at h
    · exact Entries.eq_or_mem_of_mem_put h
    · rcases List.mem_append.1 h with h | h
      · exact .inr (List.mem_of_mem_drop h)
      · exact .inl (List.mem_singleton.1 h)

/-- A cache that holds entries at all finds what was put last. -/
theorem get?_put_self (hcapacity : 0 < c.capacity) (key : CacheKey) (value : Text) :
    (c.put key value).get? key = some value := by
  unfold put
  rw [if_neg (Int.not_le.2 hcapacity)]
  split
  · exact Entries.find?_put_self key value c.entries
  · rename_i hnew
    have hnone : c.get? key = none := by simpa using hnew
    exact Entries.find?_append_single value (Entries.find?_drop_eq_none _ hnone)

/-- A call that looks for nothing does not go to the cache. -/
theorem highlight_of_idle {call : Call} (hidle : ¬call.Active) :
    c.highlight call.mode call.text call.query = (call.fresh, c) := by
  rw [Call.Active, Bool.not_eq_false] at hidle
  simp [highlight, Call.fresh, Marking.highlight, hidle]

theorem highlight_of_get?_eq_none {call : Call} (hactive : call.Active) (h : c.get? (c.keyOf call) = none) :
    c.highlight call.mode call.text call.query = (call.fresh, c.put (c.keyOf call) call.fresh) := by
  rw [keyOf] at h
  rw [Call.Active] at hactive
  simp [highlight, hactive, h, Call.fresh, keyOf]

theorem highlight_of_get?_eq_some {call : Call} {html : Text} (hactive : call.Active)
    (h : c.get? (c.keyOf call) = some html) : c.highlight call.mode call.text call.query = (html, c) := by
  rw [keyOf] at h
  rw [Call.Active] at hactive
  simp [highlight, hactive, h]

end Cache

/-- Two calls that a cache cannot tell apart: they differ at most in what follows the opening of their texts. -/
structure Call.Meets (openingLength : Nat) (a b : Call) : Prop where
  mode : a.mode = b.mode
  query : a.query = b.query
  length : a.text.length = b.text.length
  opening : a.text.take openingLength = b.text.take openingLength

namespace Cache

variable {c : Cache}

theorem keyOf_eq_iff {openingLength : Nat} (h : c.openingLength = openingLength) {a b : Call} :
    c.keyOf a = c.keyOf b ↔ Call.Meets openingLength a b := by
  simp only [keyOf, key, h, Text.cutTo_ofNat, CacheKey.mk.injEq]
  constructor
  · rintro ⟨hmode, hlength, hquery, hopening⟩
    exact ⟨Mode.name_injective hmode, hquery, hlength, hopening⟩
  · rintro ⟨hmode, hquery, hlength, hopening⟩
    exact ⟨congrArg Mode.name hmode, hlength, hquery, hopening⟩

theorem keyOf_put (c : Cache) (key : CacheKey) (value : Text) : (c.put key value).keyOf = c.keyOf := by
  funext call
  simp only [keyOf, Cache.key, openingLength_put]

variable {calls : Call → Prop}

/-- Every text in the cache was rendered for one of some calls, and stands under the key of that call. -/
def Renders (calls : Call → Prop) (c : Cache) : Prop :=
  ∀ p ∈ c.entries, ∃ call, calls call ∧ call.Active ∧ c.keyOf call = p.1 ∧ p.2 = call.fresh

theorem Renders.put (h : c.Renders calls) {call : Call} (hcall : calls call) (hactive : call.Active) :
    (c.put (c.keyOf call) call.fresh).Renders calls := by
  intro p hp
  rw [keyOf_put]
  rcases mem_of_mem_put hp with rfl | hp
  · exact ⟨call, hcall, hactive, rfl, rfl⟩
  · exact h p hp

/-- A step keeps the cache a cache of renderings, with openings of the same length. -/
theorem Renders.step (h : c.Renders calls) {s : Step} (hs : ∀ call, s = .highlight call → calls call) :
    (c.step s).2.Renders calls ∧ (c.step s).2.openingLength = c.openingLength := by
  cases s with
  | clear => exact ⟨List.forall_mem_nil _, rfl⟩
  | highlight call =>
    by_cases hactive : call.Active
    · cases hget : c.get? (c.keyOf call) with
      | none =>
        simp only [Cache.step, highlight_of_get?_eq_none hactive hget]
        exact ⟨h.put (hs call rfl) hactive, openingLength_put ..⟩
      | some html =>
        simp only [Cache.step, highlight_of_get?_eq_some hactive hget]
        exact ⟨h, trivial⟩
    · simp only [Cache.step, highlight_of_idle hactive]
      exact ⟨h, trivial⟩

/-- The answer to a call is rendered for that call, or for another one of the same key. -/
theorem Renders.answer (h : c.Renders calls) (call : Call) : (c.step (.highlight call)).1 = some call.fresh ∨
    ∃ source, calls source ∧ source.Active ∧ call.Active ∧ c.keyOf source = c.keyOf call ∧
      (c.step (.highlight call)).1 = some source.fresh := by
  by_cases hactive : call.Active
  · cases hget : c.get? (c.keyOf call) with
    | none => exact .inl (by simp only [Cache.step, highlight_of_get?_eq_none hactive hget])
    | some html =>
      obtain ⟨source, hsource, hsourceActive, hkey, hhtml⟩ := h _ (Entries.mem_of_find? hget)
      refine .inr ⟨source, hsource, hsourceActive, hactive, hkey, ?_⟩
      simp only [Cache.step, highlight_of_get?_eq_some hactive hget]
      exact congrArg some hhtml
  · exact .inl (by simp only [Cache.step, highlight_of_idle hactive])

/-- The keys of active calls tell their texts apart. -/
def TellsApart (openingLength : Nat) (calls : Call → Prop) : Prop :=
  ∀ a b, calls a → calls b → a.Active → b.Active → Call.Meets openingLength a b → a.text = b.text

theorem Renders.answer_fresh {openingLength : Nat} (h : c.Renders calls) (hlength : c.openingLength = openingLength)
    (hapart : TellsApart openingLength calls) {call : Call} (hcall : calls call) :
    (c.step (.highlight call)).1 = some call.fresh := by
  rcases h.answer call with hanswer | ⟨source, hsource, hsourceActive, hactive, hkey, hanswer⟩
  · exact hanswer
  · have hmeets := (keyOf_eq_iff hlength).1 hkey
    have htext := hapart source call hsource hcall hsourceActive hactive hmeets
    rw [hanswer, Call.fresh, hmeets.mode, htext, hmeets.query, ← Call.fresh]

theorem answers_of_tellsApart {openingLength : Nat} (h : c.Renders calls) (hlength : c.openingLength = openingLength)
    (hapart : TellsApart openingLength calls) {steps : List Step}
    (hsteps : ∀ call, .highlight call ∈ steps → calls call) : c.answers steps = steps.map Step.fresh := by
  -- every cache on the way holds renderings of these calls only, under keys with openings of one length
  induction steps generalizing c with
  | nil => rfl
  | cons s rest ih =>
    have hs : ∀ call, s = .highlight call → calls call := fun call hcall => hsteps call (hcall ▸ List.mem_cons_self)
    obtain ⟨hrenders, hlength'⟩ := h.step hs
    have hrest := ih hrenders (hlength'.trans hlength) fun call hcall => hsteps call (List.mem_cons_of_mem s hcall)
    have hfirst : (c.step s).1 = s.fresh := by
      cases s with
      | clear => rfl
      | highlight call => exact h.answer_fresh hlength hapart (hs call rfl)
    rw [answers, hfirst, hrest, List.map_cons]

/-- A cache without room stays empty. -/
theorem answers_of_disabled (hcapacity : c.capacity ≤ 0) (hempty : c.entries = []) (steps : List Step) :
    c.answers steps = steps.map Step.fresh := by
  have hget : ∀ key, c.get? key = none := fun key => by rw [get?, hempty]; rfl
  have hstep : ∀ s, c.step s = (s.fresh, c) := by
    intro s
    cases s with
    | clear => simp [Cache.step, clear, Step.fresh, ← hempty]
    | highlight call =>
      by_cases hactive : call.Active
      · simp [Cache.step, highlight_of_get?_eq_none hactive (hget _), put, hcapacity, Step.fresh]
      · simp [Cache.step, highlight_of_idle hactive, Step.fresh]
  induction steps with
  | nil => rfl
  | cons s rest ih => rw [answers, hstep, ih, List.map_cons]

/-- The second of two calls that meet gets the rendering of the first. -/
theorem answers_of_meets {openingLength : Nat} (hlength : c.openingLength = openingLength) (hcapacity : 0 < c.capacity)
    (hempty : c.entries = []) {a b : Call} (ha : a.Active) (hb : b.Active) (h : Call.Meets openingLength a b) :
    c.answers [.highlight a, .highlight b] = [some a.fresh, some a.fresh] := by
  have hget : c.get? (c.keyOf a) = none := by
    rw [get?, hempty]
    rfl
  have hfound : (c.put (c.keyOf a) a.fresh).get? ((c.put (c.keyOf a) a.fresh).keyOf b) = some a.fresh := by
    rw [keyOf_put, ← (keyOf_eq_iff hlength).2 h]
    exact get?_put_self hcapacity _ _
  simp only [answers, Cache.step, highlight_of_get?_eq_none ha hget, highlight_of_get?_eq_some hb hfound]

end Cache

open Cache

/-- A highlighter with a cache answers all runs of some calls as one without exactly if the cache has no room, or if
no two of these calls meet under a key with different texts. -/
theorem answers_fresh_iff (config : Engine.MarkingConfig) (calls : Call → Prop) :
    (∀ steps : List Step, (∀ call, .highlight call ∈ steps → calls call) →
      config.cache.answers steps = steps.map Step.fresh) ↔
    config.cacheSize = 0 ∨ TellsApart config.openingLength calls := by
  have hlength : config.cache.openingLength = config.openingLength := rfl
  constructor
  · intro h
    by_cases hsize : config.cacheSize = 0
    · exact .inl hsize
    refine .inr fun a b ha hb haActive hbActive hmeets => ?_
    have hcapacity : 0 < config.cache.capacity := Int.natCast_pos.2 (Nat.pos_of_ne_zero hsize)
    have hsteps : ∀ call, Step.highlight call ∈ [Step.highlight a, .highlight b] → calls call := by
      simp only [List.mem_cons, List.not_mem_nil, or_false, Step.highlight.injEq]
      rintro call (rfl | rfl)
      · exact ha
      · exact hb
    have hfresh := h _ hsteps
    rw [answers_of_meets hlength hcapacity rfl haActive hbActive hmeets] at hfresh
    simp only [List.map_cons, List.map_nil, Step.fresh, List.cons.injEq, Option.some.injEq, true_and, and_true]
      at hfresh
    exact Call.text_eq_of_fresh_eq hfresh
  · rintro (hsize | hapart) steps hsteps
    · exact answers_of_disabled (Int.natCast_nonpos_iff.2 hsize) rfl steps
    · have hrenders : config.cache.Renders calls := List.forall_mem_nil _
      exact answers_of_tellsApart hrenders hlength hapart hsteps

/-- A note of a hundred characters and one more word. -/
def longNote (word : String) : Call := ⟨.text, Text.fill 100 '-' ++ word.toText, "door".toText⟩

/-- Under the usual configuration a note without the word that is looked for is shown as another one that has it. -/
theorem answers_longNotes : Engine.MarkingConfig.standard.cache.answers
      [.highlight (longNote "door"), .highlight (longNote "wall")] =
        [some (longNote "door").fresh, some (longNote "door").fresh] ∧
    (longNote "door").fresh ≠ (longNote "wall").fresh := by
  constructor
  · exact answers_of_meets rfl (by decide) rfl (by decide +kernel) (by decide +kernel)
      ⟨rfl, rfl, by decide +kernel, by decide +kernel⟩
  · exact fun h => absurd (Call.text_eq_of_fresh_eq h) (by decide +kernel)

end Marking
end LedgerSearch

import LedgerSearch.Proofs.RangeSpellings
import LedgerSearch.Proofs.ScoredHits

/-!
# Tokens sorted into amounts and words

A query is taken apart token by token into lists that grow side by side. On the way each piece that has the shape of a
number is handed to the reader of whole texts, which refuses what it does not know. It knows every such piece
(`readRange_eq`, `readAmount_eq`), so a query is always taken apart, and what is kept from step to step (`Classified`) says
that no token is lost, moved or put into the wrong list (`classify_lossless`).
-/

namespace LedgerSearch

section Lists

variable {α β : Type}

/-- The pairs of two lists, if they have the same length. -/
def zipStrict? : List α → List β → Option (List (α × β))
  | [], [] => some []
  | a :: as, b :: bs => (zipStrict? as bs).map ((a, b) :: ·)
  | _, _ => none

/-- The third list consists of the first two, each in its order. -/
inductive Interleaves : List α → List α → List α → Prop
  | nil : Interleaves [] [] []
  | left (a : α) {as bs cs : List α} (h : Interleaves as bs cs) : Interleaves (a :: as) bs (a :: cs)
  | right (b : α) {as bs cs : List α} (h : Interleaves as bs cs) : Interleaves as (b :: bs) (b :: cs)

theorem zipStrict?_eq {R : α → β → Prop} {as : List α} {bs : List β} (h : List.Forall₂ R as bs) :
    zipStrict? as bs = some (as.zip bs) := by
  induction h with
  | nil => rfl
  | cons _ _ ih => rw [zipStrict?, ih]; rfl

namespace Interleaves

variable {as bs cs : List α}

theorem append_left (h : Interleaves as bs cs) (a : α) : Interleaves (as ++ [a]) bs (cs ++ [a]) := by
  induction h with
  | nil => exact .left a .nil
  | left d _ ih => exact .left d ih
  | right d _ ih => exact .right d ih

theorem append_right (h : Interleaves as bs cs) (b : α) : Interleaves as (bs ++ [b]) (cs ++ [b]) := by
  induction h with
  | nil => exact .right b .nil
  | left d _ ih => exact .left d ih
  | right d _ ih => exact .right d ih

/-- The parts of an interleaving that a partial function sets apart are told by it. -/
theorem filter_eq {f : α → Option β} {xs : List β} (h : Interleaves as bs cs)
    (has : List.Forall₂ (fun a x => f a = some x) as xs) (hbs : ∀ b ∈ bs, f b = none) :
    (cs.filterMap fun c => (f c).map fun x => (c, x)) = as.zip xs ∧ (cs.filter fun c => (f c).isNone) = bs := by
  induction h generalizing xs with
  | nil =>
    cases has
    exact ⟨rfl, rfl⟩
  | left a h ih =>
    cases has with
    | cons hx has =>
      obtain ⟨hpairs, hrest⟩ := ih has hbs
      simp [hx, hpairs, hrest]
  | right b h ih =>
    obtain ⟨hb, hbs⟩ := List.forall_mem_cons.1 hbs
    obtain ⟨hpairs, hrest⟩ := ih has hbs
    simp [hb, hpairs, hrest]

end Interleaves
end Lists

/-- The integer that is left of a number without its places, if the number is finite. -/
def Binary64.truncate? (x : Binary64) : Option Int := if h : x.isFinite = true then some (x.truncate h) else none

namespace Query

/-- The part of a text in front of its rest. -/
def front (t rest : Text) : Text := t.take (t.length - rest.length)

@[simp] theorem front_append (s rest : Text) : front (s ++ rest) rest = s := by
  simp [front]

/-- The number that a piece of a text is written for; a piece that is no number is refused. -/
def number (piece : Text) : Except Text Binary64 :=
  match Binary64.read? piece with
  | some x => .ok x
  | none => .error piece

theorem number_eq_ok {piece : Text} {x : Binary64} (h : Binary64.read? piece = some x) : number piece = .ok x := by
  rw [number, h]

/-- The piece at the start of a text that has the shape of a number, blanks aside. -/
def leadingPiece? (t : Text) : Option Text :=
  match Text.strip t with
  | '+' :: body => (Numeral.read? false body).map fun found => '+' :: front body found.2
  | body => (Numeral.read? false body).map fun found => front body found.2

/-- The piece at the start of a text, read as a number; one that is too great is none. -/
def readLeading (t : Text) : Except Text (Option Binary64) :=
  match leadingPiece? t with
  | none => .ok none
  | some piece => (number piece).map fun x => if x.isFinite then some x else none

/-- The amount that a token is written for. -/
def readAmount (token : Text) : Except Text (Option Binary64) :=
  let digits := dropNoise token
  if digits.contains '-' then .ok none else readLeading digits

/-- The piece and the number at the start of a text come from one numeral, behind a plus sign or without it. -/
theorem exists_leading (t : Text) : ∃ sign body : Text, (sign = [] ∨ sign = [('+' : CodePoint)]) ∧
    (leadingPiece? t = (Numeral.read? false body).map fun found => sign ++ front body found.2) ∧
    leadingNumber? t = (Numeral.read? false body).bind fun found =>
      if (found.1.value false).isFinite then some (found.1.value false) else none := by
  by_cases hplus : ∃ body : Text, Text.strip t = (('+' : CodePoint) :: body)
  · obtain ⟨body, hbody⟩ := hplus
    refine ⟨[('+' : CodePoint)], body, .inr rfl, ?_, ?_⟩
    · rw [leadingPiece?, hbody]
      rfl
    · simp only [leadingNumber?, hbody]
      cases Numeral.read? false body <;> rfl
  · refine ⟨[], Text.strip t, .inl rfl, ?_, ?_⟩
    · unfold leadingPiece?
      split
      case h_1 body hbody => exact absurd ⟨body, hbody⟩ hplus
      case h_2 => rfl
    · unfold leadingNumber?
      split
      case h_1 body hbody => exact absurd ⟨body, hbody⟩ hplus
      case h_2 =>
        dsimp only
        cases Numeral.read? false (Text.strip t) <;> rfl

theorem readLeading_eq (t : Text) : readLeading t = .ok (leadingNumber? t) := by
  obtain ⟨sign, body, hsign, hpiece, hnumber⟩ := exists_leading t
  rw [readLeading, hpiece, hnumber]
  cases hread : Numeral.read? false body with
  | none => rfl
  | some found =>
    obtain ⟨n, rest⟩ := found
    obtain ⟨s, rfl, hs⟩ := Numeral.exists_isNumeralText hread
    have hread? : Binary64.read? (sign ++ s) = some (n.value false) := by
      rcases hsign with rfl | rfl
      · exact hs.read?_eq.1
      · exact hs.read?_eq.2
    simp only [Option.map_some, front_append, number_eq_ok hread?]
    rfl

/-- No amount is refused. -/
theorem readAmount_eq (token : Text) : readAmount token = .ok (amount? token) := by
  simp only [readAmount, amount?, readLeading_eq]
  split <;> rfl

namespace RangeNotation

/-- The pieces of a text that are the bounds of a range at its start. -/
def pieces? (n : RangeNotation) (t : Text) : Option (Text × Text) :=
  (readBound? t).bind fun low => (n.separator low.2).bind fun back => (n.afterSign? back).bind fun body =>
    (readBound? body).map fun high => (front t low.2, front body high.2)

/-- The pieces of the first range in a text. -/
def findPieces? (n : RangeNotation) : Text → Option (Text × Text)
  | [] => none
  | c :: rest =>
    match n.pieces? (c :: rest) with
    | some pieces => some pieces
    | none => n.findPieces? rest

end RangeNotation

/-- The first range found whose bounds are in order, with the bounds read from their pieces. -/
def readRange (query : Text) : List RangeNotation → Except Text (Option PriceRange)
  | [] => .ok none
  | n :: rest =>
    match n.findPieces? query with
    | none => readRange query rest
    | some pieces => do
      let low ← number pieces.1
      let high ← number pieces.2
      if Binary64.le low high then return some ⟨low, high⟩ else readRange query rest

/-- The pieces are read as the values of the bounds. -/
def ReadAs (pieces : Text × Text) (bounds : Numeral × Numeral) : Prop :=
  number pieces.1 = .ok (bounds.1.value false) ∧ number pieces.2 = .ok (bounds.2.value false)

theorem number_front {t rest : Text} {n : Numeral} (h : readBound? t = some (n, rest)) :
    number (front t rest) = .ok (n.value false) := by
  obtain ⟨s, rfl, hs⟩ := exists_isNumeralText h
  rw [front_append]
  exact number_eq_ok hs.read?_eq.1

theorem RangeNotation.pieces?_readAs (n : RangeNotation) (t : Text) : Option.Rel ReadAs (n.pieces? t) (n.bounds? t) := by
  rw [bounds?_eq, pieces?]
  cases hlow : readBound? t with
  | none => exact .none
  | some low =>
    rw [Option.bind_some, Option.bind_some, upper?]
    cases n.separator low.2 with
    | none => exact .none
    | some back =>
      rw [Option.bind_some, Option.bind_some]
      cases n.afterSign? back with
      | none => exact .none
      | some body =>
        rw [Option.bind_some, Option.bind_some]
        cases hhigh : readBound? body with
        | none => exact .none
        | some high => exact .some ⟨number_front hlow, number_front hhigh⟩

theorem RangeNotation.findPieces?_readAs (n : RangeNotation) (t : Text) :
    Option.Rel ReadAs (n.findPieces? t) (n.find? t) := by
  induction t with
  | nil => exact .none
  | cons c t ih =>
    have hhere := n.pieces?_readAs (c :: t)
    rw [findPieces?, find?]
    revert hhere
    generalize n.pieces? (c :: t) = pieces
    generalize n.bounds? (c :: t) = bounds
    rintro (h | _)
    · exact .some h
    · exact ih

/-- No bound is refused. -/
theorem readRange_eq (query : Text) (ns : List RangeNotation) : readRange query ns = .ok (ns.findSome? fun n =>
    (n.find? query).bind fun bounds => between? (bounds.1.value false) (bounds.2.value false)) := by
  induction ns with
  | nil => rfl
  | cons n ns ih =>
    have hfound := n.findPieces?_readAs query
    rw [readRange, List.findSome?_cons]
    revert hfound
    generalize n.findPieces? query = pieces
    generalize n.find? query = bounds
    rintro (⟨hlow, hhigh⟩ | _)
    · simp only [hlow, hhigh, Outcome.ok_bind, Option.bind_some, between?, ih]
      split <;> rfl
    · exact ih

/-- What the tokens of a query have been sorted into, in the order in which they came. -/
structure TokenLists where
  amounts : List Binary64
  amountTokens : List Text
  textTokens : List Text
  range : Option PriceRange
  deriving DecidableEq

namespace TokenLists

def empty : TokenLists := ⟨[], [], [], none⟩

/-- One more token, at the end of the lists for amounts or of the list for words. -/
def add (l : TokenLists) (token : Text) : Except Text TokenLists := do
  match ← readAmount token with
  | none => return ⟨l.amounts, l.amountTokens, l.textTokens ++ [token], l.range⟩
  | some x => return ⟨l.amounts ++ [x], l.amountTokens ++ [token], l.textTokens, l.range⟩

def isEmpty (l : TokenLists) : Bool := l.amounts.isEmpty && l.textTokens.isEmpty && l.range.isNone

end TokenLists

/-- A query taken apart: a range alone, or its tokens one after the other. -/
def classify (query : Text) : Except Text TokenLists := do
  match ← readRange query rangeNotations with
  | some range => return ⟨[], [], [], some range⟩
  | none => (tokens query).foldlM TokenLists.add .empty

/-- The lists hold the tokens that were read. -/
structure Classified (read : List Text) (l : TokenLists) : Prop where
  interleaves : Interleaves l.amountTokens l.textTokens read
  amounts : List.Forall₂ (fun token x => amount? token = some x) l.amountTokens l.amounts
  words : ∀ token ∈ l.textTokens, amount? token = none
  range : l.range = none

theorem classified_empty : Classified [] .empty := ⟨.nil, .nil, List.forall_mem_nil _, rfl⟩

variable {read : List Text} {l : TokenLists}

/-- One more token is put at the end of the right lists. -/
theorem Classified.add (h : Classified read l) (token : Text) :
    ∃ l', l.add token = .ok l' ∧ Classified (read ++ [token]) l' := by
  rw [TokenLists.add, readAmount_eq, Outcome.ok_bind]
  cases hamount : amount? token with
  | none =>
    refine ⟨_, rfl, h.interleaves.append_right token, h.amounts, ?_, h.range⟩
    exact List.forall_mem_append.2 ⟨h.words, List.forall_mem_singleton.2 hamount⟩
  | some x =>
    refine ⟨_, rfl, h.interleaves.append_left token, ?_, h.words, h.range⟩
    exact List.rel_append h.amounts (.cons hamount .nil)

/-- All tokens are sorted, one after the other. -/
theorem Classified.foldlM (h : Classified read l) (more : List Text) :
    ∃ l', more.foldlM TokenLists.add l = .ok l' ∧ Classified (read ++ more) l' := by
  induction more generalizing read l with
  | nil => exact ⟨l, rfl, by rwa [List.append_nil]⟩
  | cons token more ih =>
    obtain ⟨next, hnext, hstep⟩ := h.add token
    obtain ⟨l', hl', hrun⟩ := ih hstep
    refine ⟨l', ?_, by simpa using hrun⟩
    rw [List.foldlM_cons, hnext, Outcome.ok_bind, hl']

theorem le_zero_of_amount? {token : Text} {x : Binary64} (h : amount? token = some x) :
    Binary64.le Binary64.zero x = true := by
  have hbound : ∀ n : Numeral, Binary64.IsBound (n.value false) := fun n => Binary64.isBound_ofDecimal _ _ _
  rw [amount?, Option.ite_none_left_eq_some] at h
  obtain ⟨sign, body, -, -, hnumber⟩ := exists_leading (dropNoise token)
  rw [hnumber, Option.bind_eq_some_iff] at h
  obtain ⟨-, found, -, hvalue⟩ := h
  rw [Option.ite_none_right_eq_some, Option.some.injEq] at hvalue
  rw [← hvalue.2]
  rcases hbound found.1 with heq | ⟨u, heq, -⟩ <;> rw [heq]
  · rfl
  · simp [Binary64.le, Binary64.zero, Binary64.signedUnits]

theorem isEmpty_moneyTokens_iff {t : Text} : (moneyTokens t).isEmpty = true ↔ Text.IsGap t := by
  constructor
  · intro h
    rw [← Text.words_eq_nil_iff]
    by_contra hne
    rw [isEmpty_moneyTokens hne] at h
    cases h
  · intro h
    rw [moneyTokens_congr (t := []) (Text.words_gap h)]
    rfl

theorem Classified.moneyTokens_eq {query : Text} (h : Classified (tokens query) l) (hrange : range? query = none) :
    moneyTokens query = ⟨l.amountTokens.zip l.amounts, l.textTokens, none⟩ := by
  obtain ⟨hpairs, hwords⟩ := h.interleaves.filter_eq h.amounts h.words
  simp only [moneyTokens, hrange, hpairs, hwords]

theorem Classified.isEmpty_eq (h : Classified read l) :
    l.isEmpty = (⟨l.amountTokens.zip l.amounts, l.textTokens, none⟩ : MoneyTokens).isEmpty := by
  have hzip : (l.amountTokens.zip l.amounts).isEmpty = l.amounts.isEmpty := by
    have hamounts := h.amounts
    generalize l.amountTokens = as at *
    generalize l.amounts = bs at *
    cases hamounts <;> rfl
  rw [TokenLists.isEmpty, MoneyTokens.isEmpty, hzip, h.range]

/-- Every query is taken apart without a fault. A range stands alone. Otherwise the amounts are those of their tokens, all
of them finite and none below zero, no other token is an amount, and the tokens of both kinds interleave to the tokens of
the query. Only a blank query leaves nothing, amounts and their tokens can be paired off, and the amount of each token has
an integer part. -/
theorem classify_lossless (query : Text) : ∃ l, classify query = .ok l ∧ l.range = range? query ∧
    (∀ range, l.range = some range → l.amounts = [] ∧ l.amountTokens = [] ∧ l.textTokens = []) ∧
    (l.range = none → l.amounts.length = l.amountTokens.length ∧
      List.Forall₂ (fun token x => readAmount token = .ok (some x) ∧ x.isFinite = true ∧
        Binary64.le Binary64.zero x = true) l.amountTokens l.amounts ∧
      (∀ token ∈ l.textTokens, readAmount token = .ok none) ∧
      Interleaves l.amountTokens l.textTokens (tokens query)) ∧
    (l.isEmpty = true ↔ Text.IsGap query) ∧
    (∃ pairs, zipStrict? l.amountTokens l.amounts = some pairs ∧ moneyTokens query = ⟨pairs, l.textTokens, l.range⟩) ∧
    ∀ token ∈ tokens query, ∃ found, readAmount token = .ok found ∧ ∀ x ∈ found, ∃ n, x.truncate? = some n := by
  have hinteger : ∀ token ∈ tokens query, ∃ found, readAmount token = .ok found ∧
      ∀ x ∈ found, ∃ n, x.truncate? = some n := by
    refine fun token _ => ⟨_, readAmount_eq token, fun x hx => ⟨x.truncate (isFinite_of_amount? hx), ?_⟩⟩
    exact dif_pos _
  have hread : readRange query rangeNotations = .ok (range? query) := readRange_eq query rangeNotations
  cases hrange : range? query with
  | some range =>
    have htokens : moneyTokens query = ⟨[], [], some range⟩ := by simp only [moneyTokens, hrange]
    have hempty : (⟨[], [], [], some range⟩ : TokenLists).isEmpty = true ↔ Text.IsGap query := by
      rw [← isEmpty_moneyTokens_iff, htokens]
      rfl
    refine ⟨⟨[], [], [], some range⟩, ?_, rfl, fun _ _ => ⟨rfl, rfl, rfl⟩,
      fun hnone => absurd hnone (Option.some_ne_none range), hempty, ⟨[], rfl, htokens⟩, hinteger⟩
    rw [classify, hread, hrange]
    rfl
  | none =>
    obtain ⟨l, hrun, h⟩ := classified_empty.foldlM (tokens query)
    rw [List.nil_append] at h
    have htokens := h.moneyTokens_eq hrange
    have hnone : ∀ range, l.range ≠ some range := by simp [h.range]
    refine ⟨l, ?_, h.range, fun range hsome => absurd hsome (hnone range), fun _ => ⟨h.amounts.length_eq.symm, ?_, ?_,
      h.interleaves⟩, ?_, ⟨_, zipStrict?_eq h.amounts, h.range ▸ htokens⟩, hinteger⟩
    · rw [classify, hread, hrange]
      exact hrun
    · refine h.amounts.imp fun token x hx => ⟨?_, isFinite_of_amount? hx, le_zero_of_amount? hx⟩
      rw [readAmount_eq, hx]
    · intro token htoken
      rw [readAmount_eq, h.words token htoken]
    · rw [h.isEmpty_eq, ← htokens, isEmpty_moneyTokens_iff]

/-- A sign and an exponent belong to an amount, letters behind a number are no part of it, and a hyphen makes a word. -/
example : (classify "$1,250 Drywall +2E3 43rd 7-".toText).toOption.map TokenLists.amountTokens =
    some ["$1,250".toText, "+2e3".toText, "43rd".toText] := by decide +kernel

end Query
end LedgerSearch

import LedgerSearch.Proofs.Leaves
import Mathlib.Data.List.Forall2

/-!
# What a money query sees

A query whose leaves all begin with a dollar sign asks for amounts alone. Every test and every score that such a
leaf uses looks at the visible amounts of a record, and none of them tells the two zeros apart; so two financial
records with the same amounts are found alike and scored alike, whatever else they hold.
-/

namespace LedgerSearch

namespace Binary64

variable {x y : Binary64}

/-- One number, or numbers that compare as equal. -/
def Same (x y : Binary64) : Prop := x = y ∨ eq x y = true

@[simp] theorem signedUnits_zero (negative : Bool) : signedUnits negative 0 = 0 := by
  cases negative <;> rfl

theorem eq_finite {s t : Bool} {u v : Nat} (h : eq (finite s u) (finite t v) = true) :
    (s = t ∧ u = v) ∨ (u = 0 ∧ v = 0) := by
  simp only [eq, le, Bool.and_eq_true, decide_eq_true_eq] at h
  cases s <;> cases t <;> simp [signedUnits] at h ⊢ <;> omega

theorem Same.eq_or_zeros (h : Same x y) : x = y ∨ ∃ s t, x = finite s 0 ∧ y = finite t 0 := by
  rcases h with h | h
  · exact .inl h
  · cases x with
    | nan => simp [eq, le] at h
    | infinite s =>
      cases y with
      | nan => simp [eq, le] at h
      | infinite t => cases s <;> cases t <;> simp [eq, le] at h ⊢
      | finite t v => simp_all [eq, le]
    | finite s u =>
      cases y with
      | nan => simp [eq, le] at h
      | infinite t => simp_all [eq, le]
      | finite t v =>
        rcases eq_finite h with ⟨rfl, rfl⟩ | ⟨rfl, rfl⟩
        · exact .inl rfl
        · exact .inr ⟨s, t, rfl, rfl⟩

/-- What does not tell the two zeros apart does not tell the same numbers apart. -/
theorem Same.congr {γ : Type} {p : Binary64 → γ} (h : Same x y) (hp : ∀ s t, p (finite s 0) = p (finite t 0)) :
    p x = p y := by
  rcases h.eq_or_zeros with rfl | ⟨s, t, rfl, rfl⟩
  · rfl
  · exact hp s t

theorem Same.le_left (h : Same x y) (a : Binary64) : le x a = le y a := by
  apply h.congr (p := fun x => le x a)
  intro s t
  cases a <;> simp [le]

theorem Same.le_right (h : Same x y) (a : Binary64) : le a x = le a y := by
  apply h.congr (p := fun x => le a x)
  intro s t
  cases a <;> simp [le]

theorem Same.eq_left (h : Same x y) (a : Binary64) : eq x a = eq y a := by
  rw [eq, eq, h.le_left, h.le_right]

theorem abs_ofUnits (s t : Bool) (num den : Nat) : abs (ofUnits s num den) = abs (ofUnits t num den) := by
  unfold ofUnits
  dsimp only
  split <;> rfl

theorem abs_zero_add (s t : Bool) (v : Nat) : abs (add (finite s 0) (finite t v)) = abs (ofUnits false v 1) := by
  have hunits : (signedUnits t v).natAbs = v := by cases t <;> simp [signedUnits]
  by_cases hst : s = t
  · simp only [add, if_pos hst, Nat.zero_add]
    exact abs_ofUnits s false v 1
  · simp only [add, if_neg hst, signedUnits_zero, Int.zero_add, ofSigned, hunits]
    exact abs_ofUnits _ false v 1

/-- The sign of a zero is lost where the size of a difference is taken. -/
theorem Same.abs_sub (h : Same x y) (a : Binary64) : abs (sub x a) = abs (sub y a) := by
  apply h.congr (p := fun x => abs (sub x a))
  intro s t
  cases a with
  | nan => rfl
  | infinite u => rfl
  | finite u v => exact (abs_zero_add s (!u) v).trans (abs_zero_add t (!u) v).symm

theorem Same.writePlain (h : Same x y) : x.writePlain = y.writePlain := by
  apply h.congr
  intro s t
  have hwhole : ∀ s, whole? (finite s 0) = some 0 := by
    intro s
    simp [whole?]
  simp [Binary64.writePlain, hwhole]

end Binary64

namespace Search

open Binary64 (Same)
open Query (MoneyTokens isClose admitsNumber)

/-- The amounts that a record shows: its total, then the total and the unit price of each line. -/
def visibleAmounts (f : Financial) : List Binary64 := (amounts f).map Prod.snd

/-- Amounts of one kind that are the same number. -/
def Alike (v w : AmountKind × Binary64) : Prop := v.1 = w.1 ∧ Same v.2 w.2

section Amount

variable {x y : Binary64}

theorem contains_same (range : PriceRange) (h : Same x y) : range.contains x = range.contains y := by
  rw [PriceRange.contains, PriceRange.contains, h.le_left, h.le_right]

theorem isClose_same (h : Same x y) (a tolerance : Binary64) : isClose x a tolerance = isClose y a tolerance := by
  rw [isClose, isClose, h.abs_sub]

theorem admitsNumber_same (token : Text) (h : Same x y) : admitsNumber token x = admitsNumber token y := by
  rw [admitsNumber, admitsNumber, h.writePlain]

theorem isVisibleMatch_same (a : Text × Binary64) (h : Same x y) : isVisibleMatch a x = isVisibleMatch a y := by
  rw [isVisibleMatch, isVisibleMatch, isClose_same h, admitsNumber_same a.1 h]

theorem distance_same (range : PriceRange) (h : Same x y) : distance range x = distance range y := by
  unfold distance
  simp only [h.abs_sub]

theorem proximity_same (range : PriceRange) (weight : Nat) (h : Same x y) :
    proximity range weight x = proximity range weight y := by
  rw [proximity, distance_same range h, proximity]

end Amount

variable {v w : AmountKind × Binary64}

theorem tierScore_alike (amount : Binary64) (h : Alike v w) : tierScore amount v = tierScore amount w := by
  obtain ⟨hkind, hsame⟩ := h
  simp only [tierScore, hkind, hsame.eq_left, isClose_same hsame]

theorem admittedScore_alike (token : Text) (h : Alike v w) : admittedScore token v = admittedScore token w := by
  obtain ⟨hkind, hsame⟩ := h
  rw [admittedScore, admittedScore, hkind, admitsNumber_same token hsame]

section Amounts

variable {vs ws : List (AmountKind × Binary64)}

theorem any_alike {p : AmountKind × Binary64 → Bool} (h : List.Forall₂ Alike vs ws)
    (hp : ∀ v w, Alike v w → p v = p w) : vs.any p = ws.any p := by
  induction h with
  | nil => rfl
  | cons hvw _ ih => rw [List.any_cons, List.any_cons, hp _ _ hvw, ih]

theorem map_alike {γ : Type} {p : AmountKind × Binary64 → γ} (h : List.Forall₂ Alike vs ws)
    (hp : ∀ v w, Alike v w → p v = p w) : vs.map p = ws.map p := by
  induction h with
  | nil => rfl
  | cons hvw _ ih => rw [List.map_cons, List.map_cons, hp _ _ hvw, ih]

theorem rangeScore_alike (range : PriceRange) (h : List.Forall₂ Alike vs ws) : rangeScore range vs = rangeScore range ws := by
  induction h with
  | nil => rfl
  | @cons v w _ _ hvw _ ih =>
    obtain ⟨hkind, hsame⟩ := hvw
    obtain ⟨k, x⟩ := v
    obtain ⟨l, y⟩ := w
    cases hkind
    rw [rangeScore, rangeScore, contains_same range hsame, proximity_same range _ hsame, ih]

theorem alike_amounts {f g : Financial} (h : List.Forall₂ Same (visibleAmounts f) (visibleAmounts g)) :
    List.Forall₂ Alike (amounts f) (amounts g) := by
  obtain ⟨htotal, hlines⟩ := List.forall₂_cons.1 h
  refine .cons ⟨rfl, htotal⟩ ?_
  generalize f.lineItems = items at *
  generalize g.lineItems = others at *
  induction items generalizing others with
  | nil =>
    cases others with
    | nil => exact .nil
    | cons other others => cases hlines
  | cons item items ih =>
    cases others with
    | nil => cases hlines
    | cons other others =>
      obtain ⟨hline, hrest⟩ := List.forall₂_cons.1 hlines
      obtain ⟨hprice, hrest⟩ := List.forall₂_cons.1 hrest
      exact .cons ⟨rfl, hline⟩ (.cons ⟨rfl, hprice⟩ (ih others hrest))

end Amounts

section Financial

variable {f g : Financial} (h : List.Forall₂ Alike (amounts f) (amounts g)) (t : MoneyTokens)
include h

theorem holdsRange_alike : holdsRange f t = holdsRange g t := by
  unfold holdsRange
  split
  · exact any_alike h fun v w hvw => contains_same _ hvw.2
  · rfl

theorem holdsAmount_alike : holdsAmount f t = holdsAmount g t := by
  have hclose : ∀ a, ((amounts f).any fun v => isClose v.2 a Query.cent) =
      (amounts g).any fun v => isClose v.2 a Query.cent :=
    fun a => any_alike h fun v w hvw => isClose_same hvw.2 a _
  have hadmits : ∀ token, ((amounts f).any fun v => admitsNumber token v.2) =
      (amounts g).any fun v => admitsNumber token v.2 :=
    fun token => any_alike h fun v w hvw => admitsNumber_same token hvw.2
  simp only [holdsAmount, hclose, hadmits]

theorem visibleScore_alike : visibleScore f t = visibleScore g t := by
  have hfound : ∀ k a, ((amounts f).any fun v => v.1 == k && isVisibleMatch a v.2) =
      (amounts g).any fun v => v.1 == k && isVisibleMatch a v.2 :=
    fun k a => any_alike h fun v w hvw => by rw [hvw.1, isVisibleMatch_same a hvw.2]
  have hequal : ∀ a, ((amounts f).any fun v => isVisibleMatch a v.2 && Binary64.eq v.2 a.2) =
      (amounts g).any fun v => isVisibleMatch a v.2 && Binary64.eq v.2 a.2 :=
    fun a => any_alike h fun v w hvw => by rw [isVisibleMatch_same a hvw.2, hvw.2.eq_left]
  simp only [visibleScore, hfound, hequal]

theorem amountScore_alike : amountScore f t = amountScore g t := by
  have htiers : ∀ a, (amounts f).map (tierScore a) = (amounts g).map (tierScore a) :=
    fun a => map_alike h fun v w => tierScore_alike a
  have hadmitted : ∀ token, (amounts f).map (admittedScore token) = (amounts g).map (admittedScore token) :=
    fun token => map_alike h fun v w => admittedScore_alike token
  simp only [amountScore, htiers, hadmitted]

end Financial

section Records

variable {r s : Record} {f g : Financial}

theorem holdsMoney_alike (hr : r.financial? = some f) (hs : s.financial? = some g)
    (h : List.Forall₂ Alike (amounts f) (amounts g)) (query : Text) : holdsMoney true r query = holdsMoney true s query := by
  simp only [holdsMoney, hr, hs, holdsRange_alike h, holdsAmount_alike h, Bool.not_true, Bool.false_and]

theorem moneyScore_alike (hr : r.financial? = some f) (hs : s.financial? = some g)
    (h : List.Forall₂ Alike (amounts f) (amounts g)) (query : Text) : moneyScore true r query = moneyScore true s query := by
  simp only [moneyScore, hr, hs, visibleScore_alike h, amountScore_alike h, rangeScore_alike _ h, if_true]

/-- A leaf that begins with a dollar sign is a query for amounts alone. -/
theorem isExplicit_of_dollar {text : Text} (h : (Text.strip text).head? = some ('$' : CodePoint)) :
    (Query.moneyQuery text).isExplicit = true := by
  cases hstrip : Text.strip text with
  | nil => simp [hstrip] at h
  | cons c rest =>
    rw [hstrip, List.head?_cons, Option.some.injEq] at h
    simp [Query.moneyQuery, hstrip, h]

/-- Queries that ask for amounts alone see nothing of a financial record but its visible amounts. -/
theorem holds_visibleAmounts (hr : r.details = .financial f) (hs : s.details = .financial g)
    (hsame : List.Forall₂ Same (visibleAmounts f) (visibleAmounts g)) {query : Text}
    (hleaves : ∀ leaf ∈ (Query.parse query).leaves, (Text.strip leaf).head? = some ('$' : CodePoint)) :
    (∃ b, holds r query = .ok b ∧ holds s query = .ok b) ∧ score r query = score s query := by
  have h := alike_amounts hsame
  have hfr : r.financial? = some f := by rw [Record.financial?, hr]
  have hfs : s.financial? = some g := by rw [Record.financial?, hs]
  have hqr : r.quickLink? = none := by rw [Record.quickLink?, hr]
  have hqs : s.quickLink? = none := by rw [Record.quickLink?, hs]
  have hleaf : ∀ leaf ∈ (Query.parse query).leaves, holdsLeaf r leaf = holdsLeaf s leaf := by
    intro leaf hmem
    have hexplicit := isExplicit_of_dollar (hleaves leaf hmem)
    rw [holdsLeaf_explicit hqr hexplicit, holdsLeaf_explicit hqs hexplicit, holdsMoney_alike hfr hfs h]
  have hscore : ∀ leaf ∈ (Query.parse query).leaves, leafScore r leaf = leafScore s leaf := by
    intro leaf hmem
    have hexplicit := isExplicit_of_dollar (hleaves leaf hmem)
    rw [leafScore_explicit hexplicit, leafScore_explicit hexplicit, moneyScore_alike hfr hfs h]
  constructor
  · obtain ⟨b, hb⟩ : ∃ b, holdsTree r (Query.parse query) = .ok b :=
      holdsTree_ok fun leaf hmem => ⟨_, holdsLeaf_explicit hqr (isExplicit_of_dollar (hleaves leaf hmem))⟩
    refine ⟨b, ?_, ?_⟩
    · simp only [holds, hqr, hb]
    · simp only [holds, hqs, ← holdsTree_congr hleaf, hb]
  · exact treeScore_congr hleaf hscore

def sampleLine (title unit : String) (quantity : Nat) (unitPrice : Binary64) : LineItem where
  id := "1".toText
  title := title.toText
  description := []
  quantity := Binary64.ofNat quantity
  unitOfMeasure := unit.toText
  unitPrice := unitPrice
  total := Binary64.ofNat 300
  kind := .labor
  costCode := .null
  costCodeName := .null
  costCodeCategory := .null
  costCodeCategoryName := .null
  flags := []

def billOf (line : LineItem) : Financial := ⟨.bill, line.total, Instant.epoch, none, [line], []⟩

def hoursLine : LineItem := sampleLine "Framing for 5 hours" "hours" 5 (.finite false 0)

def postLine : LineItem := sampleLine "Post" "" 1 (.finite true 0)

def sampleBill (title : String) (line : LineItem) : Record := Record.bare "1" title (.financial (billOf line))

theorem holds_visibleAmounts_hours : holds (sampleBill "$5" hoursLine) "$5 AND $300".toText = .ok false ∧
    holds (sampleBill "Posts" postLine) "$5 AND $300".toText = .ok false ∧
    score (sampleBill "$5" hoursLine) "$5 AND $300".toText = score (sampleBill "Posts" postLine) "$5 AND $300".toText := by
  have hsame : List.Forall₂ Same (visibleAmounts (billOf hoursLine)) (visibleAmounts (billOf postLine)) :=
    .cons (.inl rfl) (.cons (.inl rfl) (.cons (.inr (by decide)) .nil))
  have hleaves : ∀ leaf ∈ (Query.parse "$5 AND $300".toText).leaves,
      (Text.strip leaf).head? = some ('$' : CodePoint) := by decide +kernel
  obtain ⟨⟨b, hr, hs⟩, hscore⟩ :=
    holds_visibleAmounts (r := sampleBill "$5" hoursLine) (s := sampleBill "Posts" postLine) rfl rfl hsame hleaves
  have hvalue : (holds (sampleBill "$5" hoursLine) "$5 AND $300".toText).toOption = some false := by decide +kernel
  rw [hr] at hvalue
  cases hvalue
  exact ⟨hr, hs, hscore⟩

end Records

end Search
end LedgerSearch

import LedgerSearch.Proofs.SearchFaults
import LedgerSearch.Proofs.VisibleAmounts

/-!
# What no query sees

The identifier, the kind and the dates of a financial record take no part in a search, and neither do the identifiers
and the cost codes of its lines. The quantity of a line and its unit take part only in the money text of the line, and
only where a flag makes them monetary; so "5 hours" is no amount. Two financial records that differ in nothing else
(`Record.SeenAlike`) have the same searchable text, the same amounts and the same money texts, and every query finds
both or neither and scores them alike (`holds_seenAlike`).
-/

namespace LedgerSearch

open Binary64 (Same)

/-- Lines that differ in identifiers and cost codes alone, and in the quantity and its unit where these are not
monetary. -/
structure LineItem.SeenAlike (a b : LineItem) : Prop where
  title : a.title = b.title
  description : a.description = b.description
  unitPrice : Same a.unitPrice b.unitPrice
  total : Same a.total b.total
  kind : a.kind = b.kind
  flags : a.flags = b.flags
  quantity : a.isMonetary "quantity".toText = true → Same a.quantity b.quantity
  unitOfMeasure : a.isMonetary "unit_of_measure".toText = true → a.unitOfMeasure = b.unitOfMeasure

/-- Financial details of any kinds and dates whose lines are seen alike. -/
structure Financial.SeenAlike (f g : Financial) : Prop where
  totalValue : Same f.totalValue g.totalValue
  lineItems : List.Forall₂ LineItem.SeenAlike f.lineItems g.lineItems
  flags : f.flags = g.flags

/-- Financial records of any identifiers and dates whose details are seen alike. -/
structure Record.SeenAlike (r s : Record) : Prop where
  title : r.title = s.title
  summary : r.summary = s.summary
  project : r.project = s.project
  client : r.client = s.client
  status : r.status = s.status
  tags : r.tags = s.tags
  metadata : r.metadata = s.metadata
  details : ∃ f g, r.details = .financial f ∧ s.details = .financial g ∧ f.SeenAlike g

namespace Search

open Query (MoneyTokens)

/-- What a filter of keys keeps is the same where only the values of other keys differ. -/
theorem map_filter_keys {p : Text → Bool} {xs ys : Entries Text Text}
    (h : List.Forall₂ (fun x y => x.1 = y.1 ∧ (p x.1 = true → x.2 = y.2)) xs ys) :
    (xs.filter fun x => p x.1).map Prod.snd = (ys.filter fun y => p y.1).map Prod.snd := by
  induction h with
  | nil => rfl
  | @cons x y _ _ hxy _ ih =>
    obtain ⟨hkey, hvalue⟩ := hxy
    rw [List.filter_cons, List.filter_cons, ← hkey]
    cases hp : p x.1 with
    | false => exact ih
    | true =>
      rw [if_pos rfl, if_pos rfl, List.map_cons, List.map_cons, hvalue hp, ih]

section Line

variable {a b : LineItem} (h : a.SeenAlike b)
include h

theorem isMonetary_seenAlike : a.isMonetary = b.isMonetary := by
  funext field
  rw [LineItem.isMonetary, LineItem.isMonetary, h.flags]

theorem lineFields_seenAlike : List.Forall₂ (fun x y => x.1 = y.1 ∧ (a.isMonetary x.1 = true → x.2 = y.2))
    (lineFields a) (lineFields b) := by
  apply List.Forall₂.cons ⟨rfl, fun _ => h.title⟩
  apply List.Forall₂.cons ⟨rfl, fun _ => h.description⟩
  apply List.Forall₂.cons ⟨rfl, fun hflag => (h.quantity hflag).writePlain⟩
  apply List.Forall₂.cons ⟨rfl, fun hflag => h.unitOfMeasure hflag⟩
  apply List.Forall₂.cons ⟨rfl, fun _ => h.unitPrice.writePlain⟩
  apply List.Forall₂.cons ⟨rfl, fun _ => h.total.writePlain⟩
  apply List.Forall₂.cons ⟨rfl, fun _ => congrArg LineItemKind.name h.kind⟩
  exact .nil

theorem moneyText_seenAlike : moneyText a = moneyText b := by
  rw [moneyText, moneyText, map_filter_keys (lineFields_seenAlike h), isMonetary_seenAlike h]

theorem parts_line_seenAlike : a.parts = b.parts := by
  rw [LineItem.parts, LineItem.parts, h.title, h.description, h.kind]

end Line

section Financial

variable {f g : Financial} (h : f.SeenAlike g)
include h

theorem amounts_seenAlike : List.Forall₂ Alike (amounts f) (amounts g) := by
  apply List.Forall₂.cons ⟨rfl, h.totalValue⟩
  apply List.rel_flatMap h.lineItems
  intro a b hab
  exact .cons ⟨rfl, hab.total⟩ (.cons ⟨rfl, hab.unitPrice⟩ .nil)

theorem moneyTexts_seenAlike : f.lineItems.map moneyText = g.lineItems.map moneyText := by
  have hmap := List.rel_map (P := Eq) (fun _ _ hab => moneyText_seenAlike hab) h.lineItems
  rwa [List.forall₂_eq_eq_eq] at hmap

theorem parts_financial_seenAlike : f.lineItems.flatMap LineItem.parts = g.lineItems.flatMap LineItem.parts := by
  have hmap := List.rel_map (P := Eq) (fun _ _ hab => parts_line_seenAlike hab) h.lineItems
  rw [List.forall₂_eq_eq_eq] at hmap
  rw [List.flatMap_def, List.flatMap_def, hmap]

theorem holdsLine_seenAlike (t : MoneyTokens) : holdsLine f t = holdsLine g t := by
  have hany : ∀ items : List LineItem, (items.any fun item => t.words.all fun word => Text.occursIn word (moneyText item)) =
      (items.map moneyText).any fun text => t.words.all fun word => Text.occursIn word text := by
    intro items
    rw [List.any_map]
    rfl
  rw [holdsLine, holdsLine, hany, hany, moneyTexts_seenAlike h]

theorem isMonetary_financial_seenAlike : f.isMonetary = g.isMonetary := by
  funext field
  rw [Financial.isMonetary, Financial.isMonetary, h.flags]

end Financial

section Records

variable {r s : Record} (h : r.SeenAlike s)
include h

theorem parts_seenAlike : r.parts = s.parts := by
  obtain ⟨f, g, hr, hs, hfg⟩ := h.details
  simp only [Record.parts, Details.parts, hr, hs, h.title, h.summary, h.project, h.client, h.status, h.tags, h.metadata,
    parts_financial_seenAlike hfg]

theorem haystack_seenAlike : haystack r = haystack s := by
  rw [haystack, haystack, parts_seenAlike h]

theorem holdsWords_seenAlike (text : Text) : holdsWords r text = holdsWords s text := by
  obtain ⟨f, g, hr, hs, -⟩ := h.details
  simp only [holdsWords, Record.quickLink?, hr, hs, haystack_seenAlike h]

theorem textScore_seenAlike (text : Text) : textScore r text = textScore s text := by
  rw [textScore, textScore, h.title, h.summary, haystack_seenAlike h]

theorem holdsMoney_seenAlike (explicit : Bool) (text : Text) : holdsMoney explicit r text = holdsMoney explicit s text := by
  obtain ⟨f, g, hr, hs, hfg⟩ := h.details
  have hamounts := amounts_seenAlike hfg
  simp only [holdsMoney, Record.financial?, hr, hs, holdsRange_alike hamounts, holdsAmount_alike hamounts,
    holdsLine_seenAlike hfg]

theorem moneyWordScore_seenAlike {f g : Financial} (hfg : f.SeenAlike g) (ws : List Text) :
    moneyWordScore r f ws = moneyWordScore s g ws := by
  have hlines : ∀ items : List LineItem, (items.map fun item => 50 * wordsFound ws (moneyText item)) =
      (items.map moneyText).map fun text => 50 * wordsFound ws text := by
    intro items
    rw [List.map_map]
    rfl
  rw [moneyWordScore, moneyWordScore, hlines, hlines, moneyTexts_seenAlike hfg, isMonetary_financial_seenAlike hfg,
    h.title, h.summary]

theorem moneyScore_seenAlike (explicit : Bool) (text : Text) : moneyScore explicit r text = moneyScore explicit s text := by
  obtain ⟨f, g, hr, hs, hfg⟩ := h.details
  have hamounts := amounts_seenAlike hfg
  simp only [moneyScore, Record.financial?, hr, hs, visibleScore_alike hamounts, amountScore_alike hamounts,
    rangeScore_alike _ hamounts, moneyWordScore_seenAlike h hfg]

theorem holdsLeaf_seenAlike (text : Text) : holdsLeaf r text = holdsLeaf s text := by
  obtain ⟨f, g, hr, hs, -⟩ := h.details
  simp only [holdsLeaf, Record.quickLink?, hr, hs, holdsMoney_seenAlike h, holdsWords_seenAlike h]

theorem leafScore_seenAlike (text : Text) : leafScore r text = leafScore s text := by
  simp only [leafScore, moneyScore_seenAlike h, textScore_seenAlike h]

/-- No query of any kind tells two financial records apart by their identifiers, kinds, dates and cost codes, or by the
quantities and units of lines that are not flagged as monetary. -/
theorem holds_seenAlike (query : Text) :
    (∃ b, holds r query = .ok b ∧ holds s query = .ok b) ∧ score r query = score s query := by
  obtain ⟨f, g, hr, hs, -⟩ := h.details
  have htext : r.IsTextual := isTextual_of_financial hr
  have hlinks : r.quickLink? = none ∧ s.quickLink? = none := by simp [Record.quickLink?, hr, hs]
  constructor
  · obtain ⟨b, hb⟩ := holds_ok htext query
    refine ⟨b, hb, ?_⟩
    rw [holds_eq_holdsTree hlinks.1] at hb
    rw [holds_eq_holdsTree hlinks.2, ← holdsTree_congr fun leaf _ => holdsLeaf_seenAlike h leaf, hb]
  · exact treeScore_congr (fun leaf _ => holdsLeaf_seenAlike h leaf) fun leaf _ => leafScore_seenAlike h leaf

end Records

/-- A line of hours of work, the unit of which is flagged as monetary. -/
def crewLine (id : String) (hours : Nat) : LineItem :=
  { sampleLine "Framing" "hrs." hours (.finite false 0) with
    id := id.toText
    flags := [("unit_of_measure".toText, .monetary)] }

def crewRecord (id : String) (kind : FinancialKind) (due : Option Instant) (hours : Nat) : Record :=
  Record.bare id "Frame" (.financial ⟨kind, Binary64.ofNat 300, Instant.epoch, due, [crewLine id hours], []⟩)

def crewBill : Record := crewRecord "1" .bill none 5

def crewReceipt : Record := crewRecord "2" .receipt (some Instant.epoch) 8

/-- The hours of either record are no amount, and the flagged unit is found in both. -/
theorem holds_seenAlike_crew : crewBill.SeenAlike crewReceipt ∧
    holds crewBill "$5 OR 5 OR 8".toText = .ok false ∧ holds crewReceipt "$5 OR 5 OR 8".toText = .ok false ∧
    holds crewBill "$5 OR hrs.".toText = .ok true ∧ holds crewReceipt "$5 OR hrs.".toText = .ok true ∧
    score crewBill "$5 OR hrs.".toText = score crewReceipt "$5 OR hrs.".toText := by
  have hline : (crewLine "1" 5).SeenAlike (crewLine "2" 8) :=
    ⟨rfl, rfl, .inl rfl, .inl rfl, rfl, rfl, fun hflag => absurd hflag (by decide), fun _ => rfl⟩
  have halike : crewBill.SeenAlike crewReceipt :=
    ⟨rfl, rfl, rfl, rfl, rfl, rfl, rfl, _, _, rfl, rfl, .inl rfl, .cons hline .nil, rfl⟩
  obtain ⟨⟨a, hra, hsa⟩, -⟩ := holds_seenAlike halike "$5 OR 5 OR 8".toText
  obtain ⟨⟨b, hrb, hsb⟩, hscore⟩ := holds_seenAlike halike "$5 OR hrs.".toText
  have hhours : (holds crewBill "$5 OR 5 OR 8".toText).toOption = some false := by decide +kernel
  have hunit : (holds crewBill "$5 OR hrs.".toText).toOption = some true := by decide +kernel
  rw [hra] at hhours
  rw [hrb] at hunit
  cases hhours
  cases hunit
  exact ⟨halike, hra, hsa, hrb, hsb, hscore⟩

/-- Without the flag the unit of a line is not found. -/
example : (holds (sampleBill "Frame" (sampleLine "Framing" "hrs." 5 (.finite false 0))) "$5 OR hrs.".toText).toOption =
    some false := by decide +kernel

end Search
end LedgerSearch

import LedgerSearch.Proofs.Results
import LedgerSearch.Proofs.TextFields

/-!
# What can stop a search

Over records whose searchable texts and facet values exist (`AreReadable`) a valid request leaves one thing that can
stop a search: a record that it keeps cannot be scored (`search_ok_iff_scored`), and no score fails but for a proximity
that is no number (`failsOnlyAs_search`).
-/

namespace LedgerSearch

namespace Search

open Outcome
open Query (Tree)

variable {r : Record} {now : Instant}

theorem holds_ok (htext : r.IsTextual) (query : Text) : ∃ b, holds r query = .ok b := by
  unfold holds
  split
  · exact ⟨_, rfl⟩
  · exact holdsTree_ok fun leaf _ => holdsLeaf_ok htext leaf

theorem textScore_ok (htext : r.IsTextual) (query : Text) : ∃ points, textScore r query = .ok points := by
  unfold textScore
  split
  · exact ⟨0, rfl⟩
  · exact map_ok_iff.2 (haystack_ok htext)

theorem failsOnlyAs_roundHalfUp (x : Binary64) : FailsOnlyAs .undefinedProximity (roundHalfUp x) := by
  unfold roundHalfUp
  generalize Binary64.floor? _ = whole
  cases whole with
  | none =>
    rintro fault ⟨⟩
    rfl
  | some n => exact .of_ok ⟨n.toNat, rfl⟩

theorem failsOnlyAs_rangeScore (range : PriceRange) (vs : List (AmountKind × Binary64)) :
    FailsOnlyAs .undefinedProximity (rangeScore range vs) := by
  induction vs with
  | nil => exact .of_ok ⟨0, rfl⟩
  | cons v rest ih =>
    rw [rangeScore]
    split
    · exact (failsOnlyAs_roundHalfUp _).bind fun _ _ => ih.bind fun _ _ => .of_ok ⟨_, rfl⟩
    · exact ih

theorem failsOnlyAs_pointsInRange (f : Financial) (t : Query.MoneyTokens) :
    FailsOnlyAs .undefinedProximity (pointsInRange f t) := by
  rw [pointsInRange]
  split
  · exact failsOnlyAs_rangeScore _ _
  · exact .of_ok ⟨0, rfl⟩

theorem failsOnlyAs_moneyScore (explicit : Bool) (r : Record) (query : Text) :
    FailsOnlyAs .undefinedProximity (moneyScore explicit r query) := by
  cases hf : r.financial? with
  | none => exact .of_ok ⟨0, moneyScore_of_none hf explicit query⟩
  | some f =>
    rw [moneyScore_eq_map hf]
    split
    · exact .of_ok ⟨0, rfl⟩
    · exact (failsOnlyAs_pointsInRange f _).map

theorem failsOnlyAs_leafScore (htext : r.IsTextual) (text : Text) :
    FailsOnlyAs .undefinedProximity (leafScore r text) := by
  cases hexplicit : (Query.moneyQuery text).isExplicit with
  | true =>
    rw [leafScore_explicit hexplicit]
    exact failsOnlyAs_moneyScore true r _
  | false =>
    rw [leafScore_eq_combine hexplicit]
    apply FailsOnlyAs.combine (.of_ok (textScore_ok htext text))
    split
    · exact failsOnlyAs_moneyScore false r text
    · exact .of_ok ⟨0, rfl⟩

theorem failsOnlyAs_treeScore (htext : r.IsTextual) (tree : Tree) :
    FailsOnlyAs .undefinedProximity (treeScore r tree) := by
  induction tree with
  | leaf text => exact failsOnlyAs_leafScore htext text
  | node op left right ihl ihr =>
    cases op with
    | both => exact ihl.combine ihr
    | either => exact ihl.combine ihr
    | without =>
      obtain ⟨b, hb⟩ : ∃ b, holdsTree r right = .ok b := holdsTree_ok fun leaf _ => holdsLeaf_ok htext leaf
      rw [treeScore_without hb]
      exact ihl.map
  | negation operand ih => exact ih.bind fun _ _ => .of_ok ⟨_, rfl⟩

theorem passesKey_ok (h : ∀ key, ∃ v, countedValue now key r = .ok v) (name : Text) (values : List Value) :
    ∃ b, passesKey now r name values = .ok b := by
  cases hname : FacetKey.ofName? name with
  | none => exact ⟨false, by rw [passesKey, hname]⟩
  | some key =>
    obtain ⟨v, hv⟩ := h key
    obtain ⟨value, hvalue, hv⟩ := bind_eq_ok.1 hv
    rw [passesKey, hname]
    dsimp only
    rw [hvalue, ok_bind]
    cases value with
    | none => exact ⟨false, rfl⟩
    | some p =>
      obtain ⟨w, hw, -⟩ := map_eq_ok.1 hv
      exact ⟨values.contains w, by simp only [hw, ok_bind, pure_eq_ok]⟩

theorem passes_ok (h : ∀ key, ∃ v, countedValue now key r = .ok v) (selections : Selections) :
    ∃ b, passes now r selections = .ok b := by
  induction selections with
  | nil => exact ⟨true, rfl⟩
  | cons selection rest ih =>
    obtain ⟨name, values⟩ := selection
    rw [passes]
    split
    · exact ih
    · obtain ⟨b, hb⟩ := passesKey_ok h name values
      rw [hb, ok_bind]
      cases b with
      | false => exact ⟨false, rfl⟩
      | true => exact ih

theorem mem_of_foldl_least {values : List Value} {first : Value} :
    values.foldl (fun least v => if Value.isBelow v least then v else least) first ∈ first :: values := by
  induction values generalizing first with
  | nil => exact List.mem_cons_self
  | cons v rest ih =>
    rw [List.foldl_cons]
    split
    · exact List.mem_cons_of_mem first ih
    · rcases List.mem_cons.1 (@ih first) with h | h
      · rw [h]
        exact List.mem_cons_self
      · exact List.mem_cons_of_mem first (List.mem_cons_of_mem v h)

/-- The least of some texts is one of them. -/
theorem least?_ok {values : List Value} (h : ∀ v ∈ values, v.text?.isSome = true) :
    ∃ least, least? values = .ok least ∧ ∀ v ∈ least, v ∈ values := by
  have hordered : (values.all fun a => values.all fun b => a == b || (Value.le? a b).isSome) = true := by
    simp only [List.all_eq_true, Bool.or_eq_true]
    intro a ha b hb
    exact .inr (Value.le?_isSome_iff.2 (.inl ⟨h a ha, h b hb⟩))
  unfold least?
  rw [if_pos hordered]
  cases values with
  | nil => exact ⟨none, rfl, fun _ hv => by cases hv⟩
  | cons first rest =>
    refine ⟨_, rfl, ?_⟩
    rintro v ⟨⟩
    exact mem_of_foldl_least

theorem groupingName_ok {p : Payload} (h : p.IsTextOrUnfilled) : ∃ name, groupingName p = .ok name := by
  unfold groupingName
  split
  · exact ⟨none, rfl⟩
  · rename_i hfilled
    obtain ⟨t, ht⟩ := Option.isSome_iff_exists.1 (h (by simpa using hfilled))
    exact ⟨some t, by rw [ht]⟩

end Search

namespace Engine

open Search Outcome

variable {e : Engine} {now : Instant} {req : Request}

/-- A request for known things: the selected values are texts, the grouping is one or nothing, and the order is
known. -/
structure Request.IsValid (req : Request) : Prop where
  selected : ∀ s ∈ req.selections, ∀ v ∈ s.2, v.text?.isSome = true
  grouping : req.grouping.IsTextOrUnfilled
  order : req.order.isFilled = true → ∃ order, Order.ofPayload req.order = .ok order

theorem orderOf_ok (h : req.IsValid) (config : SearchConfig) : ∃ order, orderOf config req = .ok order := by
  unfold orderOf
  split
  · rename_i hfilled
    exact h.order hfilled
  · exact ⟨config.order, rfl⟩

theorem groupingOf_ok (h : req.IsValid) : ∃ grouping, groupingOf req = .ok grouping := by
  unfold groupingOf
  split
  · exact groupingName_ok h.grouping
  · have htexts : ∀ v ∈ (Entries.find? groupByKey req.selections).getD [], v.text?.isSome = true := by
      intro v hv
      cases hfind : Entries.find? groupByKey req.selections with
      | none => simp [hfind] at hv
      | some values =>
        rw [hfind] at hv
        exact h.selected _ (Entries.mem_of_find? hfind) v hv
    obtain ⟨least, hleast, hmem⟩ := least?_ok htexts
    rw [selectedGrouping, hleast, ok_bind]
    apply groupingName_ok
    cases least with
    | none => exact fun hfilled => by cases hfilled
    | some v =>
      intro _
      rw [← htexts v (hmem v rfl), Value.text?_eq]
      rfl

/-- Records that have searchable texts, and values under each facet that can be counted and have an order. -/
structure AreReadable (now : Instant) (records : List Record) : Prop where
  texts : ∀ r ∈ records, r.IsTextual
  plain : ∀ key, ArePlain now key records

theorem AreReadable.of_subset {records chosen : List Record} (h : AreReadable now records)
    (hsub : chosen ⊆ records) : AreReadable now chosen :=
  ⟨fun r hr => h.texts r (hsub hr), fun key => (h.plain key).of_subset hsub⟩

theorem keep_ok (req : Request) {records : List Record} (h : AreReadable now records) :
    ∃ kept, keep now req records = .ok kept := by
  induction records with
  | nil => exact ⟨[], rfl⟩
  | cons r rest ih =>
    have hr : r ∈ r :: rest := List.mem_cons_self
    obtain ⟨found, hfound⟩ := holds_ok (h.texts r hr) req.query
    obtain ⟨passing, hpassing⟩ := passes_ok (fun key => (h.plain key).counted r hr) req.selections
    obtain ⟨more, hmore⟩ := ih (h.of_subset (List.subset_cons_self r rest))
    rw [keep, keeps, hfound, hpassing, hmore]
    cases found <;> exact ⟨_, rfl⟩

theorem scoresOf_ok_iff {query : Text} {records : List Record} :
    (∃ pairs, scoresOf query records = .ok pairs) ↔ ∀ r ∈ records, ∃ points, score r query = .ok points := by
  induction records with
  | nil => exact iff_of_true ⟨[], rfl⟩ (List.forall_mem_nil _)
  | cons r rest ih =>
    rw [List.forall_mem_cons, ← ih, scoresOf]
    simp [bind_ok_iff]

theorem failsOnlyAs_scoresOf {query : Text} {records : List Record} (h : ∀ r ∈ records, r.IsTextual) :
    FailsOnlyAs .undefinedProximity (scoresOf query records) := by
  induction records with
  | nil => exact .of_ok ⟨[], rfl⟩
  | cons r rest ih =>
    obtain ⟨hr, hrest⟩ := List.forall_mem_cons.1 h
    exact (failsOnlyAs_treeScore hr _).bind fun _ _ => (ih hrest).bind fun _ _ => .of_ok ⟨_, rfl⟩

/-- Once the kept records are scored, nothing stops the answer. -/
theorem respond_of_scores {kept : List Record} (hkept : AreReadable now kept) (hreq : req.IsValid)
    {pairs : List (Text × Nat)} (hpairs : scoresOf req.query kept = .ok pairs) :
    ∃ res, e.respond now req kept = .ok res := by
  obtain ⟨order, horder⟩ := orderOf_ok hreq e.config
  obtain ⟨grouping, hgrouping⟩ := groupingOf_ok hreq
  have hperm := (arrange_perm order _).trans (rank_perm req.query (Entries.ofPairs pairs) kept)
  obtain ⟨found, hfound⟩ :
      ∃ found, facets now (order.arrange (rank req.query (Entries.ofPairs pairs) kept)) = .ok found :=
    facets_ok fun key => (hkept.plain key).of_subset hperm.subset
  exact respond_ok hpairs horder hgrouping hfound

/-- A search ends with an answer exactly if each record that it keeps has a score. -/
theorem search_ok_iff_scored (hrecords : AreReadable now e.records) (hreq : req.IsValid) :
    (∃ res, e.search now req = .ok res) ↔
      ∀ r ∈ e.records, isKept now req r = true → ∃ points, score r req.query = .ok points := by
  obtain ⟨kept, hkeep⟩ := keep_ok req hrecords
  obtain ⟨hfilter, -⟩ := keep_eq_ok hkeep
  have hscored : (∀ r ∈ kept, ∃ points, score r req.query = .ok points) ↔
      ∀ r ∈ e.records, isKept now req r = true → ∃ points, score r req.query = .ok points := by
    simp only [hfilter, List.mem_filter, and_imp]
  rw [search_eq, hkeep, ok_bind, ← hscored, ← scoresOf_ok_iff]
  constructor
  · rintro ⟨res, h⟩
    obtain ⟨pairs, -, hpairs, -⟩ := respond_eq_ok h
    exact ⟨pairs, hpairs⟩
  · rintro ⟨pairs, hpairs⟩
    apply respond_of_scores _ hreq hpairs
    rw [hfilter]
    exact hrecords.of_subset List.filter_sublist.subset

theorem failsOnlyAs_search (hrecords : AreReadable now e.records) (hreq : req.IsValid) :
    FailsOnlyAs .undefinedProximity (e.search now req) := by
  obtain ⟨kept, hkeep⟩ := keep_ok req hrecords
  have hkept : AreReadable now kept := by
    rw [(keep_eq_ok hkeep).1]
    exact hrecords.of_subset List.filter_sublist.subset
  rw [search_eq, hkeep, ok_bind]
  cases hpairs : scoresOf req.query kept with
  | ok pairs => exact .of_ok (respond_of_scores hkept hreq hpairs)
  | error fault =>
    have hfault := failsOnlyAs_scoresOf hkept.texts fault hpairs
    have hrespond : e.respond now req kept = .error fault := by
      rw [respond, hpairs]
      rfl
    rintro other hother
    rw [hrespond] at hother
    cases hother
    exact hfault

end Engine
end LedgerSearch

import LedgerSearch.Proofs.FacetCounts
import LedgerSearch.Proofs.SearchFaults

/-!
# Narrowing a search by a listed value

The list under a facet key predicts what a search finds when one of its values is selected beside what is selected
already: as many results as the value has been counted for, and they are those of the first search that have the value,
in the order in which they stood there.
-/

namespace LedgerSearch

namespace Search

open Outcome Sorting

variable {now : Instant} {key : FacetKey} {r : Record} {v : Value} {records : List Record}

theorem passesKey_eq (now : Instant) (key : FacetKey) (r : Record) (values : List Value) :
    passesKey now r key.name values = (countedValue now key r).map fun v => v.any values.contains := by
  rw [passesKey, FacetKey.ofName?_name, countedValue]
  dsimp only
  cases facetValue now key r with
  | error fault => rfl
  | ok value =>
    cases value with
    | none => rfl
    | some p =>
      simp only [ok_bind]
      cases Value.ofPayload p <;> rfl

theorem passesKey_single (h : IsTextValue now key r) (v : Value) :
    passesKey now r key.name [v] = .ok (hasValue now key v r) := by
  rw [passesKey_eq, h.countedValue_eq, map_ok, hasValue]
  cases valueOf now key r with
  | none => rfl
  | some w => rw [Option.any_some, List.contains_cons, List.contains_nil, Bool.or_false, Option.some_beq_some]

/-- A value selected under a key that selects nothing so far leaves of what passes the records that have the value. -/
theorem passes_put (hvalue : IsTextValue now key r) {selections : Selections}
    (hempty : ∀ s ∈ selections, s.1 = key.name → s.2 = []) {passing : Bool} (h : passes now r selections = .ok passing)
    (v : Value) : passes now r (Entries.put key.name [v] selections) = .ok (passing && hasValue now key v r) := by
  have hkey : ¬ (key.name = groupByKey ∨ [v].isEmpty = true) := by simp [key.name_ne_groupByKey]
  induction selections generalizing passing with
  | nil =>
    cases h
    rw [Entries.put, passes, if_neg hkey, passesKey_single hvalue, ok_bind]
    cases hasValue now key v r <;> rfl
  | cons selection rest ih =>
    obtain ⟨name, values⟩ := selection
    obtain ⟨hhead, hrest⟩ := List.forall_mem_cons.1 hempty
    rw [Entries.put]
    by_cases hname : name = key.name
    · -- what stood here selected nothing, so the rest decides beside the new value
      have hvalues : values = [] := hhead hname
      rw [passes, if_pos (.inr (by rw [hvalues]; rfl))] at h
      rw [if_pos (beq_iff_eq.2 hname), hname, passes, if_neg hkey, passesKey_single hvalue, ok_bind, h]
      cases hasValue now key v r with
      | false => rw [Bool.and_false]; rfl
      | true => rw [Bool.and_true]; rfl
    · rw [if_neg (by simpa using hname), passes]
      rw [passes] at h
      split
      · rename_i hskip
        rw [if_pos hskip] at h
        exact ih hrest h
      · rename_i hskip
        rw [if_neg hskip] at h
        obtain ⟨own, hown, h⟩ := bind_eq_ok.1 h
        rw [hown, ok_bind]
        cases own with
        | false =>
          cases h
          rfl
        | true => exact ih hrest h

theorem filter_latestFirst {time : Record → Binary64} (htime : ∀ r, (time r).isNumber = true) (p : Record → Bool)
    (records : List Record) : (latestFirst time records).filter p = latestFirst time (records.filter p) :=
  filter_sortOn time (fun a b => Binary64.le b a) (Engine.isPreorder_ofTime htime).flip p records

theorem filter_arrange (p : Record → Bool) (order : Order) (records : List Record) :
    (order.arrange records).filter p = order.arrange (records.filter p) := by
  cases order with
  | relevance => rfl
  | mostRecent => exact filter_latestFirst Engine.isNumber_updateTime p records
  | dueFirst => exact filter_sortOn dueTime Binary64.le (Engine.isPreorder_ofTime Engine.isNumber_dueTime) p records
  | dueLast => exact filter_latestFirst Engine.isNumber_dueTime p records

end Search

namespace Engine

open Search Outcome Sorting

variable {e : Engine} {now : Instant} {req : Request} {key : FacetKey} {v : Value} {kept : List Record} {res : Response}

theorem filter_rank (query : Text) (scores : Entries Text Nat) (p : Record → Bool) (records : List Record) :
    (rank query scores records).filter p = rank query scores (records.filter p) := by
  unfold rank
  split
  · exact filter_latestFirst isNumber_updateTime p records
  · exact filter_sortOn _ ranksBefore (isPreorder_ranksBefore _) p records

theorem rank_congr {query : Text} {scores scores' : Entries Text Nat} {records : List Record}
    (h : ∀ r ∈ records, scoreIn scores r = scoreIn scores' r) : rank query scores records = rank query scores' records := by
  unfold rank
  split
  · rfl
  · exact sortOn_congr (fun r hr => by rw [h r hr]) ranksBefore

theorem score_eq_scoreIn {query : Text} {records : List Record} {pairs : List (Text × Nat)}
    (distinct : (records.map Record.id).Nodup) (h : scoresOf query records = .ok pairs) {r : Record} (hr : r ∈ records) :
    score r query = .ok (scoreIn (Entries.ofPairs pairs) r) := by
  obtain ⟨hids, hscored⟩ := scoresOf_eq_ok h
  obtain ⟨points, hpoints, hmem⟩ := hscored r hr
  have hnodup : (Entries.keys pairs).Nodup := by rwa [Entries.keys, hids]
  rw [hpoints, Entries.ofPairs_of_nodup hnodup, scoreIn, Entries.find?_of_mem hnodup hmem, Option.getD_some]

/-- The request with one value selected under a key, whatever was selected under it before. -/
def Request.select (req : Request) (key : FacetKey) (v : Value) : Request :=
  { req with selections := Entries.put key.name [v] req.selections }

theorem keep_select (hempty : ∀ s ∈ req.selections, s.1 = key.name → s.2 = []) (v : Value) {records : List Record}
    (htext : ∀ r ∈ records, IsTextValue now key r) (h : keep now req records = .ok kept) :
    keep now (req.select key v) records = .ok (kept.filter (hasValue now key v)) := by
  induction records generalizing kept with
  | nil =>
    cases h
    rfl
  | cons r rest ih =>
    obtain ⟨hr, hrest⟩ := List.forall_mem_cons.1 htext
    obtain ⟨own, hown, h⟩ := bind_eq_ok.1 h
    obtain ⟨more, hmore, h⟩ := bind_eq_ok.1 h
    cases h
    have hkeeps : keeps now (req.select key v) r = .ok (own && hasValue now key v r) := by
      obtain ⟨found, hfound, hpass⟩ := bind_eq_ok.1 hown
      have hfound' : holds r (req.select key v).query = .ok found := hfound
      rw [keeps, hfound', ok_bind]
      cases found with
      | false =>
        cases hpass
        rfl
      | true => exact passes_put hr hempty hpass v
    rw [keep, hkeeps, ok_bind, ih hrest hmore, ok_bind]
    cases own with
    | false => rfl
    | true => rw [Bool.true_and, if_pos rfl, List.filter_cons]; rfl

theorem groupingOf_select (req : Request) (key : FacetKey) (v : Value) :
    groupingOf (req.select key v) = groupingOf req := by
  simp only [groupingOf, Request.select, selectedGrouping, Entries.find?_put_of_ne key.name_ne_groupByKey]

/-- Of the records kept for a request those with a value are answered for the narrowed request, in the same order. -/
theorem respond_select (distinct : (kept.map Record.id).Nodup) (htext : ∀ r ∈ kept, ∀ key, IsTextValue now key r)
    (h : e.respond now req kept = .ok res) (key : FacetKey) (v : Value) :
    ∃ narrowed, e.respond now (req.select key v) (kept.filter (hasValue now key v)) = .ok narrowed ∧
      narrowed.records = res.records.filter (hasValue now key v) ∧ narrowed.total = narrowed.records.length := by
  obtain ⟨pairs, order, grouping, hmade⟩ := exists_isMadeOf h
  set chosen := kept.filter (hasValue now key v) with hchosen
  have hsub : ∀ r ∈ chosen, r ∈ kept := fun r hr => (List.mem_filter.1 hr).1
  obtain ⟨pairs', hpairs'⟩ : ∃ pairs', scoresOf req.query chosen = .ok pairs' :=
    scoresOf_ok_iff.2 fun r hr => scoresOf_ok_iff.1 ⟨pairs, hmade.scored⟩ r (hsub r hr)
  have hscores : ∀ r ∈ chosen, scoreIn (Entries.ofPairs pairs') r = scoreIn (Entries.ofPairs pairs) r := by
    intro r hr
    have hdistinct : (chosen.map Record.id).Nodup := distinct.sublist (List.filter_sublist.map _)
    have hown := score_eq_scoreIn hdistinct hpairs' hr
    rw [score_eq_scoreIn distinct hmade.scored (hsub r hr)] at hown
    exact (Except.ok.inj hown).symm
  -- scores of the chosen records are as before, and choosing commutes with each sort
  have hordered : order.arrange (rank req.query (Entries.ofPairs pairs') chosen) =
      res.records.filter (hasValue now key v) := by
    rw [hmade.records, filter_arrange, filter_rank, rank_congr hscores]
  obtain ⟨found, hfound⟩ : ∃ found, facets now (res.records.filter (hasValue now key v)) = .ok found :=
    facets_ok fun key => .of_texts fun r hr => htext r (hmade.perm.subset (List.mem_filter.1 hr).1) key
  obtain ⟨narrowed, hnarrowed⟩ : ∃ narrowed, e.respond now (req.select key v) chosen = .ok narrowed :=
    respond_ok hpairs' hmade.ordered ((groupingOf_select req key v).trans hmade.grouped) (hordered ▸ hfound)
  obtain ⟨pairs₂, order₂, _, hmade₂⟩ := exists_isMadeOf hnarrowed
  cases hmade.ordered.symm.trans hmade₂.ordered
  cases hpairs'.symm.trans hmade₂.scored
  exact ⟨narrowed, hnarrowed, hmade₂.records.trans hordered, hmade₂.total⟩

/-- The list of a key in an answer is there exactly if a result has a value under the key, and describes the results.
If nothing is selected under the key, selecting a listed value finds as many results as it was counted for: those that
have the value, in the same order. -/
theorem search_select (distinct : (e.records.map Record.id).Nodup)
    (htext : ∀ r ∈ e.records, ∀ key, IsTextValue now key r) (h : e.search now req = .ok res) (key : FacetKey) :
    ((Entries.find? key.name res.facets).isSome = true ↔ ∃ r ∈ res.records, (valueOf now key r).isSome = true) ∧
    ∀ listed, Entries.find? key.name res.facets = some listed → Describes now key res.records listed ∧
      ((∀ s ∈ req.selections, s.1 = key.name → s.2 = []) → ∀ v n, (v, n) ∈ listed →
        ∃ narrowed, e.search now (req.select key v) = .ok narrowed ∧ narrowed.total = n ∧
          narrowed.records = res.records.filter (hasValue now key v)) := by
  rw [search_eq] at h
  obtain ⟨kept, hkeep, hrespond⟩ := bind_eq_ok.1 h
  have hsub : kept.Sublist e.records := (keep_eq_ok hkeep).1 ▸ List.filter_sublist
  obtain ⟨pairs, order, grouping, hmade⟩ := exists_isMadeOf hrespond
  have hresults : ∀ r ∈ res.records, r ∈ e.records := fun r hr => hsub.subset (hmade.perm.subset hr)
  obtain ⟨hpresent, hdescribes⟩ := facets_describe (fun r hr => htext r (hresults r hr)) hmade.counted key
  refine ⟨hpresent, fun listed hlisted => ⟨hdescribes listed hlisted, fun hempty v n hmem => ?_⟩⟩
  obtain ⟨narrowed, hnarrowed, hrecords, htotal⟩ :=
    respond_select (distinct.sublist (hsub.map _)) (fun r hr => htext r (hsub.subset hr)) hrespond key v
  refine ⟨narrowed, ?_, ?_, hrecords⟩
  · rw [search_eq, keep_select hempty v (fun r hr => htext r hr key) hkeep, ok_bind, hnarrowed]
  · rw [htotal, hrecords, ← List.countP_eq_length_filter]
    exact ((hdescribes listed hlisted).counted v n hmem).2.symm

def sampleDocumentIn (project : String) (id title : String) (day : Nat) : Record :=
  { sampleDocument id title "oak door" day with project := project.toText }

/-- Four documents of two projects and of none. -/
def projectEngine : Engine where
  records := [sampleDocumentIn "North" "a" "Door" 1, sampleDocumentIn "South" "b" "Frame" 2,
    sampleDocumentIn "North" "c" "Window" 3, sampleDocumentIn "" "d" "Door" 2]
  config := .standard
  limits := .default

theorem hasTextFields_sampleDocumentIn (project id title : String) (day : Nat) :
    (sampleDocumentIn project id title day).HasTextFields := ⟨List.forall_mem_nil _, List.forall_mem_nil _⟩

theorem search_select_north : ∃ res listed narrowed, projectEngine.search Instant.epoch sampleRequest = .ok res ∧
    Entries.find? FacetKey.project.name res.facets = some listed ∧ (.ofText "North".toText, 2) ∈ listed ∧
    projectEngine.search Instant.epoch (sampleRequest.select .project (.ofText "North".toText)) = .ok narrowed ∧
    narrowed.total = 2 ∧
    narrowed.records = res.records.filter (hasValue Instant.epoch .project (.ofText "North".toText)) := by
  have hlists : (projectEngine.search Instant.epoch sampleRequest).toOption.map (fun res =>
      (Entries.find? FacetKey.project.name res.facets).map (List.map fun c => (c.1.text?, c.2))) =
      some (some [(some "North".toText, 2), (some "South".toText, 1)]) := by decide +kernel
  cases h : projectEngine.search Instant.epoch sampleRequest with
  | error fault =>
    rw [h] at hlists
    cases hlists
  | ok res =>
    rw [h] at hlists
    obtain ⟨listed, hlisted, htexts⟩ := Option.map_eq_some_iff.1 (Option.some.inj hlists)
    obtain ⟨⟨v, n⟩, hmem, hnorth⟩ : ∃ c ∈ listed, (c.1.text?, c.2) = (some "North".toText, 2) :=
      List.mem_map.1 (htexts ▸ List.mem_cons_self)
    obtain ⟨hv, rfl⟩ := Prod.mk.inj hnorth
    obtain rfl := Value.text?_eq_some hv
    have htext : ∀ r ∈ projectEngine.records, ∀ key, IsTextValue Instant.epoch key r := by
      intro r hr key
      simp only [projectEngine, List.mem_cons, List.not_mem_nil, or_false] at hr
      rcases hr with rfl | rfl | rfl | rfl <;> exact (hasTextFields_sampleDocumentIn ..).isTextValue _ _
    obtain ⟨narrowed, hnarrowed⟩ :=
      ((search_select (by decide) htext h .project).2 listed hlisted).2 (List.forall_mem_nil _) _ _ hmem
    exact ⟨res, listed, narrowed, rfl, hlisted, hmem, hnarrowed⟩

end Engine
end LedgerSearch

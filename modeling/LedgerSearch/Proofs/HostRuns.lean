import LedgerSearch.Proofs.FiniteReplies
import LedgerSearch.Proofs.OpenRanges
import LedgerSearch.Proofs.TraceRetention

/-!
# Runs of a host

A visit is a call to the host with its time, the name of the trace it may leave, and the time it takes. There are five
things that a visit can do (`Visit.Does`): it is refused, its search fails, its search is answered, a text is marked, or
something is looked up. The answer is rendered after that, by a renderer of which no more is known than that it renders
plain bodies with finite numbers (`Renderer.WritesPlain`). From these follows what each visit leaves as it was
(`Visit.Keeps`), and by induction that a run leaves the traces of the answered searches and no others (`traces_run`), of
which the newest are kept (`toList_run`).
-/

namespace LedgerSearch.Host

open Form Search

/-- A call with what the host draws for it: the time, a name for a trace, and how long a search takes. -/
structure Visit where
  now : Instant
  id : Text
  elapsed : Binary64
  call : Call

/-- The route that answers a call, if its path names one and its method fits. -/
def Call.route? (call : Call) : Option Route := (Route.find? call.path).filter fun route => call.method = route.method

/-- The form of a search that is carried out: it can be read, and its query is not too short. -/
def searchForm? (engine : Engine) (call : Call) : Option SearchForm :=
  if call.route? = some .search then
    (readBody SearchForm.read call).toOption.filter fun form =>
      !Query.isTooShort form.query engine.config.minimumLength
  else none

/-- A search that ends with an answer: its form and the response of the engine. -/
def found? (engine : Engine) (v : Visit) : Option (SearchForm × Engine.Response) :=
  (searchForm? engine v.call).bind fun form => (engine.search v.now form.request).toOption.map fun res => (form, res)

/-- The trace of a search: its query, how many records it found, and whether it asks for amounts alone and is compound. -/
def Visit.trace (v : Visit) (form : SearchForm) (res : Engine.Response) : Trace where
  id := v.id
  query := form.query
  total := res.records.length
  isMonetary := (Query.moneyQuery form.query).isExplicit
  isCompound := Query.isCompound form.query
  latency := v.elapsed

/-- The trace that a visit leaves, if it is a search that ends with an answer. -/
def trace? (engine : Engine) (v : Visit) : Option Trace := (found? engine v).map fun p => v.trace p.1 p.2

namespace Answer

/-- A refusal, or the fault of a search. -/
def isRefused : Answer → Bool
  | reply status _ => status != 200
  | failure (.search _) => true
  | failure _ => false

/-- Any answer but a reply with what was asked for. -/
def isError : Answer → Bool
  | reply status _ => status != 200
  | failure _ => true

variable {render : Renderer} {answer : Answer} {status : Nat} {body : Payload}

/-- An answer is rendered as it is, or not at all. -/
theorem rendered_cases (render : Renderer) (answer : Answer) :
    answer.rendered render = answer ∨ ∃ reason, answer.rendered render = failure (.unrendered reason) := by
  cases answer with
  | failure fault => exact .inl rfl
  | reply status body =>
    cases hbody : render body with
    | ok bytes => exact .inl (by rw [rendered, hbody])
    | error reason => exact .inr ⟨reason, by rw [rendered, hbody]⟩

theorem isRefused_of_rendered (h : (answer.rendered render).isRefused = true) : answer.isRefused = true := by
  obtain hsame | ⟨reason, hfailed⟩ := rendered_cases render answer
  · rwa [hsame] at h
  · rw [hfailed] at h
    cases h

theorem isError_rendered (h : answer.isError = true) : (answer.rendered render).isError = true := by
  obtain hsame | ⟨reason, hfailed⟩ := rendered_cases render answer
  · rwa [hsame]
  · rw [hfailed, isError]

theorem rendered_eq_self (h : (answer.rendered render).isError = false) : answer.rendered render = answer := by
  obtain hsame | ⟨reason, hfailed⟩ := rendered_cases render answer
  · exact hsame
  · rw [hfailed] at h
    cases h

theorem rendered_reply {bytes : List UInt8} (h : render body = .ok bytes) :
    (reply status body).rendered render = reply status body := by
  rw [rendered, h]

end Answer

/-- Bodies with finite numbers, whole numbers that are not too long and no halves are rendered. -/
def Renderer.WritesPlain (render : Renderer) : Prop :=
  ∀ body : Payload, body.hasFiniteNumbers = true → body.isPlain = true → ∃ bytes, render body = .ok bytes

theorem writesPlain_written : Renderer.written.WritesPlain := by
  intro body hfinite hplain
  obtain ⟨bytes, hbytes⟩ := Payload.exists_encode hfinite hplain
  exact ⟨bytes, by rw [Renderer.written, hbytes, Except.mapError]⟩

/-- Only for a body that is not plain a reply with finite numbers is not rendered. -/
theorem Renderer.WritesPlain.isPlain_eq_false {render : Renderer} (hrender : render.WritesPlain) {body : Payload}
    (hfinite : body.hasFiniteNumbers = true) (h : ((Answer.reply 200 body).rendered render).isError = true) :
    body.isPlain = false := by
  by_contra hplain
  obtain ⟨bytes, hbytes⟩ := hrender body hfinite (Bool.of_not_eq_false hplain)
  rw [Answer.rendered_reply hbytes] at h
  cases h

namespace App

def visit (render : Renderer) (app : App) (v : Visit) : Answer × App := serve render app v.now v.id v.elapsed v.call

/-- The host after some visits, one after the other. -/
def run (render : Renderer) (app : App) : List Visit → App
  | [] => app
  | v :: rest => run render (visit render app v).2 rest

end App

/-- A call that marks texts. -/
def Route.isMarking : Route → Bool
  | .highlight | .snippet _ => true
  | _ => false

/-- The answer to a visit before it is rendered, and the host after it. -/
inductive Visit.Does (v : Visit) (app : App) : Answer → App → Prop
  | refused {status : Nat} {detail : Payload} (hstatus : status ≠ 200) (hnone : found? app.engine v = none) :
      Does v app (Answer.refusal status detail) app
  | failed {fault : Fault} (hnone : found? app.engine v = none) : Does v app (.failure (.search fault)) app
  | found {form : SearchForm} {res : Engine.Response} (hfound : found? app.engine v = some (form, res)) :
      Does v app (if app.traces.limitHolds then Answer.ok (responseFields res v.id) else .failure .limitNotHeld)
        { app with traces := app.traces.create (traceOf v.id v.elapsed res) }
  | marked {route : Route} {fields : List (String × Payload)} {cache : Marking.Cache}
      (hroute : v.call.route? = some route) (hmarking : route.isMarking = true)
      (hfinite : (Payload.ofFields fields).hasFiniteNumbers = true) :
      Does v app (Answer.ok fields) { app with cache := cache }
  | lookedUp {route : Route} {fields : List (String × Payload)} (hroute : v.call.route? = some route)
      (hsearch : route ≠ .search) (hmarking : route.isMarking = false) : Does v app (Answer.ok fields) app

section Steps

variable {render : Renderer} {app : App} {v : Visit}

theorem route?_eq_some_iff {call : Call} {route : Route} :
    call.route? = some route ↔ Route.find? call.path = some route ∧ call.method = route.method := by
  simp [Call.route?, Option.filter_eq_some_iff]

theorem found?_eq_none_of_form (h : searchForm? app.engine v.call = none) : found? app.engine v = none := by
  rw [found?, h, Option.bind_none]

theorem found?_eq_none_of_fault {form : SearchForm} {fault : Fault} (hform : searchForm? app.engine v.call = some form)
    (hfault : app.engine.search v.now form.request = .error fault) : found? app.engine v = none := by
  rw [found?, hform, Option.bind_some, hfault]
  rfl

theorem found?_eq_none (h : v.call.route? ≠ some .search) : found? app.engine v = none :=
  found?_eq_none_of_form (if_neg h)

theorem route?_ne_search {route : Route} (hroute : v.call.route? = some route) (hsearch : route ≠ .search) :
    v.call.route? ≠ some .search := by
  simpa [hroute] using hsearch

theorem found?_eq_none_of_route {route : Route} (hroute : v.call.route? = some route) (hsearch : route ≠ .search) :
    found? app.engine v = none :=
  found?_eq_none (route?_ne_search hroute hsearch)

theorem Route.ne_search_of_isMarking {route : Route} (h : route.isMarking = true) : route ≠ .search := by
  rintro rfl
  cases h

theorem does_withForm {α : Type} {form : Checked α} {use : α → Answer × App}
    (herror : ∀ complaints, form = .error complaints → found? app.engine v = none)
    (huse : ∀ a, form = .ok a → v.Does app (use a).1 (use a).2) :
    v.Does app (app.withForm form use).1 (app.withForm form use).2 := by
  unfold App.withForm
  split
  case h_1 a => exact huse a rfl
  case h_2 complaints => exact .refused (by decide) (herror complaints rfl)

theorem does_search (hroute : v.call.route? = some .search) :
    v.Does app (app.follow v.now v.id v.elapsed v.call .search).1 (app.follow v.now v.id v.elapsed v.call .search).2 := by
  refine does_withForm (fun complaints herror => ?_) fun form hform => ?_
  · exact found?_eq_none_of_form (by simp [searchForm?, hroute, herror, Except.toOption])
  · have hread : searchForm? app.engine v.call =
        if Query.isTooShort form.query app.engine.config.minimumLength then none else some form := by
      cases hshort : Query.isTooShort form.query app.engine.config.minimumLength <;>
        simp [searchForm?, hroute, hform, Except.toOption, hshort]
    unfold App.search
    split
    case isTrue hshort =>
      rw [if_pos hshort] at hread
      exact .refused (by decide) (found?_eq_none_of_form hread)
    case isFalse hshort =>
      rw [if_neg hshort] at hread
      split
      case h_1 fault hfault => exact .failed (found?_eq_none_of_fault hread hfault)
      case h_2 res hres =>
        have hfound : found? app.engine v = some (form, res) := by simp [found?, hread, hres, Except.toOption]
        exact .found hfound

theorem does_snippet {id : Text} (hroute : v.call.route? = some (.snippet id)) :
    v.Does app (app.follow v.now v.id v.elapsed v.call (.snippet id)).1
      (app.follow v.now v.id v.elapsed v.call (.snippet id)).2 := by
  have hnone : found? app.engine v = none := found?_eq_none_of_route hroute nofun
  refine does_withForm (fun _ _ => hnone) fun query _ => ?_
  unfold App.snippet
  split
  · exact .refused (by decide) hnone
  · split
    · exact .marked hroute rfl (by simp [Payload.hasFiniteNumbers_ofFields])
    · refine .marked hroute rfl ?_
      rw [Payload.hasFiniteNumbers_ofFields]
      simpa using Payload.hasFiniteNumbers_ofOption_text (fun t : Text => t) _

theorem does_follow {route : Route} (hroute : v.call.route? = some route) :
    v.Does app (app.follow v.now v.id v.elapsed v.call route).1 (app.follow v.now v.id v.elapsed v.call route).2 := by
  have hnone : route ≠ .search → found? app.engine v = none := found?_eq_none_of_route hroute
  cases route with
  | search => exact does_search hroute
  | snippet id => exact does_snippet hroute
  | health => exact .lookedUp hroute nofun rfl
  | metrics => exact .lookedUp hroute nofun rfl
  | highlight =>
    exact does_withForm (fun _ _ => hnone nofun) fun form _ =>
      .marked hroute rfl (by simp [Payload.hasFiniteNumbers_ofFields])
  | traces => exact does_withForm (fun _ _ => hnone nofun) fun limit _ => .lookedUp hroute nofun rfl
  | trace id =>
    simp only [App.follow, App.trace]
    split
    · exact .lookedUp hroute nofun rfl
    · exact .refused (by decide) (hnone nofun)

/-- Every visit does one of the five things. -/
theorem does_visit (app : App) (v : Visit) :
    v.Does app (app.respond v.now v.id v.elapsed v.call).1 (app.respond v.now v.id v.elapsed v.call).2 := by
  have hnone : (∀ route, v.call.route? ≠ some route) → found? app.engine v = none := fun h => found?_eq_none (h .search)
  unfold App.respond
  split
  case h_1 hfind => exact .refused (by decide) (hnone fun route => by simp [route?_eq_some_iff, hfind])
  case h_2 route hfind =>
    split
    case isTrue hmethod => exact does_follow (route?_eq_some_iff.2 ⟨hfind, hmethod⟩)
    case isFalse hmethod =>
      refine .refused (by decide) (hnone fun other hother => ?_)
      obtain ⟨hfound, hfits⟩ := route?_eq_some_iff.1 hother
      rw [hfind] at hfound
      cases hfound
      exact hmethod hfits

theorem route?_of_found? {p : SearchForm × Engine.Response} (h : found? app.engine v = some p) :
    v.call.route? = some .search := by
  by_cases hroute : v.call.route? = some .search
  · exact hroute
  · rw [found?_eq_none hroute] at h
    cases h

theorem search_of_found? {form : SearchForm} {res : Engine.Response} (h : found? app.engine v = some (form, res)) :
    searchForm? app.engine v.call = some form ∧ app.engine.search v.now form.request = .ok res := by
  obtain ⟨_, hform, h⟩ := Option.bind_eq_some_iff.1 h
  obtain ⟨_, hres, h⟩ := Option.map_eq_some_iff.1 h
  cases h
  cases hsearch : app.engine.search v.now form.request with
  | error fault => simp [hsearch, Except.toOption] at hres
  | ok found =>
    rw [hsearch] at hres
    cases hres
    exact ⟨hform, rfl⟩

/-- The trace of an answer tells of the search that it answers. -/
theorem traceOf_search {form : SearchForm} {res : Engine.Response} (h : app.engine.search v.now form.request = .ok res) :
    traceOf v.id v.elapsed res = v.trace form res := by
  obtain ⟨kept, -, h⟩ := Outcome.bind_eq_ok.1 h
  obtain ⟨scores, -, h⟩ := Outcome.bind_eq_ok.1 h
  obtain ⟨order, -, h⟩ := Outcome.bind_eq_ok.1 h
  obtain ⟨grouping, -, h⟩ := Outcome.bind_eq_ok.1 h
  obtain ⟨facets, -, h⟩ := Outcome.bind_eq_ok.1 h
  cases h
  rfl

/-- The query that a visit searches for and the corpus fit into memory. -/
def Visit.FitsMemory (v : Visit) (engine : Engine) : Prop :=
  ∀ form ∈ searchForm? engine v.call, engine.FitsMemory form.query

instance (v : Visit) (engine : Engine) : Decidable (v.FitsMemory engine) :=
  inferInstanceAs (Decidable (∀ form ∈ searchForm? engine v.call, engine.FitsMemory form.query))

/-- What a visit leaves of the host as it was. A refusal, and a search that fails, leave all as it was. The reply to a
call that has done its work may fail to be rendered, which takes nothing back; where scores stay finite this takes a
body that is not plain. -/
structure Visit.Keeps (render : Renderer) (v : Visit) (app : App) (answer : Answer) (after : App) : Prop where
  refused : answer.isRefused = true → after = app
  failed : answer.isError = true → after = app ∨
    ∃ body, answer = (Answer.reply 200 body).rendered render ∧ (v.FitsMemory app.engine → body.isPlain = false)
  found : ∀ form res, found? app.engine v = some (form, res) →
    after = { app with traces := app.traces.create (v.trace form res) } ∧
    after.traces.toList = newest app.traces.limit.toNat (app.traces.toList ++ [v.trace form res]) ∧
    answer = (Answer.ok (responseFields res v.id)).rendered render ∧
    (v.FitsMemory app.engine → (Payload.ofFields (responseFields res v.id)).isPlain = true →
      answer = Answer.ok (responseFields res v.id))
  answered : v.call.route? = some .search → answer.isError = false →
    ∃ form res, found? app.engine v = some (form, res) ∧ answer = Answer.ok (responseFields res v.id)
  marked : ∀ route, v.call.route? = some route → route.isMarking = true → after = { app with cache := after.cache }
  others : (∀ route, v.call.route? = some route → route ≠ .search ∧ route.isMarking = false) → after = app

theorem hasFiniteNumbers_found {res : Engine.Response} {form : SearchForm}
    (hfinite : ∀ r ∈ app.engine.records, r.HasFiniteNumbers) (hfound : found? app.engine v = some (form, res))
    (hfits : v.FitsMemory app.engine) : (Payload.ofFields (responseFields res v.id)).hasFiniteNumbers = true := by
  obtain ⟨hform, hsearch⟩ := search_of_found? hfound
  exact Engine.hasFiniteNumbers_response hfinite hsearch
    (fun r _ => Engine.isFinite_scoreIn hsearch (hfits form hform) r) v.id

/-- A visit after which the host is the same, and which answers no search. -/
theorem keeps_of_same {answer : Answer} (hnone : found? app.engine v = none)
    (hsearch : v.call.route? = some .search → answer.isError = true) : v.Keeps render app answer app where
  refused _ := rfl
  failed _ := .inl rfl
  found form res h := by rw [hnone] at h; cases h
  answered hroute h := by rw [hsearch hroute] at h; cases h
  marked _ _ _ := rfl
  others _ := rfl

theorem keeps_of_marked {route : Route} {fields : List (String × Payload)} {cache : Marking.Cache}
    (hrender : render.WritesPlain) (hroute : v.call.route? = some route) (hmarking : route.isMarking = true)
    (hfinite : (Payload.ofFields fields).hasFiniteNumbers = true) :
    v.Keeps render app ((Answer.ok fields).rendered render) { app with cache := cache } where
  refused h := by cases Answer.isRefused_of_rendered h
  failed h := .inr ⟨_, rfl, fun _ => hrender.isPlain_eq_false hfinite h⟩
  found form res h := by
    rw [found?_eq_none_of_route hroute (Route.ne_search_of_isMarking hmarking)] at h
    cases h
  answered h _ := absurd h (route?_ne_search hroute (Route.ne_search_of_isMarking hmarking))
  marked _ _ _ := rfl
  others h := by
    rw [(h route hroute).2] at hmarking
    cases hmarking

theorem keeps_of_found {form : SearchForm} {res : Engine.Response} (hrender : render.WritesPlain)
    (hfinite : ∀ r ∈ app.engine.records, r.HasFiniteNumbers) (hfresh : v.id ∉ Entries.keys app.traces.traces)
    (hfound : found? app.engine v = some (form, res)) :
    v.Keeps render app ((Answer.ok (responseFields res v.id)).rendered render)
      { app with traces := app.traces.create (v.trace form res) } where
  refused h := by cases Answer.isRefused_of_rendered h
  failed h := .inr ⟨_, rfl, fun hfits => hrender.isPlain_eq_false (hasFiniteNumbers_found hfinite hfound hfits) h⟩
  found form' res' h := by
    rw [hfound] at h
    cases h
    refine ⟨rfl, TraceStore.toList_create (t := v.trace form res) hfresh, rfl, fun hfits hplain => ?_⟩
    obtain ⟨bytes, hbytes⟩ := hrender _ (hasFiniteNumbers_found hfinite hfound hfits) hplain
    exact Answer.rendered_reply hbytes
  answered _ h := ⟨form, res, hfound, Answer.rendered_eq_self h⟩
  marked route hroute hmarking := by
    rw [route?_of_found? hfound] at hroute
    cases hroute
    cases hmarking
  others h := absurd rfl (h _ (route?_of_found? hfound)).1

theorem Visit.Does.keeps {answer : Answer} {after : App} (h : v.Does app answer after) (hrender : render.WritesPlain)
    (hfinite : ∀ r ∈ app.engine.records, r.HasFiniteNumbers) (hlimit : 0 ≤ app.traces.limit)
    (hfresh : v.id ∉ Entries.keys app.traces.traces) : v.Keeps render app (answer.rendered render) after := by
  cases h with
  | refused hstatus hnone =>
    refine keeps_of_same hnone fun _ => Answer.isError_rendered ?_
    simp [Answer.refusal, Answer.isError, hstatus]
  | failed hnone => exact keeps_of_same hnone fun _ => rfl
  | found hfound =>
    rw [TraceStore.limitHolds, decide_eq_true hlimit, if_pos rfl, traceOf_search (search_of_found? hfound).2]
    exact keeps_of_found hrender hfinite hfresh hfound
  | marked hroute hmarking hbody => exact keeps_of_marked hrender hroute hmarking hbody
  | lookedUp hroute hsearch =>
    exact keeps_of_same (found?_eq_none_of_route hroute hsearch) (absurd · (route?_ne_search hroute hsearch))

theorem Visit.Does.engine_eq {answer : Answer} {after : App} (h : v.Does app answer after) : after.engine = app.engine := by
  cases h <;> rfl

/-- A visit leaves the trace of an answered search and no other. -/
theorem Visit.Does.traces_eq {answer : Answer} {after : App} (h : v.Does app answer after) :
    after.traces = app.traces.createAll (trace? app.engine v).toList := by
  have hnone : found? app.engine v = none → app.traces = app.traces.createAll (trace? app.engine v).toList := by
    intro h
    rw [trace?, h]
    rfl
  cases h with
  | refused _ h => exact hnone h
  | failed h => exact hnone h
  | found hfound =>
    rw [trace?, hfound, traceOf_search (search_of_found? hfound).2]
    rfl
  | marked hroute hmarking _ => exact hnone (found?_eq_none_of_route hroute (Route.ne_search_of_isMarking hmarking))
  | lookedUp hroute hsearch => exact hnone (found?_eq_none_of_route hroute hsearch)

end Steps

section Runs

variable {render : Renderer} {app : App} {visits : List Visit}

/-- Rendering an answer leaves the host alone. -/
theorem snd_visit (v : Visit) : (app.visit render v).2 = (app.respond v.now v.id v.elapsed v.call).2 := rfl

theorem engine_run : (app.run render visits).engine = app.engine := by
  induction visits generalizing app with
  | nil => rfl
  | cons v rest ih => rw [App.run, ih, snd_visit, (does_visit app v).engine_eq]

/-- A run leaves the traces of the answered searches and no others. -/
theorem traces_run : (app.run render visits).traces = app.traces.createAll (visits.filterMap (trace? app.engine)) := by
  induction visits generalizing app with
  | nil => rfl
  | cons v rest ih =>
    have hstep := does_visit app v
    rw [App.run, ih, snd_visit, hstep.traces_eq, hstep.engine_eq]
    cases htrace : trace? app.engine v with
    | none => rw [List.filterMap_cons_none htrace, Option.toList_none, TraceStore.createAll]
    | some t =>
      rw [List.filterMap_cons_some htrace, Option.toList_some, TraceStore.createAll, TraceStore.createAll,
        TraceStore.createAll]

theorem limit_run : (app.run render visits).traces.limit = app.traces.limit := by
  rw [traces_run, TraceStore.limit_createAll]

theorem id_of_trace? {engine : Engine} {v : Visit} {t : Trace} (h : trace? engine v = some t) : t.id = v.id := by
  obtain ⟨p, -, rfl⟩ := Option.map_eq_some_iff.1 h
  rfl

theorem ids_sublist (engine : Engine) (visits : List Visit) :
    ((visits.filterMap (trace? engine)).map Trace.id).Sublist (visits.map Visit.id) := by
  induction visits with
  | nil => exact .slnil
  | cons v rest ih =>
    cases htrace : trace? engine v with
    | none =>
      rw [List.filterMap_cons_none htrace]
      exact ih.cons _
    | some t =>
      rw [List.filterMap_cons_some htrace, List.map_cons, List.map_cons, id_of_trace? htrace]
      exact ih.cons_cons _

theorem toList_run (hheld : app.traces.toList.length ≤ app.traces.limit.toNat)
    (hfresh : (Entries.keys app.traces.traces ++ visits.map Visit.id).Nodup) :
    (app.run render visits).traces.toList =
      newest app.traces.limit.toNat (app.traces.toList ++ visits.filterMap (trace? app.engine)) := by
  rw [traces_run]
  exact TraceStore.toList_createAll hheld (hfresh.sublist ((ids_sublist app.engine visits).append_left _))

/-- The name that a visit brings is not among those of the traces that visits before it left. -/
theorem id_fresh {before rest : List Visit} {v : Visit} (hheld : app.traces.toList.length ≤ app.traces.limit.toNat)
    (hfresh : (Entries.keys app.traces.traces ++ (before ++ v :: rest).map Visit.id).Nodup) :
    v.id ∉ Entries.keys (app.run render before).traces.traces := by
  rw [List.map_append, ← List.append_assoc] at hfresh
  have hapart := (List.nodup_append.1 hfresh).2.2
  have hids := (ids_sublist app.engine before).append_left (Entries.keys app.traces.traces)
  -- a kept trace has the name of a visit before, or of a trace from the start
  intro hmem
  rw [traces_run] at hmem
  have hbefore := TraceStore.keys_createAll_subset hheld ((List.nodup_append.1 hfresh).1.sublist hids) hmem
  exact hapart v.id (hids.subset hbefore) v.id List.mem_cons_self rfl

/-- A record with half a character in its title. -/
def brokenShelf : Record :=
  { Record.bare "3" "" (.document ⟨[], []⟩) with title := "Pine shelf ".toText ++ [.half 0] }

/-- A host that keeps two traces. -/
def sampleApp : App :=
  ⟨⟨[Search.oakDoor, Engine.postBill, brokenShelf], .standard, .default⟩, 100, Marking.Cache.empty 10 100,
    TraceStore.empty 2⟩

def searchVisit (id : String) (query : Text) : Visit :=
  ⟨Instant.epoch, id.toText, Binary64.zero,
    ⟨"POST".toText, "/search".toText, [], some (Payload.ofFields [("query", .text query)])⟩⟩

/-- Three searches that are answered, the last one with a title that has no written form; between them one that is too
short and one that fails. -/
def sampleVisits : List Visit :=
  [searchVisit "1" "oak".toText, searchVisit "2" "o".toText, searchVisit "3" Engine.endlessRange,
    searchVisit "4" "door".toText, searchVisit "5" "pine".toText]

/-- A title with half a character is found, and the reply that holds it is not rendered. -/
example :
    (found? sampleApp.engine (searchVisit "5" "pine".toText)).isSome = true ∧
      (sampleApp.visit .written (searchVisit "5" "pine".toText)).1.isError = true ∧
      (sampleApp.visit .written (searchVisit "4" "door".toText)).1.isError = false := by
  decide +kernel

end Runs
end LedgerSearch.Host

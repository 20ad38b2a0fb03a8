import LedgerSearch.Calendar.Printer
import LedgerSearch.Engine.Search
import LedgerSearch.Host.Route
import LedgerSearch.Host.Trace
import LedgerSearch.Marking.Snippet
import LedgerSearch.Payload.Writer

/-! # The host
The host answers calls with the engine behind it. A search that is answered leaves a trace; marking a text
fills the cache; a call that is refused leaves both alone. How the body of a reply becomes bytes is left open:
it happens last, so a call whose reply cannot be rendered has done its work all the same. -/
namespace LedgerSearch.Host

open Form

/-- What stops a call without any reply. -/
inductive CallFault
  | search (fault : Search.Fault)
  | limitNotHeld
  | unrendered (reason : Text)
  deriving Repr

namespace CallFault

def message : CallFault → Text
  | search fault => fault.message
  | limitNotHeld => "coroutine raised StopIteration".toText
  | unrendered reason => reason

end CallFault

inductive Answer
  | reply (status : Nat) (body : Payload)
  | failure (fault : CallFault)
  deriving Repr

/-- Makes the bytes of a reply out of its body, or says why it cannot. -/
abbrev Renderer := Payload → Except Text (List UInt8)

/-- The bytes of the written form. -/
def Renderer.written : Renderer := fun body => body.encode.mapError Payload.WriteFault.message

namespace Answer

def ok (fields : List (String × Payload)) : Answer := reply 200 (Payload.ofFields fields)

/-- A refusal with its reason. -/
def refusal (status : Nat) (detail : Payload) : Answer := reply status (Payload.ofFields [("detail", detail)])

def refuse (status : Nat) (reason : Text) : Answer := refusal status (.text reason)

def stepPayload : Step → Payload
  | .field name => .text name
  | .item index => .int index

def complaintPayload (c : Complaint) : Payload :=
  Payload.ofFields [("loc", .list (c.place.map stepPayload)), ("type", .text c.defect.name)]

/-- A refusal of a form with all complaints about it. -/
def invalid (complaints : List Complaint) : Answer := refusal 422 (.list (complaints.map complaintPayload))

/-- The answer once its body is rendered; a body that is not rendered leaves no reply. -/
def rendered (render : Renderer) : Answer → Answer
  | reply status body =>
    match render body with
    | .ok _ => reply status body
    | .error reason => failure (.unrendered reason)
  | failure fault => failure fault

end Answer

/-- The engine with the cache of marked texts and the traces. -/
structure App where
  engine : Engine
  snippetLength : Int
  cache : Marking.Cache
  traces : TraceStore

structure SearchForm where
  query : Text
  selections : Search.Selections
  grouping : Option Text
  order : Search.Order

namespace SearchForm

def read (p : Payload) : Checked SearchForm :=
  (Checked.both (optional "query" [] text p)
    (Checked.both (optional "selections" [] (entriesOf (listOf text)) p)
      (Checked.both (optional "group_by" none textOrNull p)
        (optional "sort" .relevance (choice Search.Order.ofName?) p)))).map
    fun (query, selections, grouping, order) => ⟨query, Search.Selections.ofTexts selections, grouping, order⟩

def request (f : SearchForm) : Engine.Request := ⟨f.query, f.selections, Payload.ofOption .text f.grouping, Payload.text f.order.name⟩

end SearchForm

structure HighlightForm where
  text : Text
  query : Text
  mode : Marking.Mode

def HighlightForm.read (p : Payload) : Checked HighlightForm :=
  (Checked.both (required "text" Form.text p)
    (Checked.both (required "query" Form.text p) (optional "mode" .text (choice Marking.Mode.ofName?) p))).map
    fun (text, query, mode) => ⟨text, query, mode⟩

def scoredRecord (scores : Entries Text Nat) (r : Record) : Payload :=
  Payload.ofFields (r.dumpFields Instant.writeBrief ++
    [("score", .real (Binary64.ofNat (Engine.scoreIn scores r)))])

def facetPayload (counted : Entries Search.Value Nat) : Payload :=
  .list (counted.map fun c => Payload.ofFields [("value", .atom c.1.atom), ("count", .int c.2)])

def groupPayload (g : Search.Group) : Payload :=
  Payload.ofFields [("key", .text g.key), ("title", .text g.title),
    ("entity_type", Payload.ofOption (fun kind => .text (EntityKind.name kind)) g.kind),
    ("record_ids", .list (g.items.map fun r => .text r.id))]

def responseFields (r : Engine.Response) (traceId : Text) : List (String × Payload) :=
  [("query", .text r.query), ("total_results", .int r.total), ("is_monetary", .bool r.isMonetary),
  ("is_grouped", .bool r.isGrouped), ("records", .list (r.records.map (scoredRecord r.scores))),
  ("facets", .object (r.facets.map fun f => (f.1, facetPayload f.2))), ("groups", .list (r.groups.map groupPayload)),
  ("limited_groups", .list (r.limited.map groupPayload)), ("trace_id", .text traceId)]

/-- The trace that an answered search leaves. -/
def traceOf (id : Text) (elapsed : Binary64) (r : Engine.Response) : Trace :=
  ⟨id, r.query, r.total, r.isMonetary, Query.isCompound r.query, elapsed⟩

namespace App

def tooShortMessage (app : App) : Text :=
  "Query must be at least ".toText ++ Text.ofNat app.engine.config.minimumLength ++ " characters".toText

/-- Answers a search; `id` names its trace, and `elapsed` is the time it took. -/
def search (app : App) (now : Instant) (id : Text) (elapsed : Binary64) (form : SearchForm) : Answer × App :=
  if Query.isTooShort form.query app.engine.config.minimumLength then
    (Answer.refuse 422 app.tooShortMessage, app)
  else
    match app.engine.search now form.request with
    | .error fault => (.failure (.search fault), app)
    | .ok response =>
      (if app.traces.limitHolds then Answer.ok (responseFields response id) else .failure .limitNotHeld,
        { app with traces := app.traces.create (traceOf id elapsed response) })

def highlight (app : App) (form : HighlightForm) : Answer × App :=
  let (html, cache) := app.cache.highlight form.mode form.text form.query
  (Answer.ok [("html", .text html)], { app with cache := cache })

/-- Answers with the best field of a record and its snippet. -/
def snippet (app : App) (id query : Text) : Answer × App :=
  match app.engine.find? id with
  | none => (Answer.refuse 404 (Text.quoted (Engine.notFoundMessage id)), app)
  | some record =>
    match Marking.bestMatch app.cache record query with
    | (none, cache) =>
      (Answer.ok [("record_id", .text id), ("field", .null), ("snippet", .null)], { app with cache := cache })
    | (some found, cache) =>
      let (text, cache) := Marking.recordSnippet cache record query app.snippetLength
      (Answer.ok [("record_id", .text id), ("field", .text found.field), ("snippet", Payload.ofOption .text text)],
        { app with cache := cache })

def trace (app : App) (id : Text) : Answer :=
  match app.traces.get? id with
  | some t => Answer.ok t.dumpFields
  | none => Answer.refuse 404 (Text.quoted (TraceStore.notFoundMessage id))

def health (app : App) : Answer :=
  Answer.ok [("status", .text "ok".toText), ("record_count", .int app.engine.records.length),
    ("highlight_cache_entries", .int app.cache.size),
    ("trace_count", .int (app.traces.recent app.traces.limit).length)]

/-- Reads a form, or refuses it with the complaints about it. -/
def withForm {α : Type} (app : App) (form : Checked α) (use : α → Answer × App) : Answer × App :=
  match form with
  | .ok a => use a
  | .error complaints => (Answer.invalid complaints, app)

/-- Answers a call whose route is known. -/
def follow (app : App) (now : Instant) (id : Text) (elapsed : Binary64) (call : Call) : Route → Answer × App
  | .health => (app.health, app)
  | .search => app.withForm (readBody SearchForm.read call) (app.search now id elapsed)
  | .highlight => app.withForm (readBody HighlightForm.read call) app.highlight
  | .snippet record => app.withForm (readParams (required "query" text) call) (app.snippet record)
  | .traces => app.withForm (readParams (optional "limit" TraceStore.recentStandard whole) call) fun limit =>
    (Answer.ok [("items", .list ((app.traces.recent limit).map fun t => Payload.ofFields t.dumpFields))], app)
  | .trace trace => (app.trace trace, app)
  | .metrics => (Answer.ok app.traces.summary.dumpFields, app)

/-- The answer to a call before it is rendered; only a search uses the trace name and the time. -/
def respond (app : App) (now : Instant) (id : Text) (elapsed : Binary64) (call : Call) : Answer × App :=
  match Route.find? call.path with
  | none => (Answer.refuse 404 "Not Found".toText, app)
  | some route =>
    if call.method = route.method then app.follow now id elapsed call route
    else (Answer.refuse 405 "Method Not Allowed".toText, app)

/-- Answers a call and renders the answer when the work of the call is done. -/
def serve (render : Renderer) (app : App) (now : Instant) (id : Text) (elapsed : Binary64) (call : Call) : Answer × App :=
  let (answer, app) := app.respond now id elapsed call
  (answer.rendered render, app)

/-- Answers a call with the written form of the reply. -/
def handle : App → Instant → Text → Binary64 → Call → Answer × App := serve Renderer.written

end App
end LedgerSearch.Host

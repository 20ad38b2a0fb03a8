import LedgerSearch.Payload.Basic
import LedgerSearch.Record.Basic

/-! # Records written out
All fields of a record under their names, as a payload; how instants are written is left open. -/
namespace LedgerSearch

namespace Payload

def ofFields (fields : List (String × Payload)) : Payload := .object (fields.map fun f => (f.1.toText, f.2))

def ofOption {α : Type} (f : α → Payload) : Option α → Payload
  | none => null
  | some a => f a

end Payload

namespace FieldFlags

def dump (flags : FieldFlags) : Payload := .object (flags.map fun f => (f.1, .text f.2.name))

end FieldFlags

namespace LineItem

def dump (item : LineItem) : Payload :=
  Payload.ofFields [("line_item_id", .text item.id), ("title", .text item.title),
    ("description", .text item.description), ("quantity", .real item.quantity),
    ("unit_of_measure", .text item.unitOfMeasure), ("unit_price", .real item.unitPrice),
    ("total", .real item.total), ("item_type", .text item.kind.name), ("cost_code", item.costCode),
    ("cost_code_name", item.costCodeName), ("cost_code_category", item.costCodeCategory),
    ("cost_code_category_name", item.costCodeCategoryName), ("field_metadata", item.flags.dump)]

end LineItem

namespace Weather

def dump (w : Weather) : Payload :=
  Payload.ofFields [("description", .text w.description),
    ("temperature_current", Payload.ofOption .real w.temperature),
    ("temperature_low", Payload.ofOption .real w.temperatureLow), ("temperature_unit", .text w.temperatureUnit),
    ("wind_speed", Payload.ofOption .real w.windSpeed), ("wind_unit", .text w.windUnit),
    ("humidity", Payload.ofOption .real w.humidity),
    ("precipitation_total", Payload.ofOption .real w.precipitation),
    ("precipitation_unit", .text w.precipitationUnit)]

end Weather

namespace Notes

def dump (n : Notes) : Payload :=
  Payload.ofFields [("progress", n.progress), ("issues", n.issues),
    ("materials_delivered", n.materialsDelivered), ("additional", n.additional)]

end Notes

namespace Details

/-- The fields that only some kinds of records have. -/
def dumpFields (write : Instant → Text) : Details → List (String × Payload)
  | document d => [("document_type", .text d.documentType), ("author", .text d.author)]
  | financial f =>
    [("total_value", .real f.totalValue), ("issued_date", .text (write f.issued)),
    ("due_date", Payload.ofOption (fun i => .text (write i)) f.due),
    ("line_items", .list (f.lineItems.map LineItem.dump)), ("field_metadata", f.flags.dump)]
  | person p =>
    [("person_type", .text p.kind.name), ("job_title", .text p.jobTitle),
    ("associated_organization", p.organization), ("email", .text p.email), ("phone", .text p.phone),
    ("location", .text p.location), ("trade_focus", p.tradeFocus)]
  | organization o =>
    [("organization_type", .text o.kind.name), ("trade_focus", .text o.tradeFocus),
    ("service_area", .text o.serviceArea), ("primary_contact", .text o.primaryContact),
    ("phone", .text o.phone), ("email", .text o.email), ("website", o.website)]
  | quickLink q =>
    [("path", .text q.path), ("description", .text q.description), ("icon", .text q.icon), ("url", .text q.url),
    ("trigger_queries", .list (q.triggers.map .text))]
  | dailyLog l =>
    [("log_date", Payload.ofOption (fun i => .text (write i)) l.logDate), ("author", .text l.author),
    ("weather", Payload.ofOption Weather.dump l.weather), ("weather_notes", l.weatherNotes),
    ("notes", l.notes.dump), ("attachments", .list (l.attachments.map .text))]

end Details

namespace Record

def dumpFields (write : Instant → Text) (r : Record) : List (String × Payload) :=
  [("id", .text r.id), ("title", .text r.title), ("summary", .text r.summary), ("project", .text r.project),
  ("client", .text r.client), ("status", .text r.status), ("tags", .list (r.tags.map .text)),
  ("metadata", .object (r.metadata.map fun m => (m.1, .atom m.2))), ("updated_at", .text (write r.updatedAt)),
  ("created_at", Payload.ofOption (fun i => .text (write i)) r.createdAt),
  ("entity_type", .text r.kind.name)] ++ r.details.dumpFields write

def dump (write : Instant → Text) (r : Record) : Payload := Payload.ofFields (r.dumpFields write)

end Record
end LedgerSearch

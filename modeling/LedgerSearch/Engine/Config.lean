import LedgerSearch.Form.Field
import LedgerSearch.Marking.Cache
import LedgerSearch.Record.Dump
import LedgerSearch.Search.Group
import LedgerSearch.Search.Order

/-! # Configuration
How a search walks the corpus, how many records groups show, and how marked texts are kept. -/
namespace LedgerSearch.Engine

open Form

structure SearchConfig where
  batchSize : Nat
  minimumLength : Nat
  order : Search.Order
  batchSize_pos : 1 ≤ batchSize

namespace SearchConfig

def standard : SearchConfig := ⟨150, 2, .relevance, by decide⟩

def read (p : Payload) : Checked SearchConfig :=
  (Checked.both (optional "batch_size" ⟨150, by decide⟩ (wholeFrom 1) p)
    (Checked.both (optional "min_query_length" ⟨2, by decide⟩ (wholeFrom 0) p)
      (optional "default_sort" .relevance (choice Search.Order.ofName?) p))).map fun c =>
    ⟨c.1.1, c.2.1.1, c.2.2, c.1.2⟩

def dump (c : SearchConfig) : Payload :=
  Payload.ofFields [("batch_size", .int c.batchSize), ("min_query_length", .int c.minimumLength),
    ("default_sort", .text c.order.name)]

end SearchConfig

/-- The limits of a form; a limit for a single key may be any whole number. -/
def readLimits (p : Payload) : Checked Search.GroupLimits :=
  (Checked.both (optional "default_limit" ⟨4, by decide⟩ (wholeFrom 0) p)
    (optional "limits" [] (entriesOf whole) p)).map fun c => ⟨c.1.1, c.2⟩

def dumpWholes (entries : Entries Text Int) : Payload := .object (entries.map fun e => (e.1, .int e.2))

def dumpLimits (l : Search.GroupLimits) : Payload :=
  Payload.ofFields [("default_limit", .int l.standard), ("limits", dumpWholes l.byKey)]

structure MarkingConfig where
  cacheSize : Nat
  openingLength : Nat
  snippetLength : Nat
  openingLength_pos : 1 ≤ openingLength
  snippetLength_ge : 10 ≤ snippetLength

namespace MarkingConfig

def standard : MarkingConfig := ⟨1000, 100, 100, by decide, by decide⟩

def read (p : Payload) : Checked MarkingConfig :=
  (Checked.both (optional "cache_size" ⟨1000, by decide⟩ (wholeFrom 0) p)
    (Checked.both (optional "cache_key_prefix_chars" ⟨100, by decide⟩ (wholeFrom 1) p)
      (optional "snippet_max_length" ⟨100, by decide⟩ (wholeFrom 10) p))).map fun c =>
    ⟨c.1.1, c.2.1.1, c.2.2.1, c.2.1.2, c.2.2.2⟩

def dump (c : MarkingConfig) : Payload :=
  Payload.ofFields [("cache_size", .int c.cacheSize), ("cache_key_prefix_chars", .int c.openingLength),
    ("snippet_max_length", .int c.snippetLength)]

/-- An empty cache of the configured size. -/
def cache (c : MarkingConfig) : Marking.Cache := Marking.Cache.empty c.cacheSize c.openingLength

end MarkingConfig
end LedgerSearch.Engine

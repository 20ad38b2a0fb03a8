import LedgerSearch.Entries
import LedgerSearch.Text.Blank

/-! # Log levels
A level is given by its name, in any letter case and with blanks around it; an unknown name stands for
the level of plain information. -/
namespace LedgerSearch.Host

/-- The names of levels with their severities. -/
def levelNames : Entries Text Nat :=
  [("NOTSET".toText, 0), ("DEBUG".toText, 10), ("INFO".toText, 20), ("WARN".toText, 30), ("WARNING".toText, 30),
  ("ERROR".toText, 40), ("FATAL".toText, 50), ("CRITICAL".toText, 50)]

def standardLevel : Nat := 20

/-- Characters beyond ASCII whose capital form is plain capital letters. -/
def foreignCapitals : Entries CodePoint Text :=
  [('ı', "I".toText), ('ſ', "S".toText), ('ß', "SS".toText), ('ﬀ', "FF".toText), ('ﬁ', "FI".toText),
  ('ﬂ', "FL".toText), ('ﬃ', "FFI".toText), ('ﬄ', "FFL".toText), ('ﬅ', "ST".toText), ('ﬆ', "ST".toText)]

/-- The plain capital letters of a character; one that has none stands for itself. -/
def plainCapitals (c : CodePoint) : Text := (Entries.find? c foreignCapitals).getD [c.toUpper]

/-- The severity of a level. -/
def severity (name : Text) : Nat :=
  (Entries.find? ((Text.strip name).flatMap plainCapitals) levelNames).getD standardLevel

/-- The loggers of the engine and those of the server around it. -/
def engineLoggers : List Text :=
  ["record_search.engine".toText, "record_search.matching".toText, "record_search.facets".toText,
  "record_search.highlight".toText, "record_search.ingest".toText]

def serverLoggers : List Text := ["uvicorn".toText, "uvicorn.access".toText, "uvicorn.error".toText]

/-- The severities that are set for all loggers, and how many handlers are added. -/
structure LogSetup where
  root : Nat
  levels : Entries Text Nat
  handlersAdded : Nat
  deriving Repr

/-- The setup for two level names; a handler is added only where there is none. -/
def logSetup (server engine : Text) (handlers : Nat) : LogSetup where
  root := severity server
  levels := engineLoggers.map (fun l => (l, severity engine)) ++ serverLoggers.map fun l => (l, severity server)
  handlersAdded := if handlers = 0 then 1 else 0

end LedgerSearch.Host

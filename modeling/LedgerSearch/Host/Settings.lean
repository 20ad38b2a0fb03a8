import LedgerSearch.Engine.Config
import LedgerSearch.Payload.Reader
import LedgerSearch.Text.Lower

/-! # Settings from the environment
A setting is a variable with a common beginning, in any letter case. Numbers are read from texts, and
the limits of groups from an object written out. -/
namespace LedgerSearch.Host

open Form

structure Settings where
  corpusPath : Text
  logLevel : Text
  engineLogLevel : Text
  defaultGroupLimit : Int
  groupLimits : Entries Text Int
  batchSize : Int
  minimumLength : Int
  cacheSize : Int
  deriving Repr

/-- Why no settings can be read. -/
inductive SettingsFault
  | unreadableObject
  | defects (complaints : List Complaint)
  deriving Repr

namespace Settings

/-- The beginning of the names of all settings. -/
def opening : Text := "record_search_".toText

/-- The settings in an environment, under their names in small letters; of equal names the last one counts. -/
def inEnvironment (env : List (Text × Text)) : Entries Text Text :=
  Entries.ofPairs (env.filterMap fun v =>
    let name := Text.lower v.1
    if opening.isPrefixOf name then some (name.drop opening.length, v.2) else none)

/-- The limits of groups; a variable that holds null counts as absent. -/
def limitsPayload? (vars : Entries Text Text) : Except SettingsFault (Option Payload) :=
  match Entries.find? "group_limits".toText vars with
  | none => .ok none
  | some t =>
    match Payload.read? t with
    | none => .error .unreadableObject
    | some p => .ok (if p.isNull then none else some p)

/-- The form that variables fill in. -/
def form (vars : Entries Text Text) (limits : Option Payload) : Payload :=
  .object ((vars.filter fun v => v.1 != "group_limits".toText).map (fun v => (v.1, Payload.text v.2)) ++
    (limits.map fun p => ("group_limits".toText, p)).toList)

def readForm (p : Payload) : Checked Settings :=
  (Checked.both (optional "corpus_path" "data/search_corpus.json".toText text p)
    (Checked.both (optional "log_level" "INFO".toText text p)
      (Checked.both (optional "log_level_engine" "INFO".toText text p)
        (Checked.both (optional "default_group_limit" 4 whole p)
          (Checked.both (optional "group_limits" [] (entriesOf whole) p)
            (Checked.both (optional "batch_size" 150 whole p)
              (Checked.both (optional "min_query_length" 2 whole p)
                (optional "highlight_cache_size" 1000 whole p)))))))).map
    fun (path, level, engineLevel, limit, limits, batch, least, cache) =>
      ⟨path, level, engineLevel, limit, limits, batch, least, cache⟩

/-- The settings that an environment holds. -/
def ofEnvironment (env : List (Text × Text)) : Except SettingsFault Settings := do
  let limits ← limitsPayload? (inEnvironment env)
  (readForm (form (inEnvironment env) limits)).mapError .defects

def dump (s : Settings) : Payload :=
  Payload.ofFields [("corpus_path", .text s.corpusPath), ("log_level", .text s.logLevel),
    ("log_level_engine", .text s.engineLogLevel), ("default_group_limit", .int s.defaultGroupLimit),
    ("group_limits", Engine.dumpWholes s.groupLimits), ("batch_size", .int s.batchSize),
    ("min_query_length", .int s.minimumLength), ("highlight_cache_size", .int s.cacheSize)]

def searchConfig (s : Settings) : Checked Engine.SearchConfig :=
  Engine.SearchConfig.read
    (Payload.ofFields [("batch_size", .int s.batchSize), ("min_query_length", .int s.minimumLength)])

def groupLimitConfig (s : Settings) : Checked Search.GroupLimits :=
  Engine.readLimits
    (Payload.ofFields [("default_limit", .int s.defaultGroupLimit), ("limits", Engine.dumpWholes s.groupLimits)])

def markingConfig (s : Settings) : Checked Engine.MarkingConfig :=
  Engine.MarkingConfig.read (Payload.ofFields [("cache_size", .int s.cacheSize)])

end Settings
end LedgerSearch.Host

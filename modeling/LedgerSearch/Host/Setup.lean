import LedgerSearch.Engine.Search
import LedgerSearch.Host.Settings
import LedgerSearch.Record.Corpus

/-! # Setting up an engine
An engine is made of a corpus and three configurations. The corpus is read first, so a fault in it
comes before any complaint about a configuration. -/
namespace LedgerSearch.Host

open Form

/-- Why no engine can be set up. -/
inductive SetupFault
  | settings (fault : SettingsFault)
  | corpus (fault : EntryError)
  | config (complaints : List Complaint)
  deriving Repr

structure Setup where
  engine : Engine
  marking : Engine.MarkingConfig

namespace Setup

def assemble (corpus : Except EntryError Corpus) (search : Checked Engine.SearchConfig)
    (limits : Checked Search.GroupLimits) (marking : Checked Engine.MarkingConfig) : Except SetupFault Setup := do
  let corpus ← corpus.mapError .corpus
  let search ← search.mapError .config
  let limits ← limits.mapError .config
  let marking ← marking.mapError .config
  return ⟨⟨corpus.records, search, limits⟩, marking⟩

/-- The corpus in a file's text; a file that is missing or cannot be read counts as empty. -/
def loadCorpus (file : Option Text) : Except EntryError Corpus :=
  (file.bind Corpus.ofText?).getD (.ok Corpus.empty)

/-- The engine that an environment describes, over the corpus in a file. -/
def ofEnvironment (env : List (Text × Text)) (file : Option Text) : Except SetupFault Setup := do
  let settings ← (Settings.ofEnvironment env).mapError .settings
  assemble (loadCorpus file) settings.searchConfig settings.groupLimitConfig settings.markingConfig

end Setup
end LedgerSearch.Host

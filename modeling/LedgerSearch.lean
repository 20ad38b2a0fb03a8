import LedgerSearch.Calendar.Date
import LedgerSearch.Calendar.Instant
import LedgerSearch.Calendar.Printer
import LedgerSearch.Calendar.Reader
import LedgerSearch.Engine.Config
import LedgerSearch.Engine.Search
import LedgerSearch.Engine.Session
import LedgerSearch.Entries
import LedgerSearch.Form.Defect
import LedgerSearch.Form.Field
import LedgerSearch.Form.Whole
import LedgerSearch.Host.Address
import LedgerSearch.Host.App
import LedgerSearch.Host.LogLevel
import LedgerSearch.Host.Route
import LedgerSearch.Host.Settings
import LedgerSearch.Host.Setup
import LedgerSearch.Host.Trace
import LedgerSearch.Marking.Amount
import LedgerSearch.Marking.Cache
import LedgerSearch.Marking.Highlighter
import LedgerSearch.Marking.Markup
import LedgerSearch.Marking.Snippet
import LedgerSearch.Marking.Span
import LedgerSearch.Number.Binary64
import LedgerSearch.Number.Notation
import LedgerSearch.Number.Numeral
import LedgerSearch.Number.Shortest
import LedgerSearch.Payload.Basic
import LedgerSearch.Payload.Reader
import LedgerSearch.Payload.Spelling
import LedgerSearch.Payload.Writer
import LedgerSearch.Proofs.Outcome
import LedgerSearch.Proofs.StableOrder
import LedgerSearch.Query.Amount
import LedgerSearch.Query.Range
import LedgerSearch.Query.Restriction
import LedgerSearch.Query.Tree
import LedgerSearch.Record.Basic
import LedgerSearch.Record.Corpus
import LedgerSearch.Record.Dump
import LedgerSearch.Record.Entry
import LedgerSearch.Record.Flag
import LedgerSearch.Record.Kind
import LedgerSearch.Search.Facet
import LedgerSearch.Search.Group
import LedgerSearch.Search.Haystack
import LedgerSearch.Search.Match
import LedgerSearch.Search.Order
import LedgerSearch.Search.Score
import LedgerSearch.Search.Selection
import LedgerSearch.Sorting
import LedgerSearch.Sorting.Merge
import LedgerSearch.Sorting.Runs
import LedgerSearch.Text.Basic
import LedgerSearch.Text.Blank
import LedgerSearch.Text.Bytes
import LedgerSearch.Text.CaseTable
import LedgerSearch.Text.Code
import LedgerSearch.Text.CodePoint
import LedgerSearch.Text.Digit
import LedgerSearch.Text.LetterMatch
import LedgerSearch.Text.Lower
import LedgerSearch.Text.Printed
import LedgerSearch.Proofs.Results
import LedgerSearch.Proofs.Words
import LedgerSearch.Proofs.Grammar
import LedgerSearch.Proofs.Composition
import LedgerSearch.Proofs.VisibleAmounts
import LedgerSearch.Proofs.Spans
import LedgerSearch.Proofs.Markup
import LedgerSearch.Proofs.RenderCache
import LedgerSearch.Proofs.CountedValues
import LedgerSearch.Proofs.Proximity
import LedgerSearch.Proofs.TextFields
import LedgerSearch.Proofs.OpenRanges
import LedgerSearch.Proofs.LoadedRecords
import LedgerSearch.Proofs.WholeNumbers
import LedgerSearch.Proofs.EntryIsolation
import LedgerSearch.Proofs.Interleaving
import LedgerSearch.Proofs.Gathering
import LedgerSearch.Proofs.FacetCounts
import LedgerSearch.Proofs.DrillDown
import LedgerSearch.Proofs.Grouping
import LedgerSearch.Proofs.WrittenTrees
import LedgerSearch.Proofs.LowerWords
import LedgerSearch.Proofs.JoinedTexts
import LedgerSearch.Proofs.Spacing
import LedgerSearch.Proofs.SearchedTexts
import LedgerSearch.Proofs.LowerLetters
import LedgerSearch.Proofs.MarkedPlaces
import LedgerSearch.Proofs.Occurrences
import LedgerSearch.Proofs.FreeOccurrences
import LedgerSearch.Proofs.OwnTexts
import LedgerSearch.Proofs.ScoredHits
import LedgerSearch.Proofs.ScoreBounds
import LedgerSearch.Proofs.WrittenPayloads
import LedgerSearch.Proofs.FiniteReplies
import LedgerSearch.Proofs.TraceRetention
import LedgerSearch.Proofs.HostRuns
import LedgerSearch.Proofs.UnsearchedFields
import LedgerSearch.Proofs.AddedLines
import LedgerSearch.Proofs.DroppedDollar
import LedgerSearch.Proofs.TypedAmounts
import LedgerSearch.Proofs.FurtherDigits
import LedgerSearch.Proofs.NumberPieces
import LedgerSearch.Proofs.RangeSpellings
import LedgerSearch.Proofs.GroupedRanges
import LedgerSearch.Proofs.TokenClasses
import LedgerSearch.Proofs.CacheQueue
import LedgerSearch.Proofs.ReadMarks
import LedgerSearch.Proofs.AgreeingHits
import LedgerSearch.Proofs.NumberMarks
import LedgerSearch.Proofs.RoundedCounts
import LedgerSearch.Proofs.ShortestDigits
import LedgerSearch.Proofs.ReadBack
import LedgerSearch.Proofs.WrittenForms
import LedgerSearch.Proofs.ExactMarks
import LedgerSearch.Proofs.BestField
import LedgerSearch.Proofs.SnippetWindow
import LedgerSearch.Proofs.RecordShapes
import LedgerSearch.Proofs.TraceSummaries
import LedgerSearch.Proofs.OccupiedPositions
import LedgerSearch.Proofs.RecentTraces
import LedgerSearch.Proofs.WrittenInstants
import LedgerSearch.Proofs.RoundedShares
import LedgerSearch.Proofs.HighLatency
import LedgerSearch.Proofs.TokenRuns

import LedgerSearch.Marking.Amount
import LedgerSearch.Marking.Cache
import LedgerSearch.Marking.Markup
import LedgerSearch.Payload.Spelling
import LedgerSearch.Query.Range
import LedgerSearch.Query.Restriction
import LedgerSearch.Query.Tree
import LedgerSearch.Text.LetterMatch

/-! # Highlighted texts
Text mode marks the terms of a query, longer ones first. Monetary mode marks amounts as they are
written, then numbers that a token begins, then numbers in a range, then the other words. What one
pass has marked no later one touches. -/
namespace LedgerSearch.Marking

inductive Mode | text | monetary deriving DecidableEq, Repr

namespace Mode

def all : List Mode := [text, monetary]

def name : Mode → Text
  | text => "text".toText
  | monetary => "monetary".toText

def ofName? (name : Text) : Option Mode := all.find? fun m => m.name == name

end Mode

/-- A mode that is none, as it is shown in messages. -/
structure UnknownMode where
  shown : Text
  deriving DecidableEq, Repr

def UnknownMode.message (u : UnknownMode) : Text := u.shown ++ " is not a valid HighlightMode".toText

def Mode.ofPayload (p : Payload) : Except UnknownMode Mode :=
  match p.text?.bind Mode.ofName? with
  | some mode => .ok mode
  | none => .error ⟨p.literal⟩

/-- What a mark is set for. -/
inductive Reason | term | exactAmount | begunAmount | amountInRange | wordBesideAmount deriving DecidableEq, Repr

/-- The style of the marks that are set for a reason. -/
def Reason.style : Reason → Text
  | term => "search-highlight".toText
  | exactAmount => "monetary-highlight-exact".toText
  | begunAmount => "monetary-highlight-partial".toText
  | amountInRange => "monetary-highlight-range".toText
  | wordBesideAmount => "monetary-highlight-text".toText

def spanFor (reason : Reason) (bounds : Nat × Nat) : Span := ⟨bounds.1, bounds.2, reason.style⟩

/-- Terms with the longest first. -/
def longestFirst (terms : List Text) : List Text :=
  Sorting.sort (fun a b => decide (b.length ≤ a.length)) terms

/-- Claims every occurrence of every term. -/
def markTerms (text : Text) (terms : List Text) (reason : Reason) (t : Tracker) : Tracker :=
  t.claimAll ((longestFirst terms).flatMap fun term => (Text.occurrences term text).map (spanFor reason))

/-- The bounds of the amounts that a token with a dollar sign names, as they are written in a text. -/
def exactBounds (text token : Text) : List (Nat × Nat) :=
  if token.head? == some '$' then
    match h : Query.amount? token with
    | some amount =>
      (writtenForms amount (Query.isFinite_of_amount? h) token).flatMap fun form => standingAlone form text
    | none => []
  else []

def markExact (text query : Text) (t : Tracker) : Tracker :=
  t.claimAll (((Query.tokens query).flatMap (exactBounds text)).map (spanFor .exactAmount))

/-- Claims the numbers of a text that pass a test. -/
def markNumbers (text : Text) (test : Text → Bool) (reason : Reason) (t : Tracker) : Tracker :=
  t.claimAll (((numbers text).filter fun n => test n.value).map fun n => spanFor reason (n.start, n.stop))

/-- Claims the numbers that an amount token admits. -/
def markBegun (text : Text) (tokens : List Text) (t : Tracker) : Tracker :=
  markNumbers text (fun value => tokens.any fun token => Query.admits token value) .begunAmount t

/-- Claims the numbers that lie in a range. -/
def markRange (text : Text) (range : PriceRange) (t : Tracker) : Tracker :=
  markNumbers text (fun value => (Query.leadingNumber? value).any range.contains) .amountInRange t

def markMoney (text query : Text) (t : Tracker) : Tracker :=
  let tokens := Query.moneyTokens query
  if tokens.isEmpty then t
  else
    let exact := markExact text query t
    let begun := markBegun text (tokens.amounts.map Prod.fst) exact
    let ranged := match tokens.range with
      | some range => markRange text range begun
      | none => begun
    markTerms text tokens.words .wordBesideAmount ranged

/-- The spans that a query marks in a text. -/
def marks (mode : Mode) (text query : Text) : List Span :=
  let tracker := match mode with
    | .text => markTerms text (Query.searchTerms query) .term Tracker.empty
    | .monetary => markMoney text query Tracker.empty
  tracker.spans

/-- Nothing is looked for in an empty text or with a blank query. -/
def isIdle (text query : Text) : Bool := text.isEmpty || (Text.strip query).isEmpty

/-- The highlighted text, rendered anew. -/
def highlight (mode : Mode) (text query : Text) : Text :=
  if isIdle text query then escape text else render text (marks mode text query)

/-- The highlighted text, taken from the cache if it is there, and the cache afterwards. -/
def Cache.highlight (c : Cache) (mode : Mode) (text query : Text) : Text × Cache :=
  if isIdle text query then (escape text, c)
  else
    let key := c.key mode.name text query
    match c.get? key with
    | some html => (html, c)
    | none =>
      let html := Marking.highlight mode text query
      (html, c.put key html)

end LedgerSearch.Marking

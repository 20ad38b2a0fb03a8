import LedgerSearch.Text.CaseTable

/-! # Lower and folded form of a text
In the lower form letters are mapped one by one, with two exceptions: a dotted capital I becomes two
characters, and a capital sigma takes its final form at the end of a word. Two texts that differ in case
alone have one folded form, so it orders titles without regard to case. -/
namespace LedgerSearch.Text

def isPlainCapital (c : CodePoint) : Bool := 'A'.toNat ≤ c.toNat && c.toNat ≤ 'Z'.toNat

def isPlainLetter (c : CodePoint) : Bool :=
  isPlainCapital c || ('a'.toNat ≤ c.toNat && c.toNat ≤ 'z'.toNat)

/-- The lower form of a character that stays one character. -/
def lowerLetter (c : CodePoint) : CodePoint :=
  if c.toNat < 128 then (if isPlainCapital c then CodePoint.ofNat (c.toNat + 32) else c)
  else Shift.apply lowerRuns c

def isCased (c : CodePoint) : Bool :=
  if c.toNat < 128 then isPlainLetter c else inRanges casedRanges c

def isCaseIgnorable (c : CodePoint) : Bool :=
  if c.toNat < 128 then c = '\'' || c = '.' || c = ':' || c = '^' || c = '\x60'
  else inRanges caseIgnorableRanges c

/-- Past its case-ignorable characters the text goes on with a cased letter. -/
def reachesCased (t : Text) : Bool :=
  match t.dropWhile isCaseIgnorable with
  | [] => false
  | c :: _ => isCased c

/-- The lower form of a character between the text before it, read backwards, and the text after it. -/
def lowerAt (before : Text) (c : CodePoint) (after : Text) : Text :=
  if c = 'Σ' then [if reachesCased before && !reachesCased after then 'ς' else 'σ']
  else if c = 'İ' then ['i', '\u0307']
  else [lowerLetter c]

def lowerAfter (before : Text) : Text → Text
  | [] => []
  | c :: rest => lowerAt before c rest ++ lowerAfter (c :: before) rest

/-- The lower form of a text. -/
def lower (t : Text) : Text := lowerAfter [] t

def foldLetter (c : CodePoint) : Text :=
  if c.toNat < 128 then [lowerLetter c]
  else match foldExpansions.find? fun e => e.1 == c.toNat with
    | some e => e.2.map CodePoint.ofNat
    | none => [Shift.apply foldRuns c]

def fold (t : Text) : Text := t.flatMap foldLetter

/-- The order of texts by code points, character by character. -/
def le : Text → Text → Bool
  | [], _ => true
  | _ :: _, [] => false
  | a :: s, b :: t => a.toNat < b.toNat || (a == b && le s t)

end LedgerSearch.Text

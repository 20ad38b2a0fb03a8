import LedgerSearch.Text.Code

/-! # Blank characters
Stripping, splitting into words and the blank part of a pattern all use one set of 29 characters. -/
namespace LedgerSearch.Text

def blankRanges : List CodeRange :=
  [
  (9, 13), (28, 32), (133, 133), (160, 160), (5760, 5760), (8192, 8202), (8232, 8233),
  (8239, 8239), (8287, 8287), (12288, 12288)]

def isBlank (c : CodePoint) : Bool := inRanges blankRanges c

def stripStart (t : Text) : Text := t.dropWhile isBlank

def stripEnd (t : Text) : Text := dropEndWhile isBlank t

/-- The text without blanks at its two ends. -/
def strip (t : Text) : Text := stripEnd (stripStart t)

/-- The text without any blank. -/
def dropBlanks (t : Text) : Text := t.filter fun c => !isBlank c

/-- The maximal runs of characters that are not blank. -/
def words : Text → List Text
  | [] => []
  | c :: rest =>
    if isBlank c then words rest
    else match rest with
      | [] => [[c]]
      | d :: _ =>
        if isBlank d then [c] :: words rest
        else match words rest with
          | [] => [[c]]
          | w :: ws => (c :: w) :: ws

end LedgerSearch.Text

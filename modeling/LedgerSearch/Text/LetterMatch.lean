import LedgerSearch.Text.Lower

/-! # Letters that match without regard to case
Two characters match when their small letters are the same or are twins: small letters of one
class that no case map joins. -/
namespace LedgerSearch.Text

/-- Classes of small letters that match each other; the first of each stands for its class. -/
def twinClasses : List (List CodePoint) :=
  [['\u0069', '\u0131'], ['\u0073', '\u017f'], ['\u00b5', '\u03bc'], ['\u0345', '\u03b9',
  '\u1fbe'], ['\u0390', '\u1fd3'], ['\u03b0', '\u1fe3'], ['\u03b2', '\u03d0'], ['\u03b5',
  '\u03f5'], ['\u03b8', '\u03d1'], ['\u03ba', '\u03f0'], ['\u03c0', '\u03d6'], ['\u03c1',
  '\u03f1'], ['\u03c2', '\u03c3'], ['\u03c6', '\u03d5'], ['\u0432', '\u1c80'], ['\u0434',
  '\u1c81'], ['\u043e', '\u1c82'], ['\u0441', '\u1c83'], ['\u0442', '\u1c84', '\u1c85'],
  ['\u044a', '\u1c86'], ['\u0463', '\u1c87'], ['\u1c88', '\ua64b'], ['\u1e61', '\u1e9b'],
  ['\ufb05', '\ufb06']]

/-- The small letter of a character, the dotted capital I counting as a plain one. -/
def smallLetter (c : CodePoint) : CodePoint := if c = 'İ' then 'i' else lowerLetter c

/-- The letter that stands for all letters matching `c`. -/
def matchKey (c : CodePoint) : CodePoint :=
  let small := smallLetter c
  match twinClasses.find? fun twins => twins.contains small with
  | some twins => twins.headD small
  | none => small

def lettersMatch (a b : CodePoint) : Bool := matchKey a == matchKey b

/-- The text begins with the term, letter case aside. -/
def startsMatching (term text : Text) : Bool :=
  match term, text with
  | [], _ => true
  | _ :: _, [] => false
  | a :: term, b :: text => lettersMatch a b && startsMatching term text

/-- Bounds of the leftmost occurrences of a term that do not overlap, letter case aside;
`skip` characters belong to an occurrence already found. -/
def occurrencesFrom (term : Text) (offset skip : Nat) : Text → List (Nat × Nat)
  | [] => []
  | c :: rest =>
    match skip with
    | n + 1 => occurrencesFrom term (offset + 1) n rest
    | 0 =>
      if startsMatching term (c :: rest) then
        (offset, offset + term.length) :: occurrencesFrom term (offset + 1) (term.length - 1) rest
      else occurrencesFrom term (offset + 1) 0 rest

def occurrences (term text : Text) : List (Nat × Nat) := occurrencesFrom term 0 0 text

end LedgerSearch.Text

import LedgerSearch.Marking.Span

/-! # Marked text
A text is cut at the bounds of spans; the pieces are escaped, and those inside of spans are marked. -/
namespace LedgerSearch.Marking

/-- The written form of a character, which holds no angle bracket and starts with an ampersand only
if it stands for another character. -/
def escapeChar (c : CodePoint) : Text :=
  if c = '&' then "&amp;".toText
  else if c = '<' then "&lt;".toText
  else if c = '>' then "&gt;".toText
  else [c]

def escape (t : Text) : Text := t.flatMap escapeChar

inductive Piece
  | plain (content : Text)
  | marked (style content : Text)
  deriving DecidableEq, Repr

namespace Piece

def write : Piece → Text
  | plain content => escape content
  | marked style content =>
    "<mark class=\"".toText ++ style ++ "\">".toText ++ escape content ++ "</mark>".toText

end Piece

/-- The pieces of a text from a position on. -/
def pieces (text : Text) (position : Int) : List Span → List Piece
  | [] => [.plain (Text.cutFrom text position)]
  | s :: rest =>
    .plain (Text.cut text position s.start) :: .marked s.style (Text.cut text s.start s.stop) :: pieces text s.stop rest

/-- A text with spans marked in it. -/
def render (text : Text) (spans : List Span) : Text := (pieces text 0 spans).flatMap Piece.write

end LedgerSearch.Marking

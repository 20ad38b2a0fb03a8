import LedgerSearch.Payload.Basic
import LedgerSearch.Number.Notation
import LedgerSearch.Text.Printed

/-! # Payloads spelled out as text
Inside lists and objects texts are quoted; a text on its own stands for itself. -/
namespace LedgerSearch

namespace Atom

/-- The spelling of an atom inside a list or an object. -/
def literal : Atom → Text
  | null => "None".toText
  | bool b => if b then "True".toText else "False".toText
  | int n => Text.ofInt n
  | real x => x.write
  | text t => Text.quoted t

/-- The text an atom stands for. -/
def spell : Atom → Text
  | text t => t
  | a => a.literal

end Atom

namespace Payload

mutual
def literal : Payload → Text
  | .atom a => a.literal
  | list items => "[".toText ++ Text.joinWith ", ".toText (literals items) ++ "]".toText
  | object fields => "\x7b".toText ++ Text.joinWith ", ".toText (fieldLiterals fields) ++ "\x7d".toText

def literals : List Payload → List Text
  | [] => []
  | p :: rest => literal p :: literals rest

def fieldLiterals : List (Text × Payload) → List Text
  | [] => []
  | (key, p) :: rest => (Text.quoted key ++ ": ".toText ++ literal p) :: fieldLiterals rest
end

/-- The text a payload stands for. -/
def spell : Payload → Text
  | .atom a => a.spell
  | p => p.literal

/-- The text of a payload, where null stands for no text. -/
def spellFilled : Payload → Text
  | .atom .null => []
  | p => p.spell

/-- The name of a payload's kind in messages. -/
def kindName : Payload → Text
  | .atom .null => "NoneType".toText
  | .atom (.bool _) => "bool".toText
  | .atom (.int _) => "int".toText
  | .atom (.real _) => "float".toText
  | .atom (.text _) => "str".toText
  | list _ => "list".toText
  | object _ => "dict".toText

end Payload
end LedgerSearch

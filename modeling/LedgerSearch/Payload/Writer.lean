import LedgerSearch.Number.Notation
import LedgerSearch.Payload.Reader
import LedgerSearch.Text.Bytes

/-! # Writing payloads
A payload is written without blanks between its parts; in texts only quotes, backslashes and controls are
escaped. What is written is then turned into bytes. Decimals that are not finite, whole numbers of too many
digits and halves have no written form. -/
namespace LedgerSearch

/-- A whole number of no more digits than a payload may hold. -/
def Payload.isShort (n : Int) : Bool := n.natAbs < Nat.pow 10 mostDigits

namespace Atom

/-- No decimal but a finite one. -/
def isFinite : Atom → Bool
  | real x => x.isFinite
  | _ => true

/-- No text with a half in it, and no whole number of too many digits. -/
def isPlain : Atom → Bool
  | int n => Payload.isShort n
  | text t => !t.any CodePoint.isHalf
  | _ => true

end Atom

namespace Payload

mutual
/-- A test of all atoms in a payload; the name of a field counts as a text. -/
def all (test : Atom → Bool) : Payload → Bool
  | .atom a => test a
  | list items => allItems test items
  | object fields => allFields test fields

def allItems (test : Atom → Bool) : List Payload → Bool
  | [] => true
  | p :: rest => all test p && allItems test rest

def allFields (test : Atom → Bool) : List (Text × Payload) → Bool
  | [] => true
  | (key, p) :: rest => test (.text key) && all test p && allFields test rest
end

abbrev hasFiniteNumbers (p : Payload) : Bool := p.all Atom.isFinite

abbrev isPlain (p : Payload) : Bool := p.all Atom.isPlain

/-- Why a payload has no written form; of neighbouring halves the first one is named, with its position. -/
inductive WriteFault
  | notFinite
  | tooManyDigits
  | halves (first : CodePoint) (start more : Nat)
  deriving DecidableEq, Repr

namespace WriteFault

def message : WriteFault → Text
  | notFinite => "Out of range float values are not JSON compliant".toText
  | tooManyDigits =>
    "Exceeds the limit (4300 digits) for integer string conversion; ".toText ++
      "use sys.set_int_max_str_digits() to increase the limit".toText
  | halves first start more =>
    let place := if more = 0 then
        " '\\u".toText ++ Text.hexDigits 4 first.toNat ++ "' in position ".toText ++ Text.ofNat start
      else "s in position ".toText ++ Text.ofNat start ++ "-".toText ++ Text.ofNat (start + more)
    "'utf-8' codec can't encode character".toText ++ place ++ ": surrogates not allowed".toText

end WriteFault

def escapeWritten (c : CodePoint) : Text :=
  if c = '"' || c = '\\' then ['\\', c]
  else if c = '\x08' then ['\\', 'b']
  else if c = '\x0c' then ['\\', 'f']
  else if c = '\n' then ['\\', 'n']
  else if c = '\r' then ['\\', 'r']
  else if c = '\t' then ['\\', 't']
  else if c.toNat < 32 then '\\' :: 'u' :: Text.hexDigits 4 c.toNat
  else [c]

def writeText (t : Text) : Text := "\"".toText ++ t.flatMap escapeWritten ++ "\"".toText

def writeAtom : Atom → Except WriteFault Text
  | .null => .ok "null".toText
  | .bool b => .ok (if b then "true" else "false").toText
  | .int n => if isShort n then .ok (Text.ofInt n) else .error .tooManyDigits
  | .real x => if x.isFinite then .ok x.write else .error .notFinite
  | .text t => .ok (writeText t)

mutual
/-- The written form of a payload; the first part of it that has none says why. -/
def write : Payload → Except WriteFault Text
  | .atom a => writeAtom a
  | list items => (writeItems items).map fun pieces => "[".toText ++ Text.joinWith ",".toText pieces ++ "]".toText
  | object fields =>
    (writeFields fields).map fun pieces => "\x7b".toText ++ Text.joinWith ",".toText pieces ++ "\x7d".toText

def writeItems : List Payload → Except WriteFault (List Text)
  | [] => .ok []
  | p :: rest => do return (← write p) :: (← writeItems rest)

def writeFields : List (Text × Payload) → Except WriteFault (List Text)
  | [] => .ok []
  | (key, p) :: rest => do return (writeText key ++ ":".toText ++ (← write p)) :: (← writeFields rest)
end

/-- The bytes of a text, if no half is in it. -/
def encodeText (t : Text) : Except WriteFault (List UInt8) :=
  match t.dropWhile fun c => !c.isHalf with
  | [] => .ok (Text.bytes t)
  | first :: rest =>
    .error (.halves first (t.takeWhile fun c => !c.isHalf).length (rest.takeWhile CodePoint.isHalf).length)

/-- The bytes of the written form of a payload. -/
def encode (p : Payload) : Except WriteFault (List UInt8) := write p >>= encodeText

end Payload
end LedgerSearch

import LedgerSearch.Entries
import LedgerSearch.Text.Bytes

/-! # Addresses
An address is a path, and after a question mark parameters. A number sign ends it. Escapes are a per
cent sign with two digits in base sixteen, which stand for a byte. -/
namespace LedgerSearch.Host

structure Address where
  path : Text
  params : List (Text × Text)
  deriving Repr

namespace Address

/-- The parts of a text between occurrences of a character. -/
def splitOn (separator : CodePoint) (t : Text) : List Text :=
  t.foldr (fun c parts => if c = separator then [] :: parts else (c :: parts.headD []) :: parts.drop 1) [[]]

/-- The bytes of a text whose escapes are resolved. -/
def unescapeBytes : Text → List UInt8
  | [] => []
  | '%' :: a :: b :: rest =>
    match Text.hexValue? a, Text.hexValue? b with
    | some high, some low => UInt8.ofNat (high * 16 + low) :: unescapeBytes rest
    | _, _ => CodePoint.bytes '%' ++ unescapeBytes (a :: b :: rest)
  | c :: rest => c.bytes ++ unescapeBytes rest

def unescape (t : Text) : Text := if t.contains '%' then Text.ofBytes (unescapeBytes t) else t

/-- Follows steps in place, one point, and steps back, two points. -/
def followSteps (done : List Text) (part : Text) : List Text :=
  if part = ".".toText then done
  else if part = "..".toText then (if done.tail.isEmpty && done.headD [] = [] then done else done.dropLast)
  else done ++ [part]

/-- The path without steps that cancel each other. -/
def straighten (path : Text) : Text := Text.joinWith ['/'] ((splitOn '/' path).foldl followSteps [])

/-- The path behind the name of a host and with one slash at its start. -/
def rooted (t : Text) : Text :=
  let path : Text := match t with
    | '/' :: '/' :: rest => rest.dropWhile (· != '/')
    | _ => t
  '/' :: path.dropWhile (· = '/')

/-- One parameter, where a plus sign stands for a blank. -/
def readParam (t : Text) : Text × Text :=
  let resolve (part : Text) := unescape (part.map fun c : CodePoint => if c = '+' then ' ' else c)
  (resolve (Text.before '=' t), resolve (Text.after '=' t))

/-- An address as it is written; the escapes of its path are resolved on the way and on arrival. -/
def read (t : Text) : Address :=
  let t := Text.before '#' t
  ⟨unescape (unescape (straighten (rooted (Text.before '?' t)))),
    ((splitOn '&' (Text.after '?' t)).filter fun p => !p.isEmpty).map readParam⟩

end Address
end LedgerSearch.Host

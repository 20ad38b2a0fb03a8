import LedgerSearch.Payload.Basic
import LedgerSearch.Number.Numeral

/-! # Reading payloads
One value with blanks around it. Numbers with a point or an exponent are decimals, control characters
inside texts and commas before a closing bracket are refused, and of equal keys the last value counts.
A whole number of too many digits stops the reading where it stands. -/
namespace LedgerSearch.Payload

/-- Why no payload can be read. -/
inductive ReadFault
  | malformed
  | tooManyDigits (count : Nat)
  deriving DecidableEq, Repr

/-- The greatest number of digits of a whole number. -/
def mostDigits : Nat := 4300

def isLayout (c : CodePoint) : Bool := c = ' ' || c = '\t' || c = '\n' || c = '\r'

def skipLayout (t : Text) : Text := t.dropWhile isLayout

def hexCode? (a b c d : CodePoint) : Option Nat := do
  let a ← Text.hexValue? a
  let b ← Text.hexValue? b
  let c ← Text.hexValue? c
  let d ← Text.hexValue? d
  return ((a * 16 + b) * 16 + c) * 16 + d

def isLeading (unit : Nat) : Bool := 0xd800 ≤ unit && unit ≤ 0xdbff

def isTrailing (unit : Nat) : Bool := 0xdc00 ≤ unit && unit ≤ 0xdfff

def pairChar (leading trailing : Nat) : CodePoint :=
  CodePoint.ofNat (0x10000 + (leading - 0xd800) * 0x400 + (trailing - 0xdc00))

/-- The character that a backslash and one letter stand for. -/
def escapedChar? : CodePoint → Option CodePoint
  | '"' => some '"'
  | '\\' => some '\\'
  | '/' => some '/'
  | 'b' => some '\x08'
  | 'f' => some '\x0c'
  | 'n' => some '\n'
  | 'r' => some '\r'
  | 't' => some '\t'
  | _ => none

/-- A character of a quoted text, written as such or by a code unit. -/
inductive Piece
  | char (c : CodePoint)
  | unit (n : Nat)

/-- The characters of pieces; two units that belong together are one character. -/
def joinPieces : List Piece → Text
  | [] => []
  | .char c :: rest => c :: joinPieces rest
  | .unit a :: .unit b :: rest =>
    if isLeading a && isTrailing b then pairChar a b :: joinPieces rest else CodePoint.ofNat a :: joinPieces (.unit b :: rest)
  | .unit a :: rest => CodePoint.ofNat a :: joinPieces rest

/-- The pieces up to the closing quote, and what follows the quote. -/
def readPieces : Text → Option (List Piece × Text)
  | [] => none
  | '"' :: rest => some ([], rest)
  | '\\' :: 'u' :: a :: b :: c :: d :: rest =>
    match hexCode? a b c d with
    | none => none
    | some n => (readPieces rest).map fun r => (.unit n :: r.1, r.2)
  | '\\' :: c :: rest =>
    match escapedChar? c with
    | none => none
    | some e => (readPieces rest).map fun r => (.char e :: r.1, r.2)
  | c :: rest =>
    if c.toNat < 32 ∨ c = '\\' then none
    else (readPieces rest).map fun r => (.char c :: r.1, r.2)

/-- The text up to the closing quote, and what follows the quote. -/
def readText (t : Text) : Except ReadFault (Text × Text) :=
  match readPieces t with
  | some (pieces, rest) => .ok (joinPieces pieces, rest)
  | none => .error .malformed

def takeDigits (t : Text) : Text × Text := (t.takeWhile Text.isPlainDigit, t.dropWhile Text.isPlainDigit)

def plainDigits (t : Text) : List Nat := t.map fun c => c.toNat - '0'.toNat

/-- The fraction at the start of a text, empty where there is none. -/
def readFraction (t : Text) : Text × Text :=
  match t with
  | '.' :: rest =>
    match takeDigits rest with
    | ([], _) => ([], t)
    | r => r
  | _ => ([], t)

/-- The exponent at the start of a text: a mark, an optional sign and at least one digit. -/
def readExponent? (t : Text) : Option (Int × Text) :=
  match t with
  | mark :: rest =>
    if mark = 'e' ∨ mark = 'E' then
      let (negative, body) := match rest with
        | '+' :: r => (false, r)
        | '-' :: r => (true, r)
        | _ => (false, rest)
      match takeDigits body with
      | ([], _) => none
      | (ds, tail) =>
        let n := Numeral.ofDigits (plainDigits ds)
        some (if negative then -n else n, tail)
    else none
  | [] => none

/-- An unsigned number: digits without needless zeros, a fraction and an exponent. -/
def readNumber (negative : Bool) (t : Text) : Except ReadFault (Payload × Text) :=
  let (whole, rest) := match t with
    | '0' :: rest => ("0".toText, rest)
    | _ => takeDigits t
  if whole.isEmpty then .error .malformed
  else
    let (fraction, rest) := readFraction rest
    let numeral := fun exponent => Numeral.value negative ⟨plainDigits whole, plainDigits fraction, exponent⟩
    match readExponent? rest with
    | some (exponent, rest) => .ok (real (numeral exponent), rest)
    | none =>
      if !fraction.isEmpty then .ok (real (numeral 0), rest)
      else if mostDigits < whole.length then .error (.tooManyDigits whole.length)
      else
        let n := Numeral.ofDigits (plainDigits whole)
        .ok (int (if negative then -n else n), rest)

/-- What follows a word at the start of a text. -/
def afterWord? (word : String) (t : Text) : Option Text :=
  if word.toText.isPrefixOf t then some (t.drop word.length) else none

/-- A number or one of the named values. -/
def readScalar (t : Text) : Except ReadFault (Payload × Text) :=
  match afterWord? "null" t, afterWord? "true" t, afterWord? "false" t with
  | some rest, _, _ => .ok (null, rest)
  | _, some rest, _ => .ok (bool true, rest)
  | _, _, some rest => .ok (bool false, rest)
  | none, none, none =>
    match afterWord? "NaN" t, afterWord? "Infinity" t, afterWord? "-Infinity" t with
    | some rest, _, _ => .ok (real .nan, rest)
    | _, some rest, _ => .ok (real (.infinite false), rest)
    | _, _, some rest => .ok (real (.infinite true), rest)
    | none, none, none =>
      match t with
      | '-' :: rest => readNumber true rest
      | _ => readNumber false t

mutual
def readValue : Nat → Text → Except ReadFault (Payload × Text)
  | 0, _ => .error .malformed
  | fuel + 1, t =>
    match t with
    | '"' :: rest => do
      let (content, rest) ← readText rest
      return (text content, rest)
    | '[' :: rest =>
      match skipLayout rest with
      | ']' :: rest => .ok (list [], rest)
      | rest => do
        let (items, rest) ← readItems fuel rest
        return (list items, rest)
    | '\x7b' :: rest =>
      match skipLayout rest with
      | '\x7d' :: rest => .ok (object [], rest)
      | rest => do
        let (fields, rest) ← readFields fuel rest
        return (object (Entries.ofPairs fields), rest)
    | _ => readScalar t

/-- The items of a list from the first one not read yet up to the closing bracket. -/
def readItems : Nat → Text → Except ReadFault (List Payload × Text)
  | 0, _ => .error .malformed
  | fuel + 1, t => do
    let (item, rest) ← readValue fuel t
    match skipLayout rest with
    | ']' :: rest => return ([item], rest)
    | ',' :: rest =>
      let (items, rest) ← readItems fuel (skipLayout rest)
      return (item :: items, rest)
    | _ => .error .malformed

/-- The fields of an object from the first one not read yet up to the closing brace. -/
def readFields : Nat → Text → Except ReadFault (List (Text × Payload) × Text)
  | 0, _ => .error .malformed
  | fuel + 1, t =>
    match t with
    | '"' :: rest => do
      let (key, rest) ← readText rest
      match skipLayout rest with
      | ':' :: rest =>
        let (value, rest) ← readValue fuel (skipLayout rest)
        match skipLayout rest with
        | '\x7d' :: rest => return ([(key, value)], rest)
        | ',' :: rest =>
          let (fields, rest) ← readFields fuel (skipLayout rest)
          return ((key, value) :: fields, rest)
        | _ => .error .malformed
      | _ => .error .malformed
    | _ => .error .malformed
end

/-- The payload that a whole text is written for. -/
def read (t : Text) : Except ReadFault Payload := do
  let (p, rest) ← readValue (2 * t.length + 2) (skipLayout t)
  if (skipLayout rest).isEmpty then return p else .error .malformed

def read? (t : Text) : Option Payload := (read t).toOption

end LedgerSearch.Payload

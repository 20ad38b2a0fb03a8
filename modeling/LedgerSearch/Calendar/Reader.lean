import LedgerSearch.Calendar.Instant
import LedgerSearch.Text.Blank
import LedgerSearch.Text.Digit
import LedgerSearch.Text.Printed
import LedgerSearch.Number.Numeral

/-! # Reading dates and times
Dates are written with or without hyphens, by month and day or by week and weekday. Any one character
sets the time off, whose fields are joined by colons or stand together; the last field may go on with a
fraction, of which six digits count. An offset follows, or a letter for universal time. Places are
counted in bytes, so a character of several bytes takes several places, and a zero behind the last
field stands for the end. -/
namespace LedgerSearch

/-- The characters of a text, each as often as it has bytes. -/
def spreadBytes (t : Text) : Text := t.flatMap fun c => Text.fill c.byteCount c

theorem spreadBytes_of_ascii {t : Text} (h : ∀ c ∈ t, c.byteCount = 1) : spreadBytes t = t := by
  induction t with
  | nil => rfl
  | cons c rest ih =>
    have hrest : spreadBytes rest = rest := ih fun d hd => h d (List.mem_cons_of_mem c hd)
    have hc : Text.fill c.byteCount c = [c] := by rw [h c List.mem_cons_self]; rfl
    unfold spreadBytes at hrest ⊢
    rw [List.flatMap_cons, hc, hrest, List.singleton_append]

/-- Nothing is left of a text, or a zero comes next. -/
def atEnd : Text → Bool
  | [] => true
  | c :: _ => c = '\x00'

/-- The number that exactly `count` plain digits at the start of a text stand for. -/
def readFixed (count : Nat) (t : Text) : Option (Nat × Text) :=
  let digits := t.take count
  if digits.length = count ∧ digits.all Text.isPlainDigit then
    some (Numeral.ofDigits (digits.map fun c => c.toNat - '0'.toNat), t.drop count)
  else none

namespace Date

/-- How many of the characters after a year and its week mark belong to a date in basic week form:
two of the week, and one of the weekday if the digits that follow leave the time in pairs. -/
def basicWeekLength (t : Text) : Nat :=
  let run := (t.drop 2).takeWhile Text.isPlainDigit |>.length
  if run < 2 then 2 + run else if run % 2 = 1 then 2 else 3

/-- How many characters after a year, its hyphen and its week mark belong to the date: a weekday
follows the week after a hyphen, unless two digits there are the hours of a time. -/
def extendedWeekLength (t : Text) : Option Nat :=
  match t.drop 2 with
  | ['-'] => none
  | '-' :: _ :: d :: _ => if Text.isPlainDigit d then some 2 else some 4
  | '-' :: _ => some 4
  | _ => some 2

/-- A week and its weekday, Monday where none is given. -/
def readWeek (year : Nat) (hyphens : Bool) (t : Text) : Option Date := do
  let (week, rest) ← readFixed 2 t
  if rest.isEmpty then ofWeek? year week 1
  else
    let rest ← if hyphens then (match rest with | '-' :: r => some r | _ => none) else some rest
    let (weekday, rest) ← readFixed 1 rest
    if rest.isEmpty then ofWeek? year week weekday else none

/-- The date at the start of a text, and what follows it. -/
def read? (t : Text) : Option (Date × Text) := do
  let (year, rest) ← readFixed 4 t
  match rest with
  | '-' :: 'W' :: rest =>
    let n ← extendedWeekLength rest
    let date ← readWeek year true (rest.take n)
    return (date, rest.drop n)
  | 'W' :: rest =>
    let n := basicWeekLength rest
    let date ← readWeek year false (rest.take n)
    return (date, rest.drop n)
  | '-' :: rest =>
    let (month, rest) ← readFixed 2 rest
    match rest with
    | '-' :: rest =>
      let (day, rest) ← readFixed 2 rest
      return (⟨year, month, day⟩, rest)
    | _ => none
  | _ =>
    let (month, rest) ← readFixed 2 rest
    let (day, rest) ← readFixed 2 rest
    return (⟨year, month, day⟩, rest)

end Date

/-- What stands after a field of a clock reading. -/
inductive FieldEnd
  | done (complete : Bool)
  | field (rest : Text)
  | fraction (rest : Text)
  | malformed
  deriving DecidableEq, Repr

/-- The last place of a reading ends it, whatever stands there; before that a colon or a digit leads to
the next field, and a point or a comma to the fraction. -/
def fieldEnd (colons : Bool) (rest : Text) : FieldEnd :=
  match rest with
  | [] => .done true
  | [c] => .done (atEnd [c])
  | c :: after =>
    if colons ∧ c = ':' then .field after
    else if c = '.' ∨ c = ',' then .fraction after
    else if colons then .malformed
    else .field rest

namespace Clock

/-- Microseconds from up to six digits; whether only digits follow up to the end. -/
def readMicro (t : Text) : Option (Nat × Bool) := do
  let count := min 6 t.length
  let (n, rest) ← readFixed count t
  return (n * Nat.pow 10 (6 - count), atEnd (rest.dropWhile Text.isPlainDigit))

/-- A clock reading, and whether all of the text belongs to it. -/
def read? (t : Text) : Option (Clock × Bool) := do
  let (hour, rest) ← readFixed 2 t
  let colons := rest.head? == some ':'
  match fieldEnd colons rest with
  | .malformed => none
  | .done complete => return (⟨hour, 0, 0, 0⟩, complete)
  | .fraction rest =>
    let (micro, complete) ← readMicro rest
    return (⟨hour, 0, 0, micro⟩, complete)
  | .field rest =>
    let (minute, rest) ← readFixed 2 rest
    match fieldEnd colons rest with
    | .malformed => none
    | .done complete => return (⟨hour, minute, 0, 0⟩, complete)
    | .fraction rest =>
      let (micro, complete) ← readMicro rest
      return (⟨hour, minute, 0, micro⟩, complete)
    | .field rest =>
      let (second, rest) ← readFixed 2 rest
      match fieldEnd colons rest with
      | .malformed => none
      | .done complete => return (⟨hour, minute, second, 0⟩, complete)
      | .fraction rest =>
        let (micro, complete) ← readMicro rest
        return (⟨hour, minute, second, micro⟩, complete)
      | .field rest =>
        let (micro, complete) ← readMicro rest
        return (⟨hour, minute, second, micro⟩, complete)

end Clock

/-- An offset in microseconds; one below a second is none. -/
def offsetOf (negative : Bool) (c : Clock) : Int :=
  let seconds := (c.hour * 60 + c.minute) * 60 + c.second
  if seconds = 0 then 0
  else if negative then -((seconds * 1000000 + c.micro : Nat) : Int)
  else (seconds * 1000000 + c.micro : Nat)

/-- A time of day with the offset that follows it, if one does. -/
def readTime (t : Text) : Option (Clock × Option Int) := do
  let isMark := fun c : CodePoint => c = '+' || c = '-' || c = 'Z'
  let (clock, complete) ← Clock.read? (t.takeWhile (!isMark ·))
  match t.dropWhile (!isMark ·) with
  | [] => if complete then some (clock, none) else none
  | 'Z' :: rest => if atEnd rest then some (clock, some 0) else none
  | mark :: rest =>
    let (shift, complete) ← Clock.read? rest
    if complete then some (clock, some (offsetOf (mark = '-') shift)) else none

namespace Stamp

/-- The places where a time can be set off. -/
def separatorPlaces : List Nat := [7, 8, 10]

/-- A half unit at the first such place that holds one is as good a separator as any character. -/
def replaceSeparator (t : Text) : Text :=
  match separatorPlaces.find? fun place => t[place]?.any CodePoint.isHalf with
  | some place => t.set place 'T'
  | none => t

/-- The fields of the stamp that a whole text is written for, in range or not; none is written with a
half unit. -/
def fields? (t : Text) : Option Stamp := do
  let t := replaceSeparator t
  if t.any CodePoint.isHalf then none
  let (date, rest) ← Date.read? (spreadBytes t)
  let (clock, offset) ← match rest with
    | [] => some (Clock.midnight, none)
    | separator :: _ => readTime (rest.drop separator.byteCount)
  return ⟨date, clock, offset⟩

/-- The offset, if there is one, is less than a day. -/
def hasOffsetInRange (s : Stamp) : Bool := (s.offset.getD 0).natAbs < Instant.microsPerDay

/-- The stamp that a whole text is written for. -/
def read? (t : Text) : Option Stamp :=
  (fields? t).filter fun s => s.hasOffsetInRange && s.date.isValid && s.clock.isValid

/-- Days, seconds and microseconds of a span of time, each named unless it is zero. -/
def spanParts (micros : Int) : List Text :=
  let rest := (Int.fmod micros Instant.microsPerDay).toNat
  let parts : List (String × Int) :=
    [("days=", Int.fdiv micros Instant.microsPerDay), ("seconds=", rest / 1000000), ("microseconds=", rest % 1000000)]
  (parts.filter fun p => p.2 != 0).map fun p => p.1.toText ++ Text.ofInt p.2

/-- The complaint about an offset of a day or more. -/
def offsetComplaint (offset : Int) : Text :=
  ("offset must be a timedelta strictly between -timedelta(hours=24) and timedelta(hours=24), " ++
    "not datetime.timedelta(").toText ++ Text.joinWith ", ".toText (spanParts offset) ++ ").".toText

/-- The complaint about the first field that is out of range. -/
def rangeComplaint (s : Stamp) : Text :=
  if !s.hasOffsetInRange then offsetComplaint (s.offset.getD 0)
  else if s.date.year = 0 ∨ 9999 < s.date.year then
    "year ".toText ++ Text.ofNat s.date.year ++ " is out of range".toText
  else if s.date.month = 0 ∨ 12 < s.date.month then "month must be in 1..12".toText
  else if !s.date.isValid then "day is out of range for month".toText
  else if 24 ≤ s.clock.hour then "hour must be in 0..23".toText
  else if 60 ≤ s.clock.minute then "minute must be in 0..59".toText
  else "second must be in 0..59".toText

/-- The complaint about a text that no stamp is written for. -/
def complaint (t : Text) : Text :=
  match fields? t with
  | some s => s.rangeComplaint
  | none => "Invalid isoformat string: ".toText ++ Text.quoted t

end Stamp

namespace Instant

/-- A final capital Z is an offset of zero. -/
def expandZulu (t : Text) : Text :=
  if t.getLast? = some 'Z' then t.dropLast ++ "+00:00".toText else t

/-- The instant a text is written for, blanks at its ends aside. -/
def read? (t : Text) : Option Instant := (Stamp.read? (expandZulu (Text.strip t))).map ofStamp

end Instant
end LedgerSearch

import LedgerSearch.Payload.Reader
import LedgerSearch.Record.Entry

/-! # Reading a corpus
The entries of a list are read one by one; a refused entry leaves a warning and nothing else. -/
namespace LedgerSearch

structure Corpus where
  records : List Record
  warnings : List Text
  deriving Repr

namespace Corpus

def empty : Corpus := ⟨[], []⟩

def entryWarning (index : Nat) (e : EntryError) : Text :=
  "Skipping corpus entry ".toText ++ Text.ofNat index ++ ": ".toText ++ e.message

def payloadWarning (p : Payload) : Text :=
  "Corpus payload is ".toText ++ p.kindName ++ ", expected a list".toText

/-- Reads the entries from a position on; only a number too large makes it fail. -/
def ofEntries (index : Nat) : List Payload → Except EntryError Corpus
  | [] => .ok empty
  | p :: rest =>
    match Entry.record p with
    | .ok r => (ofEntries (index + 1) rest).map fun c => ⟨r :: c.records, c.warnings⟩
    | .error .numberTooLarge => .error .numberTooLarge
    | .error e => (ofEntries (index + 1) rest).map fun c => ⟨c.records, entryWarning index e :: c.warnings⟩

def ofPayload : Payload → Except EntryError Corpus
  | .list items => ofEntries 0 items
  | p => .ok ⟨[], [payloadWarning p]⟩

/-- The corpus in a text, if the text is well formed; a number of too many digits makes the reading fail. -/
def ofText? (t : Text) : Option (Except EntryError Corpus) :=
  match Payload.read t with
  | .ok p => some (ofPayload p)
  | .error (.tooManyDigits count) => some (.error (.tooManyDigits count))
  | .error .malformed => none

/-- The corpus in a file, if its bytes are a text that can be read. -/
def ofBytes? (bytes : ByteArray) : Option (Except EntryError Corpus) :=
  (String.fromUTF8? bytes).bind fun s => ofText? s.toText

end Corpus
end LedgerSearch

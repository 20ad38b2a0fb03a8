import LedgerSearch.Text.Blank
import LedgerSearch.Text.Lower

/-! # Words and trees of a query
The words are those of the lower form. The length that decides whether a query is too short leaves out blanks
and dollar signs. A query is split at the first operator word between blanks, conjunctions before
disjunctions before exclusions, and both parts are split again. What cannot be split is a leaf. -/
namespace LedgerSearch.Query

def tokens (query : Text) : List Text := Text.words (Text.lower query)

def effectiveLength (query : Text) : Nat := (Text.dropBlanks (query.filter (· != '$'))).length

/-- A query without any counted character is not too short. -/
def isTooShort (query : Text) (minimum : Int) : Bool :=
  0 < effectiveLength query && (effectiveLength query : Int) < minimum

inductive Operator | both | either | without deriving DecidableEq, Repr

namespace Operator

/-- The word that stands for an operator in a query. -/
def word : Operator → Text
  | both => "AND".toText
  | either => "OR".toText
  | without => "NOT".toText

/-- The operators in the order in which a query is split at them. -/
def all : List Operator := [both, either, without]

end Operator

inductive Tree
  | leaf (text : Text)
  | node (op : Operator) (left right : Tree)
  | negation (operand : Tree)
  deriving DecidableEq, Repr

/-- What follows a word and the blanks after it, if a text begins with the word and a blank. -/
def afterWord? (word t : Text) : Option Text :=
  if word.isPrefixOf t then
    match t.drop word.length with
    | [] => none
    | c :: rest => if Text.isBlank c then some (Text.stripStart rest) else none
  else none

/-- The text before the first operator word between blanks, and the text after it. -/
def splitAt? (op : Operator) : Text → Option (Text × Text)
  | [] => none
  | c :: rest =>
    let later := (splitAt? op rest).map fun p => (c :: p.1, p.2)
    if Text.isBlank c then
      match afterWord? op.word (Text.stripStart rest) with
      | some right => some ([], right)
      | none => later
    else later

/-- Some operator word and a blank stand at the start of a text. -/
def startsWithOperator (t : Text) : Bool := Operator.all.any fun op => (afterWord? op.word t).isSome

/-- Some operator word and a blank stand behind a blank. -/
def operatorFollows : Text → Bool
  | [] => false
  | c :: rest => (Text.isBlank c && startsWithOperator rest) || operatorFollows rest

def hasOperatorWord (t : Text) : Bool := startsWithOperator t || operatorFollows t

/-- The stripped parts of a split, if neither is empty. -/
def parts? (op : Operator) (t : Text) : Option (Text × Text) :=
  match splitAt? op t with
  | none => none
  | some (l, r) =>
    let left := Text.strip l
    let right := Text.strip r
    if left.isEmpty || right.isEmpty then none else some (left, right)

/-- The first operator that a text can be split at, with the parts. -/
def split? (t : Text) : Option (Operator × Text × Text) :=
  Operator.all.findSome? fun op => (parts? op t).map fun p => (op, p.1, p.2)

/-- The text after a leading exclusion word. -/
def negated? (t : Text) : Option Text :=
  match afterWord? Operator.without.word t with
  | some rest => if (Text.strip rest).isEmpty then none else some rest
  | none => none

theorem length_stripStart_le (t : Text) : (Text.stripStart t).length ≤ t.length :=
  (List.dropWhile_sublist _).length_le

theorem length_strip_le (t : Text) : (Text.strip t).length ≤ t.length := by
  have h := (List.dropWhile_sublist (l := (Text.stripStart t).reverse) Text.isBlank).length_le
  have h' := length_stripStart_le t
  simp only [Text.strip, Text.stripEnd, Text.dropEndWhile, List.length_reverse] at *
  omega

theorem length_afterWord?_lt {word t r : Text} (h : afterWord? word t = some r) : r.length < t.length := by
  unfold afterWord? at h
  split at h
  · split at h
    · cases h
    · rename_i c rest hd
      split at h
      · cases h
        have hl := congrArg List.length hd
        have hr := length_stripStart_le rest
        simp only [List.length_drop, List.length_cons] at hl
        omega
      · cases h
  · cases h

theorem length_splitAt?_lt {op : Operator} {t l r : Text} (h : splitAt? op t = some (l, r)) :
    l.length < t.length ∧ r.length < t.length := by
  induction t generalizing l r with
  | nil => simp [splitAt?] at h
  | cons c rest ih =>
    have later : ∀ {l r}, (splitAt? op rest).map (fun p => (c :: p.1, p.2)) = some (l, r) →
        l.length < rest.length + 1 ∧ r.length < rest.length + 1 := by
      intro l r hm
      obtain ⟨⟨l', r'⟩, hs, he⟩ := Option.map_eq_some_iff.1 hm
      cases he
      have := ih hs
      simp only [List.length_cons]
      omega
    simp only [splitAt?, List.length_cons] at h ⊢
    split at h
    · split at h
      · rename_i right ha
        cases h
        have h1 := length_afterWord?_lt ha
        have h2 := length_stripStart_le rest
        simp only [List.length_nil]
        omega
      · exact later h
    · exact later h

theorem length_split?_lt {t : Text} {op : Operator} {l r : Text} (h : split? t = some (op, l, r)) :
    l.length < t.length ∧ r.length < t.length := by
  obtain ⟨op', _, hm⟩ := List.exists_of_findSome?_eq_some h
  obtain ⟨⟨l', r'⟩, hp, he⟩ := Option.map_eq_some_iff.1 hm
  cases he
  unfold parts? at hp
  split at hp
  · cases hp
  · rename_i l0 r0 hs
    dsimp only at hp
    split at hp
    · cases hp
    · cases hp
      have := length_splitAt?_lt hs
      exact ⟨Nat.lt_of_le_of_lt (length_strip_le l0) this.1, Nat.lt_of_le_of_lt (length_strip_le r0) this.2⟩

theorem length_negated?_lt {t r : Text} (h : negated? t = some r) : r.length < t.length := by
  unfold negated? at h
  split at h
  · rename_i rest ha
    split at h
    · cases h
    · cases h
      exact length_afterWord?_lt ha
  · cases h

/-- The tree of a query. -/
def parse (query : Text) : Tree :=
  if hasOperatorWord (Text.strip query) then
    match _hs : split? (Text.strip query) with
    | some (op, left, right) => .node op (parse left) (parse right)
    | none =>
      match _hn : negated? (Text.strip query) with
      | some operand => .negation (parse operand)
      | none => .leaf (Text.strip query)
  else .leaf (Text.strip query)
termination_by query.length
decreasing_by
  all_goals have := length_strip_le query
  · have := length_split?_lt _hs; omega
  · have := length_split?_lt _hs; omega
  · have := length_negated?_lt _hn; omega

namespace Tree

/-- The texts of the leaves from left to right. -/
def leaves : Tree → List Text
  | leaf text => [text]
  | node _ left right => left.leaves ++ right.leaves
  | negation operand => operand.leaves

/-- The query that a tree is written as. -/
def write : Tree → Text
  | leaf text => text
  | node op left right => left.write ++ " ".toText ++ op.word ++ " ".toText ++ right.write
  | negation operand => Operator.without.word ++ " ".toText ++ operand.write

def isCompound : Tree → Bool
  | leaf _ => false
  | _ => true

end Tree

/-- The query consists of more than one leaf text. -/
def isCompound (query : Text) : Bool := (parse query).isCompound

/-- The words of all leaves in order, each only where it comes first. -/
def searchTerms (query : Text) : List Text := ((parse query).leaves.flatMap tokens).eraseDups

end LedgerSearch.Query

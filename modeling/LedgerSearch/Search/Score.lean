import LedgerSearch.Search.Match

/-! # Scores
A score is a sum of whole points. Text earns points for the phrase and for each word where it is
found; amounts earn points for being visible, near, in range or begun by a token. -/
namespace LedgerSearch.Search

def sumPoints : List Nat → Nat
  | [] => 0
  | n :: rest => n + sumPoints rest

/-- How many of the words occur in a text. -/
def wordsFound (words : List Text) (text : Text) : Nat := words.countP fun word => Text.occursIn word text

/-- Points for the words of a query and for the whole phrase. -/
def textScore (r : Record) (query : Text) : Except Fault Nat :=
  if (Query.tokens query).isEmpty then .ok 0
  else (haystack r).map fun text =>
    (if Text.occursIn (Text.lower query) (Text.lower r.title) then 150 else 0) +
    (if Text.occursIn (Text.lower query) (Text.lower r.summary) then 25 else 0) +
    20 * wordsFound (Query.tokens query) (Text.lower r.title) +
    10 * wordsFound (Query.tokens query) (Text.lower r.summary) +
    5 * wordsFound (Query.tokens query) text

namespace AmountKind

/-- Points for a kind of visible amount that matches at all. -/
def visiblePoints : AmountKind → Nat
  | total => 500
  | lineTotal => 300
  | unitPrice => 200

/-- Points for an amount in the middle of a range. -/
def rangePoints : AmountKind → Nat
  | total => 800
  | lineTotal => 700
  | unitPrice => 600

/-- Points for an equal amount, one within a hundredth, and one within one. -/
def tierPoints : AmountKind → Nat × Nat × Nat
  | total => (1000, 800, 600)
  | lineTotal => (900, 700, 500)
  | unitPrice => (800, 600, 400)

/-- Points for an amount that a token admits. -/
def admittedPoints : AmountKind → Nat
  | total => 750
  | lineTotal => 650
  | unitPrice => 550

end AmountKind

/-- A visible amount that is near a queried one or admitted by its token. -/
def isVisibleMatch (a : Text × Binary64) (x : Binary64) : Bool :=
  Query.isClose x a.2 Query.cent || Query.admitsNumber a.1 x

/-- Points for the kinds of visible amounts that match, and for an equal one among them. -/
def visibleScore (f : Financial) (t : Query.MoneyTokens) : Nat :=
  let found (k : AmountKind) := t.amounts.any fun a => (amounts f).any fun v => v.1 == k && isVisibleMatch a v.2
  let equal := t.amounts.any fun a => (amounts f).any fun v => isVisibleMatch a v.2 && Binary64.eq v.2 a.2
  let kinds := AmountKind.all.filter found
  if kinds.isEmpty then 0
  else 2000 + sumPoints (kinds.map AmountKind.visiblePoints) + (if equal then 1000 else 0)

/-- How far an amount in a range lies from its centre, from zero to one. -/
def distance (range : PriceRange) (x : Binary64) : Binary64 :=
  let centre := Binary64.div (Binary64.add range.min range.max) (Binary64.ofNat 2)
  let width := Binary64.sub range.max range.min
  if Binary64.le width Binary64.zero then Binary64.zero
  else
    let part := Binary64.div (Binary64.abs (Binary64.sub x centre)) width
    if Binary64.lt Binary64.one part then Binary64.one else part

/-- The nearest whole number, a half going up. -/
def roundHalfUp (x : Binary64) : Except Fault Nat :=
  match Binary64.floor? (Binary64.add x (Binary64.ofRatio false 1 2)) with
  | some n => .ok n.toNat
  | none => .error .undefinedProximity

/-- Points for an amount in a range, the more the nearer it lies to the centre. -/
def proximity (range : PriceRange) (weight : Nat) (x : Binary64) : Except Fault Nat :=
  roundHalfUp (Binary64.mul (Binary64.ofNat weight) (Binary64.sub Binary64.one (distance range x)))

/-- Points for each visible amount in a range. -/
def rangeScore (range : PriceRange) : List (AmountKind × Binary64) → Except Fault Nat
  | [] => .ok 0
  | (kind, x) :: rest =>
    if range.contains x then do
      let points ← proximity range kind.rangePoints x
      let more ← rangeScore range rest
      return points + more
    else rangeScore range rest

/-- Points for one visible amount beside a queried one. -/
def tierScore (amount : Binary64) (v : AmountKind × Binary64) : Nat :=
  if Binary64.eq v.2 amount then v.1.tierPoints.1
  else if Query.isClose v.2 amount Query.cent then v.1.tierPoints.2.1
  else if Query.isClose v.2 amount Binary64.one then v.1.tierPoints.2.2
  else 0

def admittedScore (token : Text) (v : AmountKind × Binary64) : Nat :=
  if Query.admitsNumber token v.2 then v.1.admittedPoints else 0

/-- Points that each queried amount earns with each visible one. -/
def amountScore (f : Financial) (t : Query.MoneyTokens) : Nat :=
  sumPoints (t.amounts.map fun a => sumPoints ((amounts f).map (tierScore a.2))) +
    sumPoints (t.amounts.map fun a => sumPoints ((amounts f).map (admittedScore a.1)))

/-- Points for words in the money text of lines, and in a title or summary that is flagged as monetary. -/
def moneyWordScore (r : Record) (f : Financial) (words : List Text) : Nat :=
  sumPoints (f.lineItems.map fun item => 50 * wordsFound words (moneyText item)) +
  (if f.isMonetary "title".toText then 10 * wordsFound words (Text.lower r.title) else 0) +
  (if f.isMonetary "summary".toText then 5 * wordsFound words (Text.lower r.summary) else 0)

/-- Points for a query about money; an explicit one earns none for words. -/
def moneyScore (explicit : Bool) (r : Record) (query : Text) : Except Fault Nat :=
  match r.financial? with
  | none => .ok 0
  | some f =>
    if (Query.moneyTokens query).isEmpty then .ok 0
    else do
      let inRange ← match (Query.moneyTokens query).range with
        | some range => rangeScore range (amounts f)
        | none => .ok 0
      return visibleScore f (Query.moneyTokens query) + inRange + amountScore f (Query.moneyTokens query) +
        (if explicit then 0 else moneyWordScore r f (Query.moneyTokens query).words)

/-- Points for the text of one leaf. -/
def leafScore (r : Record) (text : Text) : Except Fault Nat :=
  if (Query.moneyQuery text).isExplicit then moneyScore true r (Query.moneyQuery text).text
  else do
    let points ← textScore r text
    let more ← if Query.mayBeMoney text then moneyScore false r text else .ok 0
    return points + more

/-- Points for a leading exclusion whose operand scores at all. -/
def negationPoints : Nat := 10

/-- Points for a query tree: the lesser of two parts, the greater, or the left one without the right. -/
def treeScore (r : Record) : Query.Tree → Except Fault Nat
  | .leaf text => leafScore r text
  | .node .both left right => do
    let a ← treeScore r left
    let b ← treeScore r right
    return min a b
  | .node .either left right => do
    let a ← treeScore r left
    let b ← treeScore r right
    return max a b
  | .node .without left right => do
    let a ← treeScore r left
    if ← holdsTree r right then return 0
    return a
  | .negation operand => do
    let a ← treeScore r operand
    return if 0 < a then negationPoints else 0

def score (r : Record) (query : Text) : Except Fault Nat := treeScore r (Query.parse query)

end LedgerSearch.Search

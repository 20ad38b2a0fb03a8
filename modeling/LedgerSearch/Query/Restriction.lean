import LedgerSearch.Query.Amount

/-! # Progressive restriction
An amount typed digit by digit is compared with a written amount: the more of it is typed, the
fewer amounts it admits. -/
namespace LedgerSearch.Query

/-- The text before the first point, and the text after it. -/
def splitPoint (t : Text) : Text × Text := (Text.before '.' t, Text.after '.' t)

/-- Drops the zeros that end a fraction, and then its point. -/
def trimFraction (t : Text) : Text :=
  if t.contains '.' then Text.dropEndWhile (· = '.') (Text.dropEndWhile (· = '0') t) else t

/-- A query with decimals admits what it begins with, once zeros at the end are dropped on both
sides; one that ends in a point admits what begins with its whole part. -/
def admitsDecimal (query data : Text) : Bool :=
  let (whole, fraction) := splitPoint query
  if fraction.isEmpty then !whole.isEmpty && whole.isPrefixOf data
  else
    let q := trimFraction query
    let d := trimFraction data
    q == d || (d.contains '.' && d.isPrefixOf q)

/-- A query of one digit admits that first digit, a longer one what begins with it, and one of four
digits or more also a shorter whole part that it begins with. -/
def admitsWhole (query data : Text) : Bool :=
  let whole := (splitPoint data).1
  if !Text.allPlainDigits query || !Text.allPlainDigits whole then false
  else if query.length = 1 then whole.head? == query.head?
  else query.isPrefixOf data ||
    (4 ≤ query.length && whole.length < query.length && whole.isPrefixOf query)

/-- The amount text is one that the query typed so far admits. -/
def admits (query data : Text) : Bool :=
  let q := dropNoise query
  let d := dropNoise data
  if q.isEmpty || d.isEmpty then false
  else q == d || (if q.contains '.' then admitsDecimal q d else admitsWhole q d)

/-- The query typed so far admits a number as it is written. -/
def admitsNumber (query : Text) (x : Binary64) : Bool := admits query x.writePlain

end LedgerSearch.Query

import LedgerSearch.Record.Basic
import LedgerSearch.Sorting
import LedgerSearch.Text.Lower

/-! # Groups of results
Results are grouped by kind, or by project, status or client. Groups keep the order of their records;
limits cut each group short and drop the ones that are left empty. -/
namespace LedgerSearch.Search

inductive Dimension | project | status | client deriving DecidableEq, Repr

namespace Dimension

def all : List Dimension := [project, status, client]

/-- The name of a dimension in small letters. -/
def name : Dimension → Text
  | project => "project".toText
  | status => "status".toText
  | client => "client".toText

/-- The title of the group of records that have no value. -/
def missing : Dimension → Text
  | project => "No Project".toText
  | status => "No Status".toText
  | client => "No Client".toText

/-- The dimension of a name in any letter case. -/
def ofName? (name : Text) : Option Dimension := all.find? fun d => d.name == Text.lower name

def value (r : Record) : Dimension → Text
  | project => r.project
  | status => r.status
  | client => r.client

/-- The key of the group that a record belongs to. -/
def key (d : Dimension) (r : Record) : Text := if (d.value r).isEmpty then d.missing else d.value r

end Dimension

structure Group where
  key : Text
  title : Text
  kind : Option EntityKind
  items : List Record
  deriving Repr

/-- The records collected under their keys, in the order in which keys first occur. -/
def collect {κ : Type} [BEq κ] (key : Record → κ) (records : List Record) : Entries κ (List Record) :=
  records.foldl (fun found r => Entries.push (key r) r found) []

/-- The kinds in the order of their groups. -/
def kindOrder : List EntityKind :=
  [.buildertrend, .document, .dailyLog, .person, .organization] ++ FinancialKind.all.map .financial

def groupsByKind (records : List Record) : List Group :=
  let found := collect Record.kind records
  kindOrder.filterMap fun kind => (Entries.find? kind found).map fun items => ⟨kind.name, kind.plural, some kind, items⟩

/-- Groups ordered by their folded keys; the records without a value come last. -/
def groupsByDimension (d : Dimension) (records : List Record) : List Group :=
  let found := collect d.key records
  let named := found.filter fun g => g.1 != d.missing
  let ordered := Sorting.sortOn (fun g => Text.fold g.1) Text.le named
  (ordered ++ found.filter fun g => g.1 == d.missing).map fun g => ⟨g.1, g.1, none, g.2⟩

/-- The dimension that a grouping asks for, if it asks for one. -/
def dimension? (grouping : Option Text) : Option Dimension := grouping.bind Dimension.ofName?

def groups (grouping : Option Text) (records : List Record) : List Group :=
  match dimension? grouping with
  | some d => groupsByDimension d records
  | none => groupsByKind records

/-- How many records a group may show, for all groups and for single keys. -/
structure GroupLimits where
  standard : Nat
  byKey : Entries Text Int
  deriving Repr

namespace GroupLimits

def default : GroupLimits := ⟨4, []⟩

/-- The limit for a key; a negative one counts as zero. -/
def limit (l : GroupLimits) (key : Text) : Nat := ((Entries.find? key l.byKey).getD l.standard).toNat

/-- Cuts groups to their limits. -/
def apply (l : GroupLimits) (groups : List Group) : List Group :=
  (groups.map fun g => { g with items := g.items.take (l.limit g.key) }).filter fun g => !g.items.isEmpty

end GroupLimits
end LedgerSearch.Search

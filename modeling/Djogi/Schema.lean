import Djogi.Lib.OrdMap

/-!
# The applied schema

The in-memory schema the differ compares (`migrate/schema.rs`). Maps are ordered
maps, vectors are lists and optional strings are `Option String`.

`ColumnSchema` compares every field but `typeChangeUsing`, which is a transient
slot of the freshly projected side. `persistent` clears that slot, so `==` of the
source is equality of the persistent parts.
-/

namespace Djogi

inductive OnDeleteSchema
  | restrict | cascade | setNull | setDefault | noAction
  deriving DecidableEq, Repr

inductive RelationKindSchema
  | foreignKey | oneToOne
  deriving DecidableEq, Repr

inductive IdentityKindSchema
  | byDefault | always
  deriving DecidableEq, Repr

def IdentityKindSchema.sqlClause : IdentityKindSchema → String
  | .byDefault => "GENERATED BY DEFAULT AS IDENTITY"
  | .always => "GENERATED ALWAYS AS IDENTITY"

inductive IndexTypeSchema
  | bTree | gin | gist | hash | spgist | brin
  deriving DecidableEq, Repr

inductive IndexOrderSchema
  | asc | desc
  deriving DecidableEq, Repr

inductive IndexNullsOrderSchema
  | default | first | last
  deriving DecidableEq, Repr

inductive IndexKindSchema
  | nonUnique | uniqueConstraint | uniqueIndex
  deriving DecidableEq, Repr

structure ForeignKeySchema where
  deferrable : Bool
  initiallyDeferred : Bool
  onDelete : OnDeleteSchema
  refColumn : String
  refTable : String
  deriving DecidableEq, Repr

structure GeneratedColumnSchema where
  expression : String
  stored : Bool
  deriving DecidableEq, Repr

structure ExclusionElementSchema where
  expr : String
  withOperator : String
  deriving DecidableEq, Repr

structure ExclusionConstraintSchema where
  deferrable : Bool
  elements : List ExclusionElementSchema
  extensionDependency : Option String
  initiallyDeferred : Bool
  name : String
  using_ : String
  whereClause : Option String
  deriving DecidableEq, Repr

structure IndexColumnSchema where
  name : String
  nulls : IndexNullsOrderSchema
  opclass : Option String
  order : IndexOrderSchema
  deriving DecidableEq, Repr

inductive IndexTargetSchema
  | columns (cols : List IndexColumnSchema)
  | expression (expr : String)
  deriving DecidableEq, Repr

structure IndexSchema where
  extensionDependency : Option String
  include_ : List String
  indexType : IndexTypeSchema
  kind : IndexKindSchema
  name : String
  nullsNotDistinct : Bool
  predicate : Option String
  requiresOutOfTransaction : Bool
  table : String
  target : IndexTargetSchema
  deriving DecidableEq, Repr

inductive PartitionSchema
  | range (column : String)
  | hash (column : String) (partitions : Nat)
  deriving DecidableEq, Repr

structure FtsSchema where
  column : String
  dictionary : String
  source : String
  deriving DecidableEq, Repr

structure CustomPkKindSchema where
  defaultSql : String
  sqlType : String
  typeName : String
  deriving DecidableEq, Repr

inductive PkKindSchema
  | heerId | heerIdRecencyBiased | ranjId | ranjIdRecencyBiased
  | serial | composite | none
  | custom (c : CustomPkKindSchema)
  deriving DecidableEq, Repr

structure PrimaryKeySchema where
  columns : List String
  kind : PkKindSchema
  deriving DecidableEq, Repr

structure ColumnSchema where
  check : Option String
  codec : Option String
  comment : Option String
  defaultSql : Option String
  foreignKey : Option ForeignKeySchema
  generated : Option GeneratedColumnSchema
  identity : Option IdentityKindSchema
  indexType : Option IndexTypeSchema
  indexed : Bool
  maxLength : Option Nat
  name : String
  nullable : Bool
  onDelete : Option OnDeleteSchema
  outboxExclude : Bool
  rationale : Option String
  relationKind : Option RelationKindSchema
  renamedFrom : Option String
  sequenceWithin : Option String
  sqlType : String
  unique : Bool
  typeChangeUsing : Option String
  deriving DecidableEq, Repr

structure TableSchema where
  app : Option String
  columns : List ColumnSchema
  exclusionConstraints : List ExclusionConstraintSchema
  fts : Option FtsSchema
  isThrough : Bool
  movedFromApp : Option String
  partition : Option PartitionSchema
  primaryKey : PrimaryKeySchema
  rationale : Option String
  renamedFrom : Option String
  rlsEnabled : Bool
  storageParams : Option String
  table : String
  tableComment : Option String
  tablespace : Option String
  tenantKey : Option String
  deriving DecidableEq, Repr

structure EnumSchema where
  name : String
  variants : List String
  deriving DecidableEq, Repr

structure AppliedSchema where
  djogiVersion : String
  enums : OrdMap String EnumSchema
  formatVersion : String
  generatedAt : String
  indexes : List IndexSchema
  models : OrdMap String TableSchema
  registeredApps : List String
  deriving DecidableEq

/-! ## Equality of the source -/

def ColumnSchema.persistent (c : ColumnSchema) : ColumnSchema :=
  { c with typeChangeUsing := none }

def TableSchema.persistent (t : TableSchema) : TableSchema :=
  { t with columns := t.columns.map ColumnSchema.persistent }

def AppliedSchema.persistent (s : AppliedSchema) : AppliedSchema :=
  { s with models := s.models.map TableSchema.persistent }

/-! ## Named schemas -/

/-- A schema with the naming discipline of a projected bucket: tables are stored under
their own name, and no table has two columns of one name. -/
structure NamedSchema extends AppliedSchema where
  modelKey : ∀ e ∈ models.entries, e.2.table = e.1
  columnNames : ∀ e ∈ models.entries, (e.2.columns.map ColumnSchema.name).Nodup

/-! ## Small schemas -/

/-- A nullable column with a name, a type and nothing else. -/
def ColumnSchema.bare (name sqlType : String) : ColumnSchema where
  check := none
  codec := none
  comment := none
  defaultSql := none
  foreignKey := none
  generated := none
  identity := none
  indexType := none
  indexed := false
  maxLength := none
  name := name
  nullable := true
  onDelete := none
  outboxExclude := false
  rationale := none
  relationKind := none
  renamedFrom := none
  sequenceWithin := none
  sqlType := sqlType
  unique := false
  typeChangeUsing := none

/-- A table with the given columns, a single-column `HeerId` key and nothing else. -/
def TableSchema.bare (name : String) (columns : List ColumnSchema) : TableSchema where
  app := none
  columns := columns
  exclusionConstraints := []
  fts := none
  isThrough := false
  movedFromApp := none
  partition := none
  primaryKey := ⟨["id"], .heerId⟩
  rationale := none
  renamedFrom := none
  rlsEnabled := false
  storageParams := none
  table := name
  tableComment := none
  tablespace := none
  tenantKey := none

/-- A column that references the key of another table. -/
def ColumnSchema.reference (name refTable : String) : ColumnSchema :=
  { ColumnSchema.bare name "BIGINT" with
    foreignKey := some ⟨false, false, .cascade, "id", refTable⟩ }

/-- A table with a single key of the given kind. -/
def TableSchema.keyed (name : String) (kind : PkKindSchema) : TableSchema :=
  { TableSchema.bare name [.bare "id" "BIGINT"] with primaryKey := ⟨["id"], kind⟩ }

/-- A through-table with one reference to each of two parents. -/
def TableSchema.through (name a b : String) : TableSchema :=
  { TableSchema.bare name [.reference (a ++ "_id") a, .reference (b ++ "_id") b] with
    isThrough := true }

def snapshotFormatVersion : String := "1"

/-- The schema of a bucket that one side of a diff does not have. -/
def AppliedSchema.empty : AppliedSchema where
  djogiVersion := ""
  enums := .empty
  formatVersion := snapshotFormatVersion
  generatedAt := ""
  indexes := []
  models := .empty
  registeredApps := []

/-- A bucket holding the given tables under their own names. -/
def AppliedSchema.ofTables (tables : List TableSchema) : AppliedSchema :=
  { AppliedSchema.empty with models := .ofList (tables.map fun t => (t.table, t)) }

/-- A bucket of tables with unique column names. -/
def NamedSchema.ofTables (tables : List TableSchema)
    (hcols : ∀ t ∈ tables, (t.columns.map ColumnSchema.name).Nodup) : NamedSchema where
  toAppliedSchema := .ofTables tables
  modelKey e he := by
    obtain ⟨t, -, rfl⟩ := List.mem_map.mp (OrdMap.mem_of_mem_ofList _ e he)
    rfl
  columnNames e he := by
    obtain ⟨t, ht, rfl⟩ := List.mem_map.mp (OrdMap.mem_of_mem_ofList _ e he)
    exact hcols t ht

theorem NamedSchema.table_eq (s : NamedSchema) (k : String) (t : TableSchema)
    (h : s.models.get k = some t) : t.table = k :=
  s.modelKey (k, t) ((OrdMap.mem_entries_iff s.models k t).mpr h)

theorem NamedSchema.columns_nodup (s : NamedSchema) (k : String) (t : TableSchema)
    (h : s.models.get k = some t) : (t.columns.map ColumnSchema.name).Nodup :=
  s.columnNames (k, t) ((OrdMap.mem_entries_iff s.models k t).mpr h)

end Djogi

import Djogi.Sql

/-!
# Descriptors

What the macros register for every model, enum and app (`descriptor.rs`, `apps.rs`, `fts.rs`),
as far as the projection reads it, with the texts of their SQL types.
-/

namespace Djogi

/-! ## Types of fields -/

inductive GeographySubtype
  | point | lineString | polygon | multiPoint | multiLineString | multiPolygon
  deriving DecidableEq, Repr

def GeographySubtype.display : GeographySubtype → String
  | .point => "Point"
  | .lineString => "LineString"
  | .polygon => "Polygon"
  | .multiPoint => "MultiPoint"
  | .multiLineString => "MultiLineString"
  | .multiPolygon => "MultiPolygon"

inductive RangeSubtypeKind
  | int4 | int8 | num | ts | tstz | date
  deriving DecidableEq, Repr

def RangeSubtypeKind.display : RangeSubtypeKind → String
  | .int4 => "int4range"
  | .int8 => "int8range"
  | .num => "numrange"
  | .ts => "tsrange"
  | .tstz => "tstzrange"
  | .date => "daterange"

inductive FieldSqlType
  | text
  | varchar (n : Nat)
  | smallInt | integer | bigInt | real | doublePrecision | boolean | timestamptz | date | numeric
  | numericPrecision (precision scale : Nat)
  | uuid | jsonb | bytea
  | textArray | integerArray | bigIntArray | boolArray | smallIntArray | realArray
  | doublePrecisionArray | timestamptzArray | dateArray | uuidArray | numericArray
  | citext
  | geography (subtype : GeographySubtype) (srid : Nat)
  | interval | inet | cidr | macaddr
  | range (subtype : RangeSubtypeKind)
  | domain (name : String) (base : FieldSqlType)
  | custom (name : String)
  deriving DecidableEq, Repr

def FieldSqlType.display : FieldSqlType → String
  | .text => "TEXT"
  | .varchar n => "VARCHAR(" ++ toString n ++ ")"
  | .smallInt => "SMALLINT"
  | .integer => "INTEGER"
  | .bigInt => "BIGINT"
  | .real => "REAL"
  | .doublePrecision => "DOUBLE PRECISION"
  | .boolean => "BOOLEAN"
  | .timestamptz => "TIMESTAMPTZ"
  | .date => "DATE"
  | .numeric => "NUMERIC"
  | .numericPrecision p s => "NUMERIC(" ++ toString p ++ ", " ++ toString s ++ ")"
  | .uuid => "UUID"
  | .jsonb => "JSONB"
  | .bytea => "BYTEA"
  | .textArray => "TEXT[]"
  | .integerArray => "INTEGER[]"
  | .bigIntArray => "BIGINT[]"
  | .boolArray => "BOOLEAN[]"
  | .smallIntArray => "SMALLINT[]"
  | .realArray => "REAL[]"
  | .doublePrecisionArray => "DOUBLE PRECISION[]"
  | .timestamptzArray => "TIMESTAMPTZ[]"
  | .dateArray => "DATE[]"
  | .uuidArray => "UUID[]"
  | .numericArray => "NUMERIC[]"
  | .citext => "CITEXT"
  | .geography subtype srid => "geography(" ++ subtype.display ++ ", " ++ toString srid ++ ")"
  | .interval => "INTERVAL"
  | .inet => "INET"
  | .cidr => "CIDR"
  | .macaddr => "MACADDR"
  | .range subtype => subtype.display
  | .domain name _ => name
  | .custom name => name

def FieldSqlType.isGeography : FieldSqlType → Bool
  | .geography .. => true
  | _ => false

inductive RustSourceType
  | i8 | u8 | u16 | u32 | u64 | decimal
  deriving DecidableEq, Repr

/-! ## Keys -/

structure CustomPrimaryKeyKind where
  typeName : String
  sqlType : String
  defaultSql : String
  deriving DecidableEq, Repr

inductive PkType
  | heerId | ranjId | heerIdDesc | ranjIdDesc | serial | none
  | composite (columns : List String)
  | custom (c : CustomPrimaryKeyKind)
  deriving DecidableEq, Repr

/-- The type of a foreign-key column that references a key. -/
def pkSqlTypeText : PkType → String
  | .heerId | .heerIdDesc => "BIGINT"
  | .ranjId | .ranjIdDesc => "UUID"
  | .serial => "INTEGER"
  | .custom c => c.sqlType
  | .composite _ | .none => "TEXT"

inductive StrictIdFamily
  | heerId | ranjId | none
  deriving DecidableEq, Repr

def strictIdFamilyOfPk : PkType → StrictIdFamily
  | .heerId | .heerIdDesc => .heerId
  | .ranjId | .ranjIdDesc => .ranjId
  | .serial | .none | .composite _ | .custom _ => .none

def pkDefaultSql : PkType → Option String
  | .heerId => some "heerid_next()"
  | .heerIdDesc => some "heerid_next_desc()"
  | .ranjId => some "ranjid_next()"
  | .ranjIdDesc => some "ranjid_next_desc()"
  | .serial | .none | .composite _ => Option.none
  | .custom c => if c.defaultSql.isEmpty then Option.none else some c.defaultSql

/-! ## Fields and indexes -/

inductive RelationKind
  | foreignKey | oneToOne
  deriving DecidableEq, Repr

inductive OnDelete
  | cascade | restrict | setNull | setDefault | protect | doNothing
  deriving DecidableEq, Repr

inductive IndexType
  | bTree | gin | gist | hash | spgist | brin
  deriving DecidableEq, Repr

inductive IndexKind
  | nonUnique | uniqueConstraint | uniqueIndex
  deriving DecidableEq, Repr

inductive IndexOrder
  | asc | desc
  deriving DecidableEq, Repr

inductive IndexNullsOrder
  | default | first | last
  deriving DecidableEq, Repr

structure IndexColumnSpec where
  name : String
  opclass : Option String
  order : IndexOrder
  nulls : IndexNullsOrder
  deriving DecidableEq, Repr

inductive IndexTarget
  | columns (cols : List IndexColumnSpec)
  | expression (expr : String)
  deriving DecidableEq, Repr

structure IndexSpec where
  name : String
  target : IndexTarget
  kind : IndexKind
  indexType : IndexType
  predicate : Option String
  include_ : List String
  nullsNotDistinct : Bool
  requiresOutOfTransaction : Bool
  extensionDependency : Option String
  deriving DecidableEq, Repr

structure ExclusionElement where
  expr : String
  withOperator : String
  deriving DecidableEq, Repr

structure ExclusionConstraintSpec where
  name : String
  using_ : String
  elements : List ExclusionElement
  whereClause : Option String
  deferrable : Bool
  initiallyDeferred : Bool
  extensionDependency : Option String
  deriving DecidableEq, Repr

structure GeneratedColumnSpec where
  expression : String
  stored : Bool
  deriving DecidableEq, Repr

structure ProtectedFieldMetadata where
  codec : Option String
  deriving DecidableEq, Repr

structure FieldDescriptor where
  name : String
  sqlType : FieldSqlType
  nullable : Bool
  unique : Bool
  indexed : Bool
  maxLength : Option Nat
  renamedFrom : Option String
  rationale : Option String
  outboxExclude : Bool
  sequenceWithin : Option String
  indexType : Option IndexType
  relationKind : Option RelationKind
  onDelete : Option OnDelete
  targetTypeName : Option String
  protected_ : Option ProtectedFieldMetadata
  generated : Option GeneratedColumnSpec
  rustSourceType : Option RustSourceType
  checkSql : Option String
  comment : Option String
  strictIdCheck : Bool
  typeChangeUsing : Option String
  deriving DecidableEq, Repr

/-! ## Full text -/

def isIdentByte (b : UInt8) : Bool :=
  (65 ≤ b && b ≤ 90) || (97 ≤ b && b ≤ 122) || (48 ≤ b && b ≤ 57) || b == 95

def isIdentStart (b : UInt8) : Bool :=
  (65 ≤ b && b ≤ 90) || (97 ≤ b && b ≤ 122) || b == 95

/-- `check_plain_ident` without the keyword list. -/
def isPlainIdent (bytes : List UInt8) : Bool :=
  match bytes with
  | [] => false
  | first :: rest => bytes.length ≤ 63 && isIdentStart first && rest.all isIdentByte

def lowerByte (b : UInt8) : UInt8 := if 65 ≤ b && b ≤ 90 then b + 32 else b

/-- `check_user_supplied_ident` without the keyword list. -/
def isUserSuppliedIdent (name : String) : Bool :=
  !(utf8 "__djogi_").isPrefixOf ((utf8 name).map lowerByte) && isPlainIdent (utf8 name)

def parseSourceColumns (source : String) : Option (List String) :=
  let cols := (splitChars ',' source.toList).map fun cs => String.ofList (trimChars cs)
  if cols.all isUserSuppliedIdent then some cols else none

/-- The macros validate the source columns; the projection relies on it. -/
structure FtsDescriptor where
  column : String
  source : String
  dictionary : String
  sourceColumns : List String
  valid : parseSourceColumns source = some sourceColumns

/-! ## Models, enums and apps -/

inductive PartitionSpec
  | range (column : String)
  | hash (column : String) (partitions : Nat)
  deriving DecidableEq, Repr

structure ModelDescriptor where
  typeName : String
  tableName : String
  pkType : PkType
  fields : List FieldDescriptor
  partitionBy : Option PartitionSpec
  hasOutbox : Bool
  tenantKey : Option String
  rationale : Option String
  indexes : List IndexSpec
  isThrough : Bool
  fts : Option FtsDescriptor
  app : Option String
  movedFromApp : Option String
  renamedFrom : Option String
  exclusionConstraints : List ExclusionConstraintSpec
  proxyFor : Option String
  tableComment : Option String
  storageParams : Option String
  tablespace : Option String

structure EnumDescriptor where
  typeName : String
  postgresType : String
  variants : List String
  deriving DecidableEq, Repr

structure AppDescriptor where
  label : String
  database : String
  deriving DecidableEq, Repr

def AppDescriptor.globalLabel : String := ""

def AppDescriptor.global : AppDescriptor := ⟨AppDescriptor.globalLabel, "main"⟩

structure DeferrabilitySpec where
  modelTypeName : String
  fieldName : String
  deferrable : Bool
  initiallyDeferred : Bool
  deriving DecidableEq, Repr

/-- A model with nothing but fields. -/
def plainModel (typeName tableName app : String) (pkType : PkType)
    (fields : List FieldDescriptor) : ModelDescriptor where
  typeName := typeName
  tableName := tableName
  pkType := pkType
  fields := fields
  partitionBy := none
  hasOutbox := false
  tenantKey := none
  rationale := none
  indexes := []
  isThrough := false
  fts := none
  app := some app
  movedFromApp := none
  renamedFrom := none
  exclusionConstraints := []
  proxyFor := none
  tableComment := none
  storageParams := none
  tablespace := none

/-- A field that refers to the target, if there is one. -/
def plainField (name : String) (sqlType : FieldSqlType) (target : Option String) :
    FieldDescriptor where
  name := name
  sqlType := sqlType
  nullable := false
  unique := false
  indexed := false
  maxLength := none
  renamedFrom := none
  rationale := none
  outboxExclude := false
  sequenceWithin := none
  indexType := none
  relationKind := target.map fun _ => .foreignKey
  onDelete := none
  targetTypeName := target
  protected_ := none
  generated := none
  rustSourceType := none
  checkSql := none
  comment := none
  strictIdCheck := false
  typeChangeUsing := none

end Djogi

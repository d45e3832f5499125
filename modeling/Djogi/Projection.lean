import Djogi.BucketDiff
import Djogi.Descriptor

/-!
# Projecting descriptors

`project_from_iters_with_deferrability` of `migrate/projection.rs`: the registered descriptors
become one applied schema for each bucket. The lookup maps are filled in inventory order, some
with a conflict check and some so that the last entry wins.
-/

namespace Djogi

open OrdMap

/-! ## Errors -/

inductive ProjectionError
  | duplicateModelTypeName (typeName firstTable secondTable : String)
  | duplicateTableInBucket (bucket : BucketKey) (table firstType secondType : String)
  | duplicateEnumPostgresType (postgresType firstRustType secondRustType : String)
  | unknownAppLabel (appLabel modelTable : String)
  | crossDatabaseForeignKey (sourceBucket : BucketKey) (sourceTable sourceColumn : String)
      (targetBucket : BucketKey) (targetTable : String)
  | conflictingDeferrabilitySpec (modelTypeName fieldName : String) (first second : Bool × Bool)
  | proxyParentNotRegistered (sourceBucket : BucketKey)
      (sourceTable sourceColumn proxyType parentType : String)
  | proxyCycle (typeName : String)
  deriving DecidableEq, Repr

def insertUnique {κ ν ε : Type} [LinearOrder κ] (m : OrdMap κ ν) (k : κ) (v : ν)
    (onConflict : ν → ν → Except ε Unit) : Except ε (OrdMap κ ν) :=
  match m.get k with
  | none => .ok (m.insert k v)
  | some old => (onConflict old v).map fun _ => m

/-! ## Checks of a column -/

def dateRangeExpr (e : String) : String :=
  "pg_catalog.isfinite(" ++ e ++ ") AND " ++ e ++ " <= DATE '9999-12-31'"

def timestamptzRangeExpr (e : String) : String :=
  "pg_catalog.isfinite(" ++ e ++ ") AND " ++ e ++
    " <= TIMESTAMPTZ '9999-12-31 23:59:59.999999+00'"

def timestampRangeExpr (e : String) : String :=
  "pg_catalog.isfinite(" ++ e ++ ") AND " ++ e ++ " <= TIMESTAMP '9999-12-31 23:59:59.999999'"

def decimalReprExpr (e : String) : String :=
  "scale(" ++ e ++ ") IS NOT NULL AND scale(" ++ e ++ ") <= 28 AND abs(" ++ e ++
    ") * power(10::numeric, scale(" ++ e ++ ")) <= 79228162514264337593543950335"

def rangeEndpointChecks (column : String) (boundCheck : String → String) : String :=
  let lower := "lower(" ++ column ++ ")"
  let upper := "upper(" ++ column ++ ")"
  "(" ++ lower ++ " IS NULL OR (" ++ boundCheck lower ++ ")) AND (" ++ upper ++ " IS NULL OR (" ++
    boundCheck upper ++ "))"

def arrayCheck (helper column : String) : String :=
  column ++ " IS NULL OR djogi." ++ helper ++ "(" ++ column ++ ")"

def rangeCheck (q low high : String) : String :=
  q ++ " >= " ++ low ++ " AND " ++ q ++ " <= " ++ high

def fieldTypeCheck (sqlType : FieldSqlType) (source : Option RustSourceType) (column : String) :
    Option String :=
  let q := quoteIdent column
  match sqlType, source with
  | .date, _ => some (dateRangeExpr q)
  | .timestamptz, _ => some (timestamptzRangeExpr q)
  | .smallInt, some .i8 => some (rangeCheck q "-128" "127")
  | .smallInt, some .u8 => some (rangeCheck q "0" "255")
  | .integer, some .u16 => some (rangeCheck q "0" "65535")
  | .bigInt, some .u32 => some (rangeCheck q "0" "4294967295")
  | .numeric, some .u64 =>
      some (rangeCheck q "0" "18446744073709551615" ++ " AND " ++ q ++ " = trunc(" ++ q ++ ")")
  | .numeric, some .decimal => some ("(" ++ q ++ ") IS NULL OR (" ++ decimalReprExpr q ++ ")")
  | .timestamptzArray, _ => some (arrayCheck "__djogi_tstz_array_is_finite_v1" q)
  | .dateArray, _ => some (arrayCheck "__djogi_date_array_is_finite_v1" q)
  | .numericArray, _ => some (arrayCheck "__djogi_numeric_array_is_rust_decimal_v1" q)
  | .range .num, _ => some (rangeEndpointChecks q decimalReprExpr)
  | .range .ts, _ => some (rangeEndpointChecks q timestampRangeExpr)
  | .range .tstz, _ => some (rangeEndpointChecks q timestamptzRangeExpr)
  | .range .date, _ => some (rangeEndpointChecks q dateRangeExpr)
  | _, _ => none

def strictIdCheckExpr (family : StrictIdFamily) (column : String) : Option String :=
  let q := quoteIdent column
  match family with
  | .heerId => some (q ++ " >= 0")
  | .ranjId =>
      some ("pg_catalog.substring(" ++ q ++ "::text, 15, 1) = '8' AND pg_catalog.substring(" ++ q ++
        "::text, 20, 1) IN ('8','9','a','b')")
  | .none => none

def trimText (s : String) : String := String.ofList (trimChars s.toList)

def combineCheckExpressions (typeDerived adopter : Option String) : Option String :=
  match typeDerived, adopter with
  | none, none => none
  | some t, none => some t
  | none, some a => some (trimText a)
  | some t, some a => some ("(" ++ trimText t ++ ") AND (" ++ trimText a ++ ")")

/-! ## Parts of a table -/

def projectOnDelete : OnDelete → OnDeleteSchema
  | .cascade => .cascade
  | .restrict => .restrict
  | .setNull => .setNull
  | .setDefault => .setDefault
  | .protect => .restrict
  | .doNothing => .noAction

def projectRelationKind : RelationKind → RelationKindSchema
  | .foreignKey => .foreignKey
  | .oneToOne => .oneToOne

def projectIndexType : IndexType → IndexTypeSchema
  | .bTree => .bTree
  | .gin => .gin
  | .gist => .gist
  | .hash => .hash
  | .spgist => .spgist
  | .brin => .brin

def projectIndexKind : IndexKind → IndexKindSchema
  | .nonUnique => .nonUnique
  | .uniqueConstraint => .uniqueConstraint
  | .uniqueIndex => .uniqueIndex

def projectIndexOrder : IndexOrder → IndexOrderSchema
  | .asc => .asc
  | .desc => .desc

def projectIndexNulls : IndexNullsOrder → IndexNullsOrderSchema
  | .default => .default
  | .first => .first
  | .last => .last

def projectIndexTarget : IndexTarget → IndexTargetSchema
  | .columns cols => .columns (cols.map fun c =>
      ⟨c.name, projectIndexNulls c.nulls, c.opclass, projectIndexOrder c.order⟩)
  | .expression expr => .expression expr

def projectIndex (idx : IndexSpec) (table : String) : IndexSchema where
  extensionDependency := idx.extensionDependency
  include_ := idx.include_
  indexType := projectIndexType idx.indexType
  kind := projectIndexKind idx.kind
  name := idx.name
  nullsNotDistinct := idx.nullsNotDistinct
  predicate := idx.predicate
  requiresOutOfTransaction := idx.requiresOutOfTransaction
  table := table
  target := projectIndexTarget idx.target

def plainIndexColumn (name : String) : IndexColumnSchema := ⟨name, .default, none, .asc⟩

/-- An index that is not unique, with every modifier at its default. -/
def plainIndex (name table : String) (indexType : IndexTypeSchema) (columns : List String) :
    IndexSchema where
  extensionDependency := none
  include_ := []
  indexType := indexType
  kind := .nonUnique
  name := name
  nullsNotDistinct := false
  predicate := none
  requiresOutOfTransaction := false
  table := table
  target := .columns (columns.map plainIndexColumn)

def ftsIndexName (table column : String) : String :=
  truncateConstraint (table ++ "_" ++ column ++ "_gin")

def projectFtsIndex (table : String) (fts : FtsDescriptor) : IndexSchema :=
  plainIndex (ftsIndexName table fts.column) table .gin [fts.column]

def projectFieldLevelIndex (column : String) (indexType : Option IndexType) (table : String) :
    IndexSchema :=
  plainIndex (indexName table column) table ((indexType.map projectIndexType).getD .bTree) [column]

def outboxTableName (parentTable : String) : String := parentTable ++ "_outbox"

def outboxPendingIndexName (table : String) : String :=
  truncateConstraint (table ++ "_outbox_pending_idx")

def projectOutboxPendingIndex (table : String) : IndexSchema :=
  { plainIndex (outboxPendingIndexName table) (outboxTableName table) .bTree
      ["state", "created_at"] with
    predicate := some "state = 'pending'" }

def projectPrimaryKey : PkType → PrimaryKeySchema
  | .heerId => ⟨["id"], .heerId⟩
  | .heerIdDesc => ⟨["id"], .heerIdRecencyBiased⟩
  | .ranjId => ⟨["id"], .ranjId⟩
  | .ranjIdDesc => ⟨["id"], .ranjIdRecencyBiased⟩
  | .serial => ⟨["id"], .serial⟩
  | .none => ⟨[], .none⟩
  | .composite cols => ⟨cols, .composite⟩
  | .custom c => ⟨["id"], .custom ⟨c.defaultSql, c.sqlType, c.typeName⟩⟩

def projectPartition : PartitionSpec → PartitionSchema
  | .range column => .range column
  | .hash column partitions => .hash column partitions

def projectExclusionConstraint (spec : ExclusionConstraintSpec) : ExclusionConstraintSchema where
  deferrable := spec.deferrable
  elements := spec.elements.map fun e => ⟨e.expr, e.withOperator⟩
  extensionDependency := spec.extensionDependency
  initiallyDeferred := spec.initiallyDeferred
  name := spec.name
  using_ := spec.using_
  whereClause := spec.whereClause

/-! ## Lookup maps -/

/-- What the projection looks up by name. -/
structure Lookups where
  labelToApp : OrdMap String AppDescriptor
  typeToTable : OrdMap String String
  typeToBucket : OrdMap String BucketKey
  typeToProxyFor : OrdMap String String
  typeToPkSql : OrdMap String String
  typeToPkFamily : OrdMap String StrictIdFamily
  deferrabilityByField : OrdMap (String ×ₗ String) (Bool × Bool)

def AppDescriptor.bucket (app : AppDescriptor) : BucketKey := ⟨app.database, app.label⟩

def ModelDescriptor.label (m : ModelDescriptor) : String := m.app.getD AppDescriptor.globalLabel

def addDeferrability (m : OrdMap (String ×ₗ String) (Bool × Bool)) (spec : DeferrabilitySpec) :
    Except ProjectionError (OrdMap (String ×ₗ String) (Bool × Bool)) :=
  match m.get (toLex (spec.modelTypeName, spec.fieldName)) with
  | some prev =>
      if prev = (spec.deferrable, spec.initiallyDeferred) then
        .ok (m.insert (toLex (spec.modelTypeName, spec.fieldName))
          (spec.deferrable, spec.initiallyDeferred))
      else .error (.conflictingDeferrabilitySpec spec.modelTypeName spec.fieldName prev
        (spec.deferrable, spec.initiallyDeferred))
  | none => .ok (m.insert (toLex (spec.modelTypeName, spec.fieldName))
      (spec.deferrable, spec.initiallyDeferred))

/-- The global app comes first, so a registered app with its label replaces it. -/
def labelToApp (apps : List AppDescriptor) : OrdMap String AppDescriptor :=
  .ofList ((AppDescriptor.globalLabel, AppDescriptor.global) :: apps.map fun a => (a.label, a))

def addModelTable (m : OrdMap String String) (d : ModelDescriptor) :
    Except ProjectionError (OrdMap String String) :=
  insertUnique m d.typeName d.tableName fun prev new =>
    if prev = new then .ok () else .error (.duplicateModelTypeName d.typeName prev new)

/-- The bucket of a model with the model. -/
def place (labels : OrdMap String AppDescriptor) (m : ModelDescriptor) :
    Except ProjectionError (BucketKey × ModelDescriptor) :=
  match labels.get m.label with
  | none => .error (.unknownAppLabel m.label m.tableName)
  | some app => .ok (app.bucket, m)

def typeToProxyFor (models : List ModelDescriptor) : OrdMap String String :=
  .ofList (models.filterMap fun m => m.proxyFor.map fun parent => (m.typeName, parent))

def addEnum (st : OrdMap String EnumSchema × OrdMap String String) (e : EnumDescriptor) :
    Except ProjectionError (OrdMap String EnumSchema × OrdMap String String) :=
  (insertUnique st.2 e.postgresType e.typeName fun prev new =>
    .error (.duplicateEnumPostgresType e.postgresType prev new)).map fun rustTypes =>
      (st.1.insert e.postgresType ⟨e.postgresType, e.variants⟩, rustTypes)

/-! ## Foreign keys across databases -/

inductive ProxyWalk
  | found (typeName : String)
  | parentNotRegistered (proxyType parentType : String)
  | cycle
  deriving DecidableEq, Repr

/-- Follow `proxy_for` to the concrete parent, at most `fuel` steps. -/
def walkProxies (lk : Lookups) : Nat → String → ProxyWalk
  | 0, t =>
      match lk.typeToProxyFor.get t with
      | none => .found t
      | some parent =>
          if lk.typeToBucket.contains parent then .cycle else .parentNotRegistered t parent
  | fuel + 1, t =>
      match lk.typeToProxyFor.get t with
      | none => .found t
      | some parent =>
          if lk.typeToBucket.contains parent then walkProxies lk fuel parent
          else .parentNotRegistered t parent

def checkFieldTarget (lk : Lookups) (fuel : Nat) (source : BucketKey) (m : ModelDescriptor)
    (f : FieldDescriptor) (target : String) : Except ProjectionError Unit :=
  match walkProxies lk fuel target with
  | .parentNotRegistered proxy parent =>
      .error (.proxyParentNotRegistered source m.tableName f.name proxy parent)
  | .cycle => .error (.proxyCycle target)
  | .found resolved =>
      match lk.typeToBucket.get resolved with
      | none => .ok ()
      | some bucket =>
          if bucket.database = source.database then .ok ()
          else .error (.crossDatabaseForeignKey source m.tableName f.name bucket
            ((lk.typeToTable.get resolved).getD resolved))

/-- The type a relation field points at. -/
def FieldDescriptor.target (f : FieldDescriptor) : Option String :=
  f.relationKind.bind fun _ => f.targetTypeName

def checkField (lk : Lookups) (fuel : Nat) (source : BucketKey) (m : ModelDescriptor)
    (f : FieldDescriptor) : Except ProjectionError Unit :=
  match f.target with
  | none => .ok ()
  | some target => checkFieldTarget lk fuel source m f target

/-- Proxies are not checked: the parent has the columns. -/
def checkForeignKeys (lk : Lookups) (fuel : Nat) (p : BucketKey × ModelDescriptor) :
    Except ProjectionError Unit :=
  if p.2.proxyFor.isSome then .ok ()
  else p.2.fields.forM (checkField lk fuel p.1 p.2)

/-! ## Columns -/

def fieldDefaultSql (f : FieldDescriptor) (parent : ModelDescriptor) : Option String :=
  if f.name = "id" then pkDefaultSql parent.pkType
  else if (f.name = "created_at" ∨ f.name = "updated_at") ∧ f.sqlType = .timestamptz then
    some "now()"
  else none

/-- A relation takes the type of the key it points at. -/
def fieldSqlType (lk : Lookups) (f : FieldDescriptor) : String :=
  match f.target.bind lk.typeToPkSql.get with
  | some pkSql => pkSql
  | none => f.sqlType.display

def fieldForeignKey (lk : Lookups) (f : FieldDescriptor) (parent : ModelDescriptor) :
    Option ForeignKeySchema :=
  f.target.map fun target =>
    let deferral := (lk.deferrabilityByField.get (toLex (parent.typeName, f.name))).getD
      (false, false)
    { deferrable := deferral.1
      initiallyDeferred := deferral.2
      onDelete := projectOnDelete (f.onDelete.getD .restrict)
      refColumn := "id"
      refTable := (lk.typeToTable.get target).getD target }

def fieldFamily (lk : Lookups) (f : FieldDescriptor) (parent : ModelDescriptor) :
    StrictIdFamily :=
  if f.relationKind.isSome then
    (f.targetTypeName.bind lk.typeToPkFamily.get).getD .none
  else if f.name = "id" then strictIdFamilyOfPk parent.pkType
  else match f.sqlType with
    | .bigInt => .heerId
    | .uuid => .ranjId
    | _ => .none

def fieldCheck (lk : Lookups) (f : FieldDescriptor) (parent : ModelDescriptor) : Option String :=
  let typeDerived := if f.target.isSome then none
    else fieldTypeCheck f.sqlType f.rustSourceType f.name
  let strictId := if f.strictIdCheck then strictIdCheckExpr (fieldFamily lk f parent) f.name
    else none
  combineCheckExpressions (combineCheckExpressions typeDerived strictId) f.checkSql

def projectColumn (lk : Lookups) (parent : ModelDescriptor) (f : FieldDescriptor) :
    ColumnSchema where
  check := fieldCheck lk f parent
  codec := f.protected_.bind ProtectedFieldMetadata.codec
  comment := f.comment
  defaultSql := fieldDefaultSql f parent
  foreignKey := fieldForeignKey lk f parent
  generated := f.generated.map fun g => ⟨g.expression, g.stored⟩
  identity := if f.name = "id" ∧ parent.pkType = .serial then some .byDefault else none
  indexType := f.indexType.map projectIndexType
  indexed := f.indexed
  maxLength := f.maxLength
  name := f.name
  nullable := f.nullable
  onDelete := f.relationKind.map fun _ => projectOnDelete (f.onDelete.getD .restrict)
  outboxExclude := f.outboxExclude
  rationale := f.rationale
  relationKind := f.relationKind.map projectRelationKind
  renamedFrom := f.renamedFrom
  sequenceWithin := f.sequenceWithin
  sqlType := fieldSqlType lk f
  unique := f.unique
  typeChangeUsing := f.typeChangeUsing

def ftsGeneratedExpression (fts : FtsDescriptor) : String :=
  "to_tsvector('" ++ fts.dictionary ++ "', " ++
    String.intercalate " || ' ' || " (fts.sourceColumns.map quoteIdent) ++ ")"

def projectFtsColumn (fts : FtsDescriptor) : ColumnSchema :=
  { ColumnSchema.bare fts.column "TSVECTOR" with
    generated := some ⟨ftsGeneratedExpression fts, true⟩ }

/-! ## Tables -/

def projectModel (lk : Lookups) (m : ModelDescriptor) : TableSchema where
  app := m.app
  columns := m.fields.map (projectColumn lk m) ++ (m.fts.map projectFtsColumn).toList
  exclusionConstraints := sortBy ExclusionConstraintSchema.name
    (m.exclusionConstraints.map projectExclusionConstraint)
  fts := m.fts.map fun f => ⟨f.column, f.dictionary, f.source⟩
  isThrough := m.isThrough
  movedFromApp := m.movedFromApp
  partition := m.partitionBy.map projectPartition
  primaryKey := projectPrimaryKey m.pkType
  rationale := m.rationale
  renamedFrom := m.renamedFrom
  rlsEnabled := m.tenantKey.isSome
  storageParams := m.storageParams
  table := m.tableName
  tableComment := m.tableComment
  tablespace := m.tablespace
  tenantKey := m.tenantKey

def outboxColumn (name sqlType : String) (defaultSql : Option String) : ColumnSchema :=
  { ColumnSchema.bare name sqlType with
    defaultSql := defaultSql
    nullable := false }

def projectOutboxTable (lk : Lookups) (m : ModelDescriptor) : TableSchema where
  app := m.app
  columns := [
    outboxColumn "id" "BIGINT" (some "heerid_next()"),
    outboxColumn "row_id" ((lk.typeToPkSql.get m.typeName).getD (pkSqlTypeText m.pkType)) none,
    { outboxColumn "action" "TEXT" none with
      check := some "action IN ('create', 'save', 'delete')" },
    outboxColumn "payload" "JSONB" none,
    outboxColumn "created_at" "TIMESTAMPTZ" (some "now()"),
    { outboxColumn "state" "TEXT" (some "'pending'") with
      check := some "state IN ('pending', 'processing', 'published', 'failed')" },
    { outboxColumn "leased_until" "TIMESTAMPTZ" none with nullable := true },
    outboxColumn "retry_count" "INTEGER" (some "0"),
    { outboxColumn "failed_reason" "TEXT" none with nullable := true }]
  exclusionConstraints := []
  fts := none
  isThrough := false
  movedFromApp := none
  partition := none
  primaryKey := ⟨["id"], .heerId⟩
  rationale := none
  renamedFrom := none
  rlsEnabled := false
  storageParams := none
  table := outboxTableName m.tableName
  tableComment := none
  tablespace := none
  tenantKey := none

/-! ## Indexes of a model -/

def singleColumn : IndexTargetSchema → Option String
  | .columns [c] => some c.name
  | _ => none

def hasSingleColumnGistIndex (indexes : List IndexSchema) (table column : String) : Bool :=
  indexes.any fun e => e.table == table && e.indexType == .gist && singleColumn e.target == some column

/-- An explicit index of the same name wins, and so does the spatial index of a geography
column. -/
def pushFieldIndex (table : String) (indexes : List IndexSchema) (f : FieldDescriptor) :
    List IndexSchema :=
  if !f.indexed then indexes
  else if indexes.any fun e =>
      e.table == table && e.name == (projectFieldLevelIndex f.name f.indexType table).name then
    indexes
  else if f.sqlType.isGeography && f.indexType == some .gist &&
      hasSingleColumnGistIndex indexes table f.name then
    indexes
  else indexes ++ [projectFieldLevelIndex f.name f.indexType table]

/-! ## Buckets -/

structure BucketTables where
  tables : OrdMap String TableSchema
  indexes : List IndexSchema

/-- The indexes that a model pushes without looking at those before. -/
def ownIndexes (m : ModelDescriptor) : List IndexSchema :=
  (if m.hasOutbox then [projectOutboxPendingIndex m.tableName] else []) ++
    m.indexes.map (projectIndex · m.tableName) ++
    (m.fts.map (projectFtsIndex m.tableName)).toList

def addTable (bucket : BucketKey) (tables : OrdMap String TableSchema) (t : TableSchema)
    (typeName : String) : Except ProjectionError (OrdMap String TableSchema) :=
  insertUnique tables t.table t fun existing duplicate =>
    .error (.duplicateTableInBucket bucket duplicate.table existing.table typeName)

def addOutboxTable (lk : Lookups) (bucket : BucketKey) (tables : OrdMap String TableSchema)
    (m : ModelDescriptor) : Except ProjectionError (OrdMap String TableSchema) :=
  if m.hasOutbox then addTable bucket tables (projectOutboxTable lk m) (m.typeName ++ "::outbox")
  else .ok tables

/-- A proxy shares the table of its parent. -/
def projectInto (lk : Lookups) (bucket : BucketKey) (st : BucketTables) (m : ModelDescriptor) :
    Except ProjectionError BucketTables :=
  if m.proxyFor.isSome then .ok st
  else do
    let tables ← addTable bucket st.tables (projectModel lk m) m.typeName
    let tables ← addOutboxTable lk bucket tables m
    .ok ⟨tables, m.fields.foldl (pushFieldIndex m.tableName) (st.indexes ++ ownIndexes m)⟩

def bucketEnums (enums : OrdMap String EnumSchema) (tables : OrdMap String TableSchema) :
    OrdMap String EnumSchema :=
  enums.filter fun name _ =>
    tables.values.any fun t => t.columns.any fun c => c.sqlType == name

def crateVersion : String := "0.1.0-alpha.17"

def bucketSchema (lk : Lookups) (enums : OrdMap String EnumSchema) (generatedAt : String)
    (st : BucketTables) : AppliedSchema where
  djogiVersion := crateVersion
  enums := bucketEnums enums st.tables
  formatVersion := snapshotFormatVersion
  generatedAt := generatedAt
  indexes := sortBy (fun i : IndexSchema => toLex (i.table, i.name)) st.indexes
  models := st.tables
  registeredApps := lk.labelToApp.keys

def projectBucket (lk : Lookups) (enums : OrdMap String EnumSchema) (generatedAt : String)
    (placed : List (BucketKey × ModelDescriptor)) (bucket : BucketKey) :
    Except ProjectionError (BucketKey × AppliedSchema) :=
  ((placed.filter fun p => p.1 = bucket).foldlM (fun st p => projectInto lk bucket st p.2)
    ⟨.empty, []⟩).map fun st => (bucket, bucketSchema lk enums generatedAt st)

/-! ## The projection -/

/-- Everything that the macros registered, in the order the linker yields it. -/
structure Inventory where
  models : List ModelDescriptor
  enums : List EnumDescriptor
  apps : List AppDescriptor
  specs : List DeferrabilitySpec

/-- Every registered app has a bucket, and every model is in the bucket of some app. -/
def appBuckets (lk : Lookups) : List BucketKey :=
  sortedDedup (lk.labelToApp.values.map AppDescriptor.bucket)

def Inventory.lookups (inv : Inventory)
    (deferrability : OrdMap (String ×ₗ String) (Bool × Bool)) (tables : OrdMap String String)
    (placed : List (BucketKey × ModelDescriptor)) : Lookups where
  labelToApp := Djogi.labelToApp inv.apps
  typeToTable := tables
  typeToBucket := .ofList (placed.map fun p => (p.2.typeName, p.1))
  typeToProxyFor := Djogi.typeToProxyFor inv.models
  typeToPkSql := .ofList (inv.models.map fun m => (m.typeName, pkSqlTypeText m.pkType))
  typeToPkFamily := .ofList (inv.models.map fun m => (m.typeName, strictIdFamilyOfPk m.pkType))
  deferrabilityByField := deferrability

def projectFromIters (inv : Inventory) (generatedAt : String) :
    Except ProjectionError (OrdMap BucketKey AppliedSchema) := do
  let deferrability ← inv.specs.foldlM addDeferrability .empty
  let tables ← inv.models.foldlM addModelTable .empty
  let placed ← inv.models.mapM (place (labelToApp inv.apps))
  let lk := inv.lookups deferrability tables placed
  placed.forM (checkForeignKeys lk inv.models.length)
  let enums ← inv.enums.foldlM addEnum (.empty, .empty)
  let schemas ← (appBuckets lk).mapM (projectBucket lk enums.1 generatedAt placed)
  .ok (.ofList schemas)

end Djogi

import Djogi.Operation

/-!
# The per-bucket differ

`diff_schemas` of `migrate/diff.rs`. The source pushes onto one operation vector;
here every part returns the operations it pushes and the caller appends them in
the source's order.
-/

namespace Djogi

/-! ## Columns -/

def columnMap (t : TableSchema) : OrdMap String ColumnSchema :=
  .ofList (t.columns.map fun c => (c.name, c))

/-- Old column name to new column name, for every rename hint whose old name the
previous table has. Later columns (in name order) win over earlier ones. -/
def columnRenameTargets (before after : TableSchema) : OrdMap String String :=
  .ofList ((columnMap after).values.filterMap fun c =>
    (c.renamedFrom.filter (columnMap before).contains).map fun prev => (prev, c.name))

def typeChanged (before after : ColumnSchema) : Bool := before.sqlType != after.sqlType

/-- A codec transition owns the column: type and CHECK handling step aside. -/
def codecChanged (before after : ColumnSchema) : Bool := before.codec != after.codec

def checkTransition (before after : Option String) : List ColumnChange :=
  match before, after with
  | none, none => []
  | some b, some a =>
      if b = a then [] else [.setCheck (some b) none, .setCheck none (some a)]
  | none, some a => [.setCheck none (some a)]
  | some b, none => [.setCheck (some b) none]

def columnChanges (before after : ColumnSchema) : List ColumnChange :=
  (if typeChanged before after && !codecChanged before after && before.check.isSome then
    [.setCheck before.check none] else []) ++
  (if typeChanged before after && !codecChanged before after then
    [.changeType before.sqlType after.sqlType after.typeChangeUsing] else []) ++
  (if codecChanged before after then [.codecChange before.codec after.codec] else []) ++
  (if before.nullable = after.nullable then [] else [.setNullable after.nullable]) ++
  (if before.defaultSql = after.defaultSql then [] else [.setDefault after.defaultSql]) ++
  (if typeChanged before after && !codecChanged before after && before.check.isSome then
    match after.check with
    | some check => [.setCheck none (some check)]
    | none => []
  else checkTransition before.check after.check) ++
  (if before.unique = after.unique then [] else [.setUnique after.unique]) ++
  (if before.generated = after.generated then []
    else [.setGenerated before.generated after.generated]) ++
  (if before.identity = after.identity then []
    else [.setIdentity before.identity after.identity]) ++
  (if before.comment = after.comment then [] else [.setComment before.comment after.comment])

def foreignKeyChanges (table column : String) (before after : Option ForeignKeySchema) :
    List SchemaOperation :=
  match before, after with
  | none, some fk => [.addForeignKey table column fk]
  | some b, none => [.dropForeignKey table column b]
  | some b, some a =>
      if b = a then [] else [.dropForeignKey table column b, .addForeignKey table column a]
  | none, none => []

def emitAlterColumn (parent : TableSchema) (before after : ColumnSchema) :
    List SchemaOperation :=
  (columnChanges before after).map (.alterColumn parent.table after.name) ++
    foreignKeyChanges parent.table after.name before.foreignKey after.foreignKey

def dropColumnOps (before after : TableSchema) : List SchemaOperation :=
  ((columnMap before).keys.filter fun old =>
    !(columnMap after).contains old && !(columnRenameTargets before after).contains old).map
      (.dropColumn after.table)

def addColumnOps (before after : TableSchema) : List SchemaOperation :=
  (after.columns.filter fun c =>
    !(columnMap before).contains c.name &&
      !(columnRenameTargets before after).values.contains c.name).map
        (.addColumn after.table)

/-- One rename with the alterations of the renamed column. Both names are keys of
their maps, so the two lookups always succeed. -/
def renameColumnOps (before after : TableSchema) (e : String × String) :
    List SchemaOperation :=
  .renameColumn after.table e.1 e.2 ::
    match (columnMap before).get e.1, (columnMap after).get e.2 with
    | some bc, some ac => emitAlterColumn after bc ac
    | _, _ => []

def commonColumnOps (before after : TableSchema) (e : String × ColumnSchema) :
    List SchemaOperation :=
  match (columnMap before).get e.1 with
  | none => []
  | some bc => if bc.persistent = e.2.persistent then [] else emitAlterColumn after bc e.2

def diffColumnsInTable (before after : TableSchema) : List SchemaOperation :=
  dropColumnOps before after ++ addColumnOps before after ++
    (columnRenameTargets before after).entries.flatMap (renameColumnOps before after) ++
    (columnMap after).entries.flatMap (commonColumnOps before after)

/-! ## Primary keys -/

def isPkKindFlip (before after : PkKindSchema) : Bool :=
  match before, after with
  | .heerId, .heerIdRecencyBiased => true
  | .heerIdRecencyBiased, .heerId => true
  | .ranjId, .ranjIdRecencyBiased => true
  | .ranjIdRecencyBiased, .ranjId => true
  | _, _ => false

/-- Debug form of a string: quoted, with the ASCII escapes. Characters that are not
printable, which no identifier holds, are left as they are. -/
def debugString (s : String) : String :=
  "\"" ++ String.join (s.toList.map fun c =>
    if c.toNat = 34 then "\\\"" else if c.toNat = 92 then "\\\\"
    else if c.toNat = 10 then "\\n" else if c.toNat = 13 then "\\r"
    else if c.toNat = 9 then "\\t" else if c.toNat = 0 then "\\0"
    else String.singleton c) ++ "\""

def debugStrings (l : List String) : String :=
  "[" ++ String.intercalate ", " (l.map debugString) ++ "]"

def PkKindSchema.debug : PkKindSchema → String
  | .heerId => "HeerId"
  | .heerIdRecencyBiased => "HeerIdRecencyBiased"
  | .ranjId => "RanjId"
  | .ranjIdRecencyBiased => "RanjIdRecencyBiased"
  | .serial => "Serial"
  | .composite => "Composite"
  | .none => "None"
  | .custom c =>
      "Custom(CustomPkKindSchema \x7b default_sql: " ++ debugString c.defaultSql ++
        ", sql_type: " ++ debugString c.sqlType ++ ", type_name: " ++
        debugString c.typeName ++ " \x7d)"

def PrimaryKeySchema.debug (pk : PrimaryKeySchema) : String :=
  "PrimaryKeySchema \x7b columns: " ++ debugStrings pk.columns ++ ", kind: " ++
    pk.kind.debug ++ " \x7d"

def describePkKind : PkKindSchema → String
  | .custom c =>
      "Custom(type_name = `" ++ c.typeName ++ "`, sql_type = `" ++ c.sqlType ++
        "`, default_sql = `" ++ c.defaultSql ++ "`)"
  | other => other.debug

def customPkUnsupportedReason (table : String) (before after : PkKindSchema) : String :=
  let bucket := match before, after with
    | .custom _, .custom _ => "custom-to-custom"
    | .custom _, _ => "custom-to-built-in"
    | _, .custom _ => "built-in-to-custom"
    | _, _ => "non-custom"
  "table `" ++ table ++ "`: primary key change involves a `djogi::primary_key!` custom " ++
    "newtype (" ++ bucket ++ ": " ++ describePkKind before ++ " → " ++ describePkKind after ++
    ") and is not auto-supported in v0.1.0. The `pk_flip` family only ships migration " ++
    "playbooks for the four built-in asc↔desc pairs (HeerId ↔ HeerIdRecencyBiased, RanjId ↔ " ++
    "RanjIdRecencyBiased); transitions involving a custom PK newtype must be hand-written so " ++
    "the operator can decide on the value-preserving cast and the FK cascade strategy. See " ++
    "`docs/spec/migrations.md` §10.10a for the v0.1.0 support matrix and rationale."

def pkUnsupportedReason (table : String) (before after : PrimaryKeySchema) : String :=
  "table `" ++ table ++ "`: primary key change is not auto-supported (" ++ before.debug ++
    " → " ++ after.debug ++ "). Recognised auto-flips: HeerId ↔ HeerIdRecencyBiased, RanjId ↔ " ++
    "RanjIdRecencyBiased with identical column lists. Hand-write this migration."

def PkKindSchema.isCustom : PkKindSchema → Bool
  | .custom _ => true
  | _ => false

/-- Key columns of the previous table under their new names. -/
def normalisedPkColumns (before : TableSchema) (columnRenames : OrdMap String String) :
    List String :=
  before.primaryKey.columns.map fun c => (columnRenames.get c).getD c

def diffPkInTable (before after : TableSchema) (columnRenames : OrdMap String String) :
    List SchemaOperation :=
  if before.primaryKey = after.primaryKey then []
  else if normalisedPkColumns before columnRenames = after.primaryKey.columns ∧
      isPkKindFlip before.primaryKey.kind after.primaryKey.kind = true then
    [.pkTypeFlip after.table before.primaryKey.kind after.primaryKey.kind]
  else if before.primaryKey.kind.isCustom || after.primaryKey.kind.isCustom then
    [.unsupported (customPkUnsupportedReason after.table before.primaryKey.kind
      after.primaryKey.kind)]
  else [.unsupported (pkUnsupportedReason after.table before.primaryKey after.primaryKey)]

/-! ## Exclusion constraints, metadata, app label -/

def exclusionMap (t : TableSchema) : OrdMap String ExclusionConstraintSchema :=
  .ofList (t.exclusionConstraints.map fun e => (e.name, e))

def diffExclusionConstraintsInTable (before after : TableSchema) : List SchemaOperation :=
  ((exclusionMap before).entries.filter fun e => !(exclusionMap after).contains e.1).map
      (fun e => .dropExclusionConstraint after.table e.1 e.2) ++
    (exclusionMap after).entries.flatMap fun e =>
      match (exclusionMap before).get e.1 with
      | some b =>
          if b = e.2 then []
          else [.dropExclusionConstraint after.table e.1 b,
            .addExclusionConstraint after.table e.2]
      | none => [.addExclusionConstraint after.table e.2]

def diffTableMetadataInTable (before after : TableSchema) : List SchemaOperation :=
  (if before.tableComment = after.tableComment then []
    else [.setTableComment after.table before.tableComment after.tableComment]) ++
  (if before.storageParams = after.storageParams then []
    else [.setStorageParams after.table before.storageParams after.storageParams]) ++
  (if before.tablespace = after.tablespace then []
    else [.setTablespace after.table before.tablespace after.tablespace])

def diffAppMoveInTable (before after : TableSchema) : List SchemaOperation :=
  if before.app = after.app then []
  else [.moveModelBetweenApps after.table (before.app.getD "") (after.app.getD "")]

/-! ## Tables -/

/-- Old table name to new table name, for every rename hint whose old name the
previous schema has. -/
def tableRenameTargets (before after : AppliedSchema) : OrdMap String String :=
  .ofList (after.models.values.filterMap fun t =>
    (t.renamedFrom.filter before.models.contains).map fun prev => (prev, t.table))

def dropTableOps (before after : AppliedSchema) : List SchemaOperation :=
  (before.models.keys.filter fun old =>
    !after.models.contains old && !(tableRenameTargets before after).contains old).map .dropTable

def addTableOps (before after : AppliedSchema) : List SchemaOperation :=
  (after.models.values.filter fun t =>
    !before.models.contains t.table &&
      !(tableRenameTargets before after).values.contains t.table).map .addTable

/-- A rename followed by the differences under the new name. The new name is a key
of the new schema whenever models are keyed by their table name. -/
def renameTableOps (before after : AppliedSchema) (e : String × String) :
    List SchemaOperation :=
  .renameTable e.1 e.2 ::
    match before.models.get e.1, after.models.get e.2 with
    | some b, some a =>
        diffColumnsInTable b a ++ diffPkInTable b a (columnRenameTargets b a) ++
          diffExclusionConstraintsInTable b a ++ diffTableMetadataInTable b a
    | _, _ => []

def commonTableOps (before : AppliedSchema) (e : String × TableSchema) :
    List SchemaOperation :=
  match before.models.get e.1 with
  | none => []
  | some b =>
      if b.persistent = e.2.persistent then []
      else diffColumnsInTable b e.2 ++ diffPkInTable b e.2 (columnRenameTargets b e.2) ++
        diffAppMoveInTable b e.2 ++ diffExclusionConstraintsInTable b e.2 ++
        diffTableMetadataInTable b e.2

def diffTables (before after : AppliedSchema) : List SchemaOperation :=
  dropTableOps before after ++ addTableOps before after ++
    (tableRenameTargets before after).entries.flatMap (renameTableOps before after) ++
    after.models.entries.flatMap (commonTableOps before)

/-! ## Indexes -/

def indexMap (s : AppliedSchema) : OrdMap String IndexSchema :=
  .ofList (s.indexes.map fun i => (i.name, i))

/-- Equality of two indexes of one name up to the renaming of their table. -/
def logicalEq (tableRenames : OrdMap String String) (bi ai : IndexSchema) : Bool :=
  ((tableRenames.get bi.table).getD bi.table == ai.table) && bi.target == ai.target &&
    bi.kind == ai.kind && bi.indexType == ai.indexType && bi.predicate == ai.predicate &&
    bi.include_ == ai.include_ && bi.nullsNotDistinct == ai.nullsNotDistinct &&
    bi.requiresOutOfTransaction == ai.requiresOutOfTransaction &&
    bi.extensionDependency == ai.extensionDependency

def diffIndexes (before after : AppliedSchema) : List SchemaOperation :=
  (indexMap after).entries.flatMap (fun e =>
    match (indexMap before).get e.1 with
    | some bi =>
        if logicalEq (tableRenameTargets before after) bi e.2 then []
        else [.dropIndex bi, .addIndex e.2]
    | none => [.addIndex e.2]) ++
  ((indexMap before).entries.filter fun e => !(indexMap after).contains e.1).map
    fun e => .dropIndex e.2

/-! ## Enums -/

/-- The nearest old variant after position `pos` (anchor BEFORE it), else the
nearest old variant before `pos` (anchor AFTER it). -/
def pickEnumVariantAnchor (newVariants : List String) (pos : Nat) (beforeSet : List String) :
    Option EnumVariantAnchor :=
  match (newVariants.drop (pos + 1)).find? (beforeSet.contains ·) with
  | some v => some ⟨v, .before⟩
  | none =>
      match (newVariants.take pos).reverse.find? (beforeSet.contains ·) with
      | some v => some ⟨v, .after⟩
      | none => none

def addVariantOps (name : String) (old new : List String) : List SchemaOperation :=
  new.zipIdx.filterMap fun e =>
    if old.contains e.1 then none
    else some (.addEnumVariant name e.1 (pickEnumVariantAnchor new e.2 old))

def variantRemovedReason (name v : String) : String :=
  "enum `" ++ name ++ "`: variant `" ++ v ++ "` removed. Postgres has no `DROP VALUE`; rebuild " ++
    "the type via a hand-written migration (drop dependent columns, drop type, recreate type " ++
    "without the variant, add columns back)."

def removedVariantOps (name : String) (old new : List String) : List SchemaOperation :=
  (old.filter fun v => !new.contains v).map fun v => .unsupported (variantRemovedReason name v)

def diffEnum (before : AppliedSchema) (e : String × EnumSchema) : List SchemaOperation :=
  match before.enums.get e.1 with
  | none => [.addEnum e.2]
  | some be =>
      if be = e.2 then []
      else addVariantOps e.1 be.variants e.2.variants ++
        removedVariantOps e.1 be.variants e.2.variants

def diffEnums (before after : AppliedSchema) : List SchemaOperation :=
  after.enums.entries.flatMap (diffEnum before) ++
    (before.enums.keys.filter fun name => !after.enums.contains name).map .dropEnum

/-! ## Classification -/

inductive Severity
  | additive | reversible | destructive | lossy
  deriving DecidableEq, Repr

def Severity.rank : Severity → Nat
  | .additive => 0
  | .reversible => 1
  | .destructive => 2
  | .lossy => 3

def severityOf : SchemaOperation → Severity
  | .renameTable .. | .renameColumn .. | .renameApp .. | .moveModelBetweenApps .. => .reversible
  | .dropTable _ | .dropColumn .. | .dropEnum _ | .dropIndex _ | .dropForeignKey .. =>
      .destructive
  | .alterColumn _ _ (.setNullable false) => .lossy
  | .alterColumn .. => .additive
  | .addColumn _ c =>
      if !c.nullable && c.defaultSql.isNone && c.generated.isNone then .lossy else .additive
  | .dropExclusionConstraint .. => .destructive
  | _ => .additive

def Severity.max (a b : Severity) : Severity := if a.rank ≤ b.rank then b else a

def unsupportedReason : SchemaOperation → Option String
  | .unsupported reason => some reason
  | _ => none

def isPkFlipOp : SchemaOperation → Bool
  | .pkTypeFlip .. | .pkTypeFlipGroup _ | .pkTypeFlipMultiGroup _ => true
  | _ => false

def classify (ops : List SchemaOperation) : Classification :=
  if ops.isEmpty then .noOp
  else match ops.findSome? unsupportedReason with
    | some reason => .unsupported reason
    | none =>
        if ops.any isPkFlipOp then
          .pkTypeFlip (ops.any fun op => severityOf op == .destructive)
            (ops.any fun op => severityOf op == .lossy)
        else match (ops.map severityOf).foldl Severity.max .additive with
          | .additive => .additive
          | .reversible => .reversible
          | .destructive => .destructive
          | .lossy => .lossy

theorem classify_eq_noOp_iff (ops : List SchemaOperation) : classify ops = .noOp ↔ ops = [] := by
  constructor
  · intro h
    by_contra hne
    rw [classify, if_neg (by rwa [List.isEmpty_iff])] at h
    cases hreason : ops.findSome? unsupportedReason with
    | some reason => simp only [hreason] at h; cases h
    | none =>
      simp only [hreason] at h
      split_ifs at h with hflip
      cases hsev : (ops.map severityOf).foldl Severity.max .additive <;>
        simp only [hsev] at h <;> cases h
  · rintro rfl
    rfl

/-! ## One bucket -/

def diffOperations (before after : AppliedSchema) : List SchemaOperation :=
  diffTables before after ++ diffIndexes before after ++ diffEnums before after

def diffSchemas (before after : AppliedSchema) (bucket : BucketKey) : SchemaDelta :=
  if before.persistent = after.persistent then ⟨bucket, [], .noOp⟩
  else ⟨bucket, diffOperations before after, classify (diffOperations before after)⟩

end Djogi

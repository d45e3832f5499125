import Djogi.Diff
import Djogi.Sql

/-!
# The emitters

One emitter for each operation (`migrate/sql.rs`) and `lower_operation`, which picks it.
-/

namespace Djogi

def warning (kind : LossyRollbackKind) (detail : String) : Option LossyRollbackWarning :=
  some ⟨kind, detail⟩

/-! ## Tables -/

def commentStmts (table : String) (c : ColumnSchema) : List Stmt :=
  (c.comment.map fun text => Stmt.commentOnColumn table c.name (some text)).toList

def storageStmts (table : String) : Option String → Except LowerFailure (List Stmt)
  | none => .ok []
  | some params => (parseStorageParamsForSql params).map fun ps => [.setParams table ps]

/-- What follows `CREATE TABLE`: comments, storage parameters, tablespace. -/
def tableMetadataStmts (t : TableSchema) (storage : List Stmt) : List Stmt :=
  (t.tableComment.map fun text => Stmt.commentOnTable t.table (some text)).toList ++
    t.columns.flatMap (commentStmts t.table) ++ storage ++
    (t.tablespace.map fun ts => Stmt.setTablespace t.table (some ts)).toList

def tryEmitAddTable (t : TableSchema) : Except LowerFailure OperationSql :=
  (storageStmts t.table t.storageParams).map fun storage =>
    { label := "AddTable " ++ t.table
      up := sqlScript (.createTable (tableDefinition t) :: tableMetadataStmts t storage)
      down := sqlScript [.dropTable t.table]
      lossy := none }

def emitDropTable (name : String) : OperationSql where
  label := "DropTable " ++ name
  up := sqlScript [.dropTable name]
  down := sqlScript [.remark ("-- LOSSY ROLLBACK: cannot recreate table `" ++ name ++
    "` from the diff.\n-- The migration emitter has no historical schema for the dropped\n" ++
    "-- table; rollback must be hand-written if needed.")]
  lossy := warning .dropTable ("table `" ++ name ++
    "` dropped — schema and rows are lost; rollback has no recreate path")

def emitRenameTable (from_ to_ : String) : OperationSql where
  label := "RenameTable " ++ from_ ++ " -> " ++ to_
  up := sqlScript [.renameTable from_ to_]
  down := sqlScript [.renameTable to_ from_]
  lossy := none

def emitSetTableComment (table : String) (from_ to_ : Option String) : OperationSql where
  label := "SetTableComment " ++ table
  up := sqlScript [.commentOnTable table to_]
  down := sqlScript [.commentOnTable table from_]
  lossy := none

def renderStorageChange (table : String) (reset set : Option String) :
    Except LowerFailure (List Line) := do
  let resets ← match reset with
    | none => .ok []
    | some ps => (parseStorageParamsForSql ps).map fun es => [.resetParams table (es.map Prod.fst)]
  let sets ← storageStmts table set
  match resets ++ sets with
  | [] => .ok (sqlScript [.remark ("-- no-op storage parameter change for " ++ quoteIdent table)])
  | l => .ok (sqlScript l)

def emitSetStorageParams (table : String) (from_ to_ : Option String) :
    Except LowerFailure OperationSql := do
  let up ← renderStorageChange table from_ to_
  let down ← renderStorageChange table to_ from_
  .ok { label := "SetStorageParams " ++ table, up := up, down := down, lossy := none }

def emitSetTablespace (table : String) (from_ to_ : Option String) : OperationSql where
  label := "SetTablespace " ++ table
  up := sqlScript [.setTablespace table to_]
  down := sqlScript [.setTablespace table from_]
  lossy := none

/-! ## Columns -/

def emitAddColumn (table : String) (col : ColumnSchema) : OperationSql where
  label := "AddColumn " ++ table ++ "." ++ col.name
  up := sqlScript (.addColumn table (columnDefinition col table) :: commentStmts table col)
  down := sqlScript [.dropColumn table col.name false]
  lossy := warning .dropColumn ("column `" ++ table ++ "." ++ col.name ++
    "` dropped on rollback — any values written between apply and rollback are lost")

def emitDropColumn (table column : String) : OperationSql where
  label := "DropColumn " ++ table ++ "." ++ column
  up := sqlScript [.dropColumn table column false]
  down := sqlScript [.remark ("-- LOSSY ROLLBACK: cannot rebuild column `" ++ table ++ "." ++ column ++
    "` from the diff.\n-- The migration emitter has no original `ColumnSchema` for the dropped\n" ++
    "-- column; rollback must be hand-written if needed.")]
  lossy := warning .dropColumn ("column `" ++ table ++ "." ++ column ++
    "` dropped — original type and row data not recoverable from the diff")

def emitRenameColumn (table from_ to_ : String) : OperationSql where
  label := "RenameColumn " ++ table ++ "." ++ from_ ++ " -> " ++ to_
  up := sqlScript [.renameColumn table from_ to_]
  down := sqlScript [.renameColumn table to_ from_]
  lossy := none

def lowerAscii (s : String) : List Char := (utf8 s).map fun b => (byteChar b).toLower

def typeBaseName (s : String) : List Char :=
  (((lowerAscii s).takeWhile (· ≠ '(')).reverse.dropWhile isWhitespace).reverse

def isTextType (b : List Char) : Bool :=
  b = "text".toList || b = "citext".toList || "varchar".toList.isPrefixOf b ||
    "char".toList.isPrefixOf b

def isIntegerType (b : List Char) : Bool :=
  (["smallint", "int2", "integer", "int4", "int", "bigint", "int8"].map String.toList).contains b

def isUuidType (b : List Char) : Bool := b = "uuid".toList

/-- Is the explicit cast defined but likely to fail on row values? -/
def typeChangeLikelyRequiresUsing (from_ to_ : String) : Bool :=
  let pair (p q : List Char → Bool) :=
    (p (typeBaseName from_) && q (typeBaseName to_)) || (q (typeBaseName from_) && p (typeBaseName to_))
  pair isTextType isUuidType || pair isTextType isIntegerType || pair isUuidType isIntegerType

def castWarning (table column from_ to_ : String) : Stmt :=
  .remark ("-- WARNING: `" ++ table ++ "." ++ column ++ "` `" ++ from_ ++ "` -> `" ++ to_ ++
    "` is a known incompatible cast pair.\n" ++
    "-- The framework emits `USING <col>::<new_type>` (the explicit cast) — every row's\n" ++
    "-- value must parse as a syntactically valid `" ++ to_ ++ "` literal under `" ++ from_ ++ "::" ++
    to_ ++ "` or\n-- the apply will fail with `invalid input syntax for type " ++ to_ ++
    "` (or similar). Add\n" ++
    "-- `#[field(type_change_using = \"<sql expr>\")]` to the field on the model struct\n" ++
    "-- and re-compose to inline a custom `USING` clause that handles edge cases (TRIM,\n" ++
    "-- CASE WHEN, validation). The adopter owns the expression's correctness against\n" ++
    "-- the column's old and new types. See `docs/guide/models.md` `#[field(...)]`\n" ++
    "-- reference and djogi#220 for details.")

/-- Up script, down script, label suffix and warning of a column change. -/
abbrev ColumnLowering := List Stmt × List Stmt × String × Option LossyRollbackWarning

def lowerChangeType (table column from_ to_ : String) (using_ : Option String) : ColumnLowering :=
  let alter (t e : String) : Stmt := .alterColumn table column (.setType t e)
  let cast (t : String) := quoteIdent column ++ "::" ++ t
  let up := match using_ with
    | some e => [alter to_ ("(" ++ e ++ ")")]
    | none =>
        (if typeChangeLikelyRequiresUsing from_ to_ then [castWarning table column from_ to_] else []) ++
          [alter to_ (cast to_)]
  (up, [alter from_ (cast from_)], "change TYPE",
    using_.bind fun e => warning .customCast ("column `" ++ table ++ "." ++ column ++
      "`: forward `USING (" ++ e ++ ")` is adopter-supplied; rollback emits the default `<col>::" ++
      from_ ++ "` cast and may not reconstruct original row data. Hand-edit the emitted down SQL " ++
      "if a non-default inverse is required."))

def lowerSetCheck (table column : String) (from_ to_ : Option String) : ColumnLowering :=
  let name := checkConstraintName table column
  let drop : Stmt := .dropConstraint table name false
  let add (e : String) : Stmt := .addConstraint table name (.check column e) false
  match from_, to_ with
  | some prior, none => ([drop], [add prior], "drop CHECK", none)
  | none, some e => ([add e], [drop], "set CHECK", none)
  | some prior, some e => ([drop, add e], [drop, add prior], "amend CHECK", none)
  | none, none =>
      ([.remark ("-- noop SetCheck on `" ++ table ++ "." ++ column ++
          "` (from == to == None); likely a differ bug.\n")],
        [.remark ("-- noop SetCheck rollback on `" ++ table ++ "." ++ column ++ "`.\n")],
        "noop CHECK", none)

def columnIndexDef (table column : String) : IndexDef where
  table := table
  unique := false
  method := .bTree
  target := .columns [⟨column, .default, none, .asc⟩]
  include_ := []
  nullsNotDistinct := false
  predicate := none

/-- `none` is the pair without a transition, on which the source panics. -/
def lowerSetGenerated (table column : String) (from_ to_ : Option GeneratedColumnSchema) :
    Option ColumnLowering :=
  match from_, to_ with
  | none, some spec => some
      ([.remark ("-- OfflineOnly: adding a stored generated expression to existing column\n-- `" ++
          table ++ "." ++ column ++ "` has no online ALTER form in Postgres 18. Hand-edit\n" ++
          "-- the migration to `DROP COLUMN " ++ column ++ "` + `ADD COLUMN " ++ column ++
          " <type> GENERATED ALWAYS AS (" ++ spec.expression ++ ") STORED`.\n" ++
          "-- See `docs/spec/decisions.md` and the `generated_column_refusal`\n" ++
          "-- pattern in `djogi/src/live_migrate/patterns/`.")],
        [.remark ("-- OfflineOnly: revert of adding generation requires dropping the\n" ++
          "-- generated column entirely (`DROP COLUMN " ++ column ++ "`); hand-edit\n" ++
          "-- the migration before applying.")],
        "add GENERATED expression", none)
  | some prev, none => some
      ([.alterColumn table column .dropExpression],
        [.remark ("-- LOSSY ROLLBACK: cannot re-add the generation expression in place\n-- on `" ++
          table ++ "." ++ column ++ "` — `ALTER COLUMN ... SET EXPRESSION AS` requires\n" ++
          "-- the column to already be a generated column. Restoring requires a\n" ++
          "-- `DROP COLUMN " ++ column ++ "` + `ADD COLUMN " ++ column ++
          " <type> GENERATED ALWAYS\n-- AS (" ++ prev.expression ++
          ") STORED` pair, which destroys the post-DROP-EXPRESSION\n" ++
          "-- row data. Hand-edit before applying.")],
        "drop GENERATED expression",
        warning .dropColumn ("column `" ++ table ++ "." ++ column ++
          "`: rollback of `DROP EXPRESSION` cannot re-install the generated expression in place; " ++
          "restoring requires DROP COLUMN + ADD COLUMN"))
  | some prev, some next => some
      ([.remark ("-- djogi#221: in-place stored generated expression change on PG 17+\n" ++
          "-- (djogi targets PG 18+). The runner rewrites every row under\n" ++
          "-- AccessExclusiveLock — classified OfflineOnly even though the\n" ++
          "-- statement is structurally a single ALTER COLUMN."),
        .alterColumn table column (.setExpression next.expression)],
        [.alterColumn table column (.setExpression prev.expression)],
        "change GENERATED expression", none)
  | none, none => none

def lowerSetIdentity (table column : String) (from_ to_ : Option IdentityKindSchema) :
    Option ColumnLowering :=
  let alter (a : ColumnAction) : Stmt := .alterColumn table column a
  let add (k : IdentityKindSchema) : List Stmt := [alter (.addIdentity k), .syncSequence table column]
  match from_, to_ with
  | none, some kind => some (add kind, [alter .dropIdentity], "add IDENTITY", none)
  | some prev, none => some ([alter .dropIdentity], add prev, "drop IDENTITY", none)
  | some prev, some next =>
      some ([alter (.setIdentity next)], [alter (.setIdentity prev)], "kind IDENTITY", none)
  | none, none => none

def defaultNote (table column : String) : String :=
  "-- NOTE: prior DEFAULT for `" ++ table ++ "." ++ column ++ "` not recoverable from the diff."

def lowerColumnChange (table column : String) : ColumnChange → Option ColumnLowering
  | .setNullable true => some
      ([.alterColumn table column .dropNotNull], [.alterColumn table column .setNotNull],
        "drop NOT NULL", none)
  | .setNullable false => some
      ([.alterColumn table column .setNotNull], [.alterColumn table column .dropNotNull],
        "set NOT NULL", none)
  | .setDefault (some expr) => some
      ([.alterColumn table column (.setDefault expr)],
        [.remark (defaultNote table column), .alterColumn table column .dropDefault],
        "set DEFAULT", none)
  | .setDefault none => some
      ([.alterColumn table column .dropDefault],
        [.remark (defaultNote table column ++
          "\n-- Rollback would need the original DEFAULT expression.")],
        "drop DEFAULT", none)
  | .changeType from_ to_ using_ => some (lowerChangeType table column from_ to_ using_)
  | .setCheck from_ to_ => some (lowerSetCheck table column from_ to_)
  | .setUnique true => some
      ([.addConstraint table (uniqueConstraintName table column) (.unique [column]) false],
        [.dropConstraint table (uniqueConstraintName table column) false], "set UNIQUE", none)
  | .setUnique false => some
      ([.dropConstraint table (uniqueConstraintName table column) false],
        [.addConstraint table (uniqueConstraintName table column) (.unique [column]) false],
        "drop UNIQUE", none)
  | .setIndexed true => some
      ([.createIndex (indexName table column) (columnIndexDef table column) false false false],
        [.dropIndex (indexName table column) false false], "set indexed", none)
  | .setIndexed false => some
      ([.dropIndex (indexName table column) false false],
        [.createIndex (indexName table column) (columnIndexDef table column) false false false],
        "drop indexed", none)
  | .setGenerated from_ to_ => lowerSetGenerated table column from_ to_
  | .setIdentity from_ to_ => lowerSetIdentity table column from_ to_
  | .setComment from_ to_ => some
      ([.commentOnColumn table column to_], [.commentOnColumn table column from_],
        "set COMMENT", none)
  | .codecChange fromCodec toCodec =>
      let f := fromCodec.getD "plaintext"
      let t := toCodec.getD "plaintext"
      some
      ([.remark ("-- MANUAL STEP: column `" ++ table ++ "." ++ column ++ "` codec changed `" ++ f ++
          "` -> `" ++ t ++ "`. Re-encode every row out of band (read, re-encrypt under the new " ++
          "codec, write back). The framework emits no automatic backfill — online codec rotation " ++
          "is not yet supported (issue #371). Apply via an operator-run offline migration.")],
        [.remark ("-- MANUAL STEP: reverting column `" ++ table ++ "." ++ column ++ "` codec `" ++ t ++
          "` -> `" ++ f ++ "` requires the same out-of-band re-encode in reverse. No automatic " ++
          "rollback is emitted.")],
        "codec change (manual re-encode)", none)

def Sql.emitAlterColumn (table column : String) (change : ColumnChange) :
    Except LowerFailure OperationSql :=
  match lowerColumnChange table column change with
  | none => .error .panic
  | some (up, down, suffix, lossy) => .ok
      { label := "AlterColumn " ++ table ++ "." ++ column ++ " (" ++ suffix ++ ")"
        up := sqlScript up
        down := sqlScript down
        lossy := lossy }

/-! ## Constraints and indexes -/

def addFkStmt (table column : String) (fk : ForeignKeySchema) : Stmt :=
  .addConstraint table (fkConstraintName table column) (fkDef column fk) false

def dropFkStmt (table column : String) : Stmt :=
  .dropConstraint table (fkConstraintName table column) false

def emitAddForeignKey (table column : String) (fk : ForeignKeySchema) : OperationSql where
  label := "AddForeignKey " ++ table ++ "." ++ column
  up := sqlScript [addFkStmt table column fk]
  down := sqlScript [dropFkStmt table column]
  lossy := none

def emitDropForeignKey (table column : String) (fk : ForeignKeySchema) : OperationSql where
  label := "DropForeignKey " ++ table ++ "." ++ column
  up := sqlScript [dropFkStmt table column]
  down := sqlScript [addFkStmt table column fk]
  lossy := none

theorem emitAddForeignKey_upStmts (table column : String) (fk : ForeignKeySchema) :
    (emitAddForeignKey table column fk).upStmts = [addFkStmt table column fk] :=
  sqlScript_stmts _

theorem emitDropForeignKey_upStmts (table column : String) (fk : ForeignKeySchema) :
    (emitDropForeignKey table column fk).upStmts = [dropFkStmt table column] :=
  sqlScript_stmts _

theorem emitDropForeignKey_downStmts (table column : String) (fk : ForeignKeySchema) :
    (emitDropForeignKey table column fk).downStmts = [addFkStmt table column fk] :=
  sqlScript_stmts _

/-- A unique constraint lists bare columns; an expression target renders as a comment,
which is not valid SQL there. -/
def uniqueConstraintStmt (idx : IndexSchema) : Stmt :=
  match idx.target with
  | .columns cols =>
      .addConstraint idx.table idx.name (.unique (cols.map IndexColumnSchema.name)) false
  | .expression e => .invalid ("ALTER TABLE " ++ quoteIdent idx.table ++ " ADD CONSTRAINT " ++
      quoteIdent idx.name ++ " UNIQUE (/* expression cannot appear in UNIQUE table constraint; " ++
      "use `CREATE UNIQUE INDEX` form instead (got: " ++ e ++ ") */)")

/-- The statement that creates an index; a unique index that is not a btree panics. -/
def createIndexStmt (idx : IndexSchema) : Except LowerFailure Stmt :=
  if idx.kind = .uniqueConstraint then .ok (uniqueConstraintStmt idx)
  else if idx.kind = .uniqueIndex ∧ idx.indexType ≠ .bTree then .error .panic
  else .ok (.createIndex idx.name (indexDef idx) idx.requiresOutOfTransaction true false)

def dropIndexStmt (idx : IndexSchema) : Stmt :=
  if idx.kind = .uniqueConstraint then .dropConstraint idx.table idx.name false
  else .dropIndex idx.name idx.requiresOutOfTransaction false

def emitAddIndex (idx : IndexSchema) : Except LowerFailure OperationSql :=
  (createIndexStmt idx).map fun create =>
    { label := (if idx.kind = .uniqueConstraint then "AddConstraintUnique " else "AddIndex ") ++
        idx.name
      up := sqlScript [create]
      down := sqlScript [dropIndexStmt idx]
      lossy := none }

def emitDropIndex (idx : IndexSchema) : Except LowerFailure OperationSql :=
  (createIndexStmt idx).map fun create =>
    { label := (if idx.kind = .uniqueConstraint then "DropConstraintUnique " else "DropIndex ") ++
        idx.name
      up := sqlScript [dropIndexStmt idx]
      down := sqlScript [create]
      lossy := warning .dropIndex (
        if idx.kind = .uniqueConstraint then
          "UNIQUE constraint `" ++ idx.name ++ "` dropped — rollback recreates the constraint, " ++
            "which requires a full table scan to validate uniqueness"
        else "index `" ++ idx.name ++ "` dropped — rollback rebuilds the index, which may take " ++
          "significant time on large tables") }

def emitAddExclusionConstraint (table : String) (x : ExclusionConstraintSchema) :
    OperationSql where
  label := "AddExclusionConstraint " ++ table ++ "." ++ x.name
  up := sqlScript [.addConstraint table x.name (exclusionDef x) false]
  down := sqlScript [.dropConstraint table x.name false]
  lossy := none

def emitDropExclusionConstraint (table name : String) (x : ExclusionConstraintSchema) :
    OperationSql where
  label := "DropExclusionConstraint " ++ table ++ "." ++ name
  up := sqlScript [.dropConstraint table name false]
  down := sqlScript [.addConstraint table name (exclusionDef x) false]
  lossy := none

/-! ## Enums -/

def emitAddEnum (e : EnumSchema) : OperationSql where
  label := "AddEnum " ++ e.name
  up := sqlScript [.createType e.name e.variants]
  down := sqlScript [.dropType e.name]
  lossy := none

def emitDropEnum (name : String) : OperationSql where
  label := "DropEnum " ++ name
  up := sqlScript [.dropType name]
  down := sqlScript [.remark ("-- LOSSY ROLLBACK: cannot reconstruct enum `" ++ name ++
    "` from the diff.\n-- The original variant list is not present in DropEnum's payload.\n" ++
    "-- Rollback must be hand-written if needed.")]
  lossy := warning .dropEnum ("enum `" ++ name ++
    "` dropped — variant list not recoverable from the diff")

def anchorPlace : Option EnumVariantAnchor → Anchored.Place String
  | none => .last
  | some ⟨v, .before⟩ => .before v
  | some ⟨v, .after⟩ => .after v

def emitAddEnumVariant (enumName variant : String) (anchor : Option EnumVariantAnchor) :
    OperationSql where
  label := "AddEnumVariant " ++ enumName ++ ":" ++ variant
  up := sqlScript [.addValue enumName variant (anchorPlace anchor)]
  down := sqlScript [.remark ("-- LOSSY ROLLBACK: Postgres has no `ALTER TYPE ... DROP VALUE`.\n" ++
    "-- Rolling back the addition of `" ++ variant ++ "` to enum `" ++ enumName ++ "`\n" ++
    "-- requires rebuilding the type. Hand-write the rollback if needed.")]
  lossy := warning .dropEnum ("enum variant `" ++ enumName ++ ":" ++ variant ++
    "` added — Postgres has no native `DROP VALUE`; rollback requires a type rebuild")

/-! ## Metadata-only operations -/

def emitRenameApp (from_ to_ : String) : OperationSql where
  label := "RenameApp " ++ from_ ++ " -> " ++ to_
  up := sqlScript [.remark ("-- METADATA-ONLY: rename app `" ++ from_ ++ "` to `" ++ to_ ++
    "`.\n-- Folder rename + djogi_schema_migrations.app_label UPDATE happen\n" ++
    "-- outside the standard SQL emitter (handled by compose / runner).")]
  down := sqlScript [.remark ("-- METADATA-ONLY: reverse rename `" ++ to_ ++ "` -> `" ++ from_ ++
    "`.\n-- Folder rename + djogi_schema_migrations.app_label UPDATE happen\n" ++
    "-- outside the standard SQL emitter.")]
  lossy := none

def emitMoveModelBetweenApps (model fromApp toApp : String) : OperationSql where
  label := "MoveModelBetweenApps " ++ model ++ " (" ++ fromApp ++ " -> " ++ toApp ++ ")"
  up := sqlScript [.remark ("-- METADATA-ONLY: move model `" ++ model ++ "` from app `" ++ fromApp ++
    "` to app `" ++ toApp ++
    "`.\n-- Folder move + djogi_schema_migrations.app_label UPDATE happen outside\n" ++
    "-- the standard SQL emitter (handled by compose / runner).")]
  down := sqlScript [.remark ("-- METADATA-ONLY: reverse move `" ++ model ++ "` from `" ++ toApp ++
    "` back to `" ++ fromApp ++
    "`.\n-- Folder move + djogi_schema_migrations.app_label UPDATE happen outside\n" ++
    "-- the standard SQL emitter.")]
  lossy := none

/-! ## Summaries of key flips -/

def summaryCounts (g : PkTypeFlipGroup) : String × String × String × String × String :=
  (toString g.children.length, toString g.selfFk.isSome, toString g.joinTables.length,
    toString g.cycles.length, toString g.partitionedParent.isSome)

def emitGroupSummary (g : PkTypeFlipGroup) : OperationSql :=
  let (children, selfFk, join, cycles, partitioned) := summaryCounts g
  { label := "PkTypeFlipGroup " ++ g.parentTable
    up := sqlScript [.remark ("-- PkTypeFlipGroup parent=" ++ g.parentTable ++ " " ++
      g.parentFrom.debug ++ " -> " ++ g.parentTo.debug ++ "\n-- children=" ++ children ++
      ", self_fk=" ++ selfFk ++ ", join_tables=" ++ join ++ ",\n-- cycles=" ++ cycles ++
      ", partitioned=" ++ partitioned ++
      ".\n-- See the segment plan for the executable SQL (preparation,\n" ++
      "-- backfill, concurrent index, NOT NULL proof, cutover).")]
    down := sqlScript [.remark ("-- PkTypeFlipGroup parent=" ++ g.parentTable ++
      " — see cutover segment for the\n-- POINT OF NO RETURN marker; rollback requires an " ++
      "inverse\n-- migration.")]
    lossy := warning .pkTypeFlipPostCutover ("PkTypeFlipGroup `" ++ g.parentTable ++
      "` cutover removes the prior PK column and trigger; rollback requires an inverse migration") }

def memberSummary (g : PkTypeFlipGroup) : String :=
  let (children, selfFk, join, cycles, partitioned) := summaryCounts g
  "-- member parent=" ++ g.parentTable ++ " " ++ g.parentFrom.debug ++ " -> " ++ g.parentTo.debug ++
    " children=" ++ children ++ ",\n--        self_fk=" ++ selfFk ++ ", join_tables=" ++ join ++
    ", cycles=" ++ cycles ++ ",\n--        partitioned=" ++ partitioned ++ ".\n"

def emitMultiGroupSummary (groups : List PkTypeFlipGroup) : OperationSql :=
  let names := ",".intercalate (groups.map PkTypeFlipGroup.parentTable)
  { label := "PkTypeFlipMultiGroup " ++ names
    up := sqlScript [.remark ("-- PkTypeFlipMultiGroup parents=" ++ toString groups.length ++
      "\n-- See the stage-interleaved segment plan for the executable SQL\n" ++
      "-- (one prep / backfill / index / FK / NOT NULL / cutover\n" ++
      "-- segment touching every cluster member at each stage, per\n" ++
      "-- HeeRanjID asc-to-desc playbook §7).\n" ++ String.join (groups.map memberSummary))]
    down := sqlScript [.remark ("-- PkTypeFlipMultiGroup [" ++ names ++
      "] — see cutover segment for the\n-- POINT OF NO RETURN marker; rollback requires an " ++
      "inverse\n-- migration.")]
    lossy := warning .pkTypeFlipPostCutover ("PkTypeFlipMultiGroup [" ++ names ++
      "] cutover removes prior PK columns and triggers across every cluster member; rollback " ++
      "requires an inverse migration") }

/-! ## Dispatch -/

def lowerOperation : SchemaOperation → Except LowerFailure OperationSql
  | .addTable t => tryEmitAddTable t
  | .dropTable name => .ok (emitDropTable name)
  | .renameTable from_ to_ => .ok (emitRenameTable from_ to_)
  | .addColumn table column => .ok (emitAddColumn table column)
  | .dropColumn table column => .ok (emitDropColumn table column)
  | .renameColumn table from_ to_ => .ok (emitRenameColumn table from_ to_)
  | .alterColumn table column change => Sql.emitAlterColumn table column change
  | .addForeignKey table column fk => .ok (emitAddForeignKey table column fk)
  | .dropForeignKey table column fk => .ok (emitDropForeignKey table column fk)
  | .addIndex idx => emitAddIndex idx
  | .dropIndex idx => emitDropIndex idx
  | .addExclusionConstraint table x => .ok (emitAddExclusionConstraint table x)
  | .dropExclusionConstraint table name x => .ok (emitDropExclusionConstraint table name x)
  | .addEnum e => .ok (emitAddEnum e)
  | .dropEnum name => .ok (emitDropEnum name)
  | .addEnumVariant enumName variant anchor => .ok (emitAddEnumVariant enumName variant anchor)
  | .setTableComment table from_ to_ => .ok (emitSetTableComment table from_ to_)
  | .setStorageParams table from_ to_ => emitSetStorageParams table from_ to_
  | .setTablespace table from_ to_ => .ok (emitSetTablespace table from_ to_)
  | .pkTypeFlip table from_ to_ => .error (.error (.pkTypeFlipMustRouteToT9 table from_ to_))
  | .pkTypeFlipGroup g => .ok (emitGroupSummary g)
  | .pkTypeFlipMultiGroup groups => .ok (emitMultiGroupSummary groups)
  | .renameApp from_ to_ => .ok (emitRenameApp from_ to_)
  | .moveModelBetweenApps model fromApp toApp =>
      .ok (emitMoveModelBetweenApps model fromApp toApp)
  | .unsupported reason => .error (.error (.unsupported reason))

end Djogi

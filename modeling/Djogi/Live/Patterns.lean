import Djogi.Live.Plan
import Djogi.Sql

/-!
# Live patterns

`live_migrate/patterns`: the emitters that turn one schema operation into the steps of a live plan,
and the dispatcher that picks one. The statements of a step are kept as syntax; `toStep` writes them
as the emitters do.
-/

namespace Djogi.Live

/-! ## Statements -/

/-- The statements of the patterns. -/
inductive LiveStmt
  | addColumn (table column sqlType : String)
  | dropColumn (table column : String)
  | renameColumn (table from_ to_ : String)
  | setDefault (table column expr : String)
  | setNotNull (table column : String)
  | addForeignKey (table name column : String) (fk : ForeignKeySchema)
  | validateConstraint (table name : String)
  | createIndex (index : IndexSchema)
  | addUniqueUsingIndex (table name : String)
  | dropIndex (name : String)
  | dropTrigger (name table : String)
  deriving DecidableEq, Repr

def quoteIdent (name : String) : String := "\"" ++ name ++ "\""

def renderOnDelete : OnDeleteSchema → String
  | .restrict => "RESTRICT"
  | .cascade => "CASCADE"
  | .setNull => "SET NULL"
  | .setDefault => "SET DEFAULT"
  | .noAction => "NO ACTION"

def renderIndexTarget : IndexTargetSchema → String
  | .columns cols => "(" ++ ", ".intercalate (cols.map fun c => quoteIdent c.name) ++ ")"
  | .expression expr => "(" ++ expr ++ ")"

def renderUnique : IndexKindSchema → String
  | .nonUnique => ""
  | .uniqueConstraint | .uniqueIndex => "UNIQUE "

def LiveStmt.render : LiveStmt → String
  | .addColumn table column sqlType =>
      "ALTER TABLE " ++ quoteIdent table ++ " ADD COLUMN " ++ quoteIdent column ++ " " ++ sqlType ++
        " NULL"
  | .dropColumn table column =>
      "ALTER TABLE " ++ quoteIdent table ++ " DROP COLUMN " ++ quoteIdent column
  | .renameColumn table from_ to_ =>
      "ALTER TABLE " ++ quoteIdent table ++ " RENAME COLUMN " ++ quoteIdent from_ ++ " TO " ++
        quoteIdent to_
  | .setDefault table column expr =>
      "ALTER TABLE " ++ quoteIdent table ++ " ALTER COLUMN " ++ quoteIdent column ++
        " SET DEFAULT " ++ expr
  | .setNotNull table column =>
      "ALTER TABLE " ++ quoteIdent table ++ " ALTER COLUMN " ++ quoteIdent column ++ " SET NOT NULL"
  | .addForeignKey table name column fk =>
      "ALTER TABLE " ++ quoteIdent table ++ " ADD CONSTRAINT " ++ quoteIdent name ++
        " FOREIGN KEY (" ++ quoteIdent column ++ ") REFERENCES " ++ quoteIdent fk.refTable ++ "(" ++
        quoteIdent fk.refColumn ++ ") ON DELETE " ++ renderOnDelete fk.onDelete ++
        (if fk.deferrable then
          " DEFERRABLE" ++ (if fk.initiallyDeferred then " INITIALLY DEFERRED" else "")
        else "") ++ " NOT VALID"
  | .validateConstraint table name =>
      "ALTER TABLE " ++ quoteIdent table ++ " VALIDATE CONSTRAINT " ++ quoteIdent name
  | .createIndex index =>
      "CREATE " ++ renderUnique index.kind ++ "INDEX CONCURRENTLY " ++ quoteIdent index.name ++
        " ON " ++ quoteIdent index.table ++ " " ++ renderIndexTarget index.target
  | .addUniqueUsingIndex table name =>
      "ALTER TABLE " ++ quoteIdent table ++ " ADD CONSTRAINT " ++ quoteIdent name ++
        " UNIQUE USING INDEX " ++ quoteIdent name
  | .dropIndex name => "DROP INDEX CONCURRENTLY " ++ quoteIdent name
  | .dropTrigger name table => "DROP TRIGGER " ++ quoteIdent name ++ " ON " ++ quoteIdent table

/-! ## Steps -/

structure PatternContext where
  estimatedRows : Option Nat
  validationThresholdRows : Nat
  multiFkThreshold : Nat
  backfillChunkSize : Nat
  deriving DecidableEq, Repr

def PatternContext.withDefaults : PatternContext := ⟨none, 100000, 4, 10000⟩

/-- An uncovered change is written into the text of its error as `Debug` writes it. -/
inductive PatternError
  | wrongOperation (pattern reason : String)
  | cannotEmit (pattern reason : String)
  | uncoveredChange (pattern : String) (change : ColumnChange)
  | invariant (pattern detail : String)
  deriving DecidableEq, Repr

inductive PatternParameters
  | expandSchema (sqlSegments : List LiveStmt)
  | beginCompatibilityWindow (hooks : List String)
  | backfillChunked (table predicateTemplate : String) (chunkSize : Nat)
  | validateBackfill (gateQuery : String)
  | cutoverReads (description : String)
  | cutoverWrites (description : String)
  | finalizeConstraints (sqlSegments : List LiveStmt)
  | cleanupLegacyState (sqlSegments : List LiveStmt)
  deriving DecidableEq, Repr

structure PatternStep where
  kind : StepKind
  ordinal : Nat
  parameters : PatternParameters
  deriving DecidableEq, Repr

def PatternParameters.toParameters : PatternParameters → StepParameters
  | .expandSchema l => .expandSchema (l.map LiveStmt.render)
  | .beginCompatibilityWindow hooks => .beginCompatibilityWindow hooks
  | .backfillChunked table template chunkSize => .backfillChunked table template chunkSize
  | .validateBackfill gateQuery => .validateBackfill gateQuery
  | .cutoverReads description => .cutoverReads description
  | .cutoverWrites description => .cutoverWrites description
  | .finalizeConstraints l => .finalizeConstraints (l.map LiveStmt.render)
  | .cleanupLegacyState l => .cleanupLegacyState (l.map LiveStmt.render)

/-- The statements that the executor runs as DDL. -/
def PatternParameters.stmts : PatternParameters → List LiveStmt
  | .expandSchema l | .finalizeConstraints l | .cleanupLegacyState l => l
  | _ => []

def PatternStep.toStep (s : PatternStep) : Step := ⟨s.kind, s.ordinal, s.parameters.toParameters⟩

/-! ## Nullable to not null -/

def NullableNotNull.id : String := "nullable_not_null"

def NullableNotNull.emit (op : SchemaOperation) (_ : PatternContext) :
    Except PatternError (List PatternStep) :=
  match op with
  | .alterColumn table column (.setNullable false) => .ok [
      ⟨.expandSchema, 0, .expandSchema []⟩,
      ⟨.validateBackfill, 1, .validateBackfill ("SELECT count(*) FROM " ++ quoteIdent table ++
        " WHERE " ++ quoteIdent column ++ " IS NULL")⟩,
      ⟨.finalizeConstraints, 2, .finalizeConstraints [.setNotNull table column]⟩]
  | _ => .error (.wrongOperation NullableNotNull.id
      "expected AlterColumn \x7b change: SetNullable(false) \x7d")

/-! ## Replacement column -/

def ReplacementColumn.id : String := "replacement_column"

def shadowName (column : String) : String := column ++ "_new"

def ReplacementColumn.emit (op : SchemaOperation) (ctx : PatternContext) :
    Except PatternError (List PatternStep) :=
  match op with
  | .alterColumn _ _ (.changeType _ _ (some _)) => .error (.cannotEmit ReplacementColumn.id
      ("ColumnChange::ChangeType carries adopter-supplied `using` " ++
        "(#[field(type_change_using = \"...\")]); the shadow-column " ++
        "backfill cannot replicate a custom USING expression. The " ++
        "classifier routes this case to OfflineOnly — apply the " ++
        "migration via the offline path"))
  | .alterColumn table column (.changeType _ to_ none) =>
      let shadow := shadowName column
      .ok [
        ⟨.expandSchema, 0, .expandSchema [.addColumn table shadow to_]⟩,
        ⟨.beginCompatibilityWindow, 1, .beginCompatibilityWindow
          ["dual_read::" ++ table ++ "::" ++ column, "dual_write::" ++ table ++ "::" ++ column]⟩,
        ⟨.backfillChunked, 2, .backfillChunked table
          ("SET " ++ quoteIdent shadow ++ " = " ++ quoteIdent column ++ "::" ++ to_ ++
            " WHERE id IN (SELECT id FROM " ++ quoteIdent table ++ " WHERE " ++ quoteIdent shadow ++
            " IS NULL LIMIT $1)") ctx.backfillChunkSize⟩,
        ⟨.validateBackfill, 3, .validateBackfill ("SELECT count(*) FROM " ++ quoteIdent table ++
          " WHERE " ++ quoteIdent shadow ++ " IS NULL")⟩,
        ⟨.cutoverReads, 4, .cutoverReads ("flip read path for " ++ table ++ "." ++ column ++
          " onto " ++ shadow)⟩,
        ⟨.cutoverWrites, 5, .cutoverWrites ("flip write path for " ++ table ++ "." ++ column ++
          " onto " ++ shadow ++ "; drop dual-write")⟩,
        ⟨.finalizeConstraints, 6, .finalizeConstraints []⟩,
        ⟨.cleanupLegacyState, 7, .cleanupLegacyState
          [.dropColumn table column, .renameColumn table shadow column]⟩]
  | _ => .error (.wrongOperation ReplacementColumn.id
      "expected AlterColumn \x7b change: ChangeType \x7d")

/-! ## Backfill then tighten -/

def BackfillThenTighten.id : String := "backfill_then_tighten"

def fkName (table column : String) : String := "fk_" ++ table ++ "_" ++ column

/-- The rows whose reference points at no row. -/
def orphans (column : String) (fk : ForeignKeySchema) : String :=
  quoteIdent column ++ " IS NOT NULL AND " ++ quoteIdent column ++ " NOT IN (SELECT " ++
    quoteIdent fk.refColumn ++ " FROM " ++ quoteIdent fk.refTable ++ ")"

def BackfillThenTighten.emit (op : SchemaOperation) (ctx : PatternContext) :
    Except PatternError (List PatternStep) :=
  match op with
  | .addForeignKey table column fk => .ok [
      ⟨.expandSchema, 0, .expandSchema []⟩,
      ⟨.backfillChunked, 1, .backfillChunked table
        ("SET " ++ quoteIdent column ++ " = NULL WHERE id IN (SELECT id FROM " ++ quoteIdent table ++
          " WHERE " ++ orphans column fk ++ " LIMIT $1)") ctx.backfillChunkSize⟩,
      ⟨.validateBackfill, 2, .validateBackfill ("SELECT count(*) FROM " ++ quoteIdent table ++
        " WHERE " ++ orphans column fk)⟩,
      ⟨.finalizeConstraints, 3, .finalizeConstraints
        [.validateConstraint table (fkName table column)]⟩]
  | _ => .error (.wrongOperation BackfillThenTighten.id "expected AddForeignKey")

/-! ## Indexes -/

def IndexDependent.id : String := "index_dependent"

def renderCreateIndex (index : IndexSchema) : Except PatternError LiveStmt :=
  match index.target with
  | .columns [] => .error (.invariant IndexDependent.id "index target has zero columns")
  | _ => .ok (.createIndex index)

theorem renderCreateIndex_ok (index : IndexSchema) (stmt : LiveStmt)
    (h : renderCreateIndex index = .ok stmt) : stmt = .createIndex index := by
  unfold renderCreateIndex at h
  split at h
  · cases h
  · cases h
    rfl

def indexGate (index : IndexSchema) : String :=
  "SELECT indvalid FROM pg_index WHERE indexrelid = '" ++ index.name ++ "'::regclass"

def IndexDependent.emit (op : SchemaOperation) (_ : PatternContext) :
    Except PatternError (List PatternStep) :=
  match op with
  | .addIndex index => (renderCreateIndex index).map fun create => [
      ⟨.expandSchema, 0, .expandSchema [create]⟩,
      ⟨.validateBackfill, 1, .validateBackfill (indexGate index)⟩]
  | _ => .error (.wrongOperation IndexDependent.id "expected AddIndex")

def UniqueViaIndex.id : String := "unique_via_index"

/-- The name without its suffix. -/
def stripSuffix (suffix name : String) : Option String :=
  if suffix.toList.isSuffixOf name.toList then
    some (String.ofList (name.toList.take (name.toList.length - suffix.toList.length)))
  else none

def legacyReplacementTarget (index : IndexSchema) : Option String := stripSuffix "_v2" index.name

def UniqueViaIndex.emit (op : SchemaOperation) (_ : PatternContext) :
    Except PatternError (List PatternStep) :=
  match op with
  | .addIndex index => (renderCreateIndex index).map fun create => [
      ⟨.expandSchema, 0, .expandSchema [create]⟩,
      ⟨.validateBackfill, 1, .validateBackfill (indexGate index)⟩,
      ⟨.finalizeConstraints, 2, .finalizeConstraints (
        if index.kind = .uniqueConstraint then [.addUniqueUsingIndex index.table index.name]
        else [])⟩] ++
      (match legacyReplacementTarget index with
        | some legacy => [⟨.cleanupLegacyState, 3, .cleanupLegacyState [.dropIndex legacy]⟩]
        | none => [])
  | _ => .error (.wrongOperation UniqueViaIndex.id "expected AddIndex")

/-! ## Staging of many foreign keys -/

def MultiFkStaging.id : String := "multi_fk_staging"

def u32SaturatingAdd (n : Nat) : Nat := min (n + 1) u32Max

/-- Two steps for each key. The second one validates it in its gate. -/
def stageForeignKeys (table : String) : Nat → List (String × ForeignKeySchema) → List PatternStep
  | _, [] => []
  | ordinal, (column, fk) :: rest =>
      ⟨.expandSchema, ordinal, .expandSchema
        [.addForeignKey table (fkName table column) column fk]⟩ ::
      ⟨.validateBackfill, u32SaturatingAdd ordinal, .validateBackfill
        (LiveStmt.validateConstraint table (fkName table column)).render⟩ ::
      stageForeignKeys table (u32SaturatingAdd (u32SaturatingAdd ordinal)) rest

def fkColumns (table : TableSchema) : List (String × ForeignKeySchema) :=
  table.columns.filterMap fun c => c.foreignKey.map fun fk => (c.name, fk)

def MultiFkStaging.emit (op : SchemaOperation) (ctx : PatternContext) :
    Except PatternError (List PatternStep) :=
  match op with
  | .addTable table =>
      if (fkColumns table).length < ctx.multiFkThreshold then
        .error (.cannotEmit MultiFkStaging.id ("table has " ++ toString (fkColumns table).length ++
          " FKs; multi_fk_threshold is " ++ toString ctx.multiFkThreshold))
      else .ok (stageForeignKeys table.table 0 (fkColumns table))
  | _ => .error (.wrongOperation MultiFkStaging.id "expected AddTable carrying FK columns")

/-! ## Default in three steps -/

def ThreeStepDefault.id : String := "three_step_default"

def defaultTrigger (table column : String) : String := "trg_" ++ table ++ "_" ++ column ++ "_default"

def ThreeStepDefault.emit (op : SchemaOperation) (ctx : PatternContext) :
    Except PatternError (List PatternStep) :=
  match op with
  | .addColumn table column =>
      match column.defaultSql with
      | none => .error (.cannotEmit ThreeStepDefault.id
          "AddColumn carries no DEFAULT — no volatility to stage")
      | some expr =>
          let trigger := defaultTrigger table column.name
          .ok [
            ⟨.expandSchema, 0, .expandSchema [.addColumn table column.name column.sqlType]⟩,
            ⟨.beginCompatibilityWindow, 1, .beginCompatibilityWindow
              ["before_insert_trigger::" ++ table ++ "::" ++ column.name ++ "::" ++ trigger]⟩,
            ⟨.backfillChunked, 2, .backfillChunked table
              ("SET " ++ quoteIdent column.name ++ " = " ++ expr ++
                " WHERE id IN (SELECT id FROM " ++ quoteIdent table ++ " WHERE " ++
                quoteIdent column.name ++ " IS NULL LIMIT $1)") ctx.backfillChunkSize⟩,
            ⟨.validateBackfill, 3, .validateBackfill ("SELECT count(*) FROM " ++ quoteIdent table ++
              " WHERE " ++ quoteIdent column.name ++ " IS NULL")⟩,
            ⟨.finalizeConstraints, 4, .finalizeConstraints (
              .setDefault table column.name expr ::
                if column.nullable then [] else [.setNotNull table column.name])⟩,
            ⟨.cleanupLegacyState, 5, .cleanupLegacyState [.dropTrigger trigger table]⟩]
  | _ => .error (.wrongOperation ThreeStepDefault.id "expected AddColumn")

/-! ## Dispatch -/

def operationVariantName : SchemaOperation → String
  | .addTable _ => "AddTable"
  | .dropTable _ => "DropTable"
  | .renameTable .. => "RenameTable"
  | .addColumn .. => "AddColumn"
  | .dropColumn .. => "DropColumn"
  | .renameColumn .. => "RenameColumn"
  | .alterColumn .. => "AlterColumn"
  | .addForeignKey .. => "AddForeignKey"
  | .dropForeignKey .. => "DropForeignKey"
  | .addIndex _ => "AddIndex"
  | .dropIndex _ => "DropIndex"
  | .addExclusionConstraint .. => "AddExclusionConstraint"
  | .dropExclusionConstraint .. => "DropExclusionConstraint"
  | .setTableComment .. => "SetTableComment"
  | .setStorageParams .. => "SetStorageParams"
  | .setTablespace .. => "SetTablespace"
  | .addEnum _ => "AddEnum"
  | .dropEnum _ => "DropEnum"
  | .addEnumVariant .. => "AddEnumVariant"
  | .pkTypeFlip .. => "PkTypeFlip"
  | .pkTypeFlipGroup _ => "PkTypeFlipGroup"
  | .pkTypeFlipMultiGroup _ => "PkTypeFlipMultiGroup"
  | .renameApp .. => "RenameApp"
  | .moveModelBetweenApps .. => "MoveModelBetweenApps"
  | .unsupported _ => "Unsupported"

def dispatchPattern (op : SchemaOperation) (ctx : PatternContext) :
    Except PatternError (List PatternStep) :=
  match op with
  | .alterColumn _ _ change =>
      match change with
      | .changeType _ _ (some _) => .error (.cannotEmit "dispatch_pattern"
          ("ColumnChange::ChangeType with adopter-supplied `using` (" ++
            "#[field(type_change_using = \"...\")]) is offline-only — " ++
            "the live-plan shadow-column pattern can only emit a default " ++
            "SQL cast in its backfill and cannot replicate a custom " ++
            "USING expression. Route through the offline-apply path " ++
            "(see `live_migrate::classify` OfflineOnly verdict)"))
      | .changeType _ _ none => ReplacementColumn.emit op ctx
      | .codecChange .. => .error (.cannotEmit "dispatch_pattern"
          ("an at-rest codec change (a column gained, swapped, or dropped a " ++
            "`#[field(protected(codec = ...))]` codec) requires re-encoding every " ++
            "row and is never an online SQL-cast backfill. The classifier routes " ++
            "this OfflineOnly (add / drop) or ExpandContract (codec → codec); apply " ++
            "via the offline compose path. Online codec rotation is deferred to a " ++
            "post-v1 SchemaOperation (issue #371)."))
      | .setNullable false => NullableNotNull.emit op ctx
      | change => .error (.uncoveredChange "dispatch_pattern" change)
  | .addForeignKey .. => BackfillThenTighten.emit op ctx
  | .addIndex index =>
      match index.kind with
      | .uniqueConstraint | .uniqueIndex => UniqueViaIndex.emit op ctx
      | .nonUnique => IndexDependent.emit op ctx
  | .addTable _ => MultiFkStaging.emit op ctx
  | .addColumn .. => ThreeStepDefault.emit op ctx
  | .dropTable _ => .error (.cannotEmit "dispatch_pattern"
      ("DropTable live-plan staging is deferred to a later phase (this build " ++
        "dispatches AlterColumn / AddFK / AddIndex / AddTable / AddColumn)"))
  | op => .error (.cannotEmit "dispatch_pattern" ("operation variant " ++ operationVariantName op ++
      " should not have been classified ExpandContract"))

/-- **The operations that a pattern is dispatched for.** -/
theorem dispatchPattern_ok (op : SchemaOperation) (ctx : PatternContext) (steps : List PatternStep)
    (h : dispatchPattern op ctx = .ok steps) :
    (∃ table column from_ to_, op = .alterColumn table column (.changeType from_ to_ none) ∧
      ReplacementColumn.emit op ctx = .ok steps) ∨
    (∃ table column, op = .alterColumn table column (.setNullable false) ∧
      NullableNotNull.emit op ctx = .ok steps) ∨
    (∃ table column fk, op = .addForeignKey table column fk ∧
      BackfillThenTighten.emit op ctx = .ok steps) ∨
    (∃ index, op = .addIndex index ∧ index.kind ≠ .nonUnique ∧
      UniqueViaIndex.emit op ctx = .ok steps) ∨
    (∃ index, op = .addIndex index ∧ index.kind = .nonUnique ∧
      IndexDependent.emit op ctx = .ok steps) ∨
    (∃ table, op = .addTable table ∧ MultiFkStaging.emit op ctx = .ok steps) ∨
    (∃ table column, op = .addColumn table column ∧ ThreeStepDefault.emit op ctx = .ok steps) := by
  cases op with
  | alterColumn table column change =>
    cases change with
    | changeType from_ to_ using_ =>
      cases using_ with
      | none => exact .inl ⟨table, column, from_, to_, rfl, h⟩
      | some u => cases h
    | setNullable nullable =>
      cases nullable with
      | false => exact .inr (.inl ⟨table, column, rfl, h⟩)
      | true => cases h
    | _ => cases h
  | addForeignKey table column fk => exact .inr (.inr (.inl ⟨table, column, fk, rfl, h⟩))
  | addIndex index =>
    right; right; right
    cases hk : index.kind with
    | nonUnique =>
      simp only [dispatchPattern, hk] at h
      exact .inr (.inl ⟨index, rfl, hk, h⟩)
    | _ =>
      simp only [dispatchPattern, hk] at h
      exact .inl ⟨index, rfl, by simp [hk], h⟩
  | addTable table =>
    right; right; right; right; right
    exact .inl ⟨table, rfl, h⟩
  | addColumn table column =>
    right; right; right; right; right
    exact .inr ⟨table, column, rfl, h⟩
  | _ => cases h

end Djogi.Live

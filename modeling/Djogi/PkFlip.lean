import Djogi.Sql
import Djogi.PkFlipGroup

/-!
# The plan of a primary-key flip

The staged emitters of `migrate/pk_flip.rs`: preparation, backfill, verification,
concurrent indexes, foreign keys of the shadow columns, the `NOT NULL` proof and the
cutover, for one group, for a cluster of groups stage by stage, and for a partitioned
parent.
-/

namespace Djogi

/-! ## Names -/

def parentPkColumn : String := "id"

def shadowSuffix : String := "_desc"

def shadow (column : String) : String := column ++ shadowSuffix

def autofillName (table : String) : String := "zzz_" ++ table ++ "_autofill_desc"

def shadowIndex (table column : String) : String := "idx_" ++ table ++ "_" ++ shadow column

def shadowFk (table column : String) : String := table ++ "_" ++ shadow column ++ "_fkey"

def notNullProof (table column : String) : String := table ++ "_" ++ shadow column ++ "_nn"

def pgIdType : PkFlipFamily → String
  | .heer => "bigint"
  | .ranj => "uuid"

def parentFamily (g : PkTypeFlipGroup) : PkFlipFamily :=
  match g.parentFrom with
  | .heerId | .heerIdRecencyBiased => .heer
  | .ranjId | .ranjIdRecencyBiased => .ranj
  | _ => .heer

def flipFnName : PkFlipFamily → PkFlipDirection → String
  | .heer, .ascToDesc => "heerid_to_desc"
  | .heer, .descToAsc => "heerid_to_asc"
  | .ranj, .ascToDesc => "ranjid_to_desc"
  | .ranj, .descToAsc => "ranjid_to_asc"

def nextFnName : PkFlipFamily → PkFlipDirection → String
  | .heer, .ascToDesc => "heerid_next_desc"
  | .heer, .descToAsc => "heerid_next"
  | .ranj, .ascToDesc => "ranjid_next_desc"
  | .ranj, .descToAsc => "ranjid_next"

def childFamily (c : PkFlipChild) (g : PkTypeFlipGroup) : PkFlipFamily :=
  if c.family = parentFamily g then c.family else parentFamily g

/-! ## Lines -/

/-- A statement on a line of its own. -/
def flipLine (s : Stmt) : Line := ⟨s, s.render flipStyle ++ ";\n"⟩

/-- A statement that is dispatched alone. -/
def bareLine (s : Stmt) : Line := ⟨s, s.render flipStyle⟩

def remarkLine (text : String) : Line := ⟨.remark text, text⟩

def autofillBody (pairs : List (String × String)) (flip : String) : List Autofill :=
  pairs.map fun p => ⟨p.1, p.2, flip⟩

def renderAutofillTrigger (table : String) (pairs : List (String × String))
    (family : PkFlipFamily) (direction : PkFlipDirection) : List Line :=
  let name := autofillName table
  let create : Stmt := .createFunction name (autofillBody pairs (flipFnName family direction))
  [⟨create, create.render flipStyle ++ ";\n\n"⟩, flipLine (.dropTrigger name table true),
    flipLine (.createTrigger name table name)]

def dropAutofill (table : String) (ifExists : Bool) : List Line :=
  [flipLine (.dropTrigger (autofillName table) table ifExists),
    flipLine (.dropFunction (autofillName table) ifExists)]

def addShadow (table column : String) (family : PkFlipFamily) : Line :=
  flipLine (.addColumn table ⟨shadow column, pgIdType family, false, .none, []⟩)

def dropShadow (table column : String) : Line := flipLine (.dropColumn table (shadow column) true)

/-! ## Members of a group -/

def PkTypeFlipGroup.selfColumns (g : PkTypeFlipGroup) : List String :=
  match g.selfFk with
  | some s => s.fkColumns
  | none => []

def PkFlipSelfFk.deferralAt (s : PkFlipSelfFk) (i : Nat) : Deferral :=
  deferral (s.fkDeferrable.getD i false) (s.fkInitiallyDeferred.getD i false)

def PkFlipChild.deferral (c : PkFlipChild) : Deferral :=
  Djogi.deferral c.fkDeferrable c.fkInitiallyDeferred

/-- A foreign-key column of a join table this group orchestrates. -/
structure JoinTableShadowPair where
  col : String
  constraint : String
  deriving DecidableEq, Repr

def jtShadowPairs (jt : PkFlipJoinTable) (g : PkTypeFlipGroup) : List JoinTableShadowPair :=
  ⟨jt.fkToParentColumn, jt.fkToParentConstraint⟩ ::
    match g.joinTableOption, jt.fkToPartnerColumn, jt.fkToPartnerConstraint with
    | .optionA, some col, some cons => [⟨col, cons⟩]
    | _, _, _ => []

/-- Table and deferrability of the key behind a pair. A pair on the parent's column is the
parent's; the source panics on a partner pair without a partner table. -/
def pairTarget (jt : PkFlipJoinTable) (g : PkTypeFlipGroup) (p : JoinTableShadowPair) :
    String × Deferral :=
  if p.col = jt.fkToParentColumn then
    (g.parentTable, deferral jt.fkToParentDeferrable jt.fkToParentInitiallyDeferred)
  else (jt.fkToPartnerTable.getD "",
    deferral jt.fkToPartnerDeferrable jt.fkToPartnerInitiallyDeferred)

inductive EmitMode
  | standard | cascadeOnly
  deriving DecidableEq, Repr

def EmitMode.includesParent (m : EmitMode) : Bool := m = .standard

/-! ## Segment 1: preparation -/

/-- Shadow columns and trigger of the parent; self-references share its trigger. -/
def parentPreparation (g : PkTypeFlipGroup) : List Line × List Line :=
  let parent := g.parentTable
  let cols := parentPkColumn :: g.selfColumns
  (cols.map (fun c => addShadow parent c (parentFamily g)) ++
    renderAutofillTrigger parent (cols.map fun c => (c, shadow c)) (parentFamily g) g.direction,
   cols.map (dropShadow parent) ++ dropAutofill parent true)

def childPreparation (g : PkTypeFlipGroup) (c : PkFlipChild) : List Line × List Line :=
  (addShadow c.table c.fkColumn (childFamily c g) ::
    renderAutofillTrigger c.table [(c.fkColumn, shadow c.fkColumn)] (childFamily c g) g.direction,
   dropAutofill c.table true ++ [dropShadow c.table c.fkColumn])

def joinPreparation (g : PkTypeFlipGroup) (jt : PkFlipJoinTable) : List Line × List Line :=
  let cols := (jtShadowPairs jt g).map JoinTableShadowPair.col
  (cols.map (fun c => addShadow jt.table c jt.family) ++
    renderAutofillTrigger jt.table (cols.map fun c => (c, shadow c)) jt.family g.direction,
   dropAutofill jt.table true ++ cols.map (dropShadow jt.table))

def preparationParts (g : PkTypeFlipGroup) (mode : EmitMode) : List (List Line × List Line) :=
  (if mode.includesParent then [parentPreparation g] else []) ++
    g.children.map (childPreparation g) ++ g.joinTables.map (joinPreparation g)

def emitPreparationWithMode (g : PkTypeFlipGroup) (mode : EmitMode) : OperationSql where
  label := (match mode with
    | .standard => "PkFlipPrep "
    | .cascadeOnly => "PkFlipPrepCascade ") ++ g.parentTable
  up := (preparationParts g mode).flatMap Prod.fst
  down := (preparationParts g mode).flatMap Prod.snd
  lossy := none

/-! ## Segment 2: backfill and verification -/

def backfillDownNote : List Line :=
  [remarkLine ("-- Backfill is idempotent under `WHERE dst IS NULL`; the\n" ++
    "-- down side has no inverse beyond dropping the shadow\n" ++
    "-- column itself, which segment 1's down already covers.")]

def backfillOp (label table column : String) (family : PkFlipFamily)
    (direction : PkFlipDirection) : OperationSql where
  label := "PkFlipBackfill " ++ label
  up := [bareLine (.backfill table column (shadow column) family direction)]
  down := backfillDownNote
  lossy := none

def emitBackfillStatementsWithMode (g : PkTypeFlipGroup) (mode : EmitMode) : List OperationSql :=
  let parent := g.parentTable
  (if mode.includesParent then
      [backfillOp parent parent parentPkColumn (parentFamily g) g.direction] else []) ++
    g.selfColumns.map (fun c =>
      backfillOp (parent ++ " " ++ c) parent c (parentFamily g) g.direction) ++
    g.children.map (fun c => backfillOp c.table c.table c.fkColumn (childFamily c g) g.direction) ++
    g.joinTables.flatMap fun jt => (jtShadowPairs jt g).map fun p =>
      backfillOp (jt.table ++ " " ++ p.col) jt.table p.col jt.family g.direction

def verifyOp (label : String) (s : Stmt) : OperationSql where
  label := "PkFlipVerify " ++ label
  up := [bareLine s]
  down := []
  lossy := none

def emitVerificationStatementsWithMode (g : PkTypeFlipGroup) (mode : EmitMode) :
    List OperationSql :=
  let parent := g.parentTable
  (if mode.includesParent then
      [verifyOp (parent ++ " pk-non-null") (.countNull parent (shadow parentPkColumn))] else []) ++
    g.selfColumns.map (fun c => verifyOp (parent ++ " " ++ c)
      (.countStale parent c (shadow c) (flipFnName (parentFamily g) g.direction))) ++
    g.children.map (fun c => verifyOp (c.table ++ " " ++ c.fkColumn)
      (if c.fkNullable then .countStale c.table c.fkColumn (shadow c.fkColumn)
          (flipFnName (childFamily c g) g.direction)
        else .countNull c.table (shadow c.fkColumn))) ++
    g.joinTables.flatMap fun jt => (jtShadowPairs jt g).map fun p =>
      verifyOp (jt.table ++ " " ++ p.col)
        (.countStale jt.table p.col (shadow p.col) (flipFnName jt.family g.direction))

/-! ## Segment 3: concurrent indexes -/

def shadowIndexDef (table column : String) (unique : Bool) : IndexDef where
  table := table
  unique := unique
  method := .bTree
  target := .columns [⟨shadow column, .default, none, .asc⟩]
  include_ := []
  nullsNotDistinct := false
  predicate := none

def concurrentIndexOp (label table column : String) (unique : Bool) : OperationSql where
  label := "PkFlipConcurrentIndex " ++ label
  up := [bareLine (.createIndex (shadowIndex table column) (shadowIndexDef table column unique)
    true false false)]
  down := [bareLine (.dropIndex (shadowIndex table column) false true)]
  lossy := none

def emitConcurrentIndexStatementsWithMode (g : PkTypeFlipGroup) (mode : EmitMode) :
    List OperationSql :=
  let parent := g.parentTable
  (if mode.includesParent then [concurrentIndexOp parent parent parentPkColumn true] else []) ++
    (if g.partitionedParent.isNone then
      g.selfColumns.map fun c => concurrentIndexOp (parent ++ " " ++ c) parent c false else []) ++
    g.children.map (fun c =>
      concurrentIndexOp (c.table ++ " " ++ c.fkColumn) c.table c.fkColumn c.fkUnique) ++
    g.joinTables.flatMap fun jt => (jtShadowPairs jt g).map fun p =>
      concurrentIndexOp (jt.table ++ " " ++ p.col) jt.table p.col false

/-! ## Segment 3b: foreign keys of the shadow columns -/

/-- The key is created unvalidated and validated in a statement of its own. -/
def shadowFkOps (table column target : String) (d : Deferral) : List OperationSql :=
  [{ label := "PkFlipAddFk " ++ table ++ " " ++ column
     up := [bareLine (.addConstraint table (shadowFk table column)
       (.foreignKey (shadow column) target (shadow parentPkColumn) none d) true)]
     down := [bareLine (.dropConstraint table (shadowFk table column) true)]
     lossy := none },
   { label := "PkFlipValidateFk " ++ table ++ " " ++ column
     up := [bareLine (.validateConstraint table (shadowFk table column))]
     down := []
     lossy := none }]

def selfFkOps (g : PkTypeFlipGroup) : List OperationSql :=
  match g.selfFk with
  | none => []
  | some s => s.fkColumns.zipIdx.flatMap fun e =>
      shadowFkOps g.parentTable e.1 g.parentTable (s.deferralAt e.2)

def emitChildFkStatements (g : PkTypeFlipGroup) : List OperationSql :=
  selfFkOps g ++
    g.children.flatMap (fun c => shadowFkOps c.table c.fkColumn g.parentTable c.deferral) ++
    g.joinTables.flatMap fun jt => (jtShadowPairs jt g).flatMap fun p =>
      shadowFkOps jt.table p.col (pairTarget jt g p).1 (pairTarget jt g p).2

/-! ## Segment 4: the NOT NULL proof -/

def notNullProofLines (table column : String) : List Line :=
  let nn := notNullProof table column
  [flipLine (.addConstraint table nn (.check (shadow column) (shadow column ++ " IS NOT NULL")) true),
    flipLine (.validateConstraint table nn),
    flipLine (.alterColumn table (shadow column) .setNotNull),
    flipLine (.dropConstraint table nn false)]

def requiredChildren (g : PkTypeFlipGroup) : List PkFlipChild :=
  g.children.filter fun c => !c.fkNullable

def emitNotNullProof (g : PkTypeFlipGroup) : OperationSql where
  label := "PkFlipNotNullProof " ++ g.parentTable
  up := notNullProofLines g.parentTable parentPkColumn ++
    (requiredChildren g).flatMap fun c => notNullProofLines c.table c.fkColumn
  down := flipLine (.alterColumn g.parentTable (shadow parentPkColumn) .dropNotNull) ::
    (requiredChildren g).map fun c =>
      flipLine (.alterColumn c.table (shadow c.fkColumn) .dropNotNull)
  lossy := none

/-! ## Segment 5: cutover -/

def cutoverDropConstraint (table constraint : String) : Line :=
  flipLine (.dropConstraint table constraint false)

def cutoverAddFkConstraint (table constraint column target : String)
    (onDelete : Option OnDeleteSchema) (d : Deferral) : Line :=
  flipLine (.addConstraint table constraint
    (.foreignKey column target parentPkColumn onDelete d) false)

def cutoverDropOldFks (g : PkTypeFlipGroup) : List Line :=
  g.children.map (fun c => cutoverDropConstraint c.table c.fkConstraintName) ++
    g.joinTables.flatMap (fun jt => (jtShadowPairs jt g).map fun p =>
      cutoverDropConstraint jt.table p.constraint) ++
    match g.selfFk with
    | none => []
    | some s => s.fkConstraintNames.map (cutoverDropConstraint g.parentTable)

def renameShadow (table column : String) : Line :=
  flipLine (.renameColumn table (shadow column) column)

def dropColumnLine (table column : String) : Line := flipLine (.dropColumn table column false)

/-- The self-references of the promoted parent: shadow keys dropped, columns renamed,
declared keys added again. -/
def cutoverSelfFks (g : PkTypeFlipGroup) : List Line :=
  match g.selfFk with
  | none => []
  | some s =>
      s.fkColumns.map (fun c => cutoverDropConstraint g.parentTable (shadowFk g.parentTable c)) ++
        s.fkColumns.map (renameShadow g.parentTable) ++
        (s.fkColumns.zip s.fkConstraintNames).zipIdx.map fun e =>
          cutoverAddFkConstraint g.parentTable e.1.2 e.1.1 g.parentTable none (s.deferralAt e.2)

def cutoverPromoteParent (g : PkTypeFlipGroup) : List Line :=
  let parent := g.parentTable
  [cutoverDropConstraint parent (pkeyName parent),
    flipLine (.addPrimaryKeyUsingIndex parent (pkeyName parent) (shadowIndex parent parentPkColumn)),
    flipLine (.alterColumn parent (shadow parentPkColumn)
      (.setDefault (nextFnName (parentFamily g) g.direction ++ "()"))),
    flipLine (.alterColumn parent parentPkColumn .dropDefault),
    dropColumnLine parent parentPkColumn] ++
    g.selfColumns.map (dropColumnLine parent) ++
    dropAutofill parent false ++ [renameShadow parent parentPkColumn] ++ cutoverSelfFks g

def finaliseChild (g : PkTypeFlipGroup) (c : PkFlipChild) : List Line :=
  dropColumnLine c.table c.fkColumn :: dropAutofill c.table false ++
    [cutoverDropConstraint c.table (shadowFk c.table c.fkColumn), renameShadow c.table c.fkColumn,
      cutoverAddFkConstraint c.table c.fkConstraintName c.fkColumn g.parentTable (some c.onDelete)
        c.deferral]

def cutoverFinaliseChildren (g : PkTypeFlipGroup) : List Line :=
  g.children.flatMap (finaliseChild g)

def layoutLabel : PkFlipJoinTableOption → String
  | .optionA => "OptionA"
  | .optionB => "OptionB"

def finaliseJoinTable (g : PkTypeFlipGroup) (jt : PkFlipJoinTable) : List Line :=
  let pairs := jtShadowPairs jt g
  pairs.map (fun p => dropColumnLine jt.table p.col) ++ dropAutofill jt.table false ++
    pairs.map (fun p => cutoverDropConstraint jt.table (shadowFk jt.table p.col)) ++
    pairs.map (fun p => renameShadow jt.table p.col) ++
    pairs.map (fun p => cutoverAddFkConstraint jt.table p.constraint p.col (pairTarget jt g p).1
      none (pairTarget jt g p).2) ++
    [remarkLine ("-- Join-table layout: " ++ layoutLabel g.joinTableOption ++ " (parent=" ++
      g.parentTable ++ ", join_table=" ++ jt.table ++ ")\n")]

def cutoverFinaliseJoinTables (g : PkTypeFlipGroup) : List Line :=
  g.joinTables.flatMap (finaliseJoinTable g)

def deferLines (cycles : Bool) : List Line := if cycles then [flipLine .deferConstraints] else []

/-- The four phases of the cutover, each over all members before the next. -/
def cutoverLines (groups : List PkTypeFlipGroup) : List Line :=
  deferLines (groups.any fun g => !g.cycles.isEmpty) ++
    groups.flatMap cutoverDropOldFks ++ groups.flatMap cutoverPromoteParent ++
    groups.flatMap cutoverFinaliseChildren ++ groups.flatMap cutoverFinaliseJoinTables

def emitCutover (g : PkTypeFlipGroup) : OperationSql where
  label := "PkFlipCutover " ++ g.parentTable
  up := cutoverLines [g]
  down := [remarkLine ("-- POINT OF NO RETURN — segment 5 (cutover) for " ++ g.parentTable ++
    " cannot be\n-- reversed by `down` SQL alone. Rollback requires an inverse\n" ++
    "-- migration: add the previous-direction column back, install a\n" ++
    "-- reverse autofill trigger, re-run heeranjid_bulk_backfill, and\n" ++
    "-- run a second cutover. Plan that contingency BEFORE running\n-- the forward cutover.")]
  lossy := some ⟨.pkTypeFlipPostCutover, "POINT OF NO RETURN: cutover for `" ++ g.parentTable ++
    "` removes the prior PK column and trigger; rollback requires an inverse migration"⟩

/-! ## Partitioned parents -/

def partitionColumn : PartitionSchema → String
  | .range column => column
  | .hash column _ => column

def emitPartitionedPreparation (g : PkTypeFlipGroup) : OperationSql where
  label := "PkFlipPartitionedPrep " ++ g.parentTable
  up := (parentPreparation g).1
  down := (parentPreparation g).2
  lossy := none

/-- The partitioned preparation followed by that of the cascade. -/
def partitionedPrep (g : PkTypeFlipGroup) : OperationSql :=
  let prep := emitPartitionedPreparation g
  let cascade := emitPreparationWithMode g .cascadeOnly
  if cascade.up.isEmpty then prep
  else { prep with
    up := prep.up ++ cascade.up
    down := cascade.down ++ remarkLine "\n" :: prep.down }

def emitPartitionedBackfillOnly (g : PkTypeFlipGroup) : OperationSql where
  label := "PkFlipPartitionedBackfill " ++ g.parentTable
  up := [remarkLine ("-- Partitioned parent: invoke the backfill primitive once per leaf\n" ++
      "-- partition. The runner enumerates leaves from pg_inherits at apply\n" ++
      "-- time and emits one statement per leaf in deterministic\n" ++
      "-- regclass::text order, replacing the <EACH_LEAF_TABLE> placeholder\n" ++
      "-- with the concrete partition name. Operators hand-running this\n" ++
      "-- file MUST expand the placeholder themselves before executing.\n"),
    flipLine (.backfill "<EACH_LEAF_TABLE>" parentPkColumn (shadow parentPkColumn)
      (parentFamily g) g.direction)]
  down := [remarkLine ("-- Partitioned backfill is idempotent under `WHERE dst IS NULL`;\n" ++
    "-- the down side has no inverse beyond dropping the shadow column.")]
  lossy := none

def emitPartitionedVerify (g : PkTypeFlipGroup) : OperationSql :=
  verifyOp (g.parentTable ++ " pk-non-null-aggregate")
    (.countNull g.parentTable (shadow parentPkColumn))

def leafRemark (unique : String) (stem cols index : String) : Line :=
  remarkLine ("-- Per leaf: CREATE " ++ unique ++ "INDEX CONCURRENTLY <leaf>_" ++ stem ++
    "_idx\n--             ON <leaf> (" ++ cols ++ ");\n-- Then ALTER INDEX " ++ index ++
    " ATTACH PARTITION\n--             <leaf>_" ++ stem ++
    "_idx;\n-- The runner enumerates leaves from pg_inherits and emits these\n" ++
    "-- per-leaf statements at apply time.\n")

def emitPartitionedIndexes (g : PkTypeFlipGroup) (part : PkFlipPartitionedMeta) : OperationSql :=
  let pkey := partitionColumn part.partition
  let stem := pkey ++ "_" ++ shadow parentPkColumn
  let name := g.parentTable ++ "_" ++ stem ++ "_idx"
  { label := "PkFlipPartitionedIndex " ++ g.parentTable
    up := [flipLine (.createIndex name
        { shadowIndexDef g.parentTable parentPkColumn true with
          target := .columns [⟨pkey, .default, none, .asc⟩,
            ⟨shadow parentPkColumn, .default, none, .asc⟩] } false false true),
      leafRemark "UNIQUE " stem (pkey ++ ", " ++ shadow parentPkColumn) name]
    down := [flipLine (.dropIndex name false true)]
    lossy := none }

def emitPartitionedSelfFkIndexes (g : PkTypeFlipGroup) : List OperationSql :=
  g.selfColumns.map fun c =>
    { label := "PkFlipPartitionedSelfFkIndex " ++ g.parentTable
      up := [flipLine (.createIndex (shadowIndex g.parentTable c)
          (shadowIndexDef g.parentTable c false) false false true),
        leafRemark "" (shadow c) (shadow c) (shadowIndex g.parentTable c)]
      down := [⟨.dropIndex (shadowIndex g.parentTable c) false true,
        (Stmt.dropIndex (shadowIndex g.parentTable c) false true).render flipStyle ++ ";"⟩]
      lossy := none }

/-- `USING INDEX` is not allowed on a partitioned parent: the key is added over the
partition column and the shadow. -/
def promotePartitionedParent (g : PkTypeFlipGroup) (part : PkFlipPartitionedMeta) : List Line :=
  let parent := g.parentTable
  [cutoverDropConstraint parent (pkeyName parent),
    flipLine (.addPrimaryKey parent [partitionColumn part.partition, shadow parentPkColumn]),
    flipLine (.alterColumn parent (shadow parentPkColumn)
      (.setDefault (nextFnName (parentFamily g) g.direction ++ "()"))),
    flipLine (.alterColumn parent parentPkColumn .dropDefault),
    dropColumnLine parent parentPkColumn] ++
    dropAutofill parent false ++ [renameShadow parent parentPkColumn] ++
    g.selfColumns.map (dropColumnLine parent) ++ cutoverSelfFks g

def emitPartitionedCutoverWithCascade (g : PkTypeFlipGroup) (part : PkFlipPartitionedMeta) :
    OperationSql where
  label := "PkFlipPartitionedCutover " ++ g.parentTable
  up := deferLines (!g.cycles.isEmpty) ++ cutoverDropOldFks g ++ promotePartitionedParent g part ++
    cutoverFinaliseChildren g ++ cutoverFinaliseJoinTables g
  down := [remarkLine ("-- POINT OF NO RETURN — partitioned cutover for " ++ g.parentTable ++
    " cannot be\n-- reversed by `down` SQL alone. Inverse migration required.")]
  lossy := some ⟨.pkTypeFlipPostCutover, "POINT OF NO RETURN: partitioned cutover for `" ++
    g.parentTable ++ "` removes the prior PK column and trigger; rollback requires an inverse " ++
    "migration. Partitioned-table cutover is seconds-to-minutes class — benchmark first."⟩

/-! ## Segments -/

def validateGroup (g : PkTypeFlipGroup) : Except PkFlipError Unit :=
  match g.selfFk with
  | none => .ok ()
  | some s =>
      if s.fkConstraintNames.length ≠ s.fkColumns.length ∨
          s.fkDeferrable.length ≠ s.fkColumns.length ∨
          s.fkInitiallyDeferred.length ≠ s.fkColumns.length then
        .error (.malformedSelfFkMetadata g.parentTable s.fkColumns.length
          s.fkConstraintNames.length s.fkDeferrable.length s.fkInitiallyDeferred.length)
      else .ok ()

def segmentIfAny (kind : SegmentKind) (ops : List OperationSql) : List Segment :=
  if ops.isEmpty then [] else [⟨kind, ops⟩]

def buildSegmentsPartitioned (g : PkTypeFlipGroup) (part : PkFlipPartitionedMeta) :
    List Segment :=
  [⟨.transactional, [partitionedPrep g]⟩,
    ⟨.nonTransactional,
      emitPartitionedBackfillOnly g :: emitBackfillStatementsWithMode g .cascadeOnly⟩,
    ⟨.transactional, emitPartitionedVerify g :: emitVerificationStatementsWithMode g .cascadeOnly⟩,
    ⟨.nonTransactional, emitPartitionedIndexes g part :: emitPartitionedSelfFkIndexes g ++
      emitConcurrentIndexStatementsWithMode g .cascadeOnly⟩] ++
    segmentIfAny .transactional (emitChildFkStatements g) ++
    [⟨.transactional, [emitNotNullProof g]⟩,
      ⟨.transactional, [emitPartitionedCutoverWithCascade g part]⟩]

def buildSegments (g : PkTypeFlipGroup) : Except PkFlipError (List Segment) :=
  match validateGroup g with
  | .error e => .error e
  | .ok () => match g.partitionedParent with
    | some part => .ok (buildSegmentsPartitioned g part)
    | none => .ok (
        [⟨.transactional, [emitPreparationWithMode g .standard]⟩,
          ⟨.nonTransactional, emitBackfillStatementsWithMode g .standard⟩] ++
        segmentIfAny .transactional (emitVerificationStatementsWithMode g .standard) ++
        [⟨.nonTransactional, emitConcurrentIndexStatementsWithMode g .standard⟩] ++
        segmentIfAny .transactional (emitChildFkStatements g) ++
        [⟨.transactional, [emitNotNullProof g]⟩, ⟨.transactional, [emitCutover g]⟩])

/-- Scripts of the members one after the other, an empty line between two of them. -/
def joinScripts : List (List Line) → List Line
  | [] => []
  | [l] => l
  | l :: ls =>
      if l.isEmpty || (joinScripts ls).isEmpty then l ++ joinScripts ls
      else l ++ remarkLine "\n" :: joinScripts ls

def clusterLabel (groups : List PkTypeFlipGroup) : String :=
  ",".intercalate (groups.map PkTypeFlipGroup.parentTable)

def mergedOp (label : String) (ops : List OperationSql) : OperationSql where
  label := label
  up := joinScripts (ops.map OperationSql.up)
  down := joinScripts (ops.map OperationSql.down)
  lossy := none

def emitCutoverMulti (groups : List PkTypeFlipGroup) : OperationSql where
  label := "PkFlipCutoverMulti [" ++ clusterLabel groups ++ "]"
  up := cutoverLines groups
  down := [remarkLine ("-- POINT OF NO RETURN — segment 5 (cutover) for cluster [" ++
    clusterLabel groups ++ "] cannot be\n-- reversed by `down` SQL alone. Rollback requires an " ++
    "inverse\n-- migration: add the previous-direction columns back, install\n" ++
    "-- reverse autofill triggers, re-run heeranjid_bulk_backfill on\n" ++
    "-- every member, and run a second cutover. Plan that contingency\n" ++
    "-- BEFORE running the forward cutover.")]
  lossy := some ⟨.pkTypeFlipPostCutover, "POINT OF NO RETURN: cutover for cluster [" ++
    clusterLabel groups ++ "] removes prior PK columns and triggers across every member; " ++
    "rollback requires an inverse migration"⟩

def multiSegments (groups : List PkTypeFlipGroup) : List Segment :=
  [⟨.transactional, [mergedOp ("PkFlipPrepMulti [" ++ clusterLabel groups ++ "]")
      (groups.map fun g => emitPreparationWithMode g .standard)]⟩,
    ⟨.nonTransactional, groups.flatMap fun g => emitBackfillStatementsWithMode g .standard⟩] ++
    segmentIfAny .transactional
      (groups.flatMap fun g => emitVerificationStatementsWithMode g .standard) ++
    [⟨.nonTransactional, groups.flatMap fun g => emitConcurrentIndexStatementsWithMode g .standard⟩] ++
    segmentIfAny .transactional (groups.flatMap emitChildFkStatements) ++
    [⟨.transactional, [mergedOp ("PkFlipNotNullProofMulti [" ++ clusterLabel groups ++ "]")
        (groups.map emitNotNullProof)]⟩,
      ⟨.transactional, [emitCutoverMulti groups]⟩]

def liftFlipError {α : Type} (x : Except PkFlipError α) : Except DiffError α :=
  match x with
  | .ok a => .ok a
  | .error e => .error (.pkFlipMalformedSelfFkMetadata e)

def buildSegmentsMulti (groups : List PkTypeFlipGroup) : Except DiffError (List Segment) :=
  match liftFlipError (groups.forM validateGroup) with
  | .error e => .error e
  | .ok () => match groups with
    | [] => .ok []
    | [g] => liftFlipError (buildSegments g)
    | groups => match partitionedMultiParentClusterError groups with
      | some e => .error e
      | none => .ok (multiSegments groups)

end Djogi

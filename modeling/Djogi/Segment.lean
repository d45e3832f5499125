import Djogi.Lowering
import Djogi.PkFlip

/-!
# The segment planner

`migrate/segment.rs`: a delta becomes an ordered list of segments. A delta with a
key-flip group takes a path of its own; every other delta is ordered by phase, lowered
operation by operation and cut into runs of one execution mode.
-/

namespace Djogi

structure MigrationPlan where
  bucket : BucketKey
  classification : Classification
  segments : List Segment
  deriving DecidableEq, Repr

def classifyOperation : SchemaOperation → SegmentKind
  | .renameApp .. | .moveModelBetweenApps .. => .metadataOnly
  | .addIndex idx | .dropIndex idx =>
      if idx.requiresOutOfTransaction then .nonTransactional else .transactional
  | _ => .transactional

/-! ## Order -/

def operationPhase : SchemaOperation → Nat
  | .addEnum _ => 0
  | .renameTable .. => 1
  | .addTable _ => 2
  | .addColumn .. | .renameColumn .. | .alterColumn .. | .addForeignKey .. | .setTableComment ..
  | .setStorageParams .. | .setTablespace .. => 3
  | .addEnumVariant .. => 4
  | .addIndex _ | .addExclusionConstraint .. => 5
  | .dropIndex _ | .dropExclusionConstraint .. => 6
  | .dropForeignKey .. => 7
  | .dropColumn .. => 8
  | .dropTable _ => 9
  | .dropEnum _ => 10
  | .renameApp .. | .moveModelBetweenApps .. => 11
  | .pkTypeFlip .. | .pkTypeFlipGroup _ | .pkTypeFlipMultiGroup _ | .unsupported _ => 12

/-- Tables of the batch a table references, itself apart. -/
def batchDeps (batch : OrdMap String TableSchema) (name : String) (t : TableSchema) : List String :=
  OrdMap.sortedDedup (t.columns.filterMap fun col => match col.foreignKey with
    | some fk => if fk.refTable ≠ name ∧ fk.refTable ∈ batch.keys then some fk.refTable else none
    | none => none)

/-- Kahn's loop: `left` holds the tables not yet placed with the dependencies they still
wait for. The smallest table that waits for nothing comes next. -/
def kahn : Nat → OrdMap String (TableSchema × List String) → List TableSchema →
    List TableSchema × OrdMap String (TableSchema × List String)
  | 0, left, done => (done, left)
  | n + 1, left, done =>
      match left.entries.find? fun e => e.2.2.isEmpty with
      | none => (done, left)
      | some e =>
          kahn n ((left.erase e.1).map fun v => (v.1, v.2.filter (· ≠ e.1))) (done ++ [e.2.1])

/-- Take the foreign keys into the cycle out of a table. -/
def stripForeignKeys (members : List String) (t : TableSchema) : TableSchema :=
  { t with columns := t.columns.map fun c =>
      match c.foreignKey with
      | some fk => if members.contains fk.refTable then { c with foreignKey := none } else c
      | none => c }

def strippedForeignKeys (members : List String) (t : TableSchema) : List SchemaOperation :=
  t.columns.filterMap fun c =>
    match c.foreignKey with
    | some fk => if members.contains fk.refTable then some (.addForeignKey t.table c.name fk) else none
    | none => none

def toposortAddTables (tables : List TableSchema) : List TableSchema × List SchemaOperation :=
  let batch := OrdMap.ofList (tables.map fun t => (t.table, t))
  let start := OrdMap.ofList (batch.entries.map fun e => (e.1, (e.2, batchDeps batch e.1 e.2)))
  let (ordered, left) := kahn batch.entries.length start []
  (ordered ++ left.values.map (fun v => stripForeignKeys left.keys v.1),
    left.values.flatMap fun v => strippedForeignKeys left.keys v.1)

def addTable? : SchemaOperation → Option TableSchema
  | .addTable t => some t
  | _ => none

/-- Stable sort by phase, with the new tables in the order of their references. -/
def orderOperations (ops : List SchemaOperation) : List SchemaOperation :=
  let sorted := ops.insertionSort fun a b => operationPhase a ≤ operationPhase b
  let topo := toposortAddTables (ops.filterMap addTable?)
  sorted.filter (fun op => operationPhase op < 2) ++ topo.1.map .addTable ++ topo.2 ++
    sorted.filter (fun op => 2 < operationPhase op)

/-! ## Helper preludes -/

def numericArrayHelperMarker : String := "djogi.__djogi_numeric_array_is_rust_decimal_v1("

def dateArrayHelperMarker : String := "djogi.__djogi_date_array_is_finite_v1("

def tstzArrayHelperMarker : String := "djogi.__djogi_tstz_array_is_finite_v1("

/-- Does the text occur in it? -/
def containsText (marker : List Char) : List Char → Bool
  | [] => marker.isEmpty
  | c :: cs => marker.isPrefixOf (c :: cs) || containsText marker cs

def requiresHelper (marker : String) (ops : List OperationSql) : Bool :=
  ops.any fun op => containsText marker.toList (scriptText op.up).toList ||
    containsText marker.toList (scriptText op.down).toList

def arrayHelperPrelude (function elem body : String) : String :=
  "CREATE SCHEMA IF NOT EXISTS djogi;\n\nCREATE OR REPLACE FUNCTION djogi." ++ function ++
    "(input_array pg_catalog." ++ elem ++ "[])\nRETURNS pg_catalog.bool\nLANGUAGE sql\n" ++
    "IMMUTABLE STRICT PARALLEL SAFE\nAS $$\n    SELECT COALESCE(\n        pg_catalog.bool_and(\n" ++
    "            value IS NULL\n            OR (\n" ++ body ++
    "            )\n        ),\n        true\n    )\n" ++
    "    FROM pg_catalog.unnest(input_array) AS value(value);\n$$;\n"

/-- The helper lives in a schema of its own, which the catalog leaves out. -/
def helperOperation (label prelude : String) : OperationSql where
  label := label
  up := [remarkLine prelude]
  down := [remarkLine ("-- no-op rollback placeholder: helper is shared by framework CHECK " ++
    "constraints")]
  lossy := none

def numericArrayHelperOperation : OperationSql :=
  helperOperation "Ensure djogi numeric-array helper"
    (arrayHelperPrelude "__djogi_numeric_array_is_rust_decimal_v1" "numeric"
      ("                pg_catalog.scale(value) IS NOT NULL\n" ++
        "                AND pg_catalog.scale(value) <= 28\n" ++
        "                AND pg_catalog.abs(value)\n" ++
        "                    * pg_catalog.power(10::pg_catalog.numeric, pg_catalog.scale(value))\n" ++
        "                    <= 79228162514264337593543950335::pg_catalog.numeric\n"))

def dateArrayHelperOperation : OperationSql :=
  helperOperation "Ensure djogi date-array finite-element helper"
    (arrayHelperPrelude "__djogi_date_array_is_finite_v1" "date"
      ("                pg_catalog.isfinite(value)\n" ++
        "                AND value <= '9999-12-31'::pg_catalog.date\n"))

def tstzArrayHelperOperation : OperationSql :=
  helperOperation "Ensure djogi timestamptz-array finite-element helper"
    (arrayHelperPrelude "__djogi_tstz_array_is_finite_v1" "timestamptz"
      ("                pg_catalog.isfinite(value)\n                AND value <= " ++
        "'9999-12-31 23:59:59.999999+00'::pg_catalog.timestamptz\n"))

def helperOperations (lowered : List OperationSql) : List OperationSql :=
  (if requiresHelper numericArrayHelperMarker lowered then [numericArrayHelperOperation] else []) ++
    (if requiresHelper dateArrayHelperMarker lowered then [dateArrayHelperOperation] else []) ++
    (if requiresHelper tstzArrayHelperMarker lowered then [tstzArrayHelperOperation] else [])

/-! ## Segments -/

/-- Adjacent operations of one kind share a segment. -/
def coalesce : List (SegmentKind × OperationSql) → List Segment
  | [] => []
  | e :: l =>
      match coalesce l with
      | [] => [⟨e.1, [e.2]⟩]
      | s :: r => if s.kind = e.1 then ⟨e.1, e.2 :: s.statements⟩ :: r else ⟨e.1, [e.2]⟩ :: s :: r

/-- The segments an operation contributes to the group path. -/
def ownSegments : SchemaOperation → Except SqlEmitError (List Segment)
  | .pkTypeFlipGroup g => (liftFlipError (buildSegments g)).mapError .diff
  | .pkTypeFlipMultiGroup groups => (buildSegmentsMulti groups).mapError .diff
  | _ => .ok []

/-- The segments of the key-flip groups of a delta, in input order. -/
def groupSegments : List SchemaOperation → Except SqlEmitError (List Segment)
  | [] => .ok []
  | op :: ops =>
      match ownSegments op with
      | .error e => .error e
      | .ok segs => (groupSegments ops).map (segs ++ ·)

def standardSegments (ops : List SchemaOperation) : Except LowerFailure (List Segment) :=
  match (orderOperations ops).mapM lowerOperation with
  | .error e => .error e
  | .ok lowered =>
      let helpers := helperOperations lowered
      .ok (coalesce (helpers.map (fun o => (.transactional, o)) ++
        ((orderOperations ops).map classifyOperation).zip lowered))

def planDelta (delta : SchemaDelta) : Except LowerFailure MigrationPlan :=
  if delta.classification = .noOp then .ok ⟨delta.bucket, delta.classification, []⟩
  else match groupSegments delta.operations with
    | .error e => .error (.error e)
    | .ok [] => (standardSegments delta.operations).map
        fun segs => ⟨delta.bucket, delta.classification, segs⟩
    | .ok segs => .ok ⟨delta.bucket, delta.classification, segs⟩

def MigrationPlan.upStmts (p : MigrationPlan) : List Stmt := p.segments.flatMap Segment.upStmts

end Djogi

import Djogi.Lib.UnionFind
import Djogi.Diff

/-!
# Primary-key flip groups

How `migrate/diff.rs` turns a per-table key flip into a group with its foreign-key
neighbourhood (`promote_pk_flips_to_groups`), clusters groups that share a join table,
and merges each cluster into one multi-group (`apply_pk_flip_join_table_option`).
-/

namespace Djogi

/-! ## Promotion -/

def familyForKind : PkKindSchema → Option PkFlipFamily
  | .heerId | .heerIdRecencyBiased => some .heer
  | .ranjId | .ranjIdRecencyBiased => some .ranj
  | _ => none

def flipDirection (from_ to_ : PkKindSchema) : PkFlipDirection :=
  match from_, to_ with
  | .heerId, .heerIdRecencyBiased | .ranjId, .ranjIdRecencyBiased => .ascToDesc
  | .heerIdRecencyBiased, .heerId | .ranjIdRecencyBiased, .ranjId => .descToAsc
  | _, _ => .ascToDesc

/-- A foreign-key column that points at the migrating parent. -/
structure FkRef where
  table : String
  schema : TableSchema
  column : ColumnSchema
  fk : ForeignKeySchema

def fkRefs (after : AppliedSchema) (parentTable : String) : List FkRef :=
  after.models.entries.flatMap fun e =>
    e.2.columns.filterMap fun col =>
      match col.foreignKey with
      | some fk => if fk.refTable = parentTable then some ⟨e.1, e.2, col, fk⟩ else none
      | none => none

def FkRef.constraintName (r : FkRef) : String := r.table ++ "_" ++ r.column.name ++ "_fkey"

/-- First column of the parent that points back at the given table. -/
def cycleBack (after : AppliedSchema) (parentTable other : String) : Option String :=
  match after.models.get parentTable with
  | none => none
  | some p => p.columns.findSome? fun pc =>
      match pc.foreignKey with
      | some fk => if fk.refTable = other then some pc.name else none
      | none => none

/-- First foreign-key column of the through-table, other than `col`, that points at
another table than the parent. -/
def partnerOf (t : TableSchema) (col parentTable : String) : Option (String × String) :=
  t.columns.findSome? fun pc =>
    if pc.name = col then none
    else match pc.foreignKey with
      | some fk => if fk.refTable = parentTable then none else some (pc.name, fk.refTable)
      | none => none

def partnerFlags (t : TableSchema) (col : String) : Bool × Bool :=
  match t.columns.find? fun c => c.name = col with
  | some c => match c.foreignKey with
      | some fk => (fk.deferrable, fk.initiallyDeferred)
      | none => (false, false)
  | none => (false, false)

def FkRef.child (r : FkRef) (family : PkFlipFamily) (cycle : Bool) : PkFlipChild where
  table := r.table
  fkColumn := r.column.name
  fkConstraintName := r.constraintName
  onDelete := r.fk.onDelete
  fkDeferrable := cycle || r.fk.deferrable
  fkInitiallyDeferred := cycle || r.fk.initiallyDeferred
  fkNullable := r.column.nullable
  fkUnique := r.column.unique
  family := family
  cycleFlag := cycle

def FkRef.joinTable (r : FkRef) (family : PkFlipFamily) (migratingParents : List String) :
    PkFlipJoinTable :=
  let partner := (partnerOf r.schema r.column.name r.fk.refTable).filter
    fun p => migratingParents.contains p.2
  let flags := match partner with
    | some p => partnerFlags r.schema p.1
    | none => (false, false)
  { table := r.table
    fkToParentColumn := r.column.name
    fkToParentConstraint := r.constraintName
    fkToParentDeferrable := r.fk.deferrable
    fkToParentInitiallyDeferred := r.fk.initiallyDeferred
    fkToPartnerColumn := partner.map Prod.fst
    fkToPartnerConstraint := partner.map fun p => r.table ++ "_" ++ p.1 ++ "_fkey"
    fkToPartnerTable := partner.map Prod.snd
    fkToPartnerDeferrable := flags.1
    fkToPartnerInitiallyDeferred := flags.2
    family := family }

def groupChildren (after : AppliedSchema) (parentTable : String) (family : PkFlipFamily) :
    List PkFlipChild :=
  (fkRefs after parentTable).filterMap fun r =>
    if r.table = parentTable then none
    else match cycleBack after parentTable r.table with
      | some _ => some (r.child family true)
      | none => if r.schema.isThrough then none else some (r.child family false)

def groupJoinTables (after : AppliedSchema) (parentTable : String) (family : PkFlipFamily)
    (migratingParents : List String) : List PkFlipJoinTable :=
  (fkRefs after parentTable).filterMap fun r =>
    if r.table = parentTable then none
    else match cycleBack after parentTable r.table with
      | some _ => none
      | none => if r.schema.isThrough then some (r.joinTable family migratingParents) else none

def groupCycles (after : AppliedSchema) (parentTable : String) : List PkFlipCycle :=
  (fkRefs after parentTable).filterMap fun r =>
    if r.table = parentTable then none
    else (cycleBack after parentTable r.table).map fun col => ⟨r.table, r.column.name, col⟩

def sortBy {α κ : Type} [LinearOrder κ] (key : α → κ) (l : List α) : List α :=
  l.insertionSort fun a b => key a ≤ key b

/-- Self-references in column order; a cycle forces every flag. -/
def groupSelfFk (after : AppliedSchema) (parentTable : String) (hasCycle : Bool) :
    Option PkFlipSelfFk :=
  let refs := sortBy (fun r : FkRef => r.column.name)
    ((fkRefs after parentTable).filter fun r => r.table = parentTable)
  if refs.isEmpty then none
  else some
    { fkColumns := refs.map fun r => r.column.name
      fkConstraintNames := refs.map FkRef.constraintName
      fkDeferrable := refs.map fun r => hasCycle || r.fk.deferrable
      fkInitiallyDeferred := refs.map fun r => hasCycle || r.fk.initiallyDeferred }

def maxClosureDepth : Nat := 65

/-- Tables not yet visited with a foreign key into the frontier. -/
def nextFrontier (after : AppliedSchema) (visited frontier : List String) : List String :=
  (after.models.entries.filter fun e =>
    !visited.contains e.1 && e.2.columns.any fun col =>
      match col.foreignKey with
      | some fk => frontier.contains fk.refTable
      | none => false).map Prod.fst

/-- Breadth-first closure with `remaining` passes left; the last allowed pass that
still finds tables is an error. -/
def closureLoop (after : AppliedSchema) (parentTable : String) : Nat → List String →
    List String → List String → Except DiffError Unit
  | 0, _, _, _ => .ok ()
  | remaining + 1, visited, frontier, chain =>
      if frontier.isEmpty then .ok ()
      else match nextFrontier after visited frontier with
        | [] => .ok ()
        | t :: ts =>
            if remaining = 0 then
              .error (.pkFlipCascadeDepthExceeded parentTable (chain ++ [t]) maxClosureDepth)
            else closureLoop after parentTable remaining (visited ++ t :: ts) (t :: ts)
              (chain ++ [t])

def coDestructiveOp : SchemaOperation → Bool
  | .dropTable _ | .dropColumn .. | .dropEnum _ | .dropIndex _ | .dropForeignKey .. => true
  | _ => false

def coLossyOp : SchemaOperation → Bool
  | .alterColumn _ _ (.setNullable false) => true
  | .addColumn _ c => !c.nullable && c.defaultSql.isNone
  | _ => false

def promoteGroup (after : AppliedSchema) (ops : List SchemaOperation)
    (migratingParents : List String) (parentTable : String) (from_ to_ : PkKindSchema) :
    Except DiffError PkTypeFlipGroup :=
  let family := (familyForKind from_).getD .heer
  let children := groupChildren after parentTable family
  let joinTables := groupJoinTables after parentTable family migratingParents
  let cycles := groupCycles after parentTable
  let visited := parentTable :: (children.map PkFlipChild.table ++
    joinTables.map PkFlipJoinTable.table)
  match closureLoop after parentTable maxClosureDepth visited visited [parentTable] with
  | .error e => .error e
  | .ok () => .ok
      { parentTable := parentTable
        parentFrom := from_
        parentTo := to_
        direction := flipDirection from_ to_
        children := sortBy (fun c : PkFlipChild => toLex (c.table, c.fkColumn)) children
        selfFk := groupSelfFk after parentTable (!cycles.isEmpty)
        joinTables :=
          sortBy (fun j : PkFlipJoinTable => toLex (j.table, j.fkToParentColumn)) joinTables
        cycles := sortBy PkFlipCycle.peerTable cycles
        partitionedParent :=
          ((after.models.get parentTable).bind TableSchema.partition).map .mk
        coDestructive := ops.any coDestructiveOp
        coLossy := ops.any coLossyOp
        joinTableOption := .optionA }

def pkTypeFlip? : SchemaOperation → Option (String × PkKindSchema × PkKindSchema)
  | .pkTypeFlip table from_ to_ => some (table, from_, to_)
  | _ => none

def promoteParents (after : AppliedSchema) (migratingParents : List String) :
    List (String × PkKindSchema × PkKindSchema) → List SchemaOperation →
      Except DiffError (List SchemaOperation)
  | [], ops => .ok ops
  | p :: ps, ops =>
      match promoteGroup after ops migratingParents p.1 p.2.1 p.2.2 with
      | .error e => .error e
      | .ok g => promoteParents after migratingParents ps (ops ++ [.pkTypeFlipGroup g])

def promotePkFlipsToGroups (after : AppliedSchema) (ops : List SchemaOperation) :
    Except DiffError (List SchemaOperation) :=
  let parents := ops.filterMap pkTypeFlip?
  promoteParents after (parents.map Prod.fst) parents
    (ops.filter fun op => (pkTypeFlip? op).isNone)

/-! ## Clusters -/

def pkTypeFlipGroup? : SchemaOperation → Option PkTypeFlipGroup
  | .pkTypeFlipGroup g => some g
  | _ => none

/-- One edge for each join-table entry with a partner, smaller name first, in order. -/
def peerEdges (groups : List PkTypeFlipGroup) : List (String × String) :=
  (OrdMap.sortedDedup (groups.flatMap fun g => g.joinTables.filterMap fun jt =>
    jt.fkToPartnerTable.map fun b =>
      if g.parentTable ≤ b then toLex (g.parentTable, b) else toLex (b, g.parentTable))).map ofLex

def collectClusters : Forest String → OrdMap String (List PkTypeFlipGroup) →
    List PkTypeFlipGroup → OrdMap String (List PkTypeFlipGroup)
  | _, clusters, [] => clusters
  | f, clusters, g :: gs =>
      collectClusters (f.find g.parentTable).1 (clusters.push (f.find g.parentTable).2 g) gs

def clusterPkFlipGroups (ops : List SchemaOperation) : OrdMap String (List PkTypeFlipGroup) :=
  let groups := ops.filterMap pkTypeFlipGroup?
  let edges := peerEdges groups
  if edges.isEmpty then .empty
  else collectClusters ((Forest.ofKeys (groups.map PkTypeFlipGroup.parentTable)).unionAll edges)
    .empty groups

def partitionedMultiParentClusterError (groups : List PkTypeFlipGroup) : Option DiffError :=
  if groups.length < 2 then none
  else
    let partitioned := (groups.filter fun g => g.partitionedParent.isSome).map
      PkTypeFlipGroup.parentTable
    if partitioned.isEmpty then none
    else some (.partitionedMultiParentClusterUnsupported (OrdMap.sortedDedup partitioned)
      (OrdMap.sortedDedup (groups.map PkTypeFlipGroup.parentTable)))

def hasInternalCrossFlip (cluster : List PkTypeFlipGroup) : Bool :=
  cluster.any fun g => g.joinTables.any fun jt =>
    match jt.fkToPartnerTable with
    | some partner => (cluster.map PkTypeFlipGroup.parentTable).contains partner
    | none => false

def rejectCluster (cluster : List PkTypeFlipGroup) : Except DiffError Unit :=
  if cluster.length < 2 then .ok ()
  else if !hasInternalCrossFlip cluster then .ok ()
  else match partitionedMultiParentClusterError (sortBy PkTypeFlipGroup.parentTable cluster) with
    | some e => .error e
    | none => .ok ()

def rejectPartitionedMultiParentClusters (ops : List SchemaOperation) : Except DiffError Unit :=
  (clusterPkFlipGroups ops).values.forM rejectCluster

/-! ## Merging -/

/-- Is this op a group of one of the given parents? -/
def isMemberOp (members : List String) (op : SchemaOperation) : Bool :=
  match op with
  | .pkTypeFlipGroup g => members.contains g.parentTable
  | _ => false

def crossFlippingNames (groups : List PkTypeFlipGroup) : List String :=
  groups.flatMap fun g =>
    (g.joinTables.filter fun jt => jt.fkToPartnerColumn.isSome).map PkFlipJoinTable.table

/-- A group that is not the smallest of its cluster loses its cross-flipping entries. -/
def dropCrossFlipping (names : List String) (g : PkTypeFlipGroup) : PkTypeFlipGroup :=
  { g with joinTables := g.joinTables.filter fun jt =>
      !(jt.fkToPartnerColumn.isSome && names.contains jt.table) }

/-- Winner-takes-all on a sorted cluster. The source's graft loop after it changes
nothing: it only skips. -/
def winnerTakesAll : List PkTypeFlipGroup → List PkTypeFlipGroup
  | [] => []
  | w :: rest => w :: rest.map (dropCrossFlipping (crossFlippingNames (w :: rest)))

def mergeClusters : List (List PkTypeFlipGroup) → List SchemaOperation →
    List (List PkTypeFlipGroup) →
    Except DiffError (List SchemaOperation × List (List PkTypeFlipGroup))
  | [], ops, multi => .ok (ops, multi)
  | cluster :: clusters, ops, multi =>
      if cluster.length < 2 then mergeClusters clusters ops multi
      else
        let members := cluster.map PkTypeFlipGroup.parentTable
        let sorted := sortBy PkTypeFlipGroup.parentTable
          ((ops.filter (isMemberOp members)).filterMap pkTypeFlipGroup?)
        match partitionedMultiParentClusterError sorted with
        | some e => .error e
        | none => mergeClusters clusters (ops.filter fun op => !isMemberOp members op)
            (multi ++ [winnerTakesAll sorted])

def mergeCrossFlippingGroupsIntoMulti (delta : SchemaDelta) : Except DiffError SchemaDelta :=
  match mergeClusters (clusterPkFlipGroups delta.operations).values delta.operations [] with
  | .error e => .error e
  | .ok (ops, multi) => .ok { delta with operations := ops ++ multi.map .pkTypeFlipMultiGroup }

def stampOption (option : PkFlipJoinTableOption) : SchemaOperation → SchemaOperation
  | .pkTypeFlipGroup g => .pkTypeFlipGroup { g with joinTableOption := option }
  | .pkTypeFlipMultiGroup gs =>
      .pkTypeFlipMultiGroup (gs.map fun g => { g with joinTableOption := option })
  | op => op

/-- An error of a merge is where the source panics. -/
def applyPkFlipJoinTableOption (deltas : List SchemaDelta) (option : PkFlipJoinTableOption) :
    Except DiffError (List SchemaDelta) :=
  let stamped := deltas.map fun d =>
    { d with operations := d.operations.map (stampOption option) }
  match option with
  | .optionB => .ok stamped
  | .optionA => stamped.mapM mergeCrossFlippingGroupsIntoMulti

end Djogi

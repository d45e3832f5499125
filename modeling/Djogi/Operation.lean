import Mathlib.Data.Prod.Lex
import Djogi.Schema

/-!
# Operations and deltas

The operation taxonomy of `migrate/diff.rs`: what one difference between two
schemas is recorded as, the metadata a primary-key flip carries, and the errors
of the differ and of the lowering (`migrate/sql.rs`, `migrate/pk_flip.rs`).
-/

namespace Djogi

/-- Identity of a snapshot bucket, ordered by database and then by app. -/
structure BucketKey where
  database : String
  app : String
  deriving DecidableEq, Repr

instance : LinearOrder BucketKey :=
  LinearOrder.lift' (fun b => toLex (b.database, b.app))
    (fun a b h => by
      cases a
      cases b
      simpa using h)

/-- The bucket of the framework tables of the main database. -/
def mainBucket : BucketKey := ⟨"main", ""⟩

inductive EnumVariantAnchorKind
  | before | after
  deriving DecidableEq, Repr

structure EnumVariantAnchor where
  variant : String
  kind : EnumVariantAnchorKind
  deriving DecidableEq, Repr

inductive ColumnChange
  | setNullable (nullable : Bool)
  | setDefault (default : Option String)
  | changeType (from_ to_ : String) (using_ : Option String)
  | codecChange (fromCodec toCodec : Option String)
  | setCheck (from_ to_ : Option String)
  | setUnique (unique : Bool)
  | setIndexed (indexed : Bool)
  | setGenerated (from_ to_ : Option GeneratedColumnSchema)
  | setComment (from_ to_ : Option String)
  | setIdentity (from_ to_ : Option IdentityKindSchema)
  deriving DecidableEq, Repr

/-! ## Primary-key flips -/

inductive PkFlipDirection
  | ascToDesc | descToAsc
  deriving DecidableEq, Repr

inductive PkFlipFamily
  | heer | ranj
  deriving DecidableEq, Repr

inductive PkFlipJoinTableOption
  | optionA | optionB
  deriving DecidableEq, Repr

structure PkFlipChild where
  table : String
  fkColumn : String
  fkConstraintName : String
  onDelete : OnDeleteSchema
  fkDeferrable : Bool
  fkInitiallyDeferred : Bool
  fkNullable : Bool
  fkUnique : Bool
  family : PkFlipFamily
  cycleFlag : Bool
  deriving DecidableEq, Repr

structure PkFlipSelfFk where
  fkColumns : List String
  fkConstraintNames : List String
  fkDeferrable : List Bool
  fkInitiallyDeferred : List Bool
  deriving DecidableEq, Repr

structure PkFlipJoinTable where
  table : String
  fkToParentColumn : String
  fkToParentConstraint : String
  fkToParentDeferrable : Bool
  fkToParentInitiallyDeferred : Bool
  fkToPartnerColumn : Option String
  fkToPartnerConstraint : Option String
  fkToPartnerTable : Option String
  fkToPartnerDeferrable : Bool
  fkToPartnerInitiallyDeferred : Bool
  family : PkFlipFamily
  deriving DecidableEq, Repr

structure PkFlipCycle where
  peerTable : String
  peerFkColumn : String
  selfFkColumn : String
  deriving DecidableEq, Repr

structure PkFlipPartitionedMeta where
  partition : PartitionSchema
  deriving DecidableEq, Repr

structure PkTypeFlipGroup where
  parentTable : String
  parentFrom : PkKindSchema
  parentTo : PkKindSchema
  direction : PkFlipDirection
  children : List PkFlipChild
  selfFk : Option PkFlipSelfFk
  joinTables : List PkFlipJoinTable
  cycles : List PkFlipCycle
  partitionedParent : Option PkFlipPartitionedMeta
  coDestructive : Bool
  coLossy : Bool
  joinTableOption : PkFlipJoinTableOption
  deriving DecidableEq, Repr

/-! ## Operations -/

inductive SchemaOperation
  | addTable (table : TableSchema)
  | dropTable (table : String)
  | renameTable (from_ to_ : String)
  | addColumn (table : String) (column : ColumnSchema)
  | dropColumn (table column : String)
  | renameColumn (table from_ to_ : String)
  | alterColumn (table column : String) (change : ColumnChange)
  | addForeignKey (table column : String) (fk : ForeignKeySchema)
  | dropForeignKey (table column : String) (fk : ForeignKeySchema)
  | addIndex (index : IndexSchema)
  | dropIndex (index : IndexSchema)
  | addExclusionConstraint (table : String) (exclusion : ExclusionConstraintSchema)
  | dropExclusionConstraint (table name : String) (exclusion : ExclusionConstraintSchema)
  | addEnum (schema : EnumSchema)
  | dropEnum (name : String)
  | addEnumVariant (enumName variant : String) (anchor : Option EnumVariantAnchor)
  | pkTypeFlip (table : String) (from_ to_ : PkKindSchema)
  | pkTypeFlipGroup (group : PkTypeFlipGroup)
  | pkTypeFlipMultiGroup (groups : List PkTypeFlipGroup)
  | renameApp (from_ to_ : String)
  | moveModelBetweenApps (model fromApp toApp : String)
  | setTableComment (table : String) (from_ to_ : Option String)
  | setStorageParams (table : String) (from_ to_ : Option String)
  | setTablespace (table : String) (from_ to_ : Option String)
  | unsupported (reason : String)
  deriving DecidableEq, Repr

/-- The groups an operation carries. -/
def opGroups : SchemaOperation → List PkTypeFlipGroup
  | .pkTypeFlipGroup g => [g]
  | .pkTypeFlipMultiGroup gs => gs
  | _ => []

def groupsOf (ops : List SchemaOperation) : List PkTypeFlipGroup := ops.flatMap opGroups

inductive Classification
  | noOp | additive | reversible | destructive | lossy
  | unsupported (reason : String)
  | pkTypeFlip (coDestructive coLossy : Bool)
  deriving DecidableEq, Repr

structure SchemaDelta where
  bucket : BucketKey
  operations : List SchemaOperation
  classification : Classification
  deriving DecidableEq, Repr

/-! ## Errors -/

inductive PkFlipError
  | malformedSelfFkMetadata (parentTable : String)
      (fkColumns fkConstraintNames fkDeferrable fkInitiallyDeferred : Nat)
  deriving DecidableEq, Repr

inductive DiffError
  | pkFlipCascadeDepthExceeded (parentTable : String) (chain : List String) (maxDepth : Nat)
  | partitionedMultiParentClusterUnsupported
      (partitionedParents crossFlippingPartners : List String)
  | pkFlipMalformedSelfFkMetadata (err : PkFlipError)
  deriving DecidableEq, Repr

end Djogi

import Djogi.PkFlipGroup

/-!
# Diffing all buckets

`diff_bucket_maps` of `migrate/diff.rs`: one delta for each bucket of either side,
with the table drops and adds of a cross-bucket move replaced by one move operation.
-/

namespace Djogi

/-- A table that moved between two buckets of one database. -/
structure BucketMove where
  src : BucketKey
  dest : BucketKey
  model : String
  deriving DecidableEq, Repr

/-- The move a table of the new schema declares, if its source bucket had the table. -/
def declaredMove (before : OrdMap BucketKey AppliedSchema) (dest : BucketKey)
    (e : String × TableSchema) : Option BucketMove :=
  e.2.movedFromApp.bind fun fromApp =>
    (before.get ⟨dest.database, fromApp⟩).bind fun srcSchema =>
      if srcSchema.models.contains e.1 then some ⟨⟨dest.database, fromApp⟩, dest, e.1⟩
      else none

def bucketMoves (before after : OrdMap BucketKey AppliedSchema) : List BucketMove :=
  after.entries.flatMap fun d => d.2.models.entries.filterMap (declaredMove before d.1)

/-- Is the op the drop or the add half of a move? -/
def isSuppressed (moves : List BucketMove) (bucket : BucketKey) : SchemaOperation → Bool
  | .dropTable name => moves.any fun m => m.src == bucket && m.model == name
  | .addTable t => moves.any fun m => m.dest == bucket && m.model == t.table
  | _ => false

def moveOps (moves : List BucketMove) (bucket : BucketKey) : List SchemaOperation :=
  (moves.filter fun m => m.dest == bucket).map fun m =>
    .moveModelBetweenApps m.model m.src.app m.dest.app

/-- The operations of one bucket before key flips are promoted. -/
def bucketOps (before after : OrdMap BucketKey AppliedSchema) (bucket : BucketKey) :
    List SchemaOperation :=
  let moves := bucketMoves before after
  ((diffSchemas ((before.get bucket).getD .empty) ((after.get bucket).getD .empty)
      bucket).operations.filter fun op => !isSuppressed moves bucket op) ++ moveOps moves bucket

def bucketDelta (before after : OrdMap BucketKey AppliedSchema) (bucket : BucketKey) :
    Except DiffError SchemaDelta :=
  match promotePkFlipsToGroups ((after.get bucket).getD .empty)
      (bucketOps before after bucket) with
  | .error e => .error e
  | .ok ops =>
      match rejectPartitionedMultiParentClusters ops with
      | .error e => .error e
      | .ok () => .ok ⟨bucket, ops, classify ops⟩

def bucketsOf (before after : OrdMap BucketKey AppliedSchema) : List BucketKey :=
  OrdMap.sortedDedup (before.keys ++ after.keys)

def diffBucketMaps (before after : OrdMap BucketKey AppliedSchema) :
    Except DiffError (List SchemaDelta) :=
  (bucketsOf before after).mapM (bucketDelta before after)

/-- Forget the naming discipline of every bucket. -/
def rawBuckets (m : OrdMap BucketKey NamedSchema) : OrdMap BucketKey AppliedSchema :=
  m.map NamedSchema.toAppliedSchema

/-- One bucket in the main database. -/
def inMain {α : Type} (s : α) : OrdMap BucketKey α := .ofList [(mainBucket, s)]

end Djogi

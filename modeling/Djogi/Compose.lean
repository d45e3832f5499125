import Djogi.BucketDiff
import Djogi.JoinCoverage

/-!
# Planning a compose

`compose` of `migrate/compose.rs` up to the list of deltas it goes on with: tombstones, the
snapshots of renamed apps, the guard against unlinked crates, the differ, `RenameApp`
operations and the test for nothing to do.

* `remap_get`: where the snapshot of a bucket comes from after a rename;
* `remapped_iff`: when the snapshot of the old label wins under the new one.
-/

namespace Djogi

open OrdMap

/-! ## The request -/

structure AppLifecycle where
  label : String
  database : String
  renamedFrom : Option String
  tombstone : Bool
  deriving DecidableEq, Repr

def AppLifecycle.bucket (app : AppLifecycle) : BucketKey := ⟨app.database, app.label⟩

/-- The bucket that the annotation of an app names. -/
def AppLifecycle.prior (app : AppLifecycle) : Option BucketKey :=
  app.renamedFrom.map fun old => ⟨app.database, old⟩

structure ComposeRequest where
  models : OrdMap BucketKey AppliedSchema
  snapshots : OrdMap BucketKey AppliedSchema
  apps : List AppLifecycle
  allowDestructive : Bool
  pkFlipJoinTableOption : Option PkFlipJoinTableOption

inductive ComposeError
  | tombstonedAppRequiresAllowDestructive (appLabel database text : String)
  | linkageDropWithoutModels (appLabel database text : String)
  | diff (err : DiffError)
  | nothingToCompose

/-! ## Renamed apps -/

/-- The new label of an old bucket. The last annotation of a bucket counts. -/
def renameMap (apps : List AppLifecycle) : OrdMap BucketKey String :=
  .ofList (apps.filterMap fun app => app.prior.map fun old => (old, app.label))

def relabel (old new : String) (s : AppliedSchema) : AppliedSchema :=
  { s with registeredApps := s.registeredApps.map fun entry => if entry = old then new else entry }

/-- Where the snapshot of a bucket goes, and what it becomes. -/
def landing (apps : List AppLifecycle) (k : BucketKey) (s : AppliedSchema) :
    BucketKey × AppliedSchema :=
  match (renameMap apps).get k with
  | some label => (⟨k.database, label⟩, relabel k.app label s)
  | none => (k, s)

def remapSnapshotsForRenames (snapshots : OrdMap BucketKey AppliedSchema)
    (apps : List AppLifecycle) : OrdMap BucketKey AppliedSchema :=
  if renameMap apps = .empty then snapshots
  else .ofList (snapshots.entries.map fun e => landing apps e.1 e.2)

/-! ## The guards -/

def hasTables (m : OrdMap BucketKey AppliedSchema) (k : BucketKey) : Bool :=
  (m.get k).any fun s => !s.models.entries.isEmpty

def displayLabel (label : String) : String := if label.isEmpty then "_global_" else label

def tombstoneText (label : String) : String :=
  "D011: app \"" ++ displayLabel label ++ "\" is tombstoned; pass --allow-destructive to emit " ++
    "the drop migration"

/-- A tombstoned app with schema state, unless destruction is allowed. -/
def tombstoneViolation (req : ComposeRequest) : Option ComposeError :=
  if req.allowDestructive then none
  else req.apps.findSome? fun app =>
    if app.tombstone && (hasTables req.models app.bucket || hasTables req.snapshots app.bucket) then
      some (.tombstonedAppRequiresAllowDestructive app.label app.database (tombstoneText app.label))
    else none

def linkageText (label database : String) : String :=
  "app \"" ++ displayLabel label ++ "\" was previously registered (database \"" ++ database ++
    "\") but no models for it are linked now — did you forget to link its crate? Refusing to " ++
    "emit DROPs. If this removal is intentional, mark the app `#[app(tombstone)]`."

/-- A snapshot with tables whose bucket has no models, unless its app is tombstoned. -/
def linkageViolation (req : ComposeRequest) (snapshots : OrdMap BucketKey AppliedSchema) :
    Option ComposeError :=
  snapshots.keys.findSome? fun k =>
    if hasTables snapshots k && !(req.apps.any fun app => app.tombstone && app.bucket == k) &&
        !hasTables req.models k then
      some (.linkageDropWithoutModels k.app k.database (linkageText k.app k.database))
    else none

/-! ## The deltas -/

/-- The first delta of the bucket gets the operation. -/
def injectAt (bucket : BucketKey) (op : SchemaOperation) : List SchemaDelta → List SchemaDelta
  | [] => []
  | d :: rest =>
      if d.bucket = bucket then { d with operations := op :: d.operations } :: rest
      else d :: injectAt bucket op rest

def injectRename (deltas : List SchemaDelta) (app : AppLifecycle) : List SchemaDelta :=
  match app.renamedFrom with
  | some prior => injectAt app.bucket (.renameApp prior app.label) deltas
  | none => deltas

def withJoinTableOption (option : Option PkFlipJoinTableOption) (deltas : List SchemaDelta) :
    Except DiffError (List SchemaDelta) :=
  match option with
  | some o => applyPkFlipJoinTableOption deltas o
  | none => .ok deltas

/-- Every bucket of either side with all its operations. -/
def plannedDeltas (req : ComposeRequest) : Except DiffError (List SchemaDelta) := do
  let deltas ← diffBucketMaps (remapSnapshotsForRenames req.snapshots req.apps) req.models
  let deltas ← withJoinTableOption req.pkFlipJoinTableOption deltas
  pure (req.apps.foldl injectRename deltas)

def isEffective (d : SchemaDelta) : Bool :=
  !d.operations.isEmpty || decide (d.classification ≠ .noOp)

/-- The deltas that compose goes on with. The bootstrap is on disk already. -/
def composeDeltas (req : ComposeRequest) : Except ComposeError (List SchemaDelta) :=
  match tombstoneViolation req with
  | some e => .error e
  | none =>
      match linkageViolation req (remapSnapshotsForRenames req.snapshots req.apps) with
      | some e => .error e
      | none =>
          match plannedDeltas req with
          | .error e => .error (.diff e)
          | .ok deltas =>
              if (deltas.filter isEffective).isEmpty then .error .nothingToCompose
              else .ok (deltas.filter isEffective)

/-! ## Applying -/

def emptySchemaFor (bucket : BucketKey) : AppliedSchema where
  djogiVersion := "0.1.0-alpha.17"
  enums := .empty
  formatVersion := snapshotFormatVersion
  generatedAt := "1970-01-01T00:00:00Z"
  indexes := []
  models := .empty
  registeredApps := [bucket.app]

def modelSnapshot (req : ComposeRequest) (bucket : BucketKey) : AppliedSchema :=
  (req.models.get bucket).getD (emptySchemaFor bucket)

/-- The bucket whose folder a rename moves away. -/
def movedFolder (bucket : BucketKey) : SchemaOperation → Option BucketKey
  | .renameApp from_ _ => some ⟨bucket.database, from_⟩
  | _ => none

def movedFolders (deltas : List SchemaDelta) : List BucketKey :=
  deltas.flatMap fun d => d.operations.filterMap (movedFolder d.bucket)

/-- The snapshots when the deltas were composed and applied. -/
def appliedSnapshots (req : ComposeRequest) (deltas : List SchemaDelta) :
    OrdMap BucketKey AppliedSchema :=
  deltas.foldl (fun m d => m.insert d.bucket (modelSnapshot req d.bucket))
    (req.snapshots.filter fun k _ => !(movedFolders deltas).contains k)

/-! ## Where snapshots go -/

theorem prior_database (app : AppLifecycle) (k : BucketKey) (h : app.prior = some k) :
    app.database = k.database := by
  obtain ⟨old, -, rfl⟩ := Option.map_eq_some_iff.mp h
  rfl

theorem renameMap_some (apps : List AppLifecycle) (k : BucketKey) (label : String)
    (h : (renameMap apps).get k = some label) :
    ∃ app ∈ apps, app.prior = some k ∧ app.bucket = ⟨k.database, label⟩ := by
  have hmem := mem_of_mem_ofList _ (k, label) ((mem_entries_iff _ _ _).mpr h)
  obtain ⟨app, happ, heq⟩ := List.mem_filterMap.mp hmem
  obtain ⟨old, hold, hpair⟩ := Option.map_eq_some_iff.mp heq
  obtain ⟨rfl, rfl⟩ := Prod.mk.inj hpair
  exact ⟨app, happ, hold, by rw [AppLifecycle.bucket, prior_database app _ hold]⟩

theorem renameMap_none_iff (apps : List AppLifecycle) (k : BucketKey) :
    (renameMap apps).get k = none ↔ ∀ app ∈ apps, app.prior ≠ some k := by
  rw [get_eq_none_iff, renameMap, mem_keys_ofList]
  constructor
  · intro h app happ hk
    refine h (List.mem_map.mpr ⟨(k, app.label), List.mem_filterMap.mpr ⟨app, happ, ?_⟩, rfl⟩)
    rw [hk, Option.map_some]
  · intro h hmem
    obtain ⟨e, he, rfl⟩ := List.mem_map.mp hmem
    obtain ⟨app, happ, heq⟩ := List.mem_filterMap.mp he
    obtain ⟨old, hold, rfl⟩ := Option.map_eq_some_iff.mp heq
    exact h app happ hold

/-- A snapshot that lands on a bucket is its own or that of an app which is renamed to it. -/
theorem landing_cases (apps : List AppLifecycle) (k : BucketKey) (s : AppliedSchema) :
    ((∀ app ∈ apps, app.prior ≠ some k) ∧ landing apps k s = (k, s)) ∨
      ∃ app ∈ apps, app.prior = some k ∧
        landing apps k s = (app.bucket, relabel k.app app.label s) := by
  unfold landing
  cases hr : (renameMap apps).get k with
  | none => exact .inl ⟨(renameMap_none_iff apps k).mp hr, rfl⟩
  | some label =>
    obtain ⟨app, happ, hprior, hbucket⟩ := renameMap_some apps k label hr
    refine .inr ⟨app, happ, hprior, ?_⟩
    obtain ⟨-, rfl⟩ := BucketKey.mk.inj hbucket
    rw [hbucket]

theorem remap_get (snapshots : OrdMap BucketKey AppliedSchema) (apps : List AppLifecycle)
    (t : BucketKey) (v : AppliedSchema) :
    (remapSnapshotsForRenames snapshots apps).get t = some v ↔
      ∃ k s, snapshots.get k = some s ∧ landing apps k s = (t, v) ∧
        ∀ k' s', snapshots.get k' = some s' → (landing apps k' s').1 = t → k' ≤ k := by
  have hgeneral : (remapSnapshotsForRenames snapshots apps).get t =
      lastIn t (snapshots.entries.map fun e => landing apps e.1 e.2) := by
    unfold remapSnapshotsForRenames
    split_ifs with hempty
    · have hid : (snapshots.entries.map fun e => landing apps e.1 e.2) = snapshots.entries := by
        rw [List.map_congr_left (g := id), List.map_id]
        intro e _
        unfold landing
        rw [hempty, get_empty]
        rfl
      rw [hid, lastIn, lookupIn_perm _ snapshots.entries (List.reverse_perm _)]
      · rfl
      · rw [List.map_reverse, List.nodup_reverse]
        exact snapshots.keys_nodup
    · rw [get_ofList]
  rw [hgeneral, lastIn_map_iff _ _ snapshots.sorted]
  constructor
  · rintro ⟨e, he, hland, hmax⟩
    exact ⟨e.1, e.2, (mem_entries_iff _ _ _).mp he, hland, fun k' s' hk' ht =>
      hmax (k', s') ((mem_entries_iff _ _ _).mpr hk') ht⟩
  · rintro ⟨k, s, hk, hland, hmax⟩
    exact ⟨(k, s), (mem_entries_iff _ _ _).mpr hk, hland, fun e' he' ht =>
      hmax e'.1 e'.2 ((mem_entries_iff _ _ _).mp he') ht⟩

theorem mem_remap_keys (snapshots : OrdMap BucketKey AppliedSchema) (apps : List AppLifecycle)
    (k : BucketKey) (s : AppliedSchema) (hk : snapshots.get k = some s) :
    (landing apps k s).1 ∈ (remapSnapshotsForRenames snapshots apps).keys := by
  unfold remapSnapshotsForRenames
  split_ifs with hempty
  · rw [landing, hempty, get_empty, mem_keys_iff]
    exact ⟨s, hk⟩
  · rw [mem_keys_ofList, List.map_map]
    exact List.mem_map.mpr ⟨(k, s), (mem_entries_iff _ _ _).mpr hk, rfl⟩

/-- The snapshot of an old label is under the new one, whatever was there; old labels are empty
unless another app took them; every other bucket is kept. -/
structure Remapped (snapshots : OrdMap BucketKey AppliedSchema) (apps : List AppLifecycle) :
    Prop where
  wins : ∀ app ∈ apps, ∀ old s, app.prior = some old → snapshots.get old = some s →
    (remapSnapshotsForRenames snapshots apps).get app.bucket = some (relabel old.app app.label s)
  leaves : ∀ app ∈ apps, ∀ old, app.prior = some old →
    (∀ app' ∈ apps, app'.bucket = old → ∀ o, app'.prior = some o → snapshots.get o = none) →
    (remapSnapshotsForRenames snapshots apps).get old = none
  keeps : ∀ k, (∀ app ∈ apps, ∀ old, app.prior = some old →
      k ≠ old ∧ (k = app.bucket → snapshots.get old = none)) →
    (remapSnapshotsForRenames snapshots apps).get k = snapshots.get k

/-- Of the snapshots that land on the new label of an app, the last in key order has the schema
of the old label. -/
def OldSortsLast (snapshots : OrdMap BucketKey AppliedSchema) (apps : List AppLifecycle) : Prop :=
  ∀ app ∈ apps, ∀ old s, app.prior = some old → snapshots.get old = some s →
    ∃ k s', snapshots.get k = some s' ∧
      landing apps k s' = (app.bucket, relabel old.app app.label s) ∧
      ∀ k' s'', snapshots.get k' = some s'' → (landing apps k' s'').1 = app.bucket → k' ≤ k

/-- **Remap.** -/
theorem remapped_iff (snapshots : OrdMap BucketKey AppliedSchema) (apps : List AppLifecycle) :
    Remapped snapshots apps ↔ OldSortsLast snapshots apps := by
  constructor
  · intro h app happ old s hold hs
    exact (remap_get _ _ _ _).mp (h.wins app happ old s hold hs)
  · intro h
    refine ⟨fun app happ old s hold hs => (remap_get _ _ _ _).mpr (h app happ old s hold hs),
      fun app happ old hold hnone => ?_, fun k hk => ?_⟩
    · rw [Option.eq_none_iff_forall_ne_some]
      intro v hv
      obtain ⟨k, s, hs, hland, -⟩ := (remap_get _ _ _ _).mp hv
      rcases landing_cases apps k s with ⟨hno, heq⟩ | ⟨app', happ', hprior, heq⟩
      · rw [heq] at hland
        exact hno app happ ((Prod.mk.inj hland).1 ▸ hold)
      · rw [heq] at hland
        rw [hnone app' happ' (Prod.mk.inj hland).1 k hprior] at hs
        cases hs
    · refine Option.ext fun v => ?_
      rw [remap_get]
      -- Nothing but the bucket itself lands on it.
      have hself : ∀ k' s', snapshots.get k' = some s' → (landing apps k' s').1 = k →
          k' = k ∧ landing apps k' s' = (k', s') := by
        intro k' s' hs' hland
        rcases landing_cases apps k' s' with ⟨hno, heq⟩ | ⟨app', happ', hprior, heq⟩
        · rw [heq] at hland
          exact ⟨hland, heq⟩
        · rw [heq] at hland
          rw [(hk app' happ' k' hprior).2 hland.symm] at hs'
          cases hs'
      constructor
      · rintro ⟨k', s', hs', hland, -⟩
        obtain ⟨rfl, heq⟩ := hself k' s' hs' (congrArg Prod.fst hland)
        rw [heq] at hland
        exact (Prod.mk.inj hland).2 ▸ hs'
      · intro hv
        refine ⟨k, v, hv, ?_, fun k' s' hs' hland => (hself k' s' hs' hland).1.le⟩
        rcases landing_cases apps k v with ⟨-, heq⟩ | ⟨app', happ', hprior, -⟩
        · exact heq
        · exact absurd rfl (hk app' happ' k hprior).1

end Djogi

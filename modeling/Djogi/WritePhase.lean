import Djogi.ComposeFiles
import Djogi.Lib.Folders
import Djogi.Lib.Session

/-!
# Writing the artifacts

Step 7 of `compose` in `migrate/compose.rs`: each bucket stages its files under temporary names
and promotes them, then the folders of renamed apps are merged. `WriteRollback` keeps what has to
be undone. Every operation on the disk may fail.
-/

namespace Djogi

open Folders Session

/-! ## The workspace -/

/-- The directories that compose writes to: `migrations/<database>/<app>` and
`target/djogi_pending/<database>`. -/
inductive Dir
  | bucket (database dirname : String)
  | pending (database : String)
  deriving DecidableEq, Repr

def bucketDir (bucket : BucketKey) : Dir := .bucket bucket.database (appDirname bucket.app)

/-- A file name. The names `<final>.tmp.<pid>` and `<final>.bak.<pid>.<n>` that this process makes
are told apart from all others. -/
inductive Name
  | plain (name : String)
  | tmp (final : String)
  | bak (final : String) (n : Nat)
  deriving DecidableEq, Repr

def Name.key : Name → Nat ×ₗ String ×ₗ Nat
  | .plain s => toLex (0, toLex (s, 0))
  | .tmp s => toLex (1, toLex (s, 0))
  | .bak s k => toLex (2, toLex (s, k))

theorem Name.key_injective : Function.Injective Name.key := by
  intro a b h
  cases a <;> cases b <;> simp_all [Name.key]

instance : LinearOrder Name :=
  { PartialOrder.lift Name.key Name.key_injective with
    le_total := fun a b => le_total a.key b.key
    toDecidableLE := fun a b => inferInstanceAs (Decidable (a.key ≤ b.key))
    toDecidableEq := inferInstance }

abbrev Bytes := List UInt8

/-- A folder inside a bucket's directory is moved as a whole. -/
inductive Entry
  | file (bytes : Bytes)
  | folder (files : List (List String × Bytes))
  deriving DecidableEq, Repr

abbrev Workspace := Disk Dir Name Entry

def isFile : Option Entry → Bool
  | some (.file _) => true
  | _ => false

/-- A folder is not removed. -/
def removeFile (w : Workspace) (d : Dir) (n : Name) : Workspace :=
  if isFile (get w d n) then Folders.erase w d n else w

def createDirAll (w : Workspace) (d : Dir) : Workspace :=
  if (w d).isSome then w else Function.update w d (some .empty)

def moveFolder (w : Workspace) (src dst : Dir) : Workspace :=
  Function.update (Function.update w src none) dst (w src)

def removeDirAll (w : Workspace) (d : Dir) : Workspace := Function.update w d none

/-! ## The guard -/

structure RestorePoint where
  dir : Dir
  name : String
  backup : Option Nat
  deriving DecidableEq, Repr

inductive EntryRename
  | entry (src dst : Dir) (name : Name)
  | folder (src dst : Dir)
  deriving DecidableEq, Repr

def EntryRename.src : EntryRename → Dir
  | .entry src _ _ => src
  | .folder src _ => src

structure WriteRollback where
  tmps : List (Dir × String)
  restorePoints : List RestorePoint
  entryRenames : List EntryRename

namespace WriteRollback

def new : WriteRollback := ⟨[], [], []⟩

def trackTmp (g : WriteRollback) (d : Dir) (name : String) : WriteRollback :=
  { g with tmps := g.tmps ++ [(d, name)] }

def promote (g : WriteRollback) (d : Dir) (name : String) (backup : Option Nat) : WriteRollback :=
  { g with
    tmps := g.tmps.erase (d, name)
    restorePoints := g.restorePoints ++ [⟨d, name, backup⟩] }

def trackEntryRename (g : WriteRollback) (r : EntryRename) : WriteRollback :=
  { g with entryRenames := g.entryRenames ++ [r] }

end WriteRollback

def removeTmp (w : Workspace) (t : Dir × String) : Workspace := removeFile w t.1 (.tmp t.2)

/-- The backup goes back over the final file; without one the final file goes. -/
def restore (w : Workspace) (rp : RestorePoint) : Workspace :=
  match rp.backup with
  | none => removeFile w rp.dir (.plain rp.name)
  | some k =>
      match get w rp.dir (.bak rp.name k) with
      | some _ => move w rp.dir (.bak rp.name k) rp.dir (.plain rp.name)
      | none => removeFile (removeFile w rp.dir (.plain rp.name)) rp.dir (.bak rp.name k)

/-- An entry goes back if the folder it came from exists. -/
def moveBack (w : Workspace) : EntryRename → Workspace
  | .entry src dst name => if (w src).isSome then move w dst name src name else w
  | .folder src dst => if (w dst).isSome && (w src).isNone then moveFolder w dst src else w

/-- What dropping the guard does. -/
def WriteRollback.unwind (g : WriteRollback) (w : Workspace) : Workspace :=
  g.entryRenames.reverse.foldl moveBack
    (g.restorePoints.reverse.foldl restore (g.tmps.foldl removeTmp w))

def removeBackup (w : Workspace) (rp : RestorePoint) : Workspace :=
  match rp.backup with
  | none => w
  | some k => removeFile w rp.dir (.bak rp.name k)

def WriteRollback.commit (g : WriteRollback) (w : Workspace) : Workspace :=
  g.restorePoints.foldl removeBackup w

/-! ## Operations that may fail -/

inductive FsOp
  | createDir | create | write | sync | canonicalize | copy | rename | readDir | removeDir
  deriving DecidableEq, Repr

/-- How the operations go, by their number: `none` is done, `some left` fails and may leave part
of the file. -/
abbrev Faults := Nat → FsOp → Option (Option Bytes)

inductive WriteError (ε : Type)
  | prepare (err : ε)
  | handEditedMigrationWouldBeOverwritten (bucket : BucketKey)
  | pendingJsonWouldBeOverwritten (bucket : BucketKey)
  | folderRenameTargetCollision (from_ to_ : Dir) (entry : Name)
  | io (op : FsOp) (left : Option Bytes)

structure WritePhase where
  disk : Workspace
  guard : WriteRollback
  clock : Nat
  backupCounter : Nat
  pendingFolderRenames : List (Dir × Dir)

abbrev Write (ε α : Type) := Run WritePhase (WriteError ε) α

section Ops

variable {ε : Type} (faults : Faults)

def attempt (op : FsOp) (failed : Option Bytes → Workspace → Workspace)
    (done : Workspace → Workspace) : Write ε Unit := fun s =>
  match faults s.clock op with
  | none => (.ok (), { s with clock := s.clock + 1, disk := done s.disk })
  | some left =>
      (.error (.io op left), { s with clock := s.clock + 1, disk := failed left s.disk })

def ensure (p : WritePhase → Bool) (e : WriteError ε) : Write ε Unit := fun s =>
  if p s then (.ok (), s) else (.error e, s)

def gets {α : Type} (f : WritePhase → α) : Write ε α := fun s => (.ok (f s), s)

def modifyPhase (f : WritePhase → WritePhase) : Write ε Unit := fun s => (.ok (), f s)

def modifyGuard (f : WriteRollback → WriteRollback) : Write ε Unit :=
  modifyPhase fun s => { s with guard := f s.guard }

def ensureParent (d : Dir) : Write ε Unit :=
  attempt faults .createDir (fun _ w => w) fun w => createDirAll w d

/-- A file can be created where a directory is and no folder has the name. -/
def canCreate (d : Dir) (n : Name) (s : WritePhase) : Bool :=
  (s.disk d).isSome && match get s.disk d n with
    | some (.folder _) => false
    | _ => true

def atomicWrite (d : Dir) (name : String) (bytes : Bytes) : Write ε Unit := do
  ensure (canCreate d (.tmp name)) (.io .create none)
  attempt faults .create (fun _ w => w) fun w => put w d (.tmp name) (.file [])
  attempt faults .write (fun left w => put w d (.tmp name) (.file (left.getD [])))
    fun w => put w d (.tmp name) (.file bytes)
  attempt faults .sync (fun _ w => w) fun w => w

/-- Copy the file that is there to a new backup. A folder cannot be copied. -/
def takeBackup (d : Dir) (name : String) : Write ε (Option Nat) := do
  let existing ← gets fun s => get s.disk d (.plain name)
  match existing with
  | none => pure none
  | some e => do
      let n ← gets WritePhase.backupCounter
      modifyPhase fun s => { s with backupCounter := s.backupCounter + 1 }
      match e with
      | .folder _ => fail (.io .copy none)
      | .file bytes => do
          attempt faults .copy
            (fun left w => left.elim w fun part => put w d (.bak name n) (.file part))
            fun w => put w d (.bak name n) (.file bytes)
          pure (some n)

/-- A failed promotion removes its backup. -/
def dropBackup (d : Dir) (name : String) (backup : Option Nat) (w : Workspace) : Workspace :=
  backup.elim w fun n => removeFile w d (.bak name n)

def promoteTmpWithBackup (d : Dir) (name : String) : Write ε (Option Nat) := do
  ensure (fun s => (get s.disk d (.tmp name)).isSome) (.io .canonicalize none)
  attempt faults .canonicalize (fun _ w => w) fun w => w
  let backup ← takeBackup faults d name
  attempt faults .rename (fun _ w => dropBackup d name backup w) fun w =>
    move w d (.tmp name) d (.plain name)
  pure backup

/-! ## Buckets -/

def upFilename (version : String) : String := version ++ ".sdjql"

def downFilename (version : String) : String := version ++ ".down.sdjql"

def committedReplayPlanFilename (version : String) : String := version ++ ".plan.json"

def pendingJsonFilename (app : String) : String := appDirname app ++ ".json"

/-- What is written for a bucket, and the old labels of its app. -/
structure Artifacts where
  bucket : BucketKey
  up : Bytes
  down : Bytes
  replayPlan : Bytes
  pending : Bytes
  renamedFrom : List String

structure StagedFile where
  dir : Dir
  name : String
  bytes : Bytes

def Artifacts.files (version : String) (a : Artifacts) : List StagedFile :=
  [⟨bucketDir a.bucket, upFilename version, a.up⟩, ⟨bucketDir a.bucket, downFilename version, a.down⟩,
    ⟨bucketDir a.bucket, committedReplayPlanFilename version, a.replayPlan⟩,
    ⟨.pending a.bucket.database, pendingJsonFilename a.bucket.app, a.pending⟩]

/-- The folders that become part of the bucket's, and that one. -/
def Artifacts.renames (a : Artifacts) : List (Dir × Dir) :=
  a.renamedFrom.map fun label => (bucketDir ⟨a.bucket.database, label⟩, bucketDir a.bucket)

/-- What the write phase starts from: the artifacts of each bucket or why they could not be made,
which pending files a bucket may overwrite, and the order in which directories are listed. -/
structure WriteRequest (ε : Type) where
  version : String
  forceOverwrite : Bool
  pendingCompatible : BucketKey → Entry → Bool
  listing : List Name → List Name
  listing_perm : ∀ l, (listing l).Perm l
  buckets : List (Except ε Artifacts)

def edited (w : Workspace) (f : StagedFile) : Bool :=
  match get w f.dir (.plain f.name) with
  | some (.file bytes) => bytes != f.bytes
  | _ => false

def checkNoHandEdit (version : String) (a : Artifacts) : Write ε Unit :=
  ensure (fun s => !((a.files version).take 2).any (edited s.disk))
    (.handEditedMigrationWouldBeOverwritten a.bucket)

def checkPendingPathCompatible (compatible : BucketKey → Entry → Bool) (bucket : BucketKey) :
    Write ε Unit :=
  ensure (fun s => (get s.disk (.pending bucket.database)
      (.plain (pendingJsonFilename bucket.app))).all (compatible bucket))
    (.pendingJsonWouldBeOverwritten bucket)

def stageFile (f : StagedFile) : Write ε Unit := do
  atomicWrite faults f.dir f.name f.bytes
  modifyGuard fun g => g.trackTmp f.dir f.name

def promoteFile (f : StagedFile) : Write ε Unit := do
  let backup ← promoteTmpWithBackup faults f.dir f.name
  modifyGuard fun g => g.promote f.dir f.name backup

def writeArtifacts (req : WriteRequest ε) (a : Artifacts) : Write ε Unit := do
  if req.forceOverwrite then pure () else checkNoHandEdit req.version a
  checkPendingPathCompatible req.pendingCompatible a.bucket
  ensureParent faults (bucketDir a.bucket)
  ensureParent faults (.pending a.bucket.database)
  (a.files req.version).forM (stageFile faults)
  (a.files req.version).forM (promoteFile faults)
  modifyPhase fun s => { s with pendingFolderRenames := s.pendingFolderRenames ++ a.renames }

def writeBucket (req : WriteRequest ε) (prepared : Except ε Artifacts) : Write ε Unit :=
  match prepared with
  | .error err => fail (.prepare err)
  | .ok a => writeArtifacts faults req a

/-! ## Folders of renamed apps -/

def moveEntry (src dst : Dir) (name : Name) : Write ε Unit := do
  attempt faults .rename (fun _ w => w) fun w => move w src name dst name
  modifyGuard fun g => g.trackEntryRename (.entry src dst name)

/-- Move every entry, unless the new folder has one of the names. -/
def mergeFolder (listing : List Name → List Name) (src dst : Dir) : Write ε Unit := do
  attempt faults .readDir (fun _ w => w) fun w => w
  let names ← gets fun s => listing (((s.disk src).map OrdMap.keys).getD [])
  let taken ← gets fun s => names.find? fun n => (get s.disk dst n).isSome
  match taken with
  | some n => fail (.folderRenameTargetCollision src dst n)
  | none => do
      names.forM (moveEntry faults src dst)
      attempt faults .removeDir (fun _ w => w) fun w => removeDirAll w src

def renameWholeFolder (src dst : Dir) : Write ε Unit := do
  ensureParent faults dst
  attempt faults .rename (fun _ w => w) fun w => moveFolder w src dst
  modifyGuard fun g => g.trackEntryRename (.folder src dst)

def renameOldBucketFolder (listing : List Name → List Name) (q : Dir × Dir) : Write ε Unit := do
  let src ← gets fun s => (s.disk q.1).isSome
  let dst ← gets fun s => (s.disk q.2).isSome
  if q.1 = q.2 then pure ()
  else if !src then pure ()
  else if !dst then renameWholeFolder faults q.1 q.2
  else mergeFolder faults listing q.1 q.2

/-- Write every bucket, then merge the folders. -/
def writeAll (req : WriteRequest ε) : Write ε Unit := do
  req.buckets.forM (writeBucket faults req)
  let renames ← gets WritePhase.pendingFolderRenames
  renames.forM (renameOldBucketFolder faults req.listing)

/-- The phase begins with an empty guard. -/
def WritePhase.start (w : Workspace) (clock backupCounter : Nat) : WritePhase :=
  ⟨w, .new, clock, backupCounter, []⟩

/-- Step 7: what it returns and the workspace it leaves, committed or rolled back. -/
def writePhase (req : WriteRequest ε) (s : WritePhase) : Except (WriteError ε) Unit × Workspace :=
  match writeAll faults req s with
  | (.ok (), s') => (.ok (), s'.guard.commit s'.disk)
  | (.error e, s') => (.error e, s'.guard.unwind s'.disk)

end Ops

end Djogi

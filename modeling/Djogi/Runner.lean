import Djogi.Lib.Session
import Djogi.Segment
import Mathlib.Tactic.Ring

/-!
# The runner

`migrate/runner.rs` and `migrate/ledger.rs`: a plan is applied segment by segment over a
database session. A transactional segment commits as one; a statement of a non-transactional
segment commits alone, between a claim and an acknowledgement in the ledger row. Partition
placeholders are expanded already.

* `formatNonTxProgressClaim_isClaim`: a claim in flight is told by its text;
* `executed_nodup`: every statement of a plan is a step of its own.
-/

namespace Djogi

open Session

/-! ## Steps -/

/-- A statement of a plan and where it stands. -/
structure Step where
  segment : Nat
  index : Nat
  kind : SegmentKind
  sql : OperationSql
  deriving DecidableEq, Repr

def Segment.steps (seg : Segment) (i : Nat) : List Step :=
  seg.statements.zipIdx.map fun e => ⟨i, e.2, seg.kind, e.1⟩

def segmentSteps (segs : List (Segment × Nat)) : List Step :=
  segs.flatMap fun e => if e.1.kind = .metadataOnly then [] else e.1.steps e.2

/-- The steps that reach the database, in plan order. -/
def MigrationPlan.executed (plan : MigrationPlan) : List Step := segmentSteps plan.segments.zipIdx

def Step.isNonTx (s : Step) : Bool := s.kind == .nonTransactional

theorem mem_steps (seg : Segment) (i : Nat) (s : Step) (h : s ∈ seg.steps i) :
    s.segment = i ∧ s.kind = seg.kind := by
  obtain ⟨e, -, rfl⟩ := List.mem_map.mp h
  exact ⟨rfl, rfl⟩

theorem steps_nodup (seg : Segment) (i : Nat) : (seg.steps i).Nodup := by
  have h : ((seg.steps i).map Step.index).Nodup := by
    rw [Segment.steps, List.map_map]
    show (seg.statements.zipIdx.map Prod.snd).Nodup
    rw [List.zipIdx_map_snd]
    exact List.nodup_range'
  exact h.of_map

/-- Every statement of a plan is a step of its own. -/
theorem executed_nodup (plan : MigrationPlan) : plan.executed.Nodup := by
  have hidx : (plan.segments.zipIdx.map Prod.snd).Nodup := by
    rw [List.zipIdx_map_snd]
    exact List.nodup_range'
  refine List.nodup_flatMap.mpr ⟨fun e _ => ?_, ?_⟩
  · split_ifs
    · exact List.nodup_nil
    · exact steps_nodup e.1 e.2
  · refine (List.pairwise_map.mp hidx).imp fun {e e'} hne => ?_
    intro s hs hs'
    simp only at hs hs'
    split_ifs at hs hs'
    · simp at hs
    · simp at hs
    · simp at hs'
    · exact hne ((mem_steps _ _ _ hs).1.symm.trans (mem_steps _ _ _ hs').1)

/-! ## The ledger -/

inductive LedgerStatus
  | pending | applied | baseline | faked | rolledBack | failed
  deriving DecidableEq, Repr

structure LedgerRow where
  version : String
  checksumUp : String
  status : LedgerStatus
  outOfOrderFlag : Bool
  appliedStepsCount : Int
  totalSteps : Option Int
  partialApplyNote : Option String
  appLabel : String
  deriving DecidableEq, Repr

/-- The database, with the row of the migration and the steps that were committed, up and
down. -/
structure Store where
  catalog : Catalog
  row : Option LedgerRow
  committed : List Step
  undone : List Step

abbrev Db (ε α : Type) := Run (Conn Store) ε α

def Store.updateRow (f : LedgerRow → LedgerRow) (d : Store) : Store :=
  { d with row := d.row.map f }

/-- An update of the row of the migration. -/
def updateLedger (f : LedgerRow → LedgerRow) : Db String (Option Int) :=
  ask (.run fun _ d => some (d.updateRow f))

def insertPending (row : LedgerRow) : Db String (Option Int) :=
  ask (.run fun _ d => if d.row.isSome then none else some { d with row := some row })

def LedgerRow.claim (note : String) (r : LedgerRow) : LedgerRow :=
  { r with partialApplyNote := some note }

def LedgerRow.ack (count : Int) (note : Option String) (r : LedgerRow) : LedgerRow :=
  { r with appliedStepsCount := count, partialApplyNote := note }

def LedgerRow.fail (note : String) (r : LedgerRow) : LedgerRow :=
  { r with status := .failed, partialApplyNote := some note }

def LedgerRow.failPartial (count : Int) (note : String) (r : LedgerRow) : LedgerRow :=
  { r with status := .failed, appliedStepsCount := count, partialApplyNote := some note }

def LedgerRow.apply (count : Int) (note : Option String) (r : LedgerRow) : LedgerRow :=
  { r with status := .applied, appliedStepsCount := count, partialApplyNote := note }

def claimNonTxProgress (note : String) : Db String (Option Int) := updateLedger (.claim note)

def ackNonTxProgress (count : Int) (restored : Option String) : Db String (Option Int) :=
  updateLedger (.ack count restored)

def markFailed (note : String) : Db String (Option Int) := updateLedger (.fail note)

def markPartial (count : Int) (note : String) : Db String (Option Int) :=
  updateLedger (.failPartial count note)

def markApplied (count : Int) : Db String (Option Int) := updateLedger (.apply count none)

def markAppliedKeepNote (count : Int) : Db String (Option Int) :=
  updateLedger fun r => r.apply count r.partialApplyNote

def nonTxProgressClaimPrefix : String := "non-tx progress claim:"

def formatNonTxProgressClaim (priorNote : Option String) (stepOrdinal : Int)
    (totalSteps : Option Int) (segmentIndex : Nat) (statementLabel : String) : String :=
  let note := match totalSteps with
    | some total => nonTxProgressClaimPrefix ++ " step " ++ toString stepOrdinal ++ " of " ++
        toString total ++ " `" ++ statementLabel ++ "` in segment " ++
        toString (segmentIndex + 1) ++ " is/was in flight; automatic resume is blocked " ++
        "until an operator reconciles whether that step committed"
    | none => nonTxProgressClaimPrefix ++ " step " ++ toString stepOrdinal ++ " `" ++
        statementLabel ++ "` in segment " ++ toString (segmentIndex + 1) ++
        " is/was in flight; automatic resume is blocked until an operator reconciles " ++
        "whether that step committed"
  match priorNote with
  | some prior => if prior.isEmpty then note else note ++ "\nprior note: " ++ prior
  | none => note

def startsWith (s : String) (start : String) : Bool := start.toList.isPrefixOf s.toList

def noteHasNonTxProgressClaim (note : Option String) : Bool :=
  note.any fun value => startsWith value nonTxProgressClaimPrefix

theorem startsWith_append (start s : String) : startsWith (start ++ s) start = true := by
  rw [startsWith, String.toList_append, List.isPrefixOf_iff_prefix]
  exact List.prefix_append _ _

/-- A claim is told by its text. -/
theorem formatNonTxProgressClaim_isClaim (priorNote : Option String) (stepOrdinal : Int)
    (totalSteps : Option Int) (segmentIndex : Nat) (statementLabel : String) :
    noteHasNonTxProgressClaim (some (formatNonTxProgressClaim priorNote stepOrdinal totalSteps
      segmentIndex statementLabel)) = true := by
  show startsWith _ _ = true
  unfold formatNonTxProgressClaim
  cases totalSteps <;> cases priorNote <;> simp only [String.append_assoc]
  case none.none | some.none => exact startsWith_append _ _
  all_goals
    split_ifs <;> exact startsWith_append _ _

def i32Max : Int := 2 ^ 31 - 1

/-- Counts are not negative, so only the upper bound of the type matters. -/
def saturatingAdd (a b : Int) : Int := min (a + b) i32Max

/-! ## Errors -/

inductive RunnerError
  | stepCountOverflow (count : Nat)
  | ledgerWriteFailed (version source : String)
  | catalogQueryFailed (queryLabel source : String)
  | targetTableNotFound (indexName targetTable : String)
  | relpagesThresholdExceeded (indexName targetTable : String) (relpages threshold : Int)
  | transactionalSegmentFailed (segmentIndex : Nat) (statementLabel source : String)
  | pkFlipVerificationFailed (table : String) (countViolating : Int)
  | nonTransactionalSegmentFailed (segmentIndex stepIndex : Nat) (statementLabel : String)
      (appliedStepsCount : Int) (source : String)
  | nonTransactionalProgressAckFailed (segmentIndex stepIndex : Nat) (statementLabel : String)
      (appliedStepsCount : Int) (source : String)
  | singleNodeDevProvisioningFailed (nodeId : Int) (step source : String)
  | snapshotPersistFailed (source : String)

/-- The text of the errors that are quoted in a note. -/
def RunnerError.describe : RunnerError → String
  | .catalogQueryFailed queryLabel source =>
      "Postgres catalog query '" ++ queryLabel ++ "' failed: " ++ source
  | .singleNodeDevProvisioningFailed nodeId step source =>
      "single-node-dev provisioning failed for node " ++ toString nodeId ++ " during " ++ step ++
        ": " ++ source
  | _ => ""

def noteForFailedTransactionalSegment (segIdx : Nat) : RunnerError → String
  | .relpagesThresholdExceeded index table relpages threshold =>
      "relpages-probe failed at AddIndex " ++ index ++ " on table " ++ table ++ " (relpages=" ++
        toString relpages ++ " > threshold=" ++ toString threshold ++ ")"
  | .targetTableNotFound index table =>
      "relpages-probe failed at AddIndex " ++ index ++ ": target table `" ++ table ++
        "` not found and not in plan's AddTable set"
  | .transactionalSegmentFailed _ label source =>
      "transactional segment " ++ toString segIdx ++ " failed at `" ++ label ++ "`: " ++ source
  | .pkFlipVerificationFailed table count =>
      "PK-flip verification halt at segment " ++ toString segIdx ++ ": table `" ++ table ++
        "` has " ++ toString count ++ " row(s) with NULL or stale shadow values"
  | other => "transactional segment " ++ toString segIdx ++ " failed: " ++ other.describe

/-! ## Context -/

/-- What the runner is called with. `refuses` is the guard that every statement passes before
it is sent, and `snapshot` is how writing the snapshot goes, when there is one to write. -/
structure RunnerCtx where
  version : String
  checksumUp : String
  bucket : BucketKey
  isOutOfOrder : Bool
  overrideReason : Option String
  conflictingPeer : Option (String × Option String)
  concurrentWarnRelpages : Int
  strictConcurrentWarnings : Bool
  provisionsSingleNodeDev : Bool
  refuses : String → Option String
  snapshot : Option (Except String Unit)

def composeInitialNote (isOutOfOrder : Bool) (overrideReason : Option String)
    (conflictingPeer : Option (String × Option String)) : Option String :=
  match isOutOfOrder, overrideReason with
  | true, some reason =>
      if reason.isEmpty then none
      else match conflictingPeer with
        | some (peer, some ts) => some ("out-of-order apply (peer " ++ peer ++ " applied at " ++
            ts ++ ") override: " ++ reason)
        | some (peer, none) => some ("out-of-order apply (peer " ++ peer ++ ") override: " ++ reason)
        | none => some ("out-of-order apply override: " ++ reason)
  | true, none =>
      match conflictingPeer with
      | some (peer, some ts) =>
          some ("out-of-order apply: peer " ++ peer ++ " was already applied at " ++ ts)
      | some (peer, none) => some ("out-of-order apply: peer " ++ peer)
      | none => none
  | _, _ => none

def RunnerCtx.initialNote (ctx : RunnerCtx) : Option String :=
  composeInitialNote ctx.isOutOfOrder ctx.overrideReason ctx.conflictingPeer

/-! ## Statements -/

/-- What a statement does: it runs on the catalog and counts as committed. -/
def Step.up (s : Step) (d : Store) : Option Store :=
  (d.catalog.execAll s.sql.upStmts).map fun c =>
    { d with catalog := c, committed := d.committed ++ [s] }

/-- A verification query. It counts when it finds nothing. -/
def Step.verify (s : Step) (value : Option Int) (d : Store) : Option Store :=
  if value.getD 0 > 0 then (d.catalog.execAll s.sql.upStmts).map fun c => { d with catalog := c }
  else s.up d

def executeRunnerStatement (refuses : String → Option String) (text : String)
    (effect : Store → Option Store) : Db String (Option Int) :=
  match refuses text with
  | some reason => fail reason
  | none => ask (.run fun _ => effect)

/-! ## Transactional segments -/

/-- The table between the quotes after the first `ON`. -/
def tableAfterOn : List Char → Option String
  | [] => none
  | c :: cs =>
      if " ON \"".toList.isPrefixOf (c :: cs) then
        let tail := (c :: cs).drop 5
        let name := tail.takeWhile (· ≠ '"')
        if name ≠ [] ∧ name.length < tail.length then some (String.ofList name) else none
      else tableAfterOn cs

def stripPrefix (start s : String) : Option String :=
  if startsWith s start then some (String.ofList (s.toList.drop start.toList.length)) else none

def parseCreateIndexStatement (sql : OperationSql) : Option (String × String) :=
  (stripPrefix "AddIndex " sql.label).bind fun index =>
    (tableAfterOn (scriptText sql.up).toList).map fun table => (index, table)

def collectAddTableTargets (plan : MigrationPlan) : List String :=
  plan.segments.flatMap fun seg => seg.statements.filterMap fun sql =>
    stripPrefix "AddTable " sql.label

def relpagesProbe (ctx : RunnerCtx) (index table : String) (addTables : List String) :
    Db RunnerError Unit := do
  let row ← mapError (.catalogQueryFailed "pg_class relpages") (ask (.run fun _ d => some d))
  match row with
  | none => if addTables.contains table then pure () else fail (.targetTableNotFound index table)
  | some relpages =>
      if ctx.concurrentWarnRelpages < relpages ∧ ctx.strictConcurrentWarnings = true then
        fail (.relpagesThresholdExceeded index table relpages ctx.concurrentWarnRelpages)
      else pure ()

def probeIndex (ctx : RunnerCtx) (addTables : List String) (s : Step) : Db RunnerError Unit :=
  match parseCreateIndexStatement s.sql with
  | some (index, table) => relpagesProbe ctx index table addTables
  | none => pure ()

def probeIndexes (ctx : RunnerCtx) (addTables : List String) : List Step → Db RunnerError Unit
  | [] => pure ()
  | s :: rest => do
      probeIndex ctx addTables s
      probeIndexes ctx addTables rest

def isVerify (s : Step) : Bool := startsWith s.sql.label "PkFlipVerify "

/-- The word of a label at a position. -/
def labelWord (label : String) (i : Nat) : String :=
  String.ofList (((label.toList.splitOnP Char.isWhitespace).filter (· ≠ []))[i]?.getD [])

def runVerifications (seg : Nat) : List Step → Db RunnerError Unit
  | [] => pure ()
  | s :: rest => do
      let value ← mapError (.transactionalSegmentFailed seg s.sql.label) (ask (.run s.verify))
      if value.getD 0 > 0 then
        fail (.pkFlipVerificationFailed (labelWord s.sql.label 1) (value.getD 0))
      else runVerifications seg rest

/-- Statements of an open transaction. The first that fails takes it back. -/
def runStatements (ctx : RunnerCtx) (seg : Nat) : List Step → Db RunnerError Unit
  | [] => pure ()
  | s :: rest => do
      let _ ← onError (executeRunnerStatement ctx.refuses (scriptText s.sql.up) s.up)
        (fun _ => bestEffort (ask .rollback))
        (.transactionalSegmentFailed seg s.sql.label)
      runStatements ctx seg rest

def runTransactionalSegment (ctx : RunnerCtx) (seg : Nat) (steps : List Step)
    (addTables : List String) : Db RunnerError Unit :=
  if steps ≠ [] ∧ steps.all isVerify = true then runVerifications seg steps
  else do
    probeIndexes ctx addTables steps
    let _ ← mapError (.transactionalSegmentFailed seg "<BEGIN>") (ask .begin)
    runStatements ctx seg steps
    let _ ← mapError (.transactionalSegmentFailed seg "<COMMIT>") (ask .commit)

/-! ## Non-transactional segments -/

/-- Claim the step, execute it, acknowledge it. -/
def nonTxStep {ε : Type} (refuses : String → Option String) (claimNote : String) (s : Step)
    (applied : Int) (failedNote : String → String) (restored : Option String)
    (claimError executeError ackError : String → ε) : Db ε Unit := do
  let _ ← mapError claimError (claimNonTxProgress claimNote)
  let _ ← onError (executeRunnerStatement refuses (scriptText s.sql.up) s.up)
    (fun e => bestEffort (markPartial applied (failedNote e))) executeError
  let _ ← mapError ackError (ackNonTxProgress (saturatingAdd applied 1) restored)

structure NonTransactionalSegmentRun where
  segmentIndex : Nat
  version : String
  priorStepsCompleted : Int
  totalNonTxSteps : Int
  stableNote : Option String
  refuses : String → Option String

def stepFailedNote (seg idx : Nat) (label e : String) : String :=
  "non-tx step " ++ toString (idx + 1) ++ " of segment " ++ toString seg ++ " failed: " ++ label ++
    " — " ++ e

/-- Returns the steps completed in the segment. -/
def runNonTransactionalSegment (r : NonTransactionalSegmentRun) :
    List Step → Int → Db RunnerError Int
  | [], completed => pure completed
  | s :: rest, completed => do
      let total := saturatingAdd r.priorStepsCompleted completed
      nonTxStep r.refuses
        (formatNonTxProgressClaim r.stableNote (saturatingAdd total 1) (some r.totalNonTxSteps)
          r.segmentIndex s.sql.label)
        s total (stepFailedNote r.segmentIndex s.index s.sql.label) r.stableNote
        (.ledgerWriteFailed r.version)
        (.nonTransactionalSegmentFailed r.segmentIndex s.index s.sql.label total)
        (.nonTransactionalProgressAckFailed r.segmentIndex s.index s.sql.label
          (saturatingAdd total 1))
      runNonTransactionalSegment r rest (saturatingAdd completed 1)

/-! ## Apply -/

def nonTxStepCount (plan : MigrationPlan) : Nat :=
  ((plan.segments.filter fun seg => seg.kind = .nonTransactional).map
    fun seg => seg.statements.length).sum

def hasNonTx (plan : MigrationPlan) : Bool :=
  plan.segments.any fun seg => seg.kind = .nonTransactional

/-- A count that does not fit stops the run before the ledger is written. -/
def stepCountToI32 (count : Nat) : Except RunnerError Int :=
  if (count : Int) ≤ i32Max then .ok count else .error (.stepCountOverflow count)

def pendingRow (ctx : RunnerCtx) (plan : MigrationPlan) (total : Int) : LedgerRow where
  version := ctx.version
  checksumUp := ctx.checksumUp
  status := .pending
  outOfOrderFlag := ctx.isOutOfOrder
  appliedStepsCount := 0
  totalSteps := if hasNonTx plan then some total else none
  partialApplyNote := ctx.initialNote
  appLabel := plan.bucket.app

structure RunReport where
  transactionalSegments : Nat
  nonTransactionalSegments : Nat
  metadataSegments : Nat
  deriving DecidableEq, Repr

/-- The segments that are left, with what was run so far. Returns the steps acknowledged. -/
def walkSegments (ctx : RunnerCtx) (addTables : List String) (total : Int) :
    List (Segment × Nat) → RunReport → Int → Db RunnerError (RunReport × Int)
  | [], report, applied => pure (report, applied)
  | (seg, i) :: rest, report, applied =>
      match seg.kind with
      | .transactional => do
          onError (runTransactionalSegment ctx i (seg.steps i) addTables)
            (fun e => bestEffort
              (markFailed (noteForFailedTransactionalSegment i e))) id
          walkSegments ctx addTables total rest
            { report with transactionalSegments := report.transactionalSegments + 1 } applied
      | .nonTransactional => do
          let completed ← runNonTransactionalSegment
            ⟨i, ctx.version, applied, total, ctx.initialNote, ctx.refuses⟩ (seg.steps i) 0
          walkSegments ctx addTables total rest
            { report with nonTransactionalSegments := report.nonTransactionalSegments + 1 }
            (saturatingAdd applied completed)
      | .metadataOnly =>
          walkSegments ctx addTables total rest
            { report with metadataSegments := report.metadataSegments + 1 } applied

def phaseZeroVersion : String := "V00000000000000__phase_zero_bootstrap"

def defaultNodeId : Int := 1

/-- Seeds and session defaults of the bootstrap. They touch no modelled table. -/
def provisionPhaseZero : Db RunnerError Unit := do
  let _ ← mapError (.singleNodeDevProvisioningFailed defaultNodeId "seed node rows")
    (ask (.run fun _ d => some d))
  let _ ← mapError (.singleNodeDevProvisioningFailed defaultNodeId "set node GUC defaults")
    (ask (.run fun _ d => some d))
  let _ ← mapError (.singleNodeDevProvisioningFailed defaultNodeId "bind node identity")
    (ask (.run fun _ d => some d))

def provisioning (ctx : RunnerCtx) : Db RunnerError Unit :=
  if ctx.version = phaseZeroVersion ∧ ctx.provisionsSingleNodeDev = true then
    onError provisionPhaseZero
      (fun e => bestEffort
        (markFailed ("single-node-dev provisioning failed before mark_applied: " ++ e.describe))) id
  else pure ()

def applyPlanInner (ctx : RunnerCtx) (plan : MigrationPlan) : Db RunnerError RunReport :=
  match stepCountToI32 (nonTxStepCount plan) with
  | .error e => fail e
  | .ok total => do
      let _ ← mapError (.ledgerWriteFailed ctx.version) (insertPending (pendingRow ctx plan total))
      let (report, applied) ← walkSegments ctx (collectAddTableTargets plan) total
        plan.segments.zipIdx ⟨0, 0, 0⟩ 0
      provisioning ctx
      let _ ← mapError (.ledgerWriteFailed ctx.version)
        (if ctx.isOutOfOrder then markAppliedKeepNote applied else markApplied applied)
      match ctx.snapshot with
      | some (.error e) => fail (.snapshotPersistFailed e)
      | _ => pure report

end Djogi

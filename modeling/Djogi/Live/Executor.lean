import Djogi.Live.Backfill
import Djogi.Sql

/-!
# Running a live plan

`live_migrate/executor.rs` and the commands of `djogi-cli/src/live.rs`: the loop over the steps of
a plan, and the four commands with their guards.

* `terminal_refused`: no command changes a plan that has come to an end.
-/

namespace Djogi.Live

open Session

/-! ## Steps -/

inductive StepResult
  | completed
  | partly (rowsDone rowsTotal : Int)
  | paused
  deriving DecidableEq, Repr

inductive ExecutorError
  | db (reason : String)
  | stepFailed (ordinal : Nat) (reason : String)
  | destructiveGateRefused (reason : String)
  deriving DecidableEq, Repr

def ExecutorError.toString : ExecutorError → String
  | .db reason => "database error: " ++ reason
  | .stepFailed ordinal reason => "step " ++ s!"{ordinal}" ++ " failed: " ++ reason
  | .destructiveGateRefused reason =>
      "plan contains a destructive step but the destructive gate was not satisfied: " ++ reason

def StepKind.isDdl : StepKind → Bool
  | .expandSchema | .finalizeConstraints | .cleanupLegacyState | .runReversibleSchemaOp => true
  | _ => false

def StepKind.isGate : StepKind → Bool
  | .validateBackfill | .cutoverReads | .cutoverWrites => true
  | _ => false

section Steps

variable {ρ : Type}

def World.setRow (f : LivePlanRow → LivePlanRow) (w : World ρ) : World ρ :=
  { w with row := f w.row }

/-- The statements of the step are one transaction. -/
def executeDdlStep (env : Env ρ) (step : Step) : Run (World ρ) (Stop ExecutorError) StepResult :=
  match step.parameters with
  | .expandSchema _ | .finalizeConstraints _ | .cleanupLegacyState _ | .runReversibleSchemaOp .. => do
      act env .db fun w => { w with committed := w.committed ++ [step.ordinal] }
      pure .completed
  | _ => fail (.error (.stepFailed step.ordinal
      ("expected DDL parameters, got " ++ step.kind.debug)))

def backfillFailure (ordinal : Nat) : Stop BackfillError → Stop ExecutorError
  | .crash => .crash
  | .error (.database reason) => .error (.db reason)
  | .error other => .error (.stepFailed ordinal other.toString)

def executeBackfillStep (env : Env ρ) (plan : LivePlan) (isResume : Bool) (step : Step) :
    Run (World ρ) (Stop ExecutorError) StepResult :=
  match step.parameters with
  | .backfillChunked table predicateTemplate chunkSize =>
      mapError (backfillFailure step.ordinal) do
        let _ ← if isResume then
            resumeBackfill env plan.header.planId table predicateTemplate chunkSize
          else executeBackfill env plan.header.planId table predicateTemplate chunkSize
        pure .completed
  | _ => fail (.error (.stepFailed step.ordinal
      ("expected BackfillChunked parameters, got " ++ step.kind.debug)))

def gateStatus : StepKind → PlanStatus
  | .validateBackfill => .validating
  | .cutoverReads | .cutoverWrites => .cutover
  | _ => .paused

def handleOperatorGate (env : Env ρ) (step : Step) :
    Run (World ρ) (Stop ExecutorError) StepResult := do
  act env .db (World.setRow fun r => r.updateStatus (gateStatus step.kind))
  pure .paused

def executeStep (env : Env ρ) (plan : LivePlan) (isResume : Bool) (step : Step) :
    Run (World ρ) (Stop ExecutorError) StepResult :=
  match step.kind with
  | .expandSchema | .finalizeConstraints | .cleanupLegacyState | .runReversibleSchemaOp =>
      executeDdlStep env step
  | .backfillChunked => executeBackfillStep env plan isResume step
  | .beginCompatibilityWindow => pure .completed
  | .validateBackfill | .cutoverReads | .cutoverWrites => handleOperatorGate env step

def i32Max : Nat := 2 ^ 31 - 1

/-- The pointer is written before the step. An index that its column cannot hold is a panic. -/
def writePointer (env : Env ρ) (idx : Nat) (step : Step) :
    Run (World ρ) (Stop ExecutorError) Unit :=
  if i32Max < idx then fail .crash
  else act env .db (World.setRow fun r => r.updateStepIndex idx (some step.kind.asDbStr))

/-- A step that fails is recorded in the row. -/
def recordingFailure (env : Env ρ) (m : Run (World ρ) (Stop ExecutorError) StepResult) :
    Run (World ρ) (Stop ExecutorError) StepResult := fun w =>
  match m w with
  | (.error (.error e), w') =>
      (do
        act env .db (World.setRow fun r => r.recordFailure e.toString false)
        fail (.error e) : Run (World ρ) (Stop ExecutorError) StepResult) w'
  | r => r

/-- Note that the step was executed. -/
def noted (step : Step) (m : Run (World ρ) (Stop ExecutorError) StepResult) :
    Run (World ρ) (Stop ExecutorError) StepResult := fun w =>
  match m w with
  | (.ok r, w') => (.ok r, { w' with executed := w'.executed ++ [step.ordinal] })
  | r => r

/-- Stamped before the status is set. -/
def promoteComplete (env : Env ρ) : Run (World ρ) (Stop ExecutorError) StepResult := do
  act env .db fun w => w.setRow fun r => r.stampCompletedAt w.clock
  act env .db (World.setRow fun r => r.updateStatus .complete)
  pure .completed

/-- The steps from the index on. -/
def runSteps (env : Env ρ) (plan : LivePlan) (isResume : Bool) (startIndex : Nat) :
    Nat → List Step → Run (World ρ) (Stop ExecutorError) StepResult
  | _, [] => promoteComplete env
  | idx, step :: rest =>
      if idx < startIndex then runSteps env plan isResume startIndex (idx + 1) rest
      else do
        writePointer env idx step
        let result ← recordingFailure env (noted step (executeStep env plan isResume step))
        match result with
        | .completed => runSteps env plan isResume startIndex (idx + 1) rest
        | stopped => pure stopped

def justifyIsEmpty (justify : Option String) : Bool :=
  (justify.map fun s => s.toList.all isWhitespace).getD true

def runPlan (env : Env ρ) (plan : LivePlan) (startIndex : Nat) (isResume allowDestructive : Bool)
    (justify : Option String) : Run (World ρ) (Stop ExecutorError) StepResult :=
  if plan.hasDestructiveSteps && (!allowDestructive || justifyIsEmpty justify) then
    fail (.error (.destructiveGateRefused ("pass --allow-destructive with a non-empty " ++
      "--justify \"<reason>\" to execute the plan's DROP / TRUNCATE-class steps")))
  else runSteps env plan isResume startIndex 0 plan.steps

end Steps

/-! ## Commands -/

inductive LiveCmdError
  | argRefused (message : String)
  | stateConflict (message : String)
  | runtime (message : String)
  deriving DecidableEq, Repr

def requireJustifyForDestructive (allowDestructive : Bool) (justify : Option String) :
    Except LiveCmdError Unit :=
  if allowDestructive && justifyIsEmpty justify then
    .error (.argRefused "--allow-destructive requires --justify \"<reason>\"")
  else .ok ()

def requireDestructiveGateForPlan (plan : LivePlan) (allowDestructive : Bool)
    (justify : Option String) : Except LiveCmdError Unit :=
  if !plan.hasDestructiveSteps then .ok ()
  else if !allowDestructive then
    .error (.argRefused ("plan contains a destructive step (DROP / TRUNCATE class); " ++
      "pass `--allow-destructive --justify \"<reason>\"` to proceed"))
  else if justifyIsEmpty justify then
    .error (.argRefused ("plan contains a destructive step; `--allow-destructive` requires " ++
      "`--justify \"<reason>\"`"))
  else .ok ()

def unrecognised (status : PlanStatus) : LiveCmdError :=
  .stateConflict ("plan is in `" ++ status.asDbStr ++
    "`; this CLI build does not recognise the status")

def assertRunStatusAllowsProgress : PlanStatus → Except LiveCmdError Unit
  | .pending | .running => .ok ()
  | .paused => .error (.stateConflict ("plan is in `paused`; use `live resume` to re-enter the " ++
      "run loop (paused is an explicit operator checkpoint and `live run` does " ++
      "not auto-advance through it)"))
  | .failedRetriable => .error (unrecognised .failedRetriable)
  | .failedTerminal => .error (unrecognised .failedTerminal)
  | status => .error (.stateConflict ("plan is in `" ++ status.asDbStr ++
      "`; `live run` advances only Pending / Running plans"))

def assertResumeStatusAllowsProgress : PlanStatus → Except LiveCmdError Unit
  | .running | .paused => .ok ()
  | .pending => .error (.stateConflict ("plan is in `pending`; use `live run` to start it " ++
      "(resume is for an interrupted run)"))
  | .failedRetriable => .error (unrecognised .failedRetriable)
  | .failedTerminal => .error (unrecognised .failedTerminal)
  | status => .error (.stateConflict ("plan is in `" ++ status.asDbStr ++
      "`; resume is for interrupted Running / Paused plans (use `live run` past gates, " ++
      "`live finalize` to complete, or `live abandon` to walk away)"))

def assertFinalizeStatus : PlanStatus → Except LiveCmdError Unit
  | .finalizing => .ok ()
  | other => .error (.stateConflict ("plan is in `" ++ other.asDbStr ++
      "`; `live finalize` runs only against the `finalizing` state"))

def assertAbandonStatus : PlanStatus → Except LiveCmdError Unit
  | .complete => .error (.stateConflict "plan is `complete`; nothing to abandon")
  | .abandoned => .error (.stateConflict "plan is already `abandoned`")
  | .failed => .error (.stateConflict ("plan is `failed`; the failure is recorded for audit and " ++
      "the plan is terminal — generate a fresh plan after addressing the underlying cause"))
  | .pending | .running | .paused | .validating | .cutover | .finalizing => .ok ()
  | status => .error (unrecognised status)

def checkedStepIndex (rowIndex planId : Int) : Except LiveCmdError Nat :=
  if 0 ≤ rowIndex then .ok rowIndex.toNat
  else .error (.runtime ("corrupt ledger: plan " ++ s!"{planId}" ++
    " has invalid current_step_index " ++ s!"{rowIndex}" ++ " — must be non-negative"))

inductive Command
  | run (allowDestructive : Bool) (justify : Option String)
  | resume (allowDestructive : Bool) (justify : Option String)
  | finalize (justify : Option String)
  | abandon
  deriving DecidableEq, Repr

/-- The guard of a command on the status of the row. -/
def Command.assertStatus : Command → PlanStatus → Except LiveCmdError Unit
  | .run .. => assertRunStatusAllowsProgress
  | .resume .. => assertResumeStatusAllowsProgress
  | .finalize _ => assertFinalizeStatus
  | .abandon => assertAbandonStatus

section Commands

variable {ρ : Type}

def check {α : Type} (e : Except LiveCmdError α) : Run (World ρ) (Stop LiveCmdError) α :=
  match e with
  | .ok a => pure a
  | .error e => fail (.error e)

def fetchRow (env : Env ρ) : Run (World ρ) (Stop LiveCmdError) LivePlanRow := fun w =>
  match act env .runtime id w with
  | (.ok (), w') => (.ok w.row, w')
  | (.error e, w') => (.error e, w')

def executorFailure : Stop ExecutorError → Stop LiveCmdError
  | .crash => .crash
  | .error e => .error (.runtime ("executor error: " ++ e.toString))

def runCmd (env : Env ρ) (plan : LivePlan) (allowDestructive : Bool) (justify : Option String) :
    Run (World ρ) (Stop LiveCmdError) StepResult := do
  check (requireJustifyForDestructive allowDestructive justify)
  let row ← fetchRow env
  check (assertRunStatusAllowsProgress row.status)
  check (requireDestructiveGateForPlan plan allowDestructive justify)
  mapError executorFailure (runPlan env plan 0 false allowDestructive justify)

def resumeCmd (env : Env ρ) (plan : LivePlan) (allowDestructive : Bool)
    (justify : Option String) : Run (World ρ) (Stop LiveCmdError) StepResult := do
  check (requireJustifyForDestructive allowDestructive justify)
  let row ← fetchRow env
  check (assertResumeStatusAllowsProgress row.status)
  let startIdx ← check (checkedStepIndex row.currentStepIndex row.planId)
  mapError executorFailure (runPlan env plan startIdx true allowDestructive justify)

def requireJustifyForFinalize (justify : Option String) : Except LiveCmdError Unit :=
  if justifyIsEmpty justify then
    .error (.argRefused
      "live finalize runs destructive cleanup steps; pass --justify \"<reason>\"")
  else .ok ()

def finalizeCmd (env : Env ρ) (plan : LivePlan) (justify : Option String) :
    Run (World ρ) (Stop LiveCmdError) StepResult := do
  let row ← fetchRow env
  check (assertFinalizeStatus row.status)
  check (requireJustifyForFinalize justify)
  let startIdx ← check (checkedStepIndex row.currentStepIndex row.planId)
  mapError executorFailure (runPlan env plan startIdx true true justify)

/-- The operator has confirmed. -/
def abandonCmd (env : Env ρ) : Run (World ρ) (Stop LiveCmdError) StepResult := do
  let row ← fetchRow env
  check (assertAbandonStatus row.status)
  act env (fun reason => .runtime ("abandon update_status: " ++ reason))
    (World.setRow fun r => r.updateStatus .abandoned)
  pure .completed

def Command.exec (env : Env ρ) (plan : LivePlan) :
    Command → Run (World ρ) (Stop LiveCmdError) StepResult
  | .run allowDestructive justify => runCmd env plan allowDestructive justify
  | .resume allowDestructive justify => resumeCmd env plan allowDestructive justify
  | .finalize justify => finalizeCmd env plan justify
  | .abandon => abandonCmd env

/-- The step a command starts at. -/
def Command.startIndex (row : LivePlanRow) : Command → Nat
  | .run .. => 0
  | _ => row.currentStepIndex.toNat

/-- **The end.** No command changes the row of a plan that has come to an end. -/
theorem terminal_refused (cmd : Command) (status : PlanStatus) (h : status.terminal = true) :
    ∃ e, cmd.assertStatus status = .error e := by
  cases cmd <;> cases status <;> cases h <;> exact ⟨_, rfl⟩

end Commands

end Djogi.Live

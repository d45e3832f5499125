import Djogi.Live.Plan

/-!
# The row of a live plan

`live_migrate/state.rs`: the statuses of a plan, its row in `djogi_live_plans` and the statements
that update it.

* `fromDbStr_asDbStr`: a status is read back as it was written.
-/

namespace Djogi.Live

/-! ## Statuses -/

inductive PlanStatus
  | pending | running | paused | validating | cutover | finalizing | complete | abandoned | failed
  | failedRetriable | failedTerminal
  deriving DecidableEq, Repr

def planStatusLabels : List (PlanStatus × String) :=
  [(.pending, "pending"), (.running, "running"), (.paused, "paused"),
    (.validating, "validating"), (.cutover, "cutover"), (.finalizing, "finalizing"),
    (.complete, "complete"), (.abandoned, "abandoned"), (.failed, "failed"),
    (.failedRetriable, "failed_retriable"), (.failedTerminal, "failed_terminal")]

def PlanStatus.asDbStr (s : PlanStatus) : String :=
  ((planStatusLabels.find? fun p => p.1 = s).map Prod.snd).getD ""

def PlanStatus.fromDbStr (s : String) : Option PlanStatus :=
  (planStatusLabels.find? fun p => p.2 = s).map Prod.fst

theorem fromDbStr_asDbStr (s : PlanStatus) : PlanStatus.fromDbStr s.asDbStr = some s := by
  cases s <;> decide

/-- The four statuses from which a plan does not go on. -/
def PlanStatus.terminal : PlanStatus → Bool
  | .complete | .abandoned | .failed | .failedTerminal => true
  | _ => false

/-! ## The row -/

/-- The row, with the columns that the daemon owns. -/
structure LivePlanRow where
  planId : Int
  slug : String
  status : PlanStatus
  currentStep : Option String
  currentStepIndex : Int
  backfillRowsDone : Int
  lastProgressAt : Option Nat
  completedAt : Option Nat
  lastError : Option String
  targetDatabase : String
  appLabel : String
  claimedByPid : Option Int
  claimedByHost : Option String
  claimedAt : Option Nat
  deriving DecidableEq, Repr

namespace LivePlanRow

/-- A fresh row of a plan. -/
def fresh (h : PlanHeader) : LivePlanRow where
  planId := h.planId
  slug := h.slug
  status := .pending
  currentStep := none
  currentStepIndex := 0
  backfillRowsDone := 0
  lastProgressAt := none
  completedAt := none
  lastError := none
  targetDatabase := h.targetDatabase
  appLabel := h.appLabel
  claimedByPid := none
  claimedByHost := none
  claimedAt := none

def updateProgress (r : LivePlanRow) (rowsDone : Int) (now : Nat) : LivePlanRow :=
  { r with backfillRowsDone := rowsDone, lastProgressAt := some now }

def updateStepIndex (r : LivePlanRow) (newIndex : Int) (newStepLabel : Option String) :
    LivePlanRow :=
  { r with currentStepIndex := newIndex, currentStep := newStepLabel }

def stampCompletedAt (r : LivePlanRow) (now : Nat) : LivePlanRow :=
  { r with completedAt := some now }

def updateStatus (r : LivePlanRow) (newStatus : PlanStatus) : LivePlanRow :=
  { r with status := newStatus }

def updateStatusWithError (r : LivePlanRow) (status : PlanStatus) (errorMsg : String) :
    LivePlanRow :=
  { r with status := status, lastError := some errorMsg }

def recordFailure (r : LivePlanRow) (errorMsg : String) (retriable : Bool) : LivePlanRow :=
  r.updateStatusWithError (if retriable then .failedRetriable else .failedTerminal) errorMsg

end LivePlanRow

end Djogi.Live

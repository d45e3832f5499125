import Mathlib.Data.List.Basic
import Mathlib.Tactic.Ring

/-!
# The consumer side of the outbox

`outbox/worker.rs`: workers claim pending rows for the time of a lease, publish them, and report.
Each statement is one step; `mark_failed` is two. A row that nobody reported is taken back when its
lease is over.

* `claimPending`, `markPublished`, `fetchRetry`, `markFailedWrite`, `recoverStale`: the statements;
* `step`: any number of workers, in any order and with any delay.
-/

namespace Djogi.Outbox

/-! ## Rows -/

def maxRetryCount : Int := 10

inductive RowState
  | pending | processing | published | failed
  deriving DecidableEq, Repr

def RowState.isTerminal : RowState → Bool
  | .published | .failed => true
  | .pending | .processing => false

/-- What the statements read and write of an outbox row. Times are whole seconds. -/
structure Row where
  id : Int
  state : RowState
  retryCount : Int
  leasedUntil : Option Int
  failedReason : Option String
  deriving DecidableEq, Repr

/-- A row as `emit_event` inserts it, with the defaults of its table. -/
def Row.inserted (id : Int) : Row :=
  { id := id, state := .pending, retryCount := 0, leasedUntil := none, failedReason := none }

/-- `UPDATE ... SET f WHERE p` -/
def update (p : Row → Bool) (f : Row → Row) (rows : List Row) : List Row :=
  rows.map fun r => if p r then f r else r

/-! ## Statements -/

def Row.claimable (now : Int) (r : Row) : Bool :=
  r.state == .pending && r.leasedUntil.all (· ≤ now)

/-- What the sub-select of `claim_pending` may return: `SKIP LOCKED` passes over any row. -/
def selects (now : Int) (batchSize : Nat) (chosen : List Int) (rows : List Row) : Bool :=
  decide chosen.Nodup && decide (chosen.length ≤ batchSize) &&
    chosen.all fun id => rows.any fun r => r.id == id && r.claimable now

def claimPending (now leaseSecs : Int) (chosen : List Int) (rows : List Row) : List Row :=
  update (fun r => chosen.contains r.id)
    (fun r => { r with state := .processing, leasedUntil := some (now + leaseSecs) }) rows

/-- `WHERE id = $1 AND state = 'processing'` -/
def isProcessing (id : Int) (r : Row) : Bool := r.id == id && r.state == .processing

def markPublished (id : Int) (rows : List Row) : List Row :=
  update (isProcessing id) (fun r => { r with state := .published }) rows

/-- The first statement of `mark_failed`. -/
def fetchRetry (id : Int) (rows : List Row) : Option Int :=
  (rows.find? (isProcessing id)).map Row.retryCount

def backoffSecs (currentRetry : Int) : Int :=
  let newRetry := min (currentRetry + 1) (2 ^ 31 - 1)
  min (2 ^ (max 0 (min newRetry 10)).toNat) 1024

/-- The second statement of `mark_failed`. -/
def markFailedWrite (now id currentRetry : Int) (errorMessage : String) (retryable : Bool)
    (rows : List Row) : List Row :=
  if retryable = true ∧ currentRetry < maxRetryCount then
    update (isProcessing id) (fun r => { r with
      state := .pending, retryCount := r.retryCount + 1,
      leasedUntil := some (now + backoffSecs currentRetry),
      failedReason := some errorMessage }) rows
  else
    update (isProcessing id) (fun r => { r with
      state := .failed, failedReason := some errorMessage }) rows

def Row.stale (now thresholdSecs : Int) (r : Row) : Bool :=
  r.state == .processing && r.leasedUntil.any (· < now - thresholdSecs)

def recoverStale (now thresholdSecs : Int) (rows : List Row) : List Row :=
  update (Row.stale now thresholdSecs)
    (fun r => { r with state := .pending, leasedUntil := none }) rows

/-! ## Workers -/

/-- How far the report on a claimed row is. -/
inductive Report
  | awaited
  | fetched (currentRetry : Int) (errorMessage : String) (retryable : Bool)
  | made
  deriving DecidableEq, Repr

/-- A row in the hands of a worker. -/
structure Claim where
  worker : Nat
  row : Int
  leasedUntil : Int
  delivered : Bool
  report : Report
  deriving DecidableEq, Repr

/-- The rows of the table and the claims in the order in which they were made. -/
structure World where
  now : Int
  rows : List Row
  claims : List Claim
  deriving DecidableEq, Repr

inductive Action
  | insert (id : Int)
  | claimPending (worker batchSize : Nat) (leaseSecs : Int) (chosen : List Int)
  | publish (claim : Nat)
  | markPublished (claim : Nat)
  | markFailed (claim : Nat) (errorMessage : String) (retryable : Bool)
  | markFailedWrite (claim : Nat)
  | recoverStale (thresholdSecs : Int)
  | tick (secs : Nat)

def newClaim (worker : Nat) (leasedUntil id : Int) : Claim :=
  { worker := worker, row := id, leasedUntil := leasedUntil, delivered := false,
    report := .awaited }

/-- One step of anybody. A worker that stops or waits takes none. -/
def step (w : World) : Action → Option World
  | .insert id =>
    if w.rows.any (·.id == id) then none
    else some { w with rows := w.rows ++ [Row.inserted id] }
  | .claimPending worker batchSize leaseSecs chosen =>
    if selects w.now batchSize chosen w.rows then
      some { w with
        rows := claimPending w.now leaseSecs chosen w.rows,
        claims := w.claims ++ chosen.map (newClaim worker (w.now + leaseSecs)) }
    else none
  | .publish i => do
    let c ← w.claims[i]?
    if c.report = .awaited then
      some { w with claims := w.claims.set i { c with delivered := true } }
    else none
  | .markPublished i => do
    let c ← w.claims[i]?
    if c.report = .awaited ∧ c.delivered = true then
      some { w with
        rows := markPublished c.row w.rows,
        claims := w.claims.set i { c with report := .made } }
    else none
  | .markFailed i errorMessage retryable => do
    let c ← w.claims[i]?
    if c.report = .awaited then
      let report := match fetchRetry c.row w.rows with
        | some currentRetry => .fetched currentRetry errorMessage retryable
        | none => .made
      some { w with claims := w.claims.set i { c with report := report } }
    else none
  | .markFailedWrite i => do
    let c ← w.claims[i]?
    match c.report with
    | .fetched currentRetry errorMessage retryable =>
      some { w with
        rows := markFailedWrite w.now c.row currentRetry errorMessage retryable w.rows,
        claims := w.claims.set i { c with report := .made } }
    | _ => none
  | .recoverStale thresholdSecs =>
    some { w with rows := recoverStale w.now thresholdSecs w.rows }
  | .tick secs => some { w with now := w.now + secs }

end Djogi.Outbox

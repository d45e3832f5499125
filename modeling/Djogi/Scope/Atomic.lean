import Djogi.Scope.Context

/-!
# Atomic scopes

`transaction.rs`: `atomic` over a pool or a pool-backed context opens a transaction, over a
transaction-backed one a savepoint. A closure is a tree: what it does next depends on how its
statements and nested scopes went.

* `Closure`: what a closure may do;
* `runNestedSavepointAtomic`: the savepoint path, its cancellation guard included;
* `run`: a closure, step by step;
* `atomic`: the outermost scope, up to the callbacks.
-/

namespace Djogi.Scope

open Savepoints

/-! ## Closures -/

/-- How a closure finishes, and how its scope returns. -/
inductive Outcome
  | ok | err | panicked
  /-- The future was dropped while awaiting. -/
  | cancelled
  deriving DecidableEq, Repr

inductive IsolationLevel
  | readCommitted | repeatableRead | serializable
  deriving DecidableEq, Repr

/-- Where the future of a nested scope is dropped outside its closure, and how many of the
statements in flight reach the server. -/
inductive Cut
  | never
  | savepoint (reached : Bool)
  | cleanup (reached : Nat)
  deriving DecidableEq, Repr

/-- A closure over writes `W` and callbacks `C`. Each reply selects the rest. -/
inductive Closure (W C : Type) where
  | finish (outcome : Outcome)
  | execute (write : W) (fails : Bool) (rest : Bool → Closure W C)
  | onCommit (callback : C) (rest : Closure W C)
  | setAuth (auth : AuthContext) (rest : Closure W C)
  | setNoTenantScope (rest : Closure W C)
  | fetch (terminal : Terminal) (query : Query) (rest : Bool → Closure W C)
  /-- `atomic`, or `atomic_with` when a level is given. -/
  | atomic (level : Option IsolationLevel) (inner : Closure W C) (cut : Cut)
      (rest : Outcome → Closure W C)

/-- How deep the closure may nest its scopes. -/
def Closure.nesting {W C : Type} : Closure W C → Nat
  | .finish _ => 0
  | .execute _ _ rest | .fetch _ _ rest => max (rest true).nesting (rest false).nesting
  | .onCommit _ rest | .setAuth _ rest | .setNoTenantScope rest => rest.nesting
  | .atomic _ inner _ rest =>
    max (inner.nesting + 1) (max (max (rest .ok).nesting (rest .err).nesting)
      (max (rest .panicked).nesting (rest .cancelled).nesting))

/-- What happened, by scope: the statements that succeeded, the callbacks that were registered,
and the nested scopes with the end of their closure and the result they returned. -/
inductive Event (W C : Type) where
  | wrote (write : W)
  | registered (callback : C)
  | scope (closure result : Outcome) (events : List (Event W C))

/-- A closure that has run. -/
structure Ran (W C : Type) where
  outcome : Outcome
  events : List (Event W C)
  world : World W C

variable {W C : Type}

/-! ## Nested scopes -/

/-- `restore_parent_state` -/
def restoreParentState (callbacksBefore : Nat) (snapshot : AuthState) (s : World W C) :
    World W C :=
  { s with ctx := (s.ctx.truncateOnCommitQueue callbacksBefore).restoreAuthState snapshot }

/-- The drop of an armed `NestedAtomicCancellationGuard`. -/
def cancel (callbacksBefore : Nat) (snapshot : AuthState) (s : World W C) : World W C :=
  let s := restoreParentState callbacksBefore snapshot s
  { s with ctx := s.ctx.decrementSavepointDepth.poisonTransaction }

/-- `run_rollback_to_release` as far as `sent` statements; errors are logged. -/
def runRollbackToRelease (n sent : Nat) (tx : Tx W (Option String)) : Tx W (Option String) :=
  match sent with
  | 0 => tx
  | 1 => (tx.rollbackTo n).2
  | _ + 2 =>
    let (ok, tx') := tx.rollbackTo n
    if ok then (tx'.release n).2 else tx'

/-- What follows the closure of a nested scope. -/
def finishNested (callbacksBefore : Nat) (snapshot : AuthState) (n : Nat) (cut : Cut)
    (r : Ran W C) : Outcome × World W C :=
  match r.outcome with
  | .cancelled => (.cancelled, cancel callbacksBefore snapshot r.world)
  | .ok =>
    match cut with
    | .cleanup reached =>
      let tx := if reached = 0 then r.world.tx else (r.world.tx.release n).2
      (.cancelled, cancel callbacksBefore snapshot { r.world with tx := tx })
    | _ =>
      let (ok, tx) := r.world.tx.release n
      (if ok then .ok else .err,
        { r.world with ctx := r.world.ctx.decrementSavepointDepth, tx := tx })
  | .err | .panicked =>
    let s := restoreParentState callbacksBefore snapshot r.world
    match cut with
    | .cleanup reached =>
      (.cancelled, cancel callbacksBefore snapshot
        { s with tx := runRollbackToRelease n reached s.tx })
    | _ =>
      (r.outcome, { s with ctx := s.ctx.decrementSavepointDepth,
                           tx := runRollbackToRelease n 2 s.tx })

/-- A scope over a transaction-backed context: `SAVEPOINT`, the closure, and the cleanup. -/
def runNestedSavepointAtomic (cut : Cut) (closure : World W C → Ran W C) (s : World W C) :
    Ran W C :=
  let callbacksBefore := s.ctx.onCommit.length
  let snapshot := s.ctx.authState
  let entered := { s with ctx := s.ctx.incrementSavepointDepth }
  let n := entered.ctx.savepointDepth
  let (ok, tx) := s.tx.savepoint n
  match cut with
  | .savepoint reached =>
    { outcome := .cancelled, events := [.scope .cancelled .cancelled []],
      world := cancel callbacksBefore snapshot
        { entered with tx := if reached then tx else s.tx } }
  | _ =>
    if ok then
      let r := closure ({ entered with tx := tx }.observe .pause)
      let (result, s') := finishNested callbacksBefore snapshot n cut r
      { outcome := result, events := [.scope r.outcome result r.events], world := s' }
    else
      { outcome := .err, events := [.scope .err .err []],
        world := { entered with ctx := entered.ctx.decrementSavepointDepth, tx := tx } }

/-! ## Closures -/

/-- The rest of the closure, after what it has done. -/
def continue_ (events : List (Event W C)) (r : Ran W C) : Ran W C :=
  { r with events := events ++ r.events }

/-- Run a closure on a transaction-backed context. -/
def run : Closure W C → World W C → Ran W C
  | .finish outcome, s => { outcome := outcome, events := [], world := s }
  | .execute w fails rest, s =>
    let (ok, s') := s.send fails (·.write [w]) []
    continue_ (if ok then [.wrote w] else []) (run (rest ok) (s'.observe .pause))
  | .onCommit c rest, s =>
    let s' := { s with ctx := { s.ctx with onCommit := s.ctx.onCommit ++ [c] } }
    continue_ [.registered c] (run rest (s'.observe .pause))
  | .setAuth auth rest, s =>
    run rest ({ s with ctx := s.ctx.setAuth auth }.observe .pause)
  | .setNoTenantScope rest, s =>
    run rest ({ s with ctx := s.ctx.setNoTenantScope }.observe .pause)
  | .fetch terminal query rest, s =>
    let (ok, s') := terminal.run query (s.observe (.calls terminal query))
    run (rest ok) (s'.observe .pause)
  | .atomic (some _) _ _ rest, s => run (rest .err) (s.observe .pause)
  | .atomic none inner cut rest, s =>
    let r := runNestedSavepointAtomic cut (run inner) s
    continue_ r.events (run (rest r.outcome) (r.world.observe .pause))

/-! ## The outermost scope -/

/-- Whether the checkout, `BEGIN`, and a `COMMIT` that is not void, succeed. -/
structure Server where
  connects : Bool
  begins : Bool
  commits : Bool
  deriving DecidableEq, Repr

/-- `&DjogiPool`, or a pool-backed context with its trackers. -/
inductive AtomicScope
  | pool
  | context (parent : AuthState)
  deriving DecidableEq, Repr

/-- `promote_to_context` -/
def AtomicScope.txCtx : AtomicScope → DjogiContext C
  | .pool => fromConnection
  | .context parent =>
    let tx : DjogiContext C := fromConnection
    { tx with authState := { tx.authState with
        auth := parent.auth, tenantScopeSuppressed := parent.tenantScopeSuppressed } }

/-- The context and its transaction when the outermost closure starts. -/
def AtomicScope.start (scope : AtomicScope) : World W C :=
  World.observe .pause { ctx := scope.txCtx, tx := .begin none, seen := [] }

/-- `clear_pool_context_transaction_trackers` -/
def clearTrackers (parent : AuthState) : AuthState :=
  { parent with tenantSet := false, appliedTenantId := none }

/-- `propagate_success_to_parent` -/
def propagateSuccessToParent (tx parent : AuthState) : AuthState :=
  clearTrackers { parent with auth := tx.auth, tenantScopeSuppressed := tx.tenantScopeSuppressed }

def AtomicScope.update (f : AuthState → AuthState) : AtomicScope → AtomicScope
  | .pool => .pool
  | .context parent => .context (f parent)

/-- What the outermost scope leaves: its result, what is durable, the callbacks that were run, and
the context it was opened over. -/
structure Report (W C : Type) where
  outcome : Outcome
  committed : List W
  callbacks : List C
  scope : AtomicScope
  events : List (Event W C)
  seen : List Moment

/-- `commit_in_place`: whether it succeeds, what is durable, and what `drain_on_commit` runs. -/
def commitInPlace (commits : Bool) (s : World W C) : Bool × List W × List C :=
  if s.ctx.transactionPoisoned then (false, [], [])
  else
    let (ok, committed) := s.tx.commit (!commits)
    if ok then (true, committed, s.ctx.onCommit) else (false, [], [])

/-- `run_pool_atomic_inner` and `run_pool_context_atomic` once `BEGIN` is done. A closure that is
dropped takes the connection with it. -/
def endAtomic (scope : AtomicScope) (commits : Bool) (r : Ran W C) : Report W C :=
  match r.outcome with
  | .ok =>
    let (ok, committed, callbacks) := commitInPlace commits r.world
    { outcome := if ok then .ok else .err, committed := committed, callbacks := callbacks,
      scope := scope.update
        (if ok then propagateSuccessToParent r.world.ctx.authState else clearTrackers),
      events := r.events, seen := r.world.seen }
  | .err | .panicked | .cancelled =>
    { outcome := r.outcome, committed := [], callbacks := [], scope := scope.update clearTrackers,
      events := r.events, seen := r.world.seen }

def atomic (scope : AtomicScope) (server : Server) (closure : Closure W C) : Report W C :=
  if !server.connects then
    { outcome := .err, committed := [], callbacks := [], scope := scope, events := [], seen := [] }
  else if !server.begins then
    { outcome := .err, committed := [], callbacks := [], scope := scope.update clearTrackers,
      events := [], seen := [] }
  else endAtomic scope server.commits (run closure scope.start)

end Djogi.Scope

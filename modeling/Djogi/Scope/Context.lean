import Djogi.Lib.Savepoints
import Mathlib.Tactic.Ring

/-!
# The execution context inside a transaction

`context/mod.rs`, `auth/context_ext.rs` and `query/terminal.rs`: the context keeps in memory what
it believes of the transaction (depth, callbacks, poison, the tenant applied), and the queryset
terminals align `app.tenant_id` with the attached auth before they read.

* `DjogiContext`, `AuthState`: the context and its snapshot;
* `World.send`, `World.sendInner`: a statement through the context, and past its poison check;
* `autoSetTenant`: the alignment, of the queried model only;
* `fetchAll`, `first`, `fetchAllPrefetched`, `fetchAllJoined`, `walk`: the terminals.
-/

namespace Djogi.Scope

open Savepoints

/-! ## State -/

/-- What the tenant wiring reads of an `AuthContext`. -/
structure AuthContext where
  tenantId : Option String
  deriving DecidableEq, Repr

/-- `AuthStateSnapshot` -/
structure AuthState where
  auth : Option AuthContext
  appliedTenantId : Option String
  tenantSet : Bool
  tenantScopeSuppressed : Bool
  deriving DecidableEq, Repr

/-- The savepoint depth is a `u32`. -/
def u32Max : Nat := 2 ^ 32 - 1

structure DjogiContext (C : Type) where
  savepointDepth : Nat
  onCommit : List C
  transactionPoisoned : Bool
  authState : AuthState
  deriving DecidableEq, Repr

section Context

variable {C : Type}

/-- `DjogiContext::from_connection` -/
def fromConnection : DjogiContext C :=
  { savepointDepth := 0, onCommit := [], transactionPoisoned := false,
    authState := { auth := none, appliedTenantId := none, tenantSet := false,
                   tenantScopeSuppressed := false } }

def DjogiContext.incrementSavepointDepth (ctx : DjogiContext C) : DjogiContext C :=
  { ctx with savepointDepth := min (ctx.savepointDepth + 1) u32Max }

def DjogiContext.decrementSavepointDepth (ctx : DjogiContext C) : DjogiContext C :=
  { ctx with savepointDepth := ctx.savepointDepth - 1 }

def DjogiContext.poisonTransaction (ctx : DjogiContext C) : DjogiContext C :=
  { ctx with transactionPoisoned := true }

def DjogiContext.truncateOnCommitQueue (ctx : DjogiContext C) (n : Nat) : DjogiContext C :=
  { ctx with onCommit := ctx.onCommit.take n }

def DjogiContext.restoreAuthState (ctx : DjogiContext C) (snapshot : AuthState) :
    DjogiContext C :=
  { ctx with authState := snapshot }

def DjogiContext.setAuth (ctx : DjogiContext C) (auth : AuthContext) : DjogiContext C :=
  { ctx with authState := { ctx.authState with auth := some auth } }

def DjogiContext.setNoTenantScope (ctx : DjogiContext C) : DjogiContext C :=
  { ctx with authState := { ctx.authState with tenantScopeSuppressed := true } }

end Context

/-! ## Queries -/

/-- What the terminals read of a model. -/
structure Model where
  tableName : String
  tenantKey : Option String
  deriving DecidableEq, Repr

/-- How a `SELECT` goes when the server runs it. -/
structure Answer where
  fails : Bool
  rows : Nat
  decodes : Bool
  deriving DecidableEq, Repr

/-- A queryset, and how its statements will go: the setting of the tenant, the emission of the
`SELECT`, the `SELECT`, and one more `SELECT` for each prefetch path. -/
structure Query where
  root : Model
  isEmpty : Bool
  setFails : Bool
  builds : Bool
  joined : List Model
  answer : Answer
  prefetches : List (Model × Answer)
  deriving DecidableEq, Repr

inductive Terminal
  | fetchAll | first | fetchAllPrefetched | fetchAllJoined | walk (edges : Nat)
  deriving DecidableEq, Repr

/-! ## What is observed of a run -/

inductive Observed
  /-- Between two operations of a closure. -/
  | pause
  /-- A terminal starts. -/
  | calls (terminal : Terminal) (query : Query)
  /-- A statement that reads these models is executed. -/
  | reads (models : List Model)
  deriving DecidableEq, Repr

/-- An observation, with the trackers and the value of `app.tenant_id` at that time. -/
structure Moment where
  trackers : AuthState
  setting : Option String
  observed : Observed
  deriving DecidableEq, Repr

/-- The context, its transaction, and what was observed so far. -/
structure World (W C : Type) where
  ctx : DjogiContext C
  tx : Tx W (Option String)
  seen : List Moment
  deriving DecidableEq, Repr

section Terminals

variable {W C : Type}

def World.observe (o : Observed) (s : World W C) : World W C :=
  { s with seen := s.seen ++ [⟨s.ctx.authState, s.tx.setting, o⟩] }

/-! ## Statements -/

/-- A statement on the connection of the context. The server looks at nothing while the
transaction is aborted. -/
def World.sendInner (fails : Bool) (f : Tx W (Option String) → Tx W (Option String))
    (models : List Model) (s : World W C) : Bool × World W C :=
  let s := if s.tx.aborted then s else s.observe (.reads models)
  let (ok, tx) := s.tx.execute fails f
  (ok, { s with tx := tx })

theorem sendInner_of_aborted (fails : Bool) (f : Tx W (Option String) → Tx W (Option String))
    (models : List Model) (s : World W C) (h : s.tx.aborted = true) :
    s.sendInner fails f models = (false, s) := by
  simp [World.sendInner, Tx.execute, h]

theorem sendInner_fails (f : Tx W (Option String) → Tx W (Option String))
    (models : List Model) (s : World W C) (h : s.tx.aborted = false) :
    s.sendInner true f models =
      (false, { s.observe (.reads models) with tx := { s.tx with aborted := true } }) := by
  simp [World.sendInner, World.observe, Tx.execute, h]

theorem sendInner_succeeds (f : Tx W (Option String) → Tx W (Option String))
    (models : List Model) (s : World W C) (h : s.tx.aborted = false) :
    s.sendInner false f models = (true, { s.observe (.reads models) with tx := f s.tx }) := by
  simp [World.sendInner, World.observe, Tx.execute, h]

/-- `query_all`, `query_opt`, `query_one`, `execute` -/
def World.send (fails : Bool) (f : Tx W (Option String) → Tx W (Option String))
    (models : List Model) (s : World W C) : Bool × World W C :=
  if s.ctx.transactionPoisoned then (false, s) else s.sendInner fails f models

theorem send_of_poisoned (fails : Bool) (f : Tx W (Option String) → Tx W (Option String))
    (models : List Model) (s : World W C) (h : s.ctx.transactionPoisoned = true) :
    s.send fails f models = (false, s) := by
  simp [World.send, h]

theorem send_of_healthy (fails : Bool) (f : Tx W (Option String) → Tx W (Option String))
    (models : List Model) (s : World W C) (h : s.ctx.transactionPoisoned = false) :
    s.send fails f models = s.sendInner fails f models := by
  simp [World.send, h]

/-- `?` -/
def andThen (r : Bool × World W C) (f : World W C → Bool × World W C) : Bool × World W C :=
  if r.1 then f r.2 else r

/-! ## The tenant -/

def setTenant (tenantId : String) (fails : Bool) (s : World W C) : Bool × World W C :=
  andThen (s.send fails (·.set (some tenantId)) []) fun s =>
    (true, { s with ctx := { s.ctx with authState :=
      { s.ctx.authState with tenantSet := true, appliedTenantId := some tenantId } } })

def clearTenant (fails : Bool) (s : World W C) : Bool × World W C :=
  andThen (s.send fails (·.set (some "")) []) fun s =>
    (true, { s with ctx := { s.ctx with authState :=
      { s.ctx.authState with tenantSet := false, appliedTenantId := none } } })

def ensureTenantSet (tenantId : String) (fails : Bool) (s : World W C) : Bool × World W C :=
  if s.ctx.authState.appliedTenantId = some tenantId then (true, s)
  else setTenant tenantId fails s

def autoSetTenant (m : Model) (fails : Bool) (s : World W C) : Bool × World W C :=
  match m.tenantKey with
  | none => (true, s)
  | some _ =>
    match s.ctx.authState.auth with
    | none => (true, s)
    | some auth =>
      match auth.tenantId with
      | some tid => ensureTenantSet tid fails s
      | none =>
        if s.ctx.authState.appliedTenantId.isSome then clearTenant fails s else (true, s)

/-! ## Terminals -/

/-- `auto_set_tenant`, the emission, and the main query on these models. -/
def select (q : Query) (models : List Model) (s : World W C) : Bool × World W C :=
  andThen (autoSetTenant q.root q.setFails s) fun s =>
    if q.builds then
      andThen (s.send q.answer.fails id models) fun s => (q.answer.decodes, s)
    else (false, s)

/-- The loaders of `apply_prefetches`, one after the other. They run on the connection itself. -/
def runLoaders (root : Model) : List (Model × Answer) → World W C → Bool × World W C
  | [], s => (true, s)
  | (target, answer) :: rest, s =>
    andThen (s.sendInner answer.fails id [root, target]) fun s =>
      if answer.decodes then runLoaders root rest s else (false, s)

def applyPrefetches (q : Query) (s : World W C) : Bool × World W C :=
  if q.answer.rows = 0 then (true, s) else runLoaders q.root q.prefetches s

def fetchAll (q : Query) (s : World W C) : Bool × World W C :=
  if q.isEmpty then (true, s) else select q [q.root] s

def first (q : Query) (s : World W C) : Bool × World W C :=
  if q.isEmpty then (true, s) else select q [q.root] s

def fetchAllPrefetched (q : Query) (s : World W C) : Bool × World W C :=
  if q.isEmpty then (true, s) else andThen (select q [q.root] s) (applyPrefetches q)

/-- The main query joins the children; `stitch_prefetches_into_joined` runs the loaders. -/
def fetchAllJoined (q : Query) (s : World W C) : Bool × World W C :=
  if q.isEmpty then (true, s)
  else andThen (select q (q.root :: q.joined) s) (applyPrefetches q)

/-- The terminals of a recursive walk: `fetch_all`, `fetch_all_with_paths`, `first`, `count` and
`exists`. `check_edges_present` comes first. -/
def walk (edges : Nat) (q : Query) (s : World W C) : Bool × World W C :=
  if edges = 0 then (false, s) else select q [q.root] s

def Terminal.run : Terminal → Query → World W C → Bool × World W C
  | .fetchAll => Scope.fetchAll
  | .first => Scope.first
  | .fetchAllPrefetched => Scope.fetchAllPrefetched
  | .fetchAllJoined => Scope.fetchAllJoined
  | .walk edges => Scope.walk edges

end Terminals

end Djogi.Scope

import Djogi.Lib.Session
import Djogi.Live.State

/-!
# Chunked backfill

`live_migrate/backfill.rs`: the checks of a backfill step, one chunk as one transaction, and the
loop that drives chunks until the predicate is exhausted. The database may refuse a transaction
and the process may die at any of them.

* `runOneChunk_ok`: what a chunk that commits does;
* `chunkLoop_pending`: each full chunk leaves fewer rows, so the loop ends;
* `chunkLoop_keeps`: the rule of the loop.
-/

namespace Djogi.Live

open Session

/-! ## The database -/

/-- How a statement or transaction goes: a transaction that is refused, or that the process dies
in, leaves nothing. -/
inductive Outcome
  | done
  | refused (reason : String)
  | crashed

/-- How each operation goes, by its number, and the order in which an update comes upon the
rows. -/
structure Env (ρ : Type) where
  outcome : Nat → Outcome
  scan : Nat → List ρ → List ρ
  scan_perm : ∀ n l, (scan n l).Perm l

/-- Why a command ends without a result. -/
inductive Stop (ε : Type)
  | error (e : ε)
  | crash

/-- The row of the plan and, for each backfill statement, the rows that its predicate matches and
those it has transformed. The last fields record what has been done. -/
structure World (ρ : Type) where
  row : LivePlanRow
  pending : String → List ρ
  transformed : String → List ρ
  clock : Nat
  chunkTransactions : Nat
  committed : List Nat
  executed : List Nat

section Operations

variable {ρ ε α : Type}

def World.tick (w : World ρ) : World ρ := { w with clock := w.clock + 1 }

/-- An operation on the database. -/
def act (env : Env ρ) (refused : String → ε) (f : World ρ → World ρ) :
    Run (World ρ) (Stop ε) Unit := fun w =>
  match env.outcome w.clock with
  | .done => (.ok (), (f w).tick)
  | .refused reason => (.error (.error (refused reason)), w.tick)
  | .crashed => (.error .crash, w.tick)

end Operations

/-! ## Checks -/

inductive BackfillError
  | planNotFound (planId : Int)
  | notRunning (planId : Int) (status : String)
  | malformedPredicateTemplate
  | invalidTable (table reason : String)
  | zeroChunkSize
  | database (reason : String)
  | predicateStuck
  deriving DecidableEq, Repr

def BackfillError.toString : BackfillError → String
  | .planNotFound id => "plan " ++ s!"{id}" ++ " not found"
  | .notRunning id status =>
      "plan " ++ s!"{id}" ++ " not in running state (status: " ++ status ++ ")"
  | .malformedPredicateTemplate =>
      "predicate template missing required `LIMIT $1` placeholder"
  | .invalidTable table reason => "invalid table name " ++ table.quote ++ ": " ++ reason
  | .zeroChunkSize => "chunk_size must be greater than zero"
  | .database reason => reason
  | .predicateStuck => "backfill chunk produced 0 rows but predicate did not exhaust"

def isIdentStart (c : Char) : Bool := c.isAlpha || c == '_'

def validateTableIdent (table : String) : Except BackfillError Unit :=
  match table.toList with
  | [] => .error (.invalidTable table "table name must not be empty")
  | first :: rest =>
      if 63 < table.utf8ByteSize then
        .error (.invalidTable table "table name exceeds Postgres's 63-byte identifier limit")
      else if !isIdentStart first then
        .error (.invalidTable table "table name must start with an ASCII letter or underscore")
      else if !rest.all isIdentByte then
        .error (.invalidTable table
          "table name must contain only ASCII alphanumerics and underscores")
      else .ok ()

/-- Every placeholder is `$1`. A `$` that no digit follows is none. -/
def onlyFirstPlaceholder : List Char → Bool
  | [] => true
  | '$' :: c :: rest =>
      if c.isDigit then
        (c == '1' && !(rest.head?.any Char.isDigit)) && onlyFirstPlaceholder rest
      else onlyFirstPlaceholder (c :: rest)
  | _ :: rest => onlyFirstPlaceholder rest

def containsText (text : String) (l : List Char) : Bool :=
  l.tails.any fun t => text.toList.isPrefixOf t

def validatePredicateTemplate (template : String) : Except BackfillError Unit :=
  if containsText "LIMIT $1" template.toList && onlyFirstPlaceholder template.toList then .ok ()
  else .error .malformedPredicateTemplate

/-! ## Chunks -/

def i64Max : Nat := 2 ^ 63 - 1

def u64Max : Nat := 2 ^ 64 - 1

/-- Saturating at what the column can hold. -/
def computeRowsDoneTotal (rowsAlready rowsJustAdded : Nat) : Nat :=
  let raw := min (rowsAlready + rowsJustAdded) u64Max
  if i64Max < raw then i64Max else raw

theorem computeRowsDoneTotal_eq (a b : Nat) : computeRowsDoneTotal a b = min (a + b) i64Max := by
  unfold computeRowsDoneTotal i64Max u64Max
  dsimp only
  split_ifs <;> omega

structure BackfillChunk where
  ordinal : Nat
  rowsAffected : Nat
  rowsDoneTotal : Nat
  deriving DecidableEq, Repr

section Chunks

variable {ρ : Type}

/-- The transaction of a chunk: the update, the progress and, if the predicate is exhausted, the
status. -/
def commitChunk (env : Env ρ) (chunkSql : String) (chunkSize priorRowsDone : Nat) (w : World ρ) :
    World ρ :=
  let found := env.scan w.clock (w.pending chunkSql)
  let affected := min chunkSize (w.pending chunkSql).length
  let row := w.row.updateProgress (computeRowsDoneTotal priorRowsDone affected) w.clock
  { w with
    row := if affected < chunkSize then row.updateStatus .validating else row
    pending := Function.update w.pending chunkSql (found.drop chunkSize)
    transformed :=
      Function.update w.transformed chunkSql (w.transformed chunkSql ++ found.take chunkSize)
    chunkTransactions := w.chunkTransactions + 1 }

/-- The number of rows affected. -/
def runOneChunk (env : Env ρ) (chunkSql : String) (chunkSize priorRowsDone : Nat) :
    Run (World ρ) (Stop BackfillError) Nat := fun w =>
  match act env .database (commitChunk env chunkSql chunkSize priorRowsDone) w with
  | (.ok (), w') => (.ok (min chunkSize (w.pending chunkSql).length), w')
  | (.error e, w') => (.error e, w')

theorem runOneChunk_ok (env : Env ρ) (chunkSql : String) (chunkSize prior : Nat) (w w' : World ρ)
    (n : Nat) (h : runOneChunk env chunkSql chunkSize prior w = (.ok n, w')) :
    n = min chunkSize (w.pending chunkSql).length ∧
      w' = (commitChunk env chunkSql chunkSize prior w).tick := by
  unfold runOneChunk act at h
  cases ho : env.outcome w.clock <;> rw [ho] at h <;> cases h
  exact ⟨rfl, rfl⟩

theorem runOneChunk_error (env : Env ρ) (chunkSql : String) (chunkSize prior : Nat)
    (w w' : World ρ) (e : Stop BackfillError)
    (h : runOneChunk env chunkSql chunkSize prior w = (.error e, w')) : w' = w.tick := by
  unfold runOneChunk act at h
  cases ho : env.outcome w.clock <;> rw [ho] at h <;> cases h <;> rfl

theorem length_pending_commitChunk (env : Env ρ) (chunkSql : String) (chunkSize prior : Nat)
    (w : World ρ) : ((commitChunk env chunkSql chunkSize prior w).pending chunkSql).length =
      (w.pending chunkSql).length - chunkSize := by
  simp [commitChunk, (env.scan_perm _ _).length_eq]

/-- A full chunk leaves fewer rows. -/
theorem chunkLoop_pending (env : Env ρ) (chunkSql : String) (chunkSize prior : Nat)
    (w w' : World ρ) (n : Nat) (h : runOneChunk env chunkSql chunkSize prior w = (.ok n, w'))
    (hn : n ≠ 0) : (w'.pending chunkSql).length < (w.pending chunkSql).length := by
  obtain ⟨rfl, rfl⟩ := runOneChunk_ok env chunkSql chunkSize prior w w' n h
  have hlength := length_pending_commitChunk env chunkSql chunkSize prior w
  show ((commitChunk env chunkSql chunkSize prior w).pending chunkSql).length < _
  omega

def chunkLoop (env : Env ρ) (chunkSql : String) (chunkSize ordinal rowsDoneTotal : Nat)
    (chunks : List BackfillChunk) (w : World ρ) :
    Except (Stop BackfillError) (List BackfillChunk) × World ρ :=
  match h : runOneChunk env chunkSql chunkSize rowsDoneTotal w with
  | (.error e, w') => (.error e, w')
  | (.ok affected, w') =>
      let total := computeRowsDoneTotal rowsDoneTotal affected
      let chunks := chunks ++ [⟨ordinal, affected, total⟩]
      if affected = 0 ∧ ordinal = 1 then (.ok chunks, w')
      else if hz : affected = 0 then (.error (.error .predicateStuck), w')
      else if affected < chunkSize then (.ok chunks, w')
      else chunkLoop env chunkSql chunkSize (ordinal + 1) total chunks w'
termination_by (w.pending chunkSql).length
decreasing_by exact chunkLoop_pending env chunkSql chunkSize rowsDoneTotal w w' affected h hz

theorem chunkLoop_eq (env : Env ρ) (chunkSql : String) (chunkSize ordinal total : Nat)
    (chunks : List BackfillChunk) (w : World ρ) :
    chunkLoop env chunkSql chunkSize ordinal total chunks w =
      match runOneChunk env chunkSql chunkSize total w with
      | (.error e, w') => (.error e, w')
      | (.ok affected, w') =>
          let total' := computeRowsDoneTotal total affected
          let chunks' := chunks ++ [⟨ordinal, affected, total'⟩]
          if affected = 0 ∧ ordinal = 1 then (.ok chunks', w')
          else if affected = 0 then (.error (.error .predicateStuck), w')
          else if affected < chunkSize then (.ok chunks', w')
          else chunkLoop env chunkSql chunkSize (ordinal + 1) total' chunks' w' := by
  rw [chunkLoop]
  split
  next e w' h => rw [h]
  next n w' h =>
    rw [h]
    dsimp only
    split_ifs <;> rfl

/-- **The chunk loop** keeps what every transaction keeps. -/
theorem chunkLoop_keeps (env : Env ρ) (chunkSql : String) (chunkSize : Nat)
    {P : Nat → World ρ → Prop}
    (hcommit : ∀ total w, P total w →
      P (computeRowsDoneTotal total (min chunkSize (w.pending chunkSql).length))
        (commitChunk env chunkSql chunkSize total w).tick)
    (hstop : ∀ total w, P total w → P total w.tick)
    (ordinal total : Nat) (chunks : List BackfillChunk) (w : World ρ) (h : P total w) :
    ∃ total', P total' (chunkLoop env chunkSql chunkSize ordinal total chunks w).2 := by
  induction hn : (w.pending chunkSql).length using Nat.strong_induction_on
    generalizing ordinal total chunks w with
  | _ n ih =>
    subst hn
    rw [chunkLoop_eq]
    cases hrun : runOneChunk env chunkSql chunkSize total w with
    | mk r w' =>
      cases r with
      | error e =>
        have hw' := runOneChunk_error env chunkSql chunkSize total w w' e hrun
        exact ⟨total, hw' ▸ hstop total w h⟩
      | ok affected =>
        obtain ⟨haffected, hw'⟩ := runOneChunk_ok env chunkSql chunkSize total w w' affected hrun
        have hkeep := hcommit total w h
        rw [← haffected, ← hw'] at hkeep
        dsimp only
        split_ifs with hfirst hzero hpart
        · exact ⟨_, hkeep⟩
        · exact ⟨_, hkeep⟩
        · exact ⟨_, hkeep⟩
        · exact ih _ (chunkLoop_pending env chunkSql chunkSize total w w' affected hrun hzero)
            _ _ _ w' hkeep rfl

inductive ResumeFrom
  | initial | persisted
  deriving DecidableEq, Repr

def lookupPlanRow (env : Env ρ) (planId : Int) :
    Run (World ρ) (Stop BackfillError) LivePlanRow := fun w =>
  match act env .database id w with
  | (.error e, w') => (.error e, w')
  | (.ok (), w') =>
      if w.row.planId = planId then (.ok w.row, w')
      else (.error (.error (.planNotFound planId)), w')

def startingRowsDone : ResumeFrom → LivePlanRow → Nat
  | .initial, _ => 0
  | .persisted, row => row.backfillRowsDone.toNat

def chunkSqlOf (table predicateTemplate : String) : String :=
  "UPDATE " ++ table ++ " " ++ predicateTemplate

/-- The row has to be in `running`. -/
def driveChunks (env : Env ρ) (planId : Int) (table predicateTemplate : String) (chunkSize : Nat)
    (resumeFrom : ResumeFrom) : Run (World ρ) (Stop BackfillError) (List BackfillChunk) := fun w =>
  if chunkSize = 0 then (.error (.error .zeroChunkSize), w)
  else
    match validateTableIdent table, validatePredicateTemplate predicateTemplate with
    | .error e, _ => (.error (.error e), w)
    | .ok (), .error e => (.error (.error e), w)
    | .ok (), .ok () =>
        match lookupPlanRow env planId w with
        | (.error e, w') => (.error e, w')
        | (.ok row, w') =>
            if row.status ≠ .running then
              (.error (.error (.notRunning planId row.status.asDbStr)), w')
            else
              chunkLoop env (chunkSqlOf table predicateTemplate) chunkSize 1
                (startingRowsDone resumeFrom row) [] w'

def executeBackfill (env : Env ρ) (planId : Int) (table predicateTemplate : String)
    (chunkSize : Nat) : Run (World ρ) (Stop BackfillError) (List BackfillChunk) :=
  driveChunks env planId table predicateTemplate chunkSize .initial

def resumeBackfill (env : Env ρ) (planId : Int) (table predicateTemplate : String)
    (chunkSize : Nat) : Run (World ρ) (Stop BackfillError) (List BackfillChunk) :=
  driveChunks env planId table predicateTemplate chunkSize .persisted

end Chunks

end Djogi.Live

import Djogi.Live.Rows

/-!
# Daemons

`live_migrate/daemon.rs`: the statements by which daemons share the rows of the ledger, and any
number of daemons that poll, lock, claim, drive, clear and unlock, with the commands of an operator
between them. A daemon may die at any point, and its locks go with it.

* `fleetInv_reachable`: a plan is driven under its lock and its row carries the driver's claim;
* `daemon_claims`: at most one daemon drives a plan, no statement reaches the row of a plan that
  another daemon drives, and which rows a dead daemon leaves behind for good;
* `claim_orphaned`: a daemon that dies between its claim and its clear.
-/

namespace Djogi.Live

open Session

/-! ## Statements -/

structure DaemonCandidate where
  planId : Int
  targetDatabase : String
  appLabel : String
  slug : String
  currentStep : String
  deriving DecidableEq, Repr

/-- `status = 'running' AND current_step IN ('backfill_chunked', 'validate_backfill')`. -/
def autoResumable (r : LivePlanRow) : Bool :=
  r.status = .running &&
    (r.currentStep = some "backfill_chunked" || r.currentStep = some "validate_backfill")

/-- `last_progress_at IS NULL OR last_progress_at < now() - (INTERVAL '1 second' * $1)`. -/
def isStale (now staleSecs : Nat) (r : LivePlanRow) : Bool :=
  match r.lastProgressAt with
  | none => true
  | some t => t + staleSecs < now

def candidateQuery (now staleSecs : Nat) (pid : Int) (r : LivePlanRow) : Bool :=
  autoResumable r &&
    (r.claimedByPid = some pid || (r.claimedByPid = none && isStale now staleSecs r))

def readCandidates (now staleSecs : Nat) (pid : Int) (rows : List LivePlanRow) :
    List DaemonCandidate :=
  (rows.filter (candidateQuery now staleSecs pid)).filterMap fun r =>
    r.currentStep.map fun step => ⟨r.planId, r.targetDatabase, r.appLabel, r.slug, step⟩

def inBucketOf (c : DaemonCandidate) (r : LivePlanRow) : Bool :=
  r.targetDatabase = c.targetDatabase && r.appLabel = c.appLabel && r.planId = c.planId

/-- The condition of the claim asserts the status and the step again. -/
def claimMatches (c : DaemonCandidate) (r : LivePlanRow) : Bool := inBucketOf c r && autoResumable r

def LivePlanRow.claim (r : LivePlanRow) (pid : Int) (host : String) (now : Nat) : LivePlanRow :=
  { r with claimedByPid := some pid, claimedByHost := some host, claimedAt := some now }

def LivePlanRow.unclaim (r : LivePlanRow) : LivePlanRow :=
  { r with claimedByPid := none, claimedByHost := none, claimedAt := none }

/-- An `UPDATE` with its condition. -/
def updateRows (matches_ : LivePlanRow → Bool) (f : LivePlanRow → LivePlanRow)
    (rows : List LivePlanRow) : List LivePlanRow :=
  rows.map fun r => if matches_ r then f r else r

/-- Whether the row was claimed, and the rows after the statement. -/
def recordClaim (pid : Int) (host : String) (now : Nat) (c : DaemonCandidate)
    (rows : List LivePlanRow) : Bool × List LivePlanRow :=
  ((rows.filter (claimMatches c)).length = 1,
    updateRows (claimMatches c) (fun r => r.claim pid host now) rows)

def clearClaim (c : DaemonCandidate) (rows : List LivePlanRow) : List LivePlanRow :=
  updateRows (inBucketOf c) LivePlanRow.unclaim rows

/-! ## Resuming a candidate -/

inductive ExtractResult
  | params (table filter : String) (batchSize : Int)
  | notBackfillChunked
  | malformed (reason : String)
  deriving DecidableEq, Repr

/-- The parameters of the first backfill step. -/
def extractBackfillParams : List Step → ExtractResult
  | [] => .notBackfillChunked
  | step :: rest =>
      if step.kind = .backfillChunked then
        match step.parameters with
        | .backfillChunked table predicateTemplate chunkSize =>
            .params table predicateTemplate chunkSize
        | parameters => .malformed ("step kind is BackfillChunked but parameters are " ++
            parameters.kind.debug)
      else extractBackfillParams rest

inductive DaemonError
  | database (reason : String)
  | backfill (e : BackfillError)
  deriving DecidableEq, Repr

def chunkSizeFromBatchSize (batchSize : Int) : Except DaemonError Nat :=
  if 0 ≤ batchSize ∧ batchSize ≤ u32Max then .ok batchSize.toNat
  else .error (.database ("resume_backfill: batch_size (" ++ s!"{batchSize}" ++ ") overflows u32"))

section Resume

variable {ρ : Type} (env : Env ρ) (plan : LivePlan) (c : DaemonCandidate)

def daemonFailure : BackfillError → DaemonError
  | .database reason => .database reason
  | other => .backfill other

/-- An error does not matter, and a crash does. -/
def attempt {ε : Type} (m : Run (World ρ) (Stop ε) Unit) : Run (World ρ) (Stop ε) Unit := fun w =>
  match m w with
  | (.error (.error _), w') => (.ok (), w')
  | r => r

/-- What comes after, unless the process is dead. -/
def andThen {ε : Type} (m after : Run (World ρ) (Stop ε) Unit) : Run (World ρ) (Stop ε) Unit :=
  fun w =>
    match m w with
    | (.ok (), w') => after w'
    | (.error .crash, w') => (.error .crash, w')
    | (.error e, w') => (do after; fail e : Run (World ρ) (Stop ε) Unit) w'

/-- A failure is recorded as one to retry. -/
def resumeBackfillForCandidate : Run (World ρ) (Stop DaemonError) Unit :=
  match extractBackfillParams plan.steps with
  | .notBackfillChunked =>
      fail (.error (.database "plan has no BackfillChunked step to resume"))
  | .malformed reason => fail (.error (.database ("malformed backfill step: " ++ reason)))
  | .params table filter batchSize =>
      match chunkSizeFromBatchSize batchSize with
      | .error e => fail (.error e)
      | .ok chunkSize => fun w =>
          match resumeBackfill env c.planId table filter chunkSize w with
          | (.ok _, w') => (.ok (), w')
          | (.error .crash, w') => (.error .crash, w')
          | (.error (.error e), w') =>
              (do
                attempt (act env DaemonError.database (World.setRow fun r =>
                  r.recordFailure ("daemon backfill resume failed: " ++ e.toString) true))
                fail (.error (daemonFailure e)) : Run (World ρ) (Stop DaemonError) Unit) w'

/-- Claim, drive and clear, with the lock held. -/
def driveUnderLock (pid : Int) (host : String) : Run (World ρ) (Stop DaemonError) Unit := fun w =>
  if claimMatches c w.row then
    (do
      act env DaemonError.database fun w => w.setRow fun r => r.claim pid host w.clock
      andThen
        (if c.currentStep = "backfill_chunked" then resumeBackfillForCandidate env plan c
          else pure ())
        (attempt (act env DaemonError.database (World.setRow LivePlanRow.unclaim))) :
        Run (World ρ) (Stop DaemonError) Unit) w
  else act env DaemonError.database id w

theorem keeps_attempt {ε : Type} {Q : LivePlanRow → Prop} (m : Run (World ρ) (Stop ε) Unit)
    (hm : Keeps Q m) : Keeps Q (attempt m) := by
  intro w hw
  have h := hm w hw
  unfold attempt
  cases hr : m w with
  | mk r w' =>
    rw [hr] at h
    cases r with
    | ok u => exact h
    | error e => cases e <;> exact h

/-- What a daemon drives, it changes as a command does. -/
theorem keeps_resumeBackfillForCandidate {Q : LivePlanRow → Prop} (hQ : KeptByUpdates Q) :
    Keeps Q (resumeBackfillForCandidate env plan c) := by
  unfold resumeBackfillForCandidate
  cases extractBackfillParams plan.steps with
  | notBackfillChunked => exact .fail _ fun _ h => h
  | malformed reason => exact .fail _ fun _ h => h
  | params table filter batchSize =>
    dsimp only
    cases chunkSizeFromBatchSize batchSize with
    | error e => exact .fail _ fun _ h => h
    | ok chunkSize =>
      intro w hw
      have hrun := keeps_driveChunks env hQ c.planId table filter chunkSize .persisted w hw
      cases hr : driveChunks env c.planId table filter chunkSize .persisted w with
      | mk r w' =>
        rw [hr] at hrun
        simp only [resumeBackfill, hr]
        cases r with
        | ok chunks => exact hrun
        | error e =>
          cases e with
          | crash => exact hrun
          | error e =>
            exact Meets.bind (keeps_attempt _ (keeps_act env _ _ fun w h => hQ.failure w.row _ _ h))
              (fun _ => Meets.fail _ fun _ h => h) w' hrun

theorem keeps_andThen {ε : Type} {Q : LivePlanRow → Prop} (m after : Run (World ρ) (Stop ε) Unit)
    (hm : Keeps Q m) (hafter : Keeps Q after) : Keeps Q (andThen m after) := by
  intro w hw
  have h := hm w hw
  unfold andThen
  cases hr : m w with
  | mk r w' =>
    rw [hr] at h
    cases r with
    | ok u => exact hafter w' h
    | error e =>
      cases e with
      | crash => exact h
      | error e => exact Meets.bind hafter (fun _ => Meets.fail _ fun _ h => h) w' h

theorem keeps_driveUnderLock {Q : LivePlanRow → Prop} (hQ : KeptByUpdates Q)
    (hclaim : ∀ r pid host now, Q r → Q (r.claim pid host now)) (hunclaim : ∀ r, Q r → Q r.unclaim)
    (pid : Int) (host : String) : Keeps Q (driveUnderLock env plan c pid host) := by
  intro w hw
  unfold driveUnderLock
  split_ifs with hmatches hstep
  · exact Meets.bind (keeps_act env _ _ fun w h => hclaim w.row _ _ _ h) (fun _ =>
      keeps_andThen _ _ (keeps_resumeBackfillForCandidate env plan c hQ)
        (keeps_attempt _ (keeps_act env _ _ fun w h => hunclaim w.row h))) w hw
  · exact Meets.bind (keeps_act env _ _ fun w h => hclaim w.row _ _ _ h) (fun _ =>
      keeps_andThen _ _ (.pure _ fun _ h => h)
        (keeps_attempt _ (keeps_act env _ _ fun w h => hunclaim w.row h))) w hw
  · exact keeps_act env _ _ (fun _ h => h) w hw

end Resume

/-! ## Daemons at work -/

/-- Where a daemon is in its poll. -/
inductive Phase
  | idle
  | polled (queue : List DaemonCandidate)
  | locked (c : DaemonCandidate) (queue : List DaemonCandidate)
  | driving (c : DaemonCandidate) (queue : List DaemonCandidate)
  | releasing (c : DaemonCandidate) (queue : List DaemonCandidate)
  | dead
  deriving DecidableEq, Repr

/-- The plan whose lock the daemon holds. -/
def Phase.holds : Phase → Option Int
  | .locked c _ | .driving c _ | .releasing c _ => some c.planId
  | _ => none

/-- The ledger, the advisory locks by plan and the daemons by process. -/
structure Fleet where
  now : Nat
  rows : List LivePlanRow
  lock : Int → Option Int
  phase : Int → Phase

namespace Fleet

def setPhase (s : Fleet) (d : Int) (p : Phase) : Fleet :=
  { s with phase := Function.update s.phase d p }

/-- No row is claimed and no daemon has polled. -/
def start (rows : List LivePlanRow) : Fleet := ⟨0, rows, fun _ => none, fun _ => .idle⟩

end Fleet

/-- A step of a daemon, of an operator or of time. -/
inductive FleetStep (staleSecs : Nat) (host : Int → String) : Fleet → Fleet → Prop
  | time (s : Fleet) : FleetStep staleSecs host s { s with now := s.now + 1 }
  | poll (s : Fleet) (d : Int) : s.phase d = .idle → FleetStep staleSecs host s
      (s.setPhase d (.polled (readCandidates s.now staleSecs d s.rows)))
  | rest (s : Fleet) (d : Int) : s.phase d = .polled [] →
      FleetStep staleSecs host s (s.setPhase d .idle)
  | busy (s : Fleet) (d : Int) (c : DaemonCandidate) (queue : List DaemonCandidate) :
      s.phase d = .polled (c :: queue) → s.lock c.planId ≠ none →
      FleetStep staleSecs host s (s.setPhase d (.polled queue))
  | acquire (s : Fleet) (d : Int) (c : DaemonCandidate) (queue : List DaemonCandidate) :
      s.phase d = .polled (c :: queue) → s.lock c.planId = none →
      FleetStep staleSecs host s
        { s.setPhase d (.locked c queue) with
          lock := Function.update s.lock c.planId (some d) }
  | claim (s : Fleet) (d : Int) (c : DaemonCandidate) (queue : List DaemonCandidate) :
      s.phase d = .locked c queue →
      FleetStep staleSecs host s
        { s.setPhase d (if (recordClaim d (host d) s.now c s.rows).1 then .driving c queue
            else .releasing c queue) with
          rows := (recordClaim d (host d) s.now c s.rows).2 }
  | claimFailed (s : Fleet) (d : Int) (c : DaemonCandidate) (queue : List DaemonCandidate) :
      s.phase d = .locked c queue → FleetStep staleSecs host s (s.setPhase d (.releasing c queue))
  | drive (s : Fleet) (d : Int) (c : DaemonCandidate) (queue : List DaemonCandidate)
      (f : LivePlanRow → LivePlanRow) : s.phase d = .driving c queue →
      (∀ r, SameOwner r (f r)) →
      FleetStep staleSecs host s { s with rows := updateRows (inBucketOf c) f s.rows }
  | clear (s : Fleet) (d : Int) (c : DaemonCandidate) (queue : List DaemonCandidate) :
      s.phase d = .driving c queue →
      FleetStep staleSecs host s
        { s.setPhase d (.releasing c queue) with rows := clearClaim c s.rows }
  | clearFailed (s : Fleet) (d : Int) (c : DaemonCandidate) (queue : List DaemonCandidate) :
      s.phase d = .driving c queue → FleetStep staleSecs host s (s.setPhase d (.releasing c queue))
  | unlock (s : Fleet) (d : Int) (c : DaemonCandidate) (queue : List DaemonCandidate) :
      s.phase d = .releasing c queue →
      FleetStep staleSecs host s
        { s.setPhase d (.polled queue) with lock := Function.update s.lock c.planId none }
  | die (s : Fleet) (d : Int) : s.phase d ≠ .dead →
      FleetStep staleSecs host s
        { s.setPhase d .dead with
          lock := fun p => if s.lock p = some d then none else s.lock p }
  | command (s : Fleet) (matches_ : LivePlanRow → Bool) (f : LivePlanRow → LivePlanRow) :
      (∀ r, SameOwner r (f r)) →
      FleetStep staleSecs host s { s with rows := updateRows matches_ f s.rows }
  | insert (s : Fleet) (h : PlanHeader) : (∀ r ∈ s.rows, r.planId ≠ h.planId) →
      FleetStep staleSecs host s { s with rows := s.rows ++ [.fresh h] }

/-! ## What holds throughout -/

theorem mem_updateRows (matches_ : LivePlanRow → Bool) (f : LivePlanRow → LivePlanRow)
    (rows : List LivePlanRow) (r' : LivePlanRow) : r' ∈ updateRows matches_ f rows ↔
      ∃ r ∈ rows, (matches_ r = true ∧ r' = f r) ∨ (matches_ r = false ∧ r' = r) := by
  unfold updateRows
  rw [List.mem_map]
  refine exists_congr fun r => and_congr_right fun _ => ?_
  cases matches_ r <;> simp [eq_comm]

theorem planId_updateRows (matches_ : LivePlanRow → Bool) (f : LivePlanRow → LivePlanRow)
    (rows : List LivePlanRow) (hf : ∀ r, (f r).planId = r.planId) :
    (updateRows matches_ f rows).map LivePlanRow.planId = rows.map LivePlanRow.planId := by
  unfold updateRows
  rw [List.map_map]
  refine List.map_congr_left fun r _ => ?_
  show (if matches_ r then f r else r).planId = _
  split_ifs
  · exact hf r
  · rfl

/-- **The lock** of a plan is held by the daemon that works on it. -/
structure FleetInv (s : Fleet) : Prop where
  keys : (s.rows.map LivePlanRow.planId).Nodup
  lock : ∀ d p, (s.phase d).holds = some p ↔ s.lock p = some d
  claimed : ∀ d c queue, s.phase d = .driving c queue →
    ∃ r ∈ s.rows, r.planId = c.planId ∧ r.claimedByPid = some d

theorem fleetInv_start (rows : List LivePlanRow) (h : (rows.map LivePlanRow.planId).Nodup) :
    FleetInv (.start rows) where
  keys := h
  lock _ _ := by simp [Fleet.start, Phase.holds]
  claimed _ _ _ h := nomatch h

theorem phase_setPhase (s : Fleet) (d d' : Int) (p : Phase) :
    (s.setPhase d p).phase d' = if d' = d then p else s.phase d' :=
  Function.update_apply s.phase d p d'

/-- A daemon that goes on without taking or giving back a lock. -/
theorem holds_setPhase (s : Fleet) (d d' : Int) (p : Phase) (h : p.holds = (s.phase d).holds) :
    ((s.setPhase d p).phase d').holds = (s.phase d').holds := by
  rw [phase_setPhase]
  split_ifs with hd
  · rw [hd, h]
  · rfl

theorem keys_updateRows (s : Fleet) (h : FleetInv s) (matches_ : LivePlanRow → Bool)
    (f : LivePlanRow → LivePlanRow) (hf : ∀ r, (f r).planId = r.planId) :
    ((updateRows matches_ f s.rows).map LivePlanRow.planId).Nodup := by
  rw [planId_updateRows matches_ f s.rows hf]
  exact h.keys

/-- A row that an update does not reach, or whose claim it keeps. -/
theorem claimed_updateRows (rows : List LivePlanRow) (matches_ : LivePlanRow → Bool)
    (f : LivePlanRow → LivePlanRow) (p d : Int)
    (hf : ∀ r, r.planId = p → matches_ r = true →
      (f r).planId = p ∧ (f r).claimedByPid = r.claimedByPid)
    (h : ∃ r ∈ rows, r.planId = p ∧ r.claimedByPid = some d) :
    ∃ r ∈ updateRows matches_ f rows, r.planId = p ∧ r.claimedByPid = some d := by
  obtain ⟨r, hr, hp, hd⟩ := h
  cases hm : matches_ r with
  | true =>
    obtain ⟨hp', hd'⟩ := hf r hp hm
    exact ⟨f r, (mem_updateRows ..).mpr ⟨r, hr, .inl ⟨hm, rfl⟩⟩, hp', hd'.trans hd⟩
  | false => exact ⟨r, (mem_updateRows ..).mpr ⟨r, hr, .inr ⟨hm, rfl⟩⟩, hp, hd⟩

/-- Two daemons that drive the same plan are one. -/
theorem FleetInv.exclusive (s : Fleet) (h : FleetInv s) (d d' p : Int)
    (hd : (s.phase d).holds = some p) (hd' : (s.phase d').holds = some p) : d = d' := by
  have hlock := (h.lock d p).mp hd
  rw [(h.lock d' p).mp hd'] at hlock
  exact (Option.some.inj hlock).symm

theorem planId_of_inBucketOf (c : DaemonCandidate) (r : LivePlanRow) (h : inBucketOf c r = true) :
    r.planId = c.planId := by
  unfold inBucketOf at h
  simp only [Bool.and_eq_true, decide_eq_true_eq] at h
  exact h.2

theorem inBucketOf_of_claimMatches (c : DaemonCandidate) (r : LivePlanRow)
    (h : claimMatches c r = true) : inBucketOf c r = true := by
  unfold claimMatches at h
  rw [Bool.and_eq_true] at h
  exact h.1

/-- The claim of one daemon does not reach the row of a plan that another one drives. -/
theorem FleetInv.out_of_reach (s : Fleet) (h : FleetInv s) (d d' : Int) (c c' : DaemonCandidate)
    (hne : d' ≠ d) (hd : (s.phase d).holds = some c.planId)
    (hd' : (s.phase d').holds = some c'.planId) (r : LivePlanRow) (hr : r.planId = c'.planId) :
    inBucketOf c r = false := by
  cases hm : inBucketOf c r with
  | false => rfl
  | true =>
    have hsame := (planId_of_inBucketOf c r hm).symm.trans hr
    rw [hsame] at hd
    exact absurd (h.exclusive s d' d _ hd' hd) hne

section Steps

variable {staleSecs : Nat} {host : Int → String}

/-- A step that takes and gives back no lock, starts no drive and keeps the claims. -/
theorem FleetInv.quiet (s s' : Fleet) (h : FleetInv s)
    (hkeys : (s'.rows.map LivePlanRow.planId).Nodup) (hlock : s'.lock = s.lock)
    (hholds : ∀ d, (s'.phase d).holds = (s.phase d).holds)
    (hclaimed : ∀ d c queue, s'.phase d = .driving c queue →
      ∃ r ∈ s'.rows, r.planId = c.planId ∧ r.claimedByPid = some d) : FleetInv s' :=
  ⟨hkeys, fun d p => by rw [hholds, hlock]; exact h.lock d p, hclaimed⟩

/-- The drives that a daemon's own move leaves. -/
theorem driving_setPhase (s : Fleet) (d d' : Int) (p : Phase) (c : DaemonCandidate)
    (queue : List DaemonCandidate) (hp : ∀ c queue, p ≠ .driving c queue)
    (h : (s.setPhase d p).phase d' = .driving c queue) :
    d' ≠ d ∧ s.phase d' = .driving c queue := by
  rw [phase_setPhase] at h
  split_ifs at h with hd
  · exact absurd h (hp c queue)
  · exact ⟨hd, h⟩

/-- A move of one daemon that takes and gives back no lock. -/
theorem FleetInv.move (s : Fleet) (h : FleetInv s) (d : Int) (p : Phase)
    (hholds : p.holds = (s.phase d).holds) (hp : ∀ c queue, p ≠ .driving c queue) :
    FleetInv (s.setPhase d p) :=
  h.quiet _ _ h.keys rfl (fun d' => holds_setPhase s d d' p hholds) fun d' c queue hdrive =>
    h.claimed d' c queue (driving_setPhase s d d' p c queue hp hdrive).2

/-- A change of rows that keeps their claims. -/
theorem FleetInv.change (s : Fleet) (h : FleetInv s) (matches_ : LivePlanRow → Bool)
    (f : LivePlanRow → LivePlanRow) (hf : ∀ r, SameOwner r (f r)) :
    FleetInv { s with rows := updateRows matches_ f s.rows } :=
  h.quiet _ _ (keys_updateRows s h _ f fun r => (hf r).planId) rfl (fun _ => rfl)
    fun d' c' queue hdrive => claimed_updateRows _ _ f _ _
      (fun r hr _ => ⟨(hf r).planId.trans hr, (hf r).claimedByPid⟩) (h.claimed d' c' queue hdrive)

/-- A claim that went through is on the row. -/
theorem claimed_recordClaim (s : Fleet) (d : Int) (c : DaemonCandidate)
    (hclaim : (recordClaim d (host d) s.now c s.rows).1 = true) :
    ∃ r ∈ (recordClaim d (host d) s.now c s.rows).2,
      r.planId = c.planId ∧ r.claimedByPid = some d := by
  have hone : (s.rows.filter (claimMatches c)).length = 1 := of_decide_eq_true hclaim
  obtain ⟨r, hr⟩ := List.length_eq_one_iff.mp hone
  have hmem : r ∈ s.rows.filter (claimMatches c) := by
    rw [hr]
    exact List.mem_singleton.mpr rfl
  obtain ⟨hrow, hm⟩ := List.mem_filter.mp hmem
  exact ⟨_, (mem_updateRows ..).mpr ⟨r, hrow, .inl ⟨hm, rfl⟩⟩,
    planId_of_inBucketOf c r (inBucketOf_of_claimMatches c r hm), rfl⟩

/-- **A claim.** -/
theorem FleetInv.claim (s : Fleet) (h : FleetInv s) (d : Int) (c : DaemonCandidate)
    (queue : List DaemonCandidate) (hd : s.phase d = .locked c queue) :
    FleetInv { s.setPhase d (if (recordClaim d (host d) s.now c s.rows).1 then .driving c queue
        else .releasing c queue) with rows := (recordClaim d (host d) s.now c s.rows).2 } := by
  refine h.quiet _ _ (keys_updateRows s h _ _ fun _ => rfl) rfl (fun d' => ?_)
    fun d' c' queue' hdrive => ?_
  · refine holds_setPhase s d d' _ ?_
    rw [hd]
    split_ifs <;> rfl
  · change (s.setPhase d _).phase d' = _ at hdrive
    rw [phase_setPhase] at hdrive
    split_ifs at hdrive with hsame hclaim
    · obtain ⟨rfl, rfl⟩ := Phase.driving.inj hdrive
      rw [hsame]
      exact claimed_recordClaim s d c hclaim
    · refine claimed_updateRows _ _ _ _ _ (fun r hr hm => ?_) (h.claimed d' c' queue' hdrive)
      have hreach := h.out_of_reach s d d' c c' hsame (by rw [hd]; rfl) (by rw [hdrive]; rfl) r hr
      rw [inBucketOf_of_claimMatches c r hm] at hreach
      cases hreach

/-- **A clear.** -/
theorem FleetInv.clear (s : Fleet) (h : FleetInv s) (d : Int) (c : DaemonCandidate)
    (queue : List DaemonCandidate) (hd : s.phase d = .driving c queue) :
    FleetInv { s.setPhase d (.releasing c queue) with rows := clearClaim c s.rows } := by
  refine h.quiet _ _ (keys_updateRows s h _ _ fun _ => rfl) rfl
    (fun d' => holds_setPhase s d d' _ (by rw [hd]; rfl)) fun d' c' queue' hdrive => ?_
  obtain ⟨hne, hdrive⟩ :=
    driving_setPhase s d d' (.releasing c queue) c' queue' (fun _ _ => nofun) hdrive
  refine claimed_updateRows _ _ _ _ _ (fun r hr hm => ?_) (h.claimed d' c' queue' hdrive)
  have hreach := h.out_of_reach s d d' c c' hne (by rw [hd]; rfl) (by rw [hdrive]; rfl) r hr
  rw [hm] at hreach
  cases hreach

/-- **A lock** is taken. -/
theorem FleetInv.acquire (s : Fleet) (h : FleetInv s) (d : Int) (c : DaemonCandidate)
    (queue : List DaemonCandidate) (hd : s.phase d = .polled (c :: queue))
    (hfree : s.lock c.planId = none) :
    FleetInv { s.setPhase d (.locked c queue) with
      lock := Function.update s.lock c.planId (some d) } := by
  refine ⟨h.keys, fun d' p => ?_, fun d' c' queue' hdrive =>
    h.claimed d' c' queue'
      (driving_setPhase s d d' (.locked c queue) c' queue' (fun _ _ => nofun) hdrive).2⟩
  show ((s.setPhase d _).phase d').holds = some p ↔ Function.update s.lock c.planId (some d) p = _
  rw [phase_setPhase, Function.update_apply]
  have hlock := h.lock d' p
  by_cases hsame : d' = d
  · subst hsame
    rw [hd] at hlock
    rw [if_pos rfl]
    by_cases hp : p = c.planId
    · simp [Phase.holds, hp]
    · rw [if_neg hp, ← hlock]
      simp [Phase.holds, Ne.symm hp]
  · rw [if_neg hsame]
    by_cases hp : p = c.planId
    · subst hp
      rw [hlock, hfree, if_pos rfl]
      simp [Ne.symm hsame]
    · rw [if_neg hp, hlock]

/-- **A lock** is given back. -/
theorem FleetInv.unlock (s : Fleet) (h : FleetInv s) (d : Int) (c : DaemonCandidate)
    (queue : List DaemonCandidate) (hd : s.phase d = .releasing c queue) :
    FleetInv { s.setPhase d (.polled queue) with
      lock := Function.update s.lock c.planId none } := by
  refine ⟨h.keys, fun d' p => ?_, fun d' c' queue' hdrive =>
    h.claimed d' c' queue'
      (driving_setPhase s d d' (.polled queue) c' queue' (fun _ _ => nofun) hdrive).2⟩
  show ((s.setPhase d _).phase d').holds = some p ↔ Function.update s.lock c.planId none p = _
  rw [phase_setPhase, Function.update_apply]
  have hlock := h.lock d' p
  have hheld := h.lock d c.planId
  rw [hd] at hheld
  by_cases hsame : d' = d
  · subst hsame
    rw [hd] at hlock
    rw [if_pos rfl]
    by_cases hp : p = c.planId
    · simp [Phase.holds, hp]
    · rw [if_neg hp, ← hlock]
      simp [Phase.holds, Ne.symm hp]
  · rw [if_neg hsame, hlock]
    by_cases hp : p = c.planId
    · subst hp
      rw [hheld.mp rfl, if_pos rfl]
      simp [Ne.symm hsame]
    · rw [if_neg hp]

/-- **A death** gives every lock back. -/
theorem FleetInv.die (s : Fleet) (h : FleetInv s) (d : Int) :
    FleetInv { s.setPhase d .dead with
      lock := fun p => if s.lock p = some d then none else s.lock p } := by
  refine ⟨h.keys, fun d' p => ?_, fun d' c' queue' hdrive =>
    h.claimed d' c' queue'
      (driving_setPhase s d d' Phase.dead c' queue' (fun _ _ => nofun) hdrive).2⟩
  show ((s.setPhase d _).phase d').holds = some p ↔ (if _ then none else s.lock p) = some d'
  rw [phase_setPhase]
  by_cases hsame : d' = d
  · subst hsame
    rw [if_pos rfl]
    split_ifs with hlock
    · simp [Phase.holds]
    · simp [Phase.holds, hlock]
  · rw [if_neg hsame, h.lock d' p]
    split_ifs with hlock
    · rw [hlock]
      simp [Ne.symm hsame]
    · rfl

/-- **Every step** keeps the invariant. -/
theorem fleetInv_step (s s' : Fleet) (hstep : FleetStep staleSecs host s s') (h : FleetInv s) :
    FleetInv s' := by
  cases hstep with
  | time => exact ⟨h.keys, h.lock, h.claimed⟩
  | poll d hd => exact h.move s d _ (by rw [hd]; rfl) fun _ _ => nofun
  | rest d hd => exact h.move s d _ (by rw [hd]; rfl) fun _ _ => nofun
  | busy d c queue hd hlock => exact h.move s d _ (by rw [hd]; rfl) fun _ _ => nofun
  | claimFailed d c queue hd => exact h.move s d _ (by rw [hd]; rfl) fun _ _ => nofun
  | clearFailed d c queue hd => exact h.move s d _ (by rw [hd]; rfl) fun _ _ => nofun
  | drive d c queue f hd hf => exact h.change s _ f hf
  | command matches_ f hf => exact h.change s matches_ f hf
  | claim d c queue hd => exact h.claim s d c queue hd
  | clear d c queue hd => exact h.clear s d c queue hd
  | acquire d c queue hd hfree => exact h.acquire s d c queue hd hfree
  | unlock d c queue hd => exact h.unlock s d c queue hd
  | die d hd => exact h.die s d
  | insert header hfresh =>
    refine h.quiet _ _ ?_ rfl (fun _ => rfl) fun d c queue hdrive => ?_
    · rw [List.map_append]
      refine List.nodup_append.mpr ⟨h.keys, by simp, ?_⟩
      intro p hp p' hp' heq
      obtain ⟨r, hr, rfl⟩ := List.mem_map.mp hp
      obtain rfl := List.mem_singleton.mp hp'
      exact hfresh r hr heq
    · obtain ⟨r, hr, hclaim⟩ := h.claimed d c queue hdrive
      exact ⟨r, List.mem_append_left _ hr, hclaim⟩

theorem fleetInv_reachable (rows : List LivePlanRow)
    (hkeys : (rows.map LivePlanRow.planId).Nodup) (s : Fleet)
    (h : Relation.ReflTransGen (FleetStep staleSecs host) (.start rows) s) : FleetInv s := by
  induction h with
  | refl => exact fleetInv_start rows hkeys
  | tail _ hstep ih => exact fleetInv_step _ _ hstep ih

end Steps

/-! ## Claims of the dead -/

/-- A row to resume, stale, that a dead daemon has claimed. -/
def Orphan (staleSecs : Nat) (s : Fleet) (r : LivePlanRow) : Prop :=
  autoResumable r = true ∧ isStale s.now staleSecs r = true ∧
    ∃ d, r.claimedByPid = some d ∧ s.phase d = .dead

/-- Every live daemon would find the rows that the dead ones have left. -/
def OrphansFound (staleSecs : Nat) (s : Fleet) : Prop :=
  ∀ r ∈ s.rows, Orphan staleSecs s r →
    ∀ d, s.phase d ≠ .dead → candidateQuery s.now staleSecs d r = true

/-- A step in which no daemon dies whose claim is on a row. -/
def Orderly (staleSecs : Nat) (host : Int → String) (s s' : Fleet) : Prop :=
  FleetStep staleSecs host s s' ∧ ∀ d, s.phase d ≠ .dead → s'.phase d = .dead →
    ∀ r ∈ s.rows, r.claimedByPid ≠ some d

theorem orderly_reaches {staleSecs : Nat} {host : Int → String} {s s' : Fleet}
    (h : Relation.ReflTransGen (Orderly staleSecs host) s s') :
    Relation.ReflTransGen (FleetStep staleSecs host) s s' := by
  induction h with
  | refl => exact .refl
  | tail _ hstep ih => exact ih.tail hstep.1

/-- A dead daemon's row is no candidate of a live one. -/
theorem orphan_not_candidate (staleSecs : Nat) (s : Fleet) (r : LivePlanRow)
    (h : Orphan staleSecs s r) (d : Int) (hd : s.phase d ≠ .dead) :
    candidateQuery s.now staleSecs d r = false := by
  obtain ⟨-, -, d', hclaim, hdead⟩ := h
  have hne : d' ≠ d := by
    rintro rfl
    exact hd hdead
  simp [candidateQuery, hclaim, hne]

theorem orphansFound_iff (staleSecs : Nat) (s : Fleet) : OrphansFound staleSecs s ↔
    (∀ d, s.phase d = .dead) ∨ ∀ r ∈ s.rows, ¬Orphan staleSecs s r := by
  constructor
  · intro h
    by_contra hnot
    obtain ⟨hlive, hleft⟩ := not_or.mp hnot
    obtain ⟨d, hd⟩ := not_forall.mp hlive
    obtain ⟨r, hleft⟩ := not_forall.mp hleft
    obtain ⟨hr, horphan⟩ := Classical.not_imp.mp hleft
    replace horphan := Classical.not_not.mp horphan
    have hfound := h r hr horphan d hd
    rw [orphan_not_candidate staleSecs s r horphan d hd] at hfound
    cases hfound
  · rintro (hdead | hnone) r hr horphan d hd
    · exact absurd (hdead d) hd
    · exact absurd horphan (hnone r hr)

/-- The claim on a row is a live daemon's. -/
def ClaimsAlive (s : Fleet) : Prop :=
  ∀ r ∈ s.rows, ∀ d, r.claimedByPid = some d → s.phase d ≠ .dead

/-- A change that keeps claims. -/
theorem claimedBy_updateRows (matches_ : LivePlanRow → Bool) (f : LivePlanRow → LivePlanRow)
    (rows : List LivePlanRow) (d : Int)
    (hf : ∀ r, (f r).claimedByPid = some d → r.claimedByPid = some d) (r' : LivePlanRow)
    (hr' : r' ∈ updateRows matches_ f rows) (hd : r'.claimedByPid = some d) :
    ∃ r ∈ rows, r.claimedByPid = some d := by
  obtain ⟨r, hr, ⟨-, rfl⟩ | ⟨-, rfl⟩⟩ := (mem_updateRows ..).mp hr'
  · exact ⟨r, hr, hf r hd⟩
  · exact ⟨r', hr, hd⟩

/-- Whoever is on a row after a step was on one before, or has just claimed it. -/
theorem claimedBy_step (staleSecs : Nat) (host : Int → String) (s s' : Fleet)
    (hstep : FleetStep staleSecs host s s') (r' : LivePlanRow) (hr' : r' ∈ s'.rows) (d : Int)
    (hd : r'.claimedByPid = some d) :
    (∃ r ∈ s.rows, r.claimedByPid = some d) ∨ s'.phase d ≠ .dead := by
  cases hstep with
  | time | poll _ _ | rest _ _ | busy _ _ _ _ _ | acquire _ _ _ _ _ | claimFailed _ _ _ _
  | clearFailed _ _ _ _ | unlock _ _ _ _ | die _ _ => exact .inl ⟨r', hr', hd⟩
  | drive e c queue f he hf =>
    exact .inl (claimedBy_updateRows _ f _ d
      (fun r h => (hf r).claimedByPid.symm.trans h) r' hr' hd)
  | command matches_ f hf =>
    exact .inl (claimedBy_updateRows _ f _ d
      (fun r h => (hf r).claimedByPid.symm.trans h) r' hr' hd)
  | clear e c queue he =>
    exact .inl (claimedBy_updateRows _ LivePlanRow.unclaim _ d (fun r h => nomatch h) r' hr' hd)
  | insert header hfresh =>
    rcases List.mem_append.mp hr' with hr' | hr'
    · exact .inl ⟨r', hr', hd⟩
    · obtain rfl := List.mem_singleton.mp hr'
      cases hd
  | claim e c queue he =>
    by_cases hsame : d = e
    · subst hsame
      right
      show (s.setPhase d _).phase d ≠ _
      rw [phase_setPhase, if_pos rfl]
      split_ifs
      · exact Phase.noConfusion
      · exact Phase.noConfusion
    · exact .inl (claimedBy_updateRows _ (fun r => r.claim e (host e) s.now) _ d
        (fun r h => absurd (Option.some.inj h).symm hsame) r' hr' hd)

/-- **An orderly step** leaves no row to the dead. -/
theorem claimsAlive_step (staleSecs : Nat) (host : Int → String) (s s' : Fleet)
    (hstep : Orderly staleSecs host s s') (h : ClaimsAlive s) : ClaimsAlive s' := by
  obtain ⟨hstep, hdeaths⟩ := hstep
  intro r' hr' d hd hdead
  rcases claimedBy_step staleSecs host s s' hstep r' hr' d hd with ⟨r, hr, hclaim⟩ | halive
  · exact hdeaths d (h r hr d hclaim) hdead r hr hclaim
  · exact halive hdead

theorem claimsAlive_reachable (staleSecs : Nat) (host : Int → String) (rows : List LivePlanRow)
    (hunclaimed : ∀ r ∈ rows, r.claimedByPid = none) (s : Fleet)
    (h : Relation.ReflTransGen (Orderly staleSecs host) (.start rows) s) : ClaimsAlive s := by
  induction h with
  | refl =>
    intro r hr d hd
    rw [hunclaimed r hr] at hd
    cases hd
  | tail _ hstep ih => exact claimsAlive_step _ _ _ _ hstep ih

/-- **Claims are exclusive**, at every point of every run. The rows that the dead have claimed are
found by nobody; there are none in a run in which no daemon dies whose claim is on a row. -/
theorem daemon_claims (staleSecs : Nat) (host : Int → String) (rows : List LivePlanRow)
    (hkeys : (rows.map LivePlanRow.planId).Nodup) (hunclaimed : ∀ r ∈ rows, r.claimedByPid = none) :
    (∀ s, Relation.ReflTransGen (FleetStep staleSecs host) (.start rows) s →
      (∀ d d' c c' queue queue', s.phase d = .driving c queue → s.phase d' = .driving c' queue' →
        c.planId = c'.planId → d = d') ∧
      (∀ d d' c c' queue queue', d ≠ d' →
        s.phase d = .locked c queue ∨ s.phase d = .driving c queue →
        s.phase d' = .driving c' queue' → ∀ r ∈ s.rows, r.planId = c'.planId →
          r ∈ (recordClaim d (host d) s.now c s.rows).2 ∧ r ∈ clearClaim c s.rows) ∧
      (∀ d c queue, s.phase d = .driving c queue →
        ∃ r ∈ s.rows, r.planId = c.planId ∧ r.claimedByPid = some d) ∧
      (OrphansFound staleSecs s ↔
        (∀ d, s.phase d = .dead) ∨ ∀ r ∈ s.rows, ¬Orphan staleSecs s r)) ∧
    ∀ s, Relation.ReflTransGen (Orderly staleSecs host) (.start rows) s →
      OrphansFound staleSecs s := by
  constructor
  · intro s h
    have hinv := fleetInv_reachable rows hkeys s h
    refine ⟨?_, ?_, hinv.claimed, orphansFound_iff staleSecs s⟩
    · intro d d' c c' queue queue' hd hd' hsame
      exact hinv.exclusive s d d' c.planId (by rw [hd]; rfl) (by rw [hd', hsame]; rfl)
    · intro d d' c c' queue queue' hne hd hd' r hr hplan
      have hholds : (s.phase d).holds = some c.planId := by
        rcases hd with hd | hd <;> rw [hd] <;> rfl
      have hreach := hinv.out_of_reach s d d' c c' hne.symm hholds (by rw [hd']; rfl) r hplan
      have hclaim : claimMatches c r = false := by rw [claimMatches, hreach, Bool.false_and]
      exact ⟨(mem_updateRows ..).mpr ⟨r, hr, .inr ⟨hclaim, rfl⟩⟩,
        (mem_updateRows ..).mpr ⟨r, hr, .inr ⟨hreach, rfl⟩⟩⟩
  · intro s h
    refine (orphansFound_iff staleSecs s).mpr (.inr fun r hr horphan => ?_)
    obtain ⟨-, -, d, hclaim, hdead⟩ := horphan
    exact claimsAlive_reachable staleSecs host rows hunclaimed s h r hr d hclaim hdead

/-- A row whose backfill has stopped. -/
def stalledRow : LivePlanRow :=
  (((LivePlanRow.fresh ⟨1, "add_email", "main", "shop"⟩).updateStatus .running).updateStepIndex 0
    (some "backfill_chunked"))

def stalledCandidate : DaemonCandidate := ⟨1, "main", "shop", "add_email", "backfill_chunked"⟩

def polledFleet : Fleet :=
  (Fleet.start [stalledRow]).setPhase 1 (.polled (readCandidates 0 600 1 [stalledRow]))

def lockedFleet : Fleet :=
  { polledFleet.setPhase 1 (.locked stalledCandidate []) with
    lock := Function.update polledFleet.lock 1 (some 1) }

/-- The first daemon has claimed the row. -/
def claimedFleet : Fleet :=
  { lockedFleet.setPhase 1 (.driving stalledCandidate []) with
    rows := (recordClaim 1 "host" 0 stalledCandidate [stalledRow]).2 }

theorem claimedFleet_driving : claimedFleet.phase 1 = .driving stalledCandidate [] := rfl

theorem alive_setPhase (s : Fleet) (d d' : Int) (p : Phase) (hp : p ≠ .dead)
    (h : ∀ d, s.phase d ≠ .dead) : (s.setPhase d p).phase d' ≠ .dead := by
  rw [phase_setPhase]
  split_ifs
  · exact hp
  · exact h d'

theorem claimedFleet_reached : Relation.ReflTransGen (Orderly 600 fun _ => "host")
    (.start [stalledRow]) claimedFleet := by
  have hpolled : polledFleet.phase 1 = .polled [stalledCandidate] := by decide +kernel
  have hclaim := @FleetStep.claim 600 (fun _ => "host") lockedFleet 1
    stalledCandidate [] rfl
  rw [if_pos (show (recordClaim 1 "host" lockedFleet.now stalledCandidate lockedFleet.rows).1 =
    true by decide +kernel)] at hclaim
  have hpolledAlive : ∀ d, polledFleet.phase d ≠ .dead := fun d =>
    alive_setPhase _ 1 d (.polled _) Phase.noConfusion fun _ => Phase.noConfusion
  have hlockedAlive : ∀ d, lockedFleet.phase d ≠ .dead := fun d =>
    alive_setPhase _ 1 d (.locked _ _) Phase.noConfusion hpolledAlive
  have hclaimedAlive : ∀ d, claimedFleet.phase d ≠ .dead := fun d =>
    alive_setPhase _ 1 d (.driving _ _) Phase.noConfusion hlockedAlive
  exact .tail (.tail (.single ⟨.poll _ 1 rfl, fun d _ h => absurd h (hpolledAlive d)⟩)
    ⟨.acquire polledFleet 1 stalledCandidate [] hpolled rfl,
      fun d _ h => absurd h (hlockedAlive d)⟩) ⟨hclaim, fun d _ h => absurd h (hclaimedAlive d)⟩

/-- The claim is on the row, and nothing is left to the dead. -/
theorem daemon_claims_claimed :
    (∃ r ∈ claimedFleet.rows, r.planId = 1 ∧ r.claimedByPid = some 1) ∧
      OrphansFound 600 claimedFleet := by
  obtain ⟨hsafe, hfound⟩ := daemon_claims 600 (fun _ => "host") [stalledRow] (by simp) (by decide)
  obtain ⟨-, -, hclaimed, -⟩ := hsafe claimedFleet
    (orderly_reaches claimedFleet_reached)
  exact ⟨hclaimed 1 stalledCandidate [] rfl, hfound claimedFleet claimedFleet_reached⟩

/-- The daemon dies while it drives the plan. -/
def orphanedFleet : Fleet :=
  { claimedFleet.setPhase 1 .dead with
    lock := fun p => if claimedFleet.lock p = some 1 then none else claimedFleet.lock p }

/-- **An orphan.** No other daemon will find the row. -/
theorem claim_orphaned :
    Relation.ReflTransGen (FleetStep 600 fun _ => "host") (.start [stalledRow]) orphanedFleet ∧
      orphanedFleet.phase 2 = .idle ∧ orphanedFleet.lock 1 = none ∧
      Orphan 600 orphanedFleet (stalledRow.claim 1 "host" 0) ∧
      ¬OrphansFound 600 orphanedFleet := by
  have hrow : stalledRow.claim 1 "host" 0 ∈ orphanedFleet.rows := by decide +kernel
  have horphan : Orphan 600 orphanedFleet (stalledRow.claim 1 "host" 0) :=
    ⟨by decide +kernel, by decide +kernel, 1, rfl, rfl⟩
  refine ⟨.tail (orderly_reaches claimedFleet_reached)
    (.die claimedFleet 1 Phase.noConfusion), rfl, rfl, horphan, fun h => ?_⟩
  have hfound := h _ hrow horphan 2 (show Phase.idle ≠ _ from Phase.noConfusion)
  rw [orphan_not_candidate 600 orphanedFleet _ horphan 2
    (show Phase.idle ≠ _ from Phase.noConfusion)] at hfound
  cases hfound

end Djogi.Live

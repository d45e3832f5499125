import Djogi.Live.Commits

/-!
# What every command keeps of the row

A command changes its row only through the update functions of the ledger.

* `keeps_exec`: what these functions keep, every command keeps;
* `exec_refused`: a command that the guard of its status refuses leaves the row;
* `sameOwner_exec`: no command touches the key, the bucket or the claim of the row.
-/

namespace Djogi.Live

open Session

variable {ρ : Type}

/-! ## Updates of the row -/

/-- The update functions keep it. -/
structure KeptByUpdates (Q : LivePlanRow → Prop) : Prop where
  progress : ∀ r n t, Q r → Q (r.updateProgress n t)
  stepIndex : ∀ r i label, Q r → Q (r.updateStepIndex i label)
  completedAt : ∀ r t, Q r → Q (r.stampCompletedAt t)
  status : ∀ r s, Q r → Q (r.updateStatus s)
  failure : ∀ r s msg, Q r → Q (r.updateStatusWithError s msg)

/-- The row satisfies it. -/
def OnRow (Q : LivePlanRow → Prop) (w : World ρ) : Prop := Q w.row

/-- A program that keeps it however it ends. -/
abbrev Keeps {ε α : Type} (Q : LivePlanRow → Prop) (m : Run (World ρ) ε α) : Prop :=
  Meets (OnRow Q) m (fun _ => OnRow Q) fun _ => OnRow Q

section Programs

variable {Q : LivePlanRow → Prop} (env : Env ρ) (plan : LivePlan)

theorem keeps_act {ε : Type} (refused : String → ε) (f : World ρ → World ρ)
    (hf : ∀ w, Q w.row → Q (f w).row) : Keeps Q (act env refused f) :=
  meets_act env refused f hf fun _ _ h => h

theorem keeps_check {α : Type} (e : Except LiveCmdError α) :
    Keeps Q (check e : Run (World ρ) (Stop LiveCmdError) α) :=
  (meets_check e).conseq (fun _ h => h) (fun _ _ h => h.1) fun _ _ h => h

theorem keeps_fetchRow : Keeps Q (fetchRow env) :=
  (meets_fetchRow env fun _ h => h).conseq (fun _ h => h) (fun _ _ h => h.1) fun _ _ h => h

variable (hQ : KeptByUpdates Q)

include hQ

theorem keeps_commitChunk (chunkSql : String) (chunkSize prior : Nat) (w : World ρ)
    (h : Q w.row) : Q (commitChunk env chunkSql chunkSize prior w).row := by
  unfold commitChunk
  dsimp only
  split_ifs
  · exact hQ.status _ _ (hQ.progress _ _ _ h)
  · exact hQ.progress _ _ _ h

theorem keeps_driveChunks (planId : Int) (table predicateTemplate : String) (chunkSize : Nat)
    (resumeFrom : ResumeFrom) :
    Keeps Q (driveChunks env planId table predicateTemplate chunkSize resumeFrom) := by
  refine .of_keeps fun w hw => ?_
  unfold driveChunks
  split_ifs
  · exact hw
  split
  · exact hw
  · exact hw
  · unfold lookupPlanRow act
    cases env.outcome w.clock with
    | done =>
      by_cases hid : w.row.planId = planId
      · simp only [if_pos hid]
        split_ifs
        · exact hw
        · obtain ⟨_, hend⟩ := chunkLoop_keeps env (chunkSqlOf table predicateTemplate) chunkSize
            (P := fun _ => OnRow Q) (fun total w h => keeps_commitChunk env hQ _ _ total w h)
            (fun _ _ h => h) 1 (startingRowsDone resumeFrom w.row) [] w.tick hw
          exact hend
      · simp only [if_neg hid]
        exact hw
    | refused reason => exact hw
    | crashed => exact hw

theorem keeps_executeStep (isResume : Bool) (step : Step) :
    Keeps Q (executeStep env plan isResume step) := by
  have hddl : Keeps Q (executeDdlStep env step) := by
    unfold executeDdlStep
    split
    · exact .bind (keeps_act env _ _ fun _ h => h) fun _ => .pure _ fun _ h => h
    · exact .bind (keeps_act env _ _ fun _ h => h) fun _ => .pure _ fun _ h => h
    · exact .bind (keeps_act env _ _ fun _ h => h) fun _ => .pure _ fun _ h => h
    · exact .bind (keeps_act env _ _ fun _ h => h) fun _ => .pure _ fun _ h => h
    · exact .fail _ fun _ h => h
  have hgate : Keeps Q (handleOperatorGate env step) :=
    .bind (keeps_act env _ _ fun _ h => hQ.status _ _ h) fun _ => .pure _ fun _ h => h
  unfold executeStep
  cases step.kind with
  | expandSchema | finalizeConstraints | cleanupLegacyState | runReversibleSchemaOp => exact hddl
  | validateBackfill | cutoverReads | cutoverWrites => exact hgate
  | beginCompatibilityWindow => exact .pure _ fun _ h => h
  | backfillChunked =>
    simp only [executeBackfillStep]
    split
    · refine .mapError (E := fun _ => OnRow Q) ?_ fun _ _ h => h
      cases isResume with
      | false | true =>
        exact .bind (keeps_driveChunks env hQ _ _ _ _ _) fun _ => .pure _ fun _ h => h
    · exact .fail _ fun _ h => h

theorem keeps_recorded (isResume : Bool) (step : Step) :
    Keeps Q (recordingFailure env (noted step (executeStep env plan isResume step))) := by
  intro w hw
  have hexec := keeps_executeStep env plan hQ isResume step w hw
  simp only [recordingFailure, noted]
  cases hrun : executeStep env plan isResume step w with
  | mk r w' =>
    rw [hrun] at hexec
    cases r with
    | ok r => exact hexec
    | error e =>
      cases e with
      | crash => exact hexec
      | error e =>
        exact Meets.bind (keeps_act env _ _ fun _ h => hQ.failure _ _ _ h)
          (fun _ => Meets.fail _ fun _ h => h) w' hexec

theorem keeps_runSteps (isResume : Bool) (startIndex idx : Nat) (l : List Step) :
    Keeps Q (runSteps env plan isResume startIndex idx l) := by
  induction l generalizing idx with
  | nil =>
    exact .bind (keeps_act env _ _ fun _ h => hQ.completedAt _ _ h) fun _ =>
      .bind (keeps_act env _ _ fun _ h => hQ.status _ _ h) fun _ => .pure _ fun _ h => h
  | cons step rest ih =>
    rw [runSteps]
    split_ifs
    · exact ih (idx + 1)
    · refine .bind (Q := fun _ => OnRow Q) ?_ fun _ =>
        (keeps_recorded env plan hQ isResume step).bind fun r => ?_
      · unfold writePointer
        split_ifs
        · exact .fail _ fun _ h => h
        · exact keeps_act env _ _ fun _ h => hQ.stepIndex _ _ _ h
      · cases r with
        | completed => exact ih (idx + 1)
        | partly _ _ | paused => exact .pure _ fun _ h => h

theorem keeps_runPlan (startIndex : Nat) (isResume allowDestructive : Bool)
    (justify : Option String) :
    Keeps Q (mapError executorFailure
      (runPlan env plan startIndex isResume allowDestructive justify)) := by
  refine .mapError (E := fun _ => OnRow Q) ?_ fun _ _ h => h
  unfold runPlan
  split_ifs
  · exact .fail _ fun _ h => h
  · exact keeps_runSteps env plan hQ isResume startIndex 0 plan.steps

/-- **Every command** keeps what the updates keep. -/
theorem keeps_exec (cmd : Command) : Keeps Q (cmd.exec env plan) := by
  cases cmd with
  | run allowDestructive justify =>
    exact (keeps_check _).bind fun _ => (keeps_fetchRow env).bind fun _ => (keeps_check _).bind
      fun _ => (keeps_check _).bind fun _ => keeps_runPlan env plan hQ _ _ _ _
  | resume allowDestructive justify =>
    exact (keeps_check _).bind fun _ => (keeps_fetchRow env).bind fun _ => (keeps_check _).bind
      fun _ => (keeps_check _).bind fun _ => keeps_runPlan env plan hQ _ _ _ _
  | finalize justify =>
    exact (keeps_fetchRow env).bind fun _ => (keeps_check _).bind fun _ => (keeps_check _).bind
      fun _ => (keeps_check _).bind fun _ => keeps_runPlan env plan hQ _ _ _ _
  | abandon =>
    exact (keeps_fetchRow env).bind fun _ => (keeps_check _).bind fun _ =>
      .bind (keeps_act env _ _ fun _ h => hQ.status _ _ h) fun _ => .pure _ fun _ h => h

end Programs

/-! ## Terminal rows -/

section Refused

variable (env : Env ρ) (plan : LivePlan) (r₀ : LivePlanRow)

/-- The guard fails, so what stands after it does not run. -/
theorem meets_refused {β : Type} {m : Run (World ρ) (Stop LiveCmdError) β}
    (e : Except LiveCmdError Unit) (err : LiveCmdError) (he : e = .error err) :
    Keeps (fun r => r = r₀) (check e >>= fun _ => m) := by
  subst he
  exact .bind (Q := fun _ _ => False) (.fail _ fun _ h => h) fun _ _ h => h.elim

/-- **A refused command** leaves the row. -/
theorem exec_refused (cmd : Command) (w : World ρ) (err : LiveCmdError)
    (h : cmd.assertStatus w.row.status = .error err) : (cmd.exec env plan w).2.row = w.row := by
  have hfetch : Meets (OnRow fun r => r = w.row) (fetchRow env) (fun row w' =>
      OnRow (fun r => r = w.row) w' ∧ row = w.row) fun _ => OnRow fun r => r = w.row :=
    (meets_fetchRow env fun _ h => h).conseq (fun _ h => h)
      (fun _ _ h => ⟨h.1, h.2.trans h.1⟩) fun _ _ h => h
  have hguard : ∀ m : LivePlanRow → Run (World ρ) (Stop LiveCmdError) StepResult,
      Keeps (fun r => r = w.row)
        (fetchRow env >>= fun row => check (cmd.assertStatus row.status) >>= fun _ => m row) := by
    intro m
    refine hfetch.bind fun row w' hw' => ?_
    obtain ⟨hw', rfl⟩ := hw'
    exact meets_refused w.row _ err h w' hw'
  cases cmd with
  | run allowDestructive justify =>
    exact ((keeps_check _).bind fun _ => hguard fun _ => _).keeps w rfl
  | resume allowDestructive justify =>
    exact ((keeps_check _).bind fun _ => hguard fun row => _).keeps w rfl
  | finalize justify => exact (hguard fun row => _).keeps w rfl
  | abandon => exact (hguard fun _ => _).keeps w rfl

end Refused

/-! ## Owners -/

/-- The same plan, bucket and claim. -/
structure SameOwner (r r' : LivePlanRow) : Prop where
  planId : r'.planId = r.planId
  targetDatabase : r'.targetDatabase = r.targetDatabase
  appLabel : r'.appLabel = r.appLabel
  claimedByPid : r'.claimedByPid = r.claimedByPid
  claimedByHost : r'.claimedByHost = r.claimedByHost
  claimedAt : r'.claimedAt = r.claimedAt

theorem sameOwner_updates (r₀ : LivePlanRow) : KeptByUpdates (SameOwner r₀) where
  progress _ _ _ h := ⟨h.1, h.2, h.3, h.4, h.5, h.6⟩
  stepIndex _ _ _ h := ⟨h.1, h.2, h.3, h.4, h.5, h.6⟩
  completedAt _ _ h := ⟨h.1, h.2, h.3, h.4, h.5, h.6⟩
  status _ _ h := ⟨h.1, h.2, h.3, h.4, h.5, h.6⟩
  failure _ _ _ h := ⟨h.1, h.2, h.3, h.4, h.5, h.6⟩

theorem SameOwner.refl (r : LivePlanRow) : SameOwner r r := ⟨rfl, rfl, rfl, rfl, rfl, rfl⟩

/-- No command touches the key, the bucket or the claim of its row. -/
theorem sameOwner_exec (env : Env ρ) (plan : LivePlan) (cmd : Command) (w : World ρ) :
    SameOwner w.row (cmd.exec env plan w).2.row :=
  (keeps_exec env plan (sameOwner_updates w.row) cmd).keeps w (.refl w.row)

end Djogi.Live

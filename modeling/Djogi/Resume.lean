import Djogi.Apply

/-!
# Apply and resume

`migrate/repair.rs`, `repair_resume_body`: a resume runs the non-transactional statements that
the row does not count yet and marks the row applied.

* `repairResumeBody_meets`: one resume, cut off anywhere;
* `apply_resume_iff`: over all histories of one apply and any number of resumes;
* `resume_skips_transactional`: a resume marks a row applied although its table was never made.
-/

namespace Djogi

open Session

/-! ## The code -/

inductive RepairError
  | ledgerIo (source : String)
  | versionNotFound (version : String)
  | corruptedLedgerStepCount (version field : String) (value : Int)
  | bucketAppMismatch (version rowAppLabel suppliedApp : String)
  | planChecksumMismatch (version ledgerChecksum planChecksum : String)
  | invalidResolution (version : String) (currentStatus : LedgerStatus)
  | resumeBlockedByNonTxProgressClaim (version note : String)
  | nothingToResume (version : String) (applied : Int) (total : Option Int)
  | phaseZeroArtifactRefused (version : String)
  | resumePlanShapeMismatch (version : String) (ledgerTotalSteps replayTotalSteps : Int)
  | resumeStepFailed (version : String) (stepIndex : Int) (statementLabel : String)
      (appliedStepsCount : Int) (source : String)
  | resumeProgressAckFailed (version : String) (stepIndex : Int) (statementLabel : String)
      (appliedStepsCount : Int) (source : String)
  | replayPlanShapeMismatch (version : String) (expectedStepCount actualStepCount : Int)

/-- What a resume is called with: the checksum of SQL fragments, the classifier of bootstrap
artifacts and the guard of statements. -/
structure RepairCtx where
  version : String
  computeChecksum : List String → String
  refusesPhaseZero : String → Bool
  refuses : String → Option String

structure LedgerChange where
  version : String
  column : String
  before : String
  after : String

structure RepairReport where
  actionsTaken : List String
  ledgerChanges : List LedgerChange

def LedgerStatus.asDbStr : LedgerStatus → String
  | .pending => "pending"
  | .applied => "applied"
  | .baseline => "baseline"
  | .faked => "faked"
  | .rolledBack => "rolled_back"
  | .failed => "failed"

def planUps (plan : MigrationPlan) : List String :=
  plan.segments.flatMap fun seg => seg.statements.map fun sql => scriptText sql.up

/-- The row of the migration, by a query. -/
def loadRow (version : String) : Db RepairError LedgerRow := fun c =>
  match ask (.run fun _ d => some d) c with
  | (.error e, c') => (.error (.ledgerIo e), c')
  | (.ok _, c') =>
      match c'.durable.row with
      | some row => if row.version = version then (.ok row, c') else (.error (.versionNotFound version), c')
      | none => (.error (.versionNotFound version), c')

/-- The checks before the replay. They return the total. -/
def checkResume (ctx : RepairCtx) (plan : MigrationPlan) (row : LedgerRow) :
    Except RepairError Int :=
  if row.appliedStepsCount < 0 then
    .error (.corruptedLedgerStepCount ctx.version "applied_steps_count" row.appliedStepsCount)
  else if row.totalSteps.getD 0 < 0 then
    .error (.corruptedLedgerStepCount ctx.version "total_steps" (row.totalSteps.getD 0))
  else if row.appLabel ≠ plan.bucket.app then
    .error (.bucketAppMismatch ctx.version row.appLabel plan.bucket.app)
  else if ctx.computeChecksum (planUps plan) ≠ row.checksumUp then
    .error (.planChecksumMismatch ctx.version row.checksumUp (ctx.computeChecksum (planUps plan)))
  else if row.status ≠ .failed ∧ row.status ≠ .pending then
    .error (.invalidResolution ctx.version row.status)
  else if noteHasNonTxProgressClaim row.partialApplyNote = true then
    .error (.resumeBlockedByNonTxProgressClaim ctx.version (row.partialApplyNote.getD ""))
  else match row.totalSteps with
    | none => .error (.nothingToResume ctx.version row.appliedStepsCount none)
    | some total =>
        if total ≤ row.appliedStepsCount then
          .error (.nothingToResume ctx.version row.appliedStepsCount (some total))
        else .ok total

def checkReplay (ctx : RepairCtx) (plan : MigrationPlan) (row : LedgerRow) (total : Int) :
    Except RepairError Unit :=
  if ctx.version = phaseZeroVersion ∧ ctx.refusesPhaseZero ("\n".intercalate (planUps plan)) = true then
    .error (.phaseZeroArtifactRefused ctx.version)
  else if total ≠ nonTxStepCount plan then
    .error (.resumePlanShapeMismatch row.version total (nonTxStepCount plan))
  else .ok ()

def resumeFailedNote (s : Step) (e : String) : String :=
  "resume failed at segment " ++ toString s.segment ++ " step " ++ toString s.index ++ ": " ++
    s.sql.label ++ " — " ++ e

/-- The loop over the non-transactional statements. The first ones are skipped. -/
def resumeSteps (ctx : RepairCtx) (row : LedgerRow) (total : Int) :
    List Step → Nat → Int → Db RepairError (Int × List String)
  | [], _, applied => pure (applied, [])
  | _ :: rest, skip + 1, applied => resumeSteps ctx row total rest skip applied
  | s :: rest, 0, applied => do
      let claimed := saturatingAdd applied 1
      nonTxStep ctx.refuses
        (formatNonTxProgressClaim row.partialApplyNote claimed row.totalSteps s.segment s.sql.label)
        s applied (resumeFailedNote s) row.partialApplyNote .ledgerIo
        (.resumeStepFailed row.version applied s.sql.label applied)
        (.resumeProgressAckFailed row.version (claimed - 1) s.sql.label claimed)
      let (applied, actions) ← resumeSteps ctx row total rest 0 claimed
      pure (applied, ("resumed step " ++ toString claimed ++ " of " ++ toString total ++ ": " ++
        s.sql.label) :: actions)

def resumeReport (row : LedgerRow) (applied : Int) (actions : List String) : RepairReport where
  actionsTaken := actions
  ledgerChanges := [⟨row.version, "status", row.status.asDbStr, LedgerStatus.applied.asDbStr⟩,
    ⟨row.version, "applied_steps_count", toString row.appliedStepsCount, toString applied⟩]

def repairResumeBody (ctx : RepairCtx) (plan : MigrationPlan) : Db RepairError RepairReport := do
  let row ← loadRow ctx.version
  match checkResume ctx plan row with
  | .error e => fail e
  | .ok total => do
      let _ ← mapError .ledgerIo (ask (.run fun _ d => some d))
      match checkReplay ctx plan row total with
      | .error e => fail e
      | .ok () => do
          let (applied, actions) ← resumeSteps ctx row total (nonTx plan.executed)
            row.appliedStepsCount.toNat row.appliedStepsCount
          if applied ≠ nonTxStepCount plan then
            fail (.replayPlanShapeMismatch row.version (nonTxStepCount plan) applied)
          else do
            let _ ← mapError .ledgerIo (updateLedger (.apply applied none))
            pure (resumeReport row applied actions)

/-! ## One resume -/

/-- A prefix of the plan, and then non-transactional steps of the rest. -/
def Shape (plan : MigrationPlan) (C : List Step) : Prop :=
  ∃ P R j, plan.executed = P ++ R ∧ j ≤ (nonTx R).length ∧ C = P ++ (nonTx R).take j

theorem nonTx_take (l : List Step) (j : Nat) : nonTx ((nonTx l).take j) = (nonTx l).take j :=
  nonTx_of_all _ fun _ hs => (List.mem_filter.mp (List.mem_of_mem_take hs)).2

theorem Shape.sublist {plan : MigrationPlan} {C : List Step} (h : Shape plan C) :
    C.Sublist plan.executed := by
  obtain ⟨P, R, j, hall, -, rfl⟩ := h
  rw [hall]
  exact (List.Sublist.refl P).append ((List.take_sublist _ _).trans List.filter_sublist)

theorem Shape.ofPrefix {plan : MigrationPlan} {C : List Step} (h : C <+: plan.executed) :
    Shape plan C := by
  obtain ⟨R, hR⟩ := h
  exact ⟨C, R, 0, hR.symm, Nat.zero_le _, by simp⟩

/-- The steps that a resume has left go on in the same shape. -/
theorem Shape.rest {plan : MigrationPlan} {C : List Step} (h : Shape plan C) :
    nonTx C ++ (nonTx plan.executed).drop (nonTx C).length = nonTx plan.executed ∧
      ∀ k, Shape plan (C ++ ((nonTx plan.executed).drop (nonTx C).length).take k) := by
  obtain ⟨P, R, j, hall, hj, rfl⟩ := h
  have hC : nonTx (P ++ (nonTx R).take j) = nonTx P ++ (nonTx R).take j := by
    rw [nonTx_append, nonTx_take]
  have hdrop : (nonTx plan.executed).drop (nonTx (P ++ (nonTx R).take j)).length =
      (nonTx R).drop j := by
    rw [hall, hC, nonTx_append, List.length_append, List.length_take_of_le hj,
      List.drop_append, List.drop_eq_nil_of_le (by omega), Nat.add_sub_cancel_left,
      List.nil_append]
  rw [hdrop]
  refine ⟨?_, fun k => ⟨P, R, j + min k (nonTx R |>.drop j).length, hall, ?_, ?_⟩⟩
  · rw [hC, List.append_assoc, List.take_append_drop, hall, nonTx_append]
  · rw [List.length_drop]
    omega
  · rw [List.append_assoc, List.take_add, List.take_eq_take_min (i := k)]

theorem resumeSteps_skip (ctx : RepairCtx) (row : LedgerRow) (total : Int) (steps : List Step)
    (skip : Nat) (applied : Int) :
    resumeSteps ctx row total steps skip applied =
      resumeSteps ctx row total (steps.drop skip) 0 applied := by
  induction steps generalizing skip with
  | nil => cases skip <;> rfl
  | cons s rest ih =>
    cases skip with
    | zero => rfl
    | succ skip => exact ih skip

/-- The loop past the skipped steps. -/
theorem resumeSteps_meets (ctx : RepairCtx) (row : LedgerRow) (total : Int)
    (ok final : List Step → Prop) (hstatus : row.status ≠ .applied) (steps C : List Step)
    (hs : ∀ s ∈ steps, s.isNonTx = true)
    (hmax : ((nonTx C).length : Int) + steps.length ≤ i32Max)
    (hok : ∀ k, ok (C ++ steps.take k)) :
    Meets (Idle (Ran none C (row.ack (nonTx C).length row.partialApplyNote)))
      (resumeSteps ctx row total steps 0 (nonTx C).length)
      (fun v c => v.1 = (nonTx (C ++ steps)).length ∧ Idle (Ran none (C ++ steps)
        (row.ack (nonTx (C ++ steps)).length row.partialApplyNote)) c)
      fun _ => Durable (Safe ok final) := by
  induction steps generalizing C with
  | nil => exact .pure _ fun c h => by rw [List.append_nil]; exact ⟨rfl, h⟩
  | cons s rest ih =>
    obtain ⟨hs₁, hs₂⟩ := List.forall_mem_cons.mp hs
    rw [List.length_cons] at hmax
    push_cast at hmax
    have hsnoc := nonTx_snoc C s hs₁
    have hnext : saturatingAdd (nonTx C).length 1 = ((nonTx (C ++ [s])).length : Int) := by
      rw [hsnoc, saturatingAdd]
      push_cast
      omega
    have hcons : ∀ k, C ++ [s] ++ rest.take k = C ++ (s :: rest).take (k + 1) := by simp
    unfold resumeSteps
    rw [hnext]
    refine .bind (nonTxStep_meets none C _ ok final ctx.refuses _ s _ _ _ _ _
      (formatNonTxProgressClaim_isClaim _ _ _ _ _) hs₁ rfl hstatus (by omega)
      (by simpa using hok 0) (by simpa using hok 1)) fun _ => ?_
    refine .bind ((ih (C ++ [s]) hs₂ (by rw [hsnoc]; push_cast; omega)
      fun k => (hcons k).symm ▸ hok (k + 1)).conseq (fun _ h => h) (fun _ _ h => h)
      fun _ _ h => h) fun v => .pure _ fun c h => ?_
    rw [List.append_assoc, List.singleton_append] at h
    exact h

theorem checkResume_ok (ctx : RepairCtx) (plan : MigrationPlan) (row : LedgerRow) (total : Int)
    (h : checkResume ctx plan row = .ok total) :
    row.status ≠ .applied ∧ noteHasNonTxProgressClaim row.partialApplyNote = false := by
  unfold checkResume at h
  split_ifs at h with h₁ h₂ h₃ h₄ hstatus hclaim
  refine ⟨fun happ => hstatus ?_, by simpa using hclaim⟩
  rw [happ]
  exact ⟨by decide, by decide⟩

theorem loadRow_meets (version : String) (C : List Step) (row : LedgerRow) :
    Meets (Idle (Ran none C row)) (loadRow version)
      (fun r c => r = row ∧ Idle (Ran none C row) c) fun _ => Idle (Ran none C row) := by
  intro c hc
  have h := probe_meets (Ran none C row) c hc
  unfold loadRow
  cases hr : ask (.run fun _ d => some d) c with
  | mk res c' =>
    rw [hr] at h
    cases res with
    | error e => exact h
    | ok v =>
      obtain ⟨hidle, hrow⟩ := h
      have hrow' : c'.durable.row = some row := hrow.1.2
      simp only [hrow']
      split_ifs
      · exact ⟨rfl, hidle, hrow⟩
      · exact ⟨hidle, hrow⟩

/-- The steps that a resume runs. -/
def remaining (plan : MigrationPlan) (C : List Step) : List Step :=
  (nonTx plan.executed).drop (nonTx C).length

theorem remaining_isNonTx (plan : MigrationPlan) (C : List Step) :
    ∀ s ∈ remaining plan C, s.isNonTx = true := fun _ hs =>
  (List.mem_filter.mp (List.mem_of_mem_drop hs)).2

theorem Shape.resumed {plan : MigrationPlan} {C : List Step} (h : Shape plan C) :
    Shape plan (C ++ remaining plan C) ∧ nonTx (C ++ remaining plan C) = nonTx plan.executed := by
  obtain ⟨hall, hrest⟩ := h.rest
  constructor
  · have h := hrest ((nonTx plan.executed).drop (nonTx C).length).length
    rw [List.take_length] at h
    exact h
  · rw [nonTx_append, nonTx_of_all _ (remaining_isNonTx plan C)]
    exact hall

/-- **One resume.** A success commits the non-transactional steps that were left and marks the
row applied; whatever cuts it off leaves some of them, recorded. -/
theorem repairResumeBody_meets (ctx : RepairCtx) (plan : MigrationPlan) (C : List Step)
    (row : LedgerRow) (hshape : Shape plan C) (hrecorded : Recorded C row)
    (happlied : row.status = .applied → nonTx C = nonTx plan.executed)
    (hmax : (nonTxStepCount plan : Int) ≤ i32Max) :
    Meets (Idle (Ran none C row)) (repairResumeBody ctx plan)
      (fun _ => Idle fun d => ∃ row, row.status = .applied ∧
        Recorded (C ++ remaining plan C) row ∧ At (C ++ remaining plan C) row d)
      fun _ => Durable (Safe (fun C' => C <+: C' ∧ Shape plan C')
        fun C' => nonTx C' = nonTx plan.executed) := by
  obtain ⟨hall, hrest⟩ := hshape.rest
  have hstart : ∀ d, Ran none C row d → Safe (fun C' => C <+: C' ∧ Shape plan C')
      (fun C' => nonTx C' = nonTx plan.executed) d :=
    fun d h => ⟨C, row, h.1, ⟨List.prefix_refl _, hshape⟩, hrecorded, happlied⟩
  unfold repairResumeBody
  refine .bind ((loadRow_meets ctx.version C row).conseq (fun _ h => h) (fun _ _ h => h)
    fun _ _ h => hstart _ h.2) fun r => ?_
  intro c ⟨hr, hc⟩
  subst hr
  revert c
  show Meets (Idle (Ran none C r)) _ _ _
  cases hcheck : checkResume ctx plan r with
  | error e => exact .fail _ fun c h => hstart _ h.2
  | ok total =>
    obtain ⟨hstatus, hnote⟩ := checkResume_ok ctx plan r total hcheck
    have hcount := hrecorded.2 hnote
    refine .bind (.mapError (probe_meets _) fun _ _ h => hstart _ h.2) fun _ => ?_
    cases checkReplay ctx plan r total with
    | error e => exact .fail _ fun c h => hstart _ h.2
    | ok u =>
      have hrow : r.ack (nonTx C).length r.partialApplyNote = r := by
        rw [← hcount]
        rfl
      have hlen : (nonTx C).length + (remaining plan C).length = (nonTx plan.executed).length := by
        rw [← List.length_append]
        exact congrArg List.length hall
      have hloop := resumeSteps_meets ctx r total (fun C' => C <+: C' ∧ Shape plan C')
        (fun C' => nonTx C' = nonTx plan.executed) hstatus (remaining plan C) C
        (remaining_isNonTx plan C)
        (by rw [nonTxStepCount_eq] at hmax; omega)
        fun k => ⟨List.prefix_append _ _, hrest k⟩
      obtain ⟨hshape', hdone⟩ := hshape.resumed
      have hok : C <+: C ++ remaining plan C ∧ Shape plan (C ++ remaining plan C) :=
        ⟨List.prefix_append _ _, hshape'⟩
      rw [hrow] at hloop
      have hskip : resumeSteps ctx r total (nonTx plan.executed) r.appliedStepsCount.toNat
          r.appliedStepsCount = resumeSteps ctx r total (remaining plan C) 0 (nonTx C).length := by
        rw [resumeSteps_skip, hcount, Int.toNat_natCast]
        rfl
      refine .bind (hskip ▸ hloop) fun v => ?_
      intro c ⟨hv, hc⟩
      obtain ⟨applied, actions⟩ := v
      dsimp only at hv
      subst hv
      revert c
      show Meets (Idle _) (if _ then _ else _) _ _
      have hcnt : ((nonTx (C ++ remaining plan C)).length : Int) = nonTxStepCount plan := by
        rw [hdone, nonTxStepCount_eq]
      rw [if_neg (not_not.mpr hcnt)]
      refine .bind (.mapError (updateLedger_meets none _ _ _) fun _ c h => ?_) fun _ =>
        .pure _ fun c h => ⟨h.1, _, rfl, ⟨le_rfl, fun _ => rfl⟩, h.2.1⟩
      rcases h with h | h
      · exact .of_count h.2.1 hok rfl hstatus
      · exact ⟨_, _, h.2.2.1, hok, ⟨le_rfl, fun _ => rfl⟩, fun _ => hdone⟩

/-! ## Histories -/

/-- What one apply and any number of resumes of a plan can leave. Every run goes as its session
lets it, and a resume starts in a store that meets `P`. -/
inductive History (plan : MigrationPlan) (P : Store → Prop) : Store → Prop
  | apply (ctx : RunnerCtx) (base : Catalog) (c : Conn Store) (hc : Idle (Fresh base) c) :
      History plan P (applyPlanInner ctx plan c).2.durable
  | resume (ctx : RepairCtx) (c : Conn Store) (hc : c.tx = .idle) (h : History plan P c.durable)
      (hP : P c.durable) : History plan P (repairResumeBody ctx plan c).2.durable

/-- Every statement of the transactional segments is committed. -/
def TransactionalDone (plan : MigrationPlan) (d : Store) : Prop :=
  ∀ s ∈ plan.executed, s.isNonTx = false → s ∈ d.committed

instance (plan : MigrationPlan) (d : Store) : Decidable (TransactionalDone plan d) :=
  inferInstanceAs (Decidable (∀ s ∈ plan.executed, s.isNonTx = false → s ∈ d.committed))

/-- The row is applied only if every statement is committed. -/
def AppliedMeansDone (plan : MigrationPlan) (d : Store) : Prop :=
  ∀ row, d.row = some row → row.status = .applied → ∀ s ∈ plan.executed, s ∈ d.committed

/-- Each statement once, in plan order, and the count of the row. -/
def CommittedOnce (plan : MigrationPlan) (d : Store) : Prop :=
  d.committed.Nodup ∧ d.committed.Sublist plan.executed ∧
    ∀ row, d.row = some row → Recorded d.committed row

/-- What holds in every store of a history. -/
def Reached (plan : MigrationPlan) (d : Store) : Prop :=
  (d.row = none ∧ d.committed = []) ∨ ((nonTxStepCount plan : Int) ≤ i32Max ∧
    Safe (Shape plan) (fun C => nonTx C = nonTx plan.executed) d)

theorem Safe.mono {ok ok' final final' : List Step → Prop} {d : Store} (h : Safe ok final d)
    (hok : ∀ C, ok C → ok' C) (hfinal : ∀ C, final C → final' C) : Safe ok' final' d := by
  obtain ⟨C, row, hat, hC, hrec, happ⟩ := h
  exact ⟨C, row, hat, hok C hC, hrec, fun h => hfinal C (happ h)⟩

theorem Ran.ofAt {C : List Step} {row : LedgerRow} {d : Store} (h : At C row d) : Ran none C row d :=
  ⟨h, nofun⟩

/-- A resume finds no row. -/
theorem repairResumeBody_none (ctx : RepairCtx) (plan : MigrationPlan) (P : Store → Prop)
    (hP : ∀ d, P d → d.row = none) :
    Meets (Idle P) (repairResumeBody ctx plan) (fun _ _ => False) fun _ => Durable P := by
  refine .bind (Q := fun _ _ => False) ?_ fun _ _ h => h.elim
  intro c hc
  have h := probe_meets P c hc
  unfold loadRow
  cases hr : ask (.run fun _ d => some d) c with
  | mk res c' =>
    rw [hr] at h
    cases res with
    | error e => exact h.2
    | ok v =>
      simp only [hP _ h.2]
      exact h.2

theorem history_reached (plan : MigrationPlan) (P : Store → Prop) (d : Store)
    (h : History plan P d) : Reached plan d := by
  induction h with
  | apply ctx base c hc =>
    refine (applyPlanInner_meets ctx plan base).durable (P := Reached plan) ?_ ?_ c hc
    · rintro _ c ⟨-, hmax, row, happ, hrec, hran⟩
      exact .inr ⟨hmax, _, row, hran.1, .ofPrefix (List.prefix_refl _), hrec, fun _ => rfl⟩
    · rintro _ c (h | ⟨hmax, h⟩)
      · exact .inl h
      · exact .inr ⟨hmax, h.mono (fun _ h => .ofPrefix h) fun _ h => by rw [h]⟩
  | resume ctx c hc _ _ ih =>
    rcases ih with hnone | ⟨hmax, C, row, hat, hshape, hrec, happ⟩
    · exact (repairResumeBody_none ctx plan (fun d => d.row = none ∧ d.committed = [])
        fun d h => h.1).durable (P := Reached plan) (fun _ _ h => h.elim) (fun _ _ h => .inl h) c
        ⟨hc, hnone⟩
    · refine (repairResumeBody_meets ctx plan C row hshape hrec happ hmax).durable
        (P := Reached plan) ?_ ?_ c ⟨hc, .ofAt hat⟩
      · rintro _ c ⟨-, row, happ, hrec, hat⟩
        exact .inr ⟨hmax, _, row, hat, hshape.resumed.1, hrec, fun _ => hshape.resumed.2⟩
      · rintro _ c h
        exact .inr ⟨hmax, h.mono (fun _ h => h.2) fun _ h => h⟩

theorem Reached.committedOnce {plan : MigrationPlan} {d : Store} (h : Reached plan d) :
    CommittedOnce plan d := by
  rcases h with ⟨hnone, hC⟩ | ⟨-, C, row, ⟨rfl, hrow⟩, hshape, hrec, -⟩
  · exact ⟨hC ▸ List.nodup_nil, hC ▸ List.nil_sublist _, fun row h => by rw [hnone] at h; cases h⟩
  · refine ⟨hshape.sublist.nodup (executed_nodup plan), hshape.sublist, fun row' h => ?_⟩
    obtain rfl := Option.some.inj (hrow.symm.trans h)
    exact hrec

/-- Everything is committed once the non-transactional steps are and the transactional ones
were. -/
theorem mem_of_transactionalDone {plan : MigrationPlan} {d : Store} {C' : List Step}
    (htx : TransactionalDone plan d) (hsub : d.committed ⊆ C')
    (hntx : nonTx C' = nonTx plan.executed) : ∀ s ∈ plan.executed, s ∈ C' := by
  intro s hs
  cases hk : s.isNonTx with
  | false => exact hsub (htx s hs hk)
  | true =>
    have hmem : s ∈ nonTx C' := hntx ▸ List.mem_filter.mpr ⟨hs, hk⟩
    exact List.mem_of_mem_filter hmem

theorem history_appliedMeansDone (plan : MigrationPlan) (d : Store)
    (h : History plan (TransactionalDone plan) d) : AppliedMeansDone plan d := by
  cases h with
  | apply ctx base c hc =>
    refine (applyPlanInner_meets ctx plan base).durable (P := AppliedMeansDone plan) ?_ ?_ c hc
    · rintro _ c ⟨-, -, -, -, -, ⟨hC, -⟩, -⟩ row - -
      exact fun s hs => hC ▸ hs
    · rintro _ c (⟨hnone, -⟩ | ⟨-, C, row, ⟨rfl, hrow⟩, -, -, happ⟩) row' hrow' hst
      · rw [hnone] at hrow'
        cases hrow'
      · obtain rfl := Option.some.inj (hrow.symm.trans hrow')
        exact fun s hs => happ hst ▸ hs
  | resume ctx c hc h htx =>
    rcases history_reached plan _ _ h with hnone | ⟨hmax, C, row, hat, hshape, hrec, happ⟩
    · refine (repairResumeBody_none ctx plan (fun d => d.row = none) fun d h => h).durable
        (P := AppliedMeansDone plan) (fun _ _ h => h.elim) (fun _ c h row hrow => ?_) c ⟨hc, hnone.1⟩
      rw [show c.durable.row = none from h] at hrow
      cases hrow
    · obtain ⟨rfl, hrow⟩ := hat
      refine (repairResumeBody_meets ctx plan _ row hshape hrec happ hmax).durable
        (P := AppliedMeansDone plan) ?_ ?_ c ⟨hc, .ofAt ⟨rfl, hrow⟩⟩
      · rintro _ c' ⟨-, -, -, -, hC, -⟩ row' - -
        exact hC ▸ mem_of_transactionalDone htx (List.subset_append_left _ _) hshape.resumed.2
      · rintro _ c' ⟨C', row', ⟨rfl, hrow'⟩, ⟨hpre, -⟩, -, happ'⟩ row'' hrow'' hst
        obtain rfl := Option.some.inj (hrow'.symm.trans hrow'')
        exact mem_of_transactionalDone htx hpre.subset (happ' hst)

/-- **Exactly once.** In every history each statement is committed at most once, in plan order,
and the row counts what was committed. When every resume starts after the transactional
segments, a row is applied only with every statement committed; and a resume that succeeds
leaves such a row only then. -/
theorem apply_resume_iff (plan : MigrationPlan) :
    (∀ d, History plan (fun _ => True) d → CommittedOnce plan d) ∧
    (∀ d, History plan (TransactionalDone plan) d → AppliedMeansDone plan d) ∧
    ∀ (ctx : RepairCtx) (c c' : Conn Store) (report : RepairReport), c.tx = .idle →
      History plan (fun _ => True) c.durable → repairResumeBody ctx plan c = (.ok report, c') →
      (AppliedMeansDone plan c'.durable ↔ TransactionalDone plan c.durable) := by
  refine ⟨fun d h => (history_reached plan _ d h).committedOnce,
    history_appliedMeansDone plan, fun ctx c c' report hidle h hrun => ?_⟩
  rcases history_reached plan _ _ h with hnone | ⟨hmax, C, row, ⟨rfl, hrow⟩, hshape, hrec, happ⟩
  · have hfalse := repairResumeBody_none ctx plan (fun d => d.row = none) (fun d h => h) c
      ⟨hidle, hnone.1⟩
    rw [hrun] at hfalse
    exact hfalse.elim
  · have hend := repairResumeBody_meets ctx plan _ row hshape hrec happ hmax c
      ⟨hidle, .ofAt ⟨rfl, hrow⟩⟩
    rw [hrun] at hend
    obtain ⟨-, row', happ', -, hC, hrow'⟩ := hend
    constructor
    · intro hdone s hs hk
      have hmem := hdone row' hrow' happ' s hs
      rw [hC, List.mem_append] at hmem
      refine hmem.resolve_right fun hr => ?_
      rw [remaining_isNonTx plan _ s hr] at hk
      cases hk
    · rintro htx row'' - -
      exact hC ▸ mem_of_transactionalDone htx (List.subset_append_left _ _) hshape.resumed.2

/-! ## A new table that is left out -/

def plainRepair : RepairCtx where
  version := "V20260101000000__posts"
  computeChecksum := fun _ => ""
  refusesPhaseZero := fun _ => false
  refuses := fun _ => none

/-- The disk is full when the index is made. -/
def fullConn : Conn Store :=
  usersConn [.done none, .done none, .done none, .done none, .done none, .refused "disk full"]

/-- The store before a resume. -/
def idleConn (d : Store) (replies : List Reply) : Conn Store := ⟨d, .idle, true, replies⟩

/-- The apply leaves the table without the index, the first resume is refused the same way, and
the second one makes the index and marks the row applied. -/
theorem apply_resume_posts : ∃ d₁ d₂ d₃, History postsPlan (TransactionalDone postsPlan) d₃ ∧
    (d₁.row.map fun row => (row.status, row.appliedStepsCount)) = some (.failed, 0) ∧
    (d₂.row.map fun row => (row.status, row.appliedStepsCount)) = some (.failed, 0) ∧
    (d₃.row.map fun row => (row.status, row.appliedStepsCount)) = some (.applied, 1) ∧
    CommittedOnce postsPlan d₁ ∧ AppliedMeansDone postsPlan d₁ ∧
    CommittedOnce postsPlan d₂ ∧ AppliedMeansDone postsPlan d₂ ∧
    CommittedOnce postsPlan d₃ ∧ AppliedMeansDone postsPlan d₃ := by
  have hfresh : Idle (Fresh fullConn.durable.catalog) fullConn := ⟨rfl, rfl, rfl, rfl, rfl⟩
  let d₁ := (applyPlanInner plainRunner postsPlan fullConn).2.durable
  let d₂ := (repairResumeBody plainRepair postsPlan
    (idleConn d₁ [.done none, .done none, .done none, .refused "disk full"])).2.durable
  have hist₁ (P) : History postsPlan P d₁ := .apply plainRunner _ _ hfresh
  have htx₁ : TransactionalDone postsPlan d₁ := by decide +kernel
  have hist₂ (P) (hP : P d₁) : History postsPlan P d₂ :=
    .resume plainRepair (idleConn d₁ _) rfl (hist₁ P) hP
  have htx₂ : TransactionalDone postsPlan d₂ := by decide +kernel
  have hist₃ (P) (h₁ : P d₁) (h₂ : P d₂) : History postsPlan P
      (repairResumeBody plainRepair postsPlan (idleConn d₂ [])).2.durable :=
    .resume plainRepair (idleConn d₂ []) rfl (hist₂ P h₁) h₂
  exact ⟨d₁, d₂, _, hist₃ _ htx₁ htx₂, by decide +kernel, by decide +kernel, by decide +kernel,
    (apply_resume_iff postsPlan).1 _ (hist₁ _), (apply_resume_iff postsPlan).2.1 _ (hist₁ _),
    (apply_resume_iff postsPlan).1 _ (hist₂ _ trivial),
    (apply_resume_iff postsPlan).2.1 _ (hist₂ _ htx₁),
    (apply_resume_iff postsPlan).1 _ (hist₃ _ trivial trivial),
    (apply_resume_iff postsPlan).2.1 _ (hist₃ _ htx₁ htx₂)⟩

/-- The table is refused by a lock timeout, the resume makes the index, and the row is
applied without the table. -/
theorem resume_skips_transactional : ∃ plan d, History plan (fun _ => True) d ∧
    ¬ AppliedMeansDone plan d := by
  have hfresh : Idle (Fresh (usersConn []).durable.catalog)
      (usersConn [.done none, .done none, .refused "lock timeout"]) := ⟨rfl, rfl, rfl, rfl, rfl⟩
  have hrow : (repairResumeBody plainRepair postsPlan ⟨(applyPlanInner plainRunner postsPlan
      (usersConn [.done none, .done none, .refused "lock timeout"])).2.durable, .idle, true,
        []⟩).2.durable.row.map LedgerRow.status = some .applied := by
    decide +kernel
  have hcommitted : (repairResumeBody plainRepair postsPlan ⟨(applyPlanInner plainRunner postsPlan
      (usersConn [.done none, .done none, .refused "lock timeout"])).2.durable, .idle, true,
        []⟩).2.durable.committed = [⟨1, 0, .nonTransactional, indexKeyed "users"⟩] := by
    decide +kernel
  refine ⟨postsPlan, _, .resume plainRepair ⟨_, .idle, true, []⟩ rfl
    (.apply plainRunner _ _ hfresh) trivial, fun hdone => ?_⟩
  obtain ⟨row, hrow', hst⟩ := Option.map_eq_some_iff.mp hrow
  have hmem := hdone row hrow' hst ⟨0, 0, .transactional, createKeyed "posts"⟩ (by decide +kernel)
  rw [hcommitted, List.mem_singleton] at hmem
  cases hmem

end Djogi

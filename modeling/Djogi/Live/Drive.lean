import Mathlib.Logic.Relation
import Djogi.Live.Executor

/-!
# Driving a plan to completion

A command can only go on from a status that a command sets. No command sets `running` or
`finalizing`, and no command accepts `validating` or `cutover`.

* `runSteps_plain`: what the loop does with steps that neither wait nor backfill;
* `blocked_forever`: a plan at a gate never completes;
* `live_plan_driven_iff`: a plan can be driven to completion exactly when it has no gate and no
  backfill;
* `gate_blocks`: a plan that stops at its gate for good.
-/

namespace Djogi.Live

open Session

variable {ρ : Type}

/-! ## Runs without failures -/

/-- No operation is refused. -/
def Env.quiet (env : Env ρ) : Prop := ∀ n, env.outcome n = .done

theorem act_quiet {ε : Type} (env : Env ρ) (h : env.quiet) (refused : String → ε)
    (f : World ρ → World ρ) (w : World ρ) : act env refused f w = (.ok (), (f w).tick) := by
  unfold act
  rw [h]

/-- The ledger has a fresh row and nothing has been done. -/
def World.start (plan : LivePlan) (pending : String → List ρ) : World ρ where
  row := .fresh plan.header
  pending := pending
  transformed := fun _ => []
  clock := 0
  chunkTransactions := 0
  committed := []
  executed := []

/-- A command that the guard of its status admits. -/
def StepsTo (env : Env ρ) (plan : LivePlan) (w w' : World ρ) : Prop :=
  ∃ cmd : Command, cmd.assertStatus w.row.status = .ok () ∧ w' = (cmd.exec env plan w).2

abbrev Reaches (env : Env ρ) (plan : LivePlan) : World ρ → World ρ → Prop :=
  Relation.ReflTransGen (StepsTo env plan)

/-- What it takes to drive a plan. -/
structure Drivable (env : Env ρ) (pending : String → List ρ) (plan : LivePlan) : Prop where
  completes : ∀ w, Reaches env plan (.start plan pending) w → w.row.status.terminal = false →
    ∃ w', Reaches env plan w w' ∧ w'.row.status = .complete ∧
      ∀ step ∈ plan.steps, step.ordinal ∈ w'.executed
  safe : ∀ w, Reaches env plan (.start plan pending) w → w.row.status ≠ .failed ∧
    w.row.status ≠ .failedRetriable ∧ w.row.status ≠ .failedTerminal
  gates : ∀ w, Reaches env plan (.start plan pending) w → ∀ cmd : Command,
    cmd.assertStatus w.row.status = .ok () → ∀ before after : List Nat, ∀ step ∈ plan.steps,
      step.kind.isGate = true →
      (cmd.exec env plan w).2.executed = w.executed ++ before ++ step.ordinal :: after →
      after = []

/-! ## Steps that neither wait nor backfill -/

def StepKind.isPlain (k : StepKind) : Bool := k.isDdl || k == .beginCompatibilityWindow

theorem StepKind.cases (k : StepKind) :
    k.isPlain = true ∨ k.isGate = true ∨ k = .backfillChunked := by
  cases k <;> decide

theorem StepKind.gate_of_plain (k : StepKind) (h : k.isPlain = true) : k.isGate = false := by
  cases k <;> first | rfl | cases h

section Loop

variable (env : Env ρ) (hquiet : env.quiet) (plan : LivePlan)

include hquiet

/-- A plain step is executed and leaves the status. -/
theorem executeStep_plain (isResume : Bool) (step : Step) (hplain : step.kind.isPlain = true)
    (hconsistent : step.isConsistent = true) (w : World ρ) :
    ∃ w', executeStep env plan isResume step w = (.ok .completed, w') ∧ w'.row = w.row ∧
      w'.executed = w.executed := by
  obtain ⟨kind, ordinal, parameters⟩ := step
  obtain rfl : kind = parameters.kind := of_decide_eq_true hconsistent
  cases parameters with
  | expandSchema _ | finalizeConstraints _ | cleanupLegacyState _ | runReversibleSchemaOp =>
    refine ⟨_, bind_of_ok _ _ _ _ () (act_quiet env hquiet _ _ w), rfl, rfl⟩
  | beginCompatibilityWindow hooks => exact ⟨w, rfl, rfl, rfl⟩
  | backfillChunked => cases hplain
  | validateBackfill | cutoverReads | cutoverWrites => cases hplain

theorem writePointer_ok (idx : Nat) (hidx : idx ≤ i32Max) (step : Step) (w : World ρ) :
    writePointer env idx step w =
      (.ok (), (w.setRow fun r => r.updateStepIndex idx (some step.kind.asDbStr)).tick) := by
  rw [writePointer, if_neg (by omega)]
  exact act_quiet env hquiet _ _ w

/-- **The loop** goes through plain steps. -/
theorem runSteps_plain (pre l : List Step) (idx : Nat) (w : World ρ)
    (hplain : ∀ step ∈ pre, step.kind.isPlain = true)
    (hconsistent : ∀ step ∈ pre, step.isConsistent = true)
    (hidx : idx + pre.length ≤ i32Max + 1) :
    ∃ w', runSteps env plan false 0 idx (pre ++ l) w =
        runSteps env plan false 0 (idx + pre.length) l w' ∧
      w'.row.status = w.row.status ∧
      w'.executed = w.executed ++ pre.map Step.ordinal := by
  induction pre generalizing idx w with
  | nil => exact ⟨w, rfl, rfl, by rw [List.map_nil, List.append_nil]⟩
  | cons step pre ih =>
    obtain ⟨hp, hps⟩ := List.forall_mem_cons.mp hplain
    obtain ⟨hc, hcs⟩ := List.forall_mem_cons.mp hconsistent
    rw [List.length_cons] at hidx
    have hpointer := writePointer_ok env hquiet idx (by omega) step w
    obtain ⟨w₁, hexec, hrow, hexecuted⟩ := executeStep_plain env hquiet plan false step hp hc
      (w.setRow fun r => r.updateStepIndex idx (some step.kind.asDbStr)).tick
    have hrecord : recordingFailure env (noted step (executeStep env plan false step))
        (w.setRow fun r => r.updateStepIndex idx (some step.kind.asDbStr)).tick =
        (.ok .completed, { w₁ with executed := w₁.executed ++ [step.ordinal] }) := by
      simp only [recordingFailure, noted, hexec]
    obtain ⟨w', hrun, hstatus, hexecuted'⟩ := ih (idx + 1)
      { w₁ with executed := w₁.executed ++ [step.ordinal] } hps hcs (by omega)
    refine ⟨w', ?_, ?_, ?_⟩
    · rw [List.cons_append, runSteps, if_neg (Nat.not_lt_zero idx),
        bind_of_ok _ _ _ _ _ hpointer, bind_of_ok _ _ _ _ _ hrecord]
      show runSteps env plan false 0 (idx + 1) (pre ++ l) _ = _
      rw [hrun, List.length_cons, Nat.add_right_comm, Nat.add_assoc]
    · rw [hstatus]
      show w₁.row.status = _
      rw [hrow]
      rfl
    · rw [hexecuted', List.map_cons]
      show w₁.executed ++ [step.ordinal] ++ _ = _
      rw [hexecuted, List.append_assoc]
      rfl

theorem promoteComplete_quiet (w : World ρ) : ∃ w', promoteComplete env w = (.ok .completed, w') ∧
    w'.row.status = .complete ∧ w'.executed = w.executed := by
  have hstamp := act_quiet env hquiet ExecutorError.db
    (fun w => w.setRow fun r => r.stampCompletedAt w.clock) w
  have hstatus := act_quiet env hquiet ExecutorError.db
    (World.setRow fun r => r.updateStatus .complete)
    (w.setRow fun r => r.stampCompletedAt w.clock).tick
  refine ⟨_, (bind_of_ok _ _ _ _ _ hstamp).trans (bind_of_ok _ _ _ _ _ hstatus), rfl, rfl⟩

omit hquiet in
theorem executeStep_gate (isResume : Bool) (x : Step) (hgate : x.kind.isGate = true) :
    executeStep env plan isResume x = handleOperatorGate env x := by
  unfold executeStep
  cases hk : x.kind <;> rw [hk] at hgate <;> first | rfl | cases hgate

theorem handleOperatorGate_quiet (x : Step) (w : World ρ) : handleOperatorGate env x w =
    (.ok .paused, (w.setRow fun r => r.updateStatus (gateStatus x.kind)).tick) :=
  bind_of_ok _ _ _ _ () (act_quiet env hquiet _ _ w)

/-- A gate sets its status and ends the run. -/
theorem runSteps_gate (x : Step) (post : List Step) (idx : Nat) (w : World ρ)
    (hgate : x.kind.isGate = true) (hidx : idx ≤ i32Max) :
    (runSteps env plan false 0 idx (x :: post) w).2.row.status = gateStatus x.kind := by
  have hpointer := writePointer_ok env hquiet idx hidx x w
  obtain ⟨w₁, hw₁⟩ : ∃ w₁, w₁ = (w.setRow fun r =>
    r.updateStepIndex idx (some x.kind.asDbStr)).tick := ⟨_, rfl⟩
  have hexec := handleOperatorGate_quiet env hquiet x w₁
  have hrecord : recordingFailure env (noted x (executeStep env plan false x)) w₁ =
      (.ok .paused, { (w₁.setRow fun r => r.updateStatus (gateStatus x.kind)).tick with
        executed := w₁.executed ++ [x.ordinal] }) := by
    simp only [recordingFailure, noted, executeStep_gate env plan false x hgate, hexec]
    rfl
  rw [runSteps, if_neg (Nat.not_lt_zero idx), bind_of_ok _ _ _ _ _ hpointer, ← hw₁,
    bind_of_ok _ _ _ _ _ hrecord]
  rfl

/-- A backfill is refused unless the row is in `running`. -/
theorem driveChunks_refused (planId : Int) (table predicateTemplate : String) (chunkSize : Nat)
    (resumeFrom : ResumeFrom) (w : World ρ) (h : w.row.status ≠ .running) :
    ∃ e w', driveChunks env planId table predicateTemplate chunkSize resumeFrom w =
      (.error (.error e), w') := by
  unfold driveChunks lookupPlanRow
  by_cases hzero : chunkSize = 0
  · exact ⟨_, _, if_pos hzero⟩
  rw [if_neg hzero, act_quiet env hquiet]
  cases validateTableIdent table with
  | error e => exact ⟨e, w, rfl⟩
  | ok u =>
    cases validatePredicateTemplate predicateTemplate with
    | error e => exact ⟨e, w, rfl⟩
    | ok u =>
      by_cases hid : w.row.planId = planId
      · simp only [if_pos hid, if_pos h]
        exact ⟨_, _, rfl⟩
      · simp only [if_neg hid]
        exact ⟨_, _, rfl⟩

/-- A backfill of a plan that is not in `running` fails it. -/
theorem runSteps_backfill (x : Step) (post : List Step) (idx : Nat) (w : World ρ)
    (hkind : x.kind = .backfillChunked) (hidx : idx ≤ i32Max) (hstatus : w.row.status ≠ .running) :
    (runSteps env plan false 0 idx (x :: post) w).2.row.status = .failedTerminal := by
  have hpointer := writePointer_ok env hquiet idx hidx x w
  have hexec : ∀ w₁ : World ρ, w₁.row.status ≠ .running →
      ∃ e w₂, executeStep env plan false x w₁ = (.error (.error e), w₂) := by
    intro w₁ hw₁
    simp only [executeStep, hkind, executeBackfillStep]
    cases hp : x.parameters with
    | backfillChunked table predicateTemplate chunkSize =>
      obtain ⟨e, w₂, he⟩ := driveChunks_refused env hquiet plan.header.planId table
        predicateTemplate chunkSize .initial w₁ hw₁
      have hbind := bind_of_error _ (fun _ => (pure .completed :
        Run (World ρ) (Stop BackfillError) StepResult)) _ _ _ he
      simp only [mapError, onError, executeBackfill, Bool.false_eq_true, if_false]
      rw [hbind]
      cases e <;> exact ⟨_, _, rfl⟩
    | _ => exact ⟨_, _, rfl⟩
  obtain ⟨e, w₂, he⟩ := hexec _ (show
    (w.setRow fun r => r.updateStepIndex idx (some x.kind.asDbStr)).tick.row.status ≠ _
    from hstatus)
  rw [runSteps, if_neg (Nat.not_lt_zero idx), bind_of_ok _ _ _ _ _ hpointer]
  have hrecord : recordingFailure env (noted x (executeStep env plan false x))
      (w.setRow fun r => r.updateStepIndex idx (some x.kind.asDbStr)).tick =
      (.error (.error e), (w₂.setRow fun r => r.recordFailure e.toString false).tick) := by
    simp only [recordingFailure, noted, he]
    exact bind_of_ok _ _ _ _ _ (act_quiet env hquiet _ _ w₂)
  rw [bind_of_error _ _ _ _ _ hrecord]
  rfl

omit hquiet in
/-- The pointer cannot be written. -/
theorem runSteps_overflow (x : Step) (post : List Step) (idx : Nat) (w : World ρ)
    (hidx : i32Max < idx) : (runSteps env plan false 0 idx (x :: post) w).2 = w := by
  rw [runSteps, if_neg (Nat.not_lt_zero idx), writePointer, if_pos hidx]
  rfl

end Loop

/-! ## Commands without failures -/

section Commands

variable (env : Env ρ) (hquiet : env.quiet) (plan : LivePlan)

theorem check_ok {α : Type} (e : Except LiveCmdError α) (a : α) (w : World ρ) (h : e = .ok a) :
    check e w = (.ok a, w) := by
  rw [h]
  rfl

theorem check_error {α : Type} (e : Except LiveCmdError α) (err : LiveCmdError) (w : World ρ)
    (h : e = .error err) : check e w = (.error (.error err), w) := by
  rw [h]
  rfl

include hquiet

theorem fetchRow_quiet (w : World ρ) : fetchRow env w = (.ok w.row, w.tick) := by
  rw [fetchRow, act_quiet env hquiet]
  rfl

/-- `live run` is refused or goes through the steps. -/
theorem runCmd_cases (allowDestructive : Bool) (justify : Option String) (w : World ρ) :
    (runCmd env plan allowDestructive justify w).2.row = w.row ∨
      (runCmd env plan allowDestructive justify w).2 =
        (runSteps env plan false 0 0 plan.steps w.tick).2 := by
  unfold runCmd
  cases hjustify : requireJustifyForDestructive allowDestructive justify with
  | error e =>
      rw [bind_of_error _ _ _ _ _ (check_error _ e w rfl)]
      exact .inl rfl
  | ok u =>
    rw [bind_of_ok _ _ _ _ _ (check_ok _ u w rfl),
      bind_of_ok _ _ _ _ _ (fetchRow_quiet env hquiet w)]
    cases hstatus : assertRunStatusAllowsProgress w.row.status with
    | error e =>
        rw [bind_of_error _ _ _ _ _ (check_error _ e w.tick rfl)]
        exact .inl rfl
    | ok u =>
      rw [bind_of_ok _ _ _ _ _ (check_ok _ u w.tick rfl)]
      cases hgate : requireDestructiveGateForPlan plan allowDestructive justify with
      | error e =>
          rw [bind_of_error _ _ _ _ _ (check_error _ e w.tick rfl)]
          exact .inl rfl
      | ok u =>
        rw [bind_of_ok _ _ _ _ _ (check_ok _ u w.tick rfl), mapError_snd]
        unfold runPlan
        split_ifs
        · exact .inl rfl
        · exact .inr rfl

/-- With the operator's consent it goes through the steps. -/
theorem runCmd_consented (w : World ρ) (h : assertRunStatusAllowsProgress w.row.status = .ok ()) :
    (runCmd env plan true (some "consent") w).2 =
      (runSteps env plan false 0 0 plan.steps w.tick).2 := by
  have hjustify : justifyIsEmpty (some "consent") = false := by decide +kernel
  have hgate : requireDestructiveGateForPlan plan true (some "consent") = .ok () := by
    rw [requireDestructiveGateForPlan, hjustify]
    cases plan.hasDestructiveSteps <;> rfl
  unfold runCmd
  rw [bind_of_ok _ _ _ _ _ (check_ok _ () w (by rw [requireJustifyForDestructive, hjustify]; rfl)),
    bind_of_ok _ _ _ _ _ (fetchRow_quiet env hquiet w),
    bind_of_ok _ _ _ _ _ (check_ok _ () w.tick h),
    bind_of_ok _ _ _ _ _ (check_ok _ () w.tick hgate), mapError_snd, runPlan, hjustify]
  simp

theorem abandonCmd_quiet (w : World ρ) (h : assertAbandonStatus w.row.status = .ok ()) :
    (abandonCmd env w).2.row.status = .abandoned := by
  unfold abandonCmd
  rw [bind_of_ok _ _ _ _ _ (fetchRow_quiet env hquiet w),
    bind_of_ok _ _ _ _ _ (check_ok _ () w.tick h),
    bind_of_ok _ _ _ _ _ (act_quiet env hquiet _ _ w.tick)]
  rfl

/-- What can come of a command in a status that only `live run` and `live abandon` accept. -/
theorem exec_status (cmd : Command) (w : World ρ)
    (hadmitted : cmd.assertStatus w.row.status = .ok ())
    (hstatus : w.row.status = .pending ∨ w.row.status = .validating ∨ w.row.status = .cutover ∨
      w.row.status = .complete ∨ w.row.status = .abandoned) :
    (cmd.exec env plan w).2.row.status = .abandoned ∨
      (cmd.exec env plan w).2.row = w.row ∧ w.row.status = .pending ∨
      w.row.status = .pending ∧
        (cmd.exec env plan w).2 = (runSteps env plan false 0 0 plan.steps w.tick).2 := by
  cases cmd with
  | run a j =>
    have hpending : w.row.status = .pending := by
      rcases hstatus with h | h | h | h | h
      · exact h
      all_goals rw [h] at hadmitted; cases hadmitted
    rcases runCmd_cases env hquiet plan a j w with h | h
    · exact .inr (.inl ⟨h, hpending⟩)
    · exact .inr (.inr ⟨hpending, h⟩)
  | resume a j => rcases hstatus with h | h | h | h | h <;> rw [h] at hadmitted <;> cases hadmitted
  | finalize j => rcases hstatus with h | h | h | h | h <;> rw [h] at hadmitted <;> cases hadmitted
  | abandon => exact .inl (abandonCmd_quiet env hquiet w hadmitted)

/-! ## Plans that are driven -/

/-- A plan of plain steps is complete after one run. -/
theorem runSteps_complete (hplain : ∀ step ∈ plan.steps, step.kind.isPlain = true)
    (hconsistent : ∀ step ∈ plan.steps, step.isConsistent = true)
    (hlength : plan.steps.length ≤ i32Max + 1) (w : World ρ) :
    (runSteps env plan false 0 0 plan.steps w).2.row.status = .complete ∧
      (runSteps env plan false 0 0 plan.steps w).2.executed =
        w.executed ++ plan.steps.map Step.ordinal := by
  obtain ⟨w₁, hrun, -, hexecuted⟩ := runSteps_plain env hquiet plan plan.steps [] 0 w hplain
    hconsistent (by omega)
  obtain ⟨w₂, hpromote, hcomplete, hkept⟩ := promoteComplete_quiet env hquiet w₁
  rw [List.append_nil, runSteps, hpromote] at hrun
  rw [hrun]
  exact ⟨hcomplete, hkept.trans hexecuted⟩

theorem drivable_of_plain (pending : String → List ρ)
    (hplain : ∀ step ∈ plan.steps, step.kind.isPlain = true)
    (hconsistent : ∀ step ∈ plan.steps, step.isConsistent = true)
    (hlength : plan.steps.length ≤ i32Max + 1) : Drivable env pending plan := by
  have hstatus : ∀ w, Reaches env plan (.start plan pending) w → w.row.status = .pending ∨
      w.row.status = .complete ∨ w.row.status = .abandoned := by
    intro w hw
    induction hw with
    | refl => exact .inl rfl
    | tail _ hstep ih =>
      obtain ⟨cmd, hadmitted, rfl⟩ := hstep
      rcases exec_status env hquiet plan cmd _ hadmitted (by tauto) with h | ⟨h, hp⟩ | ⟨-, h⟩
      · exact .inr (.inr h)
      · exact .inl (by rw [h, hp])
      · rw [h]
        exact .inr (.inl (runSteps_complete env hquiet plan hplain hconsistent hlength _).1)
  refine ⟨fun w hw hend => ?_, fun w hw => ?_, fun _ _ _ _ _ _ step hstep hgate => ?_⟩
  · have hpending : w.row.status = .pending := by
      rcases hstatus w hw with h | h | h
      · exact h
      all_goals rw [h] at hend; cases hend
    have hadmitted : assertRunStatusAllowsProgress w.row.status = .ok () := by rw [hpending]; rfl
    obtain ⟨hcomplete, hexecuted⟩ := runSteps_complete env hquiet plan hplain hconsistent hlength
      w.tick
    have hrun := runCmd_consented env hquiet plan w hadmitted
    refine ⟨_, .single ⟨.run true (some "consent"), hadmitted, rfl⟩, ?_, fun step hstep => ?_⟩
    · show (runCmd env plan true (some "consent") w).2.row.status = _
      rw [hrun, hcomplete]
    · show step.ordinal ∈ (runCmd env plan true (some "consent") w).2.executed
      rw [hrun, hexecuted]
      exact List.mem_append_right _ (List.mem_map_of_mem hstep)
  · rcases hstatus w hw with h | h | h <;> rw [h] <;> decide
  · rw [step.kind.gate_of_plain (hplain step hstep)] at hgate
    cases hgate

/-! ## Plans that are not -/

/-- A run from `pending` that ends in a status no command goes on from. -/
def Blocks (env : Env ρ) (plan : LivePlan) : Prop :=
  ∀ w : World ρ, w.row.status = .pending →
    (runSteps env plan false 0 0 plan.steps w).2.row.status = .pending ∨
    (runSteps env plan false 0 0 plan.steps w).2.row.status = .validating ∨
    (runSteps env plan false 0 0 plan.steps w).2.row.status = .cutover

/-- **A dead end.** Such a plan never completes. -/
theorem blocked_forever (pending : String → List ρ) (hblocks : Blocks env plan) :
    ¬Drivable env pending plan := by
  have hstatus : ∀ w, Reaches env plan (.start plan pending) w → w.row.status = .pending ∨
      w.row.status = .validating ∨ w.row.status = .cutover ∨ w.row.status = .abandoned := by
    intro w hw
    induction hw with
    | refl => exact .inl rfl
    | tail _ hstep ih =>
      obtain ⟨cmd, hadmitted, rfl⟩ := hstep
      rcases exec_status env hquiet plan cmd _ hadmitted (by tauto) with h | ⟨h, hp⟩ | ⟨hp, h⟩
      · exact .inr (.inr (.inr h))
      · exact .inl (by rw [h, hp])
      · rw [h]
        rcases hblocks (World.tick _) hp with hb | hb | hb
        · exact .inl hb
        · exact .inr (.inl hb)
        · exact .inr (.inr (.inl hb))
  intro hdrivable
  obtain ⟨w, hw, hcomplete, -⟩ := hdrivable.completes (.start plan pending) .refl rfl
  rcases hstatus w hw with h | h | h | h <;> rw [hcomplete] at h <;> cases h

end Commands

/-- The first step that is not plain, or the one that the pointer cannot reach. -/
theorem exists_block (n : Nat) (l : List Step)
    (h : ¬((∀ step ∈ l, step.kind.isPlain = true) ∧ l.length ≤ n)) :
    ∃ pre x post, l = pre ++ x :: post ∧ (∀ step ∈ pre, step.kind.isPlain = true) ∧
      pre.length ≤ n ∧ (pre.length = n ∨ x.kind.isPlain = false) := by
  induction l generalizing n with
  | nil => exact absurd ⟨fun _ hs => absurd hs List.not_mem_nil, Nat.zero_le n⟩ h
  | cons x l ih =>
    cases hx : x.kind.isPlain with
    | false =>
      exact ⟨[], x, l, rfl, fun _ hs => absurd hs List.not_mem_nil, Nat.zero_le n, .inr hx⟩
    | true =>
      cases n with
      | zero => exact ⟨[], x, l, rfl, fun _ hs => absurd hs List.not_mem_nil, le_rfl, .inl rfl⟩
      | succ n =>
        obtain ⟨pre, y, post, rfl, hpre, hlength, hblock⟩ := ih n fun hall => h
          ⟨List.forall_mem_cons.mpr ⟨hx, hall.1⟩, by rw [List.length_cons]; omega⟩
        refine ⟨x :: pre, y, post, rfl, List.forall_mem_cons.mpr ⟨hx, hpre⟩, ?_, ?_⟩
        · rw [List.length_cons]
          omega
        · exact hblock.imp (fun heq => by rw [List.length_cons, heq]) id

theorem gateStatus_of_gate (k : StepKind) (h : k.isGate = true) :
    gateStatus k = .validating ∨ gateStatus k = .cutover := by
  cases k <;> first | exact .inl rfl | exact .inr rfl | cases h

/-- What a run from `pending` does at the first step that is not plain. -/
theorem runSteps_block (env : Env ρ) (hquiet : env.quiet) (plan : LivePlan) (pre post : List Step)
    (x : Step) (hsteps : plan.steps = pre ++ x :: post)
    (hplain : ∀ step ∈ pre, step.kind.isPlain = true)
    (hconsistent : ∀ step ∈ plan.steps, step.isConsistent = true)
    (hlength : pre.length ≤ i32Max + 1)
    (hblock : pre.length = i32Max + 1 ∨ x.kind.isPlain = false) :
    Blocks env plan ∨ ∀ w : World ρ, w.row.status = .pending →
      (runSteps env plan false 0 0 plan.steps w).2.row.status = .failedTerminal := by
  have hreach : ∀ w : World ρ, ∃ w₁, w₁.row.status = w.row.status ∧
      runSteps env plan false 0 0 plan.steps w =
        runSteps env plan false 0 pre.length (x :: post) w₁ := by
    intro w
    obtain ⟨w₁, hrun, hstatus, -⟩ := runSteps_plain env hquiet plan pre (x :: post) 0 w hplain
      (fun step hs => hconsistent step (hsteps ▸ List.mem_append_left _ hs)) (by omega)
    rw [Nat.zero_add] at hrun
    exact ⟨w₁, hstatus, by rw [← hrun, ← hsteps]⟩
  by_cases hover : pre.length = i32Max + 1
  · refine .inl fun w hw => .inl ?_
    obtain ⟨w₁, hstatus, hrun⟩ := hreach w
    rw [hrun, runSteps_overflow env plan x post _ w₁ (by omega), hstatus, hw]
  have hidx : pre.length ≤ i32Max := by omega
  rcases x.kind.cases with hx | hx | hx
  · rw [hblock.resolve_left hover] at hx
    cases hx
  · refine .inl fun w hw => .inr ?_
    obtain ⟨w₁, -, hrun⟩ := hreach w
    rw [hrun, runSteps_gate env hquiet plan x post _ w₁ hx hidx]
    exact gateStatus_of_gate x.kind hx
  · refine .inr fun w hw => ?_
    obtain ⟨w₁, hstatus, hrun⟩ := hreach w
    rw [hrun, runSteps_backfill env hquiet plan x post _ w₁ hx hidx (by rw [hstatus, hw]; decide)]

/-- **Driving.** A valid plan can be driven to completion exactly when each of its steps is DDL or
opens a compatibility window, and the step pointer can count them. -/
theorem live_plan_driven_iff (env : Env ρ) (hquiet : env.quiet) (pending : String → List ρ)
    (plan : LivePlan) (hvalid : plan.validate = .ok ()) :
    Drivable env pending plan ↔
      (∀ step ∈ plan.steps, step.kind.isDdl = true ∨ step.kind = .beginCompatibilityWindow) ∧
        plan.steps.length ≤ 2 ^ 31 := by
  have hconsistent : ∀ step ∈ plan.steps, step.isConsistent = true := by
    intro step hstep
    obtain ⟨i, hi, rfl⟩ := List.getElem_of_mem hstep
    exact (plan.ordinal_of_valid hvalid i hi).1
  have hplain : (∀ step ∈ plan.steps,
        step.kind.isDdl = true ∨ step.kind = .beginCompatibilityWindow) ↔
      ∀ step ∈ plan.steps, step.kind.isPlain = true := by
    simp [StepKind.isPlain]
  have hmax : i32Max + 1 = 2 ^ 31 := rfl
  rw [hplain, ← hmax]
  refine ⟨fun hdrivable => ?_, fun h =>
    drivable_of_plain env hquiet plan pending h.1 hconsistent h.2⟩
  by_contra hnot
  obtain ⟨pre, x, post, hsteps, hpre, hlength, hblock⟩ := exists_block _ _ hnot
  rcases runSteps_block env hquiet plan pre post x hsteps hpre hconsistent hlength hblock with
    hblocks | hfails
  · exact blocked_forever env hquiet plan pending hblocks hdrivable
  · have hrun := runCmd_consented env hquiet plan (.start plan pending) rfl
    have hreached : Reaches env plan (.start plan pending)
        (runCmd env plan true (some "consent") (.start plan pending)).2 :=
      .single ⟨.run true (some "consent"), rfl, rfl⟩
    obtain ⟨-, -, hsafe⟩ := hdrivable.safe _ hreached
    rw [hrun] at hsafe
    exact hsafe (hfails _ rfl)

/-! ## A gate -/

def quietEnv : Env Nat where
  outcome := fun _ => .done
  scan := fun _ l => l
  scan_perm := fun _ _ => .refl _

def planOf (steps : List Step) : LivePlan := ⟨⟨1, "add_email", "main", "shop"⟩, steps⟩

def expandOnly : LivePlan :=
  planOf [⟨.expandSchema, 0, .expandSchema ["ALTER TABLE users ADD COLUMN email TEXT"]⟩]

/-- A column that is written beside the old one until it is indexed, required and alone. -/
def windowed : LivePlan :=
  planOf [
    ⟨.expandSchema, 0, .expandSchema ["ALTER TABLE users ADD COLUMN email TEXT"]⟩,
    ⟨.beginCompatibilityWindow, 1, .beginCompatibilityWindow
      ["dual_read::users::mail", "dual_write::users::mail"]⟩,
    ⟨.runReversibleSchemaOp, 2, .runReversibleSchemaOp
      "CREATE INDEX users_email_idx ON users (email)" "DROP INDEX users_email_idx"⟩,
    ⟨.finalizeConstraints, 3, .finalizeConstraints
      ["ALTER TABLE users ALTER COLUMN email SET NOT NULL"]⟩,
    ⟨.cleanupLegacyState, 4, .cleanupLegacyState ["ALTER TABLE users DROP COLUMN mail"]⟩]

/-- It is driven to completion, whatever rows the table has. -/
theorem live_plan_driven_windowed : Drivable quietEnv (fun _ => [7, 8]) windowed :=
  (live_plan_driven_iff quietEnv (fun _ => rfl) (fun _ => [7, 8]) windowed (by decide +kernel)).mpr
    ⟨by decide, by decide⟩

def gated : LivePlan :=
  planOf [⟨.cutoverReads, 0, .cutoverReads "switch the reads"⟩,
    ⟨.cleanupLegacyState, 1, .cleanupLegacyState ["ALTER TABLE users DROP COLUMN mail"]⟩]

/-- **A gate is a dead end.** No command accepts the status that it sets. -/
theorem gate_blocks : gated.validate = .ok () ∧ quietEnv.quiet ∧
    ¬Drivable quietEnv (fun _ => []) gated := by
  refine ⟨by decide +kernel, fun _ => rfl, ?_⟩
  refine blocked_forever quietEnv (fun _ => rfl) gated (fun _ => []) fun w _ => .inr (.inr ?_)
  exact runSteps_gate quietEnv (fun _ => rfl) gated _ _ 0 w rfl (Nat.zero_le _)

end Djogi.Live

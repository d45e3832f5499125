import Djogi.Live.Drive

/-!
# DDL steps commit once and in order

The pointer is written before a step and its transaction commits after. A command that starts at
an index with nothing committed from there on keeps the order, wherever it dies; a command that
starts again before a committed step commits it again.

* `meets_runSteps`: what the loop keeps, with a crash at any operation;
* `ddl_commits_in_order`: the committed steps over a whole history of commands;
* `ddl_commits_twice`: a run that dies after a commit, and the next run.
-/

namespace Djogi.Live

open Session

variable {ρ : Type}

/-! ## Committed steps -/

def ddlOrdinals (l : List Step) : List Nat := (l.filter fun s => s.kind.isDdl).map Step.ordinal

/-- The DDL steps before the index. -/
def ddlBefore (plan : LivePlan) (idx : Nat) : List Nat := ddlOrdinals (plan.steps.take idx)

/-- What is committed is the first DDL steps of the plan, all of them if it is complete. -/
def CommitsInOrder (plan : LivePlan) (w : World ρ) : Prop :=
  w.committed <+: ddlOrdinals plan.steps ∧
    (w.row.status = .complete → w.committed = ddlOrdinals plan.steps)

theorem ddlBefore_prefix (plan : LivePlan) (idx : Nat) :
    ddlBefore plan idx <+: ddlOrdinals plan.steps :=
  ((plan.steps.take_prefix idx).filter _).map _

theorem ddlBefore_length (plan : LivePlan) (idx : Nat) (h : plan.steps.length ≤ idx) :
    ddlBefore plan idx = ddlOrdinals plan.steps := by
  rw [ddlBefore, List.take_of_length_le h]

theorem ddlBefore_succ (plan : LivePlan) (idx : Nat) (step : Step)
    (h : plan.steps[idx]? = some step) : ddlBefore plan (idx + 1) =
      if step.kind.isDdl then ddlBefore plan idx ++ [step.ordinal] else ddlBefore plan idx := by
  rw [ddlBefore, List.take_add_one, h, ddlOrdinals, List.filter_append, List.map_append]
  cases hk : step.kind.isDdl <;> simp [ddlBefore, ddlOrdinals, hk]

/-- The pointer is at the last step that may have committed. -/
structure Ledger (plan : LivePlan) (w : World ρ) : Prop where
  pointed : ∃ m : Nat, w.committed = ddlBefore plan m ∧
    (w.row.currentStepIndex = m ∨ w.row.currentStepIndex + 1 = m)
  complete : w.row.status = .complete → w.committed = ddlOrdinals plan.steps

theorem Ledger.inOrder (plan : LivePlan) (w : World ρ) (h : Ledger plan w) :
    CommitsInOrder plan w := by
  obtain ⟨m, hm, -⟩ := h.pointed
  exact ⟨hm ▸ ddlBefore_prefix plan m, h.complete⟩

/-! ## The loop -/

/-- The step at the index has been reached. -/
structure At (plan : LivePlan) (idx : Nat) (w : World ρ) : Prop where
  ledger : Ledger plan w
  committed : w.committed = ddlBefore plan idx
  status : w.row.status ≠ .complete

/-- The pointer is at the index. -/
structure Pointed (committed : List Nat) (idx : Nat) (w : World ρ) : Prop where
  committed_eq : w.committed = committed
  pointer : w.row.currentStepIndex = idx
  status : w.row.status ≠ .complete

section Loop

variable (env : Env ρ) (plan : LivePlan)

theorem Pointed.ledger (idx : Nat) (w : World ρ) (committed : List Nat)
    (h : Pointed committed idx w)
    (hc : committed = ddlBefore plan idx ∨ committed = ddlBefore plan (idx + 1)) :
    Ledger plan w := by
  refine ⟨?_, fun hs => absurd hs h.status⟩
  rcases hc with hc | hc
  · exact ⟨idx, h.committed_eq.trans hc, .inl h.pointer⟩
  · exact ⟨idx + 1, h.committed_eq.trans hc, .inr (by rw [h.pointer]; omega)⟩

theorem meets_act {ε : Type} (refused : String → ε) (f : World ρ → World ρ)
    {P : World ρ → Prop} {Q : Unit → World ρ → Prop} {E : Stop ε → World ρ → Prop}
    (hdone : ∀ w, P w → Q () (f w).tick) (hstop : ∀ e w, P w → E e w.tick) :
    Meets P (act env refused f) Q E := by
  intro w hw
  unfold act
  cases env.outcome w.clock with
  | done => exact hdone w hw
  | refused reason => exact hstop _ w hw
  | crashed => exact hstop _ w hw

theorem Pointed.tick (committed : List Nat) (idx : Nat) (w : World ρ)
    (h : Pointed committed idx w) : Pointed committed idx w.tick :=
  ⟨h.committed_eq, h.pointer, h.status⟩

theorem Pointed.commitChunk (committed : List Nat) (idx : Nat) (chunkSql : String)
    (chunkSize prior : Nat) (w : World ρ) (h : Pointed committed idx w) :
    Pointed committed idx (commitChunk env chunkSql chunkSize prior w) := by
  refine ⟨h.committed_eq, ?_, ?_⟩
  · rw [← h.pointer]
    simp only [Live.commitChunk]
    split_ifs <;> rfl
  · simp only [Live.commitChunk]
    split_ifs
    · exact PlanStatus.noConfusion
    · exact h.status

/-- A backfill commits no DDL. -/
theorem pointed_chunkLoop (committed : List Nat) (idx : Nat) (chunkSql : String)
    (chunkSize ordinal total : Nat) (chunks : List BackfillChunk) (w : World ρ)
    (h : Pointed committed idx w) :
    Pointed committed idx (chunkLoop env chunkSql chunkSize ordinal total chunks w).2 := by
  obtain ⟨_, hend⟩ := chunkLoop_keeps env chunkSql chunkSize
    (P := fun _ => Pointed committed idx)
    (fun total w hw => (hw.commitChunk env committed idx chunkSql chunkSize total w).tick)
    (fun _ w hw => hw.tick) ordinal total chunks w h
  exact hend

theorem pointed_driveChunks (committed : List Nat) (idx : Nat) (planId : Int)
    (table predicateTemplate : String) (chunkSize : Nat) (resumeFrom : ResumeFrom) :
    Meets (Pointed committed idx)
      (driveChunks env planId table predicateTemplate chunkSize resumeFrom)
      (fun _ => Pointed committed idx) fun _ => Pointed committed idx := by
  refine .of_keeps fun w hw => ?_
  unfold driveChunks
  split_ifs with hzero
  · exact hw
  split
  · exact hw
  · exact hw
  · unfold lookupPlanRow act
    cases env.outcome w.clock with
    | done =>
      by_cases hid : w.row.planId = planId
      · simp only [if_pos hid]
        split_ifs
        · exact hw.tick
        · exact pointed_chunkLoop env committed idx _ _ _ _ _ _ hw.tick
      · simp only [if_neg hid]
        exact hw.tick
    | refused reason => exact hw.tick
    | crashed => exact hw.tick

theorem At.tick (idx : Nat) (w : World ρ) (h : At plan idx w) : At plan idx w.tick :=
  ⟨⟨h.ledger.pointed, h.ledger.complete⟩, h.committed, h.status⟩

theorem Ledger.tick (w : World ρ) (h : Ledger plan w) : Ledger plan w.tick :=
  ⟨h.pointed, h.complete⟩

theorem meets_writePointer (idx : Nat) (step : Step) :
    Meets (At plan idx) (writePointer env idx step) (fun _ => Pointed (ddlBefore plan idx) idx)
      fun _ => Ledger plan := by
  unfold writePointer
  split_ifs
  · exact .fail _ fun w hw => hw.ledger
  · exact meets_act env _ _ (fun w hw => ⟨hw.committed, rfl, hw.status⟩)
      fun e w hw => hw.ledger.tick

/-- **One step.** A step that completes commits its body if it is a DDL step, and one that does
not complete commits nothing. -/
theorem meets_executeStep (isResume : Bool) (idx : Nat) (step : Step)
    (hstep : plan.steps[idx]? = some step) (hordinal : step.ordinal = idx)
    (hconsistent : step.isConsistent = true) :
    Meets (Pointed (ddlBefore plan idx) idx) (executeStep env plan isResume step)
      (fun r w => Pointed (ddlBefore plan idx) idx w ∧ r ≠ .completed ∨
        Pointed (ddlBefore plan (idx + 1)) idx w ∧ r = .completed)
      fun _ => Pointed (ddlBefore plan idx) idx := by
  obtain ⟨kind, ordinal, parameters⟩ := step
  obtain rfl : kind = parameters.kind := of_decide_eq_true hconsistent
  have hnext := ddlBefore_succ plan idx _ hstep
  cases parameters with
  | expandSchema _ | finalizeConstraints _ | cleanupLegacyState _ | runReversibleSchemaOp =>
    refine .bind (Q := fun _ => Pointed (ddlBefore plan (idx + 1)) idx)
      (meets_act env _ _ (fun w hw => ?_) fun e w hw => hw.tick)
      fun _ => .pure _ fun w hw => .inr ⟨hw, rfl⟩
    refine ⟨?_, hw.pointer, hw.status⟩
    show w.committed ++ [ordinal] = _
    rw [hnext, hw.committed_eq]
    rfl
  | beginCompatibilityWindow _ =>
    exact .pure _ fun w hw => .inr ⟨hnext ▸ hw, rfl⟩
  | backfillChunked table predicateTemplate chunkSize =>
    refine .mapError (E := fun _ => Pointed (ddlBefore plan idx) idx) ?_ fun e w hw => hw
    cases isResume with
    | false | true =>
      exact .bind (pointed_driveChunks env _ idx _ table predicateTemplate chunkSize _)
        fun _ => .pure _ fun w hw => Or.inr ⟨hnext ▸ hw, rfl⟩
  | validateBackfill _ | cutoverReads _ | cutoverWrites _ =>
    exact .bind (Q := fun _ => Pointed (ddlBefore plan idx) idx)
      (meets_act env _ _ (fun w hw => ⟨hw.committed_eq, hw.pointer, PlanStatus.noConfusion⟩)
        fun e w hw => hw.tick)
      fun _ => .pure _ fun w hw => .inl ⟨hw, by decide⟩

/-- A failure is recorded and commits nothing. -/
theorem meets_recorded (isResume : Bool) (idx : Nat) (step : Step)
    (hstep : plan.steps[idx]? = some step) (hordinal : step.ordinal = idx)
    (hconsistent : step.isConsistent = true) :
    Meets (Pointed (ddlBefore plan idx) idx)
      (recordingFailure env (noted step (executeStep env plan isResume step)))
      (fun r w => Pointed (ddlBefore plan idx) idx w ∧ r ≠ .completed ∨
        Pointed (ddlBefore plan (idx + 1)) idx w ∧ r = .completed)
      fun _ => Pointed (ddlBefore plan idx) idx := by
  intro w hw
  have hexec := meets_executeStep env plan isResume idx step hstep hordinal hconsistent w hw
  simp only [recordingFailure, noted]
  cases hrun : executeStep env plan isResume step w with
  | mk r w' =>
    rw [hrun] at hexec
    cases r with
    | ok r =>
      rcases hexec with ⟨h, hr⟩ | ⟨h, hr⟩
      · exact .inl ⟨⟨h.committed_eq, h.pointer, h.status⟩, hr⟩
      · exact .inr ⟨⟨h.committed_eq, h.pointer, h.status⟩, hr⟩
    | error e =>
      cases e with
      | crash => exact hexec
      | error e =>
        exact Meets.bind (Q := fun _ => Pointed (ddlBefore plan idx) idx)
          (meets_act env _ _ (fun w hw => ⟨hw.committed_eq, hw.pointer, PlanStatus.noConfusion⟩)
            fun e w hw => hw.tick)
          (fun _ => .fail _ fun w hw => hw) w' hexec

theorem meets_promoteComplete (idx : Nat) (h : plan.steps.length ≤ idx) :
    Meets (At plan idx) (promoteComplete env) (fun _ => Ledger plan) fun _ => Ledger plan := by
  refine .bind (Q := fun _ => At plan idx) (meets_act env _ _ (fun w hw => ?_)
    fun e w hw => hw.ledger.tick) fun _ => .bind (Q := fun _ => Ledger plan)
    (meets_act env _ _ (fun w hw => ?_) fun e w hw => hw.ledger.tick)
    fun _ => .pure _ fun w hw => hw
  · exact ⟨⟨hw.ledger.pointed, hw.ledger.complete⟩, hw.committed, hw.status⟩
  · exact ⟨hw.ledger.pointed, fun _ => hw.committed.trans (ddlBefore_length plan idx h)⟩

/-- **The loop.** From the index a command starts at, wherever the process dies, what is committed
is the first DDL steps, and the pointer is at the last of them or past it. -/
theorem meets_runSteps (hvalid : plan.validate = .ok ()) (isResume : Bool) (startIndex idx : Nat)
    (l : List Step) (hl : plan.steps.drop idx = l) :
    Meets (At plan (max idx startIndex)) (runSteps env plan isResume startIndex idx l)
      (fun _ => Ledger plan) fun _ => Ledger plan := by
  induction l generalizing idx with
  | nil =>
    have hlength : plan.steps.length ≤ idx := List.drop_eq_nil_iff.mp hl
    exact meets_promoteComplete env plan _ (by omega)
  | cons step rest ih =>
    have hidx : idx < plan.steps.length := by
      by_contra hge
      rw [List.drop_of_length_le (by omega)] at hl
      cases hl
    rw [List.drop_eq_getElem_cons hidx] at hl
    obtain ⟨rfl, hrest⟩ := List.cons.inj hl
    obtain ⟨hconsistent, hordinal⟩ := plan.ordinal_of_valid hvalid idx hidx
    rw [runSteps]
    split_ifs with hskip
    · exact (ih (idx + 1) hrest).pre fun w hw => by
        rwa [show max (idx + 1) startIndex = max idx startIndex by omega]
    · rw [show max idx startIndex = idx by omega]
      refine (meets_writePointer env plan idx _).bind fun _ => .bind
        ((meets_recorded env plan isResume idx _ (List.getElem?_eq_getElem hidx) hordinal
          hconsistent).conseq (fun w hw => hw) (fun r w hw => hw)
          fun e w hw => hw.ledger plan idx w _ (.inl rfl)) fun r => ?_
      cases r with
      | completed =>
        refine (ih (idx + 1) hrest).pre fun w hw => ?_
        rw [show max (idx + 1) startIndex = idx + 1 by omega]
        have hnext := hw.resolve_left fun h => h.2 rfl
        exact ⟨hnext.1.ledger plan idx w _ (.inr rfl), hnext.1.committed_eq, hnext.1.status⟩
      | partly _ _ | paused =>
        refine .pure _ fun w hw => ?_
        have hsame := hw.resolve_right (by simp)
        exact hsame.1.ledger plan idx w _ (.inl rfl)

end Loop

/-! ## Histories -/

/-- The command starts past everything committed. -/
def Command.startsPast (cmd : Command) (w : World ρ) : Prop :=
  cmd = .abandon ∨ ∀ ordinal ∈ w.committed, ordinal < cmd.startIndex w.row

/-- What is committed lies before the index. -/
theorem Ledger.at (plan : LivePlan) (hvalid : plan.validate = .ok ()) (idx : Nat) (w : World ρ)
    (h : Ledger plan w) (hpast : ∀ ordinal ∈ w.committed, ordinal < idx)
    (hidx : idx = 0 ∨ (idx : Int) = w.row.currentStepIndex) (hstatus : w.row.status ≠ .complete) :
    At plan idx w := by
  refine ⟨h, ?_, hstatus⟩
  rcases hidx with rfl | hidx
  · exact List.eq_nil_iff_forall_not_mem.mpr fun o ho => Nat.not_lt_zero o (hpast o ho)
  obtain ⟨m, hm, hpointer⟩ := h.pointed
  obtain rfl | rfl : m = idx ∨ m = idx + 1 := by omega
  · exact hm
  by_cases hlt : idx < plan.steps.length
  · obtain ⟨-, hordinal⟩ := plan.ordinal_of_valid hvalid idx hlt
    rw [ddlBefore_succ plan idx _ (List.getElem?_eq_getElem hlt)] at hm
    split_ifs at hm with hddl
    · have hmem := hpast plan.steps[idx].ordinal (by rw [hm]; simp)
      omega
    · exact hm
  · rw [hm, ddlBefore_length plan _ (by omega), ddlBefore_length plan _ (by omega)]

theorem meets_check {α : Type} {P : World ρ → Prop} (e : Except LiveCmdError α) :
    Meets P (check e) (fun a w => P w ∧ e = .ok a) fun _ => P := by
  cases e with
  | ok a => exact .pure a fun w hw => ⟨hw, rfl⟩
  | error e => exact .fail _ fun w hw => hw

theorem meets_fetchRow (env : Env ρ) {P : World ρ → Prop} (hP : ∀ w, P w → P w.tick) :
    Meets P (fetchRow env) (fun row w => P w ∧ row = w.row) fun _ => P := by
  intro w hw
  unfold fetchRow act
  cases env.outcome w.clock with
  | done => exact ⟨hP w hw, rfl⟩
  | refused reason => exact hP w hw
  | crashed => exact hP w hw

section Commands

variable (env : Env ρ) (plan : LivePlan) (hvalid : plan.validate = .ok ())

include hvalid

theorem meets_runPlan (startIndex : Nat) (isResume allowDestructive : Bool)
    (justify : Option String) : Meets (At plan startIndex)
      (runPlan env plan startIndex isResume allowDestructive justify)
      (fun _ => Ledger plan) fun _ => Ledger plan := by
  unfold runPlan
  split_ifs
  · exact .fail _ fun w hw => hw.ledger
  · refine (meets_runSteps env plan hvalid isResume startIndex 0 plan.steps rfl).pre
      fun w hw => ?_
    rwa [Nat.zero_max]

omit hvalid in
theorem not_complete (cmd : Command) (status : PlanStatus) (h : cmd.assertStatus status = .ok ()) :
    status ≠ .complete := by
  rintro rfl
  obtain ⟨e, he⟩ := terminal_refused cmd .complete rfl
  rw [he] at h
  cases h

theorem meets_runCmd (allowDestructive : Bool) (justify : Option String) :
    Meets (fun w : World ρ => Ledger plan w ∧ ∀ ordinal ∈ w.committed, ordinal < 0)
      (runCmd env plan allowDestructive justify) (fun _ => Ledger plan) fun _ => Ledger plan := by
  unfold runCmd
  refine .bind ((meets_check _).conseq (fun w h => h) (fun _ w h => h.1) fun _ w h => h.1)
    fun _ => .bind ((meets_fetchRow env fun w h => ⟨h.1.tick, h.2⟩).conseq (fun w h => h)
      (fun _ w h => h) fun _ w h => h.1) fun row =>
    .bind ((meets_check _).conseq (fun w h => h) (fun _ w h => h) fun _ w h => h.1.1)
      fun _ => .bind ((meets_check _).conseq (fun w h => h) (fun _ w h => h.1)
        fun _ w h => h.1.1.1) fun _ => .mapError ((meets_runPlan env plan hvalid 0 false
          allowDestructive justify).pre fun w h => ?_) fun _ w h => h
  obtain ⟨⟨⟨hledger, hpast⟩, rfl⟩, hstatus⟩ := h
  exact hledger.at plan hvalid 0 w hpast (.inl rfl)
    (not_complete (.run allowDestructive justify) _ hstatus)

/-- From the step that the row points at. -/
theorem meets_fromPointer (cmd : Command) (isResume allowDestructive : Bool)
    (justify : Option String) (row : LivePlanRow) :
    Meets (fun w : World ρ => (Ledger plan w ∧
        ∀ ordinal ∈ w.committed, ordinal < w.row.currentStepIndex.toNat) ∧
          row = w.row ∧ cmd.assertStatus row.status = .ok ())
      (do
        let startIdx ← check (checkedStepIndex row.currentStepIndex row.planId)
        mapError executorFailure (runPlan env plan startIdx isResume allowDestructive justify))
      (fun _ => Ledger plan) fun _ => Ledger plan := by
  refine .bind ((meets_check _).conseq (fun w h => h) (fun _ w h => h) fun _ w h => h.1.1)
    fun startIdx => .mapError ((meets_runPlan env plan hvalid startIdx isResume allowDestructive
      justify).pre fun w h => ?_) fun _ w h => h
  obtain ⟨⟨⟨hledger, hpast⟩, rfl, hstatus⟩, hindex⟩ := h
  unfold checkedStepIndex at hindex
  split_ifs at hindex with hnonneg
  obtain rfl := Except.ok.inj hindex
  exact hledger.at plan hvalid _ w hpast (.inr (by omega)) (not_complete cmd _ hstatus)

/-- **One command** keeps the ledger. -/
theorem meets_exec (cmd : Command) :
    Meets (fun w : World ρ => Ledger plan w ∧ cmd.startsPast w) (cmd.exec env plan)
      (fun _ => Ledger plan) fun _ => Ledger plan := by
  cases cmd with
  | run allowDestructive justify =>
    exact (meets_runCmd env plan hvalid allowDestructive justify).pre
      fun w h => ⟨h.1, h.2.resolve_left fun h => nomatch h⟩
  | resume allowDestructive justify =>
    refine .bind ((meets_check _).conseq (fun w h => h) (fun _ w h => h.1) fun _ w h => h.1)
      fun _ => .bind ((meets_fetchRow env fun w h => ⟨h.1.tick, h.2⟩).conseq (fun w h => h)
        (fun _ w h => h) fun _ w h => h.1) fun row =>
      .bind ((meets_check _).conseq (fun w h => h) (fun _ w h => h) fun _ w h => h.1.1)
        fun _ => (meets_fromPointer env plan hvalid (.resume allowDestructive justify) true
          allowDestructive justify row).pre fun w h => ?_
    obtain ⟨⟨⟨hledger, hpast⟩, rfl⟩, hstatus⟩ := h
    exact ⟨⟨hledger, hpast.resolve_left fun h => nomatch h⟩, rfl, hstatus⟩
  | finalize justify =>
    refine .bind ((meets_fetchRow env fun w h => ⟨h.1.tick, h.2⟩).conseq (fun w h => h)
        (fun _ w h => h) fun _ w h => h.1) fun row =>
      .bind ((meets_check _).conseq (fun w h => h) (fun _ w h => h) fun _ w h => h.1.1)
        fun _ => .bind ((meets_check _).conseq (fun w h => h) (fun _ w h => h.1)
          fun _ w h => h.1.1.1) fun _ => (meets_fromPointer env plan hvalid (.finalize justify)
            true true justify row).pre fun w h => ?_
    obtain ⟨⟨⟨hledger, hpast⟩, rfl⟩, hstatus⟩ := h
    exact ⟨⟨hledger, hpast.resolve_left fun h => nomatch h⟩, rfl, hstatus⟩
  | abandon =>
    refine .bind ((meets_fetchRow env fun w h => h.tick).conseq (fun w h => h.1)
        (fun _ w h => h.1) fun _ w h => h) fun row =>
      .bind ((meets_check _).conseq (fun w h => h) (fun _ w h => h.1) fun _ w h => h)
        fun _ => .bind (Q := fun _ => Ledger plan) (meets_act env _ _ (fun w h => ?_)
          fun e w h => h.tick) fun _ => .pure _ fun w h => h
    exact ⟨h.pointed, fun hc => nomatch hc⟩

end Commands

/-- **DDL steps commit once and in order** in every history whose commands start past everything
committed, whatever is refused and wherever the process dies. -/
theorem ddl_commits_in_order (env : Env ρ) (plan : LivePlan) (hvalid : plan.validate = .ok ())
    (w₀ w : World ρ) (hcommitted : w₀.committed = []) (hindex : w₀.row.currentStepIndex = 0)
    (hstatus : w₀.row.status ≠ .complete)
    (h : Relation.ReflTransGen (fun w w' => ∃ cmd : Command,
      cmd.assertStatus w.row.status = .ok () ∧ cmd.startsPast w ∧ w' = (cmd.exec env plan w).2)
      w₀ w) : CommitsInOrder plan w := by
  apply Ledger.inOrder
  induction h with
  | refl => exact ⟨⟨0, hcommitted, .inl hindex⟩, fun hc => absurd hc hstatus⟩
  | tail _ hstep ih =>
    obtain ⟨cmd, -, hpast, rfl⟩ := hstep
    exact (meets_exec env plan hvalid cmd).keeps _ ⟨ih, hpast⟩

/-- The process dies at one operation. -/
def crashAt (n : Nat) : Env Nat where
  outcome := fun k => if k = n then .crashed else .done
  scan := fun _ l => l
  scan_perm := fun _ _ => .refl _

def runOnce (env : Env Nat) (w : World Nat) : World Nat :=
  ((Command.run false none).exec env expandOnly w).2

def emptyLedger : World Nat := .start expandOnly fun _ => []

/-- The first run dies in the transaction of the step, and the second one commits it. -/
theorem ddl_commits_after_crash :
    CommitsInOrder expandOnly (runOnce (crashAt 2) (runOnce (crashAt 2) emptyLedger)) :=
  ddl_commits_in_order (crashAt 2) expandOnly (by decide +kernel) emptyLedger _ rfl rfl
    (by decide) (.tail (.single ⟨.run false none, by decide +kernel, .inr (by decide), rfl⟩)
      ⟨.run false none, by decide +kernel, .inr (by decide +kernel), rfl⟩)

/-- **Twice.** The first run dies after the commit of the step and before the next write. The row
is still `pending`, so the next run starts at the first step and commits it again. -/
theorem ddl_commits_twice : expandOnly.validate = .ok () ∧
    Reaches (crashAt 3) expandOnly emptyLedger
      (runOnce (crashAt 3) (runOnce (crashAt 3) emptyLedger)) ∧
    (runOnce (crashAt 3) (runOnce (crashAt 3) emptyLedger)).committed = [0, 0] ∧
    ¬CommitsInOrder expandOnly (runOnce (crashAt 3) (runOnce (crashAt 3) emptyLedger)) := by
  have hcommitted : (runOnce (crashAt 3) (runOnce (crashAt 3) emptyLedger)).committed = [0, 0] := by
    decide +kernel
  refine ⟨by decide +kernel, .tail (.single ⟨.run false none, by decide +kernel, rfl⟩)
    ⟨.run false none, by decide +kernel, rfl⟩, hcommitted, fun h => ?_⟩
  have hpre := h.1
  rw [hcommitted] at hpre
  exact absurd hpre (by decide)

end Djogi.Live

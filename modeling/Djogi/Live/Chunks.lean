import Djogi.Live.Commits

/-!
# A backfill is exact

Runs of the chunk loop that may be cut short at any transaction, each resumed from the progress
that the row records.

* `exact_driveChunks`: no row is lost or transformed twice, and the progress counts the rows;
* `driveChunks_transactions`: how many transactions a run takes;
* `driveChunks_undisturbed`: how a run ends that nothing disturbs;
* `backfill_exact_iff`: such a run succeeds unless the pending rows fill their chunks exactly;
* `backfill_stuck`: two rows in one chunk of two.
-/

namespace Djogi.Live

open Session

variable {ρ : Type}

/-! ## Progress -/

/-- Every row is pending or transformed, and the row of the plan counts the transformed ones. -/
structure Exact (chunkSql : String) (rows : List ρ) (w : World ρ) : Prop where
  perm : (w.transformed chunkSql ++ w.pending chunkSql).Perm rows
  progress : w.row.backfillRowsDone = (min (w.transformed chunkSql).length i64Max : Nat)

section Loop

variable (env : Env ρ) (chunkSql : String) (chunkSize : Nat)

theorem Exact.tick (rows : List ρ) (w : World ρ) (h : Exact chunkSql rows w) :
    Exact chunkSql rows w.tick := ⟨h.perm, h.progress⟩

theorem length_transformed_commitChunk (prior : Nat) (w : World ρ) :
    ((commitChunk env chunkSql chunkSize prior w).transformed chunkSql).length =
      (w.transformed chunkSql).length + min chunkSize (w.pending chunkSql).length := by
  simp [commitChunk, (env.scan_perm _ _).length_eq]

/-- **One chunk.** -/
theorem Exact.commitChunk (rows : List ρ) (prior : Nat) (w : World ρ)
    (h : Exact chunkSql rows w) (hprior : prior = min (w.transformed chunkSql).length i64Max) :
    Exact chunkSql rows (commitChunk env chunkSql chunkSize prior w) := by
  constructor
  · have hscan := env.scan_perm w.clock (w.pending chunkSql)
    simp only [Live.commitChunk, Function.update_self, List.append_assoc, List.take_append_drop]
    exact (hscan.append_left _).trans h.perm
  · rw [length_transformed_commitChunk]
    have hrow : (Live.commitChunk env chunkSql chunkSize prior w).row.backfillRowsDone =
        (computeRowsDoneTotal prior (min chunkSize (w.pending chunkSql).length) : Nat) := by
      simp only [Live.commitChunk]
      split_ifs <;> rfl
    rw [hrow, computeRowsDoneTotal_eq]
    omega

theorem exact_chunkLoop (rows : List ρ) (ordinal total : Nat) (chunks : List BackfillChunk)
    (w : World ρ) (h : Exact chunkSql rows w)
    (htotal : total = min (w.transformed chunkSql).length i64Max) :
    Exact chunkSql rows (chunkLoop env chunkSql chunkSize ordinal total chunks w).2 ∧
      w.transformed chunkSql <+:
        (chunkLoop env chunkSql chunkSize ordinal total chunks w).2.transformed chunkSql := by
  have hcommit : ∀ total w', (Exact chunkSql rows w' ∧
        total = min (w'.transformed chunkSql).length i64Max) ∧
      w.transformed chunkSql <+: w'.transformed chunkSql →
      (Exact chunkSql rows (commitChunk env chunkSql chunkSize total w').tick ∧
        computeRowsDoneTotal total (min chunkSize (w'.pending chunkSql).length) =
          min ((commitChunk env chunkSql chunkSize total w').transformed chunkSql).length i64Max) ∧
      w.transformed chunkSql <+:
        (commitChunk env chunkSql chunkSize total w').transformed chunkSql := by
    rintro total w' ⟨⟨hexact, htotal'⟩, hpre⟩
    refine ⟨⟨(hexact.commitChunk env chunkSql chunkSize rows total w' htotal').tick _ _ _, ?_⟩,
      hpre.trans (by simp [commitChunk])⟩
    rw [length_transformed_commitChunk, computeRowsDoneTotal_eq]
    omega
  obtain ⟨_, ⟨hexact, -⟩, hpre⟩ := chunkLoop_keeps env chunkSql chunkSize
    (P := fun total w' => (Exact chunkSql rows w' ∧
        total = min (w'.transformed chunkSql).length i64Max) ∧
      w.transformed chunkSql <+: w'.transformed chunkSql) hcommit
    (fun _ w' hw' => ⟨⟨hw'.1.1.tick chunkSql rows w', hw'.1.2⟩, hw'.2⟩)
    ordinal total chunks w ⟨⟨h, htotal⟩, List.prefix_refl _⟩
  exact ⟨hexact, hpre⟩

theorem planId_chunkLoop (ordinal total : Nat) (chunks : List BackfillChunk) (w : World ρ) :
    (chunkLoop env chunkSql chunkSize ordinal total chunks w).2.row.planId = w.row.planId := by
  have hcommit : ∀ total w', w'.row.planId = w.row.planId →
      (commitChunk env chunkSql chunkSize total w').tick.row.planId = w.row.planId := by
    intro total w' hw'
    rw [← hw']
    show (commitChunk env chunkSql chunkSize total w').row.planId = _
    simp only [commitChunk]
    split_ifs <;> rfl
  obtain ⟨_, hend⟩ := chunkLoop_keeps env chunkSql chunkSize
    (P := fun _ w' => w'.row.planId = w.row.planId) hcommit (fun _ w' hw' => hw') ordinal total
    chunks w rfl
  exact hend

/-- What a chunk leaves if it was full. -/
theorem full_chunk (prior : Nat) (w : World ρ)
    (hfull : ¬min chunkSize (w.pending chunkSql).length < chunkSize)
    (hchunk : min chunkSize (w.pending chunkSql).length ≠ 0) :
    chunkSize ≤ (w.pending chunkSql).length ∧ 0 < chunkSize ∧
      ((commitChunk env chunkSql chunkSize prior w).pending chunkSql).length / chunkSize + 1 =
        (w.pending chunkSql).length / chunkSize := by
  have hle : chunkSize ≤ (w.pending chunkSql).length := by omega
  have hpos : 0 < chunkSize := by omega
  refine ⟨hle, hpos, ?_⟩
  rw [length_pending_commitChunk, Nat.div_eq_sub_div hpos hle]

/-- **Transactions.** Each chunk but the last is full. -/
theorem chunkLoop_transactions (ordinal total : Nat) (chunks : List BackfillChunk) (w : World ρ) :
    (chunkLoop env chunkSql chunkSize ordinal total chunks w).2.chunkTransactions ≤
        w.chunkTransactions + ((w.pending chunkSql).length / chunkSize + 1) ∧
      (chunkLoop env chunkSql chunkSize ordinal total chunks w).2.clock ≤
        w.clock + ((w.pending chunkSql).length / chunkSize + 1) := by
  induction hn : (w.pending chunkSql).length using Nat.strong_induction_on
    generalizing ordinal total chunks w with
  | _ n ih =>
    subst hn
    rw [chunkLoop_eq]
    cases hrun : runOneChunk env chunkSql chunkSize total w with
    | mk r w' =>
      cases r with
      | error e =>
        obtain rfl := runOneChunk_error env chunkSql chunkSize total w w' e hrun
        exact ⟨Nat.le_add_right _ _, Nat.add_le_add_left (Nat.le_add_left 1 _) w.clock⟩
      | ok affected =>
        obtain ⟨haffected, rfl⟩ := runOneChunk_ok env chunkSql chunkSize total w w' affected hrun
        have hstop : w.chunkTransactions + 1 ≤
              w.chunkTransactions + ((w.pending chunkSql).length / chunkSize + 1) ∧
            w.clock + 1 ≤ w.clock + ((w.pending chunkSql).length / chunkSize + 1) :=
          ⟨Nat.add_le_add_left (Nat.le_add_left 1 _) _, Nat.add_le_add_left (Nat.le_add_left 1 _) _⟩
        dsimp only
        split_ifs with hfirst hzero hpart
        · exact hstop
        · exact hstop
        · exact hstop
        · subst haffected
          obtain ⟨-, -, hdiv⟩ := full_chunk env chunkSql chunkSize total w hpart hzero
          obtain ⟨ht, hc⟩ := ih _ (chunkLoop_pending env chunkSql chunkSize total w _ _ hrun hzero)
            (ordinal + 1) (computeRowsDoneTotal total _) (chunks ++ [⟨ordinal, _, _⟩])
            (commitChunk env chunkSql chunkSize total w).tick rfl
          have hpending : ((commitChunk env chunkSql chunkSize total w).tick.pending
              chunkSql).length / chunkSize + 1 = (w.pending chunkSql).length / chunkSize := hdiv
          have htx : (commitChunk env chunkSql chunkSize total w).tick.chunkTransactions =
              w.chunkTransactions + 1 := rfl
          have hclock : (commitChunk env chunkSql chunkSize total w).tick.clock = w.clock + 1 := rfl
          exact ⟨ht.trans (by omega), hc.trans (by omega)⟩

/-- **An undisturbed loop** exhausts the predicate. It takes the empty chunk after the last full
one for a predicate that is stuck. -/
theorem chunkLoop_undisturbed (ordinal total : Nat) (chunks : List BackfillChunk) (w : World ρ)
    (hquiet : ∀ n, w.clock ≤ n → env.outcome n = .done) (hpos : 0 < chunkSize)
    (hordinal : 0 < ordinal) :
    (chunkLoop env chunkSql chunkSize ordinal total chunks w).2.pending chunkSql = [] ∧
      (chunkLoop env chunkSql chunkSize ordinal total chunks w).2.row.status = .validating ∧
      if ¬chunkSize ∣ (w.pending chunkSql).length ∨ (w.pending chunkSql).length = 0 ∧ ordinal = 1
      then ∃ done, (chunkLoop env chunkSql chunkSize ordinal total chunks w).1 = .ok done
      else (chunkLoop env chunkSql chunkSize ordinal total chunks w).1 =
        .error (.error .predicateStuck) := by
  induction hn : (w.pending chunkSql).length using Nat.strong_induction_on
    generalizing ordinal total chunks w with
  | _ n ih =>
    subst hn
    have hrun : runOneChunk env chunkSql chunkSize total w =
        (.ok (min chunkSize (w.pending chunkSql).length),
          (commitChunk env chunkSql chunkSize total w).tick) := by
      unfold runOneChunk act
      rw [hquiet w.clock (Nat.le_refl _)]
    have hlast : min chunkSize (w.pending chunkSql).length < chunkSize →
        (commitChunk env chunkSql chunkSize total w).tick.pending chunkSql = [] ∧
          (commitChunk env chunkSql chunkSize total w).tick.row.status = .validating := by
      intro hpart
      refine ⟨List.eq_nil_of_length_eq_zero ?_, ?_⟩
      · exact (length_pending_commitChunk env chunkSql chunkSize total w).trans (by omega)
      · show (commitChunk env chunkSql chunkSize total w).row.status = _
        rw [commitChunk]
        exact congrArg LivePlanRow.status (if_pos hpart)
    rw [chunkLoop_eq, hrun]
    dsimp only
    by_cases hpart : min chunkSize (w.pending chunkSql).length < chunkSize
    · obtain ⟨hpending, hstatus⟩ := hlast hpart
      have hlt : (w.pending chunkSql).length < chunkSize := by omega
      rcases Nat.eq_zero_or_pos (w.pending chunkSql).length with hzero | hsome
      · rw [hzero, Nat.min_zero]
        by_cases hfirst : ordinal = 1
        · simp only [hfirst, and_self, if_true, or_true]
          exact ⟨hpending, hstatus, _, rfl⟩
        · simp only [hfirst, and_false, if_false, Nat.dvd_zero, not_true, or_self, if_true]
          exact ⟨hpending, hstatus, trivial⟩
      · have hdvd : ¬chunkSize ∣ (w.pending chunkSql).length := Nat.not_dvd_of_pos_of_lt hsome hlt
        rw [if_neg (by omega), if_neg (by omega), if_pos hpart, if_pos (.inl hdvd)]
        exact ⟨hpending, hstatus, _, rfl⟩
    · have hne : min chunkSize (w.pending chunkSql).length ≠ 0 := by omega
      obtain ⟨hle, -, -⟩ := full_chunk env chunkSql chunkSize total w hpart hne
      rw [if_neg (by omega), if_neg hne, if_neg hpart]
      obtain ⟨hpending, hstatus, hend⟩ := ih _
        (chunkLoop_pending env chunkSql chunkSize total w _ _ hrun hne) (ordinal + 1)
        (computeRowsDoneTotal total (min chunkSize (w.pending chunkSql).length))
        (chunks ++ [⟨ordinal, min chunkSize (w.pending chunkSql).length,
          computeRowsDoneTotal total _⟩])
        (commitChunk env chunkSql chunkSize total w).tick
        (fun n hn => hquiet n (Nat.le_of_succ_le hn)) (Nat.succ_pos ordinal) rfl
      have hlength : ((commitChunk env chunkSql chunkSize total w).tick.pending chunkSql).length =
          (w.pending chunkSql).length - chunkSize :=
        length_pending_commitChunk env chunkSql chunkSize total w
      have hdvd : chunkSize ∣ (w.pending chunkSql).length - chunkSize ↔
          chunkSize ∣ (w.pending chunkSql).length := by
        rw [Nat.dvd_sub_iff_left hle (Nat.dvd_refl chunkSize)]
      have hsame : (¬chunkSize ∣ (w.pending chunkSql).length - chunkSize ∨
            (w.pending chunkSql).length - chunkSize = 0 ∧ ordinal + 1 = 1) ↔
          ¬chunkSize ∣ (w.pending chunkSql).length ∨
            (w.pending chunkSql).length = 0 ∧ ordinal = 1 := by
        rw [hdvd]
        exact or_congr Iff.rfl (by omega)
      simp only [hlength, hsame] at hend
      exact ⟨hpending, hstatus, hend⟩

end Loop

/-! ## Runs -/

section Runs

variable (env : Env ρ) (planId : Int) (table predicateTemplate : String) (chunkSize : Nat)
  (hsize : 0 < chunkSize) (htable : validateTableIdent table = .ok ())
  (htemplate : validatePredicateTemplate predicateTemplate = .ok ())

include hsize htable htemplate

theorem driveChunks_cases (resumeFrom : ResumeFrom) (w : World ρ) (hid : w.row.planId = planId) :
    (∃ e, driveChunks env planId table predicateTemplate chunkSize resumeFrom w =
        (.error e, w.tick)) ∧
        (w.row.status = .running → env.outcome w.clock ≠ .done) ∨
      driveChunks env planId table predicateTemplate chunkSize resumeFrom w =
        chunkLoop env (chunkSqlOf table predicateTemplate) chunkSize 1
          (startingRowsDone resumeFrom w.row) [] w.tick := by
  unfold driveChunks
  rw [if_neg (by omega), htable, htemplate]
  simp only [lookupPlanRow, act]
  cases env.outcome w.clock with
  | done =>
    simp only [if_pos hid, id]
    split_ifs with hstatus
    · exact .inl ⟨⟨_, rfl⟩, fun h => absurd h hstatus⟩
    · exact .inr rfl
  | refused reason => exact .inl ⟨⟨_, rfl⟩, fun _ => nofun⟩
  | crashed => exact .inl ⟨⟨_, rfl⟩, fun _ => nofun⟩

/-- The progress that a run starts from: an initial one is for a plan without progress. -/
def ResumeFrom.startsAt (resumeFrom : ResumeFrom) (w : World ρ) : Prop :=
  resumeFrom = .persisted ∨ w.row.backfillRowsDone = 0

omit hsize htable htemplate in
theorem startingRowsDone_eq (rows : List ρ) (resumeFrom : ResumeFrom) (w : World ρ)
    (h : Exact (chunkSqlOf table predicateTemplate) rows w) (hfrom : resumeFrom.startsAt w) :
    startingRowsDone resumeFrom w.row =
      min (w.transformed (chunkSqlOf table predicateTemplate)).length i64Max := by
  have hprogress := h.progress
  cases resumeFrom with
  | initial =>
    have hzero := hfrom.resolve_left nofun
    rw [hzero] at hprogress
    show 0 = _
    omega
  | persisted =>
    show w.row.backfillRowsDone.toNat = _
    omega

/-- **One run**, however it ends. -/
theorem exact_driveChunks (rows : List ρ) (resumeFrom : ResumeFrom) (w : World ρ)
    (hid : w.row.planId = planId) (h : Exact (chunkSqlOf table predicateTemplate) rows w)
    (hfrom : resumeFrom.startsAt w) :
    Exact (chunkSqlOf table predicateTemplate) rows
        (driveChunks env planId table predicateTemplate chunkSize resumeFrom w).2 ∧
      w.row.backfillRowsDone ≤ (driveChunks env planId table predicateTemplate chunkSize
        resumeFrom w).2.row.backfillRowsDone ∧
      (driveChunks env planId table predicateTemplate chunkSize resumeFrom w).2.row.planId =
        planId := by
  have hcases := driveChunks_cases env planId table predicateTemplate chunkSize hsize htable
    htemplate resumeFrom w hid
  rcases hcases with ⟨⟨e, he⟩, -⟩ | hloop
  · rw [he]
    exact ⟨h.tick _ rows w, Int.le_refl _, hid⟩
  · rw [hloop]
    obtain ⟨hexact, hpre⟩ := exact_chunkLoop env (chunkSqlOf table predicateTemplate) chunkSize
      rows 1 (startingRowsDone resumeFrom w.row) [] w.tick (h.tick _ rows w)
      (startingRowsDone_eq table predicateTemplate rows resumeFrom w h hfrom)
    refine ⟨hexact, ?_, (planId_chunkLoop env _ chunkSize 1 _ [] w.tick).trans hid⟩
    have hlength := hpre.length_le
    have htick : w.tick.transformed = w.transformed := rfl
    rw [htick] at hlength
    rw [hexact.progress, h.progress]
    omega

/-- The transactions of one run, committed or not, beside the lookup of the row. -/
theorem driveChunks_transactions (rows : List ρ) (resumeFrom : ResumeFrom) (w : World ρ)
    (hid : w.row.planId = planId) (h : Exact (chunkSqlOf table predicateTemplate) rows w) :
    (driveChunks env planId table predicateTemplate chunkSize resumeFrom w).2.chunkTransactions ≤
        w.chunkTransactions + (rows.length / chunkSize + 1) ∧
      (driveChunks env planId table predicateTemplate chunkSize resumeFrom w).2.clock ≤
        w.clock + 1 + (rows.length / chunkSize + 1) := by
  have hcases := driveChunks_cases env planId table predicateTemplate chunkSize hsize htable
    htemplate resumeFrom w hid
  rcases hcases with ⟨⟨e, he⟩, -⟩ | hloop
  · rw [he]
    exact ⟨Nat.le_add_right _ _, Nat.le_add_right (w.clock + 1) _⟩
  · rw [hloop]
    obtain ⟨ht, hc⟩ := chunkLoop_transactions env (chunkSqlOf table predicateTemplate) chunkSize 1
      (startingRowsDone resumeFrom w.row) [] w.tick
    have hpending : (w.pending (chunkSqlOf table predicateTemplate)).length ≤ rows.length := by
      rw [← h.perm.length_eq, List.length_append]
      omega
    have hdiv := Nat.div_le_div_right (c := chunkSize) hpending
    exact ⟨ht.trans (Nat.add_le_add_left (Nat.succ_le_succ hdiv) _),
      hc.trans (Nat.add_le_add_left (Nat.succ_le_succ hdiv) _)⟩

/-- **An undisturbed run.** -/
theorem driveChunks_undisturbed (resumeFrom : ResumeFrom) (w : World ρ)
    (hid : w.row.planId = planId) (hrunning : w.row.status = .running)
    (hquiet : ∀ n, w.clock ≤ n → env.outcome n = .done) :
    (driveChunks env planId table predicateTemplate chunkSize resumeFrom w).2.pending
        (chunkSqlOf table predicateTemplate) = [] ∧
      (driveChunks env planId table predicateTemplate chunkSize resumeFrom w).2.row.status =
        .validating ∧
      if ¬chunkSize ∣ (w.pending (chunkSqlOf table predicateTemplate)).length ∨
        (w.pending (chunkSqlOf table predicateTemplate)).length = 0
      then ∃ chunks, (driveChunks env planId table predicateTemplate chunkSize resumeFrom w).1 =
        .ok chunks
      else (driveChunks env planId table predicateTemplate chunkSize resumeFrom w).1 =
        .error (.error .predicateStuck) := by
  have hloop := (driveChunks_cases env planId table predicateTemplate chunkSize hsize htable
    htemplate resumeFrom w hid).resolve_left fun h => h.2 hrunning (hquiet _ (Nat.le_refl _))
  obtain ⟨hexhausted, hstatus, hend⟩ := chunkLoop_undisturbed env
    (chunkSqlOf table predicateTemplate) chunkSize 1 (startingRowsDone resumeFrom w.row) [] w.tick
    (fun n hn => hquiet n (Nat.le_of_succ_le hn)) hsize Nat.one_pos
  rw [← hloop] at hexhausted hstatus hend
  simp only [and_true] at hend
  exact ⟨hexhausted, hstatus, hend⟩

end Runs

/-- What is asked of the run that exhausts the predicate. -/
structure Drains (chunkSql : String) (rows : List ρ)
    (run : Except (Stop BackfillError) (List BackfillChunk) × World ρ) : Prop where
  ok : ∃ chunks, run.1 = .ok chunks
  status : run.2.row.status = .validating
  once : (run.2.transformed chunkSql).Perm rows
  exhausted : run.2.pending chunkSql = []
  progress : run.2.row.backfillRowsDone = (min rows.length i64Max : Nat)

/-- One run from a row that is still in `running`. -/
def BackfillRun (env : Env ρ) (planId : Int) (table predicateTemplate : String) (chunkSize : Nat)
    (w w' : World ρ) : Prop :=
  w.row.status = .running ∧ ∃ resumeFrom : ResumeFrom, resumeFrom.startsAt w ∧
    w' = (driveChunks env planId table predicateTemplate chunkSize resumeFrom w).2

/-- **A backfill is exact** over every history of runs, whatever is refused and wherever the
process dies. A run that nothing disturbs exhausts the predicate and reports success, unless the
rows it finds are a positive multiple of the chunk size. -/
theorem backfill_exact_iff (env : Env ρ) (planId : Int) (table predicateTemplate : String)
    (chunkSize : Nat) (hsize : 0 < chunkSize) (htable : validateTableIdent table = .ok ())
    (htemplate : validatePredicateTemplate predicateTemplate = .ok ()) (w₀ w : World ρ)
    (hid : w₀.row.planId = planId) (hdone : w₀.row.backfillRowsDone = 0)
    (htransformed : w₀.transformed (chunkSqlOf table predicateTemplate) = [])
    (h : Relation.ReflTransGen (BackfillRun env planId table predicateTemplate chunkSize) w₀ w) :
    let chunkSql := chunkSqlOf table predicateTemplate
    let rows := w₀.pending chunkSql
    Exact chunkSql rows w ∧ ∀ resumeFrom : ResumeFrom, resumeFrom.startsAt w →
      let run := driveChunks env planId table predicateTemplate chunkSize resumeFrom w
      Exact chunkSql rows run.2 ∧ w.row.backfillRowsDone ≤ run.2.row.backfillRowsDone ∧
        run.2.chunkTransactions ≤ w.chunkTransactions + (rows.length / chunkSize + 1) ∧
        run.2.clock ≤ w.clock + 1 + (rows.length / chunkSize + 1) ∧
        (w.row.status = .running → (∀ n, w.clock ≤ n → env.outcome n = .done) →
          (Drains chunkSql rows run ↔
            (w.pending chunkSql).length = 0 ∨ ¬chunkSize ∣ (w.pending chunkSql).length)) := by
  intro chunkSql rows
  have hledger : Exact chunkSql rows w ∧ w.row.planId = planId := by
    induction h with
    | refl =>
      refine ⟨⟨?_, ?_⟩, hid⟩
      · rw [htransformed, List.nil_append]
      · rw [hdone, htransformed]
        rfl
    | tail _ hrun ih =>
      obtain ⟨-, resumeFrom, hfrom, rfl⟩ := hrun
      obtain ⟨hexact, -, hplan⟩ := exact_driveChunks env planId table predicateTemplate chunkSize
        hsize htable htemplate rows resumeFrom _ ih.2 ih.1 hfrom
      exact ⟨hexact, hplan⟩
  obtain ⟨hexact, hplan⟩ := hledger
  refine ⟨hexact, fun resumeFrom hfrom => ?_⟩
  obtain ⟨hrun, hprogress, -⟩ := exact_driveChunks env planId table predicateTemplate chunkSize
    hsize htable htemplate rows resumeFrom w hplan hexact hfrom
  obtain ⟨hcommits, hclock⟩ := driveChunks_transactions env planId table predicateTemplate
    chunkSize hsize htable htemplate rows resumeFrom w hplan hexact
  refine ⟨hrun, hprogress, hcommits, hclock, fun hrunning hquiet => ?_⟩
  obtain ⟨hexhausted, hstatus, hend⟩ := driveChunks_undisturbed env planId table predicateTemplate
    chunkSize hsize htable htemplate resumeFrom w hplan hrunning hquiet
  constructor
  · intro hdrains
    by_contra hfills
    rw [if_neg (by tauto)] at hend
    obtain ⟨chunks, hok⟩ := hdrains.ok
    rw [hok] at hend
    cases hend
  · intro hfills
    rw [if_pos hfills.symm] at hend
    have honce := hrun.perm
    rw [hexhausted, List.append_nil] at honce
    exact ⟨hend, hstatus, honce, hexhausted, by rw [hrun.progress, honce.length_eq]⟩

def backfillTemplate : String :=
  "SET a = 1 WHERE id IN (SELECT id FROM users WHERE a IS NULL LIMIT $1)"

/-- A plan in `running` whose predicate matches the rows. -/
def runningOn (rows : List Nat) : World Nat :=
  { World.start expandOnly fun _ => rows with
    row := (LivePlanRow.fresh expandOnly.header).updateStatus .running }

/-- The first run dies after a chunk of two rows, and the second one finds one row. -/
def interrupted : World Nat :=
  (executeBackfill (crashAt 2) 1 "users" backfillTemplate 2 (runningOn [7, 8, 9])).2

theorem backfill_exact_resumed :
    Exact (chunkSqlOf "users" backfillTemplate) [7, 8, 9] interrupted ∧
      Drains (chunkSqlOf "users" backfillTemplate) [7, 8, 9]
        (resumeBackfill (crashAt 2) 1 "users" backfillTemplate 2 interrupted) := by
  have hclock : interrupted.clock = 3 := by decide +kernel
  have hpending : (interrupted.pending (chunkSqlOf "users" backfillTemplate)).length = 1 := by
    decide +kernel
  obtain ⟨hexact, hrun⟩ := backfill_exact_iff (crashAt 2) 1 "users" backfillTemplate 2 (by decide)
    (by decide +kernel) (by decide +kernel) (runningOn [7, 8, 9]) interrupted rfl rfl rfl
    (.single ⟨rfl, .initial, .inr rfl, rfl⟩)
  obtain ⟨-, -, -, -, hdrains⟩ := hrun .persisted (.inl rfl)
  refine ⟨hexact, (hdrains (by decide +kernel) (fun n hn => if_neg ?_)).mpr (.inr ?_)⟩
  · omega
  · rw [hpending]
    decide

/-- **Stuck.** Two rows fill the one chunk, and the empty chunk after it is an error. -/
theorem backfill_stuck :
    (executeBackfill quietEnv 1 "users" backfillTemplate 2 (runningOn [7, 8])).1 =
        .error (.error .predicateStuck) ∧
      ¬Drains (chunkSqlOf "users" backfillTemplate) [7, 8]
        (executeBackfill quietEnv 1 "users" backfillTemplate 2 (runningOn [7, 8])) := by
  have hstuck : (executeBackfill quietEnv 1 "users" backfillTemplate 2 (runningOn [7, 8])).1 =
      .error (.error .predicateStuck) :=
    (driveChunks_undisturbed quietEnv 1 "users" backfillTemplate 2 (by decide) (by decide +kernel)
      (by decide +kernel) .initial (runningOn [7, 8]) rfl rfl fun _ _ => rfl).2.2
  refine ⟨hstuck, fun h => ?_⟩
  obtain ⟨chunks, hok⟩ := h.ok
  rw [hok] at hstuck
  cases hstuck

end Djogi.Live

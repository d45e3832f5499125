import Djogi.Runner

/-!
# One apply

* `applyPlanInner_meets`: a successful apply commits every executed step in plan order, and one
  that is cut off anywhere leaves a prefix of them with a row that does not claim too much.
-/

namespace Djogi

open Session

/-! ## What an apply leaves -/

def nonTx (l : List Step) : List Step := l.filter Step.isNonTx

/-- The steps that were committed and the row. -/
def At (committed : List Step) (row : LedgerRow) (d : Store) : Prop :=
  d.committed = committed ∧ d.row = some row

/-- Moreover the catalog is what the steps make of `base`, when there is one. -/
def Ran (base : Option Catalog) (committed : List Step) (row : LedgerRow) (d : Store) : Prop :=
  At committed row d ∧ ∀ b, base = some b → d.undone = [] ∧
    b.execAll (committed.flatMap fun s => s.sql.upStmts) = some d.catalog

theorem At.updateRow {C : List Step} {row : LedgerRow} {d : Store} (h : At C row d)
    (f : LedgerRow → LedgerRow) : At C (f row) (d.updateRow f) :=
  ⟨h.1, by rw [Store.updateRow, h.2]; rfl⟩

theorem Ran.updateRow {base : Option Catalog} {C : List Step} {row : LedgerRow} {d : Store}
    (h : Ran base C row d) (f : LedgerRow → LedgerRow) : Ran base C (f row) (d.updateRow f) :=
  ⟨h.1.updateRow f, h.2⟩

theorem Ran.up {base : Option Catalog} {C : List Step} {row : LedgerRow} {d d' : Store} {s : Step}
    (h : Ran base C row d) (hup : s.up d = some d') : Ran base (C ++ [s]) row d' := by
  obtain ⟨⟨hC, hrow⟩, hbase⟩ := h
  obtain ⟨c, hc, rfl⟩ := Option.map_eq_some_iff.mp hup
  refine ⟨⟨by rw [hC], hrow⟩, fun b hb => ?_⟩
  obtain ⟨hundone, hcat⟩ := hbase b hb
  refine ⟨hundone, ?_⟩
  rw [List.flatMap_append, Catalog.execAll_append, hcat]
  simpa using hc

/-! ## Rules of the runner -/

theorem updateLedger_meets (base : Option Catalog) (C : List Step) (row : LedgerRow)
    (f : LedgerRow → LedgerRow) :
    Meets (Idle (Ran base C row)) (updateLedger f) (fun _ => Idle (Ran base C (f row)))
      fun _ c => Idle (Ran base C row) c ∨ Broken (Ran base C (f row)) c := by
  refine (meets_run (R := fun _ => Ran base C (f row)) _ fun v d d' h hd => ?_).conseq
    (fun _ h => h) (fun _ _ h => h) fun _ c h => ?_
  · obtain rfl := Option.some.inj hd
    exact h.updateRow f
  · exact h.imp id fun ⟨ha, ht, v, hd⟩ => ⟨ha, ht, hd⟩

theorem executeRunnerStatement_meets (base : Option Catalog) (C : List Step) (row : LedgerRow)
    (refuses : String → Option String) (text : String) (s : Step) :
    Meets (Idle (Ran base C row)) (executeRunnerStatement refuses text s.up)
      (fun _ => Idle (Ran base (C ++ [s]) row))
      fun _ c => Idle (Ran base C row) c ∨ Broken (Ran base (C ++ [s]) row) c := by
  unfold executeRunnerStatement
  cases refuses text with
  | some reason => exact .fail _ fun c h => .inl h
  | none =>
    refine (meets_run (R := fun _ => Ran base (C ++ [s]) row) _ fun v d d' h hd => ?_).conseq
      (fun _ h => h) (fun _ _ h => h) fun _ c h => ?_
    · exact h.up hd
    · exact h.imp id fun ⟨ha, ht, v, hd⟩ => ⟨ha, ht, hd⟩

/-- In a transaction that began at `C`. -/
theorem executeRunnerStatement_meetsWithin (base : Option Catalog) (C D : List Step) (row : LedgerRow)
    (refuses : String → Option String) (text : String) (s : Step) :
    Meets (Within fun d w => Ran base C row d ∧ Ran base D row w)
      (executeRunnerStatement refuses text s.up)
      (fun _ => Within fun d w => Ran base C row d ∧ Ran base (D ++ [s]) row w)
      fun _ => Durable (Ran base C row) := by
  unfold executeRunnerStatement
  cases refuses text with
  | some reason => exact .fail _ fun c ⟨w, _, h, _⟩ => h
  | none => exact meets_runWithin _ (fun v d w w' h hw => ⟨h.1, h.2.up hw⟩) fun d w h => h.1

theorem runStatements_meets (base : Option Catalog) (ctx : RunnerCtx) (i : Nat) (C D : List Step)
    (row : LedgerRow) (steps : List Step) :
    Meets (Within fun d w => Ran base C row d ∧ Ran base D row w) (runStatements ctx i steps)
      (fun _ => Within fun d w => Ran base C row d ∧ Ran base (D ++ steps) row w)
      fun _ => Durable (Ran base C row) := by
  induction steps generalizing D with
  | nil => exact .pure _ fun c h => by rwa [List.append_nil]
  | cons s rest ih =>
    refine .bind (.onError (executeRunnerStatement_meetsWithin base C D row _ _ s) fun e =>
      .bestEffort (meets_rollback.conseq (fun _ h => h) (fun _ _ h => h.durable)
        fun _ _ h => h)) fun _ => ?_
    have h := ih (D ++ [s])
    rwa [← List.append_cons] at h

theorem probe_meets (P : Store → Prop) :
    Meets (Idle P) (ask (.run fun _ d => some d)) (fun _ => Idle P) fun _ => Idle P := by
  refine (meets_run (R := fun _ => P) _ fun v d d' h hd => ?_).conseq (fun _ h => h)
    (fun _ _ h => h) fun _ c h => ?_
  · obtain rfl := Option.some.inj hd
    exact h
  · exact h.elim id fun ⟨_, ht, _, hd⟩ => ⟨ht, hd⟩

theorem probeIndexes_meets (ctx : RunnerCtx) (addTables : List String) (P : Store → Prop)
    (steps : List Step) :
    Meets (Idle P) (probeIndexes ctx addTables steps) (fun _ => Idle P) fun _ => Idle P := by
  induction steps with
  | nil => exact .pure _ fun _ h => h
  | cons s rest ih =>
    refine .bind (Q := fun _ => Idle P) ?_ fun _ => ih
    unfold probeIndex
    cases parseCreateIndexStatement s.sql with
    | none => exact .pure _ fun _ h => h
    | some p =>
      refine .bind ((probe_meets P).mapError fun _ _ h => h) fun row => ?_
      cases row with
      | none =>
        show Meets _ (if _ then _ else _) _ _
        split_ifs
        · exact .pure _ fun _ h => h
        · exact .fail _ fun _ h => h
      | some relpages =>
        show Meets _ (if _ then _ else _) _ _
        split_ifs
        · exact .fail _ fun _ h => h
        · exact .pure _ fun _ h => h

theorem Step.verify_ran {base : Option Catalog} {C : List Step} {row : LedgerRow} {d d' : Store}
    {s : Step} (v : Option Int) (h : Ran base C row d) (hd : s.verify v d = some d') :
    (0 < v.getD 0 ∧ At C row d') ∨ (¬ 0 < v.getD 0 ∧ Ran base (C ++ [s]) row d') := by
  unfold Step.verify at hd
  split_ifs at hd with hv
  · obtain ⟨c, -, rfl⟩ := Option.map_eq_some_iff.mp hd
    exact .inl ⟨hv, h.1⟩
  · exact .inr ⟨hv, h.up hd⟩

/-- Verifications count one by one. -/
theorem runVerifications_meets (base : Option Catalog) (i : Nat) (C : List Step) (row : LedgerRow)
    (steps : List Step) :
    Meets (Idle (Ran base C row)) (runVerifications i steps)
      (fun _ => Idle (Ran base (C ++ steps) row))
      fun _ => Durable fun d => ∃ k, At (C ++ steps.take k) row d := by
  induction steps generalizing C with
  | nil => exact .pure _ fun c h => by rwa [List.append_nil]
  | cons s rest ih =>
    have hstart : ∀ d, At C row d → ∃ k, At (C ++ (s :: rest).take k) row d :=
      fun d h => ⟨0, by simpa using h⟩
    have hnext : ∀ d k, At ((C ++ [s]) ++ rest.take k) row d →
        ∃ k, At (C ++ (s :: rest).take k) row d :=
      fun d k h => ⟨k + 1, by simpa using h⟩
    refine .bind (.mapError (meets_run _ fun v d d' h hd => Step.verify_ran v h hd)
      fun _ c h => ?_) fun value => ?_
    · rcases h with ⟨-, h⟩ | ⟨-, -, v, ⟨-, h⟩ | ⟨-, h⟩⟩
      · exact hstart _ h.1
      · exact hstart _ h
      · exact hnext _ 0 (by simpa using h.1)
    · show Meets _ (if _ then _ else _) _ _
      split_ifs with hv
      · exact .fail _ fun c ⟨_, h⟩ => h.elim (fun h => hstart _ h.2) fun h => absurd hv h.1
      · refine (ih (C ++ [s])).conseq (fun c ⟨hidle, h⟩ => ⟨hidle, ?_⟩) (fun _ c h => ?_)
          fun _ c ⟨k, h⟩ => hnext _ k h
        · exact h.elim (fun h => absurd h.1 hv) fun h => h.2
        · rwa [← List.append_cons] at h

/-- A transactional segment: all of it, or what was before. -/
theorem runTransactionalSegment_meets (base : Option Catalog) (ctx : RunnerCtx) (addTables : List String)
    (i : Nat) (C : List Step) (row : LedgerRow) (steps : List Step) :
    Meets (Idle (Ran base C row)) (runTransactionalSegment ctx i steps addTables)
      (fun _ => Idle (Ran base (C ++ steps) row))
      fun _ => Durable fun d => ∃ k, At (C ++ steps.take k) row d := by
  unfold runTransactionalSegment
  have hstart : ∀ d, Ran base C row d → ∃ k, At (C ++ steps.take k) row d :=
    fun d h => ⟨0, by simpa using h.1⟩
  have hall : ∀ d, Ran base (C ++ steps) row d → ∃ k, At (C ++ steps.take k) row d :=
    fun d h => ⟨steps.length, by simpa using h.1⟩
  split_ifs
  · exact runVerifications_meets base i C row steps
  · refine .bind ((probeIndexes_meets ctx addTables _ steps).conseq (fun _ h => h)
      (fun _ _ h => h) fun _ _ h => hstart _ h.2) fun _ => ?_
    refine .bind (.mapError meets_begin fun _ _ h => hstart _ h.2) fun _ => ?_
    refine .bind ((runStatements_meets base ctx i C C row steps).conseq
      (fun c ⟨w, hw, h, heq⟩ => ⟨w, hw, h, heq ▸ h⟩) (fun _ _ h => h)
      fun _ _ h => hstart _ h) fun _ => ?_
    refine .bind (.mapError (meets_commit (P := Ran base C row)
      (Q := Ran base (C ++ steps) row) (fun d w h => h.1) fun d w h => h.2)
      fun _ c h => ?_) fun _ => .pure _ fun _ h => h
    exact h.elim (fun h => hstart _ h.2) fun h => hall _ h.2.2

/-! ## Non-transactional steps -/

/-- The row does not claim more than was committed, and no less when nothing is in flight. -/
def Recorded (committed : List Step) (row : LedgerRow) : Prop :=
  row.appliedStepsCount ≤ (nonTx committed).length ∧
    (noteHasNonTxProgressClaim row.partialApplyNote = false →
      row.appliedStepsCount = (nonTx committed).length)

/-- What a run may leave: committed steps that are `ok`, a row that records them, and `final`
when the row is applied. -/
def Safe (ok final : List Step → Prop) (d : Store) : Prop :=
  ∃ C row, At C row d ∧ ok C ∧ Recorded C row ∧ (row.status = .applied → final C)

theorem Safe.of_count {ok final : List Step → Prop} {C : List Step} {row : LedgerRow} {d : Store}
    (h : At C row d) (hok : ok C) (hcount : row.appliedStepsCount = (nonTx C).length)
    (hstatus : row.status ≠ .applied) : Safe ok final d :=
  ⟨C, row, h, hok, ⟨hcount.le, fun _ => hcount⟩, fun h => absurd h hstatus⟩

theorem nonTx_snoc (C : List Step) (s : Step) (hs : s.isNonTx = true) :
    (nonTx (C ++ [s])).length = (nonTx C).length + 1 := by
  simp [nonTx, hs]

/-- **One non-transactional step**, and whatever cuts it off. -/
theorem nonTxStep_meets {ε : Type} (base : Option Catalog) (C : List Step) (row : LedgerRow)
    (ok final : List Step → Prop) (refuses : String → Option String) (claimNote : String)
    (s : Step) (failedNote : String → String) (restored : Option String)
    (claimError executeError ackError : String → ε)
    (hclaim : noteHasNonTxProgressClaim (some claimNote) = true) (hs : s.isNonTx = true)
    (hcount : row.appliedStepsCount = (nonTx C).length) (hstatus : row.status ≠ .applied)
    (hmax : ((nonTx C).length : Int) + 1 ≤ i32Max) (hok : ok C) (hok' : ok (C ++ [s])) :
    Meets (Idle (Ran base C row))
      (nonTxStep refuses claimNote s (nonTx C).length failedNote restored claimError executeError
        ackError)
      (fun _ => Idle (Ran base (C ++ [s]) (row.ack (nonTx (C ++ [s])).length restored)))
      fun _ => Durable (Safe ok final) := by
  have hnext : saturatingAdd (nonTx C).length 1 = ((nonTx (C ++ [s])).length : Int) := by
    rw [nonTx_snoc C s hs, saturatingAdd, min_eq_left hmax]
    rfl
  -- The three rows that a cut can leave: before the claim, with the claim and after the failure.
  have hbefore : ∀ d, Ran base C row d → Safe ok final d :=
    fun d h => .of_count h.1 hok hcount hstatus
  have hclaimed : ∀ d, Ran base C (row.claim claimNote) d → Safe ok final d :=
    fun d h => .of_count h.1 hok hcount hstatus
  have hflight : ∀ d, Ran base (C ++ [s]) (row.claim claimNote) d → Safe ok final d := by
    intro d h
    refine ⟨C ++ [s], row.claim claimNote, h.1, hok', ⟨?_, fun hno => ?_⟩,
      fun happ => absurd happ hstatus⟩
    · show row.appliedStepsCount ≤ _
      rw [nonTx_snoc C s hs, hcount]
      omega
    · rw [show (row.claim claimNote).partialApplyNote = some claimNote from rfl, hclaim] at hno
      cases hno
  unfold nonTxStep
  refine .bind (.mapError (updateLedger_meets base C row _) fun _ c h => ?_) fun _ => ?_
  · exact h.elim (fun h => hbefore _ h.2) fun h => hclaimed _ h.2.2
  refine .bind (.onError (executeRunnerStatement_meets base C _ refuses _ s) fun e =>
    .bestEffort ?_) fun _ => ?_
  · refine .or ((updateLedger_meets base C _ _).conseq (fun _ h => h) (fun _ c h => ?_)
      fun _ c h => ?_) ((meets_broken _).conseq (fun _ h => h) (fun _ _ h => h)
        fun _ _ h => hflight _ h.2.2)
    · exact .of_count h.2.1 hok rfl (by simp [LedgerRow.failPartial])
    · rcases h with h | h
      · exact hclaimed _ h.2
      · exact .of_count h.2.2.1 hok rfl (by simp [LedgerRow.failPartial])
  refine .bind (.mapError (updateLedger_meets base (C ++ [s]) _ _) fun _ c h => ?_) fun _ =>
    .pure _ fun c h => ?_
  · rcases h with h | h
    · exact hflight _ h.2
    · rw [hnext] at h
      exact .of_count h.2.2.1 hok' rfl hstatus
  · rw [hnext] at h
    exact h

theorem runNonTransactionalSegment_meets (base : Option Catalog) (r : NonTransactionalSegmentRun)
    (row : LedgerRow) (ok final : List Step → Prop) (hstatus : row.status ≠ .applied)
    (p m : Nat) (hp : r.priorStepsCompleted = p) (C steps : List Step)
    (hs : ∀ s ∈ steps, s.isNonTx = true) (hcount : p + m = (nonTx C).length)
    (hmax : ((nonTx C).length : Int) + steps.length ≤ i32Max)
    (hok : ∀ k, ok (C ++ steps.take k)) :
    Meets (Idle (Ran base C (row.ack (nonTx C).length r.stableNote)))
      (runNonTransactionalSegment r steps m)
      (fun v c => v = m + steps.length ∧
        Idle (Ran base (C ++ steps) (row.ack (nonTx (C ++ steps)).length r.stableNote)) c)
      fun _ => Durable (Safe ok final) := by
  induction steps generalizing C m with
  | nil => exact .pure _ fun c h => ⟨by simp, by rwa [List.append_nil]⟩
  | cons s rest ih =>
    obtain ⟨hs₁, hs₂⟩ := List.forall_mem_cons.mp hs
    rw [List.length_cons] at hmax
    push_cast at hmax
    have htotal : saturatingAdd r.priorStepsCompleted m = ((nonTx C).length : Int) := by
      rw [hp, saturatingAdd]
      omega
    have hm : saturatingAdd (m : Int) 1 = ((m + 1 : Nat) : Int) := by
      rw [saturatingAdd]
      omega
    have hsnoc := nonTx_snoc C s hs₁
    have hcons : ∀ k, C ++ [s] ++ rest.take k = C ++ (s :: rest).take (k + 1) := by simp
    show Meets _ (do
      nonTxStep r.refuses _ s (saturatingAdd r.priorStepsCompleted m) _ r.stableNote _ _ _
      runNonTransactionalSegment r rest (saturatingAdd m 1)) _ _
    rw [htotal, hm]
    refine .bind (nonTxStep_meets base C _ ok final r.refuses _ s _ _ _ _ _
      (formatNonTxProgressClaim_isClaim _ _ _ _ _) hs₁ rfl hstatus (by omega)
      (by simpa using hok 0) (by simpa using hok 1)) fun _ => ?_
    refine (ih (m + 1) (C ++ [s]) hs₂ (by omega) (by rw [hsnoc]; push_cast; omega)
      fun k => (hcons k).symm ▸ hok (k + 1)).conseq (fun _ h => h) (fun v c h => ?_)
      fun _ _ h => h
    rw [List.append_assoc, List.singleton_append] at h
    refine ⟨?_, h.2⟩
    rw [h.1, List.length_cons]
    push_cast
    omega

/-! ## The walk -/

theorem segmentSteps_cons (seg : Segment) (i : Nat) (rest : List (Segment × Nat)) :
    segmentSteps ((seg, i) :: rest) =
      (if seg.kind = .metadataOnly then [] else seg.steps i) ++ segmentSteps rest :=
  List.flatMap_cons

theorem nonTx_append (C D : List Step) : nonTx (C ++ D) = nonTx C ++ nonTx D := List.filter_append _ _

theorem nonTx_of_all (l : List Step) (h : ∀ s ∈ l, s.isNonTx = true) : nonTx l = l :=
  List.filter_eq_self.mpr h

theorem nonTx_of_none (l : List Step) (h : ∀ s ∈ l, s.isNonTx = false) : nonTx l = [] :=
  List.filter_eq_nil_iff.mpr fun s hs => by simp [h s hs]

theorem nonTx_take_of_none (l : List Step) (h : ∀ s ∈ l, s.isNonTx = false) (C : List Step)
    (k : Nat) : nonTx (C ++ l.take k) = nonTx C := by
  rw [nonTx_append, nonTx_of_none _ fun s hs => h s (List.mem_of_mem_take hs), List.append_nil]

theorem steps_isNonTx (seg : Segment) (i : Nat) (b : Bool)
    (h : (seg.kind == .nonTransactional) = b) : ∀ s ∈ seg.steps i, s.isNonTx = b := by
  intro s hs
  rw [Step.isNonTx, (mem_steps seg i s hs).2, h]

/-- What is left when a transactional segment fails, with or without a note. -/
theorem failedSegment_meets (C steps : List Step) (row : LedgerRow) (note : String)
    (ok final : List Step → Prop) (hstatus : row.status ≠ .applied)
    (htx : ∀ s ∈ steps, s.isNonTx = false) (hcount : row.appliedStepsCount = (nonTx C).length)
    (hok : ∀ k, ok (C ++ steps.take k)) :
    Meets (Durable fun d => ∃ k, At (C ++ steps.take k) row d)
      (bestEffort (markFailed note) : Db RunnerError Unit) (fun _ => Durable (Safe ok final))
      fun _ => Durable (Safe ok final) := by
  have hsafe : ∀ d, (∃ k, At (C ++ steps.take k) row d ∨ At (C ++ steps.take k) (row.fail note) d) →
      Safe ok final d := by
    rintro d ⟨k, h | h⟩
    · exact .of_count h (hok k) (by rw [nonTx_take_of_none steps htx, hcount]) hstatus
    · exact .of_count h (hok k) (by rw [nonTx_take_of_none steps htx]; exact hcount)
        (by simp [LedgerRow.fail])
  refine .bestEffort ((meets_runAny (P := fun d => ∃ k, At (C ++ steps.take k) row d ∨
    At (C ++ steps.take k) (row.fail note) d) _ fun v d d' hd heq => ?_).conseq
      (fun c ⟨k, h⟩ => ⟨k, .inl h⟩) (fun _ c h => hsafe _ h) fun _ c h => hsafe _ h)
  obtain rfl := Option.some.inj heq
  obtain ⟨k, h | h⟩ := hd
  · exact ⟨k, .inr (h.updateRow _)⟩
  · exact ⟨k, .inr (h.updateRow _)⟩

theorem walkSegments_meets (base : Option Catalog) (ctx : RunnerCtx) (addTables : List String)
    (total : Int) (row : LedgerRow) (final : List Step → Prop) (all : List Step)
    (hstatus : row.status ≠ .applied) (hmax : ((nonTx all).length : Int) ≤ i32Max)
    (segs : List (Segment × Nat)) (C : List Step) (report : RunReport)
    (hall : all = C ++ segmentSteps segs) :
    Meets (Idle (Ran base C (row.ack (nonTx C).length ctx.initialNote)))
      (walkSegments ctx addTables total segs report (nonTx C).length)
      (fun v c => v.2 = (nonTx all).length ∧
        Idle (Ran base all (row.ack (nonTx all).length ctx.initialNote)) c)
      fun _ => Durable (Safe (· <+: all) final) := by
  induction segs generalizing C report with
  | nil =>
    obtain rfl : all = C := by rw [hall]; exact List.append_nil _
    exact .pure _ fun c h => ⟨rfl, h⟩
  | cons e rest ih =>
    obtain ⟨seg, i⟩ := e
    rw [segmentSteps_cons] at hall
    cases hk : seg.kind with
    | metadataOnly =>
      rw [hk, if_pos rfl, List.nil_append] at hall
      unfold walkSegments
      rw [hk]
      exact ih C _ hall
    | transactional =>
      rw [hk, if_neg (by decide), ← List.append_assoc] at hall
      have htx : ∀ s ∈ seg.steps i, s.isNonTx = false := steps_isNonTx seg i _ (by rw [hk]; rfl)
      have hok : ∀ k, C ++ (seg.steps i).take k <+: all := fun k => by
        rw [hall, List.append_assoc]
        exact (List.prefix_append_right_inj C).mpr
          ((List.take_prefix _ _).trans (List.prefix_append _ _))
      have hsame : nonTx (C ++ seg.steps i) = nonTx C := by
        rw [nonTx_append, nonTx_of_none _ htx, List.append_nil]
      unfold walkSegments
      rw [hk]
      refine .bind (.onError (runTransactionalSegment_meets base ctx addTables i C _ _) fun e =>
        failedSegment_meets C (seg.steps i) _ _ _ final hstatus htx rfl hok) fun _ => ?_
      have h := ih (C ++ seg.steps i)
        { report with transactionalSegments := report.transactionalSegments + 1 } hall
      rwa [hsame] at h
    | nonTransactional =>
      rw [hk, if_neg (by decide), ← List.append_assoc] at hall
      have hntx : ∀ s ∈ seg.steps i, s.isNonTx = true := steps_isNonTx seg i _ (by rw [hk]; rfl)
      have hok : ∀ k, C ++ (seg.steps i).take k <+: all := fun k => by
        rw [hall, List.append_assoc]
        exact (List.prefix_append_right_inj C).mpr
          ((List.take_prefix _ _).trans (List.prefix_append _ _))
      have hlen : (nonTx (C ++ seg.steps i)).length = (nonTx C).length + (seg.steps i).length := by
        rw [nonTx_append, nonTx_of_all _ hntx, List.length_append]
      have hle : (nonTx (C ++ seg.steps i)).length ≤ (nonTx all).length := by
        rw [hall, nonTx_append _ (segmentSteps rest), List.length_append]
        omega
      unfold walkSegments
      rw [hk]
      have hrun := runNonTransactionalSegment_meets base
        ⟨i, ctx.version, (nonTx C).length, total, ctx.initialNote, ctx.refuses⟩ row
        (· <+: all) final hstatus (nonTx C).length 0 rfl C (seg.steps i) hntx (by omega) (by omega) hok
      refine .bind hrun fun completed => ?_
      refine Meets.pre (P := fun c => completed = (seg.steps i).length ∧
        Idle (Ran base (C ++ seg.steps i)
          (row.ack (nonTx (C ++ seg.steps i)).length ctx.initialNote)) c) ?_
        fun c h => ⟨by simpa using h.1, h.2⟩
      intro c ⟨hcompleted, hc⟩
      subst hcompleted
      have hsat : saturatingAdd ((nonTx C).length : Int) ((seg.steps i).length : Int) =
          ((nonTx (C ++ seg.steps i)).length : Int) := by
        rw [saturatingAdd]
        omega
      rw [hsat]
      exact ih (C ++ seg.steps i) _ hall c hc

/-! ## The run -/

theorem nonTx_segmentSteps_length (segs : List (Segment × Nat)) :
    (nonTx (segmentSteps segs)).length =
      (((segs.map Prod.fst).filter fun seg => seg.kind = .nonTransactional).map
        fun seg => seg.statements.length).sum := by
  induction segs with
  | nil => rfl
  | cons e rest ih =>
    obtain ⟨seg, i⟩ := e
    rw [segmentSteps_cons, nonTx_append, List.length_append, ih, List.map_cons]
    cases hk : seg.kind with
    | nonTransactional =>
      rw [if_neg (by decide), List.filter_cons_of_pos (by simpa using hk), List.map_cons,
        List.sum_cons, nonTx_of_all _ (steps_isNonTx seg i true (by rw [hk]; rfl))]
      simp [Segment.steps]
    | transactional =>
      rw [if_neg (by decide), List.filter_cons_of_neg (by simp [hk]),
        nonTx_of_none _ (steps_isNonTx seg i false (by rw [hk]; rfl))]
      simp
    | metadataOnly =>
      rw [if_pos rfl, List.filter_cons_of_neg (by simp [hk])]
      simp [nonTx]

theorem nonTxStepCount_eq (plan : MigrationPlan) :
    nonTxStepCount plan = (nonTx plan.executed).length := by
  rw [MigrationPlan.executed, nonTx_segmentSteps_length, List.zipIdx_map_fst, nonTxStepCount]

/-- Nothing was run and there is no row. -/
def Fresh (base : Catalog) (d : Store) : Prop :=
  d.catalog = base ∧ d.row = none ∧ d.committed = [] ∧ d.undone = []

theorem provisioning_meets (ctx : RunnerCtx) (base : Option Catalog) (C : List Step)
    (row : LedgerRow) (ok final : List Step → Prop) (hok : ok C)
    (hcount : row.appliedStepsCount = (nonTx C).length) (hstatus : row.status ≠ .applied) :
    Meets (Idle (Ran base C row)) (provisioning ctx) (fun _ => Idle (Ran base C row))
      fun _ => Durable (Safe ok final) := by
  unfold provisioning
  split_ifs
  · refine .onError (E := fun _ => Idle (Ran base C row)) ?_ fun e => .bestEffort ?_
    · refine .bind ((probe_meets _).mapError fun _ _ h => h) fun _ => ?_
      refine .bind ((probe_meets _).mapError fun _ _ h => h) fun _ => ?_
      exact .bind ((probe_meets _).mapError fun _ _ h => h) fun _ => .pure _ fun _ h => h
    · have hfail : ∀ note d, Ran base C (row.fail note) d → Safe ok final d :=
        fun note d h => .of_count h.1 hok hcount (by simp [LedgerRow.fail])
      exact (updateLedger_meets base C row _).conseq (fun _ h => h) (fun _ c h => hfail _ _ h.2)
        fun _ c h => h.elim (fun h => .of_count h.2.1 hok hcount hstatus)
          fun h => hfail _ _ h.2.2
  · exact .pure _ fun _ h => h

/-- What an apply that succeeds leaves. -/
def Applied (plan : MigrationPlan) (base : Catalog) (d : Store) : Prop :=
  (nonTxStepCount plan : Int) ≤ i32Max ∧ ∃ row, row.status = .applied ∧
    Recorded plan.executed row ∧ Ran (some base) plan.executed row d

/-- What an apply that fails or is cut off leaves. -/
def Left (plan : MigrationPlan) (d : Store) : Prop :=
  (d.row = none ∧ d.committed = []) ∨
    ((nonTxStepCount plan : Int) ≤ i32Max ∧ Safe (· <+: plan.executed) (· = plan.executed) d)

/-- The last update, and the snapshot. -/
theorem finish_meets (ctx : RunnerCtx) (plan : MigrationPlan) (report : RunReport)
    (base : Catalog) (row : LedgerRow) (f : LedgerRow → LedgerRow)
    (hrow : row.appliedStepsCount = (nonTx plan.executed).length)
    (hcount : (f row).appliedStepsCount = (nonTx plan.executed).length)
    (happlied : (f row).status = .applied) (hstatus : row.status ≠ .applied)
    (hmax : (nonTxStepCount plan : Int) ≤ i32Max) :
    Meets (Idle (Ran (some base) plan.executed row))
      (do
        let _ ← mapError (.ledgerWriteFailed ctx.version) (updateLedger f)
        match ctx.snapshot with
        | some (.error e) => fail (.snapshotPersistFailed e)
        | _ => pure report : Db RunnerError RunReport)
      (fun _ => Idle (Applied plan base))
      fun _ => Durable (Left plan) := by
  have hrecorded : Recorded plan.executed (f row) := ⟨hcount.le, fun _ => hcount⟩
  have hsafe : ∀ d, Ran (some base) plan.executed (f row) d →
      Safe (· <+: plan.executed) (· = plan.executed) d :=
    fun d h => ⟨_, _, h.1, List.prefix_refl _, hrecorded, fun _ => rfl⟩
  refine .bind (.mapError (updateLedger_meets (some base) plan.executed row f) fun _ c h => ?_)
    fun _ => ?_
  · rcases h with h | h
    · exact .inr ⟨hmax, .of_count h.2.1 (List.prefix_refl _) hrow hstatus⟩
    · exact .inr ⟨hmax, hsafe _ h.2.2⟩
  · have hok : ∀ c : Conn Store, Idle (Ran (some base) plan.executed (f row)) c →
        Idle (Applied plan base) c :=
      fun c h => ⟨h.1, hmax, f row, happlied, hrecorded, h.2⟩
    rcases ctx.snapshot with _ | _ | _
    · exact .pure _ hok
    · exact .fail _ fun c h => .inr ⟨hmax, hsafe _ h.2⟩
    · exact .pure _ hok

/-- **One apply.** A success commits every executed step, in plan order; whatever cuts it off
leaves a prefix of them, recorded in the row if there is one. -/
theorem applyPlanInner_meets (ctx : RunnerCtx) (plan : MigrationPlan) (base : Catalog) :
    Meets (Idle (Fresh base)) (applyPlanInner ctx plan)
      (fun _ => Idle (Applied plan base))
      fun _ => Durable (Left plan) := by
  have hfresh : ∀ d, Fresh base d → d.row = none ∧ d.committed = [] := fun d h => ⟨h.2.1, h.2.2.1⟩
  unfold applyPlanInner stepCountToI32
  by_cases hmax : (nonTxStepCount plan : Int) ≤ i32Max
  swap
  · rw [if_neg hmax]
    exact .fail _ fun c h => .inl (hfresh _ h.2)
  rw [if_pos hmax, nonTxStepCount_eq]
  set row := pendingRow ctx plan (nonTx plan.executed).length with hrow
  have hpending : row.status ≠ .applied := by simp [hrow, pendingRow]
  have hstart : row.ack 0 ctx.initialNote = row := rfl
  have hnil : ∀ d, Ran (some base) [] row d →
      Safe (· <+: plan.executed) (· = plan.executed) d :=
    fun d h => .of_count h.1 (List.nil_prefix) rfl hpending
  have hinsert : ∀ (v : Option Int) (d d' : Store), Fresh base d →
      (if d.row.isSome then none else some { d with row := some row } : Option Store) = some d' →
      Ran (some base) [] row d' := by
    rintro v d d' ⟨hcat, hnone, hC, hundone⟩ hd
    rw [hnone] at hd
    obtain rfl := Option.some.inj hd
    refine ⟨⟨hC, rfl⟩, fun b hb => ⟨hundone, ?_⟩⟩
    obtain rfl := Option.some.inj hb
    exact congrArg some hcat.symm
  refine .bind (.mapError (meets_run (R := fun _ => Ran (some base) [] row) _ hinsert)
    fun _ c h => ?_) fun _ => ?_
  · exact h.elim (fun h => .inl (hfresh _ h.2)) fun ⟨_, _, _, h⟩ => .inr ⟨hmax, hnil _ h⟩
  have hwalk := walkSegments_meets (some base) ctx (collectAddTableTargets plan)
    (nonTx plan.executed).length row (· = plan.executed) plan.executed hpending
    (nonTxStepCount_eq plan ▸ hmax)
    plan.segments.zipIdx [] ⟨0, 0, 0⟩ rfl
  refine .bind (hwalk.conseq (fun _ h => h) (fun _ _ h => h) fun _ _ h => .inr ⟨hmax, h⟩) fun v => ?_
  obtain ⟨report, applied⟩ := v
  refine Meets.pre (P := fun c => applied = (nonTx plan.executed).length ∧ Idle (Ran (some base)
    plan.executed (row.ack (nonTx plan.executed).length ctx.initialNote)) c) ?_ fun _ h => h
  intro c ⟨happlied, hc⟩
  subst happlied
  revert c
  show Meets (Idle (Ran (some base) plan.executed
    (row.ack (nonTx plan.executed).length ctx.initialNote))) _ _ _
  refine .bind ((provisioning_meets ctx (some base) plan.executed
    (row.ack (nonTx plan.executed).length ctx.initialNote) (· <+: plan.executed)
    (· = plan.executed) (List.prefix_refl _) rfl hpending).conseq (fun _ h => h)
      (fun _ _ h => h) fun _ _ h => .inr ⟨hmax, h⟩) fun _ => ?_
  cases ctx.isOutOfOrder with
  | true => exact finish_meets ctx plan _ base _ _ rfl rfl rfl hpending hmax
  | false => exact finish_meets ctx plan _ base _ _ rfl rfl rfl hpending hmax

/-! ## A new table and an index -/

/-- `CREATE TABLE` with a text key. -/
def createKeyed (name : String) : OperationSql where
  label := "AddTable " ++ name
  up := sqlScript [.createTable ⟨name, [⟨"id", "TEXT", true, .none, []⟩], some ["id"], [], none⟩]
  down := sqlScript [.dropTable name]
  lossy := none

/-- `CREATE INDEX CONCURRENTLY` on the key. -/
def indexKeyed (table : String) : OperationSql where
  label := "AddIndex " ++ table ++ "_id_idx"
  up := sqlScript [.createIndex (table ++ "_id_idx")
    ⟨table, false, .bTree, .columns [⟨"id", .default, none, .asc⟩], [], false, none⟩ true false
    false]
  down := sqlScript [.dropIndex (table ++ "_id_idx") true true]
  lossy := none

/-- A new table, and an index on another one without a lock. -/
def postsPlan : MigrationPlan where
  bucket := ⟨"main", ""⟩
  classification := .additive
  segments := [⟨.transactional, [createKeyed "posts"]⟩, ⟨.nonTransactional, [indexKeyed "users"]⟩]

def plainRunner : RunnerCtx where
  version := "V20260101000000__posts"
  checksumUp := ""
  bucket := ⟨"main", ""⟩
  isOutOfOrder := false
  overrideReason := none
  conflictingPeer := none
  concurrentWarnRelpages := 128
  strictConcurrentWarnings := false
  provisionsSingleNodeDev := false
  refuses := fun _ => none
  snapshot := none

/-- A session on a catalog with the table `users`. -/
def usersConn (replies : List Reply) : Conn Store where
  durable := ⟨(Catalog.empty.execAll (createKeyed "users").upStmts).getD .empty, none, [], []⟩
  tx := .idle
  alive := true
  replies := replies

/-- Both are made. -/
example : (applyPlanInner plainRunner postsPlan (usersConn [])).2.durable.committed =
    postsPlan.executed := by decide +kernel

end Djogi

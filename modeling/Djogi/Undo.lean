import Djogi.Apply
import Djogi.Lib.Fallible

/-!
# Rolling a migration back

`migrate/runner.rs`, `rollback_inner`: the down statements of all non-transactional segments
run first, on their own, and those of all transactional segments after them, in one
transaction.

* `rollbackInner_meets`: one rollback, cut off anywhere, and what its error says;
* `rollback_reverses_iff`: it is the reverse of the apply exactly when no non-transactional
  statement stands before a transactional one;
* `rollback_out_of_order`: an index that was made before a table is dropped before it.
-/

namespace Djogi

open Session

/-! ## The code -/

/-- No segment index means the compound transaction itself. -/
inductive RollbackError
  | downStatementFailed (segmentIndex : Option Nat) (statementLabel : String)
      (liveDbCommitted : Bool) (source : String)
  | runner (source : RunnerError) (liveDbCommitted : Bool)
  | snapshotPersistFailed (source : String)

def RollbackError.liveDbCommitted : RollbackError → Bool
  | .downStatementFailed _ _ committed _ => committed
  | .runner _ committed => committed
  | .snapshotPersistFailed _ => true

structure RollbackReport where
  transactionalUndone : Nat
  nonTransactionalUndone : Nat
  snapshotReverted : Bool
  lossyReason : Option String

def Step.hasDown (s : Step) : Bool := !(scriptText s.sql.down).isEmpty

/-- What a down statement does, and that it counts as committed. -/
def Step.undo (s : Step) (d : Store) : Option Store :=
  (d.catalog.execAll s.sql.downStmts).map fun c =>
    { d with catalog := c, undone := d.undone ++ [s] }

/-- One down statement, if there is one. -/
def undoStep (ctx : RunnerCtx) (onFail : Db RollbackError Unit) (committed : Bool) (s : Step) :
    Db RollbackError Unit :=
  if s.hasDown then do
    let _ ← onError (executeRunnerStatement ctx.refuses (scriptText s.sql.down) s.undo)
      (fun _ => onFail) (.downStatementFailed (some s.segment) s.sql.label committed)
  else pure ()

def undoSteps (ctx : RunnerCtx) (onFail : Db RollbackError Unit) (committed : Bool) :
    List Step → Db RollbackError Unit
  | [] => pure ()
  | s :: rest => do
      undoStep ctx onFail committed s
      undoSteps ctx onFail committed rest

/-- The statements of a segment in reverse, on their own. -/
def rollbackNonTransactionalSegment (ctx : RunnerCtx) (steps : List Step) :
    Db RollbackError Unit :=
  undoSteps ctx (pure ()) true steps.reverse

/-- The segments of one kind, in the order given. Returns how many there were. -/
def undoSegments (kind : SegmentKind) (undo : List Step → Db RollbackError Unit) :
    List (Segment × Nat) → Nat → Db RollbackError Nat
  | [], undone => pure undone
  | (seg, i) :: rest, undone =>
      if seg.kind = kind then do
        undo (seg.steps i)
        undoSegments kind undo rest (undone + 1)
      else undoSegments kind undo rest undone

/-- The compound transaction. -/
def undoTransactional (ctx : RunnerCtx) (plan : MigrationPlan) (nonTransactionalUndone : Nat) :
    Db RollbackError Nat :=
  if plan.segments.any (fun seg => seg.kind = .transactional) then do
    let _ ← mapError (.downStatementFailed none "<BEGIN compound rollback tx>"
      (decide (0 < nonTransactionalUndone))) (ask .begin)
    let undone ← undoSegments .transactional (fun steps => undoSteps ctx
      (bestEffort (ask .rollback)) (decide (0 < nonTransactionalUndone)) steps.reverse)
      plan.segments.zipIdx.reverse 0
    let _ ← mapError (.downStatementFailed none "<COMMIT compound rollback tx>" true) (ask .commit)
    pure undone
  else pure 0

def LedgerRow.rollBack (note : String) (r : LedgerRow) : LedgerRow :=
  { r with
    status := .rolledBack, appliedStepsCount := 0, totalSteps := none
    partialApplyNote := some note }

def rolledBackNote (timestamp : String) (allowReason : Option String) : String :=
  match allowReason with
  | some reason => "rolled back at " ++ timestamp ++ "; lossy reason: " ++ reason
  | none => "rolled back at " ++ timestamp

/-- `priorSnapshot` is how writing the prior snapshot goes, when one was handed in. -/
def rollbackInner (ctx : RunnerCtx) (plan : MigrationPlan)
    (priorSnapshot : Option (Except String Unit)) (allowReason : Option String)
    (timestamp : String) : Db RollbackError RollbackReport := do
  let nonTransactionalUndone ← undoSegments .nonTransactional
    (rollbackNonTransactionalSegment ctx) plan.segments.zipIdx.reverse 0
  let transactionalUndone ← undoTransactional ctx plan nonTransactionalUndone
  let _ ← mapError (fun e => .runner (.ledgerWriteFailed ctx.version e) true)
    (updateLedger (.rollBack (rolledBackNote timestamp allowReason)))
  match priorSnapshot with
  | some (.error e) => fail (.snapshotPersistFailed e)
  | _ => pure ⟨transactionalUndone, nonTransactionalUndone, priorSnapshot.isSome, allowReason⟩

/-! ## The order of the down statements -/

/-- The down statements of the segments of one kind, for segments in the order given. -/
def undoneBy (kind : SegmentKind) (segs : List (Segment × Nat)) : List Step :=
  segs.flatMap fun e =>
    if e.1.kind = kind then (e.1.steps e.2).reverse.filter Step.hasDown else []

/-- The order in which a rollback commits them. -/
def undoOrder (plan : MigrationPlan) : List Step :=
  undoneBy .nonTransactional plan.segments.zipIdx.reverse ++
    undoneBy .transactional plan.segments.zipIdx.reverse

theorem undoneBy_reverse (kind : SegmentKind) (hkind : kind ≠ .metadataOnly)
    (segs : List (Segment × Nat)) :
    undoneBy kind segs.reverse =
      (((segmentSteps segs).filter Step.hasDown).filter fun s => s.kind = kind).reverse := by
  induction segs with
  | nil => rfl
  | cons e rest ih =>
    obtain ⟨seg, i⟩ := e
    rw [List.reverse_cons, undoneBy, List.flatMap_append, ← undoneBy, ih, segmentSteps_cons,
      List.filter_append, List.filter_append, List.reverse_append, List.flatMap_singleton]
    congr 1
    show (if seg.kind = kind then _ else _) = _
    split_ifs with hk hm hm
    · exact absurd (hk.symm.trans hm) hkind
    · rw [List.filter_reverse]
      congr 1
      symm
      refine List.filter_eq_self.mpr fun s hs => ?_
      simp [(mem_steps seg i s (List.mem_of_mem_filter hs)).2, hk]
    · rfl
    · symm
      rw [List.reverse_eq_nil_iff]
      refine List.filter_eq_nil_iff.mpr fun s hs => ?_
      simp [(mem_steps seg i s (List.mem_of_mem_filter hs)).2, hk]

/-- No non-transactional down statement stands before a transactional one. -/
def NonTxLast (plan : MigrationPlan) : Prop :=
  (plan.executed.filter Step.hasDown).Pairwise fun s t => s.isNonTx = true → t.isNonTx = true

/-- Two kinds in a row exactly when none of the second stands before one of the first. -/
theorem filter_append_filter_eq_iff {α : Type} (p : α → Bool) (l : List α) :
    l.filter (fun a => !p a) ++ l.filter p = l ↔ l.Pairwise fun a b => p a = true → p b = true := by
  induction l with
  | nil => simp
  | cons a l ih =>
    rw [List.pairwise_cons]
    cases ha : p a with
    | false => simp [ha, ih]
    | true =>
      rw [List.filter_cons_of_neg (by simp [ha]), List.filter_cons_of_pos ha]
      constructor
      · intro h
        have hall : ∀ b ∈ l, p b = true := by
          cases hn : l.filter (fun a => !p a) with
          | nil => simpa using hn
          | cons b r =>
            rw [hn] at h
            have hb : b ∈ l.filter fun a => !p a := by rw [hn]; exact List.mem_cons_self
            rw [List.cons_append, List.cons.injEq] at h
            have := (List.mem_filter.mp hb).2
            rw [h.1, ha] at this
            cases this
        exact ⟨fun b hb _ => hall b hb, List.pairwise_of_forall_mem_list fun a _ b hb _ => hall b hb⟩
      · rintro ⟨hall, -⟩
        rw [List.filter_eq_nil_iff.mpr fun b hb => by simp [hall b hb rfl],
          List.filter_eq_self.mpr fun b hb => hall b hb rfl, List.nil_append]

theorem executed_kind (plan : MigrationPlan) (s : Step) (h : s ∈ plan.executed) :
    s.kind ≠ .metadataOnly := by
  obtain ⟨e, -, hs⟩ := List.mem_flatMap.mp h
  split_ifs at hs with hk
  · simp at hs
  · rw [(mem_steps e.1 e.2 s hs).2]
    exact hk

theorem undoOrder_eq (plan : MigrationPlan) :
    undoOrder plan = ((plan.executed.filter Step.hasDown).filter (fun s => !s.isNonTx) ++
      (plan.executed.filter Step.hasDown).filter Step.isNonTx).reverse := by
  rw [undoOrder, undoneBy_reverse _ (by decide), undoneBy_reverse _ (by decide),
    ← MigrationPlan.executed, List.reverse_append]
  congr 2
  refine List.filter_congr fun s hs => ?_
  have hkind := executed_kind plan s (List.mem_of_mem_filter hs)
  cases hk : s.kind with
  | metadataOnly => exact absurd hk hkind
  | transactional => simp [Step.isNonTx, hk]
  | nonTransactional => simp [Step.isNonTx, hk]

/-- **Order.** The rollback reverses the plan exactly when the non-transactional down statements
stand last in it. -/
theorem undoOrder_eq_iff (plan : MigrationPlan) :
    undoOrder plan = plan.executed.reverse.filter Step.hasDown ↔ NonTxLast plan := by
  rw [undoOrder_eq, List.filter_reverse, List.reverse_inj, filter_append_filter_eq_iff]
  rfl

/-! ## One rollback -/

/-- From `start`, the down statements `U` were run and the row was not touched. -/
def UndoneTo (start : Store) (U : List Step) (d : Store) : Prop :=
  d.row = start.row ∧ d.undone = start.undone ++ U ∧
    start.catalog.execAll (U.flatMap fun s => s.sql.downStmts) = some d.catalog

theorem UndoneTo.undo {start d d' : Store} {U : List Step} {s : Step} (h : UndoneTo start U d)
    (hs : s.undo d = some d') : UndoneTo start (U ++ [s]) d' := by
  obtain ⟨hrow, hundone, hcat⟩ := h
  obtain ⟨c, hc, rfl⟩ := Option.map_eq_some_iff.mp hs
  refine ⟨hrow, by rw [hundone, List.append_assoc], ?_⟩
  rw [List.flatMap_append, Catalog.execAll_append, hcat]
  simpa using hc

theorem filter_hasDown_cons (s : Step) (rest : List Step) (U : List Step) :
    U ++ (s :: rest).filter Step.hasDown =
      (if s.hasDown = true then U ++ [s] else U) ++ rest.filter Step.hasDown := by
  rw [List.filter_cons]
  split_ifs <;> simp

/-- Statements on their own. Whatever cuts them off, the row is as before. -/
theorem undoSteps_meets (ctx : RunnerCtx) (start : Store) (U steps : List Step) :
    Meets (Idle (UndoneTo start U)) (undoSteps ctx (pure ()) true steps)
      (fun _ => Idle (UndoneTo start (U ++ steps.filter Step.hasDown)))
      fun e c => e.liveDbCommitted = true ∧ c.durable.row = start.row := by
  induction steps generalizing U with
  | nil => exact .pure _ fun c h => by rwa [List.filter_nil, List.append_nil]
  | cons s rest ih =>
    rw [filter_hasDown_cons]
    refine .bind (Q := fun _ => Idle (UndoneTo start (if s.hasDown = true then U ++ [s] else U)))
      ?_ fun _ => ih _
    unfold undoStep executeRunnerStatement
    split_ifs with hdown
    · refine .bind (Q := fun _ => Idle (UndoneTo start (U ++ [s]))) (.onError
        (E := fun _ c => c.durable.row = start.row) ?_ fun e => .pure _ fun c h => ⟨rfl, h⟩)
        fun _ => .pure _ fun _ h => h
      cases ctx.refuses (scriptText s.sql.down) with
      | some reason => exact .fail _ fun c h => h.2.1
      | none =>
        refine (meets_run (R := fun _ => UndoneTo start (U ++ [s])) _
          fun v d d' h hd => h.undo hd).conseq (fun _ h => h) (fun _ _ h => h) fun _ c h => ?_
        exact h.elim (fun h => h.2.1) fun ⟨_, _, _, h⟩ => h.1
    · exact .pure _ fun _ h => h

/-- Statements of the compound transaction, which began at `U`. -/
theorem undoSteps_meetsWithin (ctx : RunnerCtx) (start : Store) (U V steps : List Step)
    (committed : Bool) :
    Meets (Within fun d w => UndoneTo start U d ∧ UndoneTo start V w)
      (undoSteps ctx (bestEffort (ask .rollback)) committed steps)
      (fun _ => Within fun d w =>
        UndoneTo start U d ∧ UndoneTo start (V ++ steps.filter Step.hasDown) w)
      fun e c => e.liveDbCommitted = committed ∧ Durable (UndoneTo start U) c := by
  induction steps generalizing V with
  | nil => exact .pure _ fun c h => by rwa [List.filter_nil, List.append_nil]
  | cons s rest ih =>
    rw [filter_hasDown_cons]
    refine .bind (Q := fun _ => Within fun d w => UndoneTo start U d ∧
      UndoneTo start (if s.hasDown = true then V ++ [s] else V) w) ?_ fun _ => ih _
    unfold undoStep executeRunnerStatement
    split_ifs with hdown
    · refine .bind (Q := fun _ => Within fun d w => UndoneTo start U d ∧
        UndoneTo start (V ++ [s]) w) (.onError (E := fun _ => Durable (UndoneTo start U)) ?_
          fun e => .bestEffort (meets_rollback.conseq (fun _ h => h)
            (fun _ _ h => ⟨rfl, h.durable⟩) fun _ _ h => ⟨rfl, h⟩)) fun _ => .pure _ fun _ h => h
      cases ctx.refuses (scriptText s.sql.down) with
      | some reason => exact .fail _ fun c ⟨w, _, h, _⟩ => h
      | none =>
        exact meets_runWithin _ (fun v d w w' h hw => ⟨h.1, h.2.undo hw⟩) fun d w h => h.1
    · exact .pure _ fun _ h => h

theorem undoneBy_cons (kind : SegmentKind) (seg : Segment) (i : Nat)
    (rest : List (Segment × Nat)) :
    undoneBy kind ((seg, i) :: rest) =
      (if seg.kind = kind then (seg.steps i).reverse.filter Step.hasDown else []) ++
        undoneBy kind rest := List.flatMap_cons

theorem undoSegments_meets (kind : SegmentKind) (undo : List Step → Db RollbackError Unit)
    (A : List Step → Conn Store → Prop) (E : RollbackError → Conn Store → Prop)
    (h : ∀ U steps, Meets (A U) (undo steps)
      (fun _ => A (U ++ steps.reverse.filter Step.hasDown)) E)
    (segs : List (Segment × Nat)) (U : List Step) (n : Nat) :
    Meets (A U) (undoSegments kind undo segs n)
      (fun v c => n ≤ v ∧ (v = n → undoneBy kind segs = []) ∧ A (U ++ undoneBy kind segs) c) E := by
  induction segs generalizing U n with
  | nil => exact .pure _ fun c hc => ⟨le_rfl, fun _ => rfl, by rwa [undoneBy, List.flatMap_nil,
      List.append_nil]⟩
  | cons e rest ih =>
    obtain ⟨seg, i⟩ := e
    rw [undoneBy_cons]
    unfold undoSegments
    split_ifs with hk
    · refine .bind (h U (seg.steps i)) fun _ => (ih _ (n + 1)).conseq (fun _ h => h) ?_
        fun _ _ h => h
      rintro v c ⟨hle, -, hA⟩
      refine ⟨by omega, fun hv => absurd hv (by omega), ?_⟩
      rwa [← List.append_assoc]
    · rw [List.nil_append]
      exact ih U n

theorem undoneBy_of_none (plan : MigrationPlan)
    (h : ¬ plan.segments.any (fun seg => seg.kind = .transactional) = true) :
    undoneBy .transactional plan.segments.zipIdx.reverse = [] := by
  refine List.flatMap_eq_nil_iff.mpr fun e he => ?_
  have hmem : e.1 ∈ plan.segments := by
    rw [← List.zipIdx_map_fst 0 plan.segments]
    exact List.mem_map_of_mem (List.mem_reverse.mp he)
  rw [if_neg fun hk => h (List.any_eq_true.mpr ⟨e.1, hmem, decide_eq_true hk⟩)]

/-- The compound transaction: all of it, or what was before. -/
theorem undoTransactional_meets (ctx : RunnerCtx) (plan : MigrationPlan) (start : Store)
    (U : List Step) (n : Nat) :
    Meets (Idle (UndoneTo start U)) (undoTransactional ctx plan n)
      (fun _ => Idle (UndoneTo start (U ++ undoneBy .transactional plan.segments.zipIdx.reverse)))
      fun e c => (e.liveDbCommitted = false → n = 0 ∧ Durable (UndoneTo start U) c) ∧
        c.durable.row = start.row := by
  unfold undoTransactional
  have hfail : ∀ (e : RollbackError) (c : Conn Store),
      e.liveDbCommitted = decide (0 < n) → Durable (UndoneTo start U) c →
      (e.liveDbCommitted = false → n = 0 ∧ Durable (UndoneTo start U) c) ∧
        c.durable.row = start.row := by
    intro e c he h
    refine ⟨fun hf => ⟨?_, h⟩, h.1⟩
    rw [he, decide_eq_false_iff_not] at hf
    omega
  split_ifs with htx
  · refine .bind (.mapError meets_begin fun e c h => hfail _ c rfl h.2) fun _ => ?_
    have hsegs := undoSegments_meets .transactional
      (fun steps => undoSteps ctx (bestEffort (ask .rollback)) (decide (0 < n)) steps.reverse)
      (fun V => Within fun d w => UndoneTo start U d ∧ UndoneTo start V w) _
      (fun V steps => undoSteps_meetsWithin ctx start U V steps.reverse (decide (0 < n)))
      plan.segments.zipIdx.reverse U 0
    refine .bind (hsegs.conseq (fun c ⟨w, hw, h, heq⟩ => ⟨w, hw, h, heq ▸ h⟩) (fun _ _ h => h)
      fun e c h => hfail e c h.1 h.2) fun v => ?_
    refine .bind (.mapError ((meets_commit (P := UndoneTo start U)
      (Q := UndoneTo start (U ++ undoneBy .transactional plan.segments.zipIdx.reverse))
      (fun d w h => h.1) fun d w h => h.2).pre fun c h => h.2.2) fun e c h => ?_)
      fun _ => .pure _ fun _ h => h
    exact ⟨nofun, h.elim (fun h => h.2.1) fun h => h.2.2.1⟩
  · rw [undoneBy_of_none plan htx, List.append_nil]
    exact .pure _ fun _ h => h

/-- Every down statement was run. -/
def UndoneAll (plan : MigrationPlan) (start d : Store) : Prop :=
  d.undone = start.undone ++ undoOrder plan ∧
    start.catalog.execAll ((undoOrder plan).flatMap fun s => s.sql.downStmts) = some d.catalog

/-- **One rollback.** A success runs the down statements in `undoOrder`. An error that says the
database was not touched is right, and the row is rolled back only with all of them run. -/
theorem rollbackInner_meets (ctx : RunnerCtx) (plan : MigrationPlan)
    (priorSnapshot : Option (Except String Unit)) (allowReason : Option String)
    (timestamp : String) (start : Store) :
    Meets (Idle (· = start)) (rollbackInner ctx plan priorSnapshot allowReason timestamp)
      (fun _ => Durable (UndoneAll plan start))
      fun e c => (e.liveDbCommitted = false → c.durable.catalog = start.catalog) ∧
        (c.durable.row = start.row ∨ c.durable.undone = start.undone ++ undoOrder plan) := by
  have hzero : ∀ d, d = start → UndoneTo start [] d := by
    rintro d rfl
    exact ⟨rfl, by rw [List.append_nil], rfl⟩
  unfold rollbackInner
  have hnon := undoSegments_meets .nonTransactional (rollbackNonTransactionalSegment ctx)
    (fun U => Idle (UndoneTo start U)) _ (fun U steps => undoSteps_meets ctx start U steps.reverse)
    plan.segments.zipIdx.reverse [] 0
  refine .bind (hnon.conseq (fun c h => ⟨h.1, hzero _ h.2⟩) (fun _ _ h => h) fun e c h =>
    ⟨fun hf => absurd (h.1.symm.trans hf) (by decide), .inl h.2⟩) fun n => ?_
  intro c ⟨_, hn, hc⟩
  rw [List.nil_append] at hc
  revert c
  show Meets (Idle (UndoneTo start (undoneBy .nonTransactional plan.segments.zipIdx.reverse))) _ _ _
  refine .bind ((undoTransactional_meets ctx plan start _ n).conseq (fun _ h => h)
    (fun _ _ h => h) fun e c h => ⟨fun hf => ?_, .inl h.2⟩) fun _ => ?_
  · obtain ⟨h0, hd⟩ := h.1 hf
    have hcat := hd.2.2
    rw [hn h0] at hcat
    exact (Option.some.inj hcat).symm
  -- The row is touched last, and everything is run by then.
  have hdone : ∀ d, UndoneTo start (undoOrder plan) d → UndoneAll plan start d :=
    fun d h => ⟨h.2.1, h.2.2⟩
  have hrun : ∀ (v : Option Int) (d d' : Store), UndoneTo start (undoOrder plan) d →
      (some (d.updateRow (.rollBack (rolledBackNote timestamp allowReason))) : Option Store) =
        some d' → UndoneAll plan start d' := by
    intro v d d' h hd
    obtain rfl := Option.some.inj hd
    exact hdone d h
  refine .bind (Q := fun _ => Durable (UndoneAll plan start)) (.mapError
    (E := fun _ => Durable (UndoneAll plan start))
    ((meets_run (R := fun _ => UndoneAll plan start) _ hrun).conseq (fun _ h => h)
      (fun _ _ h => h.durable) fun _ c h => h.elim (fun h => hdone _ h.2) fun ⟨_, _, _, h⟩ => h)
    fun e c h => ⟨nofun, .inr h.1⟩) fun _ => ?_
  rcases priorSnapshot with _ | _ | _
  · exact .pure _ fun _ h => h
  · exact .fail _ fun _ h => ⟨nofun, .inr h.1⟩
  · exact .pure _ fun _ h => h

/-! ## Apply and rollback -/

/-- What a rollback makes of the catalog at a step. -/
def Step.downCatalog (s : Step) (c : Catalog) : Option Catalog :=
  if s.hasDown then c.execAll s.sql.downStmts else some c

/-- Every step takes itself back in the catalog right after it. -/
def InvertsAlong : Catalog → List Step → Prop
  | _, [] => True
  | c, s :: rest => ∀ c', c.execAll s.sql.upStmts = some c' →
      s.downCatalog c' = some c ∧ InvertsAlong c' rest

theorem execAll_reverse (l : List Step) (base c : Catalog)
    (hup : base.execAll (l.flatMap fun s => s.sql.upStmts) = some c) (hinv : InvertsAlong base l) :
    c.execAll ((l.reverse.filter Step.hasDown).flatMap fun s => s.sql.downStmts) = some base := by
  induction l generalizing base with
  | nil => exact congrArg some (Option.some.inj hup).symm
  | cons s rest ih =>
    rw [List.flatMap_cons, Catalog.execAll_append, Option.bind_eq_some_iff] at hup
    obtain ⟨c', hc', hrest⟩ := hup
    obtain ⟨hdown, hinv'⟩ := hinv c' hc'
    rw [List.reverse_cons, List.filter_append, List.flatMap_append, Catalog.execAll_append,
      ih c' hrest hinv', Option.bind_some]
    unfold Step.downCatalog at hdown
    split_ifs at hdown with hs
    · rwa [List.filter_cons_of_pos hs, List.filter_nil, List.flatMap_singleton]
    · rw [List.filter_cons_of_neg hs, List.filter_nil]
      exact hdown

/-- The down statements in the reverse of the order of the up statements; so the catalog is back
when each takes its step back. -/
structure Reverses (before applied after : Store) : Prop where
  order : after.undone = applied.committed.reverse.filter Step.hasDown
  restores : InvertsAlong before.catalog applied.committed → after.catalog = before.catalog

/-- An error that says the database was not touched is right, and the row is rolled back only
with every down statement committed. -/
structure Honest (plan : MigrationPlan) (start : Store)
    (run : Except RollbackError RollbackReport × Conn Store) : Prop where
  untouched : ∀ e, run.1 = .error e → e.liveDbCommitted = false →
    run.2.durable.catalog = start.catalog
  recorded : ∀ row, run.2.durable.row = some row → row.status = .rolledBack →
    run.2.durable.row = start.row ∨
      ∀ s ∈ plan.executed, s.hasDown = true → s ∈ run.2.durable.undone

theorem mem_undoOrder (plan : MigrationPlan) (s : Step) (hs : s ∈ plan.executed)
    (hdown : s.hasDown = true) : s ∈ undoOrder plan := by
  rw [undoOrder_eq, List.mem_reverse, List.mem_append]
  have hmem : s ∈ plan.executed.filter Step.hasDown := List.mem_filter.mpr ⟨hs, hdown⟩
  cases hk : s.isNonTx with
  | false => exact .inl (List.mem_filter.mpr ⟨hmem, by rw [hk]; rfl⟩)
  | true => exact .inr (List.mem_filter.mpr ⟨hmem, hk⟩)

theorem rollbackInner_honest (plan : MigrationPlan) (ctx : RunnerCtx)
    (priorSnapshot : Option (Except String Unit)) (allowReason : Option String)
    (timestamp : String) (c : Conn Store) (hc : c.tx = .idle) :
    Honest plan c.durable (rollbackInner ctx plan priorSnapshot allowReason timestamp c) := by
  have h := rollbackInner_meets ctx plan priorSnapshot allowReason timestamp c.durable c ⟨hc, rfl⟩
  have hall : ∀ c' : Conn Store, c'.durable.undone = c.durable.undone ++ undoOrder plan →
      ∀ s ∈ plan.executed, s.hasDown = true → s ∈ c'.durable.undone := by
    intro c' hc' s hs hdown
    rw [hc']
    exact List.mem_append_right _ (mem_undoOrder plan s hs hdown)
  cases hrun : rollbackInner ctx plan priorSnapshot allowReason timestamp c with
  | mk res c' =>
    rw [hrun] at h
    cases res with
    | ok rep => exact ⟨nofun, fun _ _ _ => .inr (hall c' h.1)⟩
    | error e =>
      refine ⟨fun e' he' hf => ?_, fun _ _ _ => h.2.imp id (hall c')⟩
      obtain rfl := Except.error.inj he'
      exact h.1 hf

/-- **The exact reverse.** Every rollback reports honestly, and one that succeeds after an apply
that succeeded reverses it exactly when the non-transactional statements stand last. -/
theorem rollback_reverses_iff (plan : MigrationPlan) :
    (∀ (ctx : RunnerCtx) (priorSnapshot : Option (Except String Unit))
      (allowReason : Option String) (timestamp : String) (c : Conn Store), c.tx = .idle →
      Honest plan c.durable (rollbackInner ctx plan priorSnapshot allowReason timestamp c)) ∧
    ∀ (ctx ctx' : RunnerCtx) (priorSnapshot : Option (Except String Unit))
      (allowReason : Option String) (timestamp : String) (c₀ c₁ c₂ c₃ : Conn Store)
      (report : RunReport) (report' : RollbackReport),
      Idle (Fresh c₀.durable.catalog) c₀ → applyPlanInner ctx plan c₀ = (.ok report, c₁) →
      c₂.tx = .idle → c₂.durable = c₁.durable →
      rollbackInner ctx' plan priorSnapshot allowReason timestamp c₂ = (.ok report', c₃) →
      (Reverses c₀.durable c₁.durable c₃.durable ↔ NonTxLast plan) := by
  refine ⟨rollbackInner_honest plan, ?_⟩
  intro ctx ctx' priorSnapshot allowReason timestamp c₀ c₁ c₂ c₃ report report' hfresh hup hidle
    hsame hdown
  have happly := applyPlanInner_meets ctx plan c₀.durable.catalog c₀ hfresh
  rw [hup] at happly
  obtain ⟨-, -, row, -, -, ⟨hC, -⟩, hbase⟩ := happly
  obtain ⟨hundone, hcat⟩ := hbase _ rfl
  have hroll := rollbackInner_meets ctx' plan priorSnapshot allowReason timestamp c₁.durable c₂
    ⟨hidle, hsame⟩
  rw [hdown] at hroll
  obtain ⟨horder, hback⟩ := hroll
  rw [hundone, List.nil_append] at horder
  rw [← undoOrder_eq_iff]
  constructor
  · intro h
    rw [← horder, ← hC]
    exact h.order
  · intro h
    refine ⟨by rw [horder, h, hC], fun hinv => ?_⟩
    rw [hC] at hinv
    rw [h, execAll_reverse _ _ _ hcat hinv] at hback
    exact (Option.some.inj hback).symm

theorem run_eq_ok {ε α : Type} {p : Except ε α × Conn Store}
    (h : p.1.toOption.any (fun _ => true) = true) : ∃ a, p = (.ok a, p.2) := by
  obtain ⟨a, ha, -⟩ := Fallible.exists_of_any p.1 _ h
  exact ⟨a, Prod.ext ha rfl⟩

/-- A table and then an index: the index goes and then the table, and the catalog is back. -/
theorem rollback_posts : ∃ c₁ c₃ : Conn Store, c₃.durable.undone.length = 2 ∧
    Reverses (usersConn []).durable c₁.durable c₃.durable := by
  obtain ⟨report, hup⟩ := run_eq_ok (p := applyPlanInner plainRunner postsPlan (usersConn []))
    (by decide +kernel)
  obtain ⟨report', hdown⟩ := run_eq_ok (p := rollbackInner plainRunner postsPlan none none ""
    (applyPlanInner plainRunner postsPlan (usersConn [])).2) (by decide +kernel)
  refine ⟨_, _, ?_, ((rollback_reverses_iff postsPlan).2 _ _ _ _ _ (usersConn []) _ _ _ _ _
    ⟨rfl, rfl, rfl, rfl, rfl⟩ hup (by rfl) rfl hdown).mpr ?_⟩
  · decide +kernel
  · unfold NonTxLast
    decide +kernel

/-- An index and then a table. -/
def indexFirstPlan : MigrationPlan := { postsPlan with segments := postsPlan.segments.reverse }

/-- The index was made first, and it goes first. -/
theorem rollback_out_of_order : ∃ c₁ c₃ report report',
    applyPlanInner plainRunner indexFirstPlan (usersConn []) = (.ok report, c₁) ∧
      rollbackInner plainRunner indexFirstPlan none none "" c₁ = (.ok report', c₃) ∧
      ¬ Reverses (usersConn []).durable c₁.durable c₃.durable := by
  obtain ⟨report, hup⟩ := run_eq_ok
    (p := applyPlanInner plainRunner indexFirstPlan (usersConn [])) (by decide +kernel)
  obtain ⟨report', hdown⟩ := run_eq_ok (p := rollbackInner plainRunner indexFirstPlan none none ""
    (applyPlanInner plainRunner indexFirstPlan (usersConn [])).2) (by decide +kernel)
  refine ⟨_, _, _, _, hup, hdown, fun h => ?_⟩
  have horder := h.order
  revert horder
  decide +kernel

end Djogi

import Djogi.Live.Daemon

/-!
# One live plan per bucket

`live_migrate/compose.rs` refuses to compose a plan for a bucket that has an active one. Its query
names three statuses of the seven that a plan can go on from.

* `splitOnce_bucketString`: when the string of a bucket is split back into the bucket;
* `check_terminal_iff`: what a check that succeeds says about the rows of the bucket;
* `active_replace`: no command and no daemon makes a plan active again;
* `one_active_plan`: at most one active plan per bucket, in every run whose checks meet no row in
  the statuses that the query leaves out and no other composer before its insertion;
* `two_active_plans`, `two_active_plans_raced`: a plan at its validation gate and a second one, and
  two composers at once.
-/

namespace Djogi.Live

open Session

variable {ρ : Type}

/-! ## Bucket strings -/

/-- `str::split_once`: at the first occurrence. -/
def splitOnceAt (c : Char) : List Char → Option (List Char × List Char)
  | [] => none
  | x :: rest =>
      if x = c then some ([], rest) else (splitOnceAt c rest).map fun p => (x :: p.1, p.2)

def splitOnce (c : Char) (s : String) : Option (String × String) :=
  (splitOnceAt c s.toList).map fun p => (String.ofList p.1, String.ofList p.2)

def bucketString (targetDatabase appLabel : String) : String := targetDatabase ++ ":" ++ appLabel

theorem splitOnceAt_append (c : Char) (a b : List Char) (h : c ∉ a) :
    splitOnceAt c (a ++ c :: b) = some (a, b) := by
  induction a with
  | nil => simp [splitOnceAt]
  | cons x a ih =>
    obtain ⟨hx, ha⟩ := List.ne_and_not_mem_of_not_mem_cons h
    rw [List.cons_append, splitOnceAt, if_neg (Ne.symm hx), ih ha]
    rfl

theorem notMem_of_splitOnceAt (c : Char) (s a b : List Char) (h : splitOnceAt c s = some (a, b)) :
    c ∉ a := by
  induction s generalizing a with
  | nil => cases h
  | cons x s ih =>
    rw [splitOnceAt] at h
    split_ifs at h with hx
    · obtain ⟨rfl, -⟩ := Prod.mk.inj (Option.some.inj h)
      exact List.not_mem_nil
    · obtain ⟨⟨a', b'⟩, hsplit, heq⟩ := Option.map_eq_some_iff.mp h
      obtain ⟨rfl, rfl⟩ := Prod.mk.inj heq
      exact List.not_mem_cons_of_ne_of_not_mem (Ne.symm hx) (ih a' hsplit)

theorem toList_bucketString (db label : String) :
    (bucketString db label).toList = db.toList ++ ':' :: label.toList := by
  simp [bucketString, String.toList_append]

/-- **The string of a bucket** is split back if the database has no colon in its name. -/
theorem splitOnce_bucketString (db label : String) :
    splitOnce ':' (bucketString db label) = some (db, label) ↔ ':' ∉ db.toList := by
  unfold splitOnce
  rw [toList_bucketString]
  constructor
  · intro h
    obtain ⟨⟨a, b⟩, hsplit, heq⟩ := Option.map_eq_some_iff.mp h
    obtain ⟨rfl, -⟩ := Prod.mk.inj heq
    rw [String.toList_ofList]
    exact notMem_of_splitOnceAt ':' _ a b hsplit
  · intro h
    rw [splitOnceAt_append ':' _ _ h]
    simp

/-! ## The check -/

inductive ComposeError
  | activePlanExists
  deriving DecidableEq, Repr

/-- The statuses that the query names. -/
def activeStatuses : List PlanStatus := [.pending, .running, .paused]

def inBucket (db label : String) (r : LivePlanRow) : Bool :=
  r.targetDatabase = db && r.appLabel = label

def checkNoActivePlan (rows : List LivePlanRow) (bucket : String) : Except ComposeError Unit :=
  let (targetDb, appLabel) := (splitOnce ':' bucket).getD ("main", bucket)
  if rows.any fun r => inBucket targetDb appLabel r && r.status ∈ activeStatuses then
    .error .activePlanExists
  else .ok ()

/-- The statuses from which a plan goes on and that the query does not name. -/
def missedStatuses : List PlanStatus := [.validating, .cutover, .finalizing, .failedRetriable]

theorem terminal_iff (s : PlanStatus) :
    s.terminal = true ↔ s ∉ activeStatuses ∧ s ∉ missedStatuses := by
  cases s <;> decide

theorem check_ok_iff (rows : List LivePlanRow) (db label : String) (hdb : ':' ∉ db.toList) :
    checkNoActivePlan rows (bucketString db label) = .ok () ↔
      ∀ r ∈ rows, inBucket db label r = true → r.status ∉ activeStatuses := by
  unfold checkNoActivePlan
  rw [(splitOnce_bucketString db label).mpr hdb]
  simp

/-- **A check that succeeds** says that the bucket has no plan that can go on, unless one is in a
status that the query does not name. -/
theorem check_terminal_iff (rows : List LivePlanRow) (db label : String) (hdb : ':' ∉ db.toList)
    (h : checkNoActivePlan rows (bucketString db label) = .ok ()) :
    (∀ r ∈ rows, inBucket db label r = true → r.status.terminal = true) ↔
      ∀ r ∈ rows, inBucket db label r = true → r.status ∉ missedStatuses := by
  have hchecked := (check_ok_iff rows db label hdb).mp h
  refine forall_congr' fun r => forall_congr' fun hr => forall_congr' fun hb => ?_
  rw [terminal_iff]
  exact and_iff_right (hchecked r hr hb)

/-! ## Plans that can go on -/

/-- The rows of the bucket from which a step can still be executed. -/
def activeRows (db label : String) (rows : List LivePlanRow) : List LivePlanRow :=
  rows.filter fun r => inBucket db label r && !r.status.terminal

/-- A check that succeeded and has not been followed by its insertion yet. -/
structure PendingCheck where
  composer : ℕ
  targetDatabase : String
  appLabel : String
  deriving DecidableEq, Repr

/-- The rows, and what the composers have found free. -/
structure PlanTable where
  rows : List LivePlanRow
  pending : List PendingCheck

/-- One operation after another: composers check a bucket and insert a plan later, or give up, and
commands and daemons work on the rows. Nothing keeps the composers apart. -/
inductive PlanTableStep (ρ : Type) : PlanTable → PlanTable → Prop
  | check (s : PlanTable) (composer : ℕ) (db label : String) :
      checkNoActivePlan s.rows (bucketString db label) = .ok () →
      PlanTableStep ρ s { s with pending := ⟨composer, db, label⟩ :: s.pending }
  | insert (s : PlanTable) (composer : ℕ) (h : PlanHeader) :
      ⟨composer, h.targetDatabase, h.appLabel⟩ ∈ s.pending →
      PlanTableStep ρ s
        ⟨s.rows ++ [.fresh h], s.pending.erase ⟨composer, h.targetDatabase, h.appLabel⟩⟩
  | giveUp (s : PlanTable) (c : PendingCheck) : c ∈ s.pending →
      PlanTableStep ρ s { s with pending := s.pending.erase c }
  | command (s : PlanTable) (env : Env ρ) (plan : LivePlan) (cmd : Command) (w : World ρ)
      (before after : List LivePlanRow) : s.rows = before ++ w.row :: after →
      PlanTableStep ρ s { s with rows := before ++ (cmd.exec env plan w).2.row :: after }
  | daemon (s : PlanTable) (env : Env ρ) (plan : LivePlan) (c : DaemonCandidate) (pid : Int)
      (host : String) (w : World ρ) (before after : List LivePlanRow) :
      s.rows = before ++ w.row :: after →
      PlanTableStep ρ s
        { s with rows := before ++ (driveUnderLock env plan c pid host w).2.row :: after }

/-- What the check of a bucket takes for granted: no row of it in a status that the query does not
name, and no composer between its own check of it and the insertion. -/
structure Exclusive (s : PlanTable) (db label : String) : Prop where
  colon : ':' ∉ db.toList
  rows : ∀ r ∈ s.rows, inBucket db label r = true → r.status ∉ missedStatuses
  pending : ∀ c ∈ s.pending, (c.targetDatabase, c.appLabel) ≠ (db, label)

/-- A step that is no check, or one that is exclusive. -/
def Guarded (ρ : Type) (s s' : PlanTable) : Prop :=
  PlanTableStep ρ s s' ∧
    ∀ c, s'.pending = c :: s.pending → Exclusive s c.targetDatabase c.appLabel

/-! ## Runs -/

/-- A row that stays in its bucket, and at its end if it has come to one. -/
structure NotRevived (r r' : LivePlanRow) : Prop where
  targetDatabase : r'.targetDatabase = r.targetDatabase
  appLabel : r'.appLabel = r.appLabel
  terminal : r.status.terminal = true → r'.status.terminal = true

theorem notRevived_exec (env : Env ρ) (plan : LivePlan) (cmd : Command) (w : World ρ) :
    NotRevived w.row (cmd.exec env plan w).2.row := by
  have howner := sameOwner_exec env plan cmd w
  refine ⟨howner.targetDatabase, howner.appLabel, fun hterminal => ?_⟩
  obtain ⟨e, he⟩ := terminal_refused cmd w.row.status hterminal
  rw [exec_refused env plan cmd w e he]
  exact hterminal

theorem sameBucket_updates (db label : String) :
    KeptByUpdates fun r => r.targetDatabase = db ∧ r.appLabel = label where
  progress _ _ _ h := h
  stepIndex _ _ _ h := h
  completedAt _ _ h := h
  status _ _ h := h
  failure _ _ _ h := h

theorem notRevived_driveUnderLock (env : Env ρ) (plan : LivePlan) (c : DaemonCandidate) (pid : Int)
    (host : String) (w : World ρ) :
    NotRevived w.row (driveUnderLock env plan c pid host w).2.row := by
  obtain ⟨hdb, hlabel⟩ := (keeps_driveUnderLock env plan c (sameBucket_updates w.row.targetDatabase
    w.row.appLabel) (fun _ _ _ _ h => h) (fun _ h => h) pid host).keeps w ⟨rfl, rfl⟩
  refine ⟨hdb, hlabel, fun hterminal => ?_⟩
  have hno : claimMatches c w.row = false := by
    have hrun : autoResumable w.row = false := by
      unfold autoResumable
      cases hs : w.row.status <;> rw [hs] at hterminal <;> first | rfl | cases hterminal
    rw [claimMatches, hrun, Bool.and_false]
  unfold driveUnderLock
  rw [hno]
  have hkeeps : Keeps (fun r => r.status.terminal = true) (act env DaemonError.database id) :=
    keeps_act env DaemonError.database id fun _ h => h
  exact hkeeps.keeps w hterminal

theorem inBucket_notRevived (db label : String) (r r' : LivePlanRow) (h : NotRevived r r') :
    inBucket db label r' = inBucket db label r := by
  rw [inBucket, inBucket, h.targetDatabase, h.appLabel]

/-- No operation on a row makes a plan active. -/
theorem active_replace (db label : String) (before after : List LivePlanRow) (r r' : LivePlanRow)
    (h : NotRevived r r') : (activeRows db label (before ++ r' :: after)).length ≤
      (activeRows db label (before ++ r :: after)).length := by
  have hrow : (activeRows db label [r']).length ≤ (activeRows db label [r]).length := by
    unfold activeRows
    rw [List.filter_singleton, List.filter_singleton, inBucket_notRevived db label r r' h]
    cases hr : r.status.terminal with
    | true => simp [h.terminal hr]
    | false =>
      cases inBucket db label r <;> cases r'.status.terminal <;> simp
  unfold activeRows at hrow ⊢
  rw [List.append_cons, List.append_cons before r]
  simp only [List.filter_append, List.length_append]
  omega

/-- At most one plan of each bucket, and none of those that were found free, each by one. -/
structure PlanTableInv (s : PlanTable) : Prop where
  one : ∀ db label, (activeRows db label s.rows).length ≤ 1
  free : ∀ c ∈ s.pending, activeRows c.targetDatabase c.appLabel s.rows = []
  apart : s.pending.Pairwise fun c d =>
    (c.targetDatabase, c.appLabel) ≠ (d.targetDatabase, d.appLabel)

theorem planTableInv_replace (s : PlanTable) (h : PlanTableInv s) (before after : List LivePlanRow)
    (r r' : LivePlanRow) (hrows : s.rows = before ++ r :: after) (hr : NotRevived r r') :
    PlanTableInv { s with rows := before ++ r' :: after } := by
  have hle : ∀ db label, (activeRows db label (before ++ r' :: after)).length ≤
      (activeRows db label s.rows).length := by
    intro db label
    rw [hrows]
    exact active_replace db label before after r r' hr
  refine ⟨fun db label => (hle db label).trans (h.one db label), fun c hc => ?_, h.apart⟩
  have hzero := hle c.targetDatabase c.appLabel
  rw [h.free c hc] at hzero
  exact List.eq_nil_of_length_eq_zero (Nat.le_zero.mp hzero)

theorem activeRows_eq_nil_iff (db label : String) (rows : List LivePlanRow) :
    activeRows db label rows = [] ↔
      ∀ r ∈ rows, inBucket db label r = true → r.status.terminal = true := by
  unfold activeRows
  rw [List.filter_eq_nil_iff]
  refine forall_congr' fun r => forall_congr' fun _ => ?_
  cases inBucket db label r <;> simp

theorem inBucket_fresh (db label : String) (header : PlanHeader) :
    inBucket db label (.fresh header) = true ↔
      (header.targetDatabase, header.appLabel) = (db, label) := by
  rw [inBucket, Bool.and_eq_true, decide_eq_true_eq, decide_eq_true_eq, Prod.mk.injEq]
  exact Iff.rfl

/-- An insertion adds a plan to its own bucket only. -/
theorem activeRows_insert (db label : String) (rows : List LivePlanRow) (header : PlanHeader)
    (h : (header.targetDatabase, header.appLabel) ≠ (db, label)) :
    activeRows db label (rows ++ [.fresh header]) = activeRows db label rows := by
  have hother : inBucket db label (.fresh header) = false :=
    Bool.eq_false_iff.mpr fun hb => h ((inBucket_fresh db label header).mp hb)
  rw [activeRows, List.filter_append, List.filter_singleton, hother]
  exact List.append_nil _

/-- Of checks of different buckets, those that stay after one is removed are of others. -/
theorem bucket_ne_of_erase (pending : List PendingCheck) (c d : PendingCheck)
    (h : pending.Pairwise fun c d =>
      (c.targetDatabase, c.appLabel) ≠ (d.targetDatabase, d.appLabel))
    (hc : c ∈ pending) (hd : d ∈ pending.erase c) :
    (c.targetDatabase, c.appLabel) ≠ (d.targetDatabase, d.appLabel) := by
  have hperm : pending.Perm (c :: pending.erase c) := List.perm_cons_erase hc
  have hpair := (hperm.pairwise_iff fun h => Ne.symm h).mp h
  exact List.rel_of_pairwise_cons hpair hd

/-- **One step.** -/
theorem planTableInv_step (s s' : PlanTable) (hstep : Guarded ρ s s') (h : PlanTableInv s) :
    PlanTableInv s' := by
  obtain ⟨hstep, hguard⟩ := hstep
  cases hstep with
  | check composer db label hok =>
    have hexclusive := hguard _ rfl
    refine ⟨h.one, fun c hc => ?_, List.pairwise_cons.mpr ⟨fun c hc => ?_, h.apart⟩⟩
    · rcases List.mem_cons.mp hc with rfl | hc
      · exact (activeRows_eq_nil_iff _ _ _).mpr
          ((check_terminal_iff s.rows db label hexclusive.colon hok).mpr hexclusive.rows)
      · exact h.free c hc
    · exact (hexclusive.pending c hc).symm
  | insert composer header hc =>
    have hfree := h.free _ hc
    refine ⟨fun db label => ?_, fun c hmem => ?_, h.apart.erase _⟩
    · by_cases hb : (header.targetDatabase, header.appLabel) = (db, label)
      · obtain ⟨rfl, rfl⟩ := Prod.mk.inj hb
        show (activeRows _ _ (s.rows ++ [.fresh header])).length ≤ 1
        rw [activeRows, List.filter_append, ← activeRows, hfree]
        exact List.length_filter_le _ _
      · exact (activeRows_insert db label s.rows header hb).symm ▸ h.one db label
    · have hother := bucket_ne_of_erase s.pending _ c h.apart hc hmem
      exact (activeRows_insert _ _ s.rows header hother).trans
        (h.free c (List.mem_of_mem_erase hmem))
  | giveUp c hc =>
    exact ⟨h.one, fun d hd => h.free d (List.mem_of_mem_erase hd), h.apart.erase _⟩
  | command env plan cmd w before after hrows =>
    exact planTableInv_replace s h before after _ _ hrows (notRevived_exec env plan cmd w)
  | daemon env plan c pid host w before after hrows =>
    exact planTableInv_replace s h before after _ _ hrows
      (notRevived_driveUnderLock env plan c pid host w)

/-- **One active plan per bucket.** The string of a bucket is read back as the bucket exactly when
the database has no colon. A check that succeeds then means that no plan of the bucket can go on
exactly when none is in a status that the query leaves out. In every run whose checks meet none of
those, and no composer on its way to an insertion, a bucket has at most one active plan. -/
theorem one_active_plan (ρ : Type) (s : PlanTable) (db label : String)
    (h : Relation.ReflTransGen (Guarded ρ) ⟨[], []⟩ s) :
    (splitOnce ':' (bucketString db label) = some (db, label) ↔ ':' ∉ db.toList) ∧
    (∀ rows, ':' ∉ db.toList → checkNoActivePlan rows (bucketString db label) = .ok () →
      ((∀ r ∈ rows, inBucket db label r = true → r.status.terminal = true) ↔
        ∀ r ∈ rows, inBucket db label r = true → r.status ∉ missedStatuses)) ∧
    (activeRows db label s.rows).length ≤ 1 := by
  have hinv : PlanTableInv s := by
    induction h with
    | refl => exact ⟨fun _ _ => Nat.zero_le 1, fun _ hc => absurd hc List.not_mem_nil, .nil⟩
    | tail _ hstep ih => exact planTableInv_step _ _ hstep ih
  exact ⟨splitOnce_bucketString db label, fun rows => check_terminal_iff rows db label,
    hinv.one db label⟩

/-- A plan with a validation gate. -/
def validated : LivePlan :=
  planOf [⟨.validateBackfill, 0, .validateBackfill "SELECT 1 FROM users WHERE email IS NULL"⟩]

def secondHeader : PlanHeader := ⟨2, "add_phone", "main", "shop"⟩

def billingHeader : PlanHeader := ⟨3, "add_total", "main", "billing"⟩

/-- The row after `live run` has come to the gate. -/
def validatingRow : LivePlanRow :=
  ((Command.run false none).exec quietEnv validated
    (World.start validated fun _ => [])).2.row

/-- Two buckets are checked before either gets its plan. -/
theorem one_active_plan_first :
    (activeRows "main" "shop" [.fresh validated.header, .fresh billingHeader]).length ≤ 1 := by
  have hcheck (s : PlanTable) (composer : ℕ) (label : String) (hrows : s.rows = [])
      (hlabel : ∀ c ∈ s.pending, c.appLabel ≠ label)
      (hok : checkNoActivePlan [] (bucketString "main" label) = .ok ()) :
      Guarded Nat s { s with pending := ⟨composer, "main", label⟩ :: s.pending } := by
    refine ⟨.check s composer "main" label (hrows ▸ hok), fun c hc => ?_⟩
    obtain rfl := (List.cons.inj hc).1
    refine ⟨by simp, fun r hr => ?_, fun d hd heq => hlabel d hd (Prod.mk.inj heq).2⟩
    rw [hrows] at hr
    cases hr
  have hinsert (s : PlanTable) (composer : ℕ) (header : PlanHeader)
      (h : ⟨composer, header.targetDatabase, header.appLabel⟩ ∈ s.pending) :
      Guarded Nat s
        ⟨s.rows ++ [.fresh header],
          s.pending.erase ⟨composer, header.targetDatabase, header.appLabel⟩⟩ := by
    refine ⟨.insert s composer header h, fun c hc => ?_⟩
    have hlength := congrArg List.length hc
    rw [List.length_erase_of_mem h] at hlength
    simp only [List.length_cons] at hlength
    omega
  refine (one_active_plan Nat ⟨[.fresh validated.header, .fresh billingHeader], []⟩ "main" "shop"
    (.tail (.tail (.tail (.single
      (hcheck ⟨[], []⟩ 1 "shop" rfl (by simp) (by decide +kernel)))
      (hcheck ⟨[], [⟨1, "main", "shop"⟩]⟩ 2 "billing" rfl (by simp) (by decide +kernel)))
      (hinsert ⟨[], [⟨2, "main", "billing"⟩, ⟨1, "main", "shop"⟩]⟩ 1 validated.header
        (by decide +kernel)))
      (hinsert ⟨[.fresh validated.header], [⟨2, "main", "billing"⟩]⟩ 2 billingHeader
        (by decide +kernel)))).2.2

/-- **Two plans.** The first plan waits at its gate, the check succeeds all the same and a second
plan is inserted. -/
theorem two_active_plans : validated.validate = .ok () ∧
    checkNoActivePlan [validatingRow] (bucketString "main" "shop") = .ok () ∧
    Relation.ReflTransGen (PlanTableStep Nat) ⟨[], []⟩
      ⟨[validatingRow, .fresh secondHeader], []⟩ ∧
    (activeRows "main" "shop" [validatingRow, .fresh secondHeader]).length = 2 := by
  have hcheck : checkNoActivePlan [validatingRow] (bucketString "main" "shop") = .ok () := by
    decide +kernel
  refine ⟨by decide +kernel, hcheck, ?_, by decide +kernel⟩
  have hfirst : PlanTableStep Nat ⟨[], []⟩ ⟨[], [⟨1, "main", "shop"⟩]⟩ :=
    .check ⟨[], []⟩ 1 "main" "shop" (by decide +kernel)
  have hinsert : PlanTableStep Nat ⟨[], [⟨1, "main", "shop"⟩]⟩ ⟨[.fresh validated.header], []⟩ :=
    .insert ⟨[], [⟨1, "main", "shop"⟩]⟩ 1 validated.header (by decide +kernel)
  have hrun : PlanTableStep Nat ⟨[.fresh validated.header], []⟩ ⟨[validatingRow], []⟩ :=
    .command ⟨[.fresh validated.header], []⟩ quietEnv validated (.run false none)
      (World.start validated fun _ => []) [] [] rfl
  exact .tail (.tail (.tail (.tail (.single hfirst) hinsert) hrun)
    (.check ⟨[validatingRow], []⟩ 1 "main" "shop" hcheck))
    (.insert ⟨[validatingRow], [⟨1, "main", "shop"⟩]⟩ 1 secondHeader (by decide +kernel))

/-- Two composers that check before either inserts. -/
theorem two_active_plans_raced : Relation.ReflTransGen (PlanTableStep Nat) ⟨[], []⟩
      ⟨[.fresh validated.header, .fresh secondHeader], []⟩ ∧
    (activeRows "main" "shop" [.fresh validated.header, .fresh secondHeader]).length = 2 := by
  refine ⟨.tail (.tail (.tail (.single (.check ⟨[], []⟩ 1 "main" "shop" (by decide +kernel)))
    (.check ⟨[], [⟨1, "main", "shop"⟩]⟩ 2 "main" "shop" (by decide +kernel)))
    (.insert ⟨[], [⟨2, "main", "shop"⟩, ⟨1, "main", "shop"⟩]⟩ 1 validated.header
      (by decide +kernel)))
    (.insert ⟨[.fresh validated.header], [⟨2, "main", "shop"⟩]⟩ 2 secondHeader (by decide +kernel)),
    by decide +kernel⟩

end Djogi.Live

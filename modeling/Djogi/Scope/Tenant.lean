import Djogi.Scope.Truth

/-!
# The tenant of a query

The setting `app.tenant_id` follows the savepoints of the server, its tracker the snapshots of the
context.

* `Tracked`: what the tracker says of the setting;
* `Safely`: what a step of a run keeps, and what it lets be observed;
* `run_safely`: every closure that is not dropped does;
* `reads_under_own_tenant`: no statement reads a tenant-keyed table under another tenant, as long
  as every terminal that reads one through a relation has a tenant-keyed root, or finds the setting
  as its auth wants it.
-/

namespace Djogi.Scope

open Savepoints

variable {W C : Type}

/-! ## What must hold -/

def AuthState.tenant (a : AuthState) : Option String := a.auth.bind (·.tenantId)

/-- The setting is the tenant of the attached auth; without one, no tenant is left over. -/
def Aligned (a : AuthState) (setting : Option String) : Prop :=
  match a.tenant with
  | some t => setting = some t
  | none => setting = none ∨ setting = some ""

def readsKeyed (models : List Model) : Prop := ∃ m ∈ models, m.tenantKey.isSome = true

/-- The tracker does not lie, and a statement that reads a tenant-keyed table is executed under
the tenant of the auth. -/
structure SafeMoment (m : Moment) : Prop where
  tracker : ∀ t, m.trackers.appliedTenantId = some t → m.setting = some t
  reads : ∀ models, m.observed = .reads models → readsKeyed models → Aligned m.trackers m.setting

/-- The models that a terminal reads besides the queried one. -/
def related (terminal : Terminal) (q : Query) : List Model :=
  if q.isEmpty then []
  else match terminal with
    | .fetchAll | .first | .walk _ => []
    | .fetchAllPrefetched => q.prefetches.map (·.1)
    | .fetchAllJoined => q.joined ++ q.prefetches.map (·.1)

/-- A terminal that reads a tenant-keyed table through a relation has a tenant-keyed root, or the
setting is already as it should be. -/
def Covered (m : Moment) : Prop :=
  match m.observed with
  | .calls terminal q => readsKeyed (related terminal q) →
    q.root.tenantKey.isSome = true ∨ Aligned m.trackers m.setting
  | .pause | .reads _ => True

instance (a : AuthState) (setting : Option String) : Decidable (Aligned a setting) :=
  match h : a.tenant with
  | some t => decidable_of_iff (setting = some t) (by simp [Aligned, h])
  | none => decidable_of_iff (setting = none ∨ setting = some "") (by simp [Aligned, h])

instance (models : List Model) : Decidable (readsKeyed models) :=
  inferInstanceAs (Decidable (∃ m ∈ models, m.tenantKey.isSome = true))

instance (m : Moment) : Decidable (Covered m) :=
  match m with
  | ⟨a, setting, .calls terminal q⟩ => inferInstanceAs (Decidable
      (readsKeyed (related terminal q) → q.root.tenantKey.isSome = true ∨ Aligned a setting))
  | ⟨_, _, .pause⟩ | ⟨_, _, .reads _⟩ => isTrue trivial

/-! ## The tracker -/

structure Tracked (a : AuthState) (setting : Option String) : Prop where
  applied : ∀ t, a.appliedTenantId = some t → setting = some t
  blank : a.appliedTenantId = none → setting = none ∨ setting = some ""
  unattached : a.auth = none → a.appliedTenantId = none

def World.Tracked (s : World W C) : Prop := Scope.Tracked s.ctx.authState s.tx.setting

def World.Aligned (s : World W C) : Prop := Scope.Aligned s.ctx.authState s.tx.setting

/-- A step keeps the tracker, and under `K` all that is observed in it is safe. -/
structure Steps (K : Prop) (s s' : World W C) : Prop where
  tracked : s'.Tracked
  seen : ∃ new, s'.seen = s.seen ++ new ∧ (K → ∀ m ∈ new, SafeMoment m)

section Steps

variable {K : Prop} {s s' s'' : World W C}

theorem Steps.refl (h : s.Tracked) : Steps K s s := ⟨h, [], by simp, by simp⟩

theorem Steps.trans (h : Steps K s s') (h' : Steps K s' s'') : Steps K s s'' := by
  obtain ⟨new, hs, hsafe⟩ := h.seen
  obtain ⟨new', hs', hsafe'⟩ := h'.seen
  refine ⟨h'.tracked, new ++ new', by rw [hs', hs, List.append_assoc], fun hk m hm => ?_⟩
  rcases List.mem_append.mp hm with hm | hm
  · exact hsafe hk m hm
  · exact hsafe' hk m hm

/-- The step itself is not observed. -/
theorem Steps.of_seen (h : s'.Tracked) (hs : s'.seen = s.seen) : Steps K s s' :=
  ⟨h, [], by simp [hs], by simp⟩

theorem observe_steps (h : s.Tracked) {o : Observed}
    (ho : K → ∀ models, o = .reads models → readsKeyed models → s.Aligned) :
    Steps K s (s.observe o) :=
  ⟨h, [⟨s.ctx.authState, s.tx.setting, o⟩], rfl, fun hk m hm => by
    obtain rfl := List.mem_singleton.mp hm
    exact ⟨h.applied, ho hk⟩⟩

/-! ## Statements -/

/-- A statement that leaves the setting alone, on models it may read. -/
theorem sendInner_steps (h : s.Tracked) (fails : Bool)
    (f : Tx W (Option String) → Tx W (Option String)) (models : List Model)
    (hf : ∀ t, (f t).setting = t.setting) (hr : K → readsKeyed models → s.Aligned) :
    Steps K s (s.sendInner fails f models).2 ∧ (s.sendInner fails f models).2.ctx = s.ctx ∧
      (s.sendInner fails f models).2.tx.setting = s.tx.setting := by
  have hobs : Steps K s (s.observe (.reads models)) :=
    observe_steps h fun hK models' hm hk =>
      hr hK (by simp only [Observed.reads.injEq] at hm; rwa [hm])
  cases ha : s.tx.aborted with
  | true =>
    rw [sendInner_of_aborted fails f models s ha]
    exact ⟨Steps.refl h, rfl, rfl⟩
  | false =>
    cases fails with
    | true =>
      rw [sendInner_fails f models s ha]
      exact ⟨hobs.trans (Steps.of_seen h rfl), rfl, rfl⟩
    | false =>
      rw [sendInner_succeeds f models s ha]
      refine ⟨hobs.trans (Steps.of_seen ?_ rfl), rfl, hf s.tx⟩
      show Tracked s.ctx.authState (f s.tx).setting
      rw [hf s.tx]
      exact h

theorem send_steps (h : s.Tracked) (fails : Bool)
    (f : Tx W (Option String) → Tx W (Option String)) (models : List Model)
    (hf : ∀ t, (f t).setting = t.setting) (hr : K → readsKeyed models → s.Aligned) :
    Steps K s (s.send fails f models).2 ∧ (s.send fails f models).2.ctx = s.ctx ∧
      (s.send fails f models).2.tx.setting = s.tx.setting := by
  unfold World.send
  split
  · exact ⟨Steps.refl h, rfl, rfl⟩
  · exact sendInner_steps h fails f models hf hr

/-- `set_config`, and the trackers once it is done. -/
theorem setConfig_steps (h : s.Tracked) (fails : Bool) (value : String)
    (after : AuthState) (hauth : after.auth = s.ctx.authState.auth)
    (hafter : Tracked after (some value)) (update : World W C → World W C)
    (hu : ∀ s' : World W C, s'.ctx = s.ctx → (update s').ctx.authState = after ∧
      (update s').tx = s'.tx ∧ (update s').seen = s'.seen) :
    let r := andThen (s.send fails (·.set (some value)) []) fun s' => (true, update s')
    Steps K s r.2 ∧ r.2.ctx.authState.auth = s.ctx.authState.auth ∧
      (r.1 = true → r.2.tx.setting = some value) := by
  have hobs : Steps K s (s.observe (.reads [])) :=
    observe_steps h fun _ models hm hk => by
      simp only [Observed.reads.injEq] at hm
      obtain ⟨m, hmem, -⟩ := hk
      simp [← hm] at hmem
  cases hp : s.ctx.transactionPoisoned with
  | true =>
    rw [send_of_poisoned _ _ _ s hp]
    exact ⟨Steps.refl h, rfl, by simp [andThen]⟩
  | false =>
    rw [send_of_healthy _ _ _ s hp]
    cases ha : s.tx.aborted with
    | true =>
      rw [sendInner_of_aborted _ _ _ s ha]
      exact ⟨Steps.refl h, rfl, by simp [andThen]⟩
    | false =>
      cases fails with
      | true =>
        rw [sendInner_fails _ _ s ha]
        exact ⟨hobs.trans (Steps.of_seen h rfl), rfl, by simp [andThen]⟩
      | false =>
        rw [sendInner_succeeds _ _ s ha]
        obtain ⟨h₁, h₂, h₃⟩ := hu
          { s.observe (.reads []) with tx := s.tx.set (some value) } rfl
        refine ⟨hobs.trans (Steps.of_seen ?_ h₃), ?_, fun _ => ?_⟩
        · show Tracked (update _).ctx.authState (update _).tx.setting
          rw [h₁, h₂]
          exact hafter
        · show (update _).ctx.authState.auth = _
          rw [h₁, hauth]
        · show (update _).tx.setting = _
          rw [h₂]
          rfl

/-! ## The alignment -/

theorem setTenant_steps (h : s.Tracked) (tid : String) (fails : Bool)
    (ha : s.ctx.authState.auth ≠ none) :
    Steps K s (setTenant tid fails s).2 ∧
      (setTenant tid fails s).2.ctx.authState.auth = s.ctx.authState.auth ∧
      ((setTenant tid fails s).1 = true →
        (setTenant tid fails s).2.tx.setting = some tid) := by
  refine setConfig_steps h fails tid
    { s.ctx.authState with tenantSet := true, appliedTenantId := some tid } rfl
    ⟨fun t ht => ?_, by simp, fun hn => absurd hn ha⟩ _ fun s' hs => ⟨?_, rfl, rfl⟩
  · simpa using ht
  · rw [hs]

theorem clearTenant_steps (h : s.Tracked) (fails : Bool) :
    Steps K s (clearTenant fails s).2 ∧
      (clearTenant fails s).2.ctx.authState.auth = s.ctx.authState.auth ∧
      ((clearTenant fails s).1 = true → (clearTenant fails s).2.tx.setting = some "") := by
  refine setConfig_steps h fails ""
    { s.ctx.authState with tenantSet := false, appliedTenantId := none } rfl
    ⟨by simp, fun _ => Or.inr rfl, fun _ => rfl⟩ _ fun s' hs => ⟨?_, rfl, rfl⟩
  rw [hs]

/-- After the alignment a tenant-keyed model may be read. -/
theorem autoSetTenant_steps (h : s.Tracked) (m : Model) (fails : Bool) :
    Steps K s (autoSetTenant m fails s).2 ∧
      ((autoSetTenant m fails s).1 = true → m.tenantKey.isSome = true →
        (autoSetTenant m fails s).2.Aligned) ∧
      (m.tenantKey = none → (autoSetTenant m fails s).2 = s) := by
  cases hk : m.tenantKey with
  | none =>
    simp only [autoSetTenant, hk]
    exact ⟨Steps.refl h, by simp, by simp⟩
  | some key =>
    cases hauth : s.ctx.authState.auth with
    | none =>
      simp only [autoSetTenant, hk, hauth]
      refine ⟨Steps.refl h, fun _ _ => ?_, by simp⟩
      show Scope.Aligned s.ctx.authState s.tx.setting
      simp only [Scope.Aligned, AuthState.tenant, hauth, Option.bind_none]
      exact h.blank (h.unattached hauth)
    | some auth =>
      cases ht : auth.tenantId with
      | some tid =>
        simp only [autoSetTenant, hk, hauth, ht, ensureTenantSet]
        split
        · rename_i happ
          refine ⟨Steps.refl h, fun _ _ => ?_, by simp⟩
          show Scope.Aligned s.ctx.authState s.tx.setting
          simp only [Scope.Aligned, AuthState.tenant, hauth, Option.bind_some, ht]
          exact h.applied tid happ
        · obtain ⟨hsafe, ha, hset⟩ := setTenant_steps h tid fails (by simp [hauth])
          refine ⟨hsafe, fun hok _ => ?_, by simp⟩
          simp only [World.Aligned, Scope.Aligned, AuthState.tenant, ha, hauth, Option.bind_some,
            ht]
          exact hset hok
      | none =>
        simp only [autoSetTenant, hk, hauth, ht]
        split
        · obtain ⟨hsafe, ha, hset⟩ := clearTenant_steps h fails
          refine ⟨hsafe, fun hok _ => ?_, by simp⟩
          simp only [World.Aligned, Scope.Aligned, AuthState.tenant, ha, hauth, Option.bind_some,
            ht]
          exact Or.inr (hset hok)
        · rename_i happ
          refine ⟨Steps.refl h, fun _ _ => ?_, by simp⟩
          show Scope.Aligned s.ctx.authState s.tx.setting
          simp only [Scope.Aligned, AuthState.tenant, hauth, Option.bind_some, ht]
          exact h.blank (by simpa using happ)

/-! ## Terminals -/

/-- Besides the queried model, a terminal may read these. -/
def MayRead (root : Model) (models : List Model) (s : World W C) : Prop :=
  root.tenantKey.isSome = true ∨ readsKeyed models → s.Aligned

theorem readsKeyed_cons (root : Model) (models : List Model) :
    readsKeyed (root :: models) ↔ root.tenantKey.isSome = true ∨ readsKeyed models := by
  simp [readsKeyed]

/-- The main query. What may be read before the alignment may be read after it. -/
theorem select_steps (h : s.Tracked) (q : Query) (models others : List Model)
    (ho : K → readsKeyed others → q.root.tenantKey.isSome = true ∨ s.Aligned)
    (hm : ∀ m ∈ models, m = q.root ∨ m ∈ others) :
    Steps K s (select q models s).2 ∧
      (K → (select q models s).1 = true → MayRead q.root others (select q models s).2) := by
  obtain ⟨hsafe, halign, hsame⟩ := autoSetTenant_steps h q.root q.setFails
  unfold select andThen
  cases hok : (autoSetTenant q.root q.setFails s).1 with
  | false => exact ⟨by simpa using hsafe, by simp [hok]⟩
  | true =>
    simp only [if_true]
    have hmay : K → MayRead q.root others (autoSetTenant q.root q.setFails s).2 := by
      intro hK hk
      cases hroot : q.root.tenantKey with
      | some key => exact halign hok (by simp [hroot])
      | none =>
        rw [hsame hroot]
        have hothers : readsKeyed others := by simpa [hroot] using hk
        simpa [hroot] using ho hK hothers
    generalize (autoSetTenant q.root q.setFails s).2 = a at hsafe hmay
    cases q.builds with
    | false => exact ⟨by simpa using hsafe, by simp⟩
    | true =>
      have hread : K → readsKeyed models → a.Aligned := by
        rintro hK ⟨m, hmem, hk⟩
        apply hmay hK
        rcases hm m hmem with rfl | hmem
        · exact Or.inl hk
        · exact Or.inr ⟨m, hmem, hk⟩
      obtain ⟨hs, hctx, hset⟩ := send_steps hsafe.tracked q.answer.fails id models
        (fun _ => rfl) hread
      have hkeep : K → MayRead q.root others (a.send q.answer.fails id models).2 := by
        intro hK hk
        have := hmay hK hk
        simp only [World.Aligned] at this ⊢
        rwa [hctx, hset]
      simp only [if_true]
      split
      · exact ⟨hsafe.trans hs, fun hK _ => hkeep hK⟩
      · exact ⟨hsafe.trans hs, fun hK _ => hkeep hK⟩

theorem runLoaders_steps (root : Model) (loaders : List (Model × Answer)) {s : World W C}
    (h : s.Tracked) (hm : K → MayRead root (loaders.map (·.1)) s) :
    Steps K s (runLoaders root loaders s).2 := by
  induction loaders generalizing s with
  | nil => exact Steps.refl h
  | cons l rest ih =>
    obtain ⟨target, answer⟩ := l
    have hread : K → readsKeyed [root, target] → s.Aligned := fun hK hk => hm hK (by
      simp only [readsKeyed_cons, List.map_cons] at hk ⊢
      rcases hk with hk | hk | hk
      · exact Or.inl hk
      · exact Or.inr (Or.inl hk)
      · simp [readsKeyed] at hk)
    obtain ⟨hs, hctx, hset⟩ := sendInner_steps h answer.fails id [root, target] (fun _ => rfl)
      hread
    simp only [runLoaders, andThen]
    split
    · split
      · refine hs.trans (ih hs.tracked fun hK hk => ?_)
        have hold : s.Aligned := hm hK (by
          simp only [readsKeyed_cons, List.map_cons]
          exact hk.imp_right Or.inr)
        simp only [World.Aligned] at hold ⊢
        rwa [hctx, hset]
      · exact hs
    · exact hs

theorem applyPrefetches_steps (q : Query) (h : s.Tracked)
    (hm : K → MayRead q.root (q.prefetches.map (·.1)) s) : Steps K s (applyPrefetches q s).2 := by
  unfold applyPrefetches
  split
  · exact Steps.refl h
  · exact runLoaders_steps q.root q.prefetches h hm

theorem andThen_steps {r : Bool × World W C} {f : World W C → Bool × World W C}
    (h : Steps K s r.2) (hf : r.1 = true → Steps K r.2 (f r.2).2) : Steps K s (andThen r f).2 := by
  unfold andThen
  split
  · exact h.trans (hf ‹_›)
  · exact h

/-- A terminal that is covered, from the world it is called in. -/
theorem terminal_steps (h : s.Tracked) (terminal : Terminal) (q : Query)
    (hc : K → readsKeyed (related terminal q) → q.root.tenantKey.isSome = true ∨ s.Aligned) :
    Steps K s (terminal.run q s).2 := by
  have hroot : ∀ m ∈ [q.root], m = q.root ∨ m ∈ ([] : List Model) := by simp
  cases terminal with
  | fetchAll | first =>
    simp only [Terminal.run, fetchAll, first]
    split
    · exact Steps.refl h
    · exact (select_steps h q _ [] (by simp [readsKeyed]) hroot).1
  | fetchAllPrefetched =>
    simp only [Terminal.run, fetchAllPrefetched]
    split
    · exact Steps.refl h
    · rename_i he
      obtain ⟨hs, hmay⟩ := select_steps h q [q.root] (q.prefetches.map (·.1))
        (by simpa [related, he] using hc) fun m hm => Or.inl (by simpa using hm)
      exact andThen_steps hs fun hok => applyPrefetches_steps q hs.tracked fun hK => hmay hK hok
  | fetchAllJoined =>
    simp only [Terminal.run, fetchAllJoined]
    split
    · exact Steps.refl h
    · rename_i he
      obtain ⟨hs, hmay⟩ := select_steps h q (q.root :: q.joined)
        (q.joined ++ q.prefetches.map (·.1)) (by simpa [related, he] using hc)
        fun m hm => by
          rcases List.mem_cons.mp hm with rfl | hm
          · exact Or.inl rfl
          · exact Or.inr (List.mem_append_left _ hm)
      refine andThen_steps hs fun hok => applyPrefetches_steps q hs.tracked fun hK hk => ?_
      refine hmay hK hok (hk.imp_right ?_)
      rintro ⟨m, hm, hkey⟩
      exact ⟨m, List.mem_append_right _ hm, hkey⟩
  | walk edges =>
    simp only [Terminal.run, walk]
    split
    · exact Steps.refl h
    · exact (select_steps h q _ [] (by simp [readsKeyed]) hroot).1

end Steps

/-! ## Closures -/

/-- A part of a run keeps the tracker; and if it starts no terminal that is not covered, all that
is observed in it is safe. -/
structure Safely (s s' : World W C) : Prop where
  tracked : s'.Tracked
  seen : ∃ new, s'.seen = s.seen ++ new ∧ ((∀ m ∈ new, Covered m) → ∀ m ∈ new, SafeMoment m)

theorem Safely.trans {s s' s'' : World W C} (h : Safely s s') (h' : Safely s' s'') :
    Safely s s'' := by
  obtain ⟨new, hs, hsafe⟩ := h.seen
  obtain ⟨new', hs', hsafe'⟩ := h'.seen
  refine ⟨h'.tracked, new ++ new', by rw [hs', hs, List.append_assoc], fun hc m hm => ?_⟩
  rcases List.mem_append.mp hm with hm | hm
  · exact hsafe (fun m hm => hc m (List.mem_append_left _ hm)) m hm
  · exact hsafe' (fun m hm => hc m (List.mem_append_right _ hm)) m hm

theorem Steps.safely {s s' : World W C} (h : Steps True s s') : Safely s s' := by
  obtain ⟨new, hs, hsafe⟩ := h.seen
  exact ⟨h.tracked, new, hs, fun _ => hsafe trivial⟩

theorem unseen_safely {s s' : World W C} (h : s'.Tracked) (hs : s'.seen = s.seen) :
    Safely s s' := (Steps.of_seen h hs).safely

/-- A change that is not observed, and then a pause. -/
theorem pause_safely {s w : World W C} (h : w.Tracked) (hs : w.seen = s.seen) :
    Safely s (w.observe .pause) :=
  ((Steps.of_seen h hs).trans (observe_steps h (by simp))).safely

/-- A terminal as a step of a closure. -/
theorem fetch_safely {s : World W C} (h : s.Tracked) (terminal : Terminal) (q : Query) :
    Safely s (terminal.run q (s.observe (.calls terminal q))).2 := by
  have hcall : Steps (Covered ⟨s.ctx.authState, s.tx.setting, .calls terminal q⟩) s
      (s.observe (.calls terminal q)) := observe_steps h (by simp)
  have hrun := terminal_steps hcall.tracked terminal q
    (K := Covered ⟨s.ctx.authState, s.tx.setting, .calls terminal q⟩)
    fun hK hk => hK hk
  obtain ⟨new, hs, hsafe⟩ := hrun.seen
  obtain ⟨new', hs', hsafe'⟩ := (hcall.trans hrun).seen
  have hmem : (⟨s.ctx.authState, s.tx.setting, .calls terminal q⟩ : Moment) ∈ new' := by
    have heq : s.seen ++ new' = s.seen ++ (⟨s.ctx.authState, s.tx.setting, .calls terminal q⟩ ::
        new) := by
      rw [← hs', hs]
      simp [World.observe]
    rw [List.append_cancel_left heq]
    exact List.mem_cons_self
  exact ⟨hrun.tracked, new', hs', fun hc => hsafe' (hc _ hmem)⟩

/-- No future in it is dropped. -/
def Closure.undropped : Closure W C → Prop
  | .finish outcome => outcome ≠ .cancelled
  | .execute _ _ rest | .fetch _ _ rest => ∀ b, (rest b).undropped
  | .onCommit _ rest | .setAuth _ rest | .setNoTenantScope rest => rest.undropped
  | .atomic _ inner cut rest => inner.undropped ∧ cut = .never ∧ ∀ o, (rest o).undropped

theorem run_not_cancelled (c : Closure W C) (s : World W C) (h : c.undropped) :
    (run c s).outcome ≠ .cancelled := by
  induction c generalizing s with
  | finish outcome => exact h
  | execute w fails rest ih | fetch terminal query rest ih => exact ih _ _ (h _)
  | onCommit c rest ih | setAuth auth rest ih | setNoTenantScope rest ih => exact ih _ h
  | atomic level inner cut rest ihInner ihRest =>
    cases level <;> exact ihRest _ _ (h.2.2 _)

/-- The end of a nested scope hands the tracker down with the setting, or puts both back. -/
theorem finishNested_safely {s e : World W C} {r : Ran W C} (h : s.Tracked) (hent : Entered s e)
    (hkept : Kept e r.events r.world) (hr : Safely s r.world) (ho : r.outcome ≠ .cancelled) :
    Safely s (finishNested s.ctx.onCommit.length s.ctx.authState (s.ctx.savepointDepth + 1) .never
      r).2 := by
  cases hout : r.outcome with
  | cancelled => exact absurd hout ho
  | ok =>
    simp only [finishNested, hout]
    refine hr.trans (unseen_safely ?_ rfl)
    show Tracked _ (r.world.tx.release _).2.setting
    rw [release_setting]
    exact hr.tracked
  | err | panicked =>
    simp only [finishNested, hout]
    refine hr.trans (unseen_safely ?_ rfl)
    show Tracked s.ctx.authState (runRollbackToRelease _ 2 r.world.tx).setting
    rw [runRollbackToRelease_eq (hent.above hkept) hent.healthy]
    exact h

theorem nested_safely (c : Closure W C) {s : World W C} (h : s.Tracked) (hc : c.undropped)
    (hd : s.ctx.savepointDepth + 1 + c.nesting ≤ u32Max)
    (hrun : ∀ e : World W C, e.Tracked →
      e.ctx.savepointDepth = s.ctx.savepointDepth + 1 → Safely e (run c e).world) :
    Safely s (runNestedSavepointAtomic .never (run c) s).world := by
  have hn : min (s.ctx.savepointDepth + 1) u32Max = s.ctx.savepointDepth + 1 := by omega
  cases ha : s.tx.aborted with
  | true =>
    have hsp : s.tx.savepoint (s.ctx.savepointDepth + 1) = (false, s.tx) :=
      execute_of_aborted s.tx false _ ha
    simp only [runNestedSavepointAtomic, DjogiContext.incrementSavepointDepth, hn, hsp]
    exact unseen_safely h rfl
  | false =>
    have hsp : s.tx.savepoint (s.ctx.savepointDepth + 1) =
        (true, s.tx.push (s.ctx.savepointDepth + 1)) := by
      simp [Tx.savepoint, Tx.execute, ha]
    let e : World W C := World.observe .pause
      { s with ctx := { s.ctx with savepointDepth := s.ctx.savepointDepth + 1 }
               tx := s.tx.push (s.ctx.savepointDepth + 1) }
    have hent : Entered s e := ⟨rfl, rfl, rfl, rfl, ha⟩
    have he : Safely s e := pause_safely h rfl
    have hbody := he.trans (hrun e h rfl)
    have hkept := run_kept c e (by rw [hent.depth]; exact hd)
    simp only [runNestedSavepointAtomic, DjogiContext.incrementSavepointDepth, hn, hsp, if_true]
    exact finishNested_safely h hent hkept hbody (run_not_cancelled c e hc)

theorem run_safely (c : Closure W C) {s : World W C} (h : s.Tracked) (hc : c.undropped)
    (hd : s.ctx.savepointDepth + c.nesting ≤ u32Max) : Safely s (run c s).world := by
  induction c generalizing s with
  | finish outcome => exact (Steps.refl h).safely
  | execute w fails rest ih =>
    have hsend : Steps True s (s.send fails (·.write [w]) []).2 :=
      (send_steps h fails (·.write [w]) [] (fun _ => rfl) (by simp [readsKeyed])).1
    have hpause := hsend.safely.trans (pause_safely hsend.tracked rfl)
    have hrest : ∀ b, s.ctx.savepointDepth + (rest b).nesting ≤ u32Max := fun b => by
      cases b <;> simp only [Closure.nesting] at hd <;> omega
    refine hpause.trans (ih _ hpause.tracked (hc _) ?_)
    rw [(observe_quiet .pause _).depth, (execute_kept w fails s).depth]
    exact hrest _
  | onCommit c rest ih =>
    have hpause := pause_safely (s := s)
      (w := { s with ctx := { s.ctx with onCommit := s.ctx.onCommit ++ [c] } }) h rfl
    exact hpause.trans (ih hpause.tracked hc hd)
  | setAuth auth rest ih =>
    have hset : ({ s with ctx := s.ctx.setAuth auth } : World W C).Tracked :=
      ⟨h.applied, h.blank, by simp [DjogiContext.setAuth]⟩
    have hpause := pause_safely (s := s) hset rfl
    exact hpause.trans (ih hpause.tracked hc hd)
  | setNoTenantScope rest ih =>
    have hset : ({ s with ctx := s.ctx.setNoTenantScope } : World W C).Tracked :=
      ⟨h.applied, h.blank, h.unattached⟩
    have hpause := pause_safely (s := s) hset rfl
    exact hpause.trans (ih hpause.tracked hc hd)
  | fetch terminal query rest ih =>
    have hstep := fetch_safely h terminal query
    have hpause := hstep.trans (pause_safely hstep.tracked rfl)
    have hrest : ∀ b, s.ctx.savepointDepth + (rest b).nesting ≤ u32Max := fun b => by
      cases b <;> simp only [Closure.nesting] at hd <;> omega
    refine hpause.trans (ih _ hpause.tracked (hc _) ?_)
    rw [(observe_quiet .pause _).depth, (terminal_quiet terminal query _).depth]
    exact hrest _
  | atomic level inner cut rest ihInner ihRest =>
    obtain ⟨hinner, rfl, hcrest⟩ := hc
    have hrest : ∀ o, s.ctx.savepointDepth + (rest o).nesting ≤ u32Max := fun o => by
      cases o <;> simp only [Closure.nesting] at hd <;> omega
    cases level with
    | some level =>
      have hpause := pause_safely h (s := s) rfl
      exact hpause.trans (ihRest _ hpause.tracked (hcrest .err) (hrest .err))
    | none =>
      have hdepth : s.ctx.savepointDepth + 1 + inner.nesting ≤ u32Max := by
        simp only [Closure.nesting] at hd
        omega
      have hstep := nested_safely inner h hinner hdepth fun e he hde =>
        ihInner he hinner (by rw [hde]; exact hdepth)
      have hpause := hstep.trans (pause_safely hstep.tracked rfl)
      refine hpause.trans (ihRest _ hpause.tracked (hcrest _) ?_)
      have hkept := nested_kept (run inner) .never s (by omega) fun e he =>
        run_kept inner e (by rw [he]; exact hdepth)
      rw [(observe_quiet .pause _).depth, hkept.depth]
      exact hrest _

/-! ## The outermost transaction -/

theorem start_tracked (scope : AtomicScope) : (scope.start : World W C).Tracked := by
  cases scope <;> exact ⟨by simp [AtomicScope.start, World.observe, AtomicScope.txCtx,
    fromConnection], fun _ => Or.inl rfl, fun _ => rfl⟩

/-- **Tenants.** In a run inside one outermost transaction whose terminals are all covered, the
tracker never lies and no statement reads a tenant-keyed table under another tenant. -/
theorem reads_under_own_tenant (scope : AtomicScope) (server : Server) (c : Closure W C)
    (hc : c.undropped) (hd : c.nesting ≤ u32Max)
    (hcov : ∀ m ∈ (atomic scope server c).seen, Covered m) :
    ∀ m ∈ (atomic scope server c).seen, SafeMoment m := by
  have hstart : Safely { (scope.start : World W C) with seen := [] } scope.start :=
    pause_safely (start_tracked scope) rfl
  have hdepth : (scope.start : World W C).ctx.savepointDepth + c.nesting ≤ u32Max := by
    cases scope <;> simpa [AtomicScope.start, World.observe, AtomicScope.txCtx, fromConnection]
      using hd
  obtain ⟨new, hs, hsafe⟩ :=
    (hstart.trans (run_safely c (start_tracked scope) hc hdepth)).seen
  have hseen : (atomic scope server c).seen = [] ∨ (atomic scope server c).seen = new := by
    rw [List.nil_append] at hs
    unfold atomic
    split
    · exact Or.inl rfl
    · split
      · exact Or.inl rfl
      · refine Or.inr ?_
        rw [← hs]
        unfold endAtomic
        split <;> rfl
  rcases hseen with hseen | hseen
  · simp [hseen]
  · rw [hseen] at hcov ⊢
    exact hsafe hcov

section Examples

def account : Model := { tableName := "accounts", tenantKey := some "org_id" }

def accounts : Query :=
  { root := account, isEmpty := false, setFails := false, builds := true, joined := [account],
    answer := { fails := false, rows := 1, decodes := true }, prefetches := [] }

def postsWithAccounts : Query := { accounts with root := { account with tenantKey := none } }

/-- The auth changes, and the next query reads accounts only through a join. -/
def switches : Closure Unit Unit :=
  .setAuth ⟨some "org_a"⟩ (.fetch .fetchAll accounts fun _ =>
    .setAuth ⟨some "org_b"⟩ (.fetch .fetchAllJoined postsWithAccounts fun _ => .finish .ok))

def allUp : Server := { connects := true, begins := true, commits := true }

/-- The accounts of `org_a` are read for `org_b`. -/
theorem reads_under_other_tenant :
    ¬ ∀ m ∈ (atomic .pool allUp switches).seen, SafeMoment m := by
  intro h
  let leak : Moment :=
    { trackers := { auth := some ⟨some "org_b"⟩, appliedTenantId := some "org_a",
                    tenantSet := true, tenantScopeSuppressed := false }
      setting := some "org_a"
      observed := .reads [postsWithAccounts.root, account] }
  have hm : leak ∈ (atomic .pool allUp switches).seen := by decide
  have hread : Aligned leak.trackers leak.setting :=
    (h leak hm).reads _ rfl ⟨account, by simp, rfl⟩
  exact absurd hread (by decide)

/-- The same join from a tenant-keyed root. -/
def aligns : Closure Unit Unit :=
  .setAuth ⟨some "org_b"⟩ (.fetch .fetchAllJoined accounts fun _ => .finish .ok)

theorem aligns_reads_under_own_tenant :
    aligns.nesting ≤ u32Max ∧ ∀ m ∈ (atomic .pool allUp aligns).seen, SafeMoment m :=
  ⟨Nat.zero_le _, reads_under_own_tenant .pool allUp aligns
    (by simp [aligns, Closure.undropped]) (Nat.zero_le _) (by decide)⟩

end Examples

end Djogi.Scope

import Djogi.Scope.Atomic

/-!
# What an atomic scope says and what it did

* `keptWrites`, `keptCallbacks`: what the scopes that returned `Ok` did, with all scopes around
  them;
* `Kept`: what holds between the start of a closure and any later time in it;
* `run_kept`: every closure keeps it, whatever it does with the errors it is handed;
* `atomic_truthful_iff`: the outermost scope tells the truth unless it sends `COMMIT` to a
  transaction that is aborted: `COMMIT` succeeds, nothing is durable, and the callbacks are run.
-/

namespace Djogi.Scope

open Savepoints

variable {W C : Type}

/-! ## Scopes that stay -/

section Collect

variable {α : Type} (onWrite : W → List α) (onCallback : C → List α)
  (keeps : Outcome → Outcome → Bool)

mutual

def Event.collect : Event W C → List α
  | .wrote w => onWrite w
  | .registered c => onCallback c
  | .scope closure result events => if keeps closure result then collect events else []

/-- What is found in the events, and in the nested scopes that are kept. -/
def collect : List (Event W C) → List α
  | [] => []
  | e :: es => e.collect ++ collect es

end

attribute [local simp] collect Event.collect

theorem collect_append (es es' : List (Event W C)) :
    collect onWrite onCallback keeps (es ++ es') =
      collect onWrite onCallback keeps es ++ collect onWrite onCallback keeps es' := by
  induction es with
  | nil => simp
  | cons e es ih => simp [ih]

end Collect

/-- The writes of the scopes that returned `Ok` together with all scopes around them. -/
def keptWrites (es : List (Event W C)) : List W :=
  collect (fun w => [w]) (fun _ => []) (fun _ result => result == .ok) es

/-- The callbacks of the scopes that returned `Ok` together with all scopes around them. -/
def keptCallbacks (es : List (Event W C)) : List C :=
  collect (fun _ => []) (fun c => [c]) (fun _ result => result == .ok) es

/-- The callbacks that the queue holds: a nested scope leaves its own when its closure finished
`Ok`, whether or not the savepoint could be released. -/
def queued (es : List (Event W C)) : List C :=
  collect (fun _ => []) (fun c => [c])
    (fun closure result => closure == .ok && result != .cancelled) es

@[simp] theorem keptWrites_append (es es' : List (Event W C)) :
    keptWrites (es ++ es') = keptWrites es ++ keptWrites es' := collect_append _ _ _ es es'

@[simp] theorem keptCallbacks_append (es es' : List (Event W C)) :
    keptCallbacks (es ++ es') = keptCallbacks es ++ keptCallbacks es' := collect_append _ _ _ es es'

@[simp] theorem queued_append (es es' : List (Event W C)) :
    queued (es ++ es') = queued es ++ queued es' := collect_append _ _ _ es es'

@[simp] theorem keptWrites_nil : keptWrites ([] : List (Event W C)) = [] := by
  simp [keptWrites, collect]

@[simp] theorem keptCallbacks_nil : keptCallbacks ([] : List (Event W C)) = [] := by
  simp [keptCallbacks, collect]

@[simp] theorem queued_nil : queued ([] : List (Event W C)) = [] := by
  simp [queued, collect]

@[simp] theorem keptWrites_wrote (w : W) : keptWrites ([.wrote w] : List (Event W C)) = [w] := by
  simp [keptWrites, collect, Event.collect]

@[simp] theorem keptCallbacks_wrote (w : W) :
    keptCallbacks ([.wrote w] : List (Event W C)) = [] := by
  simp [keptCallbacks, collect, Event.collect]

@[simp] theorem queued_wrote (w : W) : queued ([.wrote w] : List (Event W C)) = [] := by
  simp [queued, collect, Event.collect]

@[simp] theorem keptWrites_registered (c : C) :
    keptWrites ([.registered c] : List (Event W C)) = [] := by
  simp [keptWrites, collect, Event.collect]

@[simp] theorem keptCallbacks_registered (c : C) :
    keptCallbacks ([.registered c] : List (Event W C)) = [c] := by
  simp [keptCallbacks, collect, Event.collect]

@[simp] theorem queued_registered (c : C) :
    queued ([.registered c] : List (Event W C)) = [c] := by
  simp [queued, collect, Event.collect]

@[simp] theorem keptWrites_scope (closure result : Outcome) (es : List (Event W C)) :
    keptWrites [.scope closure result es] = if result = .ok then keptWrites es else [] := by
  simp [keptWrites, collect, Event.collect]

@[simp] theorem keptCallbacks_scope (closure result : Outcome) (es : List (Event W C)) :
    keptCallbacks [.scope closure result es] = if result = .ok then keptCallbacks es else [] := by
  simp [keptCallbacks, collect, Event.collect]

@[simp] theorem queued_scope (closure result : Outcome) (es : List (Event W C)) :
    queued [.scope closure result es] =
      if closure = .ok ∧ result ≠ .cancelled then queued es else [] := by
  simp [queued, collect, Event.collect]

/-! ## The invariant of a closure -/

/-- `events` is what happened between `s` and `s'`, within one scope. -/
structure Kept (s : World W C) (events : List (Event W C)) (s' : World W C) : Prop where
  depth : s'.ctx.savepointDepth = s.ctx.savepointDepth
  poisoned : s.ctx.transactionPoisoned = true → s'.ctx.transactionPoisoned = true
  aborted : s.tx.aborted = true → s'.tx.aborted = true
  queue : s'.ctx.onCommit = s.ctx.onCommit ++ queued events
  above : Above s.ctx.savepointDepth s.tx s'.tx
  clean : s'.tx.aborted = false → s'.ctx.transactionPoisoned = false →
    Wrote (keptWrites events) s.tx s'.tx ∧ queued events = keptCallbacks events

theorem Kept.trans {s s' s'' : World W C} {es es' : List (Event W C)} (h : Kept s es s')
    (h' : Kept s' es' s'') : Kept s (es ++ es') s'' where
  depth := h'.depth.trans h.depth
  poisoned hp := h'.poisoned (h.poisoned hp)
  aborted ha := h'.aborted (h.aborted ha)
  queue := by rw [h'.queue, h.queue, queued_append, List.append_assoc]
  above := by
    have habove := h'.above
    rw [h.depth] at habove
    exact h.above.trans habove
  clean ha hp := by
    have ha' : s'.tx.aborted = false := by
      cases hc : s'.tx.aborted with
      | false => rfl
      | true => rw [h'.aborted hc] at ha; exact ha
    have hp' : s'.ctx.transactionPoisoned = false := by
      cases hc : s'.ctx.transactionPoisoned with
      | false => rfl
      | true => rw [h'.poisoned hc] at hp; exact hp
    obtain ⟨hw, hq⟩ := h.clean ha' hp'
    obtain ⟨hw', hq'⟩ := h'.clean ha hp
    refine ⟨?_, ?_⟩
    · rw [keptWrites_append]
      exact hw.trans hw'
    · rw [queued_append, keptCallbacks_append, hq, hq']

/-- Neither the levels nor the queue are touched. -/
structure Quiet (s s' : World W C) : Prop where
  depth : s'.ctx.savepointDepth = s.ctx.savepointDepth
  poisoned : s'.ctx.transactionPoisoned = s.ctx.transactionPoisoned
  onCommit : s'.ctx.onCommit = s.ctx.onCommit
  top : s'.tx.top = s.tx.top
  below : s'.tx.below = s.tx.below
  aborted : s.tx.aborted = true → s'.tx.aborted = true

theorem Quiet.refl (s : World W C) : Quiet s s := ⟨rfl, rfl, rfl, rfl, rfl, id⟩

theorem Quiet.trans {s s' s'' : World W C} (h : Quiet s s') (h' : Quiet s' s'') :
    Quiet s s'' where
  depth := h'.depth.trans h.depth
  poisoned := h'.poisoned.trans h.poisoned
  onCommit := h'.onCommit.trans h.onCommit
  top := h'.top.trans h.top
  below := h'.below.trans h.below
  aborted ha := h'.aborted (h.aborted ha)

theorem Quiet.kept {s s' : World W C} (h : Quiet s s') : Kept s [] s' where
  depth := h.depth
  poisoned hp := h.poisoned.trans hp
  aborted := h.aborted
  queue := by simp [h.onCommit]
  above := Above.of_levels (by rw [Tx.levels, h.top, h.below]; rfl)
  clean _ _ := ⟨⟨by simp [h.top], h.below⟩, by simp⟩

theorem observe_quiet (o : Observed) (s : World W C) : Quiet s (s.observe o) :=
  ⟨rfl, rfl, rfl, rfl, rfl, id⟩

/-! ## Statements and terminals -/

theorem sendInner_quiet (fails : Bool) (f : Tx W (Option String) → Tx W (Option String))
    (models : List Model) (s : World W C)
    (hf : ∀ t, (f t).top = t.top ∧ (f t).below = t.below) :
    Quiet s (s.sendInner fails f models).2 := by
  cases ha : s.tx.aborted with
  | true =>
    rw [sendInner_of_aborted fails f models s ha]
    exact Quiet.refl s
  | false =>
    cases fails with
    | true =>
      rw [sendInner_fails f models s ha]
      exact ⟨rfl, rfl, rfl, rfl, rfl, fun _ => rfl⟩
    | false =>
      rw [sendInner_succeeds f models s ha]
      exact ⟨rfl, rfl, rfl, (hf s.tx).1, (hf s.tx).2, by simp [ha]⟩

theorem send_quiet (fails : Bool) (f : Tx W (Option String) → Tx W (Option String))
    (models : List Model) (s : World W C)
    (hf : ∀ t, (f t).top = t.top ∧ (f t).below = t.below) :
    Quiet s (s.send fails f models).2 := by
  unfold World.send
  split
  · exact Quiet.refl s
  · exact sendInner_quiet fails f models s hf

theorem andThen_quiet {s : World W C} {r : Bool × World W C}
    {f : World W C → Bool × World W C} (h : Quiet s r.2) (hf : ∀ s', Quiet s' (f s').2) :
    Quiet s (andThen r f).2 := by
  unfold andThen
  split
  · exact h.trans (hf r.2)
  · exact h

theorem setTenant_quiet (tid : String) (fails : Bool) (s : World W C) :
    Quiet s (setTenant tid fails s).2 :=
  andThen_quiet (send_quiet fails _ [] s fun _ => ⟨rfl, rfl⟩)
    fun _ => ⟨rfl, rfl, rfl, rfl, rfl, id⟩

theorem clearTenant_quiet (fails : Bool) (s : World W C) : Quiet s (clearTenant fails s).2 :=
  andThen_quiet (send_quiet fails _ [] s fun _ => ⟨rfl, rfl⟩)
    fun _ => ⟨rfl, rfl, rfl, rfl, rfl, id⟩

theorem autoSetTenant_quiet (m : Model) (fails : Bool) (s : World W C) :
    Quiet s (autoSetTenant m fails s).2 := by
  unfold autoSetTenant ensureTenantSet
  split
  · exact Quiet.refl s
  · split
    · exact Quiet.refl s
    · split
      · split
        · exact Quiet.refl s
        · exact setTenant_quiet _ fails s
      · split
        · exact clearTenant_quiet fails s
        · exact Quiet.refl s

theorem select_quiet (q : Query) (models : List Model) (s : World W C) :
    Quiet s (select q models s).2 := by
  refine andThen_quiet (autoSetTenant_quiet q.root q.setFails s) fun s' => ?_
  split
  · exact andThen_quiet (send_quiet _ _ _ s' fun _ => ⟨rfl, rfl⟩) fun s'' => Quiet.refl s''
  · exact Quiet.refl s'

theorem runLoaders_quiet (root : Model) (loaders : List (Model × Answer)) (s : World W C) :
    Quiet s (runLoaders root loaders s).2 := by
  induction loaders generalizing s with
  | nil => exact Quiet.refl s
  | cons l rest ih =>
    refine andThen_quiet (sendInner_quiet _ _ _ s fun _ => ⟨rfl, rfl⟩) fun s' => ?_
    split
    · exact ih s'
    · exact Quiet.refl s'

theorem applyPrefetches_quiet (q : Query) (s : World W C) :
    Quiet s (applyPrefetches q s).2 := by
  unfold applyPrefetches
  split
  · exact Quiet.refl s
  · exact runLoaders_quiet q.root q.prefetches s

theorem terminal_quiet (terminal : Terminal) (q : Query) (s : World W C) :
    Quiet s (terminal.run q s).2 := by
  cases terminal with
  | fetchAll | first =>
    simp only [Terminal.run, fetchAll, first]
    split
    · exact Quiet.refl s
    · exact select_quiet q _ s
  | fetchAllPrefetched | fetchAllJoined =>
    simp only [Terminal.run, fetchAllPrefetched, fetchAllJoined]
    split
    · exact Quiet.refl s
    · exact andThen_quiet (select_quiet q _ s) fun s' => applyPrefetches_quiet q s'
  | walk edges =>
    simp only [Terminal.run, walk]
    split
    · exact Quiet.refl s
    · exact select_quiet q _ s

/-- A statement of the closure: what it wrote is noted exactly when it succeeds. -/
theorem execute_kept (w : W) (fails : Bool) (s : World W C) :
    Kept s (if (s.send fails (·.write [w]) []).1 then [.wrote w] else [])
      (s.send fails (·.write [w]) []).2 := by
  cases hp : s.ctx.transactionPoisoned with
  | true =>
    rw [send_of_poisoned _ _ _ s hp]
    exact (Quiet.refl s).kept
  | false =>
    rw [send_of_healthy _ _ _ s hp]
    cases ha : s.tx.aborted with
    | true =>
      rw [sendInner_of_aborted _ _ _ s ha]
      exact (Quiet.refl s).kept
    | false =>
      cases fails with
      | true =>
        rw [sendInner_fails _ _ s ha]
        exact Quiet.kept ⟨rfl, rfl, rfl, rfl, rfl, fun _ => rfl⟩
      | false =>
        rw [sendInner_succeeds _ _ s ha]
        have hw : Wrote [w] s.tx (s.tx.write [w]) := ⟨rfl, rfl⟩
        exact ⟨rfl, id, by simp [ha], by simp [World.observe], hw.above _,
          fun _ _ => ⟨by simpa using hw, by simp⟩⟩

theorem onCommit_kept (c : C) (s : World W C) :
    Kept s [.registered c]
      { s with ctx := { s.ctx with onCommit := s.ctx.onCommit ++ [c] } } :=
  ⟨rfl, id, id, by simp, Above.refl _ _, fun _ _ => ⟨by simpa using Wrote.refl s.tx, by simp⟩⟩

/-! ## Nested scopes -/

/-- Whatever the guard finds on the connection, the context is left poisoned and without the
callbacks of the scope. -/
theorem cancel_kept {s w : World W C} {q : List C} (closure : Outcome)
    (events : List (Event W C)) (snapshot : AuthState)
    (hd : w.ctx.savepointDepth = s.ctx.savepointDepth + 1)
    (hq : w.ctx.onCommit = s.ctx.onCommit ++ q)
    (ha : s.tx.aborted = true → w.tx.aborted = true)
    (habove : Above s.ctx.savepointDepth s.tx w.tx) :
    Kept s [.scope closure .cancelled events]
      (cancel s.ctx.onCommit.length snapshot w) where
  depth := by
    show w.ctx.savepointDepth - 1 = _
    omega
  poisoned _ := rfl
  aborted := ha
  queue := by
    show w.ctx.onCommit.take _ = _
    simp [hq]
  above := habove
  clean _ hp := by cases hp

/-- How far the cleanup of a failed scope got. -/
theorem runRollbackToRelease_above {n : Nat} {t t' : Tx W (Option String)} (sent : Nat)
    (h : Above (n + 1) (t.push (n + 1)) t') :
    Above n t (runRollbackToRelease (n + 1) sent t') := by
  match sent with
  | 0 => exact above_of_push h
  | 1 =>
    show Above n t (t'.rollbackTo (n + 1)).2
    rw [rollbackTo_above h]
    exact push_above n t
  | k + 2 =>
    simp only [runRollbackToRelease, rollbackTo_above h, if_true, release_push]
    exact Above.of_levels rfl

/-- A scope that failed leaves the transaction as it found it. -/
theorem runRollbackToRelease_eq {n : Nat} {t t' : Tx W (Option String)}
    (h : Above (n + 1) (t.push (n + 1)) t') (ha : t.aborted = false) :
    runRollbackToRelease (n + 1) 2 t' = t := by
  simp only [runRollbackToRelease, rollbackTo_above h, if_true, release_push]
  cases t
  cases ha
  rfl

section Nested

variable {s e : World W C} {r : Ran W C}

/-- `e` is the world as the closure of a nested scope over `s` finds it. -/
structure Entered (s e : World W C) : Prop where
  depth : e.ctx.savepointDepth = s.ctx.savepointDepth + 1
  onCommit : e.ctx.onCommit = s.ctx.onCommit
  poisoned : e.ctx.transactionPoisoned = s.ctx.transactionPoisoned
  tx : e.tx = s.tx.push (s.ctx.savepointDepth + 1)
  healthy : s.tx.aborted = false

theorem Entered.above (h : Entered s e) (hr : Kept e r.events r.world) :
    Above (s.ctx.savepointDepth + 1) (s.tx.push (s.ctx.savepointDepth + 1)) r.world.tx := by
  have := hr.above
  rwa [h.depth, h.tx] at this

theorem Entered.depth_after (h : Entered s e) (hr : Kept e r.events r.world) :
    r.world.ctx.savepointDepth = s.ctx.savepointDepth + 1 := hr.depth.trans h.depth

theorem Entered.queue_after (h : Entered s e) (hr : Kept e r.events r.world) :
    r.world.ctx.onCommit = s.ctx.onCommit ++ queued r.events := by
  rw [hr.queue, h.onCommit]

/-- `Ok` and `RELEASE`: either it succeeds and all is handed down, or the transaction stays
aborted. -/
theorem released_kept (h : Entered s e) (hr : Kept e r.events r.world) :
    Kept s [.scope .ok
        (if (r.world.tx.release (s.ctx.savepointDepth + 1)).1 then .ok else .err) r.events]
      { r.world with
        ctx := r.world.ctx.decrementSavepointDepth
        tx := (r.world.tx.release (s.ctx.savepointDepth + 1)).2 } := by
  have hdepth : r.world.ctx.savepointDepth - 1 = s.ctx.savepointDepth := by
    have := h.depth_after hr
    omega
  refine ⟨hdepth, fun hp => hr.poisoned (h.poisoned.trans hp), by simp [h.healthy], ?_,
    release_keeps_above (h.above hr), fun ha hp => ?_⟩
  · show r.world.ctx.onCommit = _
    rw [h.queue_after hr]
    split <;> simp
  · cases hab : r.world.tx.aborted with
    | true =>
      rw [release_of_aborted hab] at ha
      rw [hab] at ha
      cases ha
    | false =>
      obtain ⟨hw, hq⟩ := hr.clean hab hp
      rw [h.tx] at hw
      rw [(release_above (h.above hr) hab).1]
      exact ⟨by simpa using release_wrote hw hab, by simpa using hq⟩

/-- `Err` or a panic, and `ROLLBACK TO`: nothing is left. -/
theorem rolledBack_kept (h : Entered s e) (hr : Kept e r.events r.world) (closure : Outcome)
    (result : Outcome) (hc : closure ≠ .ok) (hresult : result ≠ .ok) (snapshot : AuthState) :
    Kept s [.scope closure result r.events]
      { restoreParentState s.ctx.onCommit.length snapshot r.world with
        ctx := (restoreParentState s.ctx.onCommit.length snapshot
          r.world).ctx.decrementSavepointDepth
        tx := runRollbackToRelease (s.ctx.savepointDepth + 1) 2 r.world.tx } := by
  rw [runRollbackToRelease_eq (h.above hr) h.healthy]
  have hdepth : r.world.ctx.savepointDepth - 1 = s.ctx.savepointDepth := by
    have := h.depth_after hr
    omega
  refine ⟨hdepth, fun hp => hr.poisoned (h.poisoned.trans hp), id, ?_, Above.refl _ _,
    fun _ _ => ⟨?_, ?_⟩⟩
  · show r.world.ctx.onCommit.take _ = _
    simp [h.queue_after hr, hc]
  · simpa [hresult] using Wrote.refl s.tx
  · simp [hc, hresult]

theorem finishNested_kept (h : Entered s e) (hr : Kept e r.events r.world) (snapshot : AuthState)
    (cut : Cut) :
    let f := finishNested s.ctx.onCommit.length snapshot (s.ctx.savepointDepth + 1) cut r
    Kept s [.scope r.outcome f.1 r.events] f.2 := by
  have hab : s.tx.aborted = true → False := by simp [h.healthy]
  cases ho : r.outcome with
  | cancelled =>
    simp only [finishNested, ho]
    exact cancel_kept _ _ snapshot (h.depth_after hr) (h.queue_after hr) (fun ha => (hab ha).elim)
      (above_of_push (h.above hr))
  | ok =>
    cases cut with
    | cleanup reached =>
      simp only [finishNested, ho]
      refine cancel_kept _ _ snapshot (h.depth_after hr) (h.queue_after hr)
        (fun ha => (hab ha).elim) ?_
      show Above _ _ (if reached = 0 then _ else _)
      split
      · exact above_of_push (h.above hr)
      · exact release_keeps_above (h.above hr)
    | never | savepoint _ =>
      simp only [finishNested, ho]
      exact released_kept h hr
  | err | panicked =>
    cases cut with
    | cleanup reached =>
      simp only [finishNested, ho]
      refine cancel_kept (q := []) _ _ snapshot (h.depth_after hr) ?_
        (fun ha => (hab ha).elim) (runRollbackToRelease_above reached (h.above hr))
      show r.world.ctx.onCommit.take _ = _
      simp [h.queue_after hr]
    | never | savepoint _ =>
      simp only [finishNested, ho]
      exact rolledBack_kept h hr _ _ (by simp) (by simp) snapshot

end Nested

theorem nested_kept (closure : World W C → Ran W C) (cut : Cut) (s : World W C)
    (hd : s.ctx.savepointDepth + 1 ≤ u32Max)
    (h : ∀ e, e.ctx.savepointDepth = s.ctx.savepointDepth + 1 →
      Kept e (closure e).events (closure e).world) :
    Kept s (runNestedSavepointAtomic cut closure s).events
      (runNestedSavepointAtomic cut closure s).world := by
  have hn : min (s.ctx.savepointDepth + 1) u32Max = s.ctx.savepointDepth + 1 := by omega
  cases ha : s.tx.aborted with
  | true =>
    have hsp : s.tx.savepoint (s.ctx.savepointDepth + 1) = (false, s.tx) :=
      execute_of_aborted s.tx false _ ha
    have hcancel : Kept s [.scope .cancelled .cancelled []]
        (cancel s.ctx.onCommit.length s.ctx.authState
          { s with ctx := s.ctx.incrementSavepointDepth }) :=
      cancel_kept (q := []) _ _ _ hn (by simp [DjogiContext.incrementSavepointDepth]) id
        (Above.refl _ _)
    have hrefused : Kept s [.scope .err .err []]
        { s with ctx := s.ctx.incrementSavepointDepth.decrementSavepointDepth } := by
      refine ⟨?_, id, id, ?_, Above.refl _ _, fun ha' => ?_⟩
      · show min (s.ctx.savepointDepth + 1) u32Max - 1 = _
        omega
      · show s.ctx.onCommit = _
        simp
      · exact absurd (ha.symm.trans ha') (by simp)
    cases cut with
    | savepoint reached =>
      simp only [runNestedSavepointAtomic, DjogiContext.incrementSavepointDepth, hn, hsp,
        ite_self] at hcancel ⊢
      exact hcancel
    | never | cleanup _ =>
      simp only [runNestedSavepointAtomic, DjogiContext.incrementSavepointDepth, hn, hsp]
        at hrefused ⊢
      exact hrefused
  | false =>
    have hsp : s.tx.savepoint (s.ctx.savepointDepth + 1) =
        (true, s.tx.push (s.ctx.savepointDepth + 1)) := by
      simp [Tx.savepoint, Tx.execute, ha]
    cases cut with
    | savepoint reached =>
      simp only [runNestedSavepointAtomic, DjogiContext.incrementSavepointDepth, hn, hsp]
      refine cancel_kept (q := []) _ _ _ rfl (by simp) (by simp [ha]) ?_
      show Above _ _ (if reached then _ else _)
      split
      · exact push_above _ _
      · exact Above.refl _ _
    | never | cleanup _ =>
      simp only [runNestedSavepointAtomic, DjogiContext.incrementSavepointDepth, hn, hsp, if_true]
      have hent : Entered s (World.observe .pause
          { s with ctx := { s.ctx with savepointDepth := s.ctx.savepointDepth + 1 }
                   tx := s.tx.push (s.ctx.savepointDepth + 1) }) :=
        ⟨rfl, rfl, rfl, rfl, ha⟩
      exact finishNested_kept hent (h _ hent.depth) _ _

/-! ## Runs -/

/-- **Every closure.** Whatever a closure does with the errors it is handed, its scope keeps the
invariant. The induction is on the closure; each step is followed by the rest. -/
theorem run_kept (c : Closure W C) (s : World W C)
    (hd : s.ctx.savepointDepth + c.nesting ≤ u32Max) :
    Kept s (run c s).events (run c s).world := by
  induction c generalizing s with
  | finish outcome => exact (Quiet.refl s).kept
  | execute w fails rest ih =>
    have hstep := execute_kept w fails s
    have hpause := (observe_quiet .pause (s.send fails (·.write [w]) []).2).kept
    refine hstep.trans (hpause.trans (ih _ _ ?_))
    have hrest : ∀ b, s.ctx.savepointDepth + (rest b).nesting ≤ u32Max := fun b => by
      cases b <;> simp only [Closure.nesting] at hd <;> omega
    rw [hpause.depth, hstep.depth]
    exact hrest _
  | onCommit c rest ih =>
    exact (onCommit_kept c s).trans ((observe_quiet .pause _).kept.trans (ih _ hd))
  | setAuth auth rest ih =>
    have hset : Quiet s ({ s with ctx := s.ctx.setAuth auth }.observe .pause) :=
      ⟨rfl, rfl, rfl, rfl, rfl, id⟩
    exact hset.kept.trans (ih _ hd)
  | setNoTenantScope rest ih =>
    have hset : Quiet s ({ s with ctx := s.ctx.setNoTenantScope }.observe .pause) :=
      ⟨rfl, rfl, rfl, rfl, rfl, id⟩
    exact hset.kept.trans (ih _ hd)
  | fetch terminal query rest ih =>
    have hstep := (observe_quiet (.calls terminal query) s).trans (terminal_quiet terminal query _)
    have hpause := hstep.trans (observe_quiet .pause _)
    refine hpause.kept.trans (ih _ _ ?_)
    have hrest : ∀ b, s.ctx.savepointDepth + (rest b).nesting ≤ u32Max := fun b => by
      cases b <;> simp only [Closure.nesting] at hd <;> omega
    rw [hpause.depth]
    exact hrest _
  | atomic level inner cut rest ihInner ihRest =>
    have hrest : ∀ o, s.ctx.savepointDepth + (rest o).nesting ≤ u32Max := fun o => by
      cases o <;> simp only [Closure.nesting] at hd <;> omega
    cases level with
    | some level =>
      exact (observe_quiet .pause s).kept.trans (ihRest _ _ (hrest .err))
    | none =>
      have hinner : s.ctx.savepointDepth + (inner.nesting + 1) ≤ u32Max := by
        simp only [Closure.nesting] at hd
        omega
      have hstep := nested_kept (run inner) cut s (by omega) fun e he => ihInner e (by omega)
      have hpause := hstep.trans
        (observe_quiet .pause (runNestedSavepointAtomic cut (run inner) s).world).kept
      refine hstep.trans ((observe_quiet .pause _).kept.trans (ihRest _ _ ?_))
      rw [hpause.depth]
      exact hrest _

/-! ## The outermost scope -/

/-- If the outermost scope returns `Ok`, what is durable and what was run is what the scopes that
stay did; otherwise it is nothing. -/
def Truthful (r : Report W C) : Prop :=
  if r.outcome = .ok then
    r.committed = keptWrites r.events ∧ r.callbacks = keptCallbacks r.events
  else r.committed = [] ∧ r.callbacks = []

/-- `COMMIT` is sent, and the transaction is aborted. -/
def CommitsAborted (r : Ran W C) : Prop :=
  r.outcome = .ok ∧ r.world.ctx.transactionPoisoned = false ∧ r.world.tx.aborted = true

/-- No scope that stays has written, and the queue holds no callback of a scope whose savepoint
could not be released. -/
def NothingAtStake (r : Ran W C) : Prop :=
  keptWrites r.events = [] ∧ queued r.events = keptCallbacks r.events

section Outermost

variable (scope : AtomicScope)

theorem start_kept (c : Closure W C) (h : c.nesting ≤ u32Max) :
    Kept scope.start (run c scope.start).events (run c scope.start).world :=
  run_kept c _ (by cases scope <;> simpa [AtomicScope.start, World.observe, AtomicScope.txCtx,
    fromConnection] using h)

theorem start_onCommit : (scope.start : World W C).ctx.onCommit = [] := by
  cases scope <;> rfl

/-- What the closure of the outermost scope leaves in the queue. -/
theorem start_queue (c : Closure W C) (h : c.nesting ≤ u32Max) :
    (run c scope.start).world.ctx.onCommit = queued (run c scope.start).events := by
  rw [(start_kept scope c h).queue, start_onCommit, List.nil_append]

/-- Unless the transaction is aborted, it holds what the scopes that stay have written. -/
theorem start_written (c : Closure W C) (h : c.nesting ≤ u32Max)
    (ha : (run c scope.start).world.tx.aborted = false)
    (hp : (run c scope.start).world.ctx.transactionPoisoned = false) :
    (run c scope.start).world.tx.written = keptWrites (run c scope.start).events ∧
      queued (run c scope.start).events = keptCallbacks (run c scope.start).events := by
  obtain ⟨hw, hq⟩ := (start_kept scope c h).clean ha hp
  have hs : (scope.start : World W C).tx = .begin none := by cases scope <;> rfl
  refine ⟨?_, hq⟩
  rw [Tx.written, Tx.levels, hw.top, hw.below, hs]
  simp [Tx.begin, Level.add]

theorem endAtomic_truthful_iff (c : Closure W C) (commits : Bool) (h : c.nesting ≤ u32Max) :
    Truthful (endAtomic scope commits (run c scope.start)) ↔
      (CommitsAborted (run c scope.start) → NothingAtStake (run c scope.start)) := by
  generalize hr : run c scope.start = r
  have hqueue := start_queue scope c h
  have hwritten := start_written scope c h
  rw [hr] at hqueue hwritten
  cases ho : r.outcome with
  | err | panicked | cancelled =>
    simp [endAtomic, ho, Truthful, CommitsAborted]
  | ok =>
    cases hp : r.world.ctx.transactionPoisoned with
    | true => simp [endAtomic, ho, commitInPlace, hp, Truthful, CommitsAborted]
    | false =>
      cases ha : r.world.tx.aborted with
      | true =>
        have hlaw : Truthful (endAtomic scope commits r) ↔ [] = keptWrites r.events ∧
            r.world.ctx.onCommit = keptCallbacks r.events := by
          simp [endAtomic, ho, commitInPlace, hp, Tx.commit, ha, Truthful]
        rw [hlaw, hqueue]
        constructor
        · rintro ⟨hw, hq⟩ -
          exact ⟨hw.symm, hq⟩
        · intro hstake
          obtain ⟨hw, hq⟩ := hstake ⟨ho, hp, ha⟩
          exact ⟨hw.symm, hq⟩
      | false =>
        obtain ⟨hw, hq⟩ := hwritten ha hp
        cases commits with
        | false => simp [endAtomic, ho, commitInPlace, hp, Tx.commit, ha, Truthful, CommitsAborted]
        | true =>
          simp [endAtomic, ho, commitInPlace, hp, Tx.commit, ha, Truthful, CommitsAborted, hqueue,
            hw, hq]

end Outermost

/-- **Atomic scopes.** Over every tree of closures, the outermost scope tells the truth if and only
if it sends `COMMIT` to no aborted transaction, or nothing is at stake there. -/
theorem atomic_truthful_iff (scope : AtomicScope) (server : Server) (c : Closure W C)
    (h : c.nesting ≤ u32Max) :
    Truthful (atomic scope server c) ↔
      (server.connects = true → server.begins = true → CommitsAborted (run c scope.start) →
        NothingAtStake (run c scope.start)) := by
  cases hc : server.connects with
  | false => simp [atomic, hc, Truthful]
  | true =>
    cases hb : server.begins with
    | false => simp [atomic, hc, hb, Truthful]
    | true =>
      have he : atomic scope server c = endAtomic scope server.commits (run c scope.start) := by
        simp [atomic, hc, hb]
      rw [he, endAtomic_truthful_iff scope c server.commits h]
      simp

/-- A row is inserted, a callback registered, and the error of the next statement ignored. -/
def swallows : Closure String String :=
  .execute "insert" false fun _ =>
    .onCommit "notify" (.execute "duplicate" true fun _ => .finish .ok)

/-- `COMMIT` of an aborted transaction reports no error: `Ok`, no row, and the callback is run. -/
theorem atomic_untruthful :
    ¬ Truthful (atomic .pool { connects := true, begins := true, commits := true } swallows) := by
  intro h
  have hc : ([] : List String) = ["insert"] := h.1
  cases hc

/-- A nested scope fails at its second statement and returns the error; the outer closure inspects
it and writes a draft in another scope instead. -/
def recovers : Closure String String :=
  .execute "insert user" false fun _ => .onCommit "greet" <|
    .atomic none
      (.execute "insert post" false fun _ => .onCommit "announce" <|
        .execute "duplicate" true fun ok => .finish (if ok then .ok else .err))
      .never fun outcome =>
    if outcome = .ok then .finish .ok
    else .atomic none
      (.execute "insert draft" false fun _ => .onCommit "remind" (.finish .ok))
      .never fun _ => .finish .ok

def healthy : Server := { connects := true, begins := true, commits := true }

/-- The scope that failed leaves nothing. -/
theorem atomic_truthful_recovers :
    recovers.nesting ≤ u32Max ∧ (atomic .pool healthy recovers).outcome = .ok ∧
      (atomic .pool healthy recovers).committed = ["insert user", "insert draft"] ∧
      (atomic .pool healthy recovers).callbacks = ["greet", "remind"] ∧
      Truthful (atomic .pool healthy recovers) :=
  have hnesting : recovers.nesting ≤ u32Max := by decide +kernel
  ⟨hnesting, by decide +kernel, by decide +kernel, by decide +kernel,
    (atomic_truthful_iff .pool healthy recovers hnesting).mpr
      fun _ _ h => absurd h.2.2 (by decide +kernel)⟩

end Djogi.Scope

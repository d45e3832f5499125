import Mathlib.Logic.Basic

/-!
# Programs over a database session

A session has durable data, perhaps a transaction, and an environment that decides how each
request goes: it is done, it is refused, or the connection breaks before or after it.

* `Meets`: pre- and postconditions of programs that may fail, with a rule for each construct;
* `ask_ok`, `ask_error`: all that can come of one request;
* `meets_run`, `meets_begin`, `meets_runWithin`, `meets_commit`, `meets_rollback`: its rules.
-/

namespace Session

variable {S ε ε' α β : Type}

/-! ## Programs that may fail -/

/-- A program over the state `S` that may fail with `ε`. The state survives the failure. -/
def Run (S ε α : Type) := S → Except ε α × S

instance : Monad (Run S ε) where
  pure a := fun s => (.ok a, s)
  bind m f := fun s => match m s with
    | (.ok a, s') => f a s'
    | (.error e, s') => (.error e, s')

def fail (e : ε) : Run S ε α := fun s => (.error e, s)

/-- Run the handler on failure and fail with what it makes of the error. -/
def onError (m : Run S ε α) (h : ε → Run S ε' Unit) (g : ε → ε') : Run S ε' α := fun s =>
  match m s with
  | (.ok a, s') => (.ok a, s')
  | (.error e, s') => (.error (g e), (h e s').2)

def mapError (g : ε → ε') (m : Run S ε α) : Run S ε' α := onError m (fun _ => pure ()) g

/-- Run it and forget how it went. -/
def bestEffort (m : Run S ε α) : Run S ε' Unit := fun s => (.ok (), (m s).2)

theorem bind_of_ok (m : Run S ε α) (f : α → Run S ε β) (s s' : S) (a : α)
    (h : m s = (.ok a, s')) : (m >>= f) s = f a s' := by
  show (match m s with
    | (.ok a, s') => f a s'
    | (.error e, s') => (.error e, s')) = _
  rw [h]

theorem bind_of_error (m : Run S ε α) (f : α → Run S ε β) (s s' : S) (e : ε)
    (h : m s = (.error e, s')) : (m >>= f) s = (.error e, s') := by
  show (match m s with
    | (.ok a, s') => f a s'
    | (.error e, s') => (.error e, s')) = _
  rw [h]

theorem mapError_snd (g : ε → ε') (m : Run S ε α) (s : S) : (mapError g m s).2 = (m s).2 := by
  unfold mapError onError
  cases m s with
  | mk r s' => cases r <;> rfl

/-- From `P`, a success ends in `Q` and a failure in `E`. -/
def Meets (P : S → Prop) (m : Run S ε α) (Q : α → S → Prop) (E : ε → S → Prop) : Prop :=
  ∀ s, P s → match m s with
    | (.ok a, s') => Q a s'
    | (.error e, s') => E e s'

namespace Meets

variable {P P' : S → Prop} {Q Q' : α → S → Prop} {E E' : ε → S → Prop}

theorem pure (a : α) (h : ∀ s, P s → Q a s) :
    Meets P (Pure.pure a : Run S ε α) Q E := fun s hs => h s hs

theorem fail (e : ε) (h : ∀ s, P s → E e s) : Meets P (Session.fail e : Run S ε α) Q E :=
  fun s hs => h s hs

theorem bind {m : Run S ε α} {f : α → Run S ε β} {R : β → S → Prop} (hm : Meets P m Q E)
    (hf : ∀ a, Meets (Q a) (f a) R E) : Meets P (m >>= f) R E := by
  intro s hs
  have h := hm s hs
  show match (match m s with
    | (.ok a, s') => f a s'
    | (.error e, s') => (.error e, s') : Except ε β × S) with
    | (.ok b, s') => R b s'
    | (.error e, s') => E e s'
  cases hr : m s with
  | mk r s' =>
    rw [hr] at h
    cases r with
    | ok a => exact hf a s' h
    | error e => exact h

theorem conseq {m : Run S ε α} (hm : Meets P m Q E) (hP : ∀ s, P' s → P s)
    (hQ : ∀ a s, Q a s → Q' a s) (hE : ∀ e s, E e s → E' e s) : Meets P' m Q' E' := by
  intro s hs
  have h := hm s (hP s hs)
  cases hr : m s with
  | mk r s' =>
    rw [hr] at h
    cases r with
    | ok a => exact hQ a s' h
    | error e => exact hE e s' h

theorem of_keeps {m : Run S ε α} {R : S → Prop} (h : ∀ s, P s → R (m s).2) :
    Meets P m (fun _ => R) (fun _ => R) := by
  intro s hs
  have hr := h s hs
  cases hm : m s with
  | mk r s' =>
    rw [hm] at hr
    cases r <;> exact hr

theorem keeps {m : Run S ε α} {R : S → Prop} (hm : Meets P m (fun _ => R) fun _ => R) (s : S)
    (hs : P s) : R (m s).2 := by
  have h := hm s hs
  cases hr : m s with
  | mk r s' =>
    rw [hr] at h
    cases r <;> exact h

theorem pre {m : Run S ε α} (hm : Meets P m Q E) (hP : ∀ s, P' s → P s) : Meets P' m Q E :=
  hm.conseq hP (fun _ _ h => h) (fun _ _ h => h)

theorem onError {m : Run S ε α} {h : ε → Run S ε' Unit} {g : ε → ε'} {R : ε' → S → Prop}
    (hm : Meets P m Q E)
    (hh : ∀ e, Meets (E e) (h e) (fun _ => R (g e)) (fun _ => R (g e))) :
    Meets P (Session.onError m h g) Q R := by
  intro s hs
  have hms := hm s hs
  unfold Session.onError
  cases hr : m s with
  | mk r s' =>
    rw [hr] at hms
    cases r with
    | ok a => exact hms
    | error e =>
      have hhs := hh e s' hms
      show R (g e) (h e s').2
      cases hr' : h e s' with
      | mk r' s'' =>
        rw [hr'] at hhs
        cases r' with
        | ok u => exact hhs
        | error e' => exact hhs

theorem mapError {m : Run S ε α} {g : ε → ε'} {R : ε' → S → Prop} (hm : Meets P m Q E)
    (hR : ∀ e s, E e s → R (g e) s) : Meets P (Session.mapError g m) Q R :=
  hm.onError fun e => .pure () fun s hs => hR e s hs

theorem bestEffort {m : Run S ε α} {R : S → Prop} {E' : ε' → S → Prop}
    (hm : Meets P m (fun _ => R) (fun _ => R)) :
    Meets P (Session.bestEffort m) (fun _ => R) E' := by
  intro s hs
  have h := hm s hs
  show R (m s).2
  cases hr : m s with
  | mk r s' =>
    rw [hr] at h
    cases r with
    | ok a => exact h
    | error e => exact h

/-- A loop keeps its invariant when every round does. -/
theorem forM {β : Type} {f : β → Run S ε Unit} (l : List β)
    (h : ∀ b ∈ l, Meets P (f b) (fun _ => P) E) : Meets P (l.forM f) (fun _ => P) E := by
  induction l with
  | nil => exact .pure () fun _ hs => hs
  | cons b l ih =>
    obtain ⟨hb, hl⟩ := List.forall_mem_cons.mp h
    exact hb.bind fun _ => ih hl

/-- Split the precondition. -/
theorem or {m : Run S ε α} (h : Meets P m Q E) (h' : Meets P' m Q E) :
    Meets (fun s => P s ∨ P' s) m Q E := fun s hs => hs.elim (h s) (h' s)

end Meets

/-! ## Sessions -/

/-- What comes of a request: done or carried out before the connection broke, with the number
it reports. -/
inductive Reply
  | done (value : Option Int)
  | refused (error : String)
  | lostBefore
  | lostAfter (value : Option Int)

inductive Tx (D : Type)
  | idle
  | active (work : D)
  | aborted

/-- A connection to the durable data `D`. The replies are for the requests to come, and a
request beyond them is done. -/
structure Conn (D : Type) where
  durable : D
  tx : Tx D
  alive : Bool
  replies : List Reply

/-- A statement may depend on the number that it reports. -/
inductive Request (D : Type)
  | begin
  | commit
  | rollback
  | run (f : Option Int → D → Option D)

variable {D : Type}

/-- The data and the transaction after a request that is carried out. A statement that fails
has none. -/
def Request.effect (v : Option Int) : Request D → D → Tx D → Option (D × Tx D)
  | .begin, d, .idle => some (d, .active d)
  | .begin, d, .active w => some (d, .active w)
  | .begin, _, .aborted => none
  | .commit, d, .idle => some (d, .idle)
  | .commit, _, .active w => some (w, .idle)
  | .commit, d, .aborted => some (d, .idle)
  | .rollback, d, _ => some (d, .idle)
  | .run f, d, .idle => (f v d).map fun d' => (d', .idle)
  | .run f, d, .active w => (f v w).map fun w' => (d, .active w')
  | .run _, _, .aborted => none

/-- The transaction after a request that fails. -/
def Request.failed : Request D → Tx D → Tx D
  | .commit, _ => .idle
  | .run _, .active _ => .aborted
  | _, t => t

/-- A broken connection takes its transaction along. -/
def Conn.broken (c : Conn D) (d : D) : Conn D :=
  { c with durable := d, tx := .idle, alive := false }

def ask (r : Request D) : Run (Conn D) String (Option Int) := fun c =>
  if c.alive = false then (.error "connection closed", c.broken c.durable)
  else
    match c.replies with
    | .refused e :: rest => (.error e, { c with tx := r.failed c.tx, replies := rest })
    | .lostBefore :: rest => (.error "connection lost", ({ c with replies := rest }).broken c.durable)
    | .lostAfter v :: rest =>
        (.error "connection lost", ({ c with replies := rest }).broken
          ((r.effect v c.durable c.tx).elim c.durable Prod.fst))
    | .done v :: rest =>
        match r.effect v c.durable c.tx with
        | some (d, t) => (.ok v, { c with durable := d, tx := t, replies := rest })
        | none => (.error "statement failed", { c with tx := r.failed c.tx, replies := rest })
    | [] =>
        match r.effect none c.durable c.tx with
        | some (d, t) => (.ok none, { c with durable := d, tx := t })
        | none => (.error "statement failed", { c with tx := r.failed c.tx })

/-- **A request that succeeds** is carried out. -/
theorem ask_ok (r : Request D) (c c' : Conn D) (v : Option Int) (h : ask r c = (.ok v, c')) :
    r.effect v c.durable c.tx = some (c'.durable, c'.tx) := by
  unfold ask at h
  by_cases ha : c.alive = false
  · rw [if_pos ha] at h
    cases h
  · rw [if_neg ha] at h
    rcases hr : c.replies with _ | ⟨_ | _ | _ | _, rest⟩ <;> rw [hr] at h
    · show r.effect v c.durable c.tx = _
      cases he : r.effect none c.durable c.tx <;> simp only [he] at h <;> cases h
      exact he
    · rename_i v'
      cases he : r.effect v' c.durable c.tx <;> simp only [he] at h <;> cases h
      exact he
    all_goals cases h

/-- **A request that fails** leaves the data, or is carried out as the connection breaks. -/
theorem ask_error (r : Request D) (c c' : Conn D) (e : String) (h : ask r c = (.error e, c')) :
    (c'.durable = c.durable ∧ (c'.tx = r.failed c.tx ∨ c'.tx = .idle)) ∨
      (c'.alive = false ∧ c'.tx = .idle ∧
        ∃ v t, r.effect v c.durable c.tx = some (c'.durable, t)) := by
  unfold ask at h
  by_cases ha : c.alive = false
  · rw [if_pos ha] at h
    cases h
    exact .inl ⟨rfl, .inr rfl⟩
  · rw [if_neg ha] at h
    rcases hr : c.replies with _ | ⟨_ | _ | _ | _, rest⟩ <;> rw [hr] at h
    · cases he : r.effect none c.durable c.tx <;> simp only [he] at h <;> cases h
      exact .inl ⟨rfl, .inl rfl⟩
    · rename_i v'
      cases he : r.effect v' c.durable c.tx <;> simp only [he] at h <;> cases h
      exact .inl ⟨rfl, .inl rfl⟩
    · cases h
      exact .inl ⟨rfl, .inl rfl⟩
    · cases h
      exact .inl ⟨rfl, .inr rfl⟩
    · rename_i v'
      cases h
      cases he : r.effect v' c.durable c.tx with
      | none => exact .inl ⟨by simp [Conn.broken], .inr rfl⟩
      | some p => exact .inr ⟨rfl, rfl, v', p.2, by simp [Conn.broken, he]⟩

theorem ask_dead (r : Request D) (c : Conn D) (h : c.alive = false) :
    ask r c = (.error "connection closed", c.broken c.durable) := if_pos h

/-! ## Assertions -/

/-- Nothing is said of the transaction. -/
def Durable (P : D → Prop) (c : Conn D) : Prop := P c.durable

def Idle (P : D → Prop) (c : Conn D) : Prop := c.tx = .idle ∧ P c.durable

def Broken (P : D → Prop) (c : Conn D) : Prop := c.alive = false ∧ c.tx = .idle ∧ P c.durable

/-- In a transaction, with the durable data and the data at work. -/
def Within (W : D → D → Prop) (c : Conn D) : Prop := ∃ w, c.tx = .active w ∧ W c.durable w

variable {P Q : D → Prop} {W W' : D → D → Prop}

theorem Idle.durable {c : Conn D} (h : Idle P c) : Durable P c := h.2

theorem Broken.durable {c : Conn D} (h : Broken P c) : Durable P c := h.2.2

/-- What a triple says of the durable data when the run is over. -/
theorem Meets.durable {A : Conn D → Prop} {m : Run (Conn D) ε α} {R : α → Conn D → Prop}
    {E : ε → Conn D → Prop} (h : Meets A m R E) (hR : ∀ a c, R a c → Durable P c)
    (hE : ∀ e c, E e c → Durable P c) (c : Conn D) (hc : A c) : P (m c).2.durable := by
  have hm := h c hc
  cases hr : m c with
  | mk res c' =>
    rw [hr] at hm
    cases res with
    | ok a => exact hR a c' hm
    | error e => exact hE e c' hm

/-! ## Rules -/

theorem meets_ask {A : Conn D → Prop} {R : Option Int → Conn D → Prop} {E : Conn D → Prop}
    (r : Request D)
    (hok : ∀ c c' v, A c → r.effect v c.durable c.tx = some (c'.durable, c'.tx) → R v c')
    (hkeep : ∀ c c', A c → c'.durable = c.durable → c'.tx = r.failed c.tx ∨ c'.tx = .idle → E c')
    (hlost : ∀ c c' v t, A c → c'.alive = false → c'.tx = .idle →
      r.effect v c.durable c.tx = some (c'.durable, t) → E c') :
    Meets A (ask r) R fun _ => E := by
  intro c hc
  cases h : ask r c with
  | mk res c' =>
    cases res with
    | ok v => exact hok c c' v hc (ask_ok r c c' v h)
    | error e =>
      rcases ask_error r c c' e h with ⟨hd, ht⟩ | ⟨ha, ht, v, t, he⟩
      · exact hkeep c c' hc hd ht
      · exact hlost c c' v t hc ha ht he

/-- A statement on its own. -/
theorem meets_run {R : Option Int → D → Prop} (f : Option Int → D → Option D)
    (h : ∀ v d d', P d → f v d = some d' → R v d') :
    Meets (Idle P) (ask (.run f)) (fun v => Idle (R v))
      fun _ c => Idle P c ∨ Broken (fun d => ∃ v, R v d) c := by
  refine meets_ask _ (fun c c' v hc he => ?_) (fun c c' hc hd ht => ?_)
    fun c c' v t hc ha ht he => ?_
  · obtain ⟨hidle, hP⟩ := hc
    rw [hidle] at he
    obtain ⟨d', hd', heq⟩ := Option.map_eq_some_iff.mp he
    obtain ⟨hdur, htx⟩ := Prod.mk.inj heq
    exact ⟨htx.symm, hdur ▸ h v _ _ hP hd'⟩
  · obtain ⟨hidle, hP⟩ := hc
    rw [hidle] at ht
    exact .inl ⟨ht.elim id id, hd ▸ hP⟩
  · obtain ⟨hidle, hP⟩ := hc
    rw [hidle] at he
    obtain ⟨d', hd', heq⟩ := Option.map_eq_some_iff.mp he
    exact .inr ⟨ha, ht, v, (Prod.mk.inj heq).1 ▸ h v _ _ hP hd'⟩

/-- A statement, whatever the state of the transaction. -/
theorem meets_runAny (f : Option Int → D → Option D)
    (h : ∀ v d d', P d → f v d = some d' → P d') :
    Meets (Durable P) (ask (.run f)) (fun _ => Durable P) fun _ => Durable P := by
  have heffect : ∀ (c c' : Conn D) v t, Durable P c →
      (Request.run f).effect v c.durable c.tx = some (c'.durable, t) → Durable P c' := by
    intro c c' v t hc he
    cases ht : c.tx with
    | idle =>
      rw [ht] at he
      obtain ⟨d', hd', heq⟩ := Option.map_eq_some_iff.mp he
      exact show P c'.durable from (Prod.mk.inj heq).1 ▸ h v _ _ hc hd'
    | active w =>
      rw [ht] at he
      obtain ⟨w', -, heq⟩ := Option.map_eq_some_iff.mp he
      exact show P c'.durable from (Prod.mk.inj heq).1 ▸ hc
    | aborted =>
      rw [ht] at he
      cases he
  exact meets_ask _ (fun c c' v hc he => heffect c c' v _ hc he)
    (fun c c' hc hd _ => show P c'.durable from hd ▸ hc)
    fun c c' v t hc _ _ he => heffect c c' v t hc he

theorem meets_broken {A : Option Int → Conn D → Prop} (r : Request D) :
    Meets (Broken P) (ask r) A fun _ => Broken P := by
  intro c hc
  rw [ask_dead r c hc.1]
  exact ⟨rfl, rfl, hc.2.2⟩

theorem meets_begin : Meets (Idle P) (ask .begin)
    (fun _ => Within fun d w => P d ∧ w = d) fun _ => Idle P := by
  refine meets_ask _ (fun c c' v hc he => ?_) (fun c c' hc hd ht => ?_)
    fun c c' v t hc ha ht he => ?_
  · obtain ⟨hidle, hP⟩ := hc
    rw [hidle] at he
    obtain ⟨hdur, htx⟩ := Prod.mk.inj (Option.some.inj he)
    exact ⟨c.durable, htx.symm, hdur ▸ hP, hdur⟩
  · rw [hc.1] at ht
    exact ⟨ht.elim id id, hd ▸ hc.2⟩
  · rw [hc.1] at he
    exact ⟨ht, (Prod.mk.inj (Option.some.inj he)).1 ▸ hc.2⟩

/-- A statement of a transaction. -/
theorem meets_runWithin (f : Option Int → D → Option D)
    (h : ∀ v d w w', W d w → f v w = some w' → W' d w') (hP : ∀ d w, W d w → P d) :
    Meets (Within W) (ask (.run f)) (fun _ => Within W') fun _ => Durable P := by
  refine meets_ask _ (fun c c' v hc he => ?_) (fun c c' hc hd ht => ?_)
    fun c c' v t hc ha ht he => ?_
  · obtain ⟨w, hw, hW⟩ := hc
    rw [hw] at he
    obtain ⟨w', hw', heq⟩ := Option.map_eq_some_iff.mp he
    obtain ⟨hdur, htx⟩ := Prod.mk.inj heq
    exact ⟨w', htx.symm, hdur ▸ h v _ _ _ hW hw'⟩
  · obtain ⟨w, hw, hW⟩ := hc
    exact show P c'.durable from hd ▸ hP _ _ hW
  · obtain ⟨w, hw, hW⟩ := hc
    rw [hw] at he
    obtain ⟨w', -, heq⟩ := Option.map_eq_some_iff.mp he
    exact show P c'.durable from (Prod.mk.inj heq).1 ▸ hP _ _ hW

theorem meets_commit (hP : ∀ d w, W d w → P d) (hQ : ∀ d w, W d w → Q w) :
    Meets (Within W) (ask .commit) (fun _ => Idle Q) fun _ c => Idle P c ∨ Broken Q c := by
  refine meets_ask _ (fun c c' v hc he => ?_) (fun c c' hc hd ht => ?_)
    fun c c' v t hc ha ht he => ?_
  · obtain ⟨w, hw, hW⟩ := hc
    rw [hw] at he
    obtain ⟨hdur, htx⟩ := Prod.mk.inj (Option.some.inj he)
    exact ⟨htx.symm, hdur ▸ hQ _ _ hW⟩
  · obtain ⟨w, hw, hW⟩ := hc
    exact .inl ⟨ht.elim id id, hd ▸ hP _ _ hW⟩
  · obtain ⟨w, hw, hW⟩ := hc
    rw [hw] at he
    exact .inr ⟨ha, ht, (Prod.mk.inj (Option.some.inj he)).1 ▸ hQ _ _ hW⟩

theorem meets_rollback :
    Meets (Durable P) (ask .rollback) (fun _ => Idle P) fun _ => Durable P := by
  refine meets_ask _ (fun c c' v hc he => ?_) (fun c c' hc hd _ => ?_)
    fun c c' v t hc _ _ he => ?_
  · obtain ⟨hdur, htx⟩ := Prod.mk.inj (Option.some.inj he)
    exact ⟨htx.symm, hdur ▸ hc⟩
  · exact show P c'.durable from hd ▸ hc
  · exact show P c'.durable from (Prod.mk.inj (Option.some.inj he)).1 ▸ hc

end Session

import Mathlib.Data.List.Basic

/-!
# Transactions with savepoints

A transaction as its server sees it: a stack of levels, the writes made in each, and a setting
that is local to the transaction. A statement that fails aborts the transaction; from then on only
`ROLLBACK TO` and the end of the transaction are accepted, and `COMMIT` rolls back in silence.

* `execute`, `savepoint`, `rollbackTo`, `release`, `commit`: the statements;
* `Above`: what a client can make of a transaction while it leaves the levels below alone;
* `rollbackTo_above`, `release_above`: how such a client's level is ended.
-/

namespace Savepoints

variable {W S : Type}

/-- The transaction or a savepoint in it: the setting at its start, and the writes since. -/
structure Level (W S : Type) where
  name : Nat
  saved : S
  writes : List W
  deriving DecidableEq, Repr

/-- An open transaction. `top` is the innermost level; the outermost one is no savepoint. -/
structure Tx (W S : Type) where
  top : Level W S
  below : List (Level W S)
  setting : S
  aborted : Bool
  deriving DecidableEq, Repr

def Level.add (l : Level W S) (ws : List W) : Level W S := { l with writes := l.writes ++ ws }

/-- `BEGIN` -/
def Tx.begin (s : S) : Tx W S :=
  { top := { name := 0, saved := s, writes := [] }, below := [], setting := s, aborted := false }

def Tx.levels (t : Tx W S) : List (Level W S) := t.top :: t.below

/-! ## Statements -/

/-- A statement that does `f`, or fails. It is refused while the transaction is aborted. -/
def Tx.execute (fails : Bool) (f : Tx W S → Tx W S) (t : Tx W S) : Bool × Tx W S :=
  if t.aborted then (false, t)
  else if fails then (false, { t with aborted := true })
  else (true, f t)

def Tx.write (ws : List W) (t : Tx W S) : Tx W S := { t with top := t.top.add ws }

def Tx.set (s : S) (t : Tx W S) : Tx W S := { t with setting := s }

def Tx.push (n : Nat) (t : Tx W S) : Tx W S :=
  { t with top := { name := n, saved := t.setting, writes := [] }, below := t.top :: t.below }

/-- `SAVEPOINT n` -/
def Tx.savepoint (n : Nat) (t : Tx W S) : Bool × Tx W S := t.execute false (·.push n)

/-- The last savepoint of that name: the writes since, the setting then, and what is below it. -/
def since (n : Nat) : List (Level W S) → Option (List W × S × Level W S × List (Level W S))
  | [] => none
  | [_] => none
  | l :: p :: ls =>
    if l.name = n then some (l.writes, l.saved, p, ls)
    else (since n (p :: ls)).map fun (ws, rest) => (ws ++ l.writes, rest)

/-- `ROLLBACK TO SAVEPOINT n`; the savepoint stays. -/
def Tx.rollbackTo (n : Nat) (t : Tx W S) : Bool × Tx W S :=
  match since n t.levels with
  | none => (false, { t with aborted := true })
  | some (_, s, p, ls) =>
    (true, { top := { name := n, saved := s, writes := [] }, below := p :: ls, setting := s,
             aborted := false })

/-- `RELEASE SAVEPOINT n` -/
def Tx.release (n : Nat) (t : Tx W S) : Bool × Tx W S :=
  match since n t.levels with
  | none => t.execute true id
  | some (ws, _, p, ls) => t.execute false fun t => { t with top := p.add ws, below := ls }

/-- All writes, oldest first. -/
def Tx.written (t : Tx W S) : List W := t.levels.reverse.flatMap (·.writes)

/-- `COMMIT`: whether it reports success, and what it makes durable. -/
def Tx.commit (fails : Bool) (t : Tx W S) : Bool × List W :=
  if t.aborted then (true, [])
  else if fails then (false, [])
  else (true, t.written)

/-! ## Lemmas about levels -/

@[simp] theorem Level.add_name (l : Level W S) (ws : List W) : (l.add ws).name = l.name := rfl

@[simp] theorem Level.add_nil (l : Level W S) : l.add [] = l := by
  simp [Level.add]

@[simp] theorem Level.add_add (l : Level W S) (ws ws' : List W) :
    (l.add ws).add ws' = l.add (ws ++ ws') := by
  simp [Level.add]

@[simp] theorem begin_written (s : S) : (Tx.begin s : Tx W S).written = [] := rfl

theorem execute_of_aborted (t : Tx W S) (fails : Bool) (f : Tx W S → Tx W S)
    (h : t.aborted = true) : t.execute fails f = (false, t) := by
  simp [Tx.execute, h]

/-- The savepoint `n` is found under levels of other names. -/
theorem since_append (n : Nat) (s : S) (ws : List W) (p : Level W S)
    (ls junk : List (Level W S)) (h : ∀ l ∈ junk, l.name ≠ n) :
    since n (junk ++ { name := n, saved := s, writes := ws } :: p :: ls) =
      some (ws ++ junk.reverse.flatMap (·.writes), s, p, ls) := by
  induction junk with
  | nil => simp [since]
  | cons j junk ih =>
    have hj : j.name ≠ n := h j (by simp)
    have ih := ih fun l hl => h l (by simp [hl])
    cases junk with
    | nil => simp [since, hj]
    | cons k junk =>
      simp only [List.cons_append] at ih ⊢
      simp [since, hj, ih]

/-! ## Clients that stay above a level -/

/-- `t'` is `t` with more writes in its top level and further levels on it, whose names are above
`n`. -/
def Above (n : Nat) (t t' : Tx W S) : Prop :=
  ∃ ws junk, t'.levels = junk ++ t.top.add ws :: t.below ∧ ∀ l ∈ junk, n < l.name

/-- The writes `ws` are all that happened to the levels. -/
structure Wrote (ws : List W) (t t' : Tx W S) : Prop where
  top : t'.top = t.top.add ws
  below : t'.below = t.below

theorem Above.refl (n : Nat) (t : Tx W S) : Above n t t := ⟨[], [], by simp [Tx.levels], by simp⟩

theorem Wrote.refl (t : Tx W S) : Wrote [] t t := ⟨by simp, rfl⟩

theorem Wrote.trans {ws ws' : List W} {t t' t'' : Tx W S} (h : Wrote ws t t')
    (h' : Wrote ws' t' t'') : Wrote (ws ++ ws') t t'' where
  top := by rw [h'.top, h.top, Level.add_add]
  below := by rw [h'.below, h.below]

theorem Wrote.above {ws : List W} {t t' : Tx W S} (h : Wrote ws t t') (n : Nat) :
    Above n t t' := ⟨ws, [], by simp [Tx.levels, h.top, h.below], by simp⟩

theorem Above.trans {n : Nat} {t t' t'' : Tx W S} (h : Above n t t') (h' : Above n t' t'') :
    Above n t t'' := by
  obtain ⟨ws, junk, hl, hn⟩ := h
  obtain ⟨ws', junk', hl', hn'⟩ := h'
  cases junk with
  | nil =>
    simp only [Tx.levels, List.nil_append, List.cons.injEq] at hl
    refine ⟨ws ++ ws', junk', ?_, hn'⟩
    rw [hl', hl.1, hl.2, Level.add_add]
  | cons j junk =>
    simp only [Tx.levels, List.cons_append, List.cons.injEq] at hl
    refine ⟨ws, junk' ++ t'.top.add ws' :: junk, ?_, ?_⟩
    · rw [hl', hl.2]
      simp
    · intro l hmem
      simp only [List.mem_append, List.mem_cons] at hmem
      rcases hmem with hmem | rfl | hmem
      · exact hn' l hmem
      · rw [Level.add_name, hl.1]
        exact hn j (by simp)
      · exact hn l (by simp [hmem])

/-- The frame rule of a statement that touches no level. -/
theorem Above.of_levels {n : Nat} {t t' : Tx W S} (h : t'.levels = t.levels) : Above n t t' :=
  ⟨[], [], by simpa [Tx.levels] using h, by simp⟩

theorem push_above (n : Nat) (t : Tx W S) : Above n t (t.push (n + 1)) :=
  ⟨[], [{ name := n + 1, saved := t.setting, writes := [] }], by simp [Tx.levels, Tx.push],
    by simp⟩

/-- A client of the savepoint `n + 1` is one of the level below. -/
theorem above_of_push {n : Nat} {t t' : Tx W S} (h : Above (n + 1) (t.push (n + 1)) t') :
    Above n t t' := by
  obtain ⟨ws, junk, hl, hn⟩ := h
  refine ⟨[], junk ++ [(t.push (n + 1)).top.add ws], ?_, ?_⟩
  · rw [hl]
    simp [Tx.push]
  · intro l hmem
    simp only [List.mem_append, List.mem_singleton] at hmem
    rcases hmem with hmem | rfl
    · have := hn l hmem
      omega
    · simp [Tx.push]

/-- Under a client of the savepoint `n + 1` the savepoint is still there. -/
theorem since_above {n : Nat} {t t' : Tx W S} (h : Above (n + 1) (t.push (n + 1)) t') :
    ∃ ws, since (n + 1) t'.levels = some (ws, t.setting, t.top, t.below) := by
  obtain ⟨ws, junk, hl, hn⟩ := h
  have hne : ∀ l ∈ junk, l.name ≠ n + 1 := fun l hl => by
    have := hn l hl
    omega
  refine ⟨ws ++ junk.reverse.flatMap (·.writes), ?_⟩
  rw [hl]
  exact since_append (n + 1) t.setting ws t.top t.below junk hne

/-- **Undone.** `ROLLBACK TO` leaves an empty level where the client's was, and the setting as it
was. -/
theorem rollbackTo_above {n : Nat} {t t' : Tx W S} (h : Above (n + 1) (t.push (n + 1)) t') :
    t'.rollbackTo (n + 1) = (true, { t.push (n + 1) with aborted := false }) := by
  obtain ⟨ws, hs⟩ := since_above h
  simp [Tx.rollbackTo, hs, Tx.push]

/-- After `ROLLBACK TO` the savepoint can be released, and nothing is left of it. -/
theorem release_push (n : Nat) (t : Tx W S) :
    ({ t.push n with aborted := false } : Tx W S).release n =
      (true, { t with aborted := false }) := by
  simp [Tx.release, Tx.levels, Tx.push, since, Tx.execute]

theorem release_of_aborted {n : Nat} {t : Tx W S} (h : t.aborted = true) :
    t.release n = (false, t) := by
  unfold Tx.release
  split <;> exact execute_of_aborted t _ _ h

theorem release_setting (n : Nat) (t : Tx W S) : (t.release n).2.setting = t.setting := by
  unfold Tx.release
  split
  · unfold Tx.execute
    split <;> rfl
  · unfold Tx.execute
    split <;> rfl

/-- `RELEASE` succeeds and stays above the level below. -/
theorem release_above {n : Nat} {t t' : Tx W S} (h : Above (n + 1) (t.push (n + 1)) t')
    (ha : t'.aborted = false) :
    (t'.release (n + 1)).1 = true ∧ Above n t (t'.release (n + 1)).2 := by
  obtain ⟨ws, hs⟩ := since_above h
  have hr : t'.release (n + 1) = (true, { t' with top := t.top.add ws, below := t.below }) := by
    simp [Tx.release, hs, Tx.execute, ha]
  rw [hr]
  exact ⟨rfl, ws, [], by simp [Tx.levels], by simp⟩

theorem release_keeps_above {n : Nat} {t t' : Tx W S}
    (h : Above (n + 1) (t.push (n + 1)) t') : Above n t (t'.release (n + 1)).2 := by
  cases ha : t'.aborted with
  | true =>
    rw [release_of_aborted ha]
    exact above_of_push h
  | false => exact (release_above h ha).2

/-- **Kept.** A client that only wrote hands its writes down. -/
theorem release_wrote {n : Nat} {t t' : Tx W S} {ws : List W} (h : Wrote ws (t.push n) t')
    (ha : t'.aborted = false) : Wrote ws t (t'.release n).2 := by
  have hl : t'.levels = (t.push n).top.add ws :: t.top :: t.below := by
    rw [Tx.levels, h.top, h.below]
    rfl
  have hr : (t'.release n).2 = { t' with top := t.top.add ws, below := t.below } := by
    simp [Tx.release, hl, since, Level.add, Tx.push, Tx.execute, ha]
  rw [hr]
  exact ⟨rfl, rfl⟩

end Savepoints

import Mathlib.Data.List.Basic

/-!
# Kleene's three-valued logic over formulas

A truth value is `some true`, `some false` or `none`, the unknown. `Formula α` has
conjunctions and disjunctions of any length. The file compares the two-valued meaning of a
formula with the three-valued one in which some atoms are unknown.

* `Formula.eval3_eq`: the three-valued meaning is unknown exactly where the formula is open,
  and the two-valued meaning elsewhere.
* `Formula.eval3_true_iff`: where the two meanings agree on truth.
* `Formula.eval_of_open_of_positive`: an open formula without unknown atoms under a negation
  is false.
-/

namespace Kleene

/-! ## Connectives -/

def neg : Option Bool → Option Bool
  | some b => some (!b)
  | none => none

def and : Option Bool → Option Bool → Option Bool
  | some false, _ => some false
  | _, some false => some false
  | some true, some true => some true
  | _, _ => none

def or : Option Bool → Option Bool → Option Bool
  | some true, _ => some true
  | _, some true => some true
  | some false, some false => some false
  | _, _ => none

def xor : Option Bool → Option Bool → Option Bool
  | some a, some b => some (a != b)
  | _, _ => none

@[simp] theorem and_true (a : Option Bool) : and a (some true) = a := by
  cases a with
  | none => rfl
  | some b => cases b <;> rfl

@[simp] theorem or_false (a : Option Bool) : or a (some false) = a := by
  cases a with
  | none => rfl
  | some b => cases b <;> rfl

@[simp] theorem true_and (a : Option Bool) : and (some true) a = a := by
  cases a with
  | none => rfl
  | some b => cases b <;> rfl

@[simp] theorem false_or (a : Option Bool) : or (some false) a = a := by
  cases a with
  | none => rfl
  | some b => cases b <;> rfl

/-- Exclusive or through the other connectives. -/
theorem xor_eq (a b : Option Bool) : or (and (neg a) b) (and a (neg b)) = xor a b := by
  cases a with
  | none =>
    cases b with
    | none => rfl
    | some b => cases b <;> rfl
  | some a =>
    cases b with
    | none => cases a <;> rfl
    | some b => cases a <;> cases b <;> rfl

/-! ## Formulas -/

inductive Formula (α : Type) where
  | verum
  | falsum
  | atom (a : α)
  | conj (parts : List (Formula α))
  | disj (parts : List (Formula α))
  | neg (inner : Formula α)
  | xor (left right : Formula α)

namespace Formula

variable {α : Type}

/-- Induction over a formula with the parts of a connective taken as members of a list. -/
@[induction_eliminator, elab_as_elim]
theorem inductOn {motive : Formula α → Prop} (φ : Formula α) (verum : motive .verum)
    (falsum : motive .falsum) (atom : ∀ a, motive (.atom a))
    (conj : ∀ ps, (∀ p ∈ ps, motive p) → motive (.conj ps))
    (disj : ∀ ps, (∀ p ∈ ps, motive p) → motive (.disj ps))
    (neg : ∀ p, motive p → motive (.neg p))
    (xor : ∀ p q, motive p → motive q → motive (.xor p q)) : motive φ :=
  Formula.rec (motive_1 := motive) (motive_2 := fun ps => ∀ p ∈ ps, motive p) verum falsum atom
    conj disj neg xor (by simp) (fun _ _ hp hps => List.forall_mem_cons.mpr ⟨hp, hps⟩) φ

mutual
/-- The two-valued meaning. -/
def eval (v : α → Bool) : Formula α → Bool
  | .verum => true
  | .falsum => false
  | .atom a => v a
  | .conj ps => evalAll v ps
  | .disj ps => evalAny v ps
  | .neg p => !eval v p
  | .xor p q => eval v p != eval v q
def evalAll (v : α → Bool) : List (Formula α) → Bool
  | [] => true
  | p :: ps => eval v p && evalAll v ps
def evalAny (v : α → Bool) : List (Formula α) → Bool
  | [] => false
  | p :: ps => eval v p || evalAny v ps
end

mutual
/-- The three-valued meaning. -/
def eval3 (v : α → Option Bool) : Formula α → Option Bool
  | .verum => some true
  | .falsum => some false
  | .atom a => v a
  | .conj ps => evalAll3 v ps
  | .disj ps => evalAny3 v ps
  | .neg p => Kleene.neg (eval3 v p)
  | .xor p q => Kleene.xor (eval3 v p) (eval3 v q)
def evalAll3 (v : α → Option Bool) : List (Formula α) → Option Bool
  | [] => some true
  | p :: ps => and (eval3 v p) (evalAll3 v ps)
def evalAny3 (v : α → Option Bool) : List (Formula α) → Option Bool
  | [] => some false
  | p :: ps => or (eval3 v p) (evalAny3 v ps)
end

theorem evalAll_eq (v : α → Bool) (ps : List (Formula α)) : evalAll v ps = ps.all (eval v) := by
  induction ps with
  | nil => rfl
  | cons p ps ih => rw [evalAll, ih, List.all_cons]

theorem evalAny_eq (v : α → Bool) (ps : List (Formula α)) : evalAny v ps = ps.any (eval v) := by
  induction ps with
  | nil => rfl
  | cons p ps ih => rw [evalAny, ih, List.any_cons]

mutual
/-- **Open formulas.** A formula is open when its unknown atoms leave it undecided: an open
conjunction has no part that is false, an open disjunction none that is true. -/
def isOpen (unknown v : α → Bool) : Formula α → Bool
  | .verum => false
  | .falsum => false
  | .atom a => unknown a
  | .conj ps => anyOpen unknown v ps && allOpenOr unknown v true ps
  | .disj ps => anyOpen unknown v ps && allOpenOr unknown v false ps
  | .neg p => isOpen unknown v p
  | .xor p q => isOpen unknown v p || isOpen unknown v q
def anyOpen (unknown v : α → Bool) : List (Formula α) → Bool
  | [] => false
  | p :: ps => isOpen unknown v p || anyOpen unknown v ps
def allOpenOr (unknown v : α → Bool) (b : Bool) : List (Formula α) → Bool
  | [] => true
  | p :: ps => (isOpen unknown v p || eval v p == b) && allOpenOr unknown v b ps
end

theorem anyOpen_eq (u v : α → Bool) (ps : List (Formula α)) :
    anyOpen u v ps = ps.any (isOpen u v) := by
  induction ps with
  | nil => rfl
  | cons p ps ih => rw [anyOpen, ih, List.any_cons]

theorem allOpenOr_eq (u v : α → Bool) (b : Bool) (ps : List (Formula α)) :
    allOpenOr u v b ps = ps.all (fun p => isOpen u v p || eval v p == b) := by
  induction ps with
  | nil => rfl
  | cons p ps ih => rw [allOpenOr, ih, List.all_cons]

/-! ## The two meanings compared -/

/-- What a formula with unknown atoms means. -/
def known (u v : α → Bool) (φ : Formula α) : Option Bool :=
  if φ.isOpen u v then none else some (φ.eval v)

/-- One part added to a conjunction: `O`, `C` and `B` say that some other part is open, that
none of them is false and that all of them are true. -/
private theorem and_step (o b O C B : Bool) (hB : B = true → C = true) (hO : O = false → C = B) :
    and (if o then none else some b) (if O && C then none else some B) =
      if (o || O) && ((o || b == true) && C) then none else some (b && B) := by
  revert o b O C B
  decide

private theorem or_step (o b O C B : Bool) (hB : B = false → C = true) (hO : O = false → C = !B) :
    or (if o then none else some b) (if O && C then none else some B) =
      if (o || O) && ((o || b == false) && C) then none else some (b || B) := by
  revert o b O C B
  decide

private theorem allOpenOr_true_of_all (u v : α → Bool) (ps : List (Formula α))
    (h : evalAll v ps = true) : allOpenOr u v true ps = true := by
  rw [evalAll_eq, List.all_eq_true] at h
  rw [allOpenOr_eq, List.all_eq_true]
  intro p hp
  simp [h p hp]

private theorem allOpenOr_false_of_not_any (u v : α → Bool) (ps : List (Formula α))
    (h : evalAny v ps = false) : allOpenOr u v false ps = true := by
  rw [evalAny_eq, List.any_eq_false] at h
  rw [allOpenOr_eq, List.all_eq_true]
  intro p hp
  simp [h p hp]

private theorem allOpenOr_of_not_anyOpen (u v : α → Bool) (b : Bool) (ps : List (Formula α))
    (h : anyOpen u v ps = false) : allOpenOr u v b ps = ps.all (fun p => eval v p == b) := by
  rw [anyOpen_eq, List.any_eq_false] at h
  rw [allOpenOr_eq]
  induction ps with
  | nil => rfl
  | cons p ps ih =>
    have hp : isOpen u v p = false := by simpa using h p (by simp)
    rw [List.all_cons, List.all_cons, ih (fun q hq => h q (by simp [hq])), hp, Bool.false_or]

private theorem evalAll3_known (u v : α → Bool) (v3 : α → Option Bool) (ps : List (Formula α))
    (h : ∀ p ∈ ps, eval3 v3 p = known u v p) : evalAll3 v3 ps = known u v (.conj ps) := by
  induction ps with
  | nil => rfl
  | cons p ps ih =>
    have hO (ho : anyOpen u v ps = false) : allOpenOr u v true ps = evalAll v ps := by
      rw [allOpenOr_of_not_anyOpen u v true ps ho, evalAll_eq]
      simp
    rw [evalAll3, h p (by simp), ih (fun q hq => h q (by simp [hq]))]
    exact and_step _ _ _ _ _ (allOpenOr_true_of_all u v ps) hO

private theorem evalAny3_known (u v : α → Bool) (v3 : α → Option Bool) (ps : List (Formula α))
    (h : ∀ p ∈ ps, eval3 v3 p = known u v p) : evalAny3 v3 ps = known u v (.disj ps) := by
  induction ps with
  | nil => rfl
  | cons p ps ih =>
    have hO (ho : anyOpen u v ps = false) : allOpenOr u v false ps = !evalAny v ps := by
      rw [allOpenOr_of_not_anyOpen u v false ps ho, evalAny_eq]
      simp [List.not_any_eq_all_not]
    rw [evalAny3, h p (by simp), ih (fun q hq => h q (by simp [hq]))]
    exact or_step _ _ _ _ _ (allOpenOr_false_of_not_any u v ps) hO

/-- **The three-valued meaning.** Unknown on open formulas, the two-valued meaning on all
others. -/
theorem eval3_eq (u v : α → Bool) (v3 : α → Option Bool)
    (h : ∀ a, v3 a = if u a then none else some (v a)) (φ : Formula α) :
    φ.eval3 v3 = known u v φ := by
  induction φ with
  | verum => rfl
  | falsum => rfl
  | atom a => exact h a
  | conj ps ih => exact evalAll3_known u v v3 ps ih
  | disj ps ih => exact evalAny3_known u v v3 ps ih
  | neg p ih =>
    rw [eval3, ih]
    unfold known
    rw [isOpen, eval]
    cases p.isOpen u v <;> rfl
  | xor p q ihp ihq =>
    rw [eval3, ihp, ihq]
    unfold known
    rw [isOpen, eval]
    cases p.isOpen u v <;> cases q.isOpen u v <;> rfl

/-- The two meanings agree on truth unless the formula is open and true. -/
theorem eval3_true_iff (u v : α → Bool) (v3 : α → Option Bool)
    (h : ∀ a, v3 a = if u a then none else some (v a)) (φ : Formula α) :
    (φ.eval3 v3 = some true ↔ φ.eval v = true) ↔ ¬(φ.isOpen u v = true ∧ φ.eval v = true) := by
  rw [eval3_eq u v v3 h φ, known]
  cases φ.isOpen u v <;> cases φ.eval v <;> simp

/-! ## Polarity -/

/-- No unknown atom stands under an odd number of negations (for `b = true`; an even number
for `b = false`) or in an exclusive or. -/
def Positive (u : α → Bool) : Bool → Formula α → Prop
  | _, .verum => True
  | _, .falsum => True
  | b, .atom a => u a = true → b = true
  | b, .conj ps => ∀ p ∈ ps, Positive u b p
  | b, .disj ps => ∀ p ∈ ps, Positive u b p
  | b, .neg p => Positive u (!b) p
  | _, .xor p q =>
    (Positive u true p ∧ Positive u false p) ∧ Positive u true q ∧ Positive u false q

theorem Positive.mono {u u' : α → Bool} (h : ∀ a, u' a = true → u a = true) (φ : Formula α) :
    ∀ b, Positive u b φ → Positive u' b φ := by
  induction φ with
  | verum => simp [Positive]
  | falsum => simp [Positive]
  | atom a =>
    intro b hb
    rw [Positive] at hb ⊢
    exact fun ha => hb (h a ha)
  | conj ps ih =>
    intro b hb
    rw [Positive] at hb ⊢
    exact fun p hp => ih p hp b (hb p hp)
  | disj ps ih =>
    intro b hb
    rw [Positive] at hb ⊢
    exact fun p hp => ih p hp b (hb p hp)
  | neg p ih =>
    intro b hb
    rw [Positive] at hb ⊢
    exact ih (!b) hb
  | xor p q ihp ihq =>
    intro b hb
    rw [Positive] at hb ⊢
    exact ⟨⟨ihp true hb.1.1, ihp false hb.1.2⟩, ihq true hb.2.1, ihq false hb.2.2⟩

/-- With every unknown atom false, an open formula is false where unknown atoms stand under
no negation, and true where they stand only under one. -/
theorem eval_of_open_of_positive (u v : α → Bool) (h : ∀ a, u a = true → v a = false)
    (φ : Formula α) : ∀ b, Positive u b φ → φ.isOpen u v = true → φ.eval v = !b := by
  induction φ with
  | verum => simp [isOpen]
  | falsum => simp [isOpen]
  | atom a =>
    intro b hb ho
    rw [Positive] at hb
    rw [eval, h a ho, hb ho]
    rfl
  | conj ps ih =>
    intro b hb ho
    rw [Positive] at hb
    rw [isOpen, anyOpen_eq, allOpenOr_eq, Bool.and_eq_true, List.any_eq_true, List.all_eq_true]
      at ho
    obtain ⟨⟨p, hp, hpo⟩, hall⟩ := ho
    rw [eval, evalAll_eq]
    cases b with
    | true => exact List.all_eq_false.mpr ⟨p, hp, by simp [ih p hp true (hb p hp) hpo]⟩
    | false =>
      refine List.all_eq_true.mpr fun q hq => ?_
      cases hqo : q.isOpen u v with
      | true => exact ih q hq false (hb q hq) hqo
      | false => simpa [hqo] using hall q hq
  | disj ps ih =>
    intro b hb ho
    rw [Positive] at hb
    rw [isOpen, anyOpen_eq, allOpenOr_eq, Bool.and_eq_true, List.any_eq_true, List.all_eq_true]
      at ho
    obtain ⟨⟨p, hp, hpo⟩, hall⟩ := ho
    rw [eval, evalAny_eq]
    cases b with
    | true =>
      refine List.any_eq_false.mpr fun q hq => ?_
      cases hqo : q.isOpen u v with
      | true => simp [ih q hq true (hb q hq) hqo]
      | false => simpa [hqo] using hall q hq
    | false => exact List.any_eq_true.mpr ⟨p, hp, ih p hp false (hb p hp) hpo⟩
  | neg p ih =>
    intro b hb ho
    rw [Positive] at hb
    rw [eval, ih (!b) hb ho]
    cases b <;> rfl
  | xor p q ihp ihq =>
    intro b hb ho
    rw [Positive] at hb
    obtain ⟨⟨hpt, hpf⟩, hqt, hqf⟩ := hb
    rw [isOpen, Bool.or_eq_true] at ho
    rcases ho with ho | ho
    · have ht := ihp true hpt ho
      rw [ihp false hpf ho] at ht
      cases ht
    · have ht := ihq true hqt ho
      rw [ihq false hqf ho] at ht
      cases ht

end Formula

end Kleene

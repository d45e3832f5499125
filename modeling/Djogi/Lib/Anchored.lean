import Mathlib.Data.List.Nodup

/-!
# Anchored insertion

Insertion of a new element next to an element already in the list, or at the end.
An insertion fails when its anchor is absent or the new element is present.

* `insertBefore_append`, `insertAfter_append`: insertion at a known split;
* `eq_reverse_iff_of_nodup`: only lists of at most one element read the same both ways.
-/

namespace Anchored

variable {α : Type} [DecidableEq α]

/-- Where a new element goes. -/
inductive Place (α : Type)
  | before (a : α)
  | after (a : α)
  | last
  deriving DecidableEq, Repr

def insertBefore (a x : α) : List α → Option (List α)
  | [] => none
  | b :: l => if b = a then some (x :: b :: l) else (insertBefore a x l).map (b :: ·)

def insertAfter (a x : α) : List α → Option (List α)
  | [] => none
  | b :: l => if b = a then some (b :: x :: l) else (insertAfter a x l).map (b :: ·)

def insertAt (x : α) (l : List α) : Place α → Option (List α)
  | .before a => if x ∈ l then none else insertBefore a x l
  | .after a => if x ∈ l then none else insertAfter a x l
  | .last => if x ∈ l then none else some (l ++ [x])

/-- Insert one after the other; the first failure ends the run. -/
def run (steps : List (α × Place α)) (l : List α) : Option (List α) :=
  steps.foldlM (fun l e => insertAt e.1 l e.2) l

@[simp] theorem run_nil (l : List α) : run [] l = some l := rfl

theorem run_cons (e : α × Place α) (steps : List (α × Place α)) (l : List α) :
    run (e :: steps) l = (insertAt e.1 l e.2).bind (run steps) := rfl

theorem insertBefore_append (a x : α) (p s : List α) (h : a ∉ p) :
    insertBefore a x (p ++ a :: s) = some (p ++ x :: a :: s) := by
  induction p with
  | nil => simp [insertBefore]
  | cons b p ih =>
      obtain ⟨hb, hp⟩ : b ≠ a ∧ a ∉ p := by
        simpa [eq_comm, not_or] using h
      simp [insertBefore, hb, ih hp]

theorem insertAfter_append (a x : α) (p s : List α) (h : a ∉ p) :
    insertAfter a x (p ++ a :: s) = some (p ++ a :: x :: s) := by
  induction p with
  | nil => simp [insertAfter]
  | cons b p ih =>
      obtain ⟨hb, hp⟩ : b ≠ a ∧ a ∉ p := by
        simpa [eq_comm, not_or] using h
      simp [insertAfter, hb, ih hp]

omit [DecidableEq α] in
theorem eq_reverse_iff_of_nodup (l : List α) (h : l.Nodup) :
    l.reverse = l ↔ l.length ≤ 1 := by
  constructor
  · intro hr
    rcases l with _ | ⟨a, l⟩
    · simp
    · rcases List.eq_nil_or_concat l with rfl | ⟨m, b, rfl⟩
      · simp
      · have hab : b = a := by simpa using congrArg List.head? hr
        simp [hab] at h
  · intro hl
    rcases l with _ | ⟨a, _ | ⟨b, l⟩⟩
    · rfl
    · rfl
    · simp at hl

end Anchored

import Mathlib.Data.List.Basic
import Mathlib.Data.List.Infix

/-!
# Scanners

A scanner takes one piece after another off the head of a text: a comment, a constant, a word, a
character. Statements are what stands between the pieces that are a semicolon.

* `flatten_cut`: the pieces together are the text;
* `statements_append`: pieces without a semicolon stand in front of the first statement.
-/

structure Scanner where
  /-- What is left after the first piece. -/
  rest : List Char → List Char
  shorter : ∀ c s, rest (c :: s) <:+ s

namespace Scanner

variable (sc : Scanner)

def piece (s : List Char) : List Char := s.take (s.length - (sc.rest s).length)

theorem piece_append_rest (c : Char) (s : List Char) :
    sc.piece (c :: s) ++ sc.rest (c :: s) = c :: s := by
  obtain ⟨t, ht⟩ := sc.shorter c s
  have hlen : (c :: s).length - (sc.rest (c :: s)).length = (c :: t).length := by
    have h := congrArg List.length ht
    simp only [List.length_append] at h
    simp only [List.length_cons]
    omega
  have hs : c :: s = (c :: t) ++ sc.rest (c :: s) := by
    rw [List.cons_append, ht]
  have htake : (c :: s).take (c :: t).length = c :: t := by
    conv_lhs => rw [hs]
    exact List.take_left
  rw [piece, hlen, htake, ← hs]

/-- A piece from what it leaves. -/
theorem piece_eq (s t r : List Char) (h : sc.rest s = r) (hs : s = t ++ r) : sc.piece s = t := by
  subst hs
  rw [piece, h]
  simp

theorem length_rest_lt (c : Char) (s : List Char) : (sc.rest (c :: s)).length < (c :: s).length :=
  Nat.lt_succ_of_le (sc.shorter c s).length_le

/-! ## Places -/

def placesFrom : ℕ → List Char → List (List Char)
  | 0, _ => []
  | _ + 1, [] => []
  | n + 1, c :: s => (c :: s) :: placesFrom n (sc.rest (c :: s))

/-- The text from the start of each piece on. -/
def places (s : List Char) : List (List Char) := sc.placesFrom s.length s

theorem placesFrom_eq (n : ℕ) (s : List Char) (h : s.length ≤ n) :
    sc.placesFrom n s = sc.places s := by
  induction n using Nat.strong_induction_on generalizing s with
  | _ n ih =>
    cases s with
    | nil => cases n <;> rfl
    | cons c s =>
      obtain ⟨m, rfl⟩ : ∃ m, n = m + 1 := ⟨n - 1, by simp only [List.length_cons] at h; omega⟩
      have hlt := sc.length_rest_lt c s
      simp only [List.length_cons] at h hlt
      rw [places, List.length_cons, placesFrom, placesFrom, ih m (by omega) _ (by omega)]
      by_cases hm : s.length < m + 1
      · rw [ih s.length hm _ (by omega)]
      · omega

@[simp]
theorem places_nil : sc.places [] = [] := rfl

theorem places_cons (c : Char) (s : List Char) :
    sc.places (c :: s) = (c :: s) :: sc.places (sc.rest (c :: s)) := by
  have hlt := sc.length_rest_lt c s
  simp only [List.length_cons] at hlt
  rw [places, List.length_cons, placesFrom, placesFrom_eq _ _ _ (by omega)]

/-- Induction along the places of a text. -/
theorem places_induction (P : List Char → Prop) (hnil : P [])
    (hcons : ∀ c s, P (sc.rest (c :: s)) → P (c :: s)) (s : List Char) : P s := by
  induction hn : s.length using Nat.strong_induction_on generalizing s with
  | _ n ih =>
    cases s with
    | nil => exact hnil
    | cons c s =>
      have hlt := sc.length_rest_lt c s
      exact hcons c s (ih _ (hn ▸ hlt) _ rfl)

/-! ## Pieces -/

def cut (s : List Char) : List (List Char) := (sc.places s).map sc.piece

@[simp]
theorem cut_nil : sc.cut [] = [] := rfl

theorem cut_cons (c : Char) (s : List Char) :
    sc.cut (c :: s) = sc.piece (c :: s) :: sc.cut (sc.rest (c :: s)) := by
  rw [cut, places_cons]
  rfl

/-- **The pieces together** are the text. -/
theorem flatten_cut (s : List Char) : (sc.cut s).flatten = s := by
  induction s using sc.places_induction with
  | hnil => rfl
  | hcons c s ih => rw [cut_cons, List.flatten_cons, ih, piece_append_rest]

/-! ## Statements -/

def semicolon : List Char := [';']

/-- The pieces of each statement. -/
def statements (pieces : List (List Char)) : List (List (List Char)) :=
  pieces.splitOnP (· = semicolon)

theorem statements_semicolon (pieces : List (List Char)) :
    statements (semicolon :: pieces) = [] :: statements pieces := by
  simp [statements, List.splitOnP_cons_eq_if_modifyHead]

theorem statements_cons (p : List Char) (pieces : List (List Char)) (hp : p ≠ semicolon) :
    statements (p :: pieces) = (statements pieces).modifyHead (p :: ·) := by
  simp [statements, List.splitOnP_cons_eq_if_modifyHead, hp]

theorem statements_append (ps pieces : List (List Char)) (hps : semicolon ∉ ps) :
    statements (ps ++ pieces) = (statements pieces).modifyHead (ps ++ ·) := by
  induction ps with
  | nil =>
    rw [List.nil_append]
    cases statements pieces <;> rfl
  | cons p ps ih =>
    have hp : p ≠ semicolon := fun h => hps (h ▸ List.mem_cons_self)
    rw [List.cons_append, statements_cons _ _ hp, ih fun h => hps (List.mem_cons_of_mem _ h),
      List.modifyHead_modifyHead]
    rfl

end Scanner

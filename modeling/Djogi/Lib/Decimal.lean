import Mathlib.Data.List.Lex
import Mathlib.Data.Nat.Digits.Lemmas
import Mathlib.Tactic.Ring

/-!
# Decimal digits

Texts of natural numbers, with and without leading zeros, and how these texts compare.

* `natText_length_le`: the length of a number's text;
* `pad_eq`: a padded number is its last digits;
* `lastDigits_lt_iff`: texts of one width compare as their numbers.
-/

namespace Decimal

def natText (n : ℕ) : List Char :=
  if n = 0 then ['0'] else (Nat.digits 10 n).reverse.map Nat.digitChar

/-- The last digits of a number, with leading zeros. -/
def lastDigits : ℕ → ℕ → List Char
  | 0, _ => []
  | width + 1, n => lastDigits width (n / 10) ++ [Nat.digitChar (n % 10)]

theorem natText_length_le (n j : ℕ) (hj : 0 < j) : (natText n).length ≤ j ↔ n < 10 ^ j := by
  unfold natText
  split
  · rename_i hzero
    simp [hzero, Nat.one_le_iff_ne_zero, hj.ne']
  · rw [List.length_map, List.length_reverse]
    exact Nat.digits_length_le_iff (by omega) n

theorem natText_length_pos (n : ℕ) : 0 < (natText n).length := by
  unfold natText
  split
  · simp
  · rename_i hpos
    simpa [List.length_pos_iff, Nat.digits_ne_nil_iff_ne_zero] using hpos

theorem lastDigits_length (width n : ℕ) : (lastDigits width n).length = width := by
  induction width generalizing n with
  | zero => rfl
  | succ width ih => simp [lastDigits, ih]

/-! ## Padding -/

/-- Zeros up to a width, as a format string writes them. -/
def pad (width n : ℕ) : List Char :=
  List.replicate (width - (natText n).length) '0' ++ natText n

theorem natText_step (n : ℕ) (h : 10 ≤ n) :
    natText n = natText (n / 10) ++ [Nat.digitChar (n % 10)] := by
  have hdiv : n / 10 ≠ 0 := by omega
  rw [natText, if_neg (by omega), natText, if_neg hdiv, Nat.digits_def' (by omega) (by omega)]
  simp

theorem natText_digit (n : ℕ) (h : n < 10) : natText n = [Nat.digitChar n] := by
  interval_cases n <;> rfl

theorem lastDigits_zero (width : ℕ) : lastDigits width 0 = List.replicate width '0' := by
  induction width with
  | zero => rfl
  | succ width ih =>
    rw [lastDigits, Nat.zero_div, ih, List.replicate_succ']
    rfl

theorem pad_eq (width n : ℕ) (hwidth : 0 < width) (h : n < 10 ^ width) :
    pad width n = lastDigits width n := by
  induction width generalizing n with
  | zero => omega
  | succ width ih =>
    rw [lastDigits]
    by_cases hn : n < 10
    · rw [Nat.div_eq_of_lt hn, lastDigits_zero, Nat.mod_eq_of_lt hn, pad, natText_digit n hn]
      rfl
    · have hwidth' : 0 < width := by
        by_contra hzero
        obtain rfl : width = 0 := by omega
        omega
      have hdiv : n / 10 < 10 ^ width := by
        rw [pow_succ] at h
        omega
      rw [← ih (n / 10) hwidth' hdiv, pad, pad, natText_step n (by omega), List.length_append,
        List.length_singleton, Nat.add_sub_add_right, ← List.append_assoc]

/-- A number of this length is not padded. -/
theorem natText_eq (width n : ℕ) (hlow : 10 ^ width ≤ n) (hhigh : n < 10 ^ (width + 1)) :
    natText n = lastDigits (width + 1) n := by
  rw [← pad_eq (width + 1) n (by omega) hhigh, pad]
  have hlong : width < (natText n).length := by
    rcases Nat.eq_zero_or_pos width with rfl | hpos
    · exact natText_length_pos n
    · by_contra hle
      exact absurd ((natText_length_le n width hpos).mp (by omega)) (by omega)
  rw [Nat.sub_eq_zero_of_le (by omega)]
  rfl

theorem lastDigits_append (a b n m : ℕ) (hm : m < 10 ^ b) :
    lastDigits (a + b) (n * 10 ^ b + m) = lastDigits a n ++ lastDigits b m := by
  induction b generalizing m with
  | zero =>
    obtain rfl : m = 0 := by omega
    simp [lastDigits]
  | succ b ih =>
    have hdiv : (n * 10 ^ (b + 1) + m) / 10 = n * 10 ^ b + m / 10 := by
      rw [pow_succ, ← mul_assoc]
      omega
    have hmod : (n * 10 ^ (b + 1) + m) % 10 = m % 10 := by
      rw [pow_succ, ← mul_assoc]
      omega
    have hm' : m / 10 < 10 ^ b := by
      rw [pow_succ] at hm
      omega
    rw [← Nat.add_assoc, lastDigits, lastDigits, hdiv, hmod, ih _ hm', List.append_assoc]

/-! ## Order -/

theorem append_lt_append_iff (a b u v : List Char) (h : a.length = b.length) :
    a ++ u < b ++ v ↔ a < b ∨ a = b ∧ u < v := by
  induction a generalizing b with
  | nil =>
    cases b with
    | nil => simp
    | cons d b => cases h
  | cons c a ih =>
    cases b with
    | nil => cases h
    | cons d b =>
      rw [List.cons_append, List.cons_append, List.cons_lt_cons_iff, List.cons_lt_cons_iff,
        ih b (by simpa using h), List.cons.injEq]
      tauto

theorem digitChar_lt_iff (a b : ℕ) (ha : a < 10) (hb : b < 10) :
    Nat.digitChar a < Nat.digitChar b ↔ a < b := by
  interval_cases a <;> interval_cases b <;> decide

theorem digitChar_inj (a b : ℕ) (ha : a < 10) (hb : b < 10)
    (h : Nat.digitChar a = Nat.digitChar b) : a = b := by
  have hab := digitChar_lt_iff a b ha hb
  have hba := digitChar_lt_iff b a hb ha
  rw [h] at hab hba
  have hself := Char.lt_irrefl (Nat.digitChar b)
  have hnot := mt hab.mpr hself
  have hnot' := mt hba.mpr hself
  omega

theorem lastDigits_inj (width a b : ℕ) (ha : a < 10 ^ width) (hb : b < 10 ^ width)
    (h : lastDigits width a = lastDigits width b) : a = b := by
  induction width generalizing a b with
  | zero => omega
  | succ width ih =>
    obtain ⟨hfront, hlast⟩ := List.append_inj' h rfl
    rw [pow_succ] at ha hb
    have hdiv := ih (a / 10) (b / 10) (by omega) (by omega) hfront
    have hmod := digitChar_inj _ _ (Nat.mod_lt a (by omega)) (Nat.mod_lt b (by omega))
      (List.cons.inj hlast).1
    omega

/-- **Order.** Texts of one width compare as their numbers. -/
theorem lastDigits_lt_iff (width a b : ℕ) (ha : a < 10 ^ width) (hb : b < 10 ^ width) :
    lastDigits width a < lastDigits width b ↔ a < b := by
  induction width generalizing a b with
  | zero =>
    obtain rfl : a = 0 := by omega
    obtain rfl : b = 0 := by omega
    simp [lastDigits]
  | succ width ih =>
    rw [pow_succ] at ha hb
    have ha' : a / 10 < 10 ^ width := by omega
    have hb' : b / 10 < 10 ^ width := by omega
    rw [lastDigits, lastDigits, append_lt_append_iff _ _ _ _
      (by rw [lastDigits_length, lastDigits_length]), ih _ _ ha' hb']
    have hsingle : [Nat.digitChar (a % 10)] < [Nat.digitChar (b % 10)] ↔ a % 10 < b % 10 := by
      rw [List.cons_lt_cons_iff]
      simp [digitChar_lt_iff _ _ (Nat.mod_lt a (by omega : 10 > 0))
        (Nat.mod_lt b (by omega : 10 > 0))]
    have hfront : lastDigits width (a / 10) = lastDigits width (b / 10) ↔ a / 10 = b / 10 :=
      ⟨lastDigits_inj width _ _ ha' hb', fun h => by rw [h]⟩
    rw [hsingle, hfront]
    omega

end Decimal

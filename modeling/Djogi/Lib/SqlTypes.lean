import Djogi.Lib.Decimal
import Djogi.Lib.Postgres
import Mathlib.Algebra.Order.Field.Rat
import Mathlib.Algebra.Order.Ring.Abs
import Mathlib.Tactic.FieldSimp
import Mathlib.Tactic.Linarith
import Mathlib.Tactic.Positivity
import Mathlib.Tactic.Ring

/-!
# SQL scalar types

The values of the integer, string and decimal types of PostgreSQL, and which conversions lose one.

* `SqlType`, `Value`, `Has`: the types and their values;
* `Same`, `Lossy`: a value that both types have, and a type change that loses one;
* `int_to_numeric`, `numeric_to_numeric`, `int_to_string`, `numeric_to_string`: when numbers fit.
-/

namespace SqlTypes

open Decimal

/-! ## Types -/

inductive IntType
  | smallint | integer | bigint
  deriving DecidableEq, Repr

def IntType.bits : IntType → ℕ
  | .smallint => 16
  | .integer => 32
  | .bigint => 64

/-- A type without a length is unbounded; a decimal has a precision and a scale of any sign. -/
inductive SqlType
  | int (width : IntType)
  | varchar (length : Option ℕ)
  | char (length : ℕ)
  | text
  | numeric (params : Option (ℕ × ℤ))
  deriving DecidableEq, Repr

/-! ## Values -/

/-- The number is `k / 10 ^ s`, a padded string stands without its padding. -/
inductive Value
  | nan
  | number (k s : ℤ)
  | string (t : List Char)

/-- Decimal text of `m / 10 ^ scale`. -/
def decimalText (m : ℤ) (scale : ℕ) : List Char :=
  (if m < 0 then ['-'] else []) ++ natText (m.natAbs / 10 ^ scale) ++
    if scale = 0 then [] else '.' :: lastDigits scale (m.natAbs % 10 ^ scale)

def Value.text : Value → List Char
  | .nan => ['N', 'a', 'N']
  | .number k s => decimalText (k * 10 ^ (-s).toNat) s.toNat
  | .string t => t

def fitsString : SqlType → List Char → Prop
  | .text, _ => True
  | .varchar none, _ => True
  | .varchar (some n), t => t.length ≤ n
  | .char n, t => t.length ≤ n ∧ t.getLast? ≠ some ' '
  | _, _ => False

/-- The type has the value. -/
def Has : SqlType → Value → Prop
  | .int w, v => ∃ k : ℤ, v = .number k 0 ∧ -2 ^ (w.bits - 1) ≤ k ∧ k < 2 ^ (w.bits - 1)
  | .numeric none, v => v = .nan ∨ ∃ k s, v = .number k s
  | .numeric (some (p, s)), v => v = .nan ∨ ∃ k : ℤ, v = .number k s ∧ |k| < 10 ^ p
  | type, v => ∃ t, v = .string t ∧ fitsString type t

/-- One value in two types: equal numbers, equal strings, a number and its text. -/
def Same : Value → Value → Prop
  | .nan, .nan => True
  | .number k s, .number k' s' => (k : ℚ) * 10 ^ (-s) = k' * 10 ^ (-s')
  | .string t, v => t = v.text
  | v, .string t => v.text = t
  | _, _ => False

/-- **Lossy.** Some value of the source is not representable in the target. -/
def Lossy (source target : SqlType) : Prop :=
  ∃ v, Has source v ∧ ∀ v', Has target v' → ¬Same v v'

theorem not_lossy_iff (source target : SqlType) :
    ¬Lossy source target ↔ ∀ v, Has source v → ∃ v', Has target v' ∧ Same v v' := by
  simp [Lossy]

theorem same_self (v : Value) : Same v v := by
  cases v with
  | nan => trivial
  | number k s => exact rfl
  | string t => exact rfl

/-- A type that has every value of another one. -/
theorem not_lossy_of_has (source target : SqlType) (h : ∀ v, Has source v → Has target v) :
    ¬Lossy source target :=
  (not_lossy_iff source target).mpr fun v hv => ⟨v, h v hv, same_self v⟩

/-! ## Texts of numbers -/

def isNumberChar (c : Char) : Bool := c.isDigit || c = '-' || c = '.'

theorem digitChar_isNumberChar (d : ℕ) (h : d < 10) : isNumberChar (Nat.digitChar d) = true := by
  interval_cases d <;> rfl

theorem natText_chars (n : ℕ) : ∀ c ∈ natText n, isNumberChar c = true := by
  unfold natText
  split
  · simp [isNumberChar]
  · intro c hc
    obtain ⟨d, hd, rfl⟩ := List.mem_map.mp hc
    exact digitChar_isNumberChar d (Nat.digits_lt_base (by omega) (List.mem_reverse.mp hd))

theorem lastDigits_chars (width n : ℕ) : ∀ c ∈ lastDigits width n, isNumberChar c = true := by
  induction width generalizing n with
  | zero => simp [lastDigits]
  | succ width ih =>
    intro c hc
    rcases List.mem_append.mp hc with hc | hc
    · exact ih (n / 10) c hc
    · rw [List.mem_singleton.mp hc]
      exact digitChar_isNumberChar _ (Nat.mod_lt n (by omega))

theorem decimalText_chars (m : ℤ) (scale : ℕ) :
    ∀ c ∈ decimalText m scale, isNumberChar c = true := by
  intro c hc
  unfold decimalText at hc
  rcases List.mem_append.mp hc with hc | hc
  · rcases List.mem_append.mp hc with hc | hc
    · split at hc
      · rw [List.mem_singleton.mp hc]
        rfl
      · cases hc
    · exact natText_chars _ c hc
  · split at hc
    · cases hc
    · rcases List.mem_cons.mp hc with rfl | hc
      · rfl
      · exact lastDigits_chars _ _ c hc

theorem decimalText_length (m : ℤ) (scale : ℕ) :
    (decimalText m scale).length = (if m < 0 then 1 else 0) +
      (natText (m.natAbs / 10 ^ scale)).length + if scale = 0 then 0 else 1 + scale := by
  unfold decimalText
  rw [List.length_append, List.length_append]
  congr 1
  · congr 1
    split <;> rfl
  · split
    · rfl
    · rw [List.length_cons, lastDigits_length, Nat.add_comm]

/-- No number's text ends in padding. -/
theorem decimalText_getLast (m : ℤ) (scale : ℕ) :
    (decimalText m scale).getLast? ≠ some ' ' := by
  intro h
  have := decimalText_chars m scale ' ' (List.mem_of_getLast? h)
  revert this
  decide

theorem numberText_getLast (v : Value) (h : ∀ t, v ≠ .string t) : v.text.getLast? ≠ some ' ' := by
  cases v with
  | nan => decide
  | number k s => exact decimalText_getLast _ _
  | string t => exact absurd rfl (h t)

/-! ## Conversions to strings -/

def isString : SqlType → Bool
  | .varchar _ | .char _ | .text => true
  | _ => false

theorem has_string_iff (type : SqlType) (htype : isString type = true) (v : Value) :
    Has type v ↔ ∃ t, v = .string t ∧ fitsString type t := by
  cases type with
  | int w => cases htype
  | numeric params => cases htype
  | _ => rfl

theorem same_string_iff (v : Value) (t : List Char) : Same v (.string t) ↔ v.text = t := by
  cases v <;> rfl

/-- A value goes into a string type by its text. -/
theorem lossy_string_iff (source target : SqlType) (htarget : isString target = true) :
    Lossy source target ↔ ∃ v, Has source v ∧ ¬fitsString target v.text := by
  unfold Lossy
  refine exists_congr fun v => and_congr_right fun _ => ?_
  simp only [has_string_iff target htarget]
  constructor
  · intro h hfits
    exact h (.string v.text) ⟨v.text, rfl, hfits⟩ ((same_string_iff v _).mpr rfl)
  · rintro h v' ⟨t, rfl, hfits⟩ hsame
    rw [(same_string_iff v t).mp hsame] at h
    exact h hfits

theorem not_lossy_unbounded (source target : SqlType)
    (h : target = .text ∨ target = .varchar none) : ¬Lossy source target := by
  rcases h with rfl | rfl
  · rw [lossy_string_iff source .text rfl]
    rintro ⟨v, -, hfits⟩
    exact hfits trivial
  · rw [lossy_string_iff source (.varchar none) rfl]
    rintro ⟨v, -, hfits⟩
    exact hfits trivial

theorem has_number (source : SqlType) (hsource : isString source = false) (v : Value)
    (h : Has source v) (t : List Char) : v ≠ .string t := by
  cases source with
  | int w =>
    obtain ⟨k, rfl, -⟩ := h
    simp
  | numeric params =>
    cases params with
    | none =>
      rcases h with rfl | ⟨k, s, rfl⟩ <;> simp
    | some ps =>
      rcases h with rfl | ⟨k, rfl, -⟩ <;> simp
  | _ => cases hsource

/-- Into a bounded string type a number type goes when no text is too long. -/
theorem number_lossy_iff (source target : SqlType) (hsource : isString source = false) (n : ℕ)
    (htarget : target = .varchar (some n) ∨ target = .char n) :
    Lossy source target ↔ ∃ v, Has source v ∧ n < v.text.length := by
  rcases htarget with rfl | rfl
  · rw [lossy_string_iff source _ rfl]
    simp [fitsString]
  · rw [lossy_string_iff source _ rfl]
    refine exists_congr fun v => and_congr_right fun hv => ?_
    have hlast := numberText_getLast v (has_number source hsource v hv)
    simp [fitsString, hlast]

def IntType.textWidth : IntType → ℕ
  | .smallint => 6
  | .integer => 11
  | .bigint => 20

theorem intText_length (k : ℤ) :
    (Value.number k 0).text.length = (if k < 0 then 1 else 0) + (natText k.natAbs).length := by
  simp [Value.text, decimalText_length]

theorem int_to_string (w : IntType) (target : SqlType) (n : ℕ)
    (htarget : target = .varchar (some n) ∨ target = .char n) :
    Lossy (.int w) target ↔ n < w.textWidth := by
  rw [number_lossy_iff (.int w) target rfl n htarget]
  constructor
  · rintro ⟨v, ⟨k, rfl, hlow, hhigh⟩, hlong⟩
    refine lt_of_lt_of_le hlong ?_
    rw [intText_length]
    have hdigits : (natText k.natAbs).length ≤ w.textWidth - 1 := by
      rw [natText_length_le _ _ (by cases w <;> simp [IntType.textWidth])]
      cases w <;> simp only [IntType.bits, IntType.textWidth] at hlow hhigh ⊢ <;> omega
    have hwidth : 1 ≤ w.textWidth := by cases w <;> simp [IntType.textWidth]
    split <;> omega
  · intro hshort
    refine ⟨.number (-2 ^ (w.bits - 1)) 0, ⟨_, rfl, le_rfl, ?_⟩, ?_⟩
    · cases w <;> norm_num [IntType.bits]
    · refine lt_of_lt_of_le hshort ?_
      rw [intText_length]
      have hneg : (-2 ^ (w.bits - 1) : ℤ) < 0 := by cases w <;> norm_num [IntType.bits]
      rw [if_pos hneg]
      by_contra hlt
      have hdigits : (natText (-2 ^ (w.bits - 1) : ℤ).natAbs).length ≤ w.textWidth - 2 := by
        omega
      rw [natText_length_le _ _ (by cases w <;> simp [IntType.textWidth])] at hdigits
      revert hdigits
      cases w <;> norm_num [IntType.bits, IntType.textWidth]

/-- Digits before the point. -/
def wholeDigits (p : ℕ) (s : ℤ) : ℕ := max 1 ((p : ℤ) - s).toNat

/-- The longest text of a decimal type; the special value has three characters. -/
def numericWidth (p : ℕ) (s : ℤ) : ℕ :=
  max 3 (1 + wholeDigits p s + if s.toNat = 0 then 0 else 1 + s.toNat)

theorem numberText_length (k s : ℤ) :
    (Value.number k s).text.length = (if k < 0 then 1 else 0) +
      (natText (k.natAbs * 10 ^ (-s).toNat / 10 ^ s.toNat)).length +
        if s.toNat = 0 then 0 else 1 + s.toNat := by
  have hsign : k * 10 ^ (-s).toNat < 0 ↔ k < 0 := by
    have hpos : (0 : ℤ) < 10 ^ (-s).toNat := by positivity
    constructor
    · intro h
      by_contra hk
      exact absurd (mul_nonneg (not_lt.mp hk) hpos.le) (not_le.mpr h)
    · intro h
      exact mul_neg_of_neg_of_pos h hpos
  have habs : (k * 10 ^ (-s).toNat).natAbs = k.natAbs * 10 ^ (-s).toNat := by
    rw [Int.natAbs_mul, Int.natAbs_pow]
    rfl
  simp only [Value.text, decimalText_length, hsign, habs]

/-- The whole part of a decimal has its digits before the point at most. -/
theorem whole_lt (k : ℕ) (p : ℕ) (s : ℤ) (hk : k < 10 ^ p) :
    k * 10 ^ (-s).toNat / 10 ^ s.toNat < 10 ^ wholeDigits p s := by
  rw [Nat.div_lt_iff_lt_mul (by positivity), ← pow_add]
  calc k * 10 ^ (-s).toNat < 10 ^ p * 10 ^ (-s).toNat :=
        Nat.mul_lt_mul_of_pos_right hk (by positivity)
    _ = 10 ^ (p + (-s).toNat) := (pow_add 10 p _).symm
    _ ≤ 10 ^ (wholeDigits p s + s.toNat) :=
        Nat.pow_le_pow_right (by omega) (by unfold wholeDigits; omega)

/-- The first power of ten of a precision fills them. -/
theorem le_whole (p : ℕ) (s : ℤ) (hp : 0 < p) (hdigits : 1 < wholeDigits p s) :
    10 ^ (wholeDigits p s - 1) ≤ 10 ^ (p - 1) * 10 ^ (-s).toNat / 10 ^ s.toNat := by
  rw [Nat.le_div_iff_mul_le (by positivity), ← pow_add, ← pow_add]
  refine Nat.pow_le_pow_right (by omega) ?_
  unfold wholeDigits at hdigits ⊢
  omega

theorem numeric_to_string (p : ℕ) (s : ℤ) (target : SqlType) (n : ℕ) (hp : 0 < p)
    (htarget : target = .varchar (some n) ∨ target = .char n) :
    Lossy (.numeric (some (p, s))) target ↔ n < numericWidth p s := by
  rw [number_lossy_iff _ target rfl n htarget]
  constructor
  · rintro ⟨v, rfl | ⟨k, rfl, hk⟩, hlong⟩
    · exact lt_of_lt_of_le hlong (le_max_left _ _)
    · refine lt_of_lt_of_le hlong (le_trans ?_ (le_max_right _ _))
      rw [numberText_length]
      have hnat : k.natAbs < 10 ^ p := by
        have : (k.natAbs : ℤ) < 10 ^ p := by rwa [Int.natCast_natAbs]
        exact_mod_cast this
      have hdigits := (natText_length_le _ (wholeDigits p s) (by unfold wholeDigits; omega)).mpr
        (whole_lt k.natAbs p s hnat)
      have hsign : (if k < 0 then 1 else 0) ≤ 1 := by split <;> omega
      omega
  · intro hshort
    rcases lt_max_iff.mp hshort with hshort | hshort
    · exact ⟨.nan, .inl rfl, hshort⟩
    · have hpow : (10 : ℤ) ^ (p - 1) < 10 ^ p := pow_lt_pow_right₀ (by omega) (by omega)
      have hpos : (0 : ℤ) < 10 ^ (p - 1) := by positivity
      refine ⟨.number (-10 ^ (p - 1)) s, .inr ⟨_, rfl, ?_⟩, lt_of_lt_of_le hshort ?_⟩
      · rwa [abs_neg, abs_of_pos hpos]
      · rw [numberText_length, if_pos (neg_neg_of_pos hpos)]
        have habs : (-10 ^ (p - 1) : ℤ).natAbs = 10 ^ (p - 1) := by
          rw [Int.natAbs_neg, Int.natAbs_pow]
          rfl
        rw [habs]
        have hdigits : wholeDigits p s ≤
            (natText (10 ^ (p - 1) * 10 ^ (-s).toNat / 10 ^ s.toNat)).length := by
          by_cases hone : 1 < wholeDigits p s
          · by_contra hlt
            have hle := (natText_length_le _ (wholeDigits p s - 1) (by omega)).mp
              (by omega : (natText (10 ^ (p - 1) * 10 ^ (-s).toNat / 10 ^ s.toNat)).length ≤
                wholeDigits p s - 1)
            have := le_whole p s hp hone
            omega
          · exact le_trans (by omega) (natText_length_pos _)
        omega

theorem unbounded_to_string (target : SqlType) (n : ℕ) (hn : 0 < n)
    (htarget : target = .varchar (some n) ∨ target = .char n) : Lossy (.numeric none) target := by
  rw [number_lossy_iff _ target rfl n htarget]
  refine ⟨.number (10 ^ n) 0, .inr ⟨_, _, rfl⟩, ?_⟩
  rw [intText_length]
  have habs : (10 ^ n : ℤ).natAbs = 10 ^ n := by
    rw [Int.natAbs_pow]
    rfl
  have hlong := (natText_length_le (10 ^ n) n hn).not.mpr (lt_irrefl _)
  rw [habs]
  omega

/-! ## Conversions of strings -/

/-- A string that is no number. -/
theorem string_to_number (source target : SqlType) (hsource : fitsString source ['x'])
    (htarget : isString target = false) : Lossy source target := by
  have hstring : isString source = true := by
    cases source with
    | int w => cases hsource
    | numeric params => cases hsource
    | _ => rfl
  refine ⟨.string ['x'], (has_string_iff source hstring _).mpr ⟨_, rfl, hsource⟩, ?_⟩
  intro v' hv' hsame
  cases v' with
  | nan => cases hsame
  | number k s =>
    have hx := decimalText_chars (k * 10 ^ (-s).toNat) s.toNat 'x'
    change ['x'] = decimalText (k * 10 ^ (-s).toNat) s.toNat at hsame
    rw [← hsame] at hx
    exact absurd (hx (List.mem_singleton.mpr rfl)) (by decide)
  | string t => exact has_number target htarget _ hv' t rfl

/-- A blank at the end is lost in a padded string. -/
theorem string_to_char (source : SqlType) (n : ℕ) (hsource : isString source = true)
    (hblank : fitsString source [' ']) : Lossy source (.char n) := by
  rw [lossy_string_iff source _ rfl]
  refine ⟨.string [' '], (has_string_iff source hsource _).mpr ⟨_, rfl, hblank⟩, ?_⟩
  rintro ⟨-, hlast⟩
  exact hlast rfl

theorem char_to_varchar (n m : ℕ) : Lossy (.char n) (.varchar (some m)) ↔ m < n := by
  rw [lossy_string_iff _ _ rfl]
  constructor
  · rintro ⟨v, ⟨t, rfl, hlen, -⟩, hfits⟩
    exact lt_of_lt_of_le (Nat.lt_of_not_le hfits) hlen
  · intro h
    have hlast : (List.replicate n 'x').getLast? ≠ some ' ' := by
      rw [List.getLast?_replicate]
      split <;> simp
    refine ⟨.string (List.replicate n 'x'), ⟨_, rfl, by simp, hlast⟩, ?_⟩
    simp [fitsString, Value.text, h]

theorem char_to_char (n m : ℕ) (h : n ≤ m) : ¬Lossy (.char n) (.char m) := by
  rw [lossy_string_iff _ _ rfl]
  rintro ⟨v, ⟨t, rfl, hlen, hlast⟩, hfits⟩
  exact hfits ⟨le_trans hlen h, hlast⟩

theorem varchar_to_longer (n m : ℕ) (h : n ≤ m) :
    ¬Lossy (.varchar (some n)) (.varchar (some m)) := by
  refine not_lossy_of_has _ _ ?_
  rintro v ⟨t, rfl, hlen⟩
  exact ⟨t, rfl, le_trans hlen h⟩

theorem varchar_to_shorter (m : ℕ) : Lossy (.varchar none) (.varchar (some m)) := by
  rw [lossy_string_iff _ _ rfl]
  refine ⟨.string (List.replicate (m + 1) 'x'), ⟨_, rfl, trivial⟩, ?_⟩
  simp [fitsString, Value.text]

/-! ## Conversions between numbers -/

theorem int_to_wider (w w' : IntType) (h : w.bits < w'.bits) : ¬Lossy (.int w) (.int w') := by
  refine not_lossy_of_has _ _ ?_
  rintro v ⟨k, rfl, hlow, hhigh⟩
  have hpow : (2 : ℤ) ^ (w.bits - 1) ≤ 2 ^ (w'.bits - 1) :=
    pow_le_pow_right₀ (by omega) (by omega)
  exact ⟨k, rfl, by omega, by omega⟩

theorem numeric_to_int (params : Option (ℕ × ℤ)) (w : IntType) :
    Lossy (.numeric params) (.int w) := by
  refine ⟨.nan, ?_, ?_⟩
  · cases params <;> exact .inl rfl
  · rintro v' ⟨k, rfl, -⟩ hsame
    cases hsame

theorem numeric_to_unbounded (source : SqlType) (hsource : isString source = false) :
    ¬Lossy source (.numeric none) := by
  rw [not_lossy_iff]
  intro v hv
  cases v with
  | nan => exact ⟨.nan, .inl rfl, trivial⟩
  | number k s => exact ⟨.number k s, .inr ⟨k, s, rfl⟩, rfl⟩
  | string t => exact absurd rfl (has_number source hsource _ hv t)

theorem same_number_iff (k s k' s' : ℤ) :
    Same (.number k s) (.number k' s') ↔ (k' : ℚ) = k * 10 ^ (s' - s) := by
  change (k : ℚ) * 10 ^ (-s) = k' * 10 ^ (-s') ↔ _
  rw [show (s' - s : ℤ) = s' + -s by ring, zpow_add₀ (by norm_num), zpow_neg _ s']
  have hne : (10 : ℚ) ^ s' ≠ 0 := zpow_ne_zero s' (by norm_num)
  constructor
  · intro h
    field_simp at h ⊢
    linarith
  · intro h
    rw [h]
    field_simp

/-- With a scale at least as large, the coefficient is scaled up. -/
theorem same_number_up (k s k' : ℤ) (j : ℕ) :
    Same (.number k s) (.number k' (s + j)) ↔ k' = k * 10 ^ j := by
  rw [same_number_iff, add_sub_cancel_left, zpow_natCast]
  exact_mod_cast Iff.rfl

/-- With a smaller scale, one unit is lost. -/
theorem not_same_one (s s' k' : ℤ) (h : s' < s) : ¬Same (.number 1 s) (.number k' s') := by
  obtain ⟨j, hj⟩ := Int.eq_ofNat_of_zero_le (by omega : 0 ≤ s - s' - 1)
  rw [same_number_iff, show s' - s = -((j + 1 : ℕ) : ℤ) by push_cast; omega, zpow_neg,
    zpow_natCast]
  intro heq
  have hpow : (10 : ℚ) ^ (j + 1) ≠ 0 := by positivity
  field_simp at heq
  have hint : k' * 10 ^ (j + 1) = 1 := by exact_mod_cast heq
  have hdvd : (10 : ℤ) ∣ 1 := ⟨k' * 10 ^ j, by rw [← hint]; ring⟩
  revert hdvd
  decide

theorem unbounded_to_numeric (p : ℕ) (s : ℤ) :
    Lossy (.numeric none) (.numeric (some (p, s))) := by
  refine ⟨.number (10 ^ p) s, .inr ⟨_, _, rfl⟩, ?_⟩
  rintro v' (rfl | ⟨k, rfl, hk⟩) hsame
  · cases hsame
  · have hsame' : Same (.number (10 ^ p) s) (.number k (s + (0 : ℕ))) := by simpa using hsame
    rw [same_number_up] at hsame'
    rw [hsame', pow_zero, mul_one, abs_of_pos (by positivity)] at hk
    exact lt_irrefl _ hk

/-- A source whose coefficients reach from one to `limit`, at one scale. -/
theorem coefficients_lossy_iff (source : SqlType) (s limit : ℤ) (p' : ℕ) (s' : ℤ)
    (hhas : ∀ k, Has source (.number k s) → |k| ≤ limit) (hone : Has source (.number 1 s))
    (hmax : ∃ k, |k| = limit ∧ Has source (.number k s))
    (hnumber : ∀ v, Has source v → v = .nan ∨ ∃ k, v = .number k s) :
    Lossy source (.numeric (some (p', s'))) ↔
      ¬(s ≤ s' ∧ limit * 10 ^ (s' - s).toNat < 10 ^ p') := by
  rw [← not_iff_not, not_not, not_lossy_iff]
  constructor
  · intro hall
    have hle : s ≤ s' := by
      by_contra hlt
      obtain ⟨v', rfl | ⟨k', rfl, -⟩, hsame⟩ := hall _ hone
      · cases hsame
      · exact not_same_one s s' k' (by omega) hsame
    obtain ⟨j, hj⟩ := Int.eq_ofNat_of_zero_le (by omega : 0 ≤ s' - s)
    obtain rfl : s' = s + j := by omega
    refine ⟨hle, ?_⟩
    obtain ⟨k, hk, hkhas⟩ := hmax
    obtain ⟨v', rfl | ⟨k', rfl, hk'⟩, hsame⟩ := hall _ hkhas
    · cases hsame
    · rw [same_number_up] at hsame
      rw [hsame, abs_mul, hk, abs_of_pos (by positivity)] at hk'
      simpa using hk'
  · rintro ⟨hle, hfits⟩ v hv
    obtain ⟨j, hj⟩ := Int.eq_ofNat_of_zero_le (by omega : 0 ≤ s' - s)
    obtain rfl : s' = s + j := by omega
    rcases hnumber v hv with rfl | ⟨k, rfl⟩
    · exact ⟨.nan, .inl rfl, trivial⟩
    · refine ⟨.number (k * 10 ^ j) (s + j), .inr ⟨_, rfl, ?_⟩, (same_number_up _ _ _ _).mpr rfl⟩
      rw [abs_mul, abs_of_pos (by positivity : (0 : ℤ) < 10 ^ j)]
      calc |k| * 10 ^ j ≤ limit * 10 ^ j :=
            mul_le_mul_of_nonneg_right (hhas k hv) (by positivity)
        _ < 10 ^ p' := by simpa using hfits

theorem int_to_numeric (w : IntType) (p' : ℕ) (s' : ℤ) :
    Lossy (.int w) (.numeric (some (p', s'))) ↔
      ¬(0 ≤ s' ∧ 2 ^ (w.bits - 1) * 10 ^ s'.toNat < 10 ^ p') := by
  have hpos : (1 : ℤ) < 2 ^ (w.bits - 1) := by cases w <;> norm_num [IntType.bits]
  have hiff := coefficients_lossy_iff (.int w) 0 (2 ^ (w.bits - 1)) p' s'
    (by
      rintro k ⟨k₀, hk, hlow, hhigh⟩
      cases hk
      exact abs_le.mpr ⟨hlow, hhigh.le⟩)
    ⟨1, rfl, by omega, hpos⟩
    ⟨-2 ^ (w.bits - 1), by rw [abs_neg, abs_of_pos (by positivity)], _, rfl, le_rfl, by omega⟩
    (by
      rintro v ⟨k, rfl, -⟩
      exact .inr ⟨k, rfl⟩)
  rw [hiff, sub_zero]
  exact_mod_cast Iff.rfl

theorem numeric_to_numeric (p : ℕ) (s : ℤ) (p' : ℕ) (s' : ℤ) (hp : 0 < p) :
    Lossy (.numeric (some (p, s))) (.numeric (some (p', s'))) ↔
      ¬(s ≤ s' ∧ p + (s' - s).toNat ≤ p') := by
  have hpow : (1 : ℤ) < 10 ^ p := one_lt_pow₀ (by omega) (by omega)
  have hiff := coefficients_lossy_iff (.numeric (some (p, s))) s (10 ^ p - 1) p' s'
    (by
      rintro k (hk | ⟨k₀, hk, hlt⟩)
      · cases hk
      · cases hk
        omega)
    (.inr ⟨1, rfl, by rwa [abs_one]⟩)
    ⟨10 ^ p - 1, abs_of_pos (by omega), .inr ⟨_, rfl, by rw [abs_of_pos (by omega)]; omega⟩⟩
    (by
      rintro v (rfl | ⟨k, rfl, -⟩)
      · exact .inl rfl
      · exact .inr ⟨k, rfl⟩)
  rw [hiff]
  refine not_congr (and_congr_right fun _ => ?_)
  set j := (s' - s).toNat
  constructor
  · intro h
    by_contra hlt
    have hle : (10 : ℤ) ^ p' ≤ 10 ^ (p + j - 1) := pow_le_pow_right₀ (by omega) (by omega)
    have hhalf : (10 : ℤ) ^ (p + j - 1) ≤ (10 ^ p - 1) * 10 ^ j := by
      rw [show p + j - 1 = (p - 1) + j by omega, pow_add]
      refine mul_le_mul_of_nonneg_right ?_ (by positivity)
      have : (10 : ℤ) ^ (p - 1) < 10 ^ p := pow_lt_pow_right₀ (by omega) (by omega)
      omega
    omega
  · intro h
    calc ((10 : ℤ) ^ p - 1) * 10 ^ j < 10 ^ p * 10 ^ j :=
          mul_lt_mul_of_pos_right (by omega) (by positivity)
      _ = 10 ^ (p + j) := (pow_add 10 p j).symm
      _ ≤ 10 ^ p' := pow_le_pow_right₀ (by omega) h

end SqlTypes

import Mathlib.Data.Int.Log
import Mathlib.Data.Rat.Floor
import Mathlib.Tactic.Linarith

/-!
# Binary floating point

Rounding of a number to a binary format, to the nearest value and from the middle to the even one.

* `nearest_neg`, `Format.round_neg`: rounding does not look at the sign.
-/

namespace Binary

/-- The integer nearest to a number; from the middle, the even one. -/
def nearest (q : ℚ) : ℤ :=
  if Int.fract q < 1 / 2 then ⌊q⌋
  else if 1 / 2 < Int.fract q then ⌊q⌋ + 1
  else if ⌊q⌋ % 2 = 0 then ⌊q⌋ else ⌊q⌋ + 1

theorem floor_neg_of_fract (q : ℚ) (h : Int.fract q ≠ 0) : ⌊-q⌋ = -⌊q⌋ - 1 := by
  have hpos : 0 < Int.fract q := lt_of_le_of_ne (Int.fract_nonneg q) (Ne.symm h)
  have hlt := Int.fract_lt_one q
  rw [Int.fract] at hpos hlt
  rw [Int.floor_eq_iff]
  push_cast
  constructor <;> linarith

theorem nearest_neg (q : ℚ) : nearest (-q) = -nearest q := by
  by_cases h : Int.fract q = 0
  · have hq : q = (⌊q⌋ : ℚ) := by
      rw [Int.fract] at h
      linarith
    have hneg : Int.fract (-q) = 0 := by
      rw [hq, ← Int.cast_neg, Int.fract_intCast]
    have hfloor : ⌊-q⌋ = -⌊q⌋ := by
      rw [hq, ← Int.cast_neg, Int.floor_intCast, Int.floor_intCast]
    simp [nearest, h, hneg, hfloor]
  · have hfloor := floor_neg_of_fract q h
    have hneg : Int.fract (-q) = 1 - Int.fract q := Int.fract_neg h
    rw [nearest, nearest, hneg, hfloor]
    split_ifs <;> first | omega | linarith

/-- A binary format: the digits of its numbers, the exponent of the least one and of the first
power of two that is too large. -/
structure Format where
  precision : ℕ
  least : ℤ
  top : ℤ

def Format.single : Format := ⟨24, -149, 128⟩

def Format.double : Format := ⟨53, -1074, 1024⟩

/-- The distance of the numbers of the format around a number. -/
def Format.unit (f : Format) (q : ℚ) : ℚ :=
  2 ^ max (Int.log 2 |q| + 1 - f.precision) f.least

/-- The number of the format for a number; none where it is too large. -/
def Format.round (f : Format) (q : ℚ) : Option ℚ :=
  let r := nearest (q / f.unit q) * f.unit q
  if |r| < 2 ^ f.top then some r else none

theorem Format.round_neg (f : Format) (q : ℚ) : f.round (-q) = (f.round q).map (-·) := by
  have hunit : f.unit (-q) = f.unit q := by rw [unit, unit, abs_neg]
  have hround : (nearest (-q / f.unit (-q)) * f.unit (-q) : ℚ) =
      -(nearest (q / f.unit q) * f.unit q) := by
    rw [hunit, neg_div, nearest_neg]
    push_cast
    ring
  simp only [round, hround, abs_neg]
  split_ifs <;> rfl

end Binary

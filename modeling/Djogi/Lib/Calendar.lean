import Mathlib.Tactic.Ring

/-!
# Calendar

The proleptic Gregorian calendar over all years: moments by year, day of the year and clock, their
distance in seconds, and the month and day of a day of the year.

* `yearStart_succ`: the length of a year;
* `shift_spec`: a moment moved by about a day at most;
* `seconds_lt_of_year`: a moment of a later year is later;
* `dayCode_lt`, `stamp_lt_iff`: within a year, order by month, day and clock.
-/

namespace Calendar

/-! ## Years -/

def isLeap (year : ℤ) : Bool := year % 4 = 0 && (year % 100 ≠ 0 || year % 400 = 0)

def daysInYear (year : ℤ) : ℤ := if isLeap year then 366 else 365

/-- Days from the first day of year zero to the first day of a year. -/
def yearStart (year : ℤ) : ℤ :=
  365 * year + (year + 3) / 4 - (year + 99) / 100 + (year + 399) / 400

theorem daysInYear_cases (year : ℤ) : daysInYear year = 365 ∨ daysInYear year = 366 := by
  unfold daysInYear
  split <;> simp

theorem yearStart_succ (year : ℤ) : yearStart (year + 1) = yearStart year + daysInYear year := by
  unfold yearStart daysInYear isLeap
  split
  · rename_i hleap
    simp only [Bool.and_eq_true, Bool.or_eq_true, decide_eq_true_eq] at hleap
    omega
  · rename_i hleap
    simp only [Bool.and_eq_true, Bool.or_eq_true, decide_eq_true_eq, not_and_or, not_or] at hleap
    omega

theorem yearStart_add_le (a b : ℤ) (h : a < b) : yearStart a + daysInYear a ≤ yearStart b := by
  obtain ⟨n, hn⟩ := Int.eq_ofNat_of_zero_le (by omega : 0 ≤ b - (a + 1))
  obtain rfl : b = a + 1 + n := by omega
  clear h hn
  induction n with
  | zero =>
    rw [← yearStart_succ]
    simp
  | succ n ih =>
    have hstep := yearStart_succ (a + 1 + n)
    have hdays := daysInYear_cases (a + 1 + n)
    have hcast : a + 1 + ((n + 1 : ℕ) : ℤ) = a + 1 + n + 1 := by push_cast; ring
    rw [hcast]
    omega

/-! ## Moments -/

/-- A day of a year, from one on, with a clock. -/
structure Moment where
  year : ℤ
  ordinal : ℤ
  hour : ℤ
  minute : ℤ
  second : ℤ
  deriving DecidableEq, Repr

/-- The fields are in their ranges. -/
structure Moment.Valid (m : Moment) : Prop where
  ordinal : 1 ≤ m.ordinal ∧ m.ordinal ≤ daysInYear m.year
  hour : 0 ≤ m.hour ∧ m.hour < 24
  minute : 0 ≤ m.minute ∧ m.minute < 60
  second : 0 ≤ m.second ∧ m.second < 60

def Moment.clock (m : Moment) : ℤ := m.hour * 3600 + m.minute * 60 + m.second

def Moment.seconds (m : Moment) : ℤ := (yearStart m.year + m.ordinal - 1) * 86400 + m.clock

/-- The moment some seconds later or earlier, about a day away at most. -/
def Moment.shift (m : Moment) (by_ : ℤ) : Moment :=
  let total := m.clock + by_
  let clock := total % 86400
  let ordinal := m.ordinal + total / 86400
  let day :=
    if ordinal < 1 then (m.year - 1, ordinal + daysInYear (m.year - 1))
    else if daysInYear m.year < ordinal then (m.year + 1, ordinal - daysInYear m.year)
    else (m.year, ordinal)
  ⟨day.1, day.2, clock / 3600, clock % 3600 / 60, clock % 60⟩

theorem Moment.Valid.clock_range (m : Moment) (h : m.Valid) : 0 ≤ m.clock ∧ m.clock < 86400 := by
  obtain ⟨-, hhour, hminute, hsecond⟩ := h
  unfold Moment.clock
  omega

theorem shift_spec (m : Moment) (by_ : ℤ) (h : m.Valid) (hby : -100000 < by_ ∧ by_ < 100000) :
    (m.shift by_).Valid ∧ (m.shift by_).seconds = m.seconds + by_ := by
  obtain ⟨hlow, hhigh⟩ := h.clock_range
  obtain ⟨hfirst, hlast⟩ := h.ordinal
  have hyear := yearStart_succ m.year
  have hprev := yearStart_succ (m.year - 1)
  rw [sub_add_cancel] at hprev
  have hdays := daysInYear_cases m.year
  have hdaysPrev := daysInYear_cases (m.year - 1)
  have hdaysNext := daysInYear_cases (m.year + 1)
  unfold Moment.shift
  set total := m.clock + by_ with htotal
  have hclock : total % 86400 / 3600 * 3600 + total % 86400 % 3600 / 60 * 60 +
      total % 86400 % 60 = total % 86400 := by omega
  dsimp only
  split_ifs with hbefore hafter
  · refine ⟨⟨⟨?_, ?_⟩, by dsimp only; omega, by dsimp only; omega, by dsimp only; omega⟩, ?_⟩
    · dsimp only; omega
    · dsimp only; omega
    · simp only [Moment.seconds, Moment.clock] at hclock htotal ⊢
      omega
  · refine ⟨⟨⟨?_, ?_⟩, by dsimp only; omega, by dsimp only; omega, by dsimp only; omega⟩, ?_⟩
    · dsimp only; omega
    · dsimp only; omega
    · simp only [Moment.seconds, Moment.clock] at hclock htotal ⊢
      omega
  · refine ⟨⟨⟨?_, ?_⟩, by dsimp only; omega, by dsimp only; omega, by dsimp only; omega⟩, ?_⟩
    · dsimp only; omega
    · dsimp only; omega
    · simp only [Moment.seconds, Moment.clock] at hclock htotal ⊢
      omega

theorem seconds_lt_of_year (a b : Moment) (ha : a.Valid) (hb : b.Valid) (h : a.year < b.year) :
    a.seconds < b.seconds := by
  obtain ⟨halow, hahigh⟩ := ha.clock_range
  obtain ⟨hblow, hbhigh⟩ := hb.clock_range
  have hyear := yearStart_add_le a.year b.year h
  have haday := ha.ordinal
  have hbday := hb.ordinal
  unfold Moment.seconds
  omega

/-! ## Months -/

def monthLengths (leap : Bool) : List ℕ :=
  [31, if leap then 29 else 28, 31, 30, 31, 30, 31, 31, 30, 31, 30, 31]

/-- Month and day, counting months from the given one on. -/
def monthDayFrom : ℕ → List ℕ → ℕ → ℕ × ℕ
  | month, [], day => (month, day)
  | month, length :: rest, day =>
      if day ≤ length then (month, day) else monthDayFrom (month + 1) rest (day - length)

def monthDay (leap : Bool) (ordinal : ℕ) : ℕ × ℕ := monthDayFrom 1 (monthLengths leap) ordinal

/-- Month and day as one number. -/
def dayCode (leap : Bool) (ordinal : ℕ) : ℕ :=
  (monthDay leap ordinal).1 * 100 + (monthDay leap ordinal).2

theorem monthDayFrom_ge (lengths : List ℕ) (month day : ℕ) (hday : 1 ≤ day) :
    month * 100 + 1 ≤
      (monthDayFrom month lengths day).1 * 100 + (monthDayFrom month lengths day).2 := by
  induction lengths generalizing month day with
  | nil => simpa [monthDayFrom] using hday
  | cons length rest ih =>
    rw [monthDayFrom]
    split
    · simpa using hday
    · have hnext := ih (month + 1) (day - length) (by omega)
      omega

theorem monthDayFrom_succ (lengths : List ℕ) (month day : ℕ) (h : ∀ n ∈ lengths, n ≤ 100) :
    (monthDayFrom month lengths day).1 * 100 + (monthDayFrom month lengths day).2 <
      (monthDayFrom month lengths (day + 1)).1 * 100 +
        (monthDayFrom month lengths (day + 1)).2 := by
  induction lengths generalizing month day with
  | nil => simp [monthDayFrom]
  | cons length rest ih =>
    have hlength := h length List.mem_cons_self
    rw [monthDayFrom, monthDayFrom]
    by_cases hday : day ≤ length
    · rw [if_pos hday]
      split
      · exact Nat.lt_succ_self _
      · have hnext := monthDayFrom_ge rest (month + 1) (day + 1 - length) (by omega)
        dsimp only
        omega
    · rw [if_neg hday, if_neg (by omega), show day + 1 - length = day - length + 1 by omega]
      exact ih (month + 1) (day - length) fun n hn => h n (List.mem_cons_of_mem _ hn)

theorem dayCode_succ (leap : Bool) (ordinal : ℕ) :
    dayCode leap ordinal < dayCode leap (ordinal + 1) :=
  monthDayFrom_succ (monthLengths leap) 1 ordinal (by cases leap <;> decide)

theorem dayCode_lt (leap : Bool) (a b : ℕ) (h : a < b) (hb : b ≤ 366) :
    dayCode leap a < dayCode leap b := by
  induction b with
  | zero => omega
  | succ b ih =>
    have hstep := dayCode_succ leap b
    rcases Nat.lt_or_ge a b with hlt | hge
    · exact (ih hlt (by omega)).trans hstep
    · obtain rfl : a = b := by omega
      exact hstep

theorem monthDayFrom_range (lengths : List ℕ) (month day : ℕ) (h : ∀ n ∈ lengths, n ≤ 31) :
    (monthDayFrom month lengths day).1 ≤ month + lengths.length ∧
      ((monthDayFrom month lengths day).2 ≤ 31 ∨
        (monthDayFrom month lengths day).2 + lengths.sum = day) := by
  induction lengths generalizing month day with
  | nil => simp [monthDayFrom]
  | cons length rest ih =>
    have hlength := h length List.mem_cons_self
    rw [monthDayFrom, List.length_cons, List.sum_cons]
    split
    · dsimp only
      omega
    · have hrest := ih (month + 1) (day - length) fun n hn => h n (List.mem_cons_of_mem _ hn)
      omega

theorem monthDay_range (leap : Bool) (ordinal : ℕ) (h : ordinal ≤ 366) :
    (monthDay leap ordinal).1 < 20 ∧ (monthDay leap ordinal).2 < 100 := by
  have hrange := monthDayFrom_range (monthLengths leap) 1 ordinal (by cases leap <;> decide)
  have hlength : (monthLengths leap).length = 12 := rfl
  have hsum : 365 ≤ (monthLengths leap).sum := by cases leap <;> decide
  unfold monthDay
  omega

def Moment.month (m : Moment) : ℕ := (monthDay (isLeap m.year) m.ordinal.toNat).1

def Moment.day (m : Moment) : ℕ := (monthDay (isLeap m.year) m.ordinal.toNat).2

/-- Month, day and clock as one number of two digits each. -/
def Moment.stamp (m : Moment) : ℕ :=
  (((m.month * 100 + m.day) * 100 + m.hour.toNat) * 100 + m.minute.toNat) * 100 + m.second.toNat

theorem stamp_lt (m : Moment) (h : m.Valid) : m.stamp < 2000000000 := by
  obtain ⟨hordinal, hhour, hminute, hsecond⟩ := h
  have hdays := daysInYear_cases m.year
  obtain ⟨hmonth, hday⟩ := monthDay_range (isLeap m.year) m.ordinal.toNat (by omega)
  unfold Moment.stamp Moment.month Moment.day
  omega

/-- Within a year moments are ordered by their stamps. -/
theorem stamp_lt_iff (a b : Moment) (ha : a.Valid) (hb : b.Valid) (h : a.year = b.year) :
    a.stamp < b.stamp ↔ a.seconds < b.seconds := by
  obtain ⟨haordinal, hahour, haminute, hasecond⟩ := ha
  obtain ⟨hbordinal, hbhour, hbminute, hbsecond⟩ := hb
  have hdays := daysInYear_cases b.year
  rw [h] at haordinal
  have hacode : a.month * 100 + a.day = dayCode (isLeap b.year) a.ordinal.toNat := by
    rw [← h]
    rfl
  have hbcode : b.month * 100 + b.day = dayCode (isLeap b.year) b.ordinal.toNat := rfl
  unfold Moment.stamp Moment.seconds Moment.clock
  rw [hacode, hbcode, h]
  rcases lt_trichotomy a.ordinal b.ordinal with hlt | heq | hgt
  · have hcode := dayCode_lt (isLeap b.year) a.ordinal.toNat b.ordinal.toNat (by omega) (by omega)
    omega
  · rw [heq]
    omega
  · have hcode := dayCode_lt (isLeap b.year) b.ordinal.toNat a.ordinal.toNat (by omega) (by omega)
    omega

end Calendar

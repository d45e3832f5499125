import Djogi.Lib.Calendar
import Djogi.Lib.Decimal
import Mathlib.Data.List.Chain
import Mathlib.Data.List.DropRight
import Mathlib.Data.String.Basic

/-!
# Names of migrations

`migrate/naming.rs`: the slug of an operator's name, and the version id with the instant before it.

* `sanitizeChars_isSlug`, `sanitize_idempotent`: what a slug looks like; it is its own slug;
* `versionPrefix_eq`: the text of an instant;
* `versionTail_lt_iff`: when version ids are ordered as their instants.
-/

namespace Djogi

/-! ## Slugs -/

def maxSlugLen : ℕ := 63

def digitLeadPrefix : List Char := ['m', '_']

/-- The character of a slug; bytes above ASCII are dropped one by one. -/
def slugByte (c : Char) : Option Char :=
  if c.isUpper then some c.toLower
  else if c.isLower || c.isDigit || c = '_' then some c
  else if [' ', '\t', '\n', '\r', '-', '.'].contains c then some '_'
  else none

/-- The loop over the bytes, with the output so far and whether an underscore came last. -/
def slugLoop : List Char → List Char → Bool → List Char
  | [], out, _ => out
  | c :: cs, out, last =>
      match slugByte c with
      | none => slugLoop cs out last
      | some b =>
          if b = '_' && last then slugLoop cs out last
          else
            let out := out ++ [b]
            if maxSlugLen + digitLeadPrefix.length ≤ out.length then out
            else slugLoop cs out (b = '_')

def trimUnderscores (s : List Char) : List Char := s.rdropWhile (· = '_')

def sanitizeChars (input : List Char) : List Char :=
  let out := trimUnderscores (slugLoop input [] true)
  if out.isEmpty then "migration".toList
  else
    let out := if (out.head?.any Char.isDigit) then digitLeadPrefix ++ out else out
    if maxSlugLen < out.length then trimUnderscores (out.take maxSlugLen) else out

def sanitizeSlug (input : String) : String := String.ofList (sanitizeChars input.toList)

/-! ## What a slug looks like -/

def isSlugChar (c : Char) : Bool := c.isLower || c.isDigit || c = '_'

/-- No two underscores next to each other. -/
def Single (s : List Char) : Prop := s.IsChain fun a b => ¬(a = '_' ∧ b = '_')

/-- The output of the loop: no leading underscore, and the flag says what came last. -/
structure SlugOut (out : List Char) (last : Bool) : Prop where
  chars : ∀ c ∈ out, isSlugChar c = true
  single : Single out
  head : out.head? ≠ some '_'
  flag : last = true ↔ out = [] ∨ out.getLast? = some '_'

theorem isUpper_val (c : Char) (h : c.isUpper = true) : c.val ≥ 'A'.val ∧ c.val ≤ 'Z'.val := by
  unfold Char.isUpper at h
  exact of_decide_eq_true h

theorem toLower_isLower (c : Char) (h : c.isUpper = true) : c.toLower.isLower = true := by
  have hupper := isUpper_val c h
  have hrange : 65 ≤ c.toNat ∧ c.toNat ≤ 90 := hupper
  unfold Char.toLower
  rw [dif_pos hupper]
  have hval : (c.val + ('a'.val - 'A'.val)).toNat = c.toNat + 32 := by
    rw [UInt32.toNat_add]
    have hconst : ('a'.val - 'A'.val).toNat = 32 := rfl
    have hsame : c.val.toNat = c.toNat := rfl
    omega
  unfold Char.isLower
  simp only [Bool.and_eq_true, decide_eq_true_eq, ge_iff_le, UInt32.le_iff_toNat_le]
  change 97 ≤ (c.val + ('a'.val - 'A'.val)).toNat ∧ (c.val + ('a'.val - 'A'.val)).toNat ≤ 122
  omega

theorem slugByte_chars (c b : Char) (h : slugByte c = some b) : isSlugChar b = true := by
  unfold slugByte at h
  split_ifs at h with hupper hplain hblank
  · rw [← Option.some.inj h, isSlugChar, toLower_isLower c hupper]
    rfl
  · rw [← Option.some.inj h]
    exact hplain
  · rw [← Option.some.inj h]
    rfl

theorem slugOut_push (out : List Char) (last : Bool) (b : Char) (h : SlugOut out last)
    (hb : isSlugChar b = true) (hkeep : ¬(b = '_' && last) = true) :
    SlugOut (out ++ [b]) (b = '_') := by
  have hfirst : b = '_' → last = false := by
    intro hunderscore
    cases last with
    | true => exact absurd (by simp [hunderscore]) hkeep
    | false => rfl
  refine ⟨?_, ?_, ?_, ?_⟩
  · intro c hc
    rcases List.mem_append.mp hc with hc | hc
    · exact h.chars c hc
    · rw [List.mem_singleton.mp hc]
      exact hb
  · refine List.isChain_append.mpr ⟨h.single, List.isChain_singleton b, ?_⟩
    rintro a ha c hc ⟨rfl, rfl⟩
    obtain rfl : b = '_' := by simpa using hc
    have hflag := h.flag.mpr (.inr ha)
    rw [hfirst rfl] at hflag
    cases hflag
  · cases out with
    | nil =>
      intro hhead
      have hunderscore : b = '_' := by simpa using hhead
      have hflag := h.flag.mpr (.inl rfl)
      rw [hfirst hunderscore] at hflag
      cases hflag
    | cons c out => exact h.head
  · simp

theorem slugLoop_out (input out : List Char) (last : Bool) (h : SlugOut out last) :
    ∃ last', SlugOut (slugLoop input out last) last' := by
  induction input generalizing out last with
  | nil => exact ⟨last, h⟩
  | cons c cs ih =>
    rw [slugLoop]
    cases hbyte : slugByte c with
    | none => exact ih out last h
    | some b =>
      dsimp only
      split
      · exact ih out last h
      · rename_i hkeep
        have hpush := slugOut_push out last b h (slugByte_chars c b hbyte) hkeep
        split
        · exact ⟨_, hpush⟩
        · exact ih _ _ hpush

/-- **Slug.** One to 63 characters, a letter first, no underscore last and no two in a row. -/
structure IsSlug (s : List Char) : Prop where
  chars : ∀ c ∈ s, isSlugChar c = true
  single : Single s
  head : ∃ c, s.head? = some c ∧ c.isLower = true
  last : s.getLast? ≠ some '_'
  length : s.length ≤ 63

theorem trim_isPrefix (s : List Char) : trimUnderscores s <+: s := List.rdropWhile_prefix _ s

theorem trim_last (s : List Char) : (trimUnderscores s).getLast? ≠ some '_' := by
  intro h
  have hne : trimUnderscores s ≠ [] := by
    rintro hnil
    rw [hnil] at h
    cases h
  have hlast := List.rdropWhile_last_not (fun c => decide (c = '_')) s hne
  rw [List.getLast?_eq_some_getLast hne] at h
  exact hlast (decide_eq_true (Option.some.inj h))

theorem trim_head (s : List Char) (c : Char) (hhead : s.head? = some c) (hc : c ≠ '_') :
    (trimUnderscores s).head? = some c := by
  have hne : trimUnderscores s ≠ [] := by
    intro hnil
    have hall := List.rdropWhile_eq_nil_iff.mp hnil c (List.mem_of_mem_head? hhead)
    exact hc (of_decide_eq_true hall)
  obtain ⟨rest, hrest⟩ := trim_isPrefix s
  rw [← hrest] at hhead
  cases htrim : trimUnderscores s with
  | nil => exact absurd htrim hne
  | cons d t =>
    rw [htrim] at hhead
    exact hhead

/-- What is left of a text with the properties of a slug, cut at the length. -/
theorem isSlug_cut (s : List Char) (hchars : ∀ c ∈ s, isSlugChar c = true) (hsingle : Single s)
    (hhead : ∃ c, s.head? = some c ∧ c.isLower = true) (hlast : s.getLast? ≠ some '_') :
    IsSlug (if maxSlugLen < s.length then trimUnderscores (s.take maxSlugLen) else s) := by
  obtain ⟨c, hc, hlower⟩ := hhead
  have hne : c ≠ '_' := by
    rintro rfl
    cases hlower
  split
  · have hfront : trimUnderscores (s.take maxSlugLen) <+: s :=
      (trim_isPrefix _).trans (List.take_prefix _ _)
    refine ⟨fun d hd => hchars d (hfront.subset hd), hsingle.prefix hfront, ⟨c, ?_, hlower⟩,
      trim_last _, ?_⟩
    · refine trim_head _ c ?_ hne
      rw [List.head?_take]
      simpa [maxSlugLen] using hc
    · exact (trim_isPrefix _).length_le.trans (List.length_take_le _ _)
  · rename_i hshort
    exact ⟨hchars, hsingle, ⟨c, hc, hlower⟩, hlast, by simpa [maxSlugLen] using hshort⟩

theorem isSlug_migration : IsSlug "migration".toList where
  chars := List.all_eq_true.mp (by decide)
  single := by
    unfold Single
    decide
  head := ⟨'m', rfl, rfl⟩
  last := by decide
  length := by decide

/-- **Sanitized names** are slugs. -/
theorem sanitizeChars_isSlug (input : List Char) : IsSlug (sanitizeChars input) := by
  obtain ⟨last, hout⟩ := slugLoop_out input [] true
    ⟨by simp, List.isChain_nil, by simp, by simp⟩
  have hfront := trim_isPrefix (slugLoop input [] true)
  have hchars (c : Char) (hc : c ∈ trimUnderscores (slugLoop input [] true)) :
      isSlugChar c = true := hout.chars c (hfront.subset hc)
  have hsingle : Single (trimUnderscores (slugLoop input [] true)) := hout.single.prefix hfront
  have hlast := trim_last (slugLoop input [] true)
  have hfirst : (trimUnderscores (slugLoop input [] true)).head? ≠ some '_' := by
    intro h
    obtain ⟨rest, hrest⟩ := hfront
    apply hout.head
    rw [← hrest, List.head?_append, h]
    rfl
  unfold sanitizeChars
  dsimp only
  generalize trimUnderscores (slugLoop input [] true) = s at hchars hsingle hlast hfirst
  cases s with
  | nil => exact isSlug_migration
  | cons c s =>
    rw [if_neg (by simp)]
    by_cases hdigit : c.isDigit = true
    · have hprefixed : (if ((c :: s).head?.any Char.isDigit) = true then digitLeadPrefix ++ c :: s
          else c :: s) = digitLeadPrefix ++ c :: s := if_pos hdigit
      rw [hprefixed]
      refine isSlug_cut _ ?_ ?_ ⟨'m', rfl, rfl⟩ ?_
      · intro d hd
        rcases List.mem_append.mp hd with hd | hd
        · have hall : ∀ d ∈ digitLeadPrefix, isSlugChar d = true :=
            List.all_eq_true.mp (by decide)
          exact hall d hd
        · exact hchars d hd
      · refine List.isChain_append.mpr ⟨?_, hsingle, ?_⟩
        · unfold digitLeadPrefix
          simp
        · rintro a - d hd ⟨-, rfl⟩
          exact hfirst hd
      · rw [List.getLast?_append]
        cases hl : (c :: s).getLast? with
        | none => simp at hl
        | some d =>
          rw [hl] at hlast
          exact hlast
    · have hplain : (if ((c :: s).head?.any Char.isDigit) = true then digitLeadPrefix ++ c :: s
          else c :: s) = c :: s := if_neg hdigit
      rw [hplain]
      refine isSlug_cut _ hchars hsingle ⟨c, rfl, ?_⟩ hlast
      have hc := hchars c List.mem_cons_self
      have hne : c ≠ '_' := by simpa using hfirst
      simpa [isSlugChar, hdigit, hne] using hc

theorem slugByte_self (c : Char) (h : isSlugChar c = true) : slugByte c = some c := by
  have hupper : ¬c.isUpper = true := by
    intro hupper
    have hrange : 65 ≤ c.toNat ∧ c.toNat ≤ 90 := isUpper_val c hupper
    unfold isSlugChar Char.isLower Char.isDigit at h
    simp only [Bool.or_eq_true, Bool.and_eq_true, decide_eq_true_eq, ge_iff_le,
      UInt32.le_iff_toNat_le] at h
    rcases h with (h | h) | rfl
    · have h' : 97 ≤ c.toNat := h.1
      omega
    · have h' : c.toNat ≤ 57 := h.2
      omega
    · revert hrange
      decide
  unfold slugByte
  rw [if_neg hupper]
  exact if_pos h

/-- The loop copies what has the properties of a slug. -/
theorem slugLoop_self (s out : List Char) (last : Bool) (hchars : ∀ c ∈ s, isSlugChar c = true)
    (hsingle : Single s) (hhead : last = true → s.head? ≠ some '_')
    (hlength : out.length + s.length < 65) : slugLoop s out last = out ++ s := by
  induction s generalizing out last with
  | nil => simp [slugLoop]
  | cons c s ih =>
    have hkeep : ¬(c = '_' && last) = true := by
      intro h
      obtain ⟨hc, hl⟩ := Bool.and_eq_true_iff.mp h
      exact hhead hl (by simpa using hc)
    rw [slugLoop, slugByte_self c (hchars c List.mem_cons_self)]
    dsimp only
    rw [if_neg hkeep, if_neg]
    · rw [ih]
      · simp
      · exact fun d hd => hchars d (List.mem_cons_of_mem _ hd)
      · exact hsingle.tail
      · intro hc hnext
        have hc' : c = '_' := by simpa using hc
        cases s with
        | nil => cases hnext
        | cons d s =>
          obtain rfl : d = '_' := by simpa using hnext
          exact (List.isChain_cons_cons.mp hsingle).1 ⟨hc', rfl⟩
      · simp only [List.length_append, List.length_cons, List.length_nil] at hlength ⊢
        omega
    · simp only [maxSlugLen, digitLeadPrefix, List.length_append, List.length_cons,
        List.length_nil] at hlength ⊢
      omega

theorem sanitizeChars_self (s : List Char) (h : IsSlug s) : sanitizeChars s = s := by
  obtain ⟨c, hhead, hlower⟩ := h.head
  have hne : c ≠ '_' := by
    rintro rfl
    cases hlower
  have hdigit : c.isDigit = false := by
    unfold Char.isLower at hlower
    unfold Char.isDigit
    simp only [Bool.and_eq_true, decide_eq_true_eq, ge_iff_le, UInt32.le_iff_toNat_le] at hlower
    simp only [Bool.and_eq_false_iff, decide_eq_false_iff_not, ge_iff_le,
      UInt32.le_iff_toNat_le]
    have h97 : 97 ≤ c.toNat := hlower.1
    right
    change ¬c.toNat ≤ 57
    omega
  have hloop : slugLoop s [] true = s := by
    have hself := slugLoop_self s [] true h.chars h.single
      (fun _ => by rw [hhead]; simpa using hne)
      (by simpa using Nat.lt_of_le_of_lt h.length (by omega))
    simpa using hself
  have htrim : trimUnderscores s = s := by
    refine List.rdropWhile_eq_self_iff.mpr fun hl hlast => h.last ?_
    rw [List.getLast?_eq_some_getLast hl]
    simpa using hlast
  unfold sanitizeChars
  rw [hloop, htrim]
  cases s with
  | nil => cases hhead
  | cons d s =>
    cases hhead
    dsimp only
    have hplain : (if ((c :: s).head?.any Char.isDigit) = true then digitLeadPrefix ++ c :: s
        else c :: s) = c :: s := if_neg (by simp [hdigit])
    rw [if_neg (by simp), hplain, if_neg]
    simpa [maxSlugLen] using h.length

theorem sanitize_idempotent (name : String) :
    sanitizeSlug (sanitizeSlug name) = sanitizeSlug name := by
  unfold sanitizeSlug
  rw [String.toList_ofList, sanitizeChars_self _ (sanitizeChars_isSlug _)]

/-! ## Instants -/

/-- A local date and clock with its offset from UTC, below one second cut off. -/
structure OffsetDateTime where
  localTime : Calendar.Moment
  offset : ℤ
  valid : localTime.Valid
  offset_range : -93600 < offset ∧ offset < 93600

/-- Seconds from the start of year zero in UTC. -/
def OffsetDateTime.seconds (t : OffsetDateTime) : ℤ := t.localTime.seconds - t.offset

def OffsetDateTime.utc (t : OffsetDateTime) : Calendar.Moment := t.localTime.shift (-t.offset)

/-- `to_offset` at UTC, which panics outside of the years of the type. -/
def OffsetDateTime.toUtc (t : OffsetDateTime) : Option Calendar.Moment :=
  if -9999 ≤ t.utc.year ∧ t.utc.year ≤ 9999 then some t.utc else none

theorem utc_spec (t : OffsetDateTime) : t.utc.Valid ∧ t.utc.seconds = t.seconds := by
  have hspec := Calendar.shift_spec t.localTime (-t.offset) t.valid
    (by have := t.offset_range; omega)
  exact ⟨hspec.1, hspec.2.trans (by unfold OffsetDateTime.seconds; ring)⟩

/-! ## Version ids -/

open Calendar Decimal

/-- `as u32` -/
def yearAsU32 (year : ℤ) : ℕ := (year % 4294967296).toNat

def versionPrefixChars (utc : Moment) : List Char :=
  'V' :: (pad 4 (yearAsU32 utc.year) ++ (pad 2 utc.month ++ (pad 2 utc.day ++
    (pad 2 utc.hour.toNat ++ (pad 2 utc.minute.toNat ++ pad 2 utc.second.toNat)))))

def versionPrefix (instant : OffsetDateTime) : Option String :=
  instant.toUtc.map fun utc => String.ofList (versionPrefixChars utc)

def versionId (prefix_ slug : String) : String := prefix_ ++ "__" ++ slug

/-- The version id of an instant and an operator's name. -/
def versionOf (instant : OffsetDateTime) (name : String) : Option String :=
  (versionPrefix instant).map fun prefix_ => versionId prefix_ (sanitizeSlug name)

/-! ## Version ids by time -/

theorem clockChars_eq (utc : Moment) (h : utc.Valid) :
    pad 2 utc.month ++ (pad 2 utc.day ++ (pad 2 utc.hour.toNat ++ (pad 2 utc.minute.toNat ++
      pad 2 utc.second.toNat))) = lastDigits 10 utc.stamp := by
  obtain ⟨hordinal, hhour, hminute, hsecond⟩ := h
  have hdays := daysInYear_cases utc.year
  obtain ⟨hmonth, hday⟩ := monthDay_range (isLeap utc.year) utc.ordinal.toNat (by omega)
  have hmonth' : utc.month < 10 ^ 2 := by unfold Moment.month; omega
  have hday' : utc.day < 10 ^ 2 := hday
  have htwo (n : ℕ) (hn : n < 10 ^ 2) := pad_eq 2 n (by omega) hn
  rw [htwo _ hmonth', htwo _ hday', htwo _ (by omega), htwo _ (by omega), htwo _ (by omega),
    ← List.append_assoc, ← lastDigits_append 2 2 _ _ hday', ← List.append_assoc,
    ← lastDigits_append 4 2 _ _ (by omega), ← List.append_assoc,
    ← lastDigits_append 6 2 _ _ (by omega), ← lastDigits_append 8 2 _ _ (by omega)]
  rfl

/-- The digits of a year before our era are those of a number near the end of `u32`. -/
theorem yearChars_eq (year : ℤ) (h : -9999 ≤ year ∧ year ≤ 9999) :
    pad 4 (yearAsU32 year) =
      if 0 ≤ year then lastDigits 4 year.toNat else lastDigits 10 (4294967296 + year).toNat := by
  unfold yearAsU32
  split
  · rw [Int.emod_eq_of_lt (by omega) (by omega)]
    exact pad_eq 4 _ (by omega) (by omega)
  · have hwrap : year % 4294967296 = 4294967296 + year := by omega
    rw [hwrap, pad, natText_eq 9 _ (by omega) (by omega), lastDigits_length]
    rfl

theorem versionPrefix_eq (utc : Moment) (h : utc.Valid) :
    versionPrefixChars utc = 'V' :: (pad 4 (yearAsU32 utc.year) ++ lastDigits 10 utc.stamp) := by
  rw [← clockChars_eq utc h]
  rfl

/-- Two texts with one width of the year are ordered by year and stamp. -/
theorem year_stamp_lt_iff (width y y' : ℕ) (a b : Moment) (ha : a.Valid) (hb : b.Valid)
    (u v : List Char) (hy : y < 10 ^ width) (hy' : y' < 10 ^ width)
    (hyear : a.year < b.year ↔ y < y') (hyear' : a.year = b.year ↔ y = y')
    (h : a.seconds ≠ b.seconds) :
    lastDigits width y ++ (lastDigits 10 a.stamp ++ u) <
      lastDigits width y' ++ (lastDigits 10 b.stamp ++ v) ↔ a.seconds < b.seconds := by
  have hastamp := stamp_lt a ha
  have hbstamp := stamp_lt b hb
  have hinj : lastDigits width y = lastDigits width y' ↔ y = y' :=
    ⟨lastDigits_inj width y y' hy hy', fun heq => by rw [heq]⟩
  rw [append_lt_append_iff _ _ _ _ (by rw [lastDigits_length, lastDigits_length]),
    append_lt_append_iff _ _ _ _ (by rw [lastDigits_length, lastDigits_length]), hinj,
    lastDigits_lt_iff width y y' hy hy', lastDigits_lt_iff 10 _ _ (by omega) (by omega),
    ← hyear, ← hyear']
  rcases lt_trichotomy a.year b.year with hlt | heq | hgt
  · have hseconds := seconds_lt_of_year a b ha hb hlt
    simp [hlt, hseconds]
  · have hdistinct : lastDigits 10 a.stamp ≠ lastDigits 10 b.stamp := by
      intro hsame
      have hstamp := lastDigits_inj 10 _ _ (by omega) (by omega) hsame
      have hab := stamp_lt_iff a b ha hb heq
      have hba := stamp_lt_iff b a hb ha heq.symm
      omega
    simp [heq, hdistinct, stamp_lt_iff a b ha hb heq]
  · have hseconds := seconds_lt_of_year b a hb ha hgt
    have hnot : ¬a.year < b.year := by omega
    have hne : a.year ≠ b.year := by omega
    simp [hnot, hne, hseconds.le]

/-- A wrapped year compares as 4294 and more. -/
theorem wrapped_lt_iff (y n : ℕ) (b : Moment) (hb : b.Valid) (u v : List Char) (hy : y < 10 ^ 4)
    (hn : 4294900000 ≤ n ∧ n < 4294967296) :
    (lastDigits 10 n ++ u < lastDigits 4 y ++ (lastDigits 10 b.stamp ++ v) ↔ 4295 ≤ y) ∧
    (lastDigits 4 y ++ (lastDigits 10 b.stamp ++ v) < lastDigits 10 n ++ u ↔ y < 4295) := by
  have hstamp := stamp_lt b hb
  have hsplit : lastDigits 10 n = lastDigits 4 4294 ++ lastDigits 6 (n % 1000000) := by
    rw [← lastDigits_append 4 6 4294 (n % 1000000) (by omega)]
    congr 1
    omega
  have hsplit' : lastDigits 10 b.stamp =
      lastDigits 6 (b.stamp / 10000) ++ lastDigits 4 (b.stamp % 10000) := by
    rw [← lastDigits_append 6 4 _ _ (by omega)]
    congr 1
    omega
  have hdiffer : lastDigits 6 (n % 1000000) ≠ lastDigits 6 (b.stamp / 10000) := by
    intro hsame
    have := lastDigits_inj 6 _ _ (by omega) (by omega) hsame
    omega
  -- the first two digits of the number are above every month
  have hbelow : b.stamp / 10000 < n % 1000000 := by omega
  have hyear : lastDigits 4 y = lastDigits 4 4294 ↔ y = 4294 :=
    ⟨lastDigits_inj 4 _ _ hy (by omega), fun h => by rw [h]⟩
  rw [hsplit, hsplit', List.append_assoc, List.append_assoc,
    append_lt_append_iff _ _ _ _ (by rw [lastDigits_length, lastDigits_length]),
    append_lt_append_iff _ _ _ _ (by rw [lastDigits_length, lastDigits_length]),
    append_lt_append_iff _ _ _ _ (by rw [lastDigits_length, lastDigits_length]),
    append_lt_append_iff _ _ _ _ (by rw [lastDigits_length, lastDigits_length]),
    lastDigits_lt_iff 4 _ _ (by omega) hy, lastDigits_lt_iff 6 _ _ (by omega) (by omega),
    lastDigits_lt_iff 4 _ _ hy (by omega), lastDigits_lt_iff 6 _ _ (by omega) (by omega), hyear]
  constructor
  · simp only [hdiffer, hbelow.not_gt, false_and, or_self, and_false, or_false]
    omega
  · simp only [hbelow, true_or, and_true]
    omega

/-- What follows the first letter of a version id. -/
def versionTail (utc : Moment) (slug : List Char) : List Char :=
  pad 4 (yearAsU32 utc.year) ++ (lastDigits 10 utc.stamp ++ ('_' :: '_' :: slug))

/-- **Order.** Version ids of two instants in a row are in a row, but for a year before our era
with a year from 0 to 4294. -/
theorem versionTail_lt_iff (a b : Moment) (ha : a.Valid) (hb : b.Valid) (u v : List Char)
    (hayear : -9999 ≤ a.year ∧ a.year ≤ 9999) (hbyear : -9999 ≤ b.year ∧ b.year ≤ 9999)
    (h : a.seconds ≠ b.seconds) :
    (versionTail a u < versionTail b v ↔ a.seconds < b.seconds) ↔
      (a.year < 0 → 0 ≤ b.year → 4295 ≤ b.year) ∧ (b.year < 0 → 0 ≤ a.year → 4295 ≤ a.year) := by
  unfold versionTail
  rw [yearChars_eq a.year hayear, yearChars_eq b.year hbyear]
  by_cases hapos : 0 ≤ a.year
  · by_cases hbpos : 0 ≤ b.year
    · rw [if_pos hapos, if_pos hbpos, year_stamp_lt_iff 4 _ _ a b ha hb _ _ (by omega) (by omega)
        (by omega) (by omega) h]
      exact iff_of_true Iff.rfl ⟨by omega, by omega⟩
    · have hseconds := seconds_lt_of_year b a hb ha (by omega)
      rw [if_pos hapos, if_neg hbpos,
        (wrapped_lt_iff _ _ a ha _ _ (by omega : a.year.toNat < 10 ^ 4) (by omega)).2]
      omega
  · by_cases hbpos : 0 ≤ b.year
    · have hseconds := seconds_lt_of_year a b ha hb (by omega)
      rw [if_neg hapos, if_pos hbpos,
        (wrapped_lt_iff _ _ b hb _ _ (by omega : b.year.toNat < 10 ^ 4) (by omega)).1]
      omega
    · rw [if_neg hapos, if_neg hbpos, year_stamp_lt_iff 10 _ _ a b ha hb _ _ (by omega) (by omega)
        (by omega) (by omega) h]
      exact iff_of_true Iff.rfl ⟨by omega, by omega⟩

end Djogi

import Djogi.Lib.SqlTypeText
import Djogi.Live.TypeChange

/-!
# Readings of type texts

What the hand-written parsers of `live_migrate/classify.rs` make of the texts of a type.

* `body_of_spells`: trimming and lower case leave the body of a text;
* `body_reads`: what the parsers read in a body.
-/

namespace Djogi.Live

open Text SqlTypes

/-! ## Blanks and trimming -/

theorem isWhitespace_of_blank (c : Char) (h : Postgres.isBlank c = true) :
    isWhitespace c = true := by
  simp only [Postgres.isBlank, List.contains_iff_mem, List.mem_cons, List.not_mem_nil,
    or_false] at h
  rcases h with rfl | rfl | rfl | rfl | rfl | rfl <;> rfl

/-- ASCII characters above the blank are not trimmed. -/
theorem not_whitespace_of_range (c : Char) (h : 33 ≤ c.toNat ∧ c.toNat ≤ 126) :
    isWhitespace c = false := by
  unfold isWhitespace
  simp only [Bool.or_eq_false_iff, Bool.and_eq_false_iff, decide_eq_false_iff_not]
  omega

theorem isWhitespace_toLower (c : Char) : isWhitespace c.toLower = isWhitespace c := by
  unfold Char.toLower
  split
  · rename_i hupper
    have hupper' : 65 ≤ c.toNat ∧ c.toNat ≤ 90 := hupper
    have hval : (c.val + ('a'.val - 'A'.val)).toNat = c.toNat + 32 := by
      rw [UInt32.toNat_add]
      have hconst : ('a'.val - 'A'.val).toNat = 32 := rfl
      have hsame : c.val.toNat = c.toNat := rfl
      omega
    rw [not_whitespace_of_range c (by omega), not_whitespace_of_range]
    change 33 ≤ (c.val + ('a'.val - 'A'.val)).toNat ∧ (c.val + ('a'.val - 'A'.val)).toNat ≤ 126
    omega
  · rfl

/-- The ends of a text that trimming keeps. -/
def KeptEnds (t : List Char) : Prop :=
  (∃ c, t.head? = some c ∧ isWhitespace c = false) ∧
    ∃ c, t.getLast? = some c ∧ isWhitespace c = false

theorem dropWhile_blanks (before t : List Char) (hbefore : Blanks before)
    (ht : ∃ c, t.head? = some c ∧ isWhitespace c = false) :
    (before ++ t).dropWhile isWhitespace = t := by
  rw [List.dropWhile_append_of_pos fun c hc => isWhitespace_of_blank c (hbefore c hc)]
  obtain ⟨c, hhead, hc⟩ := ht
  cases t with
  | nil => cases hhead
  | cons d t =>
    cases hhead
    rw [List.dropWhile_cons_of_neg (by simp [hc])]

theorem trimChars_padded (part t : List Char) (hends : KeptEnds part) (ht : Padded part t) :
    trimChars t = part := by
  obtain ⟨before, after, hbefore, hafter, rfl⟩ := ht
  obtain ⟨⟨c, hhead, hc⟩, d, hlast, hd⟩ := hends
  have hhead' : (part ++ after).head? = some c := by
    cases part with
    | nil => cases hhead
    | cons e part => exact hhead
  unfold trimChars
  rw [List.append_assoc, dropWhile_blanks before _ hbefore ⟨c, hhead', hc⟩, List.reverse_append,
    dropWhile_blanks, List.reverse_reverse]
  · intro e he
    exact hafter e (List.mem_reverse.mp he)
  · exact ⟨d, by rw [List.head?_reverse, hlast], hd⟩

theorem not_whitespace_of_alphanum (c : Char) (h : c.isAlphanum = true) :
    isWhitespace c = false := by
  apply not_whitespace_of_range
  unfold Char.isAlphanum Char.isAlpha Char.isUpper Char.isLower Char.isDigit at h
  simp only [Bool.or_eq_true, Bool.and_eq_true, decide_eq_true_eq, ge_iff_le,
    UInt32.le_iff_toNat_le] at h
  change ((65 ≤ c.toNat ∧ c.toNat ≤ 90) ∨ (97 ≤ c.toNat ∧ c.toNat ≤ 122)) ∨
    (48 ≤ c.toNat ∧ c.toNat ≤ 57) at h
  omega

theorem keptEnds_of_solid (t : List Char) (h : Solid t) : KeptEnds t := by
  obtain ⟨⟨c, hhead, hc⟩, d, hlast, hd⟩ := h
  refine ⟨⟨c, hhead, not_whitespace_of_alphanum c hc⟩, d, hlast, ?_⟩
  rcases hd with hd | rfl
  · exact not_whitespace_of_alphanum d hd
  · rfl

/-- The text that the parsers see is the body of the type. -/
theorem body_of_spells (A : SqlType) (text : List Char) (h : Spells A text) :
    Body A (toAsciiLowercase (trimChars text)) := by
  obtain ⟨before, body, after, hbefore, hafter, hbody, htext⟩ := h
  have htrim : toAsciiLowercase (trimChars text) = trimChars (text.map Char.toLower) := by
    have hws : isWhitespace ∘ Char.toLower = isWhitespace := funext isWhitespace_toLower
    simp only [toAsciiLowercase, trimChars, List.dropWhile_map, hws, ← List.map_reverse]
  rw [htrim, htext, trimChars_padded body _ (keptEnds_of_solid body (body_solid A body hbody))
    ⟨before, after, hbefore, hafter, rfl⟩]
  exact hbody

/-! ## Readings -/

/-- What the parsers read in a normalized text. -/
structure Reading where
  width : Option ℕ
  chars : Option (CharKind × Option ℕ)
  typmod : Option NumericTypmod
  isText : Bool
  deriving DecidableEq

def reading (t : List Char) : Reading :=
  ⟨canonicalIntWidth t, parseVarchar t, parseNumericParams t, t = "text".toList⟩

/-- The readings that the texts of a type have. -/
def Reads : SqlType → Reading → Prop
  | .int w, r => r = ⟨some w.bits, none, none, false⟩
  | .text, r => r = ⟨none, none, none, true⟩
  | .varchar n, r => r = ⟨none, some (.varchar, n), none, false⟩ ∨ r = ⟨none, none, none, false⟩
  | .char n, r => r = ⟨none, some (.char, some n), none, false⟩ ∨
      n = 1 ∧ r = ⟨none, some (.char, none), none, false⟩
  | .numeric none, r => r = ⟨none, none, some .unbounded, false⟩
  | .numeric (some (p, s)), r =>
      (0 ≤ s ∧ r = ⟨none, none, some (.bounded p s.toNat), false⟩) ∨
        s < 0 ∧ r = ⟨none, none, none, false⟩

theorem width_kind (t : List Char) (w : ℕ) (h : canonicalIntWidth t = some w) :
    kindOf t = .int := by
  unfold canonicalIntWidth at h
  split_ifs at h with h64 h32 h16
  · rcases h64 with rfl | rfl <;> rfl
  · rcases h32 with rfl | rfl | rfl <;> rfl
  · rcases h16 with rfl | rfl <;> rfl

theorem trimmed_body (A : SqlType) (t : List Char) (h : Body A t) : trimChars t = t :=
  trimChars_padded t t (keptEnds_of_solid t (body_solid A t h))
    ⟨[], [], by simp [Blanks], by simp [Blanks], by simp⟩

theorem typmod_kind (A : SqlType) (t : List Char) (hA : Body A t) (m : NumericTypmod)
    (h : parseNumericParams t = some m) : A.kind = .numeric := by
  rw [← body_kind A t hA]
  simp only [parseNumericParams, trimmed_body A t hA] at h
  obtain ⟨rest, hrest, -⟩ := Option.bind_eq_some_iff.mp h
  rcases Option.or_eq_some_iff.mp hrest with hrest | ⟨-, hrest⟩
  · rw [stripPrefix_some _ _ _ hrest]
    exact kindOf_numeric _ rest (.inl rfl)
  · rw [stripPrefix_some _ _ _ hrest]
    exact kindOf_numeric _ rest (.inr rfl)

theorem chars_kind (A : SqlType) (t : List Char) (hA : Body A t) (k : CharKind × Option ℕ)
    (h : parseVarchar t = some k) : A.kind = .varchar ∨ A.kind = .char := by
  rw [← body_kind A t hA]
  simp only [parseVarchar, trimmed_body A t hA] at h
  obtain ⟨⟨kind, rest⟩, hkind, -⟩ := Option.bind_eq_some_iff.mp h
  have hhead : t.head? = some 'c' ∨ t.head? = some 'v' := by
    unfold charKind at hkind
    split at hkind
    · rename_i hstrip
      rw [stripPrefix_some _ _ _ hstrip]
      exact .inl rfl
    · split at hkind
      · rename_i hstrip
        rw [stripPrefix_some _ _ _ hstrip]
        exact .inr rfl
      · split at hkind
        · rename_i hstrip
          rw [stripPrefix_some _ _ _ hstrip]
          exact .inl rfl
        · obtain ⟨rest', hstrip, -⟩ := Option.map_eq_some_iff.mp hkind
          rw [stripPrefix_some _ _ _ hstrip]
          exact .inl rfl
  unfold kindOf
  rcases hhead with hhead | hhead
  · rw [hhead]
    by_cases hv : 'v' ∈ t <;> simp [hv]
  · rw [hhead]
    by_cases hv : 'v' ∈ t <;> simp [hv]

theorem numeral_keptEnds (n : ℕ) (digits : List Char) (h : Numeral n digits) :
    KeptEnds digits := by
  obtain ⟨hne, hdigits, -⟩ := h
  have hkept (c : Char) (hc : c ∈ digits) : isWhitespace c = false :=
    not_whitespace_of_alphanum c (by simp [Char.isAlphanum, hdigits c hc])
  exact ⟨⟨digits.head hne, List.head?_eq_some_head hne, hkept _ (List.head_mem hne)⟩,
    digits.getLast hne, List.getLast?_eq_some_getLast hne, hkept _ (List.getLast_mem hne)⟩

theorem parseU32_numeral (n : ℕ) (digits : List Char) (h : Numeral n digits)
    (hn : n ≤ 4294967295) : parseU32 digits = some n := by
  obtain ⟨hne, hdigits, hvalue⟩ := h
  have hplus : digits.head? ≠ some '+' := by
    intro hhead
    have := hdigits '+' (List.mem_of_mem_head? hhead)
    cases this
  have hsame : digitsValue digits = n := hvalue
  simp only [parseU32, if_neg hplus, hsame]
  rw [if_pos ⟨hne, List.all_eq_true.mpr hdigits, hn⟩]

theorem trimStart_parens (inner rest : List Char) (h : Parens inner rest) :
    trimStartChars rest = '(' :: (inner ++ [')']) := by
  obtain ⟨gap, hgap, rfl⟩ := h
  exact dropWhile_blanks gap _ hgap ⟨'(', rfl, rfl⟩

theorem parenthesized_parens (inner : List Char) :
    parenthesized ('(' :: (inner ++ [')'])) = some (trimChars inner) := by
  have hlast : ('(' :: (inner ++ [')'])).getLast? = some ')' := by
    rw [← List.cons_append, List.getLast?_concat]
  rw [parenthesized, if_pos ⟨rfl, hlast⟩, List.tail_cons, List.dropLast_concat]

/-- What the length parser makes of the text behind a name. -/
def lengthIn (kind : CharKind) (rest : List Char) : Option (CharKind × Option ℕ) :=
  if (trimStartChars rest).isEmpty then some (kind, none)
  else (parenthesized (trimStartChars rest)).bind fun inner =>
    (parseU32 inner).map fun len => (kind, some len)

theorem lengthIn_length (kind : CharKind) (n : ℕ) (rest : List Char) (h : Length n rest) :
    lengthIn kind rest = some (kind, some n) := by
  obtain ⟨-, hn, digits, inner, hdigits, hinner, hparens⟩ := h
  unfold lengthIn
  rw [trimStart_parens inner rest hparens, parenthesized_parens,
    trimChars_padded digits inner (numeral_keptEnds n digits hdigits) hinner, if_neg (by simp),
    Option.bind_some, parseU32_numeral n digits hdigits (by omega)]
  rfl

/-- The kind of a text, and what stands behind its name. -/
theorem parseVarchar_eq (t : List Char) (htrim : trimChars t = t) (kind : CharKind)
    (rest : List Char) (h : charKind t = some (kind, trimStartChars rest)) :
    parseVarchar t = lengthIn kind rest := by
  rw [parseVarchar, htrim, h]
  rfl

theorem charKind_varchar (rest : List Char) :
    charKind ("varchar".toList ++ rest) = some (.varchar, trimStartChars rest) := by
  have hother : stripPrefix "character varying".toList ("varchar".toList ++ rest) = none :=
    stripPrefix_eq_none _ _ (by rintro ⟨s, hs⟩; cases hs)
  rw [charKind, hother]
  dsimp only
  rw [stripPrefix_append]

theorem charKind_varying (rest : List Char) :
    charKind ("character varying".toList ++ rest) = some (.varchar, trimStartChars rest) := by
  rw [charKind, stripPrefix_append]

/-- Behind `char` and `character` no `v` follows. -/
theorem charKind_char (name rest : List Char) (hname : CharName name) (hv : 'v' ∉ rest)
    (ha : 'a' ∉ rest) : charKind (name ++ rest) = some (.char, trimStartChars rest) := by
  have hvarying : stripPrefix "character varying".toList (name ++ rest) = none := by
    apply stripPrefix_eq_none
    rintro ⟨s, hs⟩
    have hmem : 'v' ∈ name ++ rest := by simp [← hs]
    rcases List.mem_append.mp hmem with hmem | hmem
    · revert hmem
      rcases hname with rfl | rfl <;> decide
    · exact hv hmem
  have hvarchar : stripPrefix "varchar".toList (name ++ rest) = none := by
    apply stripPrefix_eq_none
    rintro ⟨s, hs⟩
    rcases hname with rfl | rfl <;> cases hs
  rw [charKind, hvarying]
  dsimp only
  rw [hvarchar]
  dsimp only
  rcases hname with rfl | rfl
  · have hcharacter : stripPrefix "character".toList ("char".toList ++ rest) = none := by
      apply stripPrefix_eq_none
      rintro ⟨s, hs⟩
      rw [show "character".toList = "char".toList ++ "acter".toList by decide,
        List.append_assoc] at hs
      exact ha (by simp [← List.append_cancel_left hs])
    rw [hcharacter]
    dsimp only
    rw [stripPrefix_append]
    rfl
  · rw [stripPrefix_append]

theorem padded_self (t : List Char) : Padded t t :=
  ⟨[], [], by simp [Blanks], by simp [Blanks], by simp⟩

/-- A name of two words with another gap between them is not read. -/
theorem charKind_gap (gap rest : List Char) (hgap : Blanks gap) (hne : gap ≠ [])
    (hother : gap ≠ [' ']) :
    charKind ("character".toList ++ gap ++ "varying".toList ++ rest) =
      some (.char, "varying".toList ++ rest) := by
  set t := "character".toList ++ gap ++ "varying".toList ++ rest with ht
  have hvarying : stripPrefix "character varying".toList t = none := by
    apply stripPrefix_eq_none
    rintro ⟨s, hs⟩
    rw [ht, show "character varying".toList = "character".toList ++ ' ' :: 'v' :: "arying".toList
      by decide] at hs
    simp only [List.append_assoc, List.cons_append] at hs
    have hs := List.append_cancel_left hs
    cases gap with
    | nil => exact hne rfl
    | cons c gap =>
      obtain ⟨hc, hs⟩ := List.cons.inj hs
      cases gap with
      | nil => exact hother (by rw [hc])
      | cons d gap =>
        obtain ⟨hd, -⟩ := List.cons.inj hs
        have hblank := hgap d (by simp)
        rw [← hd] at hblank
        cases hblank
  have hvarchar : stripPrefix "varchar".toList t = none := by
    apply stripPrefix_eq_none
    rintro ⟨s, hs⟩
    rw [ht] at hs
    cases hs
  have hstart : trimStartChars (gap ++ ("varying".toList ++ rest)) = "varying".toList ++ rest :=
    dropWhile_blanks gap _ hgap ⟨'v', rfl, rfl⟩
  rw [charKind, hvarying]
  dsimp only
  rw [hvarchar]
  dsimp only
  rw [ht, List.append_assoc, List.append_assoc, stripPrefix_append]
  dsimp only
  rw [hstart]

theorem parseVarchar_gap (gap rest : List Char) (hgap : Blanks gap) (hne : gap ≠ [])
    (hother : gap ≠ [' '])
    (htrim : trimChars ("character".toList ++ gap ++ "varying".toList ++ rest) =
      "character".toList ++ gap ++ "varying".toList ++ rest) :
    parseVarchar ("character".toList ++ gap ++ "varying".toList ++ rest) = none := by
  rw [parseVarchar, htrim, charKind_gap gap rest hgap hne hother]
  have hparens : parenthesized ("varying".toList ++ rest) = none := by
    rw [parenthesized, if_neg]
    rintro ⟨hhead, -⟩
    cases hhead
  rw [Option.bind_some]
  dsimp only
  rw [if_neg (by simp), hparens]
  rfl

theorem lengthIn_nil (kind : CharKind) : lengthIn kind [] = some (kind, none) := rfl

/-- A name of this kind is read, or has another gap. -/
theorem parseVarchar_varchar (name rest : List Char) (hname : VarcharName name)
    (htrim : trimChars (name ++ rest) = name ++ rest) :
    parseVarchar (name ++ rest) = lengthIn .varchar rest ∨ parseVarchar (name ++ rest) = none := by
  rcases hname with rfl | ⟨gap, hne, hgap, rfl⟩
  · exact .inl (parseVarchar_eq _ htrim _ _ (charKind_varchar rest))
  · by_cases hone : gap = [' ']
    · subst hone
      exact .inl (parseVarchar_eq _ htrim _ _ (charKind_varying rest))
    · exact .inr (parseVarchar_gap gap rest hgap hne hone htrim)

theorem parseVarchar_char (name rest : List Char) (hname : CharName name)
    (htrim : trimChars (name ++ rest) = name ++ rest) (hv : 'v' ∉ rest) (ha : 'a' ∉ rest) :
    parseVarchar (name ++ rest) = lengthIn .char rest :=
  parseVarchar_eq _ htrim _ _ (charKind_char name rest hname hv ha)

/-! ## Decimal parameters -/

theorem splitChars_of_notMem (sep : Char) (s : List Char) (h : sep ∉ s) :
    splitChars sep s = [s] := by
  induction s with
  | nil => rfl
  | cons c s ih =>
    obtain ⟨hc, hs⟩ := not_or.mp (mt List.mem_cons.mpr h)
    rw [splitChars, if_neg (Ne.symm hc), ih hs]

theorem splitChars_cons (sep : Char) (s rest : List Char) (h : sep ∉ s) :
    splitChars sep (s ++ sep :: rest) = s :: splitChars sep rest := by
  induction s with
  | nil => rw [List.nil_append, splitChars, if_pos rfl]
  | cons c s ih =>
    obtain ⟨hc, hs⟩ := not_or.mp (mt List.mem_cons.mpr h)
    rw [List.cons_append, splitChars, if_neg (Ne.symm hc), ih hs]

/-- The text of a scale parses when it has no sign. -/
theorem parseU32_signed (s : ℤ) (t : List Char) (h : Signed s t) (hs : s ≤ 1000) :
    parseU32 t = if 0 ≤ s then some s.toNat else none := by
  rcases h with ⟨n, hn, rfl⟩ | ⟨n, gap, digits, hpos, -, -, rfl, rfl⟩
  · rw [if_pos (by omega), Int.toNat_natCast]
    exact parseU32_numeral n t hn (by omega)
  · rw [if_neg (by omega), parseU32, if_neg]
    rintro ⟨-, hall, -⟩
    revert hall
    simp

theorem signed_keptEnds (s : ℤ) (t : List Char) (h : Signed s t) : KeptEnds t := by
  rcases h with ⟨n, hn, -⟩ | ⟨n, gap, digits, -, hdigits, -, rfl, -⟩
  · exact numeral_keptEnds n t hn
  · obtain ⟨-, d, hlast, hd⟩ := numeral_keptEnds n digits hdigits
    refine ⟨⟨'-', rfl, rfl⟩, d, ?_, hd⟩
    rw [← List.cons_append, List.getLast?_append, hlast]
    rfl

theorem signed_notMem (s : ℤ) (t : List Char) (h : Signed s t) : ',' ∉ t := by
  rcases h with ⟨n, hn, -⟩ | ⟨n, gap, digits, -, hdigits, hgap, rfl, -⟩
  · exact numeral_notMem n t hn ',' rfl
  · simp [blanks_notMem gap hgap ',' rfl, numeral_notMem n digits hdigits ',' rfl]

theorem parseTypmod_precision (p : ℕ) (inner : List Char) (h : Precision p inner) :
    parseTypmod (trimChars inner) = some (.bounded p 0) := by
  obtain ⟨-, hp, digits, hdigits, hinner⟩ := h
  have hends := numeral_keptEnds p digits hdigits
  rw [trimChars_padded digits inner hends hinner, parseTypmod,
    splitChars_of_notMem ',' digits (numeral_notMem p digits hdigits ',' rfl),
    if_neg (by simp [hdigits.1])]
  dsimp only
  rw [trimChars_padded digits digits hends (padded_self digits),
    parseU32_numeral p digits hdigits (by omega)]
  rfl

theorem parseTypmod_scale (p : ℕ) (s : ℤ) (left right : List Char) (hp : Precision p left)
    (hs : Scale s right) :
    parseTypmod (trimChars (left ++ ',' :: right)) =
      if 0 ≤ s then some (.bounded p s.toNat) else none := by
  obtain ⟨-, hp, digits, hdigits, before, after, hbefore, hafter, rfl⟩ := hp
  obtain ⟨-, hs, signed, hsigned, before', after', hbefore', hafter', rfl⟩ := hs
  have hends := numeral_keptEnds p digits hdigits
  have hends' := signed_keptEnds s signed hsigned
  have htrim : trimChars (before ++ digits ++ after ++ ',' :: (before' ++ signed ++ after')) =
      (digits ++ after) ++ ',' :: (before' ++ signed) := by
    refine trimChars_padded _ _ ⟨?_, ?_⟩ ⟨before, after', hbefore, hafter', by simp⟩
    · obtain ⟨⟨c, hhead, hc⟩, -⟩ := hends
      refine ⟨c, ?_, hc⟩
      rw [List.append_assoc, List.head?_append, hhead]
      rfl
    · obtain ⟨-, d, hlast, hd⟩ := hends'
      refine ⟨d, ?_, hd⟩
      rw [← List.cons_append, ← List.append_assoc, List.getLast?_append, hlast]
      rfl
  have hcomma : ',' ∉ digits ++ after := by
    simp [numeral_notMem p digits hdigits ',' rfl, blanks_notMem after hafter ',' rfl]
  have hcomma' : ',' ∉ before' ++ signed := by
    simp [signed_notMem s signed hsigned, blanks_notMem before' hbefore' ',' rfl]
  rw [htrim, parseTypmod, splitChars_cons ',' _ _ hcomma, splitChars_of_notMem ',' _ hcomma',
    if_neg (by simp)]
  dsimp only
  rw [trimChars_padded digits _ hends ⟨[], after, by simp [Blanks], hafter, by simp⟩,
    trimChars_padded signed _ hends' ⟨before', [], hbefore', by simp [Blanks], by simp⟩,
    parseU32_numeral p digits hdigits (by omega), parseU32_signed s signed hsigned hs]
  split_ifs <;> rfl

theorem numeric_rest (name rest : List Char) (hname : NumericName name) :
    (stripPrefix "numeric".toList (name ++ rest)).or
      (stripPrefix "decimal".toList (name ++ rest)) = some rest := by
  rcases hname with rfl | rfl
  · rw [stripPrefix_append]
    rfl
  · rw [stripPrefix_append, stripPrefix_eq_none]
    · rfl
    · rintro ⟨s, hs⟩
      cases hs

theorem parseNumericParams_parens (name inner rest : List Char) (hname : NumericName name)
    (hparens : Parens inner rest) (htrim : trimChars (name ++ rest) = name ++ rest) :
    parseNumericParams (name ++ rest) = parseTypmod (trimChars inner) := by
  rw [parseNumericParams]
  dsimp only
  rw [htrim, numeric_rest name rest hname, Option.bind_some, trimStart_parens inner rest hparens,
    if_neg (by simp), parenthesized_parens, Option.bind_some]

/-! ## The readings of each type -/

theorem chars_none (A : SqlType) (t : List Char) (h : Body A t)
    (hkind : A.kind ≠ .varchar ∧ A.kind ≠ .char) : parseVarchar t = none := by
  cases hchars : parseVarchar t with
  | none => rfl
  | some k =>
    rcases chars_kind A t h k hchars with hA | hA
    · exact absurd hA hkind.1
    · exact absurd hA hkind.2

theorem typmod_none (A : SqlType) (t : List Char) (h : Body A t) (hkind : A.kind ≠ .numeric) :
    parseNumericParams t = none := by
  cases htypmod : parseNumericParams t with
  | none => rfl
  | some m => exact absurd (typmod_kind A t h m htypmod) hkind

theorem width_none (A : SqlType) (t : List Char) (h : Body A t) (hkind : A.kind ≠ .int) :
    canonicalIntWidth t = none := by
  cases hwidth : canonicalIntWidth t with
  | none => rfl
  | some w => exact absurd ((body_kind A t h).symm.trans (width_kind t w hwidth)) hkind

theorem isText_false (A : SqlType) (t : List Char) (h : Body A t) (hkind : A.kind ≠ .text) :
    decide (t = "text".toList) = false := by
  rw [decide_eq_false_iff_not]
  rintro rfl
  exact hkind (body_kind A _ h).symm

/-- **Readings.** What the parsers read in a text of a type. -/
theorem body_reads (A : SqlType) (t : List Char) (h : Body A t) : Reads A (reading t) := by
  have htrim := trimmed_body A t h
  unfold reading
  cases A with
  | int w =>
    have hwidth : canonicalIntWidth t = some w.bits := by
      cases h with
      | int _ name hname =>
        have hall : ∀ w, ∀ name ∈ intNames w, canonicalIntWidth name.toList = some w.bits := by
          intro w
          cases w <;> decide
        exact hall w name hname
    rw [hwidth, chars_none _ t h (by simp [SqlType.kind]),
      typmod_none _ t h (by simp [SqlType.kind]), isText_false _ t h (by simp [SqlType.kind])]
    rfl
  | text =>
    rw [width_none _ t h (by simp [SqlType.kind]), chars_none _ t h (by simp [SqlType.kind]),
      typmod_none _ t h (by simp [SqlType.kind])]
    cases h
    rfl
  | varchar n =>
    rw [width_none _ t h (by simp [SqlType.kind]), typmod_none _ t h (by simp [SqlType.kind]),
      isText_false _ t h (by simp [SqlType.kind])]
    have hchars : parseVarchar t = some (.varchar, n) ∨ parseVarchar t = none := by
      cases h with
      | varchar _ hname =>
        have hread := parseVarchar_varchar t [] hname (by rwa [List.append_nil])
        rwa [List.append_nil, lengthIn_nil] at hread
      | varcharLength name rest n hname hlength =>
        rw [← lengthIn_length .varchar n rest hlength]
        exact parseVarchar_varchar name rest hname htrim
    rcases hchars with hchars | hchars
    · exact .inl (by rw [hchars])
    · exact .inr (by rw [hchars])
  | char n =>
    rw [width_none _ t h (by simp [SqlType.kind]), typmod_none _ t h (by simp [SqlType.kind]),
      isText_false _ t h (by simp [SqlType.kind])]
    cases h with
    | char _ hname =>
      have hread := parseVarchar_char t [] hname (by rwa [List.append_nil]) (by simp) (by simp)
      rw [List.append_nil, lengthIn_nil] at hread
      exact .inr ⟨rfl, by rw [hread]⟩
    | charLength name rest n hname hlength =>
      have hread := parseVarchar_char name rest hname htrim
        (length_notMem n rest hlength 'v' rfl (by decide) rfl)
        (length_notMem n rest hlength 'a' rfl (by decide) rfl)
      exact .inl (by rw [hread, lengthIn_length .char n rest hlength])
  | numeric params =>
    rw [width_none _ t h (by simp [SqlType.kind]), chars_none _ t h (by simp [SqlType.kind]),
      isText_false _ t h (by simp [SqlType.kind])]
    cases h with
    | numeric _ hname =>
      have hrest := numeric_rest t [] hname
      rw [List.append_nil] at hrest
      rw [parseNumericParams]
      dsimp only
      rw [htrim, hrest]
      rfl
    | precision name inner rest p hname hp hparens =>
      rw [parseNumericParams_parens name inner rest hname hparens htrim,
        parseTypmod_precision p inner hp]
      exact .inl ⟨le_rfl, rfl⟩
    | scale name left right rest p s hname hp hs hparens =>
      rw [parseNumericParams_parens name _ rest hname hparens htrim,
        parseTypmod_scale p s left right hp hs]
      by_cases hsign : 0 ≤ s
      · exact .inl ⟨hsign, by rw [if_pos hsign]⟩
      · exact .inr ⟨by omega, by rw [if_neg hsign]⟩

end Djogi.Live

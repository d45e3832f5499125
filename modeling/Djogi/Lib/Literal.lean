import Djogi.Lib.Postgres

/-!
# Literals of SQL

The texts that are exactly one constant, and calls outside of constants.

* `rest_standard`, `rest_escape`, `rest_dollar`: a string constant is one piece;
* `noCall_of_literal`: no literal has a call in it.
-/

namespace Postgres

/-! ## Grammar -/

/-- The inside of a standard string: quotes are doubled. -/
inductive StandardBody : List Char → Prop
  | nil : StandardBody []
  | char (c : Char) (s : List Char) (hc : c ≠ '\'') (hs : StandardBody s) : StandardBody (c :: s)
  | doubled (s : List Char) (hs : StandardBody s) : StandardBody ('\'' :: '\'' :: s)

/-- The inside of an escape string: a backslash takes the next character with it. -/
inductive EscapeBody : List Char → Prop
  | nil : EscapeBody []
  | char (c : Char) (s : List Char) (hc : c ≠ '\'') (hb : c ≠ '\\') (hs : EscapeBody s) :
      EscapeBody (c :: s)
  | doubled (s : List Char) (hs : EscapeBody s) : EscapeBody ('\'' :: '\'' :: s)
  | escaped (c : Char) (s : List Char) (hs : EscapeBody s) : EscapeBody ('\\' :: c :: s)

def IsStandardString (s : List Char) : Prop :=
  ∃ body, StandardBody body ∧ s = '\'' :: (body ++ ['\''])

def IsEscapeString (s : List Char) : Prop :=
  ∃ e body, (e = 'E' ∨ e = 'e') ∧ EscapeBody body ∧ s = e :: '\'' :: (body ++ ['\''])

/-- A text ends with a word and does not have it before. -/
def MeetsAtEnd (word s : List Char) : Prop :=
  word <:+ s ∧ ∀ before after, s = before ++ (word ++ after) → after = []

def IsDollarString (s : List Char) : Prop :=
  ∃ tag text, isTag tag = true ∧ MeetsAtEnd (delimiter tag) text ∧ s = delimiter tag ++ text

def IsSign (s : List Char) : Prop := s = [] ∨ s = ['+'] ∨ s = ['-']

def IsDigits (s : List Char) : Prop := ∀ c ∈ s, c.isDigit = true

def IsExponent (s : List Char) : Prop :=
  s = [] ∨ ∃ e sign digits, (e = 'e' ∨ e = 'E') ∧ IsSign sign ∧ IsDigits digits ∧ digits ≠ [] ∧
    s = e :: (sign ++ digits)

/-- The digits of a number: whole ones, and behind a point the others. -/
def IsMantissa (s : List Char) : Prop :=
  IsDigits s ∧ s ≠ [] ∨
    ∃ whole fraction, IsDigits whole ∧ IsDigits fraction ∧ whole ++ fraction ≠ [] ∧
      s = whole ++ '.' :: fraction

/-- A signed number with at least one digit in front of its exponent. -/
def IsNumber (s : List Char) : Prop :=
  ∃ sign mantissa exponent, IsSign sign ∧ IsMantissa mantissa ∧ IsExponent exponent ∧
    s = sign ++ (mantissa ++ exponent)

def IsKeyword (s : List Char) : Prop :=
  s.map Char.toLower ∈ ["true".toList, "false".toList, "null".toList]

def IsLiteral (s : List Char) : Prop :=
  IsStandardString s ∨ IsEscapeString s ∨ IsDollarString s ∨ IsNumber s ∨ IsKeyword s

/-! ## Constants are pieces -/

theorem skipQuoted_standard (body r : List Char) (h : StandardBody body)
    (hr : r.head? ≠ some '\'') : skipQuoted '\'' (body ++ '\'' :: r) = r := by
  induction h with
  | nil =>
    cases r with
    | nil => rfl
    | cons c r =>
      have hc : c ≠ '\'' := fun h => hr (by rw [h]; rfl)
      simp [skipQuoted, hc]
  | char c s hc _ ih =>
    cases s with
    | nil => simpa [skipQuoted, hc] using ih
    | cons d s => simpa [skipQuoted, hc] using ih
  | doubled s _ ih => simpa [skipQuoted] using ih

theorem skipEscape_escape (body r : List Char) (h : EscapeBody body)
    (hr : r.head? ≠ some '\'') : skipEscape (body ++ '\'' :: r) = r := by
  induction h with
  | nil =>
    cases r with
    | nil => rfl
    | cons c r =>
      have hc : c ≠ '\'' := fun h => hr (by rw [h]; rfl)
      simp [skipEscape, hc]
  | char c s hc hb _ ih =>
    cases s with
    | nil => simpa [skipEscape, hc, hb] using ih
    | cons d s => simpa [skipEscape, hc, hb] using ih
  | doubled s _ ih => simpa [skipEscape] using ih
  | escaped c s _ ih => simpa [skipEscape] using ih

theorem skipTo_meets (word s : List Char) (h : MeetsAtEnd word s) :
    skipTo word s = [] := by
  induction s with
  | nil => rfl
  | cons c s ih =>
    rw [skipTo]
    split
    · rename_i hfront
      obtain ⟨after, hafter⟩ := List.isPrefixOf_iff_prefix.mp hfront
      obtain rfl := h.2 [] after hafter.symm
      rw [List.append_nil] at hafter
      have hlen : s.length = word.length - 1 := by
        rw [hafter]
        rfl
      rw [← hlen, List.drop_length]
    · rename_i hfront
      refine ih ⟨?_, fun before after hs => ?_⟩
      · obtain ⟨before, hbefore⟩ := h.1
        cases before with
        | nil =>
          exfalso
          refine hfront (List.isPrefixOf_iff_prefix.mpr ?_)
          rw [← hbefore]
          exact List.prefix_rfl
        | cons b before =>
          injection hbefore with _ hs
          exact ⟨before, hs⟩
      · exact h.2 (c :: before) after (by rw [hs]; rfl)

theorem rest_standard (s : List Char) (h : IsStandardString s) : rest s = [] := by
  obtain ⟨body, hbody, rfl⟩ := h
  simpa [rest] using skipQuoted_standard body [] hbody (by simp)

theorem rest_escape (s : List Char) (h : IsEscapeString s) : rest s = [] := by
  obtain ⟨e, body, he, hbody, rfl⟩ := h
  have hskip : skipEscape (body ++ ['\'']) = [] := skipEscape_escape body [] hbody (by simp)
  have hall : skipEscapes ('\'' :: (body ++ ['\''])).length (body ++ ['\'']) = [] := by
    rw [List.length_cons, skipEscapes, hskip]
    rfl
  rcases he with rfl | rfl <;> simpa [rest] using hall

theorem tagOf_tag (tag body : List Char) (h : isTag tag = true) :
    tagOf (tag ++ '$' :: body) = some (tag, body) := by
  have hall : ∀ c ∈ tag, isTagPart c = true := by
    simp only [isTag, Bool.and_eq_true, List.all_eq_true] at h
    exact h.1
  have hdollar : isTagPart '$' = false := by decide
  have htake : (tag ++ '$' :: body).takeWhile isTagPart = tag := by
    rw [List.takeWhile_append_of_pos hall, List.takeWhile_cons_of_neg (by simp [hdollar]),
      List.append_nil]
  have hdrop : (tag ++ '$' :: body).dropWhile isTagPart = '$' :: body := by
    rw [List.dropWhile_append_of_pos hall, List.dropWhile_cons_of_neg (by simp [hdollar])]
  simp [tagOf, htake, hdrop, h]

theorem rest_dollar (s : List Char) (h : IsDollarString s) : rest s = [] := by
  obtain ⟨tag, text, htag, hmeets, rfl⟩ := h
  have hskip := skipTo_meets (delimiter tag) text hmeets
  have htagOf := tagOf_tag tag text htag
  simpa [rest, delimiter, htagOf] using hskip

/-! ## Calls -/

def isWord (p : List Char) : Bool := p.head?.any isWordStart && p.all isWordPart

def isName (p : List Char) : Bool := isWord p || p.head? == some '"'

/-- A blank or a comment. -/
def isTrivia (p : List Char) : Bool :=
  p.head?.any isBlank || ['-', '-'].isPrefixOf p || ['/', '*'].isPrefixOf p

/-- A name and, after trivia, a parenthesis, all outside of constants. -/
def HasCall (s : List Char) : Prop :=
  ∃ before name between after,
    scanner.cut s = before ++ name :: (between ++ ['('] :: after) ∧ isName name = true ∧
      ∀ p ∈ between, isTrivia p = true

theorem noCall_of_rest (s : List Char) (h : rest s = []) : ¬ HasCall s := by
  rintro ⟨before, name, between, after, hcut, -⟩
  have hlen : (scanner.cut s).length ≤ 1 := by
    cases s with
    | nil => simp
    | cons c s =>
      rw [scanner.cut_cons, show scanner.rest (c :: s) = [] from h]
      simp
  rw [hcut] at hlen
  simp only [List.length_append, List.length_cons] at hlen
  omega

theorem noCall_of_not_mem (s : List Char) (h : '(' ∉ s) : ¬ HasCall s := by
  rintro ⟨before, name, between, after, hcut, -⟩
  have hflat := scanner.flatten_cut s
  rw [hcut] at hflat
  refine h ?_
  rw [← hflat]
  simp

/-- The characters of a number. -/
def isNumberChar (c : Char) : Bool := c.isDigit || ['+', '-', '.', 'e', 'E'].contains c

theorem IsSign.chars {s : List Char} (h : IsSign s) : ∀ c ∈ s, isNumberChar c = true := by
  rcases h with rfl | rfl | rfl <;> exact List.all_eq_true.mp (by decide)

theorem IsDigits.chars {s : List Char} (h : IsDigits s) : ∀ c ∈ s, isNumberChar c = true := by
  intro c hc
  simp [isNumberChar, h c hc]

theorem IsMantissa.chars {s : List Char} (h : IsMantissa s) :
    ∀ c ∈ s, isNumberChar c = true := by
  rcases h with ⟨h, -⟩ | ⟨whole, fraction, hwhole, hfraction, -, rfl⟩
  · exact h.chars
  · intro c hc
    rcases List.mem_append.mp hc with hc | hc
    · exact hwhole.chars c hc
    · rcases List.mem_cons.mp hc with rfl | hc
      · rfl
      · exact hfraction.chars c hc

theorem IsExponent.chars {s : List Char} (h : IsExponent s) :
    ∀ c ∈ s, isNumberChar c = true := by
  rcases h with rfl | ⟨e, sign, digits, he, hsign, hdigits, -, rfl⟩
  · simp
  · intro c hc
    rcases List.mem_cons.mp hc with rfl | hc
    · rcases he with rfl | rfl <;> rfl
    · rcases List.mem_append.mp hc with hc | hc
      · exact hsign.chars c hc
      · exact hdigits.chars c hc

theorem IsNumber.chars {s : List Char} (h : IsNumber s) : ∀ c ∈ s, isNumberChar c = true := by
  obtain ⟨sign, mantissa, exponent, hsign, hmantissa, hexponent, rfl⟩ := h
  intro c hc
  rcases List.mem_append.mp hc with hc | hc
  · exact hsign.chars c hc
  · rcases List.mem_append.mp hc with hc | hc
    · exact hmantissa.chars c hc
    · exact hexponent.chars c hc

theorem IsKeyword.chars {s : List Char} (h : IsKeyword s) :
    ∀ c ∈ s, c.toLower ∈ "truefalsenull".toList := by
  intro c hc
  have hmem : c.toLower ∈ s.map Char.toLower := List.mem_map_of_mem hc
  simp only [IsKeyword, List.mem_cons, List.not_mem_nil, or_false] at h
  rcases h with h | h | h <;> rw [h] at hmem <;> simp at hmem ⊢ <;> tauto

/-- **No literal** has a call in it. -/
theorem noCall_of_literal (s : List Char) (h : IsLiteral s) : ¬ HasCall s := by
  rcases h with h | h | h | h | h
  · exact noCall_of_rest s (rest_standard s h)
  · exact noCall_of_rest s (rest_escape s h)
  · exact noCall_of_rest s (rest_dollar s h)
  · refine noCall_of_not_mem s fun hmem => ?_
    have hchar := h.chars '(' hmem
    revert hchar
    decide
  · refine noCall_of_not_mem s fun hmem => ?_
    have hchar := h.chars '(' hmem
    revert hchar
    decide

end Postgres

import Djogi.Lib.Scanner

/-!
# Pieces of SQL

The lexical pieces of PostgreSQL: comments, string constants, quoted identifiers, words, parameters
and single characters. A constant that is never closed takes the rest of the text.

* `rest_suffix`: what a piece leaves is the end of the text;
* `scanner`: the scanner of these pieces.
-/

namespace Postgres

def isBlank (c : Char) : Bool := [' ', '\t', '\n', '\r', '\x0b', '\x0c'].contains c

def isNewline (c : Char) : Bool := c == '\n' || c == '\r'

def isWordStart (c : Char) : Bool := c.isAlpha || c == '_' || 128 ≤ c.toNat

def isTagPart (c : Char) : Bool := isWordStart c || c.isDigit

def isWordPart (c : Char) : Bool := isTagPart c || c == '$'

/-! ## Ends of comments and constants -/

def skipLine (s : List Char) : List Char := s.dropWhile fun c => !isNewline c

/-- Behind the opening of a block comment, or of several nested ones. -/
def skipBlock : ℕ → List Char → List Char
  | _, [] => []
  | _, [_] => []
  | depth, c :: d :: s =>
      if c = '/' ∧ d = '*' then skipBlock (depth + 1) s
      else if c = '*' ∧ d = '/' then if depth ≤ 1 then s else skipBlock (depth - 1) s
      else skipBlock depth (d :: s)

/-- Behind the opening quote of a constant or identifier with doubled quotes. -/
def skipQuoted (quote : Char) : List Char → List Char
  | [] => []
  | [_] => []
  | c :: d :: s =>
      if c = quote then if d = quote then skipQuoted quote s else d :: s
      else skipQuoted quote (d :: s)

/-- Behind the opening quote of a constant with backslashes. -/
def skipEscape : List Char → List Char
  | [] => []
  | [_] => []
  | c :: d :: s =>
      if c = '\\' then skipEscape s
      else if c = '\'' then if d = '\'' then skipEscape s else d :: s
      else skipEscape (d :: s)

/-- Blanks and line comments with a newline among them, up to the quote that goes on with a
constant. -/
def continuation : (seen inComment : Bool) → List Char → Option (List Char)
  | _, _, [] => none
  | seen, true, c :: s => if isNewline c then continuation true false s else continuation seen true s
  | seen, false, c :: s =>
      if isBlank c then continuation (seen || isNewline c) false s
      else if c = '\'' then if seen then some s else none
      else if c = '-' ∧ s.head? = some '-' then continuation seen true s
      else none

/-- Behind an escape constant and the constants that go on with it. -/
def skipEscapes : ℕ → List Char → List Char
  | 0, s => s
  | n + 1, s =>
      match continuation false false (skipEscape s) with
      | some t => skipEscapes n t
      | none => skipEscape s

/-- Behind the first occurrence of a word. -/
def skipTo (word : List Char) : List Char → List Char
  | [] => []
  | c :: s => if word.isPrefixOf (c :: s) then s.drop (word.length - 1) else skipTo word s

/-- A tag is empty or a name without dollars. -/
def isTag (tag : List Char) : Bool :=
  tag.all isTagPart && tag.head?.all isWordStart

/-- The delimiter of a dollar-quoted string. -/
def delimiter (tag : List Char) : List Char := '$' :: tag ++ ['$']

/-- The tag that a text behind a dollar starts with, and the text behind it. -/
def tagOf (s : List Char) : Option (List Char × List Char) :=
  let tag := s.takeWhile isTagPart
  match s.dropWhile isTagPart with
  | [] => none
  | c :: body => if c = '$' ∧ isTag tag then some (tag, body) else none

/-! ## The first piece -/

def rest : List Char → List Char
  | [] => []
  | c :: s =>
      if c = '-' ∧ s.head? = some '-' then skipLine s.tail
      else if c = '/' ∧ s.head? = some '*' then skipBlock 1 s.tail
      else if c = '\'' ∨ c = '"' then skipQuoted c s
      else if (c = 'e' ∨ c = 'E') ∧ s.head? = some '\'' then skipEscapes s.length s.tail
      else if c = '$' then
        match tagOf s with
        | some (tag, body) => skipTo (delimiter tag) body
        | none => s.dropWhile Char.isDigit
      else if isWordStart c then s.dropWhile isWordPart
      else if c.isDigit then s.dropWhile isTagPart
      else s

/-! ## What is left is the end of the text -/

theorem skipBlock_suffix (depth : ℕ) (s : List Char) : skipBlock depth s <:+ s := by
  fun_induction skipBlock depth s with
  | case1 => exact List.suffix_rfl
  | case2 => exact List.nil_suffix
  | case3 depth c d s _ ih => exact ih.trans ((List.suffix_cons d s).trans (List.suffix_cons c _))
  | case4 depth c d s => exact (List.suffix_cons d s).trans (List.suffix_cons c _)
  | case5 depth c d s _ _ _ ih =>
    exact ih.trans ((List.suffix_cons d s).trans (List.suffix_cons c _))
  | case6 depth c d s _ _ ih => exact ih.trans (List.suffix_cons c _)

theorem skipQuoted_suffix (quote : Char) (s : List Char) : skipQuoted quote s <:+ s := by
  fun_induction skipQuoted quote s with
  | case1 => exact List.suffix_rfl
  | case2 => exact List.nil_suffix
  | case3 s ih => exact ih.trans ((List.suffix_cons _ s).trans (List.suffix_cons _ _))
  | case4 d s => exact List.suffix_cons _ _
  | case5 c d s _ ih => exact ih.trans (List.suffix_cons c _)

theorem skipEscape_suffix (s : List Char) : skipEscape s <:+ s := by
  fun_induction skipEscape s with
  | case1 => exact List.suffix_rfl
  | case2 => exact List.nil_suffix
  | case3 d s ih => exact ih.trans ((List.suffix_cons d s).trans (List.suffix_cons _ _))
  | case4 s _ ih => exact ih.trans ((List.suffix_cons _ s).trans (List.suffix_cons _ _))
  | case5 d s => exact List.suffix_cons _ _
  | case6 c d s _ _ ih => exact ih.trans (List.suffix_cons c _)

theorem continuation_suffix (seen inComment : Bool) (s t : List Char)
    (h : continuation seen inComment s = some t) : t <:+ s := by
  induction s generalizing seen inComment with
  | nil => cases inComment <;> cases h
  | cons c s ih =>
    refine List.IsSuffix.trans ?_ (List.suffix_cons c s)
    cases inComment with
    | true =>
      rw [continuation] at h
      split at h
      · exact ih _ _ h
      · exact ih _ _ h
    | false =>
      rw [continuation] at h
      split at h
      · exact ih _ _ h
      · split at h
        · split at h
          · cases h
            exact List.suffix_rfl
          · cases h
        · split at h
          · exact ih _ _ h
          · cases h

theorem skipEscapes_suffix (n : ℕ) (s : List Char) : skipEscapes n s <:+ s := by
  induction n generalizing s with
  | zero => exact List.suffix_rfl
  | succ n ih =>
    rw [skipEscapes]
    split
    · rename_i t ht
      exact (ih t).trans ((continuation_suffix _ _ _ _ ht).trans (skipEscape_suffix s))
    · exact skipEscape_suffix s

theorem skipTo_suffix (word s : List Char) : skipTo word s <:+ s := by
  induction s with
  | nil => exact List.suffix_rfl
  | cons c s ih =>
    rw [skipTo]
    split
    · exact (List.drop_suffix _ s).trans (List.suffix_cons c s)
    · exact ih.trans (List.suffix_cons c s)

theorem tagOf_suffix (s tag body : List Char) (h : tagOf s = some (tag, body)) : body <:+ s := by
  unfold tagOf at h
  dsimp only at h
  split at h
  · cases h
  · rename_i c body' hdrop
    split at h
    · cases h
      have hsuffix := List.dropWhile_suffix (l := s) isTagPart
      rw [hdrop] at hsuffix
      exact (List.suffix_cons c _).trans hsuffix
    · cases h

theorem rest_suffix (c : Char) (s : List Char) : rest (c :: s) <:+ s := by
  rw [rest]
  split_ifs
  · exact (List.dropWhile_suffix _).trans (List.tail_suffix s)
  · exact (skipBlock_suffix 1 _).trans (List.tail_suffix s)
  · exact skipQuoted_suffix c s
  · exact (skipEscapes_suffix _ _).trans (List.tail_suffix s)
  · split
    · rename_i tag body htag
      exact (skipTo_suffix _ _).trans (tagOf_suffix s tag body htag)
    · exact List.dropWhile_suffix _
  · exact List.dropWhile_suffix _
  · exact List.dropWhile_suffix _
  · exact List.suffix_rfl

def scanner : Scanner where
  rest := rest
  shorter := rest_suffix

end Postgres

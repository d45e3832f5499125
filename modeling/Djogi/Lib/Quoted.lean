import Djogi.Lib.Postgres

/-!
# Values of quoted pieces

What quoted identifiers and string constants stand for.

* `skipQuoted_of_read`, `skipEscape_of_read`: a reader leaves what the scanner leaves;
* `clip_eq_self`: which names the server keeps in full;
* `readQuoted_double`, `readEscape_double`: a text with doubled quotes is read back;
* `Lexes`: a text is one piece that stands for a value.
-/

namespace Postgres

/-! ## Readers -/

/-- The characters up to the closing quote, doubled quotes read as one, and the text behind it. -/
def readQuoted (quote : Char) : List Char → Option (List Char × List Char)
  | [] => none
  | [c] => if c = quote then some ([], []) else none
  | c :: d :: s =>
      if c = quote then
        if d = quote then (readQuoted quote s).map (Prod.map (quote :: ·) id) else some ([], d :: s)
      else (readQuoted quote (d :: s)).map (Prod.map (c :: ·) id)

/-- What a backslash and a character stand for. Numbers of characters and bytes are not read. -/
def unescape (c : Char) : Option Char :=
  if c.isDigit || ['x', 'u', 'U'].contains c then none
  else if c = 'b' then some '\x08'
  else if c = 'f' then some '\x0c'
  else if c = 'n' then some '\n'
  else if c = 'r' then some '\r'
  else if c = 't' then some '\t'
  else some c

/-- As `readQuoted` for the quote of constants, with backslashes. -/
def readEscape : List Char → Option (List Char × List Char)
  | [] => none
  | [c] => if c = '\'' then some ([], []) else none
  | c :: d :: s =>
      if c = '\\' then (unescape d).bind fun e => (readEscape s).map (Prod.map (e :: ·) id)
      else if c = '\'' then
        if d = '\'' then (readEscape s).map (Prod.map ('\'' :: ·) id) else some ([], d :: s)
      else (readEscape (d :: s)).map (Prod.map (c :: ·) id)

/-- The longest initial part of whole characters that has no more than so many bytes. -/
def clip : Nat → List Char → List Char
  | _, [] => []
  | n, c :: s => if c.utf8Size ≤ n then c :: clip (n - c.utf8Size) s else []

/-- A quoted identifier. Empty ones are refused, of longer names the first 63 bytes are kept. -/
def readIdentifier (s : List Char) : Option (List Char × List Char) :=
  if s.head? = some '"' then
    ((readQuoted '"' s.tail).filter fun p => !p.1.isEmpty).map (Prod.map (clip 63) id)
  else none

/-- A name without quotes, as the server reads it. -/
def folded (s : String) : String := String.ofList (s.toList.map Char.toLower)

/-- A string constant in which backslashes are ordinary characters. -/
def readStandard (s : List Char) : Option (List Char × List Char) :=
  if s.head? = some '\'' then readQuoted '\'' s.tail else none

/-- A string constant with backslashes. -/
def readExtended (s : List Char) : Option (List Char × List Char) :=
  if s.take 2 = ['E', '\''] ∨ s.take 2 = ['e', '\''] then readEscape (s.drop 2) else none

/-- The whole text is one piece, and its reader gets the value from it. -/
def Lexes (read : List Char → Option (List Char × List Char)) (text value : List Char) : Prop :=
  scanner.cut text = [text] ∧ read text = some (value, [])

/-- A name is kept when its bytes are no more than the limit. -/
theorem clip_eq_self (n : Nat) (s : List Char) :
    clip n s = s ↔ (s.flatMap String.utf8EncodeChar).length ≤ n := by
  induction s generalizing n with
  | nil => simp [clip]
  | cons c s ih =>
    rw [clip, List.flatMap_cons, List.length_append, String.length_utf8EncodeChar]
    by_cases hc : c.utf8Size ≤ n
    · simp only [if_pos hc, List.cons.injEq, true_and, ih]
      omega
    · rw [if_neg hc]
      exact iff_of_false (List.cons_ne_nil c s).symm (by omega)

/-! ## Readers and the scanner -/

theorem skipQuoted_of_read (quote : Char) (s value left : List Char)
    (h : readQuoted quote s = some (value, left)) : skipQuoted quote s = left := by
  fun_induction readQuoted quote s generalizing value with
  | case1 => cases h
  | case2 => cases h; rfl
  | case3 => cases h
  | case4 s ih =>
    obtain ⟨⟨v, l⟩, hread, hpair⟩ := Option.map_eq_some_iff.mp h
    cases hpair
    rw [skipQuoted, if_pos rfl, if_pos rfl]
    exact ih v hread
  | case5 d s hd =>
    cases h
    rw [skipQuoted, if_pos rfl, if_neg hd]
  | case6 c d s hc ih =>
    obtain ⟨⟨v, l⟩, hread, hpair⟩ := Option.map_eq_some_iff.mp h
    cases hpair
    rw [skipQuoted, if_neg hc]
    exact ih v hread

theorem skipEscape_of_read (s value left : List Char) (h : readEscape s = some (value, left)) :
    skipEscape s = left := by
  fun_induction readEscape s generalizing value with
  | case1 => cases h
  | case2 => cases h; rfl
  | case3 => cases h
  | case4 d s ih =>
    obtain ⟨e, -, hbody⟩ := Option.bind_eq_some_iff.mp h
    obtain ⟨⟨v, l⟩, hread, hpair⟩ := Option.map_eq_some_iff.mp hbody
    cases hpair
    rw [skipEscape, if_pos rfl]
    exact ih v hread
  | case5 s _ ih =>
    obtain ⟨⟨v, l⟩, hread, hpair⟩ := Option.map_eq_some_iff.mp h
    cases hpair
    rw [skipEscape, if_neg (by decide), if_pos rfl, if_pos rfl]
    exact ih v hread
  | case6 d s _ hd =>
    cases h
    rw [skipEscape, if_neg (by decide), if_pos rfl, if_neg (by assumption)]
  | case7 c d s hb hc ih =>
    obtain ⟨⟨v, l⟩, hread, hpair⟩ := Option.map_eq_some_iff.mp h
    cases hpair
    rw [skipEscape, if_neg hb, if_neg hc]
    exact ih v hread

theorem cut_of_rest (c : Char) (s : List Char) (h : rest (c :: s) = []) :
    scanner.cut (c :: s) = [c :: s] := by
  rw [scanner.cut_cons, scanner.piece_eq (c :: s) (c :: s) [] h (List.append_nil _).symm,
    show scanner.rest (c :: s) = [] from h, scanner.cut_nil]

theorem lexes_identifier (s value : List Char) (hvalue : value ≠ []) (hclip : clip 63 value = value)
    (h : readQuoted '"' s = some (value, [])) : Lexes readIdentifier ('"' :: s) value := by
  refine ⟨cut_of_rest _ _ ?_, ?_⟩
  · simpa [rest] using skipQuoted_of_read '"' s value [] h
  · simp [readIdentifier, h, hvalue, hclip]

theorem lexes_standard (s value : List Char) (h : readQuoted '\'' s = some (value, [])) :
    Lexes readStandard ('\'' :: s) value := by
  refine ⟨cut_of_rest _ _ ?_, ?_⟩
  · simpa [rest] using skipQuoted_of_read '\'' s value [] h
  · simp [readStandard, h]

theorem lexes_extended (s value : List Char) (h : readEscape s = some (value, [])) :
    Lexes readExtended ('E' :: '\'' :: s) value := by
  refine ⟨cut_of_rest _ _ ?_, ?_⟩
  · have hskip := skipEscape_of_read s value [] h
    have hall : skipEscapes ('\'' :: s).length s = [] := by
      rw [List.length_cons, skipEscapes, hskip]
      rfl
    simpa [rest] using hall
  · simp [readExtended, h]

/-! ## Doubled quotes -/

/-- **Doubled quotes** are read back, whatever else the text has. -/
theorem readQuoted_double (quote : Char) (s : List Char) :
    readQuoted quote
      (s.flatMap (fun c => if c = quote then [quote, quote] else [c]) ++ [quote]) =
        some (s, []) := by
  induction s with
  | nil => simp [readQuoted]
  | cons c s ih =>
    rw [List.flatMap_cons]
    by_cases hc : c = quote
    · subst hc
      rw [if_pos rfl, List.append_assoc, List.cons_append, List.cons_append, readQuoted,
        if_pos rfl, if_pos rfl, List.nil_append, ih]
      rfl
    · rw [if_neg hc, List.append_assoc, List.singleton_append]
      generalize htail : s.flatMap _ ++ [quote] = tail at ih
      cases tail with
      | nil => cases ih
      | cons d tail =>
        rw [readQuoted, if_neg hc, ih]
        rfl

/-- **Doubled quotes and backslashes** are read back. -/
theorem readEscape_double (s : List Char) :
    readEscape
      (s.flatMap (fun c =>
        if c = '\'' then ['\'', '\''] else if c = '\\' then ['\\', '\\'] else [c]) ++ ['\'']) =
        some (s, []) := by
  induction s with
  | nil => simp [readEscape]
  | cons c s ih =>
    rw [List.flatMap_cons]
    by_cases hc : c = '\''
    · subst hc
      rw [if_pos rfl, List.append_assoc, List.cons_append, List.cons_append, readEscape,
        if_neg (by decide), if_pos rfl, if_pos rfl, List.nil_append, ih]
      rfl
    · by_cases hb : c = '\\'
      · subst hb
        rw [if_neg hc, if_pos rfl, List.append_assoc, List.cons_append, List.cons_append,
          readEscape, if_pos rfl, List.nil_append, ih]
        rfl
      · rw [if_neg hc, if_neg hb, List.append_assoc, List.singleton_append]
        generalize htail : s.flatMap _ ++ ['\''] = tail at ih
        cases tail with
        | nil => cases ih
        | cons d tail =>
          rw [readEscape, if_neg hb, if_neg hc, ih]
          rfl

end Postgres

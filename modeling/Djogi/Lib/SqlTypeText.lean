import Djogi.Lib.SqlTypes

/-!
# Texts of SQL types

How a text spells a type: its names, in any ASCII case, with blanks around it and between its parts.

* `Body`, `Spells`: the grammar, over a text in lower case and over any text;
* `body_solid`: a body begins and ends with no blank;
* `body_unique`: a body denotes one type.
-/

namespace SqlTypes

/-! ## Parts -/

def Blanks (s : List Char) : Prop := ∀ c ∈ s, Postgres.isBlank c = true

def decimalValue (digits : List Char) : ℕ :=
  digits.foldl (fun n c => 10 * n + (c.toNat - '0'.toNat)) 0

def Numeral (n : ℕ) (digits : List Char) : Prop :=
  digits ≠ [] ∧ (∀ c ∈ digits, c.isDigit = true) ∧ decimalValue digits = n

/-- A sign stands before a nonzero scale. -/
def Signed (s : ℤ) (t : List Char) : Prop :=
  (∃ n, Numeral n t ∧ s = n) ∨
    ∃ n gap digits, 0 < n ∧ Numeral n digits ∧ Blanks gap ∧ t = '-' :: (gap ++ digits) ∧ s = -n

def Padded (part t : List Char) : Prop :=
  ∃ before after, Blanks before ∧ Blanks after ∧ t = before ++ part ++ after

/-- Parentheses behind a name. -/
def Parens (inner t : List Char) : Prop :=
  ∃ gap, Blanks gap ∧ t = gap ++ '(' :: (inner ++ [')'])

/-! ## Names -/

def intNames : IntType → List String
  | .smallint => ["smallint", "int2"]
  | .integer => ["integer", "int", "int4"]
  | .bigint => ["bigint", "int8"]

def VarcharName (name : List Char) : Prop :=
  name = "varchar".toList ∨
    ∃ gap, gap ≠ [] ∧ Blanks gap ∧ name = "character".toList ++ gap ++ "varying".toList

def CharName (name : List Char) : Prop := name = "char".toList ∨ name = "character".toList

def NumericName (name : List Char) : Prop := name = "numeric".toList ∨ name = "decimal".toList

/-! ## Types -/

/-- A length and its bounds. -/
def Length (n : ℕ) (t : List Char) : Prop :=
  1 ≤ n ∧ n ≤ 10485760 ∧ ∃ digits inner, Numeral n digits ∧ Padded digits inner ∧ Parens inner t

def Precision (p : ℕ) (t : List Char) : Prop :=
  1 ≤ p ∧ p ≤ 1000 ∧ ∃ digits, Numeral p digits ∧ Padded digits t

def Scale (s : ℤ) (t : List Char) : Prop :=
  -1000 ≤ s ∧ s ≤ 1000 ∧ ∃ signed, Signed s signed ∧ Padded signed t

/-- **Bodies.** The texts of a type in lower case, without blanks around them. -/
inductive Body : SqlType → List Char → Prop
  | int (w : IntType) (name : String) : name ∈ intNames w → Body (.int w) name.toList
  | text : Body .text "text".toList
  | varchar (name : List Char) : VarcharName name → Body (.varchar none) name
  | varcharLength (name rest : List Char) (n : ℕ) : VarcharName name → Length n rest →
      Body (.varchar (some n)) (name ++ rest)
  | char (name : List Char) : CharName name → Body (.char 1) name
  | charLength (name rest : List Char) (n : ℕ) : CharName name → Length n rest →
      Body (.char n) (name ++ rest)
  | numeric (name : List Char) : NumericName name → Body (.numeric none) name
  | precision (name inner rest : List Char) (p : ℕ) : NumericName name → Precision p inner →
      Parens inner rest → Body (.numeric (some (p, 0))) (name ++ rest)
  | scale (name left right rest : List Char) (p : ℕ) (s : ℤ) : NumericName name →
      Precision p left → Scale s right → Parens (left ++ ',' :: right) rest →
      Body (.numeric (some (p, s))) (name ++ rest)

/-- **Spells.** A text denotes a type. -/
def Spells (type : SqlType) (text : List Char) : Prop :=
  ∃ before body after, Blanks before ∧ Blanks after ∧ Body type body ∧
    text.map Char.toLower = before ++ body ++ after

/-! ## Ends of a body -/

/-- No blank at either end. -/
def Solid (t : List Char) : Prop :=
  (∃ c, t.head? = some c ∧ c.isAlphanum = true) ∧
    ∃ c, t.getLast? = some c ∧ (c.isAlphanum = true ∨ c = ')')

theorem solid_parens (name inner rest : List Char)
    (hname : ∃ c, name.head? = some c ∧ c.isAlphanum = true) (h : Parens inner rest) :
    Solid (name ++ rest) := by
  obtain ⟨gap, -, rfl⟩ := h
  obtain ⟨c, hhead, hc⟩ := hname
  refine ⟨⟨c, ?_, hc⟩, ')', ?_, .inr rfl⟩
  · cases name with
    | nil => cases hhead
    | cons d name => exact hhead
  · rw [show name ++ (gap ++ '(' :: (inner ++ [')'])) = (name ++ gap ++ '(' :: inner) ++ [')'] by
      simp, List.getLast?_concat]

theorem solid_varcharName (name : List Char) (h : VarcharName name) : Solid name := by
  rcases h with rfl | ⟨gap, -, -, rfl⟩
  · exact ⟨⟨'v', rfl, rfl⟩, 'r', rfl, .inl rfl⟩
  · refine ⟨⟨'c', rfl, rfl⟩, 'g', ?_, .inl rfl⟩
    rw [show "varying".toList = "varyin".toList ++ ['g'] by decide, ← List.append_assoc,
      List.getLast?_concat]

theorem solid_charName (name : List Char) (h : CharName name) : Solid name := by
  rcases h with rfl | rfl
  · exact ⟨⟨'c', rfl, rfl⟩, 'r', rfl, .inl rfl⟩
  · exact ⟨⟨'c', rfl, rfl⟩, 'r', rfl, .inl rfl⟩

theorem solid_numericName (name : List Char) (h : NumericName name) : Solid name := by
  rcases h with rfl | rfl
  · exact ⟨⟨'n', rfl, rfl⟩, 'c', rfl, .inl rfl⟩
  · exact ⟨⟨'d', rfl, rfl⟩, 'l', rfl, .inl rfl⟩

theorem body_solid (type : SqlType) (t : List Char) (h : Body type t) : Solid t := by
  cases h with
  | int w name hname =>
    have hall : ∀ w, ∀ name ∈ intNames w,
        (name.toList.head?.any Char.isAlphanum && name.toList.getLast?.any Char.isAlphanum) =
          true := by
      intro w
      cases w <;> decide
    obtain ⟨hhead, hlast⟩ := Bool.and_eq_true_iff.mp (hall w name hname)
    obtain ⟨c, hc, hc'⟩ := (Option.any_eq_true _ _).mp hhead
    obtain ⟨d, hd, hd'⟩ := (Option.any_eq_true _ _).mp hlast
    exact ⟨⟨c, hc, hc'⟩, d, hd, .inl hd'⟩
  | text => exact ⟨⟨'t', rfl, rfl⟩, 't', rfl, .inl rfl⟩
  | varchar _ hname => exact solid_varcharName _ hname
  | varcharLength name rest n hname hlength =>
    obtain ⟨-, -, _, inner, -, -, hparens⟩ := hlength
    exact solid_parens name inner rest (solid_varcharName name hname).1 hparens
  | char _ hname => exact solid_charName _ hname
  | charLength name rest n hname hlength =>
    obtain ⟨-, -, _, inner, -, -, hparens⟩ := hlength
    exact solid_parens name inner rest (solid_charName name hname).1 hparens
  | numeric _ hname => exact solid_numericName _ hname
  | precision name inner rest p hname _ hparens =>
    exact solid_parens name inner rest (solid_numericName name hname).1 hparens
  | scale name left right rest p s hname _ _ hparens =>
    exact solid_parens name _ rest (solid_numericName name hname).1 hparens

/-! ## One type for each body -/

/-- What no blank is. -/
theorem blank_ne (c d : Char) (h : Postgres.isBlank c = true) (hd : Postgres.isBlank d = false) :
    c ≠ d := by
  rintro rfl
  rw [h] at hd
  cases hd

theorem blank_not_digit (c : Char) (h : Postgres.isBlank c = true) : c.isDigit = false := by
  simp only [Postgres.isBlank, List.contains_iff_mem, List.mem_cons, List.not_mem_nil,
    or_false] at h
  rcases h with rfl | rfl | rfl | rfl | rfl | rfl <;> rfl

theorem digit_ne (c d : Char) (h : c.isDigit = true) (hd : d.isDigit = false) : c ≠ d := by
  rintro rfl
  rw [h] at hd
  cases hd

theorem blanks_notMem (s : List Char) (h : Blanks s) (d : Char)
    (hd : Postgres.isBlank d = false) : d ∉ s :=
  fun hmem => blank_ne d d (h d hmem) hd rfl

theorem numeral_notMem (n : ℕ) (s : List Char) (h : Numeral n s) (d : Char)
    (hd : d.isDigit = false) : d ∉ s :=
  fun hmem => digit_ne d d (h.2.1 d hmem) hd rfl

theorem blanks_digits (s : List Char) (h : Blanks s) : s.filter Char.isDigit = [] := by
  rw [List.filter_eq_nil_iff]
  intro c hc
  simp [blank_not_digit c (h c hc)]

theorem numeral_digits (n : ℕ) (s : List Char) (h : Numeral n s) :
    s.filter Char.isDigit = s :=
  List.filter_eq_self.mpr h.2.1

theorem padded_filter (part t : List Char) (ht : Padded part t) :
    t.filter Char.isDigit = part.filter Char.isDigit := by
  obtain ⟨before, after, hbefore, hafter, rfl⟩ := ht
  rw [List.filter_append, List.filter_append, blanks_digits _ hbefore, blanks_digits _ hafter,
    List.nil_append, List.append_nil]

theorem padded_digits (n : ℕ) (digits t : List Char) (h : Numeral n digits)
    (ht : Padded digits t) : decimalValue (t.filter Char.isDigit) = n := by
  rw [padded_filter digits t ht, numeral_digits n _ h]
  exact h.2.2

theorem padded_notMem (part t : List Char) (ht : Padded part t) (d : Char)
    (hd : Postgres.isBlank d = false) (hpart : d ∉ part) : d ∉ t := by
  obtain ⟨before, after, hbefore, hafter, rfl⟩ := ht
  simp [blanks_notMem _ hbefore d hd, blanks_notMem _ hafter d hd, hpart]

theorem parens_digits (inner t : List Char) (h : Parens inner t) :
    t.filter Char.isDigit = inner.filter Char.isDigit := by
  obtain ⟨gap, hgap, rfl⟩ := h
  rw [List.filter_append, blanks_digits gap hgap, List.nil_append,
    List.filter_cons_of_neg (by decide), List.filter_append,
    List.filter_cons_of_neg (by decide), List.filter_nil, List.append_nil]

theorem parens_mem (inner t : List Char) (h : Parens inner t) : '(' ∈ t := by
  obtain ⟨gap, -, rfl⟩ := h
  simp

theorem parens_notMem (inner t : List Char) (h : Parens inner t) (d : Char)
    (hd : Postgres.isBlank d = false) (hparen : d ≠ '(' ∧ d ≠ ')') (hinner : d ∉ inner) :
    d ∉ t := by
  obtain ⟨gap, hgap, rfl⟩ := h
  simp [blanks_notMem _ hgap d hd, hparen.1, hparen.2, hinner]

theorem length_notMem (n : ℕ) (t : List Char) (h : Length n t) (d : Char)
    (hd : Postgres.isBlank d = false) (hparen : d ≠ '(' ∧ d ≠ ')') (hdigit : d.isDigit = false) :
    d ∉ t := by
  obtain ⟨-, -, digits, inner, hdigits, hinner, hparens⟩ := h
  exact parens_notMem inner t hparens d hd hparen
    (padded_notMem digits inner hinner d hd (numeral_notMem n digits hdigits d hdigit))

theorem length_digits (n : ℕ) (t : List Char) (h : Length n t) :
    decimalValue (t.filter Char.isDigit) = n := by
  obtain ⟨-, -, digits, inner, hdigits, hinner, hparens⟩ := h
  rw [parens_digits inner t hparens]
  exact padded_digits n digits inner hdigits hinner

theorem length_mem (n : ℕ) (t : List Char) (h : Length n t) : '(' ∈ t := by
  obtain ⟨-, -, _, inner, -, -, hparens⟩ := h
  exact parens_mem inner t hparens

theorem varcharName_notMem (name : List Char) (h : VarcharName name) (d : Char)
    (hd : Postgres.isBlank d = false) (hname : d ∉ "varchar".toList ++ "characteying".toList) :
    d ∉ name := by
  rcases h with rfl | ⟨gap, -, hgap, rfl⟩
  · intro hmem
    exact hname (List.mem_append_left _ hmem)
  · have hgap' := blanks_notMem gap hgap d hd
    revert hname
    simp [hgap']
    grind

theorem varcharName_digits (name : List Char) (h : VarcharName name) :
    name.filter Char.isDigit = [] := by
  rcases h with rfl | ⟨gap, -, hgap, rfl⟩
  · rfl
  · rw [List.filter_append, List.filter_append, blanks_digits gap hgap]
    rfl

theorem charName_digits (name : List Char) (h : CharName name) :
    name.filter Char.isDigit = [] := by
  rcases h with rfl | rfl <;> rfl

/-- The number that a scale reads as. -/
def signedValue (t : List Char) : ℤ :=
  if '-' ∈ t then -(decimalValue (t.filter Char.isDigit) : ℤ)
  else decimalValue (t.filter Char.isDigit)

theorem signed_value (s : ℤ) (t u : List Char) (h : Signed s t) (hu : Padded t u) :
    signedValue u = s := by
  unfold signedValue
  rw [padded_filter t u hu]
  rcases h with ⟨n, hn, rfl⟩ | ⟨n, gap, digits, -, hdigits, hgap, rfl, rfl⟩
  · have hminus := padded_notMem t u hu '-' rfl (numeral_notMem n t hn '-' rfl)
    rw [if_neg hminus, numeral_digits n t hn, hn.2.2]
  · have hminus : '-' ∈ u := by
      obtain ⟨before, after, -, -, rfl⟩ := hu
      simp
    rw [if_pos hminus, List.filter_cons_of_neg (by decide), List.filter_append,
      blanks_digits gap hgap, List.nil_append, numeral_digits n digits hdigits, hdigits.2.2]

/-- Precision and scale of a text with parentheses. -/
def paramsOf (t : List Char) : Option (ℕ × ℤ) :=
  if '(' ∈ t then
    some (decimalValue ((t.takeWhile (· ≠ ',')).filter Char.isDigit),
      signedValue (t.dropWhile (· ≠ ',')))
  else none

def lengthOf (t : List Char) : Option ℕ :=
  if '(' ∈ t then some (decimalValue (t.filter Char.isDigit)) else none

theorem numericName_notMem (name : List Char) (h : NumericName name) :
    '(' ∉ name ∧ ',' ∉ name ∧ name.filter Char.isDigit = [] := by
  rcases h with rfl | rfl <;> decide

theorem takeWhile_upto (s rest : List Char) (d : Char) (h : d ∉ s) :
    (s ++ rest).takeWhile (· ≠ d) = s ++ rest.takeWhile (· ≠ d) ∧
      (s ++ rest).dropWhile (· ≠ d) = rest.dropWhile (· ≠ d) := by
  have hall : ∀ c ∈ s, decide (c ≠ d) = true := by
    intro c hc
    rw [decide_eq_true_iff]
    rintro rfl
    exact h hc
  exact ⟨List.takeWhile_append_of_pos hall, List.dropWhile_append_of_pos hall⟩

theorem takeWhile_of_notMem (s : List Char) (d : Char) (h : d ∉ s) :
    s.takeWhile (· ≠ d) = s ∧ s.dropWhile (· ≠ d) = [] := by
  simpa using takeWhile_upto s [] d h

theorem takeWhile_cut (s rest : List Char) (d : Char) (h : d ∉ s) :
    (s ++ d :: rest).takeWhile (· ≠ d) = s ∧ (s ++ d :: rest).dropWhile (· ≠ d) = d :: rest := by
  simpa using takeWhile_upto s (d :: rest) d h

theorem body_params (params : Option (ℕ × ℤ)) (t : List Char) (h : Body (.numeric params) t) :
    paramsOf t = params := by
  unfold paramsOf
  cases h with
  | numeric _ hname => rw [if_neg (numericName_notMem t hname).1]
  | precision name inner rest p hname hp hparens =>
    obtain ⟨-, -, digits, hdigits, hinner⟩ := hp
    obtain ⟨-, hcomma, hnodigit⟩ := numericName_notMem name hname
    have hrest : ',' ∉ rest := parens_notMem inner rest hparens ',' rfl (by decide)
      (padded_notMem digits inner hinner ',' rfl (numeral_notMem p digits hdigits ',' rfl))
    have hcomma' : ',' ∉ name ++ rest := by simp [hcomma, hrest]
    rw [if_pos (List.mem_append_right _ (parens_mem inner rest hparens)),
      (takeWhile_of_notMem _ _ hcomma').1, (takeWhile_of_notMem _ _ hcomma').2,
      List.filter_append, hnodigit, parens_digits inner rest hparens, List.nil_append,
      padded_digits p digits inner hdigits hinner]
    rfl
  | scale name left right rest p s hname hp hs hparens =>
    obtain ⟨-, -, digits, hdigits, hleft⟩ := hp
    obtain ⟨-, -, signed, hsigned, hright⟩ := hs
    obtain ⟨hparen, hcomma, hnodigit⟩ := numericName_notMem name hname
    rw [if_pos (List.mem_append_right _ (parens_mem _ rest hparens))]
    obtain ⟨gap, hgap, rfl⟩ := hparens
    have hfront : ',' ∉ name ++ (gap ++ '(' :: left) := by
      have hleft' := padded_notMem digits left hleft ',' rfl
        (numeral_notMem p digits hdigits ',' rfl)
      simp [hcomma, blanks_notMem gap hgap ',' rfl, hleft']
    have hsplit : name ++ (gap ++ '(' :: (left ++ ',' :: right ++ [')'])) =
        (name ++ (gap ++ '(' :: left)) ++ ',' :: (right ++ [')']) := by simp
    rw [hsplit, (takeWhile_cut _ _ _ hfront).1, (takeWhile_cut _ _ _ hfront).2]
    congr 2
    · rw [List.filter_append, List.filter_append, hnodigit, blanks_digits gap hgap,
        List.filter_cons_of_neg (by decide), List.nil_append, List.nil_append]
      exact padded_digits p digits left hdigits hleft
    · rw [← signed_value s signed right hsigned hright]
      unfold signedValue
      have hdrop : (',' :: (right ++ [')'])).filter Char.isDigit = right.filter Char.isDigit := by
        rw [List.filter_cons_of_neg (by decide), List.filter_append,
          List.filter_cons_of_neg (by decide), List.filter_nil, List.append_nil]
      have hmem : '-' ∈ ',' :: (right ++ [')']) ↔ '-' ∈ right := by simp
      rw [hdrop]
      simp only [hmem]

theorem body_varchar_length (n : Option ℕ) (t : List Char) (h : Body (.varchar n) t) :
    lengthOf t = n := by
  unfold lengthOf
  cases h with
  | varchar _ hname =>
    rw [if_neg (varcharName_notMem t hname '(' rfl (by decide))]
  | varcharLength name rest n hname hlength =>
    rw [if_pos (List.mem_append_right _ (length_mem n rest hlength)), List.filter_append,
      varcharName_digits name hname, List.nil_append, length_digits n rest hlength]

theorem body_char_length (n : ℕ) (t : List Char) (h : Body (.char n) t) :
    (lengthOf t).getD 1 = n := by
  unfold lengthOf
  cases h with
  | char _ hname =>
    rw [if_neg (by rcases hname with rfl | rfl <;> decide)]
    rfl
  | charLength name rest n hname hlength =>
    rw [if_pos (List.mem_append_right _ (length_mem n rest hlength)), List.filter_append,
      charName_digits name hname, List.nil_append, length_digits n rest hlength]
    rfl

inductive Kind
  | int | varchar | char | text | numeric
  deriving DecidableEq

def SqlType.kind : SqlType → Kind
  | .int _ => .int
  | .varchar _ => .varchar
  | .char _ => .char
  | .text => .text
  | .numeric _ => .numeric

def kindOf (t : List Char) : Kind :=
  if t.head? = some 't' then .text
  else if t.head? ∈ [some 's', some 'i', some 'b'] then .int
  else if t.head? ∈ [some 'n', some 'd'] then .numeric
  else if 'v' ∈ t then .varchar
  else .char

theorem kindOf_numeric (name rest : List Char) (h : NumericName name) :
    kindOf (name ++ rest) = .numeric := by
  rcases h with rfl | rfl <;> rfl

theorem kindOf_varchar (name rest : List Char) (h : VarcharName name) :
    kindOf (name ++ rest) = .varchar := by
  have hmem : 'v' ∈ name ++ rest := by
    rcases h with rfl | ⟨gap, -, -, rfl⟩ <;> simp
  rcases h with rfl | ⟨gap, -, -, rfl⟩
  · rfl
  · unfold kindOf
    rw [if_pos hmem]
    rfl

theorem kindOf_char (name rest : List Char) (h : CharName name) (hrest : 'v' ∉ rest) :
    kindOf (name ++ rest) = .char := by
  have hmem : 'v' ∉ name ++ rest := by
    rcases h with rfl | rfl <;> simp [hrest]
  unfold kindOf
  rw [if_neg hmem]
  rcases h with rfl | rfl <;> rfl

theorem body_kind (type : SqlType) (t : List Char) (h : Body type t) : kindOf t = type.kind := by
  cases h with
  | int w name hname =>
    have hall : ∀ w, ∀ name ∈ intNames w, kindOf name.toList = .int := by
      intro w
      cases w <;> decide
    exact hall w name hname
  | text => rfl
  | varchar _ hname => simpa [SqlType.kind] using kindOf_varchar t [] hname
  | varcharLength name rest n hname _ => exact kindOf_varchar name rest hname
  | char _ hname => simpa [SqlType.kind] using kindOf_char t [] hname (by simp)
  | charLength name rest n hname hlength =>
    exact kindOf_char name rest hname (length_notMem n rest hlength 'v' rfl (by decide) rfl)
  | numeric _ hname => simpa [SqlType.kind] using kindOf_numeric t [] hname
  | precision name inner rest p hname _ _ => exact kindOf_numeric name rest hname
  | scale name left right rest p s hname _ _ _ => exact kindOf_numeric name rest hname

/-- **Uniqueness.** A body denotes one type. -/
theorem body_unique (A B : SqlType) (t : List Char) (hA : Body A t) (hB : Body B t) : A = B := by
  have hkind : A.kind = B.kind := by rw [← body_kind A t hA, ← body_kind B t hB]
  cases A with
  | int w =>
    cases B <;> try cases hkind
    rename_i w'
    cases hA with
    | int _ name hname =>
      generalize htext : name.toList = t at hB
      cases hB with
      | int _ name' hname' =>
        rw [← String.toList_inj.mp htext] at hname'
        revert hname hname'
        cases w <;> cases w' <;> simp [intNames] <;> grind
  | varchar n =>
    cases B <;> try cases hkind
    rw [← body_varchar_length _ t hA, ← body_varchar_length _ t hB]
  | char n =>
    cases B <;> try cases hkind
    rw [← body_char_length _ t hA, ← body_char_length _ t hB]
  | text =>
    cases B <;> try cases hkind
    rfl
  | numeric params =>
    cases B <;> try cases hkind
    rw [← body_params _ t hA, ← body_params _ t hB]

end SqlTypes

import Mathlib.Data.List.Basic

/-!
# Tokens of SQL

A lexer for the tokens of Postgres: a token starts at a character and goes on as long as an
automaton has a next state. Blanks and comments are tokens too, an operator of several characters
is several tokens, and the letter before a string constant (other than `E`) is a token of its own.

* `flatMap_lex`: the tokens together are the text;
* `lex_injective`: so no two texts have the same tokens;
* `Cut.next_eq_none`: a text can be cut where no character continues the last token;
* `lex_token`: one token at the head of a text;
* `Cut.not_held`: a text that has lost its place cannot be cut.
-/

namespace SqlLex

/-- Where the automaton is in a token. -/
inductive State
  | blank
  | symbol
  | dash
  | slash
  | lineComment
  | blockComment (depth : Nat) (last : Char)
  | word (isE : Bool)
  | number (isDecimal : Bool)
  | exponent
  | dollar
  | parameter
  | tag (name : List Char)
  | dollarString (name : List Char) (sinceDollar : Option (List Char))
  | quoted (quote : Char)
  | quoteSeen (quote : Char)
  | escapeString
  | escaped
  | closed (isComment : Bool)
  deriving DecidableEq, Repr

inductive Kind
  | blank | comment | word | number | parameter | quotedIdentifier | string | symbol
  deriving DecidableEq, Repr

def isBlank (c : Char) : Bool := c == ' ' || c == '\t' || c == '\n' || c == '\r'

def isWordStart (c : Char) : Bool := c.isAlpha || c == '_' || 128 ≤ c.toNat

def isWordPart (c : Char) : Bool := isWordStart c || c.isDigit || c == '$'

/-- The state after the first character of a token. -/
def first (c : Char) : State :=
  if isBlank c then .blank
  else if c = '-' then .dash
  else if c = '/' then .slash
  else if c = '\'' ∨ c = '"' then .quoted c
  else if c = '$' then .dollar
  else if isWordStart c then .word (c == 'e' || c == 'E')
  else if c.isDigit then .number true
  else .symbol

/-- The next state, or none if the character is not of the token. -/
def next : State → Char → Option State
  | .blank, c => if isBlank c then some .blank else none
  | .symbol, _ => none
  | .dash, c => if c = '-' then some .lineComment else none
  | .slash, c => if c = '*' then some (.blockComment 1 ' ') else none
  | .lineComment, c => if c = '\n' then none else some .lineComment
  | .blockComment depth last, c =>
      if last = '*' ∧ c = '/' then
        if depth ≤ 1 then some (.closed true) else some (.blockComment (depth - 1) ' ')
      else if last = '/' ∧ c = '*' then some (.blockComment (depth + 1) ' ')
      else some (.blockComment depth c)
  | .word isE, c =>
      if isE = true ∧ c = '\'' then some .escapeString
      else if isWordPart c then some (.word false)
      else none
  | .number isDecimal, c =>
      if isDecimal = true ∧ (c = 'e' ∨ c = 'E') then some .exponent
      else if c.isDigit || c == '.' || isWordStart c then
        some (.number (isDecimal && !(c.isAlpha)))
      else none
  | .exponent, c =>
      if c.isDigit || c == '+' || c == '-' || isWordStart c then some (.number false) else none
  | .dollar, c =>
      if c.isDigit then some .parameter
      else if c = '$' then some (.dollarString [] none)
      else if isWordStart c then some (.tag [c])
      else none
  | .parameter, c => if c.isDigit then some .parameter else none
  | .tag name, c =>
      if c = '$' then some (.dollarString name none)
      else if isWordStart c || c.isDigit then some (.tag (name ++ [c]))
      else none
  | .dollarString name since, c =>
      if c = '$' then
        if since = some name then some (.closed false) else some (.dollarString name (some []))
      else some (.dollarString name (since.map fun s => s ++ [c]))
  | .quoted quote, c => if c = quote then some (.quoteSeen quote) else some (.quoted quote)
  | .quoteSeen quote, c => if c = quote then some (.quoted quote) else none
  | .escapeString, c =>
      if c = '\\' then some .escaped
      else if c = '\'' then some (.quoteSeen '\'')
      else some .escapeString
  | .escaped, _ => some .escapeString
  | .closed _, _ => none

def State.kind : State → Kind
  | .blank => .blank
  | .symbol | .dash | .slash | .dollar | .tag _ => .symbol
  | .lineComment | .blockComment .. | .closed true => .comment
  | .word _ => .word
  | .number _ | .exponent => .number
  | .parameter => .parameter
  | .dollarString .. | .escapeString | .escaped | .closed false => .string
  | .quoted quote | .quoteSeen quote => if quote = '"' then .quotedIdentifier else .string

structure Token where
  kind : Kind
  text : List Char
  deriving DecidableEq, Repr

/-- What the token takes, the state it ends in and what is left. -/
def scan : State → List Char → List Char × State × List Char
  | state, [] => ([], state, [])
  | state, c :: s =>
      match next state c with
      | none => ([], state, c :: s)
      | some state' =>
          let r := scan state' s
          (c :: r.1, r.2)

theorem scan_append (state : State) (s : List Char) :
    (scan state s).1 ++ (scan state s).2.2 = s := by
  induction s generalizing state with
  | nil => rfl
  | cons c s ih =>
    unfold scan
    cases next state c with
    | none => rfl
    | some state' => exact congrArg (c :: ·) (ih state')

theorem length_scan_le (state : State) (s : List Char) :
    (scan state s).2.2.length ≤ s.length := by
  have h := congrArg List.length (scan_append state s)
  rw [List.length_append] at h
  omega

def lex : List Char → List Token
  | [] => []
  | c :: s =>
      let r := scan (first c) s
      ⟨r.2.1.kind, c :: r.1⟩ :: lex r.2.2
termination_by s => s.length
decreasing_by exact Nat.lt_succ_of_le (length_scan_le _ _)

attribute [grind] scan lex

/-- **The tokens together** are the text. -/
theorem flatMap_lex (s : List Char) : (lex s).flatMap Token.text = s := by
  induction s using lex.induct with
  | case1 => simp [lex]
  | case2 c s r ih =>
    rw [lex, List.flatMap_cons, ih]
    exact congrArg (c :: ·) (scan_append (first c) s)

theorem lex_injective : Function.Injective lex := by
  intro s t h
  rw [← flatMap_lex s, ← flatMap_lex t, h]

/-! ## Key words -/

/-- Key words that cannot name a column: the fully reserved ones but for the words of conditions,
and then those that may name a function or a type only. -/
def reservedWords : List String :=
  ["all", "analyse", "analyze", "any", "array", "as", "asc", "asymmetric", "both", "case", "cast",
    "check", "collate", "column", "constraint", "create", "current_catalog", "current_date",
    "current_role", "current_time", "current_timestamp", "current_user", "default", "deferrable",
    "desc", "distinct", "do", "else", "end", "except", "fetch", "for", "foreign", "from", "grant",
    "group", "having", "in", "initially", "intersect", "into", "lateral", "leading", "limit",
    "localtime", "localtimestamp", "offset", "on", "only", "order", "placing", "primary",
    "references", "returning", "select", "session_user", "some", "symmetric", "system_user",
    "table", "then", "to", "trailing", "union", "unique", "user", "using", "variadic", "when",
    "where", "window", "with",
    "authorization", "binary", "collation", "concurrently", "cross", "current_schema", "freeze",
    "full", "ilike", "inner", "isnull", "join", "left", "like", "natural", "notnull", "outer",
    "overlaps", "right", "similar", "tablesample", "verbose"]

/-! ## Where a text can be cut -/

/-- The state after a text, read on from a state. -/
def after : State → List Char → State
  | state, [] => state
  | state, c :: s => after ((next state c).getD (first c)) s

theorem after_append (state : State) (s t : List Char) :
    after state (s ++ t) = after (after state s) t := by
  induction s generalizing state with
  | nil => rfl
  | cons c s ih => exact ih _

/-- How many tokens start in a text that is read on from a state. -/
def starts : State → List Char → Nat
  | _, [] => 0
  | state, c :: s =>
      match next state c with
      | some state' => starts state' s
      | none => starts (first c) s + 1

theorem starts_append (state : State) (s t : List Char) :
    starts state (s ++ t) = starts state s + starts (after state s) t := by
  induction s generalizing state with
  | nil => simp [starts, after]
  | cons c s ih =>
    simp only [List.cons_append, starts, after]
    cases next state c with
    | none =>
      simp only [Option.getD_none, ih]
      omega
    | some state' => exact ih state'

theorem length_lex_scan (state : State) (s : List Char) :
    (lex (scan state s).2.2).length = starts state s := by
  induction s generalizing state with
  | nil => simp [scan, lex, starts]
  | cons c s ih =>
    simp only [scan, starts]
    cases next state c with
    | none => rw [lex, List.length_cons, ih]
    | some state' => exact ih state'

/-- The tokens of a text, whatever follows it. -/
def Cut (text : List Char) (ts : List Token) : Prop :=
  ∀ rest, lex (text ++ rest) = ts ++ lex rest

theorem Cut.eq {text : List Char} {ts : List Token} (h : Cut text ts) : ts = lex text := by
  simpa [lex] using (h []).symm

/-- **After a text that can be cut** no character continues the last token. -/
theorem Cut.next_eq_none {c : Char} {s : List Char} {ts : List Token} (h : Cut (c :: s) ts)
    (d : Char) : next (after (first c) s) d = none := by
  have hlength (t : List Char) : (lex (c :: t)).length = starts (first c) t + 1 := by
    rw [lex, List.length_cons, length_lex_scan]
  have hone : (lex [d]).length = 1 := by
    rw [lex, List.length_cons, length_lex_scan, starts]
  have hnil := congrArg List.length (h [])
  have hcons := congrArg List.length (h [d])
  rw [List.append_nil, hlength, List.length_append] at hnil
  rw [List.cons_append, hlength, starts_append, List.length_append, hone] at hcons
  have hlast : starts (after (first c) s) [d] = 1 := by
    simp only [lex, List.length_nil] at hnil
    omega
  cases hnext : next (after (first c) s) d with
  | none => rfl
  | some state' =>
    rw [starts, hnext] at hlast
    simp [starts] at hlast

/-! ## Pieces of a text -/

/-- A text goes on with a token. -/
def goes : State → List Char → Option State
  | state, [] => some state
  | state, c :: s => (next state c).bind fun state' => goes state' s

theorem goes_append (state : State) (s t : List Char) :
    goes state (s ++ t) = (goes state s).bind fun state' => goes state' t := by
  induction s generalizing state with
  | nil => rfl
  | cons c s ih =>
    simp only [List.cons_append, goes]
    cases next state c with
    | none => rfl
    | some state' => exact ih state'

theorem after_of_goes (state state' : State) (s : List Char) (h : goes state s = some state') :
    after state s = state' := by
  induction s generalizing state with
  | nil => exact Option.some.inj h
  | cons c s ih =>
    obtain ⟨next', hnext, hgoes⟩ := Option.bind_eq_some_iff.mp h
    rw [after, hnext]
    exact ih next' hgoes

/-- Nothing, or something that does not go on with a token in the state. -/
def Ends (state : State) (rest : List Char) : Prop := ∀ c ∈ rest.head?, next state c = none

theorem scan_of_goes (state state' : State) (s rest : List Char) (h : goes state s = some state')
    (hend : Ends state' rest) : scan state (s ++ rest) = (s, state', rest) := by
  induction s generalizing state with
  | nil =>
    obtain rfl := Option.some.inj h
    cases rest with
    | nil => rfl
    | cons c rest => simp [scan, hend c rfl]
  | cons c s ih =>
    obtain ⟨next', hnext, hgoes⟩ := Option.bind_eq_some_iff.mp h
    simp [scan, hnext, ih next' hgoes]

/-- **One token** at the head of a text. -/
theorem lex_token (c : Char) (s rest : List Char) (state : State)
    (h : goes (first c) s = some state) (hend : Ends state rest) :
    lex (c :: s ++ rest) = ⟨state.kind, c :: s⟩ :: lex rest := by
  rw [List.cons_append, lex, scan_of_goes _ _ s rest h hend]

/-! ## Texts that lose their place

A text alternates plain pieces and string constants. Once a comment is open in a plain piece, each
later constant is taken for plain text and what is between the constants for the inside of one. -/

/-- A character that neither opens nor closes anything but a line comment. -/
def isPlain (c : Char) : Bool := !(['\n', '*', '/', '$', '"', '\'', '\\'].contains c)

theorem ne_of_isPlain {c : Char} (h : isPlain c = true) :
    c ≠ '\n' ∧ c ≠ '*' ∧ c ≠ '/' ∧ c ≠ '$' ∧ c ≠ '"' ∧ c ≠ '\'' ∧ c ≠ '\\' := by
  simpa [isPlain] using h

/-- The states of a text that is in its place, outside a constant. -/
def State.inPlace : State → Bool
  | .blank | .symbol | .dash | .word _ | .number _ | .exponent => true
  | .quoteSeen quote => quote == '\''
  | _ => false

/-- The states that plain characters do not leave. -/
def State.held : State → Bool
  | .lineComment | .blockComment .. | .dollarString .. | .escapeString => true
  | .quoted quote => quote == '\'' || quote == '"'
  | _ => false

/-- The states that are not inside a string constant. -/
def State.loose : State → Bool
  | .escapeString | .escaped => false
  | .quoted quote => quote == '"'
  | .quoteSeen quote => quote == '\'' || quote == '"'
  | _ => true

/-- The state after one more character. -/
def stepOn (state : State) (c : Char) : State := (next state c).getD (first c)

theorem after_cons (state : State) (c : Char) (s : List Char) :
    after state (c :: s) = after (stepOn state c) s := rfl

private theorem first_inPlace (c : Char) (h : isPlain c = true) : (first c).inPlace = true := by
  obtain ⟨-, -, hslash, hdollar, hdouble, hsingle, -⟩ := ne_of_isPlain h
  simp only [first, hslash, hdollar, hdouble, hsingle, or_self, if_false]
  split_ifs <;> rfl

private theorem first_loose (c : Char) (h : c ≠ '\'') : (first c).loose = true := by
  unfold first
  split_ifs with _ _ _ hquote
  all_goals first | rfl | skip
  obtain rfl := hquote.resolve_left h
  rfl

theorem held_stepOn (state : State) (c : Char) (hc : isPlain c = true)
    (h : state.held = true) : (stepOn state c).held = true := by
  obtain ⟨hline, hstar, hslash, hdollar, hdouble, hsingle, hback⟩ := ne_of_isPlain hc
  cases state with
  | lineComment => simp [stepOn, next, hline, State.held]
  | blockComment depth last => simp [stepOn, next, hslash, hstar, State.held]
  | dollarString name since => simp [stepOn, next, hdollar, State.held]
  | escapeString => simp [stepOn, next, hback, hsingle, State.held]
  | quoted quote =>
    have hquote : c ≠ quote := by
      rintro rfl
      simp [State.held, hdouble, hsingle] at h
    simpa [stepOn, next, hquote, State.held] using h
  | _ => cases h

/-- A plain character keeps the place or loses it for good. -/
theorem inPlace_stepOn (state : State) (c : Char) (hc : isPlain c = true)
    (h : state.inPlace = true) :
    (stepOn state c).inPlace = true ∨ (stepOn state c).held = true := by
  obtain ⟨-, -, -, -, -, hsingle, -⟩ := ne_of_isPlain hc
  have hfirst := first_inPlace c hc
  cases state with
  | symbol => exact .inl hfirst
  | blank | dash | word | number | exponent =>
    simp only [stepOn, next]
    split_ifs <;> simp_all [State.inPlace, State.held]
  | quoteSeen quote =>
    have hquote : c ≠ quote := by
      rintro rfl
      simp [State.inPlace, hsingle] at h
    simp [stepOn, next, hquote, hfirst]
  | _ => cases h

theorem loose_stepOn (state : State) (c : Char) (hc : c ≠ '\'') (h : state.loose = true) :
    (stepOn state c).loose = true := by
  have hfirst := first_loose c hc
  cases state with
  | escapeString | escaped => cases h
  | symbol | closed => exact hfirst
  | _ =>
    simp only [stepOn, next]
    split_ifs <;> simp_all [State.loose]

/-- A quote in a loose state opens a constant, or is in something that holds. -/
theorem held_of_loose (state : State) (h : state.loose = true) :
    (stepOn state '\'').held = true := by
  cases state with
  | escapeString | escaped => cases h
  | quoted quote | quoteSeen quote =>
    simp only [State.loose, Bool.or_eq_true, beq_iff_eq] at h
    first | (obtain rfl := h; rfl) | (rcases h with rfl | rfl <;> rfl)
  | blockComment depth last =>
    simp only [stepOn, next]
    split_ifs with h1 h2 h3
    · exact absurd h1.2 (by decide)
    · exact absurd h1.2 (by decide)
    · exact absurd h3.2 (by decide)
    · rfl
  | word isE => cases isE <;> rfl
  | number isDecimal => cases isDecimal <;> rfl
  | _ => rfl

theorem loose_of_held (state : State) (h : state.held = true) :
    (stepOn state '\'').loose = true := by
  cases state with
  | quoted quote =>
    simp only [State.held, Bool.or_eq_true, beq_iff_eq] at h
    rcases h with rfl | rfl <;> rfl
  | blockComment depth last =>
    simp only [stepOn, next]
    split_ifs <;> rfl
  | lineComment | dollarString | escapeString => rfl
  | _ => cases h

/-- Two quotes in a loose state. -/
theorem loose_of_loose (state : State) (h : state.loose = true) :
    (stepOn (stepOn state '\'') '\'').loose = true :=
  loose_of_held _ (held_of_loose state h)

/-- **Plain text** keeps what holds. -/
theorem held_after (state : State) (s : List Char) (hs : ∀ c ∈ s, isPlain c = true)
    (h : state.held = true) : (after state s).held = true := by
  induction s generalizing state with
  | nil => exact h
  | cons c s ih =>
    rw [after_cons]
    exact ih _ (fun d hd => hs d (by simp [hd])) (held_stepOn state c (hs c (by simp)) h)

theorem inPlace_after (state : State) (s : List Char) (hs : ∀ c ∈ s, isPlain c = true)
    (h : state.inPlace = true ∨ state.held = true) :
    (after state s).inPlace = true ∨ (after state s).held = true := by
  induction s generalizing state with
  | nil => exact h
  | cons c s ih =>
    rw [after_cons]
    refine ih _ (fun d hd => hs d (by simp [hd])) ?_
    rcases h with h | h
    · exact inPlace_stepOn state c (hs c (by simp)) h
    · exact .inr (held_stepOn state c (hs c (by simp)) h)

/-- The content of a string constant as it is written. -/
def doubled (s : List Char) : List Char :=
  s.flatMap fun c => if c = '\'' then ['\'', '\''] else [c]

theorem loose_after_doubled (state : State) (s : List Char) (h : state.loose = true) :
    (after state (doubled s)).loose = true := by
  induction s generalizing state with
  | nil => exact h
  | cons c s ih =>
    rw [doubled, List.flatMap_cons, after_append]
    refine ih _ ?_
    split_ifs with hc
    · exact loose_of_loose state h
    · exact loose_stepOn state c hc h

theorem goes_doubled (s : List Char) : goes (.quoted '\'') (doubled s) = some (.quoted '\'') := by
  induction s with
  | nil => rfl
  | cons c s ih =>
    rw [doubled, List.flatMap_cons, goes_append]
    split_ifs with hc
    · exact ih
    · simp only [goes, next, hc, if_false, Option.bind_some]
      exact ih

/-- **A string constant** that is read as plain text holds afterwards. -/
theorem held_after_string (state : State) (s : List Char) (h : state.held = true) :
    (after state ('\'' :: (doubled s ++ ['\'']))).held = true := by
  rw [after_cons, after_append]
  exact held_of_loose _ (loose_after_doubled _ s (loose_of_held state h))

theorem exists_next_of_held (state : State) (h : state.held = true) :
    ∃ c, next state c ≠ none := by
  refine ⟨'a', ?_⟩
  cases state with
  | lineComment | dollarString | escapeString => simp [next]
  | blockComment depth last => simp [next]
  | quoted quote => simp only [next]; split_ifs <;> simp
  | _ => cases h

/-- **A text that lost its place** cannot be cut. -/
theorem Cut.not_held {c : Char} {s : List Char} {ts : List Token} (h : Cut (c :: s) ts) :
    (after (first c) s).held = false := by
  by_contra hheld
  obtain ⟨d, hd⟩ := exists_next_of_held _ (Bool.not_eq_false _ ▸ hheld)
  exact hd (h.next_eq_none d)

example : (lex "a>1e-5-x".toList).map Token.kind =
    [.word, .symbol, .number, .symbol, .word] := by
  decide +kernel

example : (lex "a='it''s $1'||$12".toList).map Token.kind =
    [.word, .symbol, .string, .symbol, .symbol, .parameter] := by
  decide +kernel

end SqlLex

import Djogi.Proxy.DefaultFilter
import Mathlib

/-!
# Default filters in SQL

What the text of a lowered filter says to the server, once it is put between brackets and followed
by the rest of a query.

* `spells_filterText`: the words of the text;
* `reads_filterWords` and `refuses_filterWords`: what the grammar makes of them;
* `default_filter_comment`: two minus signs in a row open a comment that takes the closing bracket
  with it;
* `operand_value_iff`: the server reads a number as Rust does where it fits its column;
* `default_filter_says`: **the text says what the closure says** when each minus sign stands before
  a number, no string holds a zero character, the columns are lower case and no key words, and the
  numbers fit.
-/

namespace Djogi.Proxy

open SqlLex SqlPredicate

/-! ## Pieces -/

/-- Nothing, or what follows a piece of a filter. -/
def Follows (rest : List Char) : Prop := ∀ c ∈ rest.head?, c = ' ' ∨ c = ')'

/-- Nothing, or the tokens of what follows a piece. -/
def Apart (us : List Token) : Prop := ∀ t ∈ us.head?, t.kind = .blank ∨ t = ⟨.symbol, [')']⟩

/-- The words of a text that starts with no blank, if a separator follows it. -/
structure Spells (text : List Char) (ws : List Word) : Prop where
  head : ∃ c ∈ text.head?, isBlank c = false
  tokens : ∃ ts, (∀ rest, Follows rest → lex (text ++ rest) = ts ++ lex rest) ∧
    ∀ us, Apart us → words (ts ++ us) = ws ++ words us

theorem spells_token (c : Char) (s : List Char) (state : State) (ws : List Word)
    (hblank : isBlank c = false) (h : goes (first c) s = some state) (hspace : next state ' ' = none)
    (hparen : next state ')' = none)
    (hws : ∀ us, Apart us → words (⟨state.kind, c :: s⟩ :: us) = ws ++ words us) :
    Spells (c :: s) ws := by
  refine ⟨⟨c, rfl, hblank⟩, [⟨state.kind, c :: s⟩],
    fun rest hrest => lex_token c s rest state h ?_, hws⟩
  intro d hd
  rcases hrest d hd with rfl | rfl
  · exact hspace
  · exact hparen

theorem lex_space (rest : List Char) (h : ∀ c ∈ rest.head?, isBlank c = false) :
    lex (' ' :: rest) = ⟨.blank, [' ']⟩ :: lex rest := by
  refine lex_token ' ' [] rest .blank rfl fun c hc => ?_
  simp [next, h c hc]

theorem lex_paren (c : Char) (hc : c = '(' ∨ c = ')') (rest : List Char) :
    lex (c :: rest) = ⟨.symbol, [c]⟩ :: lex rest := by
  rcases hc with rfl | rfl
  · exact lex_token '(' [] rest .symbol rfl fun _ _ => rfl
  · exact lex_token ')' [] rest .symbol rfl fun _ _ => rfl

/-- Two pieces with a blank between them. -/
theorem Spells.space {a b : List Char} {ws vs : List Word} (ha : Spells a ws) (hb : Spells b vs) :
    Spells (a ++ ' ' :: b) (ws ++ vs) := by
  obtain ⟨⟨c, hc, hcb⟩, ts, hts, hws⟩ := ha
  obtain ⟨⟨d, hd, hdb⟩, us, hus, hvs⟩ := hb
  have hhead (rest : List Char) : ∀ e ∈ (b ++ rest).head?, isBlank e = false := by
    cases b with
    | nil => cases hd
    | cons e b =>
      obtain rfl := Option.some.inj hd
      intro e' he'
      obtain rfl := Option.some.inj he'
      exact hdb
  refine ⟨⟨c, ?_, hcb⟩, ts ++ ⟨.blank, [' ']⟩ :: us, fun rest hrest => ?_, fun rs hrs => ?_⟩
  · cases a with
    | nil => cases hc
    | cons e a => exact hc
  · rw [List.append_assoc, List.cons_append, hts _ (by simp [Follows]), lex_space _ (hhead rest),
      hus rest hrest, List.append_assoc, List.cons_append]
  · have hblank : words (⟨.blank, [' ']⟩ :: (us ++ rs)) = words (us ++ rs) := rfl
    rw [List.append_assoc, List.cons_append, hws _ (by simp [Apart]), hblank, hvs rs hrs,
      List.append_assoc]

/-- A piece in brackets, whatever follows. -/
theorem Spells.cut {a : List Char} {ws : List Word} (ha : Spells a ws) :
    ∃ ts, Cut ('(' :: (a ++ [')'])) ts ∧
      ∀ us, words (ts ++ us) = .lparen :: (ws ++ [.rparen]) ++ words us := by
  obtain ⟨-, ts, hts, hws⟩ := ha
  refine ⟨⟨.symbol, ['(']⟩ :: (ts ++ [⟨.symbol, [')']⟩]), fun rest => ?_, fun us => ?_⟩
  · rw [List.cons_append, lex_paren _ (.inl rfl), List.append_assoc, List.singleton_append,
      hts _ (by simp [Follows]), lex_paren _ (.inr rfl)]
    simp
  · have hopen (rs : List Token) : words (⟨.symbol, ['(']⟩ :: rs) = .lparen :: words rs := rfl
    have hclose : words (⟨.symbol, [')']⟩ :: us) = .rparen :: words us := rfl
    rw [List.cons_append, hopen, List.append_assoc, List.singleton_append,
      hws _ (by simp [Apart]), hclose]
    simp

theorem Spells.paren {a : List Char} {ws : List Word} (ha : Spells a ws) :
    Spells ('(' :: (a ++ [')'])) (.lparen :: (ws ++ [.rparen])) := by
  obtain ⟨ts, hts, hws⟩ := ha.cut
  exact ⟨⟨'(', rfl, rfl⟩, ts, fun rest _ => hts rest, fun us _ => hws us⟩

/-! ## Words and numbers -/

private theorem first_word (c : Char) (h : isWordStart c = true) :
    isBlank c = false ∧ first c = .word (c == 'e' || c == 'E') := by
  have hne (d : Char) (hd : isWordStart d = false) : c ≠ d := by
    rintro rfl
    rw [h] at hd
    cases hd
  have hblank : isBlank c = false := by
    simp [isBlank, hne ' ' (by decide), hne '\t' (by decide), hne '\n' (by decide),
      hne '\r' (by decide)]
  refine ⟨hblank, ?_⟩
  simp [first, hblank, hne '-' (by decide), hne '/' (by decide), hne '\'' (by decide),
    hne '"' (by decide), hne '$' (by decide), h]

private theorem goes_word (isE : Bool) (s : List Char) (h : ∀ c ∈ s, isWordPart c = true) :
    ∃ b, goes (.word isE) s = some (.word b) := by
  induction s generalizing isE with
  | nil => exact ⟨isE, rfl⟩
  | cons c s ih =>
    have hc := h c (by simp)
    have hquote : c ≠ '\'' := by
      rintro rfl
      revert hc
      decide
    obtain ⟨b, hb⟩ := ih false fun d hd => h d (by simp [hd])
    exact ⟨b, by simp [goes, next, hquote, hc, hb]⟩

/-- **A word** alone. -/
theorem spells_word (c : Char) (s : List Char) (hc : isWordStart c = true)
    (hs : ∀ d ∈ s, isWordPart d = true) : Spells (c :: s) [wordOf (c :: s)] := by
  obtain ⟨b, hb⟩ := goes_word (c == 'e' || c == 'E') s hs
  obtain ⟨hblank, hfirst⟩ := first_word c hc
  refine spells_token c s (.word b) _ hblank (by rw [hfirst, hb]) ?_ ?_ fun us _ => rfl
  · cases b <;> decide
  · cases b <;> decide

private theorem digit_facts (c : Char) (h : c.isDigit = true) :
    c ≠ 'e' ∧ c ≠ 'E' ∧ c.isAlpha = false ∧ isBlank c = false ∧ first c = .number true := by
  have hne (d : Char) (hd : d.isDigit = false) : c ≠ d := by
    rintro rfl
    rw [h] at hd
    cases hd
  have hle : c.toNat ≤ 57 := (Char.isDigit_iff_toNat.mp h).2
  have halpha : c.isAlpha = false := by
    refine Bool.eq_false_iff.mpr fun halpha => ?_
    rcases Bool.or_eq_true_iff.mp halpha with hcase | hcase
    · have hge : 65 ≤ c.toNat := UInt32.le_iff_toNat_le.mp (of_decide_eq_true hcase).1
      omega
    · have hge : 97 ≤ c.toNat :=
        UInt32.le_iff_toNat_le.mp (of_decide_eq_true (Bool.and_eq_true_iff.mp hcase).1)
      omega
  have hlarge : ¬ 128 ≤ c.toNat := by omega
  have hblank : isBlank c = false := by
    simp [isBlank, hne ' ' (by decide), hne '\t' (by decide), hne '\n' (by decide),
      hne '\r' (by decide)]
  have hstart : isWordStart c = false := by simp [isWordStart, halpha, hne '_' (by decide), hlarge]
  refine ⟨hne _ (by decide), hne _ (by decide), halpha, hblank, ?_⟩
  simp [first, hblank, hne '-' (by decide), hne '/' (by decide), hne '\'' (by decide),
    hne '"' (by decide), hne '$' (by decide), hstart, h]

private theorem goes_digits (isDecimal : Bool) (ds : List Char)
    (h : ds.all Char.isDigit = true) : goes (.number isDecimal) ds = some (.number isDecimal) := by
  induction ds with
  | nil => rfl
  | cons d ds ih =>
    rw [List.all_cons, Bool.and_eq_true] at h
    obtain ⟨he, hE, halpha, -, -⟩ := digit_facts d h.1
    simp [goes, next, he, hE, h.1, halpha, ih h.2]

/-- **A number**, from its first digit on. -/
theorem spells_number (d : Char) (s : List Char) (isDecimal : Bool) (hd : d.isDigit = true)
    (h : goes (.number true) s = some (.number isDecimal)) : Spells (d :: s) [.number (d :: s)] := by
  obtain ⟨-, -, -, hblank, hfirst⟩ := digit_facts d hd
  refine spells_token d s (.number isDecimal) _ hblank (by rw [hfirst, h]) ?_ ?_ fun us _ => rfl
  · cases isDecimal <;> decide
  · cases isDecimal <;> decide

theorem spells_int (n : Nat) : Spells (Nat.toDigits 10 n) [.number (Nat.toDigits 10 n)] := by
  have hall : (Nat.toDigits 10 n).all Char.isDigit = true :=
    List.all_eq_true.mpr fun c hc => Nat.isDigit_of_mem_toDigits (by decide) (by decide) hc
  cases hds : Nat.toDigits 10 n with
  | nil => exact absurd hds Nat.toDigits_ne_nil
  | cons d ds =>
    rw [hds, List.all_cons, Bool.and_eq_true] at hall
    exact spells_number d ds true hall.1 (goes_digits true ds hall.2)

private theorem goes_exponent (ds : List Char) (hne : ds ≠ []) (h : ds.all Char.isDigit = true) :
    goes .exponent ds = some (.number false) := by
  cases ds with
  | nil => exact absurd rfl hne
  | cons d ds =>
    rw [List.all_cons, Bool.and_eq_true] at h
    simp [goes, next, h.1, goes_digits false ds h.2]

theorem spells_float (f : FloatDigits) : Spells f.text [.number f.text] := by
  have hwhole := f.whole_digits
  cases hw : f.whole with
  | nil => exact absurd hw f.whole_ne
  | cons d ds =>
    rw [hw, List.all_cons, Bool.and_eq_true] at hwhole
    obtain ⟨isDecimal, hgoes⟩ : ∃ b, goes (.number true) (ds ++
        (f.fraction.elim [] fun ds => '.' :: ds) ++
        f.exponent.elim [] fun e => e.1 :: (e.2.1.toList ++ e.2.2)) = some (.number b) := by
      have hfraction : goes (.number true) (f.fraction.elim [] fun ds => '.' :: ds) =
          some (.number true) := by
        have hdigits := f.fraction_digits
        cases hf : f.fraction with
        | none => rfl
        | some fs =>
          rw [hf] at hdigits
          exact goes_digits true fs hdigits
      simp only [goes_append, goes_digits true ds hwhole.2, Option.bind_some, hfraction]
      cases he : f.exponent with
      | none => exact ⟨true, rfl⟩
      | some e =>
        have hdigits := goes_exponent e.2.2 (f.exponent_ne e he) (f.exponent_digits e he)
        have hmark : goes (.number true) [e.1] = some .exponent := by
          rcases f.exponent_mark e he with h | h <;> rw [h] <;> rfl
        refine ⟨false, ?_⟩
        rw [Option.elim_some, ← List.singleton_append, goes_append, hmark, Option.bind_some]
        cases hsign : e.2.1 with
        | none => exact hdigits
        | some sign =>
          rcases f.exponent_sign e he sign hsign with rfl | rfl
          · exact goes_digits false _ (f.exponent_digits e he)
          · exact goes_digits false _ (f.exponent_digits e he)
    have htext : f.text = d :: (ds ++ (f.fraction.elim [] fun ds => '.' :: ds) ++
        f.exponent.elim [] fun e => e.1 :: (e.2.1.toList ++ e.2.2)) := by
      simp [FloatDigits.text, hw]
    rw [htext]
    exact spells_number d _ isDecimal hwhole.1 hgoes

/-! ## Strings -/

theorem stringContent_doubled (s : List Char) : stringContent (doubled s ++ ['\'']) = s := by
  induction s with
  | nil => rfl
  | cons c s ih =>
    rw [doubled, List.flatMap_cons, List.append_assoc]
    split_ifs with hc
    · subst hc
      exact congrArg ('\'' :: ·) ih
    · rw [List.singleton_append, stringContent]
      · exact congrArg (c :: ·) ih
      · rintro rfl
        exact absurd rfl hc
      · rintro _ _ rfl
        exact absurd rfl hc

/-- **A string constant.** -/
theorem spells_string (s : List Char) : Spells ('\'' :: (doubled s ++ ['\''])) [.string s] := by
  have hgoes : goes (first '\'') (doubled s ++ ['\'']) = some (.quoteSeen '\'') := by
    rw [goes_append, show first '\'' = .quoted '\'' from rfl, goes_doubled]
    rfl
  refine spells_token _ _ _ _ rfl hgoes rfl rfl fun us _ => ?_
  show [Word.string (stringContent (doubled s ++ ['\'']))] ++ words us = _
  rw [stringContent_doubled]

/-! ## Literals -/

/-- A literal that SQL reads as it is written. -/
def Arg.plain : Arg → Bool
  | .neg (.int _) | .neg (.float _ _) => true
  | .neg _ => false
  | .str s => !s.toList.contains (Char.ofNat 0)
  | _ => true

def Arg.minus : Arg → Bool
  | .neg _ => true
  | _ => false

/-- Two minus signs in a row. -/
def Arg.twoMinus : Arg → Bool
  | .neg arg => arg.minus
  | _ => false

/-- The constant that the text of a literal is. -/
def Arg.operand : Arg → Operand
  | .null => .null
  | .bool value => .bool value
  | .int n => .number (Nat.toDigits 10 n)
  | .float f _ => .number f.text
  | .str s => .string s.toList
  | .neg arg => .neg arg.operand

def argWords : Arg → List Word
  | .null => [.null]
  | .bool value => [.bool value]
  | .int n => [.number (Nat.toDigits 10 n)]
  | .float f _ => [.number f.text]
  | .str s => [.string s.toList]
  | .neg arg => .minus :: argWords arg

theorem readsOperand_argWords (arg : Arg) : ReadsOperand (argWords arg) arg.operand := by
  induction arg with
  | neg arg ih => exact ih.neg
  | _ => exact fun _ => rfl

theorem Spells.minus {c : Char} {s : List Char} {ws : List Word} (h : Spells (c :: s) ws)
    (hc : c ≠ '-') : Spells ('-' :: c :: s) (.minus :: ws) := by
  obtain ⟨-, ts, hts, hws⟩ := h
  refine ⟨⟨'-', rfl, rfl⟩, ⟨.symbol, ['-']⟩ :: ts, fun rest hrest => ?_, fun us hus => ?_⟩
  · show lex ('-' :: [] ++ (c :: s ++ rest)) = ⟨.symbol, ['-']⟩ :: (ts ++ lex rest)
    rw [← hts rest hrest]
    refine lex_token '-' [] _ .dash rfl fun d hd => ?_
    obtain rfl := Option.some.inj hd
    simp [next, hc]
  · have hminus (rs : List Token) : words (⟨.symbol, ['-']⟩ :: rs) = .minus :: words rs := rfl
    rw [List.cons_append, hminus, hws us hus, List.cons_append]

private theorem digit_ne_minus (c : Char) (h : c.isDigit = true) : c ≠ '-' := by
  rintro rfl
  revert h
  decide

/-- **A literal.** -/
theorem spells_arg (arg : Arg) (h : arg.plain = true) : Spells arg.text (argWords arg) := by
  cases arg with
  | null => exact spells_word 'N' "ULL".toList (by decide) (List.all_eq_true.mp (by decide))
  | bool value =>
    cases value with
    | true => exact spells_word 'T' "RUE".toList (by decide) (List.all_eq_true.mp (by decide))
    | false => exact spells_word 'F' "ALSE".toList (by decide) (List.all_eq_true.mp (by decide))
  | int n => exact spells_int n
  | float f suffix => exact spells_float f
  | str s => exact spells_string s.toList
  | neg arg =>
    cases arg with
    | int n =>
      have hint := spells_int n
      have hdigit (c : Char) (hc : c ∈ Nat.toDigits 10 n) : c.isDigit = true :=
        Nat.isDigit_of_mem_toDigits (by decide) (by decide) hc
      simp only [Arg.text, argWords]
      cases hds : Nat.toDigits 10 n with
      | nil => exact absurd hds Nat.toDigits_ne_nil
      | cons d ds =>
        rw [hds] at hint hdigit
        exact hint.minus (digit_ne_minus d (hdigit d (by simp)))
    | float f suffix =>
      have hfloat := spells_float f
      have hwhole := f.whole_digits
      simp only [Arg.text, argWords]
      cases hw : f.whole with
      | nil => exact absurd hw f.whole_ne
      | cons d ds =>
        rw [hw, List.all_cons, Bool.and_eq_true] at hwhole
        have htext : f.text = d :: (ds ++ (f.fraction.elim [] fun ds => '.' :: ds) ++
            f.exponent.elim [] fun e => e.1 :: (e.2.1.toList ++ e.2.2)) := by
          simp [FloatDigits.text, hw]
        rw [htext] at hfloat ⊢
        exact hfloat.minus (digit_ne_minus d hwhole.1)
    | _ => cases h

/-! ## Filters -/

def filterWords : Filter → List Word
  | .compare op c arg => wordOf c.toList :: .op op :: argWords arg
  | .isNull negated c => wordOf c.toList :: if negated then [.is, .not, .null] else [.is, .null]
  | .between c lo hi =>
    wordOf c.toList :: .column "between".toList :: (argWords lo ++ .and :: argWords hi)
  | .binary isAnd p q =>
    .lparen :: (filterWords p ++ (if isAnd then .and else .or) :: (filterWords q ++ [.rparen]))

private theorem spells_symbol (c : Char) (op : CompareOp) (hblank : isBlank c = false)
    (hc : first c = .symbol)
    (hws : ∀ us, Apart us → words (⟨.symbol, [c]⟩ :: us) = [.op op] ++ words us) :
    Spells [c] [.op op] :=
  spells_token c [] .symbol _ hblank (by rw [hc]; rfl) rfl rfl hws

private theorem spells_twoSymbols (c d : Char) (op : CompareOp) (hblank : isBlank c = false)
    (hc : first c = .symbol) (hd : first d = .symbol)
    (hws : ∀ us, words (⟨.symbol, [c]⟩ :: ⟨.symbol, [d]⟩ :: us) = [.op op] ++ words us) :
    Spells [c, d] [.op op] := by
  refine ⟨⟨c, rfl, hblank⟩, [⟨.symbol, [c]⟩, ⟨.symbol, [d]⟩], fun rest _ => ?_, fun us _ => hws us⟩
  have hfirst (e : Char) (he : first e = .symbol) (rest : List Char) :
      lex (e :: rest) = ⟨.symbol, [e]⟩ :: lex rest :=
    lex_token e [] rest .symbol (by rw [he]; rfl) fun _ _ => rfl
  simp only [List.cons_append, List.nil_append, hfirst c hc, hfirst d hd]

theorem spells_op (op : CompareOp) : Spells (sqlOp op).toList [.op op] := by
  cases op with
  | eq => exact spells_symbol '=' .eq rfl rfl fun us _ => rfl
  | ne => exact spells_twoSymbols '<' '>' .ne rfl rfl rfl fun us => rfl
  | gt =>
    refine spells_symbol '>' .gt rfl rfl fun us hus => ?_
    cases us with
    | nil => rfl
    | cons t us =>
      rcases hus t rfl with h | rfl
      · cases t
        cases h
        rfl
      · rfl
  | ge => exact spells_twoSymbols '>' '=' .ge rfl rfl rfl fun us => rfl
  | lt =>
    refine spells_symbol '<' .lt rfl rfl fun us hus => ?_
    cases us with
    | nil => rfl
    | cons t us =>
      rcases hus t rfl with h | rfl
      · cases t
        cases h
        rfl
      · rfl
  | le => exact spells_twoSymbols '<' '=' .le rfl rfl rfl fun us => rfl

theorem checkColumn_shape (c : String) (h : checkColumn c = .ok c) :
    ∃ d s, c.toList = d :: s ∧ (d.isAlpha || d == '_') = true ∧
      ∀ e ∈ s, (e.isAlphanum || e == '_') = true := by
  unfold checkColumn at h
  split_ifs at h with hsize hstart hpart
  cases hc : c.toList with
  | nil => simp [hc] at hstart
  | cons d s =>
    rw [hc] at hstart hpart
    refine ⟨d, s, rfl, ?_, ?_⟩
    · simpa only [List.head?_cons, Option.any_some, Bool.not_eq_true', Bool.not_eq_false] using
        hstart
    · rwa [Bool.not_eq_true, Bool.not_eq_false', List.tail_cons, List.all_eq_true] at hpart

theorem spells_column (c : String) (h : checkColumn c = .ok c) :
    Spells c.toList [wordOf c.toList] := by
  obtain ⟨d, s, hc, hd, hs⟩ := checkColumn_shape c h
  rw [hc]
  refine spells_word d s (by rw [isWordStart, hd, Bool.true_or]) fun e he => ?_
  have halnum : e.isAlphanum = (e.isAlpha || e.isDigit) := rfl
  have hpart := hs e he
  rw [halnum] at hpart
  simp only [isWordPart, isWordStart, Bool.or_eq_true] at hpart ⊢
  tauto

/-- **The words of a filter.** -/
theorem spells_filterText (p : Filter) (hcols : Filter.Accepted p)
    (hargs : ∀ arg ∈ p.operands, arg.plain = true) : Spells (filterText p) (filterWords p) := by
  have hkey (c : Char) (s : List Char) (w : Word) (hc : isWordStart c = true)
      (hs : s.all isWordPart = true) (hw : wordOf (c :: s) = w) : Spells (c :: s) [w] :=
    hw ▸ spells_word c s hc (List.all_eq_true.mp hs)
  induction p with
  | compare op c arg =>
    have hcolumn := spells_column c (hcols c (by simp [Pred.columns]))
    have harg := spells_arg arg (hargs arg (by simp [Pred.operands]))
    exact hcolumn.space ((spells_op op).space harg)
  | isNull negated c =>
    have hcolumn := spells_column c (hcols c (by simp [Pred.columns]))
    have hnull := hkey 'N' "ULL".toList .null (by decide) (by decide) rfl
    have his := hkey 'I' "S".toList .is (by decide) (by decide) rfl
    have hnot := hkey 'N' "OT".toList .not (by decide) (by decide) rfl
    cases negated with
    | true => exact hcolumn.space (his.space (hnot.space hnull))
    | false => exact hcolumn.space (his.space hnull)
  | between c lo hi =>
    have hcolumn := spells_column c (hcols c (by simp [Pred.columns]))
    have hlo := spells_arg lo (hargs lo (by simp [Pred.operands]))
    have hhi := spells_arg hi (hargs hi (by simp [Pred.operands]))
    have hbetween := hkey 'B' "ETWEEN".toList (.column "between".toList) (by decide) (by decide) rfl
    have hand := hkey 'A' "ND".toList .and (by decide) (by decide) rfl
    have hall := hcolumn.space (hbetween.space (hlo.space (hand.space hhi)))
    simpa [filterText, filterWords] using hall
  | binary isAnd p q ihp ihq =>
    have hp := ihp (fun c hc => hcols c (by simp [Pred.columns, hc])) fun arg harg =>
      hargs arg (by simp [Pred.operands, harg])
    have hq := ihq (fun c hc => hcols c (by simp [Pred.columns, hc])) fun arg harg =>
      hargs arg (by simp [Pred.operands, harg])
    have hand := hkey 'A' "ND".toList .and (by decide) (by decide) rfl
    have hor := hkey 'O' "R".toList .or (by decide) (by decide) rfl
    cases isAnd with
    | true => simpa [filterText, filterWords] using (hp.space (hand.space hq)).paren
    | false => simpa [filterText, filterWords] using (hp.space (hor.space hq)).paren

/-! ## What the grammar makes of a filter -/

def foldedName (c : String) : List Char := c.toList.map Char.toLower

/-- A column name that stands for itself without quotes. -/
def plainColumn (c : String) : Bool := wordOf c.toList == .column c.toList

theorem wordOf_cases (w : List Char) : wordOf w = .column (w.map Char.toLower) ∨
    wordOf w ≠ .lparen ∧ ∀ d, wordOf w ≠ .column d := by
  unfold wordOf
  simp only
  cases h : grammarWords.lookup (String.ofList (w.map Char.toLower)) with
  | none =>
    simp only
    split_ifs
    · exact .inr ⟨by simp, by simp⟩
    · exact .inl rfl
  | some v =>
    have hall : ∀ e ∈ grammarWords, e.2 ≠ .lparen ∧ ∀ d, e.2 ≠ .column d := by
      simp [grammarWords]
    obtain ⟨l₁, l₂, hl, -⟩ := List.lookup_eq_some_iff.mp h
    exact .inr (hall (String.ofList (w.map Char.toLower), v) (by rw [hl]; simp))

/-- The predicate that the text of a filter is. -/
def Filter.inSql (p : Filter) : Pred (List Char) Operand := p.map foldedName Arg.operand

theorem reads_filterWords (p : Filter)
    (h : ∀ c ∈ p.columns, wordOf c.toList = .column (foldedName c)) :
    Reads (filterWords p) p.inSql := by
  induction p with
  | compare op c arg =>
    rw [filterWords, h c (by simp [Pred.columns])]
    exact reads_compare op _ (readsOperand_argWords arg)
  | isNull negated c =>
    rw [filterWords, h c (by simp [Pred.columns])]
    cases negated with
    | true => exact reads_isNotNull _
    | false => exact reads_isNull _
  | between c lo hi =>
    rw [filterWords, h c (by simp [Pred.columns])]
    exact reads_between _ (readsOperand_argWords lo) (readsOperand_argWords hi)
  | binary isAnd p q ihp ihq =>
    exact Reads.binary isAnd (ihp fun c hc => h c (by simp [Pred.columns, hc]))
      (ihq fun c hc => h c (by simp [Pred.columns, hc]))

/-- **A key word** where a column should be. -/
theorem refuses_filterWords (p : Filter)
    (h : ∃ c ∈ p.columns, wordOf c.toList ≠ .column (foldedName c)) :
    Refuses (filterWords p) := by
  have hleaf (c : String) (ws : List Word) (hc : wordOf c.toList ≠ .column (foldedName c)) :
      Refuses (wordOf c.toList :: ws) := by
    obtain ⟨hparen, hcolumn⟩ := (wordOf_cases c.toList).resolve_left hc
    exact refuses_cons _ _ hparen hcolumn
  induction p with
  | compare op c arg =>
    obtain ⟨d, hd, hw⟩ := h
    obtain rfl := List.mem_singleton.mp hd
    exact hleaf d _ hw
  | isNull negated c =>
    obtain ⟨d, hd, hw⟩ := h
    obtain rfl := List.mem_singleton.mp hd
    exact hleaf d _ hw
  | between c lo hi =>
    obtain ⟨d, hd, hw⟩ := h
    obtain rfl := List.mem_singleton.mp hd
    exact hleaf d _ hw
  | binary isAnd p q ihp ihq =>
    by_cases hp : ∃ c ∈ p.columns, wordOf c.toList ≠ .column (foldedName c)
    · exact Refuses.binary isAnd (.inl (ihp hp))
    · refine Refuses.binary isAnd (.inr ⟨⟨_, reads_filterWords p ?_⟩, ihq ?_⟩)
      · intro c hc
        by_contra hne
        exact hp ⟨c, hc, hne⟩
      · obtain ⟨c, hc, hw⟩ := h
        rcases List.mem_append.mp hc with hc | hc
        · exact absurd ⟨c, hc, hw⟩ hp
        · exact ⟨c, hc, hw⟩

/-! ## Lost places -/

private theorem isPlain_of_class (p : Char → Bool)
    (hp : ['\n', '*', '/', '$', '"', '\'', '\\'].any p = false) (c : Char) (h : p c = true) :
    isPlain c = true := by
  rw [isPlain, Bool.not_eq_true', ← Bool.not_eq_true]
  intro hc
  rw [← Bool.not_eq_true, List.any_eq_true] at hp
  exact hp ⟨c, List.contains_iff_mem.mp hc, h⟩

private theorem plain_of_all (s : List Char) (h : s.all isPlain = true) :
    ∀ c ∈ s, isPlain c = true := List.all_eq_true.mp h

private theorem plain_digits (ds : List Char) (h : ds.all Char.isDigit = true) :
    ∀ c ∈ ds, isPlain c = true :=
  fun c hc => isPlain_of_class _ (by decide) c (List.all_eq_true.mp h c hc)

private theorem plain_column (c : String) (h : checkColumn c = .ok c) :
    ∀ d ∈ c.toList, isPlain d = true := by
  obtain ⟨d, s, hc, hd, hs⟩ := checkColumn_shape c h
  rw [hc]
  intro e he
  rcases List.mem_cons.mp he with rfl | he
  · exact isPlain_of_class (fun c => c.isAlpha || c == '_') (by decide) e hd
  · exact isPlain_of_class (fun c => c.isAlphanum || c == '_') (by decide) e (hs e he)

private theorem plain_op (op : CompareOp) : ∀ c ∈ (sqlOp op).toList, isPlain c = true := by
  cases op <;> exact List.all_eq_true.mp (by decide)

private theorem plain_float (f : FloatDigits) : ∀ c ∈ f.text, isPlain c = true := by
  intro c hc
  rw [FloatDigits.text] at hc
  rcases List.mem_append.mp hc with hc | hc
  · rcases List.mem_append.mp hc with hc | hc
    · exact plain_digits _ f.whole_digits c hc
    · have hdigits := f.fraction_digits
      cases hf : f.fraction with
      | none => simp [hf] at hc
      | some ds =>
        rw [hf] at hc hdigits
        rcases List.mem_cons.mp hc with rfl | hc
        · decide
        · exact plain_digits ds hdigits c hc
  · cases he : f.exponent with
    | none => simp [he] at hc
    | some e =>
      rw [he] at hc
      rcases List.mem_cons.mp hc with rfl | hc
      · rcases f.exponent_mark e he with h | h <;> rw [h] <;> decide
      rcases List.mem_append.mp hc with hc | hc
      · rcases f.exponent_sign e he c (Option.mem_toList.mp hc) with rfl | rfl <;> decide
      · exact plain_digits _ (f.exponent_digits e he) c hc

/-- Where the text of a filter may start: in place, or where nothing is in place any more. -/
def OnTrack (state : State) : Prop := state.inPlace = true ∨ state.held = true

theorem OnTrack.blank {state : State} (h : OnTrack state) :
    stepOn state ' ' = .blank ∨ (stepOn state ' ').held = true := by
  rcases h with h | h
  · left
    cases state with
    | word isE => cases isE <;> rfl
    | number isDecimal => cases isDecimal <;> rfl
    | quoteSeen quote =>
      obtain rfl : quote = '\'' := by simpa [State.inPlace] using h
      rfl
    | blank | symbol | dash | exponent => rfl
    | _ => cases h
  · exact .inr (held_stepOn state ' ' rfl h)

/-- What a literal does to the state: it stays on track, it never comes back, and two minus signs
lose the place. -/
theorem after_arg (arg : Arg) (state : State) (h : state = .blank ∨ state = .dash ∨
    state.held = true) : OnTrack (after state arg.text) ∧
      (state.held = true ∨ state = .dash ∧ arg.minus = true ∨
        state = .blank ∧ arg.twoMinus = true → (after state arg.text).held = true) := by
  have hplain (s : List Char) (hs : ∀ c ∈ s, isPlain c = true) :
      OnTrack (after state s) ∧ (state.held = true → (after state s).held = true) := by
    refine ⟨inPlace_after state s hs ?_, held_after state s hs⟩
    rcases h with rfl | rfl | h
    · exact .inl rfl
    · exact .inl rfl
    · exact .inr h
  induction arg generalizing state with
  | null =>
    have hall := hplain "NULL".toList (plain_of_all _ rfl)
    exact ⟨hall.1, fun hheld => hall.2 (by simpa [Arg.minus, Arg.twoMinus] using hheld)⟩
  | bool value =>
    have hall := hplain (Arg.bool value).text (plain_of_all _ (by cases value <;> rfl))
    exact ⟨hall.1, fun hheld => hall.2 (by simpa [Arg.minus, Arg.twoMinus] using hheld)⟩
  | int n =>
    have hall := hplain (Nat.toDigits 10 n) (plain_digits _ (List.all_eq_true.mpr fun c hc =>
      Nat.isDigit_of_mem_toDigits (by decide) (by decide) hc))
    exact ⟨hall.1, fun hheld => hall.2 (by simpa [Arg.minus, Arg.twoMinus] using hheld)⟩
  | float f suffix =>
    have hall := hplain f.text (plain_float f)
    exact ⟨hall.1, fun hheld => hall.2 (by simpa [Arg.minus, Arg.twoMinus] using hheld)⟩
  | str s =>
    have hheld (hs : state.held = true) : (after state (Arg.str s).text).held = true :=
      held_after_string state s.toList hs
    refine ⟨?_, fun hs => hheld (by simpa [Arg.minus, Arg.twoMinus] using hs)⟩
    have hquoted (t : State) (ht : stepOn t '\'' = .quoted '\'') :
        OnTrack (after t (Arg.str s).text) := by
      have hcontent : after (.quoted '\'') (doubled s.toList) = .quoted '\'' :=
        after_of_goes _ _ _ (goes_doubled s.toList)
      rw [Arg.text, after_cons, ht, after_append, hcontent]
      exact .inl rfl
    rcases h with rfl | rfl | h
    · exact hquoted _ rfl
    · exact hquoted _ rfl
    · exact .inr (hheld h)
  | neg arg ih =>
    rw [Arg.text, after_cons]
    rcases h with rfl | rfl | h
    · have hdash := ih .dash (.inr (.inl rfl)) fun s hs =>
        ⟨inPlace_after .dash s hs (.inl rfl), held_after .dash s hs⟩
      refine ⟨hdash.1, fun hs => hdash.2 (.inr (.inl ⟨rfl, ?_⟩))⟩
      simpa [State.held, Arg.twoMinus] using hs
    · have hline := ih .lineComment (.inr (.inr rfl)) fun s hs =>
        ⟨inPlace_after _ s hs (.inr rfl), held_after _ s hs⟩
      exact ⟨hline.1, fun _ => hline.2 (.inl rfl)⟩
    · have hstep := held_stepOn state '-' rfl h
      have hheld := ih (stepOn state '-') (.inr (.inr hstep)) fun s hs =>
        ⟨inPlace_after _ s hs (.inr hstep), held_after _ s hs⟩
      exact ⟨hheld.1, fun _ => hheld.2 (.inl hstep)⟩

/-- A piece keeps the text on track and never brings it back; if `lost`, it loses the place. -/
def Passes (lost : Prop) (s : List Char) : Prop :=
  ∀ state, OnTrack state →
    OnTrack (after state s) ∧ (state.held = true ∨ lost → (after state s).held = true)

theorem passes_plain (s : List Char) (hs : ∀ c ∈ s, isPlain c = true) : Passes False s :=
  fun state h => ⟨inPlace_after state s hs h,
    fun hheld => held_after state s hs (hheld.resolve_right id)⟩

theorem Passes.append {a b : List Char} {lost lost' : Prop} (ha : Passes lost a)
    (hb : Passes lost' b) : Passes (lost ∨ lost') (a ++ b) := by
  intro state h
  obtain ⟨htrack, hheld⟩ := ha state h
  obtain ⟨htrack', hheld'⟩ := hb _ htrack
  rw [after_append]
  refine ⟨htrack', fun hlost => hheld' ?_⟩
  rcases hlost with hs | hl | hl
  · exact .inl (hheld (.inl hs))
  · exact .inl (hheld (.inr hl))
  · exact .inr hl

/-- A literal after a blank. -/
theorem passes_arg (arg : Arg) : Passes (arg.twoMinus = true) (' ' :: arg.text) := by
  intro state h
  rw [after_cons]
  rcases h.blank with hblank | hheld
  · obtain ⟨htrack, hlost⟩ := after_arg arg .blank (.inl rfl)
    rw [hblank]
    refine ⟨htrack, fun hs => hlost ?_⟩
    rcases hs with hs | hs
    · have hstep := held_stepOn state ' ' rfl hs
      rw [hblank] at hstep
      exact .inl hstep
    · exact .inr (.inr ⟨rfl, hs⟩)
  · obtain ⟨htrack, hlost⟩ := after_arg arg _ (.inr (.inr hheld))
    exact ⟨htrack, fun _ => hlost (.inl hheld)⟩

/-- **Two minus signs** anywhere in a filter lose the place for good. -/
theorem passes_filterText (p : Filter) (hcols : Filter.Accepted p) :
    Passes (∃ arg ∈ p.operands, arg.twoMinus = true) (filterText p) := by
  have hkey (s : List Char) (hs : s.all isPlain = true) : Passes False s :=
    passes_plain s (plain_of_all s hs)
  induction p with
  | compare op c arg =>
    have hc := passes_plain _ (plain_column c (hcols c (by simp [Pred.columns])))
    have hop := passes_plain _ (plain_op op)
    have hall := hc.append ((hkey [' '] rfl).append (hop.append (passes_arg arg)))
    simpa [filterText, Pred.operands] using hall
  | isNull negated c =>
    have hc := passes_plain _ (plain_column c (hcols c (by simp [Pred.columns])))
    cases negated with
    | true => simpa [filterText, Pred.operands] using hc.append (hkey " IS NOT NULL".toList rfl)
    | false => simpa [filterText, Pred.operands] using hc.append (hkey " IS NULL".toList rfl)
  | between c lo hi =>
    have hc := passes_plain _ (plain_column c (hcols c (by simp [Pred.columns])))
    have hall := hc.append ((hkey " BETWEEN".toList rfl).append ((passes_arg lo).append
      ((hkey " AND".toList rfl).append (passes_arg hi))))
    simpa [filterText, Pred.operands] using hall
  | binary isAnd p q ihp ihq =>
    have hp := ihp fun c hc => hcols c (by simp [Pred.columns, hc])
    have hq := ihq fun c hc => hcols c (by simp [Pred.columns, hc])
    have hop := hkey (' ' :: ((if isAnd then "AND" else "OR").toList ++ [' ']))
      (by cases isAnd <;> rfl)
    have hall := (hkey ['('] rfl).append (hp.append (hop.append (hq.append (hkey [')'] rfl))))
    simpa [filterText, Pred.operands, or_and_right, exists_or] using hall

theorem not_twoMinus_of_cut (p : Filter) (hcols : Filter.Accepted p) (ts : List Token)
    (h : Cut ('(' :: (filterText p ++ [')'])) ts) : ∀ arg ∈ p.operands, arg.twoMinus = false := by
  intro arg harg
  by_contra htwo
  obtain ⟨htrack, hlost⟩ := passes_filterText p hcols .symbol (.inl rfl)
  have hheld := hlost (.inr ⟨arg, harg, by simpa using htwo⟩)
  have hend := h.not_held
  rw [show first '(' = .symbol from rfl, after_append] at hend
  rw [(passes_plain [')'] (plain_of_all _ rfl) _ htrack).2 (.inl hheld)] at hend
  cases hend

/-! ## Zero characters -/

def nul : Char := Char.ofNat 0

private theorem ne_nul_of_class (p : Char → Bool) (hp : p nul = false) (s : List Char)
    (hs : ∀ c ∈ s, p c = true) : nul ∉ s := by
  intro hmem
  have hnul := hs nul hmem
  rw [hp] at hnul
  cases hnul

theorem mem_doubled (c : Char) (s : List Char) : c ∈ doubled s ↔ c ∈ s := by
  simp only [doubled, List.mem_flatMap]
  constructor
  · rintro ⟨d, hd, hc⟩
    split_ifs at hc with hquote
    · have hcq : c = '\'' := by simpa using hc
      rw [hcq, ← hquote]
      exact hd
    · rwa [List.mem_singleton.mp hc]
  · intro hc
    refine ⟨c, hc, ?_⟩
    split_ifs with hquote
    · simp [hquote]
    · simp

private theorem nul_notMem_digits (n : Nat) : nul ∉ Nat.toDigits 10 n :=
  ne_nul_of_class Char.isDigit (by decide) _ fun c hc =>
    Nat.isDigit_of_mem_toDigits (by decide) (by decide) hc

private theorem nul_notMem_float (f : FloatDigits) : nul ∉ f.text := by
  intro hc
  have hdigits (ds : List Char) (hds : ds.all Char.isDigit = true) : nul ∉ ds :=
    ne_nul_of_class Char.isDigit (by decide) ds (List.all_eq_true.mp hds)
  rw [FloatDigits.text] at hc
  rcases List.mem_append.mp hc with hc | hc
  · rcases List.mem_append.mp hc with hc | hc
    · exact hdigits _ f.whole_digits hc
    · have hfraction := f.fraction_digits
      cases hf : f.fraction with
      | none => simp [hf] at hc
      | some ds =>
        rw [hf] at hc hfraction
        rcases List.mem_cons.mp hc with hc | hc
        · exact absurd hc (by decide)
        · exact hdigits ds hfraction hc
  · cases he : f.exponent with
    | none => simp [he] at hc
    | some e =>
      rw [he] at hc
      rcases List.mem_cons.mp hc with hc | hc
      · rcases f.exponent_mark e he with h | h <;> rw [h] at hc <;> exact absurd hc (by decide)
      rcases List.mem_append.mp hc with hc | hc
      · rcases f.exponent_sign e he nul (Option.mem_toList.mp hc) with h | h <;>
          exact absurd h (by decide)
      · exact hdigits _ (f.exponent_digits e he) hc

theorem nul_notMem_arg (arg : Arg) (h : arg.plain = true) : nul ∉ arg.text := by
  cases arg with
  | null => decide
  | bool value => cases value <;> decide
  | int n => exact nul_notMem_digits n
  | float f suffix => exact nul_notMem_float f
  | str s =>
    have hs : nul ∉ s.toList := by simpa [Arg.plain, nul] using h
    have hquote : nul ≠ '\'' := by decide
    simpa [Arg.text, mem_doubled, hquote] using hs
  | neg arg =>
    have hminus : nul ≠ '-' := by decide
    cases arg with
    | int n => simpa [Arg.text, hminus] using nul_notMem_digits n
    | float f suffix => simpa [Arg.text, hminus] using nul_notMem_float f
    | _ => cases h

theorem nul_mem_arg (s : String) (h : nul ∈ s.toList) : nul ∈ (Arg.str s).text := by
  simp [Arg.text, mem_doubled, h]

theorem mem_filterText (p : Filter) (arg : Arg) (h : arg ∈ p.operands) (c : Char)
    (hc : c ∈ arg.text) : c ∈ filterText p := by
  induction p with
  | compare op d a =>
    obtain rfl := List.mem_singleton.mp h
    simp [filterText, hc]
  | isNull negated d => cases h
  | between d lo hi =>
    rcases List.mem_cons.mp h with rfl | h
    · simp [filterText, hc]
    · obtain rfl := List.mem_singleton.mp h
      simp [filterText, hc]
  | binary isAnd p q ihp ihq =>
    rcases List.mem_append.mp h with h | h
    · simp [filterText, ihp h]
    · simp [filterText, ihq h]

theorem nul_notMem_filterText (p : Filter) (hcols : Filter.Accepted p)
    (hargs : ∀ arg ∈ p.operands, arg.plain = true) : nul ∉ filterText p := by
  have hcolumn (c : String) (hc : checkColumn c = .ok c) : nul ∉ c.toList := by
    obtain ⟨d, s, hcs, hd, hs⟩ := checkColumn_shape c hc
    rw [hcs]
    intro hmem
    rcases List.mem_cons.mp hmem with hmem | hmem
    · rw [← hmem] at hd
      exact absurd hd (by decide)
    · exact absurd (hs nul hmem) (by decide)
  induction p with
  | compare op c arg =>
    have hop : nul ∉ (sqlOp op).toList := by cases op <;> decide
    have hspace : nul ≠ ' ' := by decide
    simp [filterText, hcolumn c (hcols c (by simp [Pred.columns])), hop, hspace,
      nul_notMem_arg arg (hargs arg (by simp [Pred.operands]))]
  | isNull negated c =>
    have hkey : nul ∉ (if negated then " IS NOT NULL".toList else " IS NULL".toList) := by
      cases negated <;> decide
    rw [filterText, List.mem_append]
    exact not_or.mpr ⟨hcolumn c (hcols c (by simp [Pred.columns])), hkey⟩
  | between c lo hi =>
    have hkey : nul ∉ " BETWEEN ".toList ∧ nul ∉ " AND ".toList := by decide
    simp only [filterText, List.mem_append, not_or]
    exact ⟨⟨⟨⟨hcolumn c (hcols c (by simp [Pred.columns])), hkey.1⟩,
      nul_notMem_arg lo (hargs lo (by simp [Pred.operands]))⟩, hkey.2⟩,
      nul_notMem_arg hi (hargs hi (by simp [Pred.operands]))⟩
  | binary isAnd p q ihp ihq =>
    have hp := ihp (fun c hc => hcols c (by simp [Pred.columns, hc])) fun arg harg =>
      hargs arg (by simp [Pred.operands, harg])
    have hq := ihq (fun c hc => hcols c (by simp [Pred.columns, hc])) fun arg harg =>
      hargs arg (by simp [Pred.operands, harg])
    have hop : nul ∉ (if isAnd then "AND" else "OR").toList := by cases isAnd <;> decide
    have hother : nul ≠ '(' ∧ nul ≠ ' ' ∧ nul ≠ ')' := by decide
    simp only [filterText, List.mem_cons, List.mem_append, not_or]
    exact ⟨hother.1, hp, hother.2.1, hop, hother.2.1, hq, hother.2.2, by simp⟩

/-! ## Values -/

theorem decimal_digits (n : Nat) : decimal (Nat.toDigits 10 n) = n := by
  have hdigit (c : Char) (hc : c ∈ Nat.toDigits 10 n) : c.isDigit = true :=
    Nat.isDigit_of_mem_toDigits (by decide) (by decide) hc
  have hne (c d : Char) (hc : c ∈ Nat.toDigits 10 n) (hd : d.isDigit = false) : (c != d) = true := by
    rw [bne_iff_ne]
    rintro rfl
    rw [hdigit c hc] at hd
    cases hd
  have hmantissa : (Nat.toDigits 10 n).takeWhile (fun c => c != 'e' && c != 'E') =
      Nat.toDigits 10 n :=
    List.takeWhile_eq_self_iff.mpr fun c hc => by
      rw [hne c 'e' hc (by decide), hne c 'E' hc (by decide)]
      rfl
  have hwhole : (Nat.toDigits 10 n).takeWhile (· != '.') = Nat.toDigits 10 n :=
    List.takeWhile_eq_self_iff.mpr fun c hc => hne c '.' hc (by decide)
  have hnil : (Nat.toDigits 10 n).drop ((Nat.toDigits 10 n).length + 1) = [] :=
    List.drop_of_length_le (by omega)
  rw [decimal]
  simp only [hmantissa, hwhole, hnil, List.append_nil, List.length_nil, pow_zero, div_one,
    digitsValue, Nat.ofDigitChars_ten_toDigits]
  simp [exponentValue, digitsValue]

/-- The server compares the column with the number that the literal is in Rust. -/
def Arg.fits (type : ColumnType) : Arg → Bool
  | .int n => decide (type.number n = some n)
  | .float f suffix =>
    (floatNumber type suffix (decimal f.text)).isSome &&
      decide (type.number (decimal f.text) = floatNumber type suffix (decimal f.text))
  | .neg arg => arg.fits type
  | _ => true

theorem valueAt_of_number (ops : Operators) (type : ColumnType) (o : Operand) (q : ℚ)
    (h : o.value ops = some (some (.number q))) :
    o.valueAt ops type = (type.number q).map fun q => some (.number q) := by
  rw [Operand.valueAt, h]
  show ((type.number q).map Value.number).map some = _
  rw [Option.map_map]
  rfl

/-- **The server reads a literal** as Rust does exactly where it fits. -/
theorem operand_value_iff (ops : Operators) (type : ColumnType) (arg : Arg) (h : arg.plain = true)
    (hvalue : (arg.value type).isSome = true) :
    arg.operand.valueAt ops type = arg.value type ↔ arg.fits type = true := by
  have hint (n : Nat) : (Arg.int n).operand.value ops = some (some (.number n)) := by
    rw [Arg.operand, Operand.value, decimal_digits]
  cases arg with
  | int n =>
    rw [valueAt_of_number ops type _ n (hint n)]
    simp [Arg.value, Arg.fits]
  | float f suffix =>
    rw [valueAt_of_number ops type _ (decimal f.text) rfl]
    obtain ⟨r, hr⟩ : ∃ r, floatNumber type suffix (decimal f.text) = some r := by
      simpa [Arg.value, Option.isSome_iff_exists] using hvalue
    simp [Arg.value, Arg.fits, hr]
  | neg arg =>
    cases arg with
    | int n =>
      rw [valueAt_of_number ops type _ (-n) (by rw [Arg.operand, Operand.value, hint]),
        type.number_neg]
      simp [Arg.value, Arg.fits, neg_inj]
    | float f suffix =>
      rw [valueAt_of_number ops type _ (-decimal f.text) rfl, type.number_neg]
      obtain ⟨r, hr⟩ : ∃ r, floatNumber type suffix (decimal f.text) = some r := by
        cases hr : floatNumber type suffix (decimal f.text) with
        | none => simp [Arg.value, hr] at hvalue
        | some r => exact ⟨r, rfl⟩
      simp [Arg.value, Arg.fits, hr, neg_inj]
    | _ => cases h
  | _ => exact iff_of_true rfl rfl

/-- `0.1` -/
def tenth : FloatDigits where
  whole := ['0']
  fraction := some ['1']
  exponent := none
  whole_ne := by decide
  whole_digits := by decide
  fraction_digits := by decide
  exponent_mark := by simp
  exponent_sign := by simp
  exponent_ne := by simp
  exponent_digits := by simp

example : (Arg.float tenth none).fits .double = true ∧
    (Arg.float tenth none).fits .real = false := by
  decide +kernel

/-- What does not fit is a number, in Rust and in SQL. -/
theorem numbers_of_not_fits (ops : Operators) (type : ColumnType) (arg : Arg)
    (h : arg.plain = true) (hfits : ¬ arg.fits type = true)
    (hvalue : (arg.value type).isSome = true)
    (hoperand : (arg.operand.valueAt ops type).isSome = true) :
    ∃ q r, arg.value type = some (some (.number q)) ∧
      ∀ ops, arg.operand.valueAt ops type = some (some (.number r)) := by
  have hrust : ∃ q, arg.value type = some (some (.number q)) := by
    cases arg with
    | int n => exact ⟨n, rfl⟩
    | float f suffix =>
      obtain ⟨v, hv⟩ := Option.isSome_iff_exists.mp hvalue
      obtain ⟨q, -, rfl⟩ := Option.map_eq_some_iff.mp hv
      exact ⟨q, hv⟩
    | neg arg =>
      cases hv : arg.value type with
      | none => simp [Arg.value, hv] at hvalue
      | some v =>
        rcases v with _ | ⟨b⟩ | q | s
        · simp [Arg.value, hv] at hvalue
        · simp [Arg.value, hv] at hvalue
        · exact ⟨-q, by simp [Arg.value, hv]⟩
        · simp [Arg.value, hv] at hvalue
    | _ => exact absurd rfl hfits
  obtain ⟨q, hq⟩ := hrust
  have hsql : ∃ q, ∀ ops, arg.operand.value ops = some (some (.number q)) := by
    cases arg with
    | int n => exact ⟨_, fun _ => rfl⟩
    | float f suffix => exact ⟨_, fun _ => rfl⟩
    | neg arg =>
      cases arg with
      | int n => exact ⟨_, fun _ => rfl⟩
      | float f suffix => exact ⟨_, fun _ => rfl⟩
      | _ => cases h
    | _ => exact absurd rfl hfits
  obtain ⟨p, hp⟩ := hsql
  rw [valueAt_of_number ops type _ p (hp ops), Option.isSome_map] at hoperand
  obtain ⟨r, hr⟩ := Option.isSome_iff_exists.mp hoperand
  exact ⟨q, r, hq, fun ops => by rw [valueAt_of_number ops type _ p (hp ops), hr]; rfl⟩

theorem plain_of_value (type : ColumnType) (arg : Arg) (h : (arg.value type).isSome = true)
    (htwo : arg.twoMinus = false) (hnul : nul ∉ arg.text) : arg.plain = true := by
  cases arg with
  | str s =>
    have hs : nul ∉ s.toList := fun hmem => hnul (nul_mem_arg s hmem)
    simpa [Arg.plain, nul] using hs
  | neg arg =>
    cases arg with
    | int | float => rfl
    | neg => cases htwo
    | _ => cases h
  | _ => rfl

theorem value_of_fits (type : ColumnType) (arg : Arg) (h : arg.plain = true)
    (hfits : arg.fits type = true) : (arg.value type).isSome = true := by
  cases arg with
  | float f suffix =>
    rw [Arg.fits, Bool.and_eq_true] at hfits
    simpa [Arg.value] using hfits.1
  | neg arg =>
    cases arg with
    | int n => rfl
    | float f suffix =>
      rw [Arg.fits, Arg.fits, Bool.and_eq_true] at hfits
      obtain ⟨r, hr⟩ := Option.isSome_iff_exists.mp hfits.1
      simp [Arg.value, hr]
    | _ => cases h
  | _ => rfl

/-! ## What a filter says -/

/-- A filter that SQL reads as it is written. -/
def Filter.plain (p : Filter) : Bool := p.columns.all plainColumn && p.operands.all Arg.plain

/-- Every column is compared with the numbers that the literals are in Rust. -/
def Filter.fits (types : List Char → ColumnType) (p : Filter) : Bool :=
  p.comparisons.all fun x => x.2.2.fits (types x.2.1.toList)

/-- No column is compared twice by one operator. -/
def Filter.Separate (p : Filter) : Prop := (p.comparisons.map fun x => (x.1, x.2.1)).Nodup

/-- What the filter says, with the literals as they are in Rust beside their columns. -/
def Filter.reading (types : List Char → ColumnType) (p : Filter) (ops : Operators)
    (cell : List Char → Option (Option Value)) : Option (Option Bool) :=
  p.value ops (fun c => cell c.toList) fun c arg => arg.value (types c.toList)

/-- What the server makes of an expression. -/
def sqlValue (types : List Char → ColumnType) (q : Pred (List Char) Operand) (ops : Operators)
    (cell : List Char → Option (Option Value)) : Option (Option Bool) :=
  q.value ops cell fun c o => o.valueAt ops (types c)

/-- The text says what the filter says: each literal has a Rust value, and the text between
brackets, whatever follows, is one complete expression with the filter's value on every row. A
statement with a zero character cannot be sent. -/
def Filter.SaidBy (types : List Char → ColumnType) (p : Filter) (text : String) : Prop :=
  (∀ x ∈ p.comparisons, (x.2.2.value (types x.2.1.toList)).isSome = true) ∧ nul ∉ text.toList ∧
    ∃ ts q, Cut (emitRawSql text).toList ts ∧ parse (words ts) = some q ∧
      ∀ ops cell, sqlValue types q ops cell = p.reading types ops cell

/-- The words of the whole text. -/
theorem words_of_cut (p : Filter) (hcols : Filter.Accepted p)
    (hargs : ∀ arg ∈ p.operands, arg.plain = true) :
    ∃ ts, Cut ('(' :: (filterText p ++ [')'])) ts ∧
      words ts = .lparen :: (filterWords p ++ [.rparen]) := by
  obtain ⟨ts, hcut, hwords⟩ := (spells_filterText p hcols hargs).cut
  have hnil := hwords []
  rw [List.append_nil, show words [] = [] from rfl, List.append_nil] at hnil
  exact ⟨ts, hcut, hnil⟩

/-- The columns and the literals of a plain filter are what they are in the text. -/
theorem columns_of_plain (p : Filter) (h : p.plain = true) :
    (∀ c ∈ p.columns, wordOf c.toList = .column c.toList ∧ foldedName c = c.toList) ∧
      ∀ arg ∈ p.operands, arg.plain = true := by
  rw [Filter.plain, Bool.and_eq_true, List.all_eq_true, List.all_eq_true] at h
  refine ⟨fun c hc => ?_, h.2⟩
  have hcolumn : wordOf c.toList = .column c.toList := by
    simpa [plainColumn] using h.1 c hc
  refine ⟨hcolumn, ?_⟩
  rcases wordOf_cases c.toList with hw | hw
  · exact (Word.column.inj (hcolumn.symm.trans hw)).symm
  · exact absurd hcolumn (hw.2 _)

theorem mem_operands (p : Filter) (x : CompareOp × String × Arg) (h : x ∈ p.comparisons) :
    x.2.2 ∈ p.operands := by
  rw [← Pred.comparisons_operands]
  exact List.mem_map_of_mem (f := fun x => x.2.2) h

theorem saidBy_of_plain (types : List Char → ColumnType) (p : Filter) (text : String)
    (hcols : Filter.Accepted p) (htext : text.toList = filterText p) (h : p.plain = true)
    (hfits : p.fits types = true) : p.SaidBy types text := by
  obtain ⟨hcolumns, hargs⟩ := columns_of_plain p h
  rw [Filter.fits, List.all_eq_true] at hfits
  have hvalues (x : CompareOp × String × Arg) (hx : x ∈ p.comparisons) :
      (x.2.2.value (types x.2.1.toList)).isSome = true :=
    value_of_fits _ _ (hargs _ (mem_operands p x hx)) (hfits x hx)
  obtain ⟨ts, hcut, hwords⟩ := words_of_cut p hcols hargs
  have hparse : parse (words ts) = some p.inSql := by
    rw [hwords]
    refine parse_paren_of_reads (reads_filterWords p fun c hc => ?_)
    rw [(hcolumns c hc).1, (hcolumns c hc).2]
  refine ⟨hvalues, ?_, ts, p.inSql, ?_, hparse, ?_⟩
  · rw [htext]
    exact nul_notMem_filterText p hcols hargs
  · simpa [emitRawSql, htext] using hcut
  · intro ops cell
    refine Pred.value_map ops foldedName Arg.operand _ cell _ _ p
      (fun c hc => by rw [(hcolumns c hc).2]) fun x hx => ?_
    rw [(hcolumns _ (Pred.comparison_column p x hx)).2]
    exact (operand_value_iff ops _ _ (hargs _ (mem_operands p x hx)) (hvalues x hx)).mpr
      (hfits x hx)

theorem toLower_foldedName (c : String) : (foldedName c).map Char.toLower = foldedName c := by
  simp [foldedName]

/-- What can be read is the filter in SQL: its literals are plain, and its columns no key words. -/
theorem inSql_of_saidBy (types : List Char → ColumnType) (p : Filter) (text : String)
    (hcols : Filter.Accepted p) (htext : text.toList = filterText p) (h : p.SaidBy types text) :
    (∀ arg ∈ p.operands, arg.plain = true) ∧
      (∀ c ∈ p.columns, wordOf c.toList = .column (foldedName c)) ∧
      ∀ ops cell, sqlValue types p.inSql ops cell = p.reading types ops cell := by
  obtain ⟨hvalues, hnul, ts, q, hcut, hparse, hsame⟩ := h
  have hbrackets : (emitRawSql text).toList = '(' :: (filterText p ++ [')']) := by
    simp [emitRawSql, htext]
  rw [hbrackets] at hcut
  rw [htext] at hnul
  have hargs : ∀ arg ∈ p.operands, arg.plain = true := by
    intro arg harg
    have hmem := harg
    rw [← Pred.comparisons_operands] at hmem
    obtain ⟨x, hx, rfl⟩ := List.mem_map.mp hmem
    exact plain_of_value _ _ (hvalues x hx) (not_twoMinus_of_cut p hcols ts hcut _ harg)
      fun hmem => hnul (mem_filterText p _ harg nul hmem)
  refine ⟨hargs, ?_⟩
  obtain ⟨ts', hcut', hwords⟩ := words_of_cut p hcols hargs
  rw [hcut.eq, ← hcut'.eq, hwords] at hparse
  -- no column is a key word, or there would be no parse
  have hcolumn : ∀ c ∈ p.columns, wordOf c.toList = .column (foldedName c) := by
    by_contra hkey
    have hkey : ∃ c ∈ p.columns, wordOf c.toList ≠ .column (foldedName c) := by simpa using hkey
    rw [parse_paren_of_refuses (refuses_filterWords p hkey)] at hparse
    cases hparse
  rw [parse_paren_of_reads (reads_filterWords p hcolumn)] at hparse
  obtain rfl := Option.some.inj hparse
  exact ⟨hcolumn, hsame⟩

/-- A server that compares everything, and never knows. -/
def unknowing : Operators where
  compare _ _ _ := some none
  negate _ := none

/-- A comparison with a literal that has a value. -/
theorem comparisonValue_of_value (types : List Char → ColumnType) (ops : Operators)
    (cell : List Char → Option (Option Value)) (x : CompareOp × String × Arg) (a v : Option Value)
    (hcell : cell x.2.1.toList = some a) (hv : x.2.2.value (types x.2.1.toList) = some v) :
    comparisonValue ops (fun c : String => cell c.toList)
      (fun c arg => Arg.value (types c.toList) arg) x = compareCells ops x.1 a v := by
  simp [comparisonValue, hcell, hv]

/-- Where a text says what the filter says, the server can compare with every literal. -/
theorem operand_isSome_of_saidBy (types : List Char → ColumnType) (p : Filter)
    (hvalues : ∀ x ∈ p.comparisons, (x.2.2.value (types x.2.1.toList)).isSome = true)
    (hsame : ∀ ops cell, sqlValue types p.inSql ops cell = p.reading types ops cell) :
    ∀ x ∈ p.inSql.comparisons, (x.2.2.valueAt unknowing (types x.2.1)).isSome = true := by
  intro x hx
  by_contra hnone
  -- a row of `NULL`s has a value in Rust, and an error in SQL
  have hsql : sqlValue types p.inSql unknowing (fun _ => some none) = none := by
    refine Pred.value_eq_none_of_comparison _ _ _ _ x hx ?_
    simp [comparisonValue, Option.not_isSome_iff_eq_none.mp hnone]
  have hrust : (p.reading types unknowing (fun _ => some none)).isSome = true := by
    refine Pred.value_isSome _ _ _ _ (fun _ _ => rfl) fun y hy => ?_
    obtain ⟨v, hv⟩ := Option.isSome_iff_exists.mp (hvalues y hy)
    rw [comparisonValue_of_value types unknowing (fun _ => some none) y none v rfl hv]
    rfl
  rw [← hsame, hsql] at hrust
  cases hrust

theorem plain_of_saidBy (types : List Char → ColumnType) (p : Filter) (text : String)
    (hcols : Filter.Accepted p) (htext : text.toList = filterText p) (h : p.SaidBy types text) :
    p.plain = true := by
  obtain ⟨hargs, hcolumn, hsame⟩ := inSql_of_saidBy types p text hcols htext h
  have hoperands := operand_isSome_of_saidBy types p h.1 hsame
  rw [Filter.plain, Bool.and_eq_true, List.all_eq_true, List.all_eq_true]
  refine ⟨fun c hc => ?_, hargs⟩
  -- a column that is folded to another one: a row that lacks the first has no value
  by_contra hplain
  have hfold : foldedName c ≠ c.toList := by
    intro he
    have hw := hcolumn c hc
    rw [he] at hw
    exact hplain (by simp [plainColumn, hw])
  let cell : List Char → Option (Option Value) := fun d => if d = c.toList then none else some none
  have hmissing : p.reading types unknowing cell = none :=
    Pred.value_eq_none unknowing p _ _ c hc (if_pos rfl)
  have hcell (d : List Char) (hd : d ∈ p.inSql.columns) : cell d = some none := by
    obtain ⟨e, he, rfl⟩ := Pred.mem_columns_map p _ _ d hd
    refine if_neg fun heq => hfold ?_
    rw [foldedName, ← heq, toLower_foldedName]
  have hpresent : (sqlValue types p.inSql unknowing cell).isSome = true := by
    refine Pred.value_isSome _ _ cell _ (fun d hd => by rw [hcell d hd]; rfl) fun x hx => ?_
    obtain ⟨v, hv⟩ := Option.isSome_iff_exists.mp (hoperands x hx)
    simp [comparisonValue, hcell _ (Pred.comparison_column _ x hx), hv, compareCells]
  rw [hsame, hmissing] at hpresent
  cases hpresent

/-- A server that fails to compare one column by one operator with anything but one value. -/
def picky (op : CompareOp) (cell value : Value) : Operators where
  compare o a b := if o = op ∧ a = cell ∧ b ≠ value then none else some none
  negate _ := none

/-- **Literals fit** where no column is compared twice by one operator. Else two of them might
stand for each other. -/
theorem fits_of_saidBy (types : List Char → ColumnType) (p : Filter) (text : String)
    (hcols : Filter.Accepted p) (htext : text.toList = filterText p) (h : p.SaidBy types text)
    (hseparate : p.Separate) : p.fits types = true := by
  obtain ⟨hargs, -, hsame⟩ := inSql_of_saidBy types p text hcols htext h
  have hoperands := operand_isSome_of_saidBy types p h.1 hsame
  have hfolds := (columns_of_plain p (plain_of_saidBy types p text hcols htext h)).1
  rw [Filter.fits, List.all_eq_true]
  intro x hx
  have hxsql : (x.1, x.2.1.toList, x.2.2.operand) ∈ p.inSql.comparisons := by
    rw [Filter.inSql, Pred.comparisons_map]
    refine List.mem_map.mpr ⟨x, hx, ?_⟩
    rw [(hfolds _ (Pred.comparison_column p x hx)).2]
  by_contra hfits
  have hplain := hargs _ (mem_operands p x hx)
  obtain ⟨q, r, hq, hr⟩ :=
    numbers_of_not_fits unknowing _ _ hplain hfits (h.1 x hx) (hoperands _ hxsql)
  have hne : r ≠ q := by
    rintro rfl
    exact hfits ((operand_value_iff unknowing _ _ hplain (h.1 x hx)).mp ((hr _).trans hq.symm))
  -- a row of different values, and a server that takes the Rust value only
  let cell : List Char → Option (Option Value) := fun d => some (some (.text d))
  let server : Operators := picky x.1 (.text x.2.1.toList) (.number q)
  have hrust : (p.reading types server cell).isSome = true := by
    refine Pred.value_isSome _ _ _ _ (fun _ _ => rfl) fun y hy => ?_
    obtain ⟨v, hv⟩ := Option.isSome_iff_exists.mp (h.1 y hy)
    rw [comparisonValue_of_value types server cell y _ v rfl hv]
    cases v with
    | none => rfl
    | some v =>
      by_cases hsame : y.1 = x.1 ∧ y.2.1 = x.2.1
      · obtain rfl : y = x := List.inj_on_of_nodup_map hseparate hy hx
          (Prod.ext hsame.1 hsame.2)
        obtain rfl := Option.some.inj (Option.some.inj (hv.symm.trans hq))
        simp [compareCells, server, picky]
      · have hother : ¬ (y.1 = x.1 ∧ Value.text y.2.1.toList = .text x.2.1.toList) := by
          rintro ⟨hop, hcolumn⟩
          exact hsame ⟨hop, String.toList_inj.mp (Value.text.inj hcolumn)⟩
        simp only [compareCells, server, picky]
        rw [if_neg fun hpicked => hother ⟨hpicked.1, hpicked.2.1⟩]
        rfl
  have hsql : sqlValue types p.inSql server cell = none := by
    refine Pred.value_eq_none_of_comparison _ _ _ _ _ hxsql ?_
    show (x.2.2.operand.valueAt server (types x.2.1.toList)).bind
      (compareCells server x.1 (some (.text x.2.1.toList))) = none
    rw [hr server]
    exact if_pos ⟨rfl, rfl, fun heq => hne (Value.number.inj heq)⟩
  rw [← hsame, hsql] at hrust
  cases hrust

/-- **The text says what the closure says** when the filter is plain and its numbers fit their
columns. A text that says it is of a plain filter, and the numbers fit where no column is compared
twice by one operator. -/
theorem default_filter_says (closure : ExprClosure) (text : String)
    (types : List Char → ColumnType) (h : lowerDefaultFilterToSql closure = .ok text) :
    ∃ p, readClosure closure = some p ∧
      (p.plain = true ∧ p.fits types = true → p.SaidBy types text) ∧
      (p.SaidBy types text → p.plain = true ∧ (p.Separate → p.fits types = true)) := by
  obtain ⟨p, hread, hcols, htext⟩ : ∃ p, readClosure closure = some p ∧ Filter.Accepted p ∧
      text.toList = filterText p := by
    unfold lowerDefaultFilterToSql at h
    split at h
    · rename_i f hinputs
      obtain ⟨p, hp, hcols, htext⟩ := lowerPredExpr_ok f closure.body text h
      exact ⟨p, by simp [readClosure, hinputs, hp], hcols, htext⟩
    · cases h
    · cases h
  exact ⟨p, hread, fun ⟨hplain, hfits⟩ => saidBy_of_plain types p text hcols htext hplain hfits,
    fun hsaid => ⟨plain_of_saidBy types p text hcols htext hsaid,
      fits_of_saidBy types p text hcols htext hsaid⟩⟩

/-- `|f| f.balance.gte(-50).or_with(f.deleted_at.is_null())` -/
def balanceFilter : ExprClosure where
  inputs := [.ident "f"]
  body := .methodCall
    (.methodCall (.field (.path (some "f")) (.named "balance")) "gte" [.unary .neg (.lit (.int 50))])
    "or_with" [.methodCall (.field (.path (some "f")) (.named "deleted_at")) "is_null" []]

/-- The balance is a `DOUBLE PRECISION`. -/
def balanceTypes (c : List Char) : ColumnType := if c = "balance".toList then .double else .exact

theorem default_filter_balance : ∃ p, readClosure balanceFilter = some p ∧
    p.SaidBy balanceTypes "(balance >= -50 OR deleted_at IS NULL)" := by
  obtain ⟨p, hp, hsaid, -⟩ := default_filter_says balanceFilter
    "(balance >= -50 OR deleted_at IS NULL)" balanceTypes (by rfl)
  have htest : (readClosure balanceFilter).any
      (fun p => p.plain && p.fits balanceTypes) = true := by decide +kernel
  rw [hp, Option.any_some, Bool.and_eq_true] at htest
  exact ⟨p, hp, hsaid htest⟩

/-- `|f| f.balance.eq(--5)` -/
def doubleMinus : ExprClosure where
  inputs := [.ident "f"]
  body := .methodCall (.field (.path (some "f")) (.named "balance")) "eq"
    [.unary .neg (.unary .neg (.lit (.int 5)))]

/-- **The sign is written twice**, and the rest of the query is a comment. -/
theorem default_filter_comment : lowerDefaultFilterToSql doubleMinus = .ok "balance = --5" ∧
    ∀ types, ¬ ∃ p, readClosure doubleMinus = some p ∧ p.SaidBy types "balance = --5" := by
  refine ⟨rfl, ?_⟩
  rintro types ⟨p, hp, hsaid⟩
  obtain ⟨q, hq, hcols, htext⟩ := lowerPredExpr_ok "f" doubleMinus.body "balance = --5" rfl
  obtain rfl := Option.some.inj (hp.symm.trans hq)
  have hplain := plain_of_saidBy types p _ hcols htext hsaid
  obtain rfl := Option.some.inj hp
  simp [Filter.plain, Pred.operands, Arg.plain] at hplain

end Djogi.Proxy

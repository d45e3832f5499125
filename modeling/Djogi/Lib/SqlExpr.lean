import Djogi.Lib.Kleene
import Djogi.Lib.SqlLex
import Mathlib.Data.List.TakeWhile

/-!
# Boolean SQL expressions as text

The part of SQL that a `WHERE` clause over the columns of one row is written in: words,
the grammar `OR` < `AND` < `NOT` < comparison, and the three-valued value on a row.

* `Lexes.append`: the tokens of a text are those of its pieces, cut at separators.
* `Reads`: a list of tokens is read as one operand, whatever follows; `Reads.not`,
  `Reads.and`, `ReadsAnd.or` and `ReadsOr.paren` build larger operands.
* `parse_of_reads`: the expression of a text, from its tokens.
-/

namespace SqlExpr

/-! ## Words -/

structure ColumnRef where
  table : Option (List Char)
  name : List Char
deriving DecidableEq

inductive Token where
  | lparen
  | rparen
  | comma
  | and
  | or
  | not
  | in_
  | is
  | null
  | bool (b : Bool)
  | eq
  | ne
  | bind (n : Nat)
  | column (c : ColumnRef)
  | unknown
deriving DecidableEq

/-- The words that are no names, in the case that words are folded to. -/
def keywords : List (List Char × Token) :=
  [("and".toList, .and), ("or".toList, .or), ("not".toList, .not), ("in".toList, .in_),
    ("is".toList, .is), ("null".toList, .null), ("true".toList, .bool true),
    ("false".toList, .bool false), ("=".toList, .eq), ("<>".toList, .ne)]

def isNameChar (c : Char) : Bool := c.isLower || c.isDigit || c == '_'

/-- A name that stands for itself without quotes: lower case, no keyword. -/
def isName (w : List Char) : Bool :=
  w.all isNameChar && w.head?.any (fun c => !c.isDigit) && (keywords.lookup w).isNone &&
    !SqlLex.reservedWords.contains (String.ofList w)

def columnOf (w : List Char) : Token :=
  let table := w.takeWhile (· != '.')
  match w.drop table.length with
  | [] => if isName w then .column ⟨none, w⟩ else .unknown
  | _ :: name =>
    if isName table && isName name then .column ⟨some table, name⟩ else .unknown

def wordToken : List Char → Token
  | '$' :: ds =>
    if ds ≠ [] ∧ ds.all Char.isDigit then .bind (Nat.ofDigitChars 10 ds 0) else .unknown
  | w => (keywords.lookup w).getD (columnOf w)

/-- The tokens that a single character is: a blank is none, a letter belongs to a word. -/
def separator : Char → Option (List Token)
  | ' ' => some []
  | '(' => some [.lparen]
  | ')' => some [.rparen]
  | ',' => some [.comma]
  | _ => none

def flush (w : List Char) : List Token := if w = [] then [] else [wordToken w]

/-- The tokens of a text, with the word read so far; words are folded to lower case. -/
def scan : List Char → List Char → List Token
  | w, [] => flush w
  | w, c :: cs =>
    match separator c with
    | some ts => flush w ++ ts ++ scan [] cs
    | none => scan (w ++ [c.toLower]) cs

attribute [grind] scan

def tokens (text : String) : List Token := scan [] text.toList

/-! ## Cutting a text into pieces -/

/-- Nothing, or something that ends a word. -/
def EndsWord (cs : List Char) : Prop := ∀ c ∈ cs.head?, (separator c).isSome

/-- The tokens of a text that some separator must follow. -/
def Lexes (text : List Char) (ts : List Token) : Prop :=
  ∀ rest, EndsWord rest → scan [] (text ++ rest) = ts ++ scan [] rest

/-- The tokens of a text that ends with a separator itself. -/
def LexesClosed (text : List Char) (ts : List Token) : Prop :=
  ∀ rest, scan [] (text ++ rest) = ts ++ scan [] rest

theorem scan_of_endsWord (w rest : List Char) (h : EndsWord rest) :
    scan w rest = flush w ++ scan [] rest := by
  cases rest with
  | nil => simp [scan, flush]
  | cons c cs =>
    obtain ⟨ts, hts⟩ := Option.isSome_iff_exists.mp (h c rfl)
    simp [scan, hts, flush]

/-- A character that a word keeps as it is. -/
def IsWordChar (c : Char) : Prop := separator c = none ∧ c.toLower = c

theorem scan_word (w text rest : List Char) (h : ∀ c ∈ text, IsWordChar c) :
    scan w (text ++ rest) = scan (w ++ text) rest := by
  induction text generalizing w with
  | nil => simp
  | cons c text ih =>
    obtain ⟨hsep, hlow⟩ := h c (by simp)
    rw [List.cons_append, scan, hsep]
    show scan (w ++ [c.toLower]) (text ++ rest) = _
    rw [hlow, ih _ fun d hd => h d (by simp [hd]), List.append_assoc, List.singleton_append]

/-- A word alone. -/
theorem lexes_word (w : List Char) (hne : w ≠ []) (h : ∀ c ∈ w, IsWordChar c) :
    Lexes w [wordToken w] := by
  intro rest hrest
  rw [scan_word [] w rest h, List.nil_append, scan_of_endsWord w rest hrest, flush, if_neg hne]

theorem LexesClosed.lexes {a b : List Char} {ts us : List Token} (ha : LexesClosed a ts)
    (hb : Lexes b us) : Lexes (a ++ b) (ts ++ us) := by
  intro rest hrest
  rw [List.append_assoc, ha, hb rest hrest, List.append_assoc]

theorem LexesClosed.append {a b : List Char} {ts us : List Token} (ha : LexesClosed a ts)
    (hb : LexesClosed b us) : LexesClosed (a ++ b) (ts ++ us) := by
  intro rest
  rw [List.append_assoc, ha, hb rest, List.append_assoc]

def startsWithSeparator : List Char → Bool
  | c :: _ => (separator c).isSome
  | [] => false

private theorem endsWord_append (b rest : List Char) (h : startsWithSeparator b = true) :
    EndsWord (b ++ rest) := by
  cases b with
  | nil => cases h
  | cons c b =>
    intro d hd
    obtain rfl := Option.some.inj hd
    exact h

theorem Lexes.append {a b : List Char} {ts us : List Token} (ha : Lexes a ts) (hb : Lexes b us)
    (h : startsWithSeparator b = true) : Lexes (a ++ b) (ts ++ us) := by
  intro rest hrest
  rw [List.append_assoc, ha _ (endsWord_append b rest h), hb rest hrest, List.append_assoc]

theorem Lexes.closed {a b : List Char} {ts us : List Token} (ha : Lexes a ts)
    (hb : LexesClosed b us) (h : startsWithSeparator b = true) :
    LexesClosed (a ++ b) (ts ++ us) := by
  intro rest
  rw [List.append_assoc, ha _ (endsWord_append b rest h), hb rest, List.append_assoc]

theorem LexesClosed.toLexes {a : List Char} {ts : List Token} (h : LexesClosed a ts) :
    Lexes a ts :=
  fun rest _ => h rest

theorem isNameChar_isWordChar (c : Char) (h : isNameChar c = true) : IsWordChar c := by
  constructor
  · unfold separator
    split <;> first | rfl | (revert h; decide)
  · unfold Char.toLower
    refine dif_neg fun hu => ?_
    simp only [isNameChar, Char.isDigit, Bool.or_eq_true, Bool.and_eq_true,
      decide_eq_true_eq, beq_iff_eq, ge_iff_le, UInt32.le_iff_toNat_le] at h
    simp only [ge_iff_le, UInt32.le_iff_toNat_le] at hu
    rcases h with (h | h) | rfl
    · have h1 : 97 ≤ c.val.toNat := UInt32.le_iff_toNat_le.mp
        (of_decide_eq_true ((Bool.and_eq_true_iff.mp h).1))
      have h2 : c.val.toNat ≤ 90 := hu.2
      omega
    · have h1 : c.val.toNat ≤ 57 := h.2
      have h2 : 65 ≤ c.val.toNat := hu.1
      omega
    · revert hu
      decide

/-! ## The words of this grammar -/

theorem isName_ne_nil (w : List Char) (h : isName w = true) : w ≠ [] := by
  rintro rfl
  revert h
  decide

theorem isName_isWordChar (w : List Char) (h : isName w = true) : ∀ c ∈ w, IsWordChar c := by
  simp only [isName, Bool.and_eq_true, List.all_eq_true] at h
  exact fun c hc => isNameChar_isWordChar c (h.1.1.1 c hc)

theorem isName_dot (w : List Char) (h : isName w = true) : ∀ c ∈ w, (c != '.') = true := by
  simp only [isName, Bool.and_eq_true, List.all_eq_true] at h
  intro c hc
  have hn := h.1.1.1 c hc
  by_contra hd
  have hd : c = '.' := by simpa using hd
  subst hd
  revert hn
  decide

private theorem isName_dollar (w : List Char) (h : isName w = true) (ds : List Char) :
    w ≠ '$' :: ds := by
  rintro rfl
  simp only [isName, Bool.and_eq_true, List.all_cons] at h
  have hn := h.1.1.1.1
  revert hn
  decide

private theorem wordToken_of_ne (w : List Char) (h : ∀ ds, w ≠ '$' :: ds) :
    wordToken w = (keywords.lookup w).getD (columnOf w) := by
  unfold wordToken
  split
  · rename_i ds
    exact absurd rfl (h ds)
  · rfl

theorem wordToken_name (w : List Char) (h : isName w = true) :
    wordToken w = .column ⟨none, w⟩ := by
  have hk : keywords.lookup w = none := by
    simp only [isName, Bool.and_eq_true, Option.isNone_iff_eq_none] at h
    exact h.1.2
  have htake : w.takeWhile (· != '.') = w :=
    List.takeWhile_eq_self_iff.mpr (isName_dot w h)
  rw [wordToken_of_ne w (isName_dollar w h), hk, Option.getD_none, columnOf, htake,
    List.drop_length]
  simp [h]

/-- The keywords hold no dot. -/
private theorem lookup_of_dot (w : List Char) (h : '.' ∈ w) : keywords.lookup w = none := by
  rw [List.lookup_eq_none_iff]
  have hall : ∀ p ∈ keywords, '.' ∉ p.1 := by decide
  intro p hp
  have hne : w ≠ p.1 := fun he => hall p hp (he ▸ h)
  simpa using hne

theorem wordToken_qualified (t w : List Char) (ht : isName t = true) (hw : isName w = true) :
    wordToken (t ++ '.' :: w) = .column ⟨some t, w⟩ := by
  have hdollar (ds : List Char) : t ++ '.' :: w ≠ '$' :: ds := by
    intro he
    cases t with
    | nil => exact isName_ne_nil [] ht rfl
    | cons c t => exact isName_dollar (c :: t) ht t (by rw [(List.cons.inj he).1])
  have htake : (t ++ '.' :: w).takeWhile (· != '.') = t := by
    rw [List.takeWhile_append_of_pos (isName_dot t ht)]
    simp
  rw [wordToken_of_ne _ hdollar, lookup_of_dot _ (by simp), Option.getD_none, columnOf, htake,
    List.drop_left]
  simp [ht, hw]

theorem wordToken_bind (n : Nat) : wordToken ('$' :: Nat.toDigits 10 n) = .bind n := by
  have hd : (Nat.toDigits 10 n).all Char.isDigit = true :=
    List.all_eq_true.mpr fun c hc => Nat.isDigit_of_mem_toDigits (by decide) (by decide) hc
  rw [wordToken, if_pos ⟨Nat.toDigits_ne_nil, hd⟩, Nat.ofDigitChars_ten_toDigits]

theorem lexes_name (w : List Char) (h : isName w = true) : Lexes w [.column ⟨none, w⟩] := by
  rw [← wordToken_name w h]
  exact lexes_word w (isName_ne_nil w h) (isName_isWordChar w h)

theorem lexes_qualified (t w : List Char) (ht : isName t = true) (hw : isName w = true) :
    Lexes (t ++ '.' :: w) [.column ⟨some t, w⟩] := by
  rw [← wordToken_qualified t w ht hw]
  refine lexes_word _ (by simp) fun c hc => ?_
  rw [List.mem_append, List.mem_cons] at hc
  rcases hc with hc | rfl | hc
  · exact isName_isWordChar t ht c hc
  · exact ⟨rfl, rfl⟩
  · exact isName_isWordChar w hw c hc

theorem lexes_bind (n : Nat) : Lexes ('$' :: Nat.toDigits 10 n) [.bind n] := by
  rw [← wordToken_bind n]
  refine lexes_word _ (by simp) fun c hc => ?_
  rcases List.mem_cons.mp hc with rfl | hc
  · exact ⟨rfl, rfl⟩
  · refine isNameChar_isWordChar c ?_
    simp [isNameChar, Nat.isDigit_of_mem_toDigits (by decide) (by decide) hc]

/-! ## Expressions -/

inductive Expr where
  | bool (b : Bool)
  | compare (negated : Bool) (column : ColumnRef) (bind : Nat)
  | isNull (negated : Bool) (column : ColumnRef)
  | member (negated : Bool) (column : ColumnRef) (binds : List Nat)
  | not (e : Expr)
  | and (e₁ e₂ : Expr)
  | or (e₁ e₂ : Expr)

/-- The rest of a list of parameters, after its opening bracket. -/
def parseBinds : List Token → Option (List Nat × List Token)
  | .bind n :: .rparen :: ts => some ([n], ts)
  | .bind n :: .comma :: ts => (parseBinds ts).map fun (ns, ts) => (n :: ns, ts)
  | _ => none

def parseComparison : List Token → Option (Expr × List Token)
  | .bool b :: ts => some (.bool b, ts)
  | .column c :: .eq :: .bind n :: ts => some (.compare false c n, ts)
  | .column c :: .ne :: .bind n :: ts => some (.compare true c n, ts)
  | .column c :: .is :: .null :: ts => some (.isNull false c, ts)
  | .column c :: .is :: .not :: .null :: ts => some (.isNull true c, ts)
  | .column c :: .in_ :: .lparen :: ts =>
    (parseBinds ts).map fun (ns, ts) => (.member false c ns, ts)
  | .column c :: .not :: .in_ :: .lparen :: ts =>
    (parseBinds ts).map fun (ns, ts) => (.member true c ns, ts)
  | _ => none

mutual
/-- Descent over the three levels of the grammar. Chains are grouped to the right, which has
no influence on the value. -/
def parseOr : Nat → List Token → Option (Expr × List Token)
  | 0, _ => none
  | n + 1, ts =>
    match parseAnd n ts with
    | some (e, .or :: ts) => (parseOr n ts).map fun (e', ts) => (.or e e', ts)
    | r => r
def parseAnd : Nat → List Token → Option (Expr × List Token)
  | 0, _ => none
  | n + 1, ts =>
    match parseNot n ts with
    | some (e, .and :: ts) => (parseAnd n ts).map fun (e', ts) => (.and e e', ts)
    | r => r
def parseNot : Nat → List Token → Option (Expr × List Token)
  | 0, _ => none
  | n + 1, .not :: ts => (parseNot n ts).map fun (e, ts) => (.not e, ts)
  | n + 1, .lparen :: ts =>
    match parseOr n ts with
    | some (e, .rparen :: ts) => some (e, ts)
    | _ => none
  | _ + 1, ts => parseComparison ts
end

attribute [grind] parseOr parseAnd parseNot

/-- Reads a whole text as one expression. -/
def parse (text : String) : Option Expr :=
  match parseOr (4 * (tokens text).length + 2) (tokens text) with
  | some (e, []) => some e
  | _ => none

/-! ## Reading operands -/

/-- The tokens are read as one operand, whatever follows them. -/
def Reads (ts : List Token) (e : Expr) : Prop :=
  ∀ rest n, 4 * ts.length ≤ n → parseNot n (ts ++ rest) = some (e, rest)

/-- The tokens are read as a conjunction when no `AND` follows. -/
def ReadsAnd (ts : List Token) (e : Expr) : Prop :=
  ∀ rest n, rest.head? ≠ some .and → 4 * ts.length + 1 ≤ n →
    parseAnd n (ts ++ rest) = some (e, rest)

/-- The tokens are read as an expression when neither `AND` nor `OR` follows. -/
def ReadsOr (ts : List Token) (e : Expr) : Prop :=
  ∀ rest n, rest.head? ≠ some .and → rest.head? ≠ some .or → 4 * ts.length + 2 ≤ n →
    parseOr n (ts ++ rest) = some (e, rest)

theorem Reads.toAnd {ts : List Token} {e : Expr} (h : Reads ts e) : ReadsAnd ts e := by
  intro rest n hand hn
  obtain ⟨n, rfl⟩ := Nat.exists_eq_succ_of_ne_zero (show n ≠ 0 by omega)
  rw [parseAnd, h rest n (by omega)]
  cases rest with
  | nil => rfl
  | cons t rest =>
    cases t with
    | and => exact absurd rfl hand
    | _ => rfl

theorem ReadsAnd.toOr {ts : List Token} {e : Expr} (h : ReadsAnd ts e) : ReadsOr ts e := by
  intro rest n hand hor hn
  obtain ⟨n, rfl⟩ := Nat.exists_eq_succ_of_ne_zero (show n ≠ 0 by omega)
  rw [parseOr, h rest n hand (by omega)]
  cases rest with
  | nil => rfl
  | cons t rest =>
    cases t with
    | or => exact absurd rfl hor
    | _ => rfl

theorem Reads.and {ts us : List Token} {e e' : Expr} (h : Reads ts e) (h' : ReadsAnd us e') :
    ReadsAnd (ts ++ .and :: us) (.and e e') := by
  intro rest n hand hn
  rw [List.length_append, List.length_cons] at hn
  obtain ⟨n, rfl⟩ := Nat.exists_eq_succ_of_ne_zero (show n ≠ 0 by omega)
  rw [List.append_assoc, List.cons_append, parseAnd, h _ n (by omega)]
  show (parseAnd n (us ++ rest)).map _ = _
  rw [h' rest n hand (by omega)]
  rfl

theorem ReadsAnd.or {ts us : List Token} {e e' : Expr} (h : ReadsAnd ts e) (h' : ReadsOr us e') :
    ReadsOr (ts ++ .or :: us) (.or e e') := by
  intro rest n hand hor hn
  rw [List.length_append, List.length_cons] at hn
  obtain ⟨n, rfl⟩ := Nat.exists_eq_succ_of_ne_zero (show n ≠ 0 by omega)
  rw [List.append_assoc, List.cons_append, parseOr, h _ n (by simp) (by omega)]
  show (parseOr n (us ++ rest)).map _ = _
  rw [h' rest n hand hor (by omega)]
  rfl

theorem Reads.not {ts : List Token} {e : Expr} (h : Reads ts e) : Reads (.not :: ts) (.not e) := by
  intro rest n hn
  rw [List.length_cons] at hn
  obtain ⟨n, rfl⟩ := Nat.exists_eq_succ_of_ne_zero (show n ≠ 0 by omega)
  rw [List.cons_append, parseNot, h rest n (by omega)]
  rfl

theorem ReadsOr.paren {ts : List Token} {e : Expr} (h : ReadsOr ts e) :
    Reads (.lparen :: (ts ++ [.rparen])) e := by
  intro rest n hn
  simp only [List.length_cons, List.length_append, List.length_nil] at hn
  obtain ⟨n, rfl⟩ := Nat.exists_eq_succ_of_ne_zero (show n ≠ 0 by omega)
  rw [List.cons_append, List.append_assoc, parseNot,
    h _ n (by simp) (by simp) (by omega)]
  rfl

private theorem reads_comparison (t : Token) (ts : List Token) (e : Expr)
    (ht : t ≠ .not ∧ t ≠ .lparen)
    (h : ∀ rest, parseComparison (t :: (ts ++ rest)) = some (e, rest)) : Reads (t :: ts) e := by
  intro rest n hn
  rw [List.length_cons] at hn
  obtain ⟨n, rfl⟩ := Nat.exists_eq_succ_of_ne_zero (show n ≠ 0 by omega)
  rw [List.cons_append, ← h rest]
  cases t with
  | not => exact absurd rfl ht.1
  | lparen => exact absurd rfl ht.2
  | _ => rfl

theorem reads_bool (b : Bool) : Reads [.bool b] (.bool b) :=
  reads_comparison _ [] _ (by simp) fun _ => rfl

theorem reads_compare (negated : Bool) (c : ColumnRef) (n : Nat) :
    Reads [.column c, if negated then .ne else .eq, .bind n] (.compare negated c n) := by
  refine reads_comparison _ _ _ (by simp) fun rest => ?_
  cases negated <;> rfl

theorem reads_isNull (c : ColumnRef) : Reads [.column c, .is, .null] (.isNull false c) :=
  reads_comparison _ [.is, .null] _ (by simp) fun _ => rfl

theorem reads_isNotNull (c : ColumnRef) :
    Reads [.column c, .is, .not, .null] (.isNull true c) :=
  reads_comparison _ [.is, .not, .null] _ (by simp) fun _ => rfl

/-- The tokens of a list of parameters, with its closing bracket. -/
def bindTokens (n : Nat) : List Nat → List Token
  | [] => [.bind n, .rparen]
  | m :: ns => .bind n :: .comma :: bindTokens m ns

theorem parseBinds_bindTokens (n : Nat) (ns : List Nat) (rest : List Token) :
    parseBinds (bindTokens n ns ++ rest) = some (n :: ns, rest) := by
  induction ns generalizing n with
  | nil => rfl
  | cons m ns ih =>
    show (parseBinds (bindTokens m ns ++ rest)).map _ = _
    rw [ih m]
    rfl

theorem reads_in (c : ColumnRef) (n : Nat) (ns : List Nat) :
    Reads (.column c :: .in_ :: .lparen :: bindTokens n ns) (.member false c (n :: ns)) := by
  refine reads_comparison _ _ _ (by simp) fun rest => ?_
  show (parseBinds (bindTokens n ns ++ rest)).map _ = _
  rw [parseBinds_bindTokens]
  rfl

theorem reads_notIn (c : ColumnRef) (n : Nat) (ns : List Nat) :
    Reads (.column c :: .not :: .in_ :: .lparen :: bindTokens n ns) (.member true c (n :: ns)) := by
  refine reads_comparison _ _ _ (by simp) fun rest => ?_
  show (parseBinds (bindTokens n ns ++ rest)).map _ = _
  rw [parseBinds_bindTokens]
  rfl

/-- **A text and its expression.** -/
theorem parse_of_reads (text : String) (ts : List Token) (e : Expr)
    (hl : Lexes text.toList ts) (h : Reads ts e) : parse text = some e := by
  have ht : tokens text = ts := by
    have := hl [] (by simp [EndsWord])
    simpa [tokens, scan, flush] using this
  have ho := h.toAnd.toOr [] (4 * ts.length + 2) (by simp) (by simp) (le_refl _)
  rw [List.append_nil] at ho
  rw [parse, ht, ho]

/-! ## Values -/

variable {V : Type} [DecidableEq V]

/-- `=` and `<>` of a cell and a parameter: unknown on `NULL`. -/
def compareCell (negated : Bool) (cell : Option V) (v : V) : Option Bool :=
  cell.map fun x => decide (x = v) != negated

/-- `IN` and `NOT IN` over a list of parameters that are not `NULL`. -/
def memberCell (negated : Bool) (cell : Option V) (vs : List V) : Option Bool :=
  cell.map fun x => decide (x ∈ vs) != negated

/-- The value of an expression on a row, given the cells by column and the parameters by
number; `none` when a column or a parameter does not exist. -/
def Expr.value (cell : ColumnRef → Option (Option V)) (param : Nat → Option V) :
    Expr → Option (Option Bool)
  | .bool b => some (some b)
  | .compare negated c n => do
    let x ← cell c
    let v ← param n
    some (compareCell negated x v)
  | .isNull negated c => do
    let x ← cell c
    some (some (x.isNone != negated))
  | .member negated c ns => do
    let x ← cell c
    let vs ← ns.mapM param
    some (memberCell negated x vs)
  | .not e => do
    let t ← e.value cell param
    some (Kleene.neg t)
  | .and e₁ e₂ => do
    let t₁ ← e₁.value cell param
    let t₂ ← e₂.value cell param
    some (Kleene.and t₁ t₂)
  | .or e₁ e₂ => do
    let t₁ ← e₁.value cell param
    let t₂ ← e₂.value cell param
    some (Kleene.or t₁ t₂)

/-- The value of a text, `none` when the server would refuse it. -/
def evaluate (cell : ColumnRef → Option (Option V)) (param : Nat → Option V) (text : String) :
    Option (Option Bool) :=
  (parse text).bind fun e => e.value cell param

end SqlExpr

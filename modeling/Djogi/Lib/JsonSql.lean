import Djogi.Lib.Jsonb
import Djogi.Lib.SqlExpr

/-!
# Boolean SQL over a JSON column

The expressions in which a `WHERE` clause looks into a `jsonb` column: their words, their
grammar with the precedence of the operators, and their values, with the errors of casts.

* `scan_flatten`: the words of a text are those of its pieces, cut at separators;
* `parseBinds_bindTokens`: a list of parameters is read as it was written.
-/

namespace JsonSql

open SqlExpr (ColumnRef)
open Jsonb (Json)

/-! ## Words -/

inductive Operator where
  | path
  | pathText
  | hasKey
  | hasAnyKey
  | hasAllKeys
  | contains
deriving DecidableEq

inductive Comparison where
  | eq
  | ne
  | gt
  | ge
  | lt
  | le
deriving DecidableEq

inductive CastType where
  | numeric
  | boolean
  | jsonb
  | texts
deriving DecidableEq

inductive Token where
  | lparen
  | rparen
  | comma
  | and
  | not
  | in_
  | is
  | null
  | between
  | coalesce
  | case
  | when
  | then_
  | else_
  | end_
  | typeof
  | arrayLength
  | bool (b : Bool)
  | operator (o : Operator)
  | comparison (c : Comparison)
  | cast (t : CastType)
  | literal (s : List Char)
  | bind (n : ℕ)
  | column (c : ColumnRef)
  | unknown
deriving DecidableEq

/-- The words of the grammar, as they are written. A word that is not here and no name is
unknown, so that a text is read only where its words stand apart. -/
def words : List (List Char × List Token) :=
  [(['A', 'N', 'D'], [.and]), (['N', 'O', 'T'], [.not]), (['I', 'N'], [.in_]),
    (['I', 'S'], [.is]), (['N', 'U', 'L', 'L'], [.null]),
    (['B', 'E', 'T', 'W', 'E', 'E', 'N'], [.between]),
    (['C', 'O', 'A', 'L', 'E', 'S', 'C', 'E'], [.coalesce]), (['C', 'A', 'S', 'E'], [.case]),
    (['W', 'H', 'E', 'N'], [.when]), (['T', 'H', 'E', 'N'], [.then_]),
    (['E', 'L', 'S', 'E'], [.else_]), (['E', 'N', 'D'], [.end_]),
    (['T', 'R', 'U', 'E'], [.bool true]), (['F', 'A', 'L', 'S', 'E'], [.bool false]),
    (['j', 's', 'o', 'n', 'b', '_', 't', 'y', 'p', 'e', 'o', 'f'], [.typeof]),
    (['j', 's', 'o', 'n', 'b', '_', 'a', 'r', 'r', 'a', 'y', '_', 'l', 'e', 'n', 'g', 't', 'h'],
      [.arrayLength]),
    (['#', '>'], [.operator .path]), (['#', '>', '>'], [.operator .pathText]),
    (['?'], [.operator .hasKey]), (['?', '|'], [.operator .hasAnyKey]),
    (['?', '&'], [.operator .hasAllKeys]), (['@', '>'], [.operator .contains]),
    (['='], [.comparison .eq]), (['<', '>'], [.comparison .ne]), (['>'], [.comparison .gt]),
    (['>', '='], [.comparison .ge]), (['<'], [.comparison .lt]), (['<', '='], [.comparison .le]),
    ([':', ':', 'n', 'u', 'm', 'e', 'r', 'i', 'c'], [.cast .numeric]),
    ([':', ':', 'b', 'o', 'o', 'l', 'e', 'a', 'n'], [.cast .boolean]),
    (['\'', 'n', 'u', 'l', 'l', '\'', ':', ':', 'j', 's', 'o', 'n', 'b'],
      [.literal ['n', 'u', 'l', 'l'], .cast .jsonb]),
    (['\'', '\x7b', '\x7d', '\'', ':', ':', 't', 'e', 'x', 't', '[', ']'],
      [.literal ['\x7b', '\x7d'], .cast .texts]),
    (['\'', 'n', 'u', 'l', 'l', '\''], [.literal ['n', 'u', 'l', 'l']]),
    (['\'', 'b', 'o', 'o', 'l', 'e', 'a', 'n', '\''],
      [.literal ['b', 'o', 'o', 'l', 'e', 'a', 'n']]),
    (['\'', 'n', 'u', 'm', 'b', 'e', 'r', '\''], [.literal ['n', 'u', 'm', 'b', 'e', 'r']]),
    (['\'', 's', 't', 'r', 'i', 'n', 'g', '\''], [.literal ['s', 't', 'r', 'i', 'n', 'g']]),
    (['\'', 'a', 'r', 'r', 'a', 'y', '\''], [.literal ['a', 'r', 'r', 'a', 'y']]),
    (['\'', 'o', 'b', 'j', 'e', 'c', 't', '\''], [.literal ['o', 'b', 'j', 'e', 'c', 't']])]

/-- The words of the grammar that no name may be, in the case that names have. -/
def reserved : List (List Char) :=
  [['c', 'a', 's', 'e'], ['w', 'h', 'e', 'n'], ['t', 'h', 'e', 'n'], ['e', 'l', 's', 'e'],
    ['e', 'n', 'd'], ['b', 'e', 't', 'w', 'e', 'e', 'n'],
    ['c', 'o', 'a', 'l', 'e', 's', 'c', 'e'],
    ['j', 's', 'o', 'n', 'b', '_', 't', 'y', 'p', 'e', 'o', 'f'],
    ['j', 's', 'o', 'n', 'b', '_', 'a', 'r', 'r', 'a', 'y', '_', 'l', 'e', 'n', 'g', 't', 'h']]

/-- A name that stands for itself without quotes. -/
def isName (w : List Char) : Bool := SqlExpr.isName w && !reserved.contains w

def columnOf (w : List Char) : Token :=
  let table := w.takeWhile (· != '.')
  match w.drop table.length with
  | [] => if isName w then .column ⟨none, w⟩ else .unknown
  | _ :: name =>
    if isName table && isName name then .column ⟨some table, name⟩ else .unknown

def bindOf (ds : List Char) : Token :=
  if ds ≠ [] ∧ ds.all Char.isDigit then .bind (Nat.ofDigitChars 10 ds 0) else .unknown

def wordTokens (w : List Char) : List Token :=
  if w.head? = some '$' then [bindOf w.tail] else (words.lookup w).getD [columnOf w]

def separator (c : Char) : Option (List Token) :=
  if c = ' ' then some []
  else if c = '(' then some [.lparen]
  else if c = ')' then some [.rparen]
  else if c = ',' then some [.comma]
  else none

def flush (w : List Char) : List Token := if w = [] then [] else wordTokens w

/-- The tokens of a text, with the word read so far. -/
def scan : List Char → List Char → List Token
  | w, [] => flush w
  | w, c :: cs =>
    match separator c with
    | some ts => flush w ++ ts ++ scan [] cs
    | none => scan (w ++ [c]) cs

attribute [grind] scan

/-! ## Cutting a text into pieces -/

def startsApart : List Char → Bool
  | [] => false
  | c :: _ => (separator c).isSome

def endsApart : List Char → Bool
  | [] => false
  | [c] => (separator c).isSome
  | _ :: c :: cs => endsApart (c :: cs)

/-- Each piece ends at a separator or the next one starts with one. -/
def joined : List (List Char) → Bool
  | [] => true
  | [_] => true
  | a :: b :: ps => (endsApart a || startsApart b) && joined (b :: ps)

theorem startsApart_append (a b : List Char) (h : startsApart a = true) :
    startsApart (a ++ b) = true := by
  cases a with
  | nil => cases h
  | cons c a => exact h

theorem scan_append_starts (w a b : List Char) (h : startsApart b = true) :
    scan w (a ++ b) = scan w a ++ scan [] b := by
  induction a generalizing w with
  | nil =>
    cases b with
    | nil => cases h
    | cons c b =>
      obtain ⟨ts, hts⟩ := Option.isSome_iff_exists.mp h
      simp [scan, hts, flush]
  | cons c a ih =>
    rw [List.cons_append, scan, scan]
    cases hc : separator c with
    | some ts => simp only [ih, List.append_assoc]
    | none => exact ih _

theorem scan_append_ends (w a b : List Char) (h : endsApart a = true) :
    scan w (a ++ b) = scan w a ++ scan [] b := by
  induction a generalizing w with
  | nil => cases h
  | cons c a ih =>
    rw [List.cons_append, scan, scan]
    cases a with
    | nil =>
      obtain ⟨ts, hts⟩ := Option.isSome_iff_exists.mp h
      simp [hts, scan, flush]
    | cons d a =>
      cases hc : separator c with
      | some ts => simp only [ih _ h, List.append_assoc]
      | none => exact ih _ h

/-- **Pieces.** -/
theorem scan_flatten (ps : List (List Char)) (h : joined ps = true) :
    scan [] ps.flatten = ps.flatMap (scan []) := by
  induction ps with
  | nil => rfl
  | cons a ps ih =>
    cases ps with
    | nil => simp
    | cons b ps =>
      rw [joined, Bool.and_eq_true, Bool.or_eq_true] at h
      obtain ⟨hcut, hrest⟩ := h
      rw [List.flatten_cons, List.flatMap_cons, ← ih hrest]
      rcases hcut with hends | hstarts
      · exact scan_append_ends _ _ _ hends
      · exact scan_append_starts _ _ _ (startsApart_append b _ hstarts)

/-! ## Names and parameters -/

theorem scan_word (w text : List Char) (h : ∀ c ∈ text, separator c = none) :
    scan w text = flush (w ++ text) := by
  induction text generalizing w with
  | nil => rw [scan, List.append_nil]
  | cons c text ih =>
    rw [scan, h c (by simp)]
    show scan (w ++ [c]) text = _
    rw [ih _ fun d hd => h d (by simp [hd]), List.append_assoc, List.singleton_append]

theorem separator_of_isWordChar (c : Char) (h : SqlExpr.IsWordChar c) : separator c = none := by
  unfold separator
  split
  · rename_i hc
    subst hc
    cases h.1
  · split
    · rename_i hc
      subst hc
      cases h.1
    · split
      · rename_i hc
        subst hc
        cases h.1
      · split
        · rename_i hc
          subst hc
          cases h.1
        · rfl

theorem scan_bind (n : ℕ) : scan [] ('$' :: Nat.toDigits 10 n) = [.bind n] := by
  have hd : (Nat.toDigits 10 n).all Char.isDigit = true := Jsonb.toDigits_isDigit n
  rw [scan_word, List.nil_append, flush, if_neg (by simp), wordTokens, if_pos (by rfl),
    List.tail_cons, bindOf, if_pos ⟨Nat.toDigits_ne_nil, hd⟩, Nat.ofDigitChars_ten_toDigits]
  intro c hc
  rcases List.mem_cons.mp hc with rfl | hc
  · rfl
  · refine separator_of_isWordChar c (SqlExpr.isNameChar_isWordChar c ?_)
    simp [SqlExpr.isNameChar, List.all_eq_true.mp hd c hc]

theorem isName_words (w : List Char) (h : isName w = true) : words.lookup w = none := by
  have hall : ∀ p ∈ words, isName p.1 = false := by decide +kernel
  rw [List.lookup_eq_none_iff]
  intro p hp
  have hne : w ≠ p.1 := by
    rintro rfl
    exact absurd h (by simp [hall p hp])
  simpa using hne

theorem lookup_of_dot (w : List Char) (h : '.' ∈ w) : words.lookup w = none := by
  have hall : ∀ p ∈ words, '.' ∉ p.1 := by decide +kernel
  rw [List.lookup_eq_none_iff]
  intro p hp
  have hne : w ≠ p.1 := fun he => hall p hp (he ▸ h)
  simpa using hne

theorem isName_plain (w : List Char) (h : isName w = true) : SqlExpr.isName w = true :=
  (Bool.and_eq_true_iff.mp h).1

private theorem head_of_plain (w rest : List Char) (h : SqlExpr.isName w = true) :
    (w ++ rest).head? ≠ some '$' := by
  cases w with
  | nil => exact absurd rfl (SqlExpr.isName_ne_nil [] h)
  | cons c w =>
    intro hc
    obtain rfl : c = '$' := Option.some.inj hc
    simp only [SqlExpr.isName, Bool.and_eq_true, List.all_cons] at h
    have hn := h.1.1.1.1
    revert hn
    decide

theorem scan_name (w : List Char) (h : isName w = true) : scan [] w = [.column ⟨none, w⟩] := by
  have hp := isName_plain w h
  have hhead := head_of_plain w [] hp
  rw [List.append_nil] at hhead
  have htake : w.takeWhile (· != '.') = w :=
    List.takeWhile_eq_self_iff.mpr (SqlExpr.isName_dot w hp)
  rw [scan_word [] w fun c hc => separator_of_isWordChar c (SqlExpr.isName_isWordChar w hp c hc),
    List.nil_append, flush, if_neg (SqlExpr.isName_ne_nil w hp), wordTokens, if_neg hhead,
    isName_words w h, Option.getD_none, columnOf, htake, List.drop_length]
  simp [h]

theorem scan_qualified (t w : List Char) (ht : isName t = true) (hw : isName w = true) :
    scan [] (t ++ '.' :: w) = [.column ⟨some t, w⟩] := by
  have hpt := isName_plain t ht
  have hpw := isName_plain w hw
  have htake : (t ++ '.' :: w).takeWhile (· != '.') = t := by
    rw [List.takeWhile_append_of_pos (SqlExpr.isName_dot t hpt)]
    simp
  rw [scan_word, List.nil_append, flush, if_neg (by simp), wordTokens,
    if_neg (head_of_plain t _ hpt), lookup_of_dot _ (by simp), Option.getD_none, columnOf, htake,
    List.drop_left]
  · simp [ht, hw]
  · intro c hc
    rw [List.mem_append, List.mem_cons] at hc
    rcases hc with hc | rfl | hc
    · exact separator_of_isWordChar c (SqlExpr.isName_isWordChar t hpt c hc)
    · rfl
    · exact separator_of_isWordChar c (SqlExpr.isName_isWordChar w hpw c hc)

/-! ## Expressions -/

inductive Expr where
  | column (c : ColumnRef)
  | bind (n : ℕ)
  | literal (s : List Char)
  | bool (b : Bool)
  | cast (t : CastType) (e : Expr)
  | operator (o : Operator) (a b : Expr)
  | typeof (e : Expr)
  | arrayLength (e : Expr)
  | comparison (c : Comparison) (a b : Expr)
  | isNull (negated : Bool) (e : Expr)
  | member (negated : Bool) (e : Expr) (binds : List ℕ)
  | between (e low high : Expr)
  | and (a b : Expr)
  | coalesce (a b : Expr)
  | case (c t e : Expr)
deriving DecidableEq

/-- The rest of a list of parameters, after its opening bracket. -/
def parseBinds : List Token → Option (List ℕ × List Token)
  | .bind n :: .rparen :: ts => some ([n], ts)
  | .bind n :: .comma :: ts => (parseBinds ts).map fun (ns, ts) => (n :: ns, ts)
  | _ => none

def parseCasts (e : Expr) : List Token → Expr × List Token
  | .cast t :: ts => parseCasts (.cast t e) ts
  | ts => (e, ts)

mutual
/-- Descent from the loosest level: `AND`, `IS`, comparisons, `IN` and `BETWEEN`, the other
operators, casts. -/
def parseAnd : ℕ → List Token → Option (Expr × List Token)
  | 0, _ => none
  | n + 1, ts =>
    match parseIs n ts with
    | some (a, .and :: ts) => (parseAnd n ts).map fun (b, ts) => (.and a b, ts)
    | r => r
def parseIs : ℕ → List Token → Option (Expr × List Token)
  | 0, _ => none
  | n + 1, ts =>
    match parseComparison n ts with
    | some (e, .is :: .null :: ts) => some (.isNull false e, ts)
    | some (e, .is :: .not :: .null :: ts) => some (.isNull true e, ts)
    | r => r
def parseComparison : ℕ → List Token → Option (Expr × List Token)
  | 0, _ => none
  | n + 1, ts =>
    match parseMember n ts with
    | some (a, .comparison c :: ts) => (parseMember n ts).map fun (b, ts) => (.comparison c a b, ts)
    | r => r
def parseMember : ℕ → List Token → Option (Expr × List Token)
  | 0, _ => none
  | n + 1, ts =>
    match parseOperators n ts with
    | some (e, .in_ :: .lparen :: ts) =>
      (parseBinds ts).map fun (ns, ts) => (.member false e ns, ts)
    | some (e, .not :: .in_ :: .lparen :: ts) =>
      (parseBinds ts).map fun (ns, ts) => (.member true e ns, ts)
    | some (e, .between :: ts) =>
      match parseOperators n ts with
      | some (low, .and :: ts) =>
        (parseOperators n ts).map fun (high, ts) => (.between e low high, ts)
      | _ => none
    | r => r
def parseOperators : ℕ → List Token → Option (Expr × List Token)
  | 0, _ => none
  | n + 1, ts => (parsePrimary n ts).bind fun (e, ts) => parseOperands n e ts
/-- The operators after an operand, from left to right. -/
def parseOperands : ℕ → Expr → List Token → Option (Expr × List Token)
  | 0, _, _ => none
  | n + 1, a, .operator o :: ts =>
    (parsePrimary n ts).bind fun (b, ts) => parseOperands n (.operator o a b) ts
  | _ + 1, a, ts => some (a, ts)
def parsePrimary : ℕ → List Token → Option (Expr × List Token)
  | 0, _ => none
  | _ + 1, .column c :: ts => some (parseCasts (.column c) ts)
  | _ + 1, .bind n :: ts => some (parseCasts (.bind n) ts)
  | _ + 1, .literal s :: ts => some (parseCasts (.literal s) ts)
  | _ + 1, .bool b :: ts => some (parseCasts (.bool b) ts)
  | n + 1, .lparen :: ts =>
    match parseAnd n ts with
    | some (e, .rparen :: ts) => some (parseCasts e ts)
    | _ => none
  | n + 1, .typeof :: .lparen :: ts =>
    match parseAnd n ts with
    | some (e, .rparen :: ts) => some (parseCasts (.typeof e) ts)
    | _ => none
  | n + 1, .arrayLength :: .lparen :: ts =>
    match parseAnd n ts with
    | some (e, .rparen :: ts) => some (parseCasts (.arrayLength e) ts)
    | _ => none
  | n + 1, .coalesce :: .lparen :: ts =>
    match parseAnd n ts with
    | some (a, .comma :: ts) =>
      match parseAnd n ts with
      | some (b, .rparen :: ts) => some (parseCasts (.coalesce a b) ts)
      | _ => none
    | _ => none
  | n + 1, .case :: .when :: ts =>
    match parseAnd n ts with
    | some (c, .then_ :: ts) =>
      match parseAnd n ts with
      | some (t, .else_ :: ts) =>
        match parseAnd n ts with
        | some (e, .end_ :: ts) => some (parseCasts (.case c t e) ts)
        | _ => none
      | _ => none
    | _ => none
  | _ + 1, _ => none
end

attribute [grind] parseAnd parseIs parseComparison parseMember parseOperators parseOperands parsePrimary

def tokens (text : String) : List Token := scan [] text.toList

/-- Reads a whole text as one expression. -/
def parse (text : String) : Option Expr :=
  match parseAnd (8 * (tokens text).length + 60) (tokens text) with
  | some (e, []) => some e
  | _ => none

/-- The tokens of a list of parameters, with its closing bracket. -/
def bindTokens (n : ℕ) : List ℕ → List Token
  | [] => [.bind n, .rparen]
  | m :: ns => .bind n :: .comma :: bindTokens m ns

theorem parseBinds_bindTokens (n : ℕ) (ns : List ℕ) (rest : List Token) :
    parseBinds (bindTokens n ns ++ rest) = some (n :: ns, rest) := by
  induction ns generalizing n with
  | nil => rfl
  | cons m ns ih =>
    show (parseBinds (bindTokens m ns ++ rest)).map _ = _
    rw [ih m]
    rfl

/-! ## Values -/

inductive Value where
  | null
  | bool (b : Bool)
  | text (s : List Char)
  | texts (ss : List String)
  | jsonb (j : Json)
  | numeric (q : ℚ)
  | int4 (n : ℤ)

inductive Error where
  | undefined
  | mismatch
  | cast
  | parameter
deriving DecidableEq

def Comparison.holds (c : Comparison) (o : Ordering) : Bool :=
  match c with
  | .eq => o == .eq
  | .ne => o != .eq
  | .gt => o == .gt
  | .ge => o != .lt
  | .lt => o == .lt
  | .le => o != .gt

/-- The comparisons of values that have no order here. -/
def compareEqual (c : Comparison) (equal : Bool) : Except Error Value :=
  match c with
  | .eq => .ok (.bool equal)
  | .ne => .ok (.bool !equal)
  | _ => .error .mismatch

def compareValues (c : Comparison) : Value → Value → Except Error Value
  | .null, _ => .ok .null
  | _, .null => .ok .null
  | .numeric p, .numeric q => .ok (.bool (c.holds (compare p q)))
  | .int4 m, .int4 n => .ok (.bool (c.holds (compare m n)))
  | .int4 m, .numeric q => .ok (.bool (c.holds (compare (m : ℚ) q)))
  | .numeric p, .int4 n => .ok (.bool (c.holds (compare p (n : ℚ))))
  | .text s, .text t => compareEqual c (decide (s = t))
  | .bool a, .bool b => compareEqual c (a == b)
  | .jsonb a, .jsonb b => compareEqual c (Jsonb.equal a b)
  | _, _ => .error .mismatch

def ofJson (j : Option Json) : Value := j.elim .null .jsonb

def applyOperator : Operator → Value → Value → Except Error Value
  | _, .null, _ => .ok .null
  | _, _, .null => .ok .null
  | .path, .jsonb j, .texts path => .ok (ofJson (Jsonb.get j path))
  | .pathText, .jsonb j, .texts path =>
    .ok (((Jsonb.get j path).bind Json.text).elim .null fun s => .text s.toList)
  | .hasKey, .jsonb j, .text key => .ok (.bool (Jsonb.hasKey (String.ofList key) j))
  | .hasAnyKey, .jsonb j, .texts keys => .ok (.bool (keys.any fun key => Jsonb.hasKey key j))
  | .hasAllKeys, .jsonb j, .texts keys => .ok (.bool (keys.all fun key => Jsonb.hasKey key j))
  | .contains, .jsonb j, .jsonb part => .ok (.bool (Jsonb.contains j part))
  | _, _, _ => .error .mismatch

/-- The casts of texts. For JSON and arrays only the texts that stand in the grammar. -/
def castText (t : CastType) (s : List Char) : Except Error Value :=
  match t with
  | .numeric => ((Jsonb.parseNumeric s).map Value.numeric).elim (.error .cast) .ok
  | .boolean => ((Jsonb.parseBoolean s).map Value.bool).elim (.error .cast) .ok
  | .jsonb => if s = ['n', 'u', 'l', 'l'] then .ok (.jsonb .null) else .error .cast
  | .texts => if s = ['\x7b', '\x7d'] then .ok (.texts []) else .error .cast

def castValue (t : CastType) : Value → Except Error Value
  | .null => .ok .null
  | .text s => castText t s
  | _ => .error .mismatch

/-- `AND` of two operands in the order in which they are evaluated: a false one hides the
errors of those after it. -/
def andThen (first second : Except Error Value) : Except Error Value :=
  match first with
  | .ok (.bool false) => .ok (.bool false)
  | .ok (.bool true) => second
  | .ok .null =>
    match second with
    | .ok (.bool false) => .ok (.bool false)
    | .ok (.bool true) => .ok .null
    | r => r
  | .ok _ => .error .mismatch
  | .error e => .error e

/-- The two sides of an `AND`. -/
inductive Side where
  | left
  | right
deriving DecidableEq

/-- `IN` over the values of parameters: equal to one, or unknown where one is. -/
def memberOf (v : Value) : List Value → Except Error Value
  | [] => .ok (.bool false)
  | w :: ws =>
    match compareValues .eq v w, memberOf v ws with
    | .ok (.bool true), .ok _ => .ok (.bool true)
    | .ok (.bool false), r => r
    | .ok .null, .ok (.bool true) => .ok (.bool true)
    | .ok .null, .ok _ => .ok .null
    | .ok _, r => r
    | .error e, _ => .error e

def negate : Value → Except Error Value
  | .null => .ok .null
  | .bool b => .ok (.bool !b)
  | _ => .error .mismatch

/-- The value of an expression, given the cells by column and the parameters by number, with
the side of an `AND` that is evaluated first. -/
def Expr.eval (side : Side) (cell : ColumnRef → Option Value) (param : ℕ → Option Value) :
    Expr → Except Error Value
  | .column c => (cell c).elim (.error .undefined) .ok
  | .bind n => (param n).elim (.error .undefined) .ok
  | .literal s => .ok (.text s)
  | .bool b => .ok (.bool b)
  | .cast t e => do castValue t (← e.eval side cell param)
  | .operator o a b => do
    applyOperator o (← a.eval side cell param) (← b.eval side cell param)
  | .typeof e => do
    match ← e.eval side cell param with
    | .null => .ok .null
    | .jsonb j => .ok (.text j.kind.name.toList)
    | _ => .error .mismatch
  | .arrayLength e => do
    match ← e.eval side cell param with
    | .null => .ok .null
    | .jsonb (.array items) => .ok (.int4 items.length)
    | _ => .error .mismatch
  | .comparison c a b => do
    compareValues c (← a.eval side cell param) (← b.eval side cell param)
  | .isNull negated e => do
    match ← e.eval side cell param with
    | .null => .ok (.bool !negated)
    | _ => .ok (.bool negated)
  | .member negated e ns => do
    let v ← e.eval side cell param
    let vs ← ns.mapM fun n => (param n).elim (.error .undefined) .ok
    let r ← memberOf v vs
    if negated then negate r else .ok r
  | .between e low high => do
    let v ← e.eval side cell param
    let lowest ← low.eval side cell param
    let highest ← high.eval side cell param
    andThen (compareValues .ge v lowest) (compareValues .le v highest)
  | .and a b =>
    match side with
    | .left => andThen (a.eval side cell param) (b.eval side cell param)
    | .right => andThen (b.eval side cell param) (a.eval side cell param)
  | .coalesce a b => do
    match ← a.eval side cell param with
    | .null => b.eval side cell param
    | v => .ok v
  | .case c t e => do
    match ← c.eval side cell param with
    | .bool true => t.eval side cell param
    | .bool false => e.eval side cell param
    | .null => e.eval side cell param
    | _ => .error .mismatch

attribute [grind] Expr.eval

/-- An expression of type `int4`. -/
def Expr.isInt4 : Expr → Bool
  | .arrayLength _ => true
  | _ => false

def Value.isInt4 : Value → Bool
  | .int4 _ => true
  | _ => false

/-- A parameter has no type of its own: beside an `int4` the server takes it for one, and a value
of another type cannot be bound to it. -/
def Expr.fitsBeside (param : ℕ → Option Value) (e : Expr) : Expr → Bool
  | .bind n => !e.isInt4 || (param n).any Value.isInt4
  | _ => true

/-- Every parameter that is compared with an `int4` is bound to one. -/
def Expr.fits (param : ℕ → Option Value) : Expr → Bool
  | .column _ | .bind _ | .literal _ | .bool _ => true
  | .cast _ e | .typeof e | .arrayLength e | .isNull _ e => e.fits param
  | .operator _ a b | .and a b | .coalesce a b => a.fits param && b.fits param
  | .comparison _ a b =>
    a.fits param && b.fits param && a.fitsBeside param b && b.fitsBeside param a
  | .member _ e ns => e.fits param && ns.all fun n => e.fitsBeside param (.bind n)
  | .between e low high => e.fits param && low.fits param && high.fits param &&
      e.fitsBeside param low && e.fitsBeside param high
  | .case c t e => c.fits param && t.fits param && e.fits param

/-- A query with the expression: the parameters are bound before anything is evaluated. -/
def Expr.run (side : Side) (cell : ColumnRef → Option Value) (param : ℕ → Option Value)
    (e : Expr) : Except Error Value :=
  if e.fits param then e.eval side cell param else .error .parameter

end JsonSql

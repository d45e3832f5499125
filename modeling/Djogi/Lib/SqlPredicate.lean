import Djogi.Lib.Binary
import Djogi.Lib.Kleene
import Djogi.Lib.SqlLex
import Mathlib.Data.Rat.Defs
import Mathlib.Tactic.Ring

/-!
# Predicates with constants in SQL

The part of SQL that compares the columns of one row with constants: `OR` < `AND` < comparison,
`BETWEEN`, `IS NULL`, numbers, strings, and the minus sign before a constant.

* `Reads`: a list of words is read as one operand of `AND`, whatever follows; `Reads.binary`
  builds larger operands.
* `Refuses`: a list of words is no operand, whatever follows.
* `Pred.value_isSome`, `Pred.value_eq_none` and `Pred.value_eq_none_of_comparison`: a predicate has
  a value exactly when its columns exist and its comparisons have one.
-/

namespace SqlPredicate

open SqlLex

/-! ## Words -/

inductive CompareOp
  | eq | ne | gt | ge | lt | le
  deriving DecidableEq, Repr

inductive Word
  | lparen
  | rparen
  | and
  | or
  | is
  | not
  | null
  | bool (b : Bool)
  | reserved
  | column (name : List Char)
  | op (o : CompareOp)
  | minus
  | number (text : List Char)
  | string (content : List Char)
  | other
  deriving DecidableEq, Repr

/-- The key words of the grammar below. -/
def grammarWords : List (String × Word) :=
  [("and", .and), ("or", .or), ("is", .is), ("not", .not), ("null", .null),
    ("true", .bool true), ("false", .bool false)]

/-- Words are folded to lower case. `BETWEEN` may also name a column: it is the operator only
after an operand, which the grammar decides. -/
def wordOf (text : List Char) : Word :=
  let name := text.map Char.toLower
  match grammarWords.lookup (String.ofList name) with
  | some w => w
  | none => if reservedWords.contains (String.ofList name) then .reserved else .column name

/-- What follows the opening quote, up to the closing one. -/
def stringContent : List Char → List Char
  | [] => []
  | ['\''] => []
  | '\'' :: _ :: s => '\'' :: stringContent s
  | c :: s => c :: stringContent s

def symbolWord : List Char → Word
  | ['('] => .lparen
  | [')'] => .rparen
  | ['='] => .op .eq
  | ['>'] => .op .gt
  | ['<'] => .op .lt
  | ['-'] => .minus
  | _ => .other

def tokenWords (t : Token) : List Word :=
  match t.kind with
  | .blank | .comment => []
  | .word => [wordOf t.text]
  | .number => [.number t.text]
  | .string => match t.text with
    | '\'' :: s => [.string (stringContent s)]
    | _ => [.other]
  | .symbol => [symbolWord t.text]
  | .parameter | .quotedIdentifier => [.other]

/-- The words of the tokens: blanks and comments are none, and operators of two characters are
one. -/
def words : List Token → List Word
  | [] => []
  | ⟨.symbol, ['<']⟩ :: ⟨.symbol, ['>']⟩ :: ts => .op .ne :: words ts
  | ⟨.symbol, ['<']⟩ :: ⟨.symbol, ['=']⟩ :: ts => .op .le :: words ts
  | ⟨.symbol, ['>']⟩ :: ⟨.symbol, ['=']⟩ :: ts => .op .ge :: words ts
  | t :: ts => tokenWords t ++ words ts

/-! ## Predicates -/

/-- Predicates over columns and operands. -/
inductive Pred (C O : Type)
  | compare (op : CompareOp) (column : C) (operand : O)
  | between (column : C) (low high : O)
  | isNull (negated : Bool) (column : C)
  | binary (isAnd : Bool) (p q : Pred C O)

inductive Operand
  | null
  | bool (b : Bool)
  | number (text : List Char)
  | string (content : List Char)
  | neg (o : Operand)
  deriving DecidableEq, Repr

def parseOperand : List Word → Option (Operand × List Word)
  | .minus :: ws => (parseOperand ws).map fun (o, ws) => (.neg o, ws)
  | .null :: ws => some (.null, ws)
  | .bool b :: ws => some (.bool b, ws)
  | .number text :: ws => some (.number text, ws)
  | .string content :: ws => some (.string content, ws)
  | _ => none

/-- Whether a word is `BETWEEN`, which is a name elsewhere. -/
def isBetween (w : Word) : Bool := w == .column "between".toList

def parseLeaf : List Word → Option (Pred (List Char) Operand × List Word)
  | .column c :: .op o :: ws => (parseOperand ws).map fun (v, ws) => (.compare o c v, ws)
  | .column c :: .is :: .null :: ws => some (.isNull false c, ws)
  | .column c :: .is :: .not :: .null :: ws => some (.isNull true c, ws)
  | .column c :: w :: ws =>
    if isBetween w then
      match parseOperand ws with
      | some (low, .and :: ws) =>
        (parseOperand ws).map fun (high, ws) => (.between c low high, ws)
      | _ => none
    else none
  | _ => none

mutual
/-- Descent over the levels of the grammar. Chains are grouped to the right, which has no
influence on the value. -/
def parseOr : Nat → List Word → Option (Pred (List Char) Operand × List Word)
  | 0, _ => none
  | n + 1, ws =>
    match parseAnd n ws with
    | some (p, .or :: ws) => (parseOr n ws).map fun (q, ws) => (.binary false p q, ws)
    | r => r
def parseAnd : Nat → List Word → Option (Pred (List Char) Operand × List Word)
  | 0, _ => none
  | n + 1, ws =>
    match parsePrimary n ws with
    | some (p, .and :: ws) => (parseAnd n ws).map fun (q, ws) => (.binary true p q, ws)
    | r => r
def parsePrimary : Nat → List Word → Option (Pred (List Char) Operand × List Word)
  | 0, _ => none
  | n + 1, .lparen :: ws =>
    match parseOr n ws with
    | some (p, .rparen :: ws) => some (p, ws)
    | _ => none
  | _ + 1, ws => parseLeaf ws
end

attribute [grind] parseOr parseAnd parsePrimary

/-- Reads all words as one predicate. -/
def parse (ws : List Word) : Option (Pred (List Char) Operand) :=
  match parseOr (4 * ws.length + 2) ws with
  | some (p, []) => some p
  | _ => none

/-! ## Reading -/

/-- The words are read as one operand of `AND`, whatever follows them. -/
def Reads (ws : List Word) (p : Pred (List Char) Operand) : Prop :=
  ∀ rest n, 4 * ws.length ≤ n → parsePrimary n (ws ++ rest) = some (p, rest)

/-- The words begin no operand, whatever follows them. -/
def Refuses (ws : List Word) : Prop :=
  ∀ rest n, 4 * ws.length ≤ n → parsePrimary n (ws ++ rest) = none

/-- The words are read as a constant, whatever follows them. -/
def ReadsOperand (ws : List Word) (o : Operand) : Prop :=
  ∀ rest, parseOperand (ws ++ rest) = some (o, rest)

theorem ReadsOperand.neg {ws : List Word} {o : Operand} (h : ReadsOperand ws o) :
    ReadsOperand (.minus :: ws) (.neg o) := by
  intro rest
  rw [List.cons_append, parseOperand, h rest]
  rfl

private theorem reads_leaf (c : List Char) (ws : List Word) (p : Pred (List Char) Operand)
    (h : ∀ rest, parseLeaf (.column c :: (ws ++ rest)) = some (p, rest)) :
    Reads (.column c :: ws) p := by
  intro rest n hn
  rw [List.length_cons] at hn
  obtain ⟨n, rfl⟩ := Nat.exists_eq_succ_of_ne_zero (show n ≠ 0 by omega)
  rw [List.cons_append, ← h rest]
  rfl

theorem reads_compare (op : CompareOp) (c : List Char) {ws : List Word} {o : Operand}
    (h : ReadsOperand ws o) : Reads (.column c :: .op op :: ws) (.compare op c o) := by
  refine reads_leaf c _ _ fun rest => ?_
  show (parseOperand (ws ++ rest)).map _ = _
  rw [h rest]
  rfl

theorem reads_isNull (c : List Char) : Reads [.column c, .is, .null] (.isNull false c) :=
  reads_leaf c [.is, .null] _ fun _ => rfl

theorem reads_isNotNull (c : List Char) : Reads [.column c, .is, .not, .null] (.isNull true c) :=
  reads_leaf c [.is, .not, .null] _ fun _ => rfl

theorem reads_between (c : List Char) {low high : List Word} {l h : Operand}
    (hlow : ReadsOperand low l) (hhigh : ReadsOperand high h) :
    Reads (.column c :: .column "between".toList :: (low ++ .and :: high)) (.between c l h) := by
  refine reads_leaf c _ _ fun rest => ?_
  rw [List.cons_append, List.append_assoc, List.cons_append, parseLeaf]
  · simp only [isBetween, beq_self_eq_true, if_true]
    rw [hlow]
    simp only [hhigh rest, Option.map_some]
  all_goals simp

/-- **Two operands in brackets.** -/
theorem Reads.binary {ws us : List Word} {p q : Pred (List Char) Operand} (isAnd : Bool)
    (h : Reads ws p) (h' : Reads us q) :
    Reads (.lparen :: (ws ++ (if isAnd then .and else .or) :: (us ++ [.rparen])))
      (.binary isAnd p q) := by
  intro rest n hn
  simp only [List.length_cons, List.length_append, List.length_nil] at hn
  obtain ⟨n, rfl⟩ := Nat.exists_eq_add_of_le (show 6 ≤ n by omega)
  have hand (m : Nat) (hm : 4 * us.length ≤ m) :
      parseAnd (m + 1) (us ++ .rparen :: rest) = some (q, .rparen :: rest) := by
    rw [parseAnd, h' _ m hm]
  have hor : parseOr (n + 4 + 1) (ws ++ (if isAnd then .and else .or) ::
      (us ++ .rparen :: rest)) = some (.binary isAnd p q, .rparen :: rest) := by
    rw [parseOr, parseAnd, h _ _ (by omega)]
    cases isAnd with
    | true => simp only [if_true]; rw [hand _ (by omega)]; rfl
    | false => simp only [Bool.false_eq_true, if_false]; rw [parseOr, hand _ (by omega)]; rfl
  rw [show 6 + n = n + 4 + 1 + 1 by omega]
  simp only [List.cons_append, List.append_assoc, List.nil_append, parsePrimary]
  rw [hor]

theorem refuses_cons (w : Word) (ws : List Word) (hl : w ≠ .lparen) (hc : ∀ c, w ≠ .column c) :
    Refuses (w :: ws) := by
  intro rest n hn
  rw [List.length_cons] at hn
  obtain ⟨n, rfl⟩ := Nat.exists_eq_succ_of_ne_zero (show n ≠ 0 by omega)
  cases w with
  | lparen => exact absurd rfl hl
  | column c => exact absurd rfl (hc c)
  | _ => rfl

/-- **Brackets around something refused** are refused. -/
theorem Refuses.binary {ws us : List Word} (isAnd : Bool)
    (h : Refuses ws ∨ (∃ p, Reads ws p) ∧ Refuses us) :
    Refuses (.lparen :: (ws ++ (if isAnd then .and else .or) :: (us ++ [.rparen]))) := by
  intro rest n hn
  simp only [List.length_cons, List.length_append, List.length_nil] at hn
  obtain ⟨n, rfl⟩ := Nat.exists_eq_add_of_le (show 6 ≤ n by omega)
  have hor : parseOr (n + 4 + 1) (ws ++ (if isAnd then .and else .or) ::
      (us ++ .rparen :: rest)) = none := by
    rcases h with h | ⟨⟨p, h⟩, h'⟩
    · rw [parseOr, parseAnd, h _ _ (by omega)]
    · have hand (m : Nat) (hm : 4 * us.length ≤ m) :
          parseAnd (m + 1) (us ++ .rparen :: rest) = none := by
        rw [parseAnd, h' _ m hm]
      rw [parseOr, parseAnd, h _ _ (by omega)]
      cases isAnd with
      | true => simp only [if_true]; rw [hand _ (by omega)]; rfl
      | false => simp only [Bool.false_eq_true, if_false]; rw [parseOr, hand _ (by omega)]; rfl
  rw [show 6 + n = n + 4 + 1 + 1 by omega]
  simp only [List.cons_append, List.append_assoc, List.nil_append, parsePrimary]
  rw [hor]

/-- A predicate in brackets of its own. -/
theorem parse_paren_of_reads {ws : List Word} {p : Pred (List Char) Operand} (h : Reads ws p) :
    parse (.lparen :: (ws ++ [.rparen])) = some p := by
  have hparen (n : Nat) (hn : 4 * ws.length ≤ n) :
      parsePrimary (n + 3) (.lparen :: (ws ++ [.rparen])) = some (p, []) := by
    rw [parsePrimary, parseOr, parseAnd, h _ _ hn]
  obtain ⟨n, hn⟩ : ∃ n, 4 * (Word.lparen :: (ws ++ [.rparen])).length + 2 = n + 3 + 1 + 1 ∧
      4 * ws.length ≤ n := ⟨4 * ws.length + 5, by simp; omega, by omega⟩
  rw [parse, hn.1, parseOr, parseAnd, hparen n hn.2]

theorem parse_paren_of_refuses {ws : List Word} (h : Refuses ws) :
    parse (.lparen :: (ws ++ [.rparen])) = none := by
  have hparen (n : Nat) (hn : 4 * ws.length ≤ n) :
      parsePrimary (n + 3) (.lparen :: (ws ++ [.rparen])) = none := by
    rw [parsePrimary, parseOr, parseAnd, h _ _ hn]
  obtain ⟨n, hn⟩ : ∃ n, 4 * (Word.lparen :: (ws ++ [.rparen])).length + 2 = n + 3 + 1 + 1 ∧
      4 * ws.length ≤ n := ⟨4 * ws.length + 5, by simp; omega, by omega⟩
  rw [parse, hn.1, parseOr, parseAnd, hparen n hn.2]

/-! ## Values -/

/-- A value that is not `NULL`. -/
inductive Value
  | bool (b : Bool)
  | number (q : ℚ)
  | text (s : List Char)
  deriving DecidableEq

/-- What the server decides by the types of the columns: how two values compare, and the minus
sign before something that is no number. None is an error. -/
structure Operators where
  compare : CompareOp → Value → Value → Option (Option Bool)
  negate : Value → Option Value

def digitsValue (ds : List Char) : Nat := Nat.ofDigitChars 10 ds 0

def exponentValue : List Char → ℤ
  | '-' :: ds => -digitsValue ds
  | '+' :: ds => digitsValue ds
  | ds => digitsValue ds

/-- The number that decimal notation stands for. -/
def decimal (text : List Char) : ℚ :=
  let mantissa := text.takeWhile fun c => c != 'e' && c != 'E'
  let whole := mantissa.takeWhile (· != '.')
  let fraction := mantissa.drop (whole.length + 1)
  (digitsValue (whole ++ fraction) : ℚ) / 10 ^ fraction.length *
    10 ^ exponentValue (text.drop (mantissa.length + 1))

/-- The value of a constant; `NULL` is `some none`. -/
def Operand.value (ops : Operators) : Operand → Option (Option Value)
  | .null => some none
  | .bool b => some (some (.bool b))
  | .number text => some (some (.number (decimal text)))
  | .string content => some (some (.text content))
  | .neg o =>
    match o.value ops with
    | some none => some none
    | some (some (.number q)) => some (some (.number (-q)))
    | some (some v) => (ops.negate v).map some
    | none => none

/-- How a column is compared with a number: exactly, or both in double precision. -/
inductive ColumnType
  | exact
  | real
  | double
  deriving DecidableEq, Repr

/-- The number that a column of the type is compared with; none is an error. -/
def ColumnType.number : ColumnType → ℚ → Option ℚ
  | .exact, q => some q
  | _, q => Binary.Format.double.round q

def ColumnType.receive (type : ColumnType) : Value → Option Value
  | .number q => (type.number q).map .number
  | v => some v

theorem ColumnType.number_neg (type : ColumnType) (q : ℚ) :
    type.number (-q) = (type.number q).map (-·) := by
  cases type with
  | exact => rfl
  | real => exact Binary.Format.double.round_neg q
  | double => exact Binary.Format.double.round_neg q

/-- The value of a constant beside a column. -/
def Operand.valueAt (ops : Operators) (type : ColumnType) (o : Operand) :
    Option (Option Value) := do
  match ← o.value ops with
  | none => some none
  | some v => (type.receive v).map some

/-- A comparison is unknown on `NULL`. -/
def compareCells (ops : Operators) (op : CompareOp) :
    Option Value → Option Value → Option (Option Bool)
  | some a, some b => ops.compare op a b
  | _, _ => some none

variable {C O : Type}

/-- The value of a predicate on a row; none when a column does not exist or an operator fails. What
a constant stands for may depend on the column beside it. -/
def Pred.value (ops : Operators) (cell : C → Option (Option Value))
    (operand : C → O → Option (Option Value)) : Pred C O → Option (Option Bool)
  | .compare op c o => do
    let x ← cell c
    let v ← operand c o
    compareCells ops op x v
  | .between c low high => do
    let x ← cell c
    let l ← operand c low
    let h ← operand c high
    let above ← compareCells ops .ge x l
    let below ← compareCells ops .le x h
    some (Kleene.and above below)
  | .isNull negated c => do
    let x ← cell c
    some (some (x.isNone != negated))
  | .binary isAnd p q => do
    let a ← p.value ops cell operand
    let b ← q.value ops cell operand
    some (if isAnd then Kleene.and a b else Kleene.or a b)

attribute [grind] Pred.value

def Pred.columns : Pred C O → List C
  | .compare _ c _ | .between c _ _ | .isNull _ c => [c]
  | .binary _ p q => p.columns ++ q.columns

def Pred.operands : Pred C O → List O
  | .compare _ _ o => [o]
  | .between _ low high => [low, high]
  | .isNull _ _ => []
  | .binary _ p q => p.operands ++ q.operands

/-- The columns with the constants that they are compared with. -/
def Pred.comparisons : Pred C O → List (CompareOp × C × O)
  | .compare op c o => [(op, c, o)]
  | .between c low high => [(.ge, c, low), (.le, c, high)]
  | .isNull _ _ => []
  | .binary _ p q => p.comparisons ++ q.comparisons

theorem Pred.comparisons_operands (p : Pred C O) :
    p.comparisons.map (fun x => x.2.2) = p.operands := by
  induction p with
  | binary isAnd p q ihp ihq => rw [comparisons, List.map_append, ihp, ihq, operands]
  | _ => rfl

theorem Pred.comparison_column (p : Pred C O) (x : CompareOp × C × O) (h : x ∈ p.comparisons) :
    x.2.1 ∈ p.columns := by
  induction p with
  | binary isAnd p q ihp ihq =>
    rcases List.mem_append.mp h with h | h
    · exact List.mem_append_left _ (ihp h)
    · exact List.mem_append_right _ (ihq h)
  | compare op c o =>
    obtain rfl := List.mem_singleton.mp h
    exact List.mem_singleton.mpr rfl
  | between c low high =>
    rcases List.mem_cons.mp h with rfl | h
    · exact List.mem_singleton.mpr rfl
    · obtain rfl := List.mem_singleton.mp h
      exact List.mem_singleton.mpr rfl
  | isNull negated c => cases h

def Pred.map {C' O' : Type} (f : C → C') (g : O → O') : Pred C O → Pred C' O'
  | .compare op c o => .compare op (f c) (g o)
  | .between c low high => .between (f c) (g low) (g high)
  | .isNull negated c => .isNull negated (f c)
  | .binary isAnd p q => .binary isAnd (p.map f g) (q.map f g)

theorem Pred.mem_columns_map {C' O' : Type} (p : Pred C O) (f : C → C') (g : O → O') (c : C')
    (h : c ∈ (p.map f g).columns) : ∃ d ∈ p.columns, f d = c := by
  induction p with
  | binary isAnd p q ihp ihq =>
    rcases List.mem_append.mp h with h | h
    · obtain ⟨d, hd, he⟩ := ihp h
      exact ⟨d, by simp [columns, hd], he⟩
    · obtain ⟨d, hd, he⟩ := ihq h
      exact ⟨d, by simp [columns, hd], he⟩
  | _ =>
    obtain rfl := List.mem_singleton.mp h
    exact ⟨_, List.mem_singleton.mpr rfl, rfl⟩

theorem Pred.comparisons_map {C' O' : Type} (p : Pred C O) (f : C → C') (g : O → O') :
    (p.map f g).comparisons = p.comparisons.map fun x => (x.1, f x.2.1, g x.2.2) := by
  induction p with
  | binary isAnd p q ihp ihq => rw [map, comparisons, comparisons, List.map_append, ihp, ihq]
  | _ => rfl

theorem Pred.value_map {C' O' : Type} (ops : Operators) (f : C → C') (g : O → O')
    (cell : C → Option (Option Value)) (cell' : C' → Option (Option Value))
    (operand : C → O → Option (Option Value)) (operand' : C' → O' → Option (Option Value))
    (p : Pred C O) (hcell : ∀ c ∈ p.columns, cell' (f c) = cell c)
    (hoperand : ∀ x ∈ p.comparisons, operand' (f x.2.1) (g x.2.2) = operand x.2.1 x.2.2) :
    (p.map f g).value ops cell' operand' = p.value ops cell operand := by
  induction p with
  | compare op c o =>
    simp [map, value, hcell c (by simp [columns]), hoperand (op, c, o) (by simp [comparisons])]
  | between c low high =>
    simp [map, value, hcell c (by simp [columns]),
      hoperand (.ge, c, low) (by simp [comparisons]),
      hoperand (.le, c, high) (by simp [comparisons])]
  | isNull negated c => simp [map, value, hcell c (by simp [columns])]
  | binary isAnd p q ihp ihq =>
    simp only [map, value]
    rw [ihp (fun c hc => hcell c (by simp [columns, hc])) fun x hx => hoperand x
        (by simp [comparisons, hx]), ihq (fun c hc => hcell c (by simp [columns, hc])) fun x hx =>
        hoperand x (by simp [comparisons, hx])]

/-- The value of one comparison. -/
def comparisonValue (ops : Operators) (cell : C → Option (Option Value))
    (operand : C → O → Option (Option Value)) (x : CompareOp × C × O) : Option (Option Bool) := do
  let a ← cell x.2.1
  let v ← operand x.2.1 x.2.2
  compareCells ops x.1 a v

/-- **A predicate has a value** where its columns exist and its comparisons have one. -/
theorem Pred.value_isSome (ops : Operators) (p : Pred C O) (cell : C → Option (Option Value))
    (operand : C → O → Option (Option Value)) (hcell : ∀ c ∈ p.columns, (cell c).isSome = true)
    (hcompare : ∀ x ∈ p.comparisons, (comparisonValue ops cell operand x).isSome = true) :
    (p.value ops cell operand).isSome = true := by
  induction p with
  | compare op c o => exact hcompare (op, c, o) (by simp [comparisons])
  | between c low high =>
    have hlow := hcompare (.ge, c, low) (by simp [comparisons])
    have hhigh := hcompare (.le, c, high) (by simp [comparisons])
    simp only [comparisonValue, Option.bind_eq_bind] at hlow hhigh
    simp only [value, Option.bind_eq_bind]
    cases hx : cell c with
    | none => simp [hx] at hlow
    | some x =>
      cases hl : operand c low with
      | none => simp [hx, hl] at hlow
      | some l =>
        cases hh : operand c high with
        | none => simp [hx, hh] at hhigh
        | some h =>
          simp only [hx, hl, hh, Option.bind_some] at hlow hhigh ⊢
          obtain ⟨a, ha⟩ := Option.isSome_iff_exists.mp hlow
          obtain ⟨b, hb⟩ := Option.isSome_iff_exists.mp hhigh
          simp [ha, hb]
  | isNull negated c =>
    obtain ⟨x, hx⟩ := Option.isSome_iff_exists.mp (hcell c (by simp [columns]))
    simp [value, hx]
  | binary isAnd p q ihp ihq =>
    obtain ⟨a, ha⟩ := Option.isSome_iff_exists.mp (ihp
      (fun c hc => hcell c (by simp [columns, hc])) fun x hx => hcompare x
        (by simp [comparisons, hx]))
    obtain ⟨b, hb⟩ := Option.isSome_iff_exists.mp (ihq
      (fun c hc => hcell c (by simp [columns, hc])) fun x hx => hcompare x
        (by simp [comparisons, hx]))
    simp [value, ha, hb]

/-- And has none where a column is missing. -/
theorem Pred.value_eq_none (ops : Operators) (p : Pred C O) (cell : C → Option (Option Value))
    (operand : C → O → Option (Option Value)) (c : C) (hc : c ∈ p.columns) (h : cell c = none) :
    p.value ops cell operand = none := by
  induction p with
  | compare op d o =>
    obtain rfl := List.mem_singleton.mp hc
    simp [value, h]
  | between d low high =>
    obtain rfl := List.mem_singleton.mp hc
    simp [value, h]
  | isNull negated d =>
    obtain rfl := List.mem_singleton.mp hc
    simp [value, h]
  | binary isAnd p q ihp ihq =>
    rcases List.mem_append.mp hc with hc | hc
    · simp [value, ihp hc]
    · cases hp : p.value ops cell operand <;> simp [value, hp, ihq hc]

/-- Or where a comparison fails. -/
theorem Pred.value_eq_none_of_comparison (ops : Operators) (p : Pred C O)
    (cell : C → Option (Option Value)) (operand : C → O → Option (Option Value))
    (x : CompareOp × C × O) (hx : x ∈ p.comparisons)
    (h : comparisonValue ops cell operand x = none) : p.value ops cell operand = none := by
  induction p with
  | compare op c o =>
    obtain rfl := List.mem_singleton.mp hx
    exact h
  | between c low high =>
    simp only [comparisonValue, Option.bind_eq_bind] at h
    simp only [value, Option.bind_eq_bind]
    cases hc : cell c with
    | none => rfl
    | some a =>
      cases hl : operand c low with
      | none => rfl
      | some l =>
        cases hh : operand c high with
        | none => rfl
        | some u =>
          simp only [Option.bind_some]
          rcases List.mem_cons.mp hx with rfl | hx
          · simp only [hc, hl, Option.bind_some] at h
            simp [h]
          · obtain rfl := List.mem_singleton.mp hx
            simp only [hc, hh, Option.bind_some] at h
            cases compareCells ops .ge a l <;> simp [h]
  | isNull negated c => cases hx
  | binary isAnd p q ihp ihq =>
    rcases List.mem_append.mp hx with hx | hx
    · simp [value, ihp hx]
    · cases hp : p.value ops cell operand <;> simp [value, hp, ihq hx]

end SqlPredicate

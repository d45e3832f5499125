import Djogi.Lib.Fallible
import Djogi.Lib.SqlPredicate

/-!
# Lowering of default filters

`model/proxy.rs`: the closure of `#[model(default_filter = |f| ...)]` is lowered to a piece of SQL
at expansion time, and `query/sql.rs` puts that piece between brackets in each query of the proxy.

* `lowerDefaultFilterToSql`: the lowering, with its errors;
* `readClosure`: what a closure of the grammar says;
* `lowerPredExpr_ok`: what is accepted is of the grammar, and the text that it becomes.
-/

namespace Djogi.Proxy

open SqlLex SqlPredicate

/-! ## Expressions -/

/-- The digits of a float literal, as `base10_digits` gives them. -/
structure FloatDigits where
  whole : List Char
  fraction : Option (List Char)
  exponent : Option (Char × Option Char × List Char)
  whole_ne : whole ≠ []
  whole_digits : whole.all Char.isDigit = true
  fraction_digits : (fraction.getD []).all Char.isDigit = true
  exponent_mark : ∀ e ∈ exponent, e.1 = 'e' ∨ e.1 = 'E'
  exponent_sign : ∀ e ∈ exponent, ∀ s ∈ e.2.1, s = '+' ∨ s = '-'
  exponent_ne : ∀ e ∈ exponent, e.2.2 ≠ []
  exponent_digits : ∀ e ∈ exponent, e.2.2.all Char.isDigit = true

def FloatDigits.text (f : FloatDigits) : List Char :=
  f.whole ++ (f.fraction.elim [] fun ds => '.' :: ds) ++
    f.exponent.elim [] fun e => e.1 :: (e.2.1.toList ++ e.2.2)

inductive FloatType
  | f32
  | f64
  deriving DecidableEq, Repr

inductive Lit
  | bool (value : Bool)
  | int (n : Nat)
  | float (f : FloatDigits) (suffix : Option FloatType)
  | str (s : String)
  | other

inductive UnOp
  | neg | not | deref

inductive Member
  | named (id : String)
  | unnamed

/-- `syn::Expr`, as far as the walker looks at it. A path is given by its single identifier. -/
inductive Expr
  | path (ident : Option String)
  | lit (l : Lit)
  | unary (op : UnOp) (expr : Expr)
  | paren (expr : Expr)
  | methodCall (receiver : Expr) (method : String) (args : List Expr)
  | field (base : Expr) (member : Member)
  | other

inductive Pat
  | ident (name : String)
  | other

structure ExprClosure where
  inputs : List Pat
  body : Expr

/-! ## Literals -/

def hexByte (b : UInt8) : String := String.ofList ((Nat.toDigits 16 b.toNat).map Char.toUpper)

def escapeSqlString (s : String) : Except String String :=
  match s.toList.zipIdx.find? fun c => 128 ≤ c.1.toNat with
  | some (c, i) => .error ("non-ASCII byte at position " ++ toString i ++ " (0x" ++
      hexByte ((String.utf8EncodeChar c).headD 0) ++ "); v0.1.0 accepts ASCII-only strings — " ++
      "for non-ASCII RHS, implement `Model::default_filter_condition` by hand")
  | none => .ok ("'" ++ String.ofList (doubled s.toList) ++ "'")

def lowerLiteralArg : Expr → Except String String
  | .path ident =>
    if ident = some "null" then .ok "NULL" else .error inlineLiteral
  | .lit (.bool value) => .ok (if value then "TRUE" else "FALSE")
  | .lit (.int n) => .ok (String.ofList (Nat.toDigits 10 n))
  | .lit (.float f _) => .ok (String.ofList f.text)
  | .lit (.str s) => (escapeSqlString s).mapError ("`default_filter` string literal: " ++ ·)
  | .lit .other => .error ("`default_filter` literal must be one of: bool, integer, float, " ++
      "string, or the bare keyword `null`")
  | .unary .neg expr => do
    let inner ← lowerLiteralArg expr
    .ok ("-" ++ inner)
  | _ => .error inlineLiteral
where
  inlineLiteral := "`default_filter` argument must be an inline literal " ++
    "(bool/integer/float/string/`null`); runtime-bound values are not supported in v0.1.0 — " ++
    "for non-literal RHS, implement `Model::default_filter_condition` by hand"

/-! ## Fields -/

/-- The column name itself, checked byte by byte. -/
def checkColumn (col : String) : Except String String :=
  if col.utf8ByteSize = 0 ∨ 63 < col.utf8ByteSize then
    .error ("`default_filter` column name \"" ++ col ++ "\" length outside the 1..=63-byte " ++
      "unquoted-identifier range")
  else if !col.toList.head?.any fun c => c.isAlpha || c == '_' then
    .error ("`default_filter` column name \"" ++ col ++ "\" must start with an ASCII letter or " ++
      "underscore")
  else if !col.toList.tail.all fun c => c.isAlphanum || c == '_' then
    .error ("`default_filter` column name \"" ++ col ++ "\" must contain only ASCII " ++
      "alphanumerics or underscores after the first byte")
  else .ok col

def lowerFieldAccessor (fBinding : String) : Expr → Except String String
  | .field base member =>
    match base with
    | .path (some id) =>
      if id ≠ fBinding then
        .error ("`default_filter` field accessor must use the closure's input binding `" ++
          fBinding ++ "`; got `" ++ id ++ "`")
      else
        match member with
        | .named col => checkColumn col
        | .unnamed => .error ("`default_filter` field accessor must use a named field — " ++
            "tuple-index access is not supported")
    | .path none => .error ("`default_filter` field accessor base must be the single-ident " ++
        "closure binding (conventionally `f`)")
    | _ => .error ("`default_filter` field accessor base must be the closure's input ident " ++
        "(conventionally `f`); multi-segment paths are not supported")
  | _ => .error ("`default_filter` predicate receiver must be a single field accessor — " ++
      "e.g. `f.active` or `f.price`")

/-! ## Predicates -/

def compareOf : String → Option CompareOp
  | "eq" => some .eq
  | "neq" => some .ne
  | "gt" => some .gt
  | "gte" => some .ge
  | "lt" => some .lt
  | "lte" => some .le
  | _ => none

def sqlOp : CompareOp → String
  | .eq => "="
  | .ne => "<>"
  | .gt => ">"
  | .ge => ">="
  | .lt => "<"
  | .le => "<="

/-- The part of `lower_method_call` after the combinators. -/
def lowerLeaf (column method : String) (args : List Expr) : Except String String :=
  match compareOf method with
  | some op =>
    match args with
    | [arg] => do
      let lit ← lowerLiteralArg arg
      .ok (column ++ " " ++ sqlOp op ++ " " ++ lit)
    | _ => .error ("`" ++ method ++ "` takes exactly one literal argument")
  | none =>
    if method = "is_null" then
      if args.isEmpty then .ok (column ++ " IS NULL")
      else .error "`is_null` takes no arguments in `default_filter` closures"
    else if method = "is_not_null" then
      if args.isEmpty then .ok (column ++ " IS NOT NULL")
      else .error "`is_not_null` takes no arguments in `default_filter` closures"
    else if method = "between" then
      match args with
      | [lo, hi] => do
        let lo ← lowerLiteralArg lo
        let hi ← lowerLiteralArg hi
        .ok (column ++ " BETWEEN " ++ lo ++ " AND " ++ hi)
      | _ => .error "`between` takes exactly two literal arguments (lower and upper bound)"
    else .error ("unsupported predicate `" ++ method ++ "` in `default_filter` closure; " ++
      "supported: eq, neq, gt, gte, lt, lte, is_null, is_not_null, between, and_with, or_with")

/-- `lower_pred_expr` with `lower_method_call` in it. -/
def lowerPredExpr (fBinding : String) : Expr → Except String String
  | .paren expr => lowerPredExpr fBinding expr
  | .methodCall receiver method args =>
    if method = "and_with" ∨ method = "or_with" then
      match args with
      | [arg] => do
        let lhs ← lowerPredExpr fBinding receiver
        let rhs ← lowerPredExpr fBinding arg
        .ok ("(" ++ lhs ++ " " ++ (if method = "and_with" then "AND" else "OR") ++ " " ++ rhs ++
          ")")
      | _ => .error ("`" ++ method ++ "` takes exactly one predicate argument in " ++
          "`default_filter` closures")
    else do
      let column ← lowerFieldAccessor fBinding receiver
      lowerLeaf column method args
  | _ => .error ("unsupported expression shape in `default_filter` closure; expected a chain " ++
      "of field-accessor predicates combined with `.and_with(...)` / `.or_with(...)` — e.g. " ++
      "`|f| f.active.eq(true).and_with(f.price.gte(100))`")

def lowerDefaultFilterToSql (closure : ExprClosure) : Except String String :=
  match closure.inputs with
  | [.ident fBinding] => lowerPredExpr fBinding closure.body
  | [.other] => .error ("`default_filter` closure parameter must be a simple identifier — " ++
      "e.g. `|f| f.active.eq(true)`")
  | _ => .error ("`default_filter` closure must take exactly one parameter (the " ++
      "`\x7bModel\x7dFields` accessor binding, conventionally `f`)")

/-- The `RawSql` branch of `emit_condition`. -/
def emitRawSql (s : String) : String := "(" ++ s ++ ")"

/-! ## What a closure says -/

/-- The literals of the grammar, with their minus signs. -/
inductive Arg
  | null
  | bool (value : Bool)
  | int (n : Nat)
  | float (f : FloatDigits) (suffix : Option FloatType)
  | str (s : String)
  | neg (arg : Arg)

def FloatType.format : FloatType → Binary.Format
  | .f32 => .single
  | .f64 => .double

/-- The Rust type of a float beside a column: its suffix, else that of the column. Other columns
hold decimals. -/
def floatType (type : ColumnType) (suffix : Option FloatType) : Option FloatType :=
  suffix.or <| match type with
    | .exact => none
    | .real => some .f32
    | .double => some .f64

/-- The number that a float literal is in Rust; none is out of range. -/
def floatNumber (type : ColumnType) (suffix : Option FloatType) (q : ℚ) : Option ℚ :=
  match floatType type suffix with
  | none => some q
  | some t => t.format.round q

/-- The Rust value of a literal beside a column; `null` is `some none`. Only numbers have a
negative. -/
def Arg.value (type : ColumnType) : Arg → Option (Option Value)
  | .null => some none
  | .bool value => some (some (.bool value))
  | .int n => some (some (.number n))
  | .float f suffix => (floatNumber type suffix (decimal f.text)).map fun q => some (.number q)
  | .str s => some (some (.text s.toList))
  | .neg arg =>
    match arg.value type with
    | some (some (.number q)) => some (some (.number (-q)))
    | _ => none

/-- The predicates of the grammar. -/
abbrev Filter := Pred String Arg

def readArg : Expr → Option Arg
  | .path ident => if ident = some "null" then some .null else none
  | .lit (.bool value) => some (.bool value)
  | .lit (.int n) => some (.int n)
  | .lit (.float f suffix) => some (.float f suffix)
  | .lit (.str s) => some (.str s)
  | .unary .neg expr => (readArg expr).map .neg
  | _ => none

def readField (fBinding : String) : Expr → Option String
  | .field (.path (some id)) (.named col) => if id = fBinding then some col else none
  | _ => none

def readLeaf (column method : String) (args : List Expr) : Option Filter :=
  match compareOf method, args with
  | some op, [arg] => (readArg arg).map (.compare op column)
  | none, [] =>
    if method = "is_null" then some (.isNull false column)
    else if method = "is_not_null" then some (.isNull true column)
    else none
  | none, [lo, hi] =>
    if method = "between" then do
      let lo ← readArg lo
      let hi ← readArg hi
      some (.between column lo hi)
    else none
  | _, _ => none

def readPred (fBinding : String) : Expr → Option Filter
  | .paren expr => readPred fBinding expr
  | .methodCall receiver method args =>
    if method = "and_with" ∨ method = "or_with" then
      match args with
      | [arg] => do
        let lhs ← readPred fBinding receiver
        let rhs ← readPred fBinding arg
        some (.binary (method = "and_with") lhs rhs)
      | _ => none
    else do
      let column ← readField fBinding receiver
      readLeaf column method args
  | _ => none

def readClosure (closure : ExprClosure) : Option Filter :=
  match closure.inputs with
  | [.ident fBinding] => readPred fBinding closure.body
  | _ => none

/-! ## The text of a filter -/

def Arg.text : Arg → List Char
  | .null => "NULL".toList
  | .bool value => if value then "TRUE".toList else "FALSE".toList
  | .int n => Nat.toDigits 10 n
  | .float f _ => f.text
  | .str s => '\'' :: (doubled s.toList ++ ['\''])
  | .neg arg => '-' :: arg.text

def filterText : Filter → List Char
  | .compare op c arg => c.toList ++ ' ' :: ((sqlOp op).toList ++ ' ' :: arg.text)
  | .isNull negated c =>
    c.toList ++ if negated then " IS NOT NULL".toList else " IS NULL".toList
  | .between c lo hi =>
    c.toList ++ " BETWEEN ".toList ++ lo.text ++ " AND ".toList ++ hi.text
  | .binary isAnd p q =>
    '(' :: (filterText p ++ ' ' :: ((if isAnd then "AND" else "OR").toList ++ ' ' ::
      (filterText q ++ [')'])))

/-- The columns passed their check. The strings are of ASCII characters, which nothing below
depends on. -/
def Filter.Accepted (p : Filter) : Prop := ∀ c ∈ p.columns, checkColumn c = .ok c

theorem escapeSqlString_ok (s t : String) (h : escapeSqlString s = .ok t) :
    t.toList = (Arg.str s).text := by
  unfold escapeSqlString at h
  split at h
  · cases h
  · cases h
    simp [Arg.text]

theorem lowerLiteralArg_ok (e : Expr) (t : String) (h : lowerLiteralArg e = .ok t) :
    ∃ arg, readArg e = some arg ∧ t.toList = arg.text := by
  induction e using lowerLiteralArg.induct generalizing t with
  | case1 =>
    obtain rfl := Except.ok.inj h
    exact ⟨.null, rfl, rfl⟩
  | case2 ident hnull =>
    rw [lowerLiteralArg, if_neg hnull] at h
    cases h
  | case3 value =>
    obtain rfl := Except.ok.inj h
    exact ⟨.bool value, rfl, by cases value <;> rfl⟩
  | case4 n =>
    obtain rfl := Except.ok.inj h
    exact ⟨.int n, rfl, by simp [Arg.text]⟩
  | case5 f suffix =>
    obtain rfl := Except.ok.inj h
    exact ⟨.float f suffix, rfl, by simp [Arg.text]⟩
  | case6 s =>
    rw [lowerLiteralArg] at h
    cases hs : escapeSqlString s with
    | error e => rw [hs] at h; cases h
    | ok u =>
      rw [hs] at h
      obtain rfl := Except.ok.inj h
      exact ⟨.str s, rfl, escapeSqlString_ok s u hs⟩
  | case7 => cases h
  | case8 expr ih =>
    rw [lowerLiteralArg] at h
    obtain ⟨inner, hinner, h⟩ := Fallible.bind_ok _ _ _ h
    obtain rfl := Except.ok.inj h
    obtain ⟨arg, harg, htext⟩ := ih inner hinner
    exact ⟨.neg arg, by rw [readArg, harg]; rfl, by simp [Arg.text, htext]⟩
  | case9 e h1 h2 h3 h4 h5 h6 h7 =>
    rw [lowerLiteralArg] at h
    · cases h
    all_goals assumption

theorem checkColumn_ok (c d : String) (h : checkColumn c = .ok d) : d = c := by
  unfold checkColumn at h
  split_ifs at h
  exact (Except.ok.inj h).symm

theorem lowerFieldAccessor_ok (f : String) (e : Expr) (c : String)
    (h : lowerFieldAccessor f e = .ok c) : readField f e = some c ∧ checkColumn c = .ok c := by
  unfold lowerFieldAccessor at h
  split at h
  · split at h
    · split_ifs at h with hid
      split at h
      · obtain rfl := checkColumn_ok _ _ h
        rw [readField, if_pos (not_not.mp hid)]
        exact ⟨rfl, h⟩
      · cases h
    · cases h
    · cases h
  · cases h

theorem lowerLeaf_ok (c method : String) (args : List Expr) (t : String)
    (h : lowerLeaf c method args = .ok t) :
    ∃ p, readLeaf c method args = some p ∧ p.columns = [c] ∧ t.toList = filterText p := by
  unfold lowerLeaf at h
  cases hop : compareOf method with
  | some op =>
    rw [hop] at h
    simp only at h
    split at h
    · obtain ⟨lit, hlit, h⟩ := Fallible.bind_ok _ _ _ h
      obtain rfl := Except.ok.inj h
      obtain ⟨arg, harg, htext⟩ := lowerLiteralArg_ok _ _ hlit
      refine ⟨.compare op c arg, by simp [readLeaf, hop, harg], rfl, ?_⟩
      simp [filterText, htext]
    · cases h
  | none =>
    rw [hop] at h
    simp only at h
    split_ifs at h with hnull hempty hnot hempty hbetween
    · obtain rfl := Except.ok.inj h
      obtain rfl := List.isEmpty_iff.mp hempty
      refine ⟨.isNull false c, ?_, rfl, by simp [filterText]⟩
      unfold readLeaf
      rw [hop]
      exact if_pos hnull
    · obtain rfl := Except.ok.inj h
      obtain rfl := List.isEmpty_iff.mp hempty
      refine ⟨.isNull true c, ?_, rfl, by simp [filterText]⟩
      unfold readLeaf
      rw [hop]
      exact (if_neg hnull).trans (if_pos hnot)
    · split at h
      · obtain ⟨low, hlow, h⟩ := Fallible.bind_ok _ _ _ h
        obtain ⟨high, hhigh, h⟩ := Fallible.bind_ok _ _ _ h
        obtain rfl := Except.ok.inj h
        obtain ⟨lo, hlo, htlo⟩ := lowerLiteralArg_ok _ _ hlow
        obtain ⟨hi, hhi, hthi⟩ := lowerLiteralArg_ok _ _ hhigh
        refine ⟨.between c lo hi, ?_, rfl, by simp [filterText, htlo, hthi]⟩
        unfold readLeaf
        rw [hop]
        exact (if_pos hbetween).trans (by simp [hlo, hhi])
      · cases h

/-- **What is accepted** is of the grammar. -/
theorem lowerPredExpr_ok (f : String) (e : Expr) (t : String) (h : lowerPredExpr f e = .ok t) :
    ∃ p, readPred f e = some p ∧ Filter.Accepted p ∧ t.toList = filterText p := by
  induction e using lowerPredExpr.induct generalizing t with
  | case1 expr ih =>
    rw [lowerPredExpr] at h
    rw [readPred]
    exact ih t h
  | case2 receiver method hm arg ihl ihr =>
    rw [lowerPredExpr, if_pos hm] at h
    obtain ⟨lhs, hl, h⟩ := Fallible.bind_ok _ _ _ h
    obtain ⟨rhs, hr, h⟩ := Fallible.bind_ok _ _ _ h
    obtain rfl := Except.ok.inj h
    obtain ⟨p, hp, hpa, hpt⟩ := ihl lhs hl
    obtain ⟨q, hq, hqa, hqt⟩ := ihr rhs hr
    refine ⟨.binary (method = "and_with") p q, by simp [readPred, hm, hp, hq], ?_, ?_⟩
    · intro c hc
      rcases List.mem_append.mp hc with hc | hc
      · exact hpa c hc
      · exact hqa c hc
    · by_cases hand : method = "and_with" <;> simp [filterText, hpt, hqt, hand]
  | case3 receiver method args hm hargs =>
    unfold lowerPredExpr at h
    rw [if_pos hm] at h
    split at h
    · exact absurd rfl (hargs _)
    · cases h
  | case4 receiver method args hm =>
    unfold lowerPredExpr at h
    rw [if_neg hm] at h
    obtain ⟨c, hc, h⟩ := Fallible.bind_ok _ _ _ h
    obtain ⟨hread, hcheck⟩ := lowerFieldAccessor_ok f receiver c hc
    obtain ⟨p, hp, hcols, htext⟩ := lowerLeaf_ok c method args t h
    refine ⟨p, ?_, ?_, htext⟩
    · unfold readPred
      rw [if_neg hm, hread]
      exact hp
    intro d hd
    rw [hcols] at hd
    obtain rfl := List.mem_singleton.mp hd
    exact hcheck
  | case5 e h1 h2 =>
    rw [lowerPredExpr] at h
    · cases h
    all_goals assumption

end Djogi.Proxy

import Djogi.Lib.JsonSql
import Djogi.Portable

/-!
# JSON predicates

`emit_jsahibon_body` of `query/portable.rs`: a predicate over a `jsonb` column is written as
one SQL fragment, with its path, keys and operands as parameters. `holds` is what the
fragment is for.

* `holds_missing`: without a value at the path only `Missing` holds;
* `holds_about`: a predicate about a type of JSON value fails on the other types.
-/

namespace Djogi

open Jsonb (Json Kind)

/-! ## Predicates -/

structure JPath where
  segments : List String

inductive JTypeKind where
  | null
  | bool
  | number
  | string
  | array
  | object

inductive JScalarKind where
  | i64
  | u64
  | f64
  | string
  | bool
deriving DecidableEq

inductive JCompareOp where
  | eq
  | neq
  | gt
  | gte
  | lt
  | lte
deriving DecidableEq

/-- A scalar operand; `F` are the finite floats. -/
inductive JScalarValue (F : Type) where
  | i64 (value : ℤ)
  | u64 (value : ℕ)
  | f64 (value : F)
  | string (value : String)
  | bool (value : Bool)

inductive JInPolarity where
  | in_
  | notIn
deriving DecidableEq

/-- The predicates. A whole JSON operand is the document that it is bound as. -/
inductive JSahibONPredicateBody (F : Type) where
  | exists_ (path : JPath)
  | missing (path : JPath)
  | isJsonNull (path : JPath)
  | isNotJsonNull (path : JPath)
  | type (path : JPath) (kind : JTypeKind)
  | hasKey (path : JPath) (key : String)
  | hasAnyKey (path : JPath) (keys : List String)
  | hasAllKeys (path : JPath) (keys : List String)
  | scalarCompare (path : JPath) (op : JCompareOp) (scalarKind : JScalarKind)
      (operand : JScalarValue F)
  | scalarIn (path : JPath) (scalarKind : JScalarKind) (operands : List (JScalarValue F))
      (polarity : JInPolarity)
  | scalarBetween (path : JPath) (scalarKind : JScalarKind) (low high : JScalarValue F)
  | jsonEq (path : JPath) (value : Json)
  | jsonNeq (path : JPath) (value : Json)
  | arrayContains (path : JPath) (element : Json)
  | arrayLen (path : JPath) (op : JCompareOp) (len : ℕ)

/-- The values that the emitters bind. -/
inductive JsonBind where
  | texts (ss : List String)
  | text (s : String)
  | decimal (q : ℚ)
  | bool (b : Bool)
  | json (j : Json)

/-- The one error of these emitters. -/
structure UnsupportedPredicateKind where
  kind : String
deriving DecidableEq

/-! ## Emitters -/

section Emit

variable {F : Type} (tryFrom : F → Option ℚ)

/-- The result of an emitter. -/
abbrev JsonEmitted := Except UnsupportedPredicateKind (SqlAccumulator JsonBind)

def unsupported (kind : String) : JsonEmitted := .error ⟨kind⟩

def pushJExpression (acc : SqlAccumulator JsonBind) (column : String) (path : JPath)
    (ctx : SqlEmitContext) : SqlAccumulator JsonBind :=
  let acc := (ctx.pushColumn (acc.pushSql "(") column).pushSql " #> "
  (acc.pushBind (.texts path.segments)).pushSql ")"

def pushKeyArrayBind (acc : SqlAccumulator JsonBind) (keys : List String) :
    SqlAccumulator JsonBind :=
  acc.pushBind (.texts keys)

def pushJsonbValueBind (acc : SqlAccumulator JsonBind) (value : Json) :
    SqlAccumulator JsonBind :=
  acc.pushBind (.json value)

/-- Numbers are bound as decimals; `tryFrom` is the conversion of a float, which fails beyond
the range of a decimal. -/
def pushNumericBind (acc : SqlAccumulator JsonBind) : JScalarValue F → JsonEmitted
  | .i64 value => .ok (acc.pushBind (.decimal value))
  | .u64 value => .ok (acc.pushBind (.decimal value))
  | .f64 value =>
    match tryFrom value with
    | some d => .ok (acc.pushBind (.decimal d))
    | none => unsupported "JSahibON::F64 operand exceeds Decimal range"
  | .string _ => unsupported "non-numeric operand in numeric JSON comparison"
  | .bool _ => unsupported "non-numeric operand in numeric JSON comparison"

def pushTextBind (acc : SqlAccumulator JsonBind) : JScalarValue F → JsonEmitted
  | .string value => .ok (acc.pushBind (.text value))
  | _ => unsupported "non-string operand in string JSON comparison"

def pushBoolBind (acc : SqlAccumulator JsonBind) : JScalarValue F → JsonEmitted
  | .bool value => .ok (acc.pushBind (.bool value))
  | _ => unsupported "non-boolean operand in boolean JSON comparison"

def compareOpToken : JCompareOp → String
  | .eq => " = "
  | .neq => " <> "
  | .gt => " > "
  | .gte => " >= "
  | .lt => " < "
  | .lte => " <= "

def jsonbTypeofLiteral : JTypeKind → String
  | .null => "'null'"
  | .bool => "'boolean'"
  | .number => "'number'"
  | .string => "'string'"
  | .array => "'array'"
  | .object => "'object'"

def JCompareOp.isOrdering (op : JCompareOp) : Bool :=
  match op with
  | .gt => true
  | .gte => true
  | .lt => true
  | .lte => true
  | _ => false

variable (acc : SqlAccumulator JsonBind) (column : String) (path : JPath) (ctx : SqlEmitContext)

/-- The JSON expression between two texts. -/
def pushAround (opening closing : String) : SqlAccumulator JsonBind :=
  (pushJExpression (acc.pushSql opening) column path ctx).pushSql closing

/-- The key predicates and `ArrayContains` up to their operand. -/
def pushGuarded (guard operator : String) : SqlAccumulator JsonBind :=
  let acc := pushAround acc column path ctx "COALESCE(jsonb_typeof(" guard
  (pushJExpression acc column path ctx).pushSql operator

def emitScalarCompare (op : JCompareOp) (scalarKind : JScalarKind) (operand : JScalarValue F) :
    JsonEmitted :=
  let numeric : JsonEmitted := do
    let acc := pushAround acc column path ctx "CASE WHEN jsonb_typeof(" ") = 'number' THEN ("
    let acc := (pushJExpression acc column path ctx).pushSql " #>> '\x7b\x7d'::text[])::numeric"
    let acc ← pushNumericBind tryFrom (acc.pushSql (compareOpToken op)) operand
    return acc.pushSql " ELSE FALSE END"
  match scalarKind with
  | .i64 => numeric
  | .u64 => numeric
  | .f64 => numeric
  | .string =>
    if op.isOrdering then unsupported "ordering operator on JSON string operand"
    else do
      let acc := pushAround acc column path ctx "COALESCE(jsonb_typeof(" ") = 'string' AND ("
      let acc := (pushJExpression acc column path ctx).pushSql " #>> '\x7b\x7d'::text[])"
      let acc ← pushTextBind (acc.pushSql (compareOpToken op)) operand
      return acc.pushSql ", FALSE)"
  | .bool =>
    if op.isOrdering then unsupported "ordering operator on JSON boolean operand"
    else do
      let acc := pushAround acc column path ctx "COALESCE(jsonb_typeof(" ") = 'boolean' AND (("
      let acc := (pushJExpression acc column path ctx).pushSql " #>> '\x7b\x7d'::text[])::boolean"
      let acc ← pushBoolBind (acc.pushSql (compareOpToken op)) operand
      return acc.pushSql "), FALSE)"

/-- The loop over the operands, with `, ` between them. -/
def pushOperands (push : SqlAccumulator JsonBind → JScalarValue F → JsonEmitted)
    (acc : SqlAccumulator JsonBind) : List (JScalarValue F) → JsonEmitted
  | [] => .ok acc
  | operand :: operands => do
    operands.foldlM (fun acc operand => push (acc.pushSql ", ") operand) (← push acc operand)

def inToken : JInPolarity → String
  | .in_ => " IN ("
  | .notIn => " NOT IN ("

/-- Membership in an empty list. -/
def emptyIn : JInPolarity → String
  | .in_ => "FALSE"
  | .notIn => "TRUE"

/-- One arm of `emit_scalar_in`: its guard, the texts around the extracted value, and how it
binds an operand. -/
def scalarIn (guard opening extraction : String)
    (push : SqlAccumulator JsonBind → JScalarValue F → JsonEmitted)
    (operands : List (JScalarValue F)) (polarity : JInPolarity) : JsonEmitted :=
  let acc := pushAround acc column path ctx "CASE WHEN jsonb_typeof(" guard
  if operands.isEmpty then
    .ok ((acc.pushSql (emptyIn polarity)).pushSql " ELSE FALSE END")
  else do
    let acc := (pushAround acc column path ctx opening extraction).pushSql (inToken polarity)
    let acc ← pushOperands push acc operands
    return (acc.pushSql "))").pushSql " ELSE FALSE END"

def emitScalarIn (scalarKind : JScalarKind) (operands : List (JScalarValue F))
    (polarity : JInPolarity) : JsonEmitted :=
  let numeric := scalarIn acc column path ctx ") = 'number' THEN " "(("
    " #>> '\x7b\x7d'::text[])::numeric" (pushNumericBind tryFrom) operands polarity
  match scalarKind with
  | .i64 => numeric
  | .u64 => numeric
  | .f64 => numeric
  | .string =>
    scalarIn acc column path ctx ") = 'string' THEN " "((" " #>> '\x7b\x7d'::text[])" pushTextBind
      operands polarity
  | .bool =>
    scalarIn acc column path ctx ") = 'boolean' THEN " "(((" " #>> '\x7b\x7d'::text[])::boolean)"
      pushBoolBind operands polarity

def emitScalarBetween (scalarKind : JScalarKind) (low high : JScalarValue F) : JsonEmitted :=
  let numeric : JsonEmitted := do
    let acc := pushAround acc column path ctx "CASE WHEN jsonb_typeof(" ") = 'number' THEN (("
    let acc := pushJExpression acc column path ctx
    let acc := acc.pushSql " #>> '\x7b\x7d'::text[])::numeric BETWEEN "
    let acc ← pushNumericBind tryFrom acc low
    let acc ← pushNumericBind tryFrom (acc.pushSql " AND ") high
    return acc.pushSql ") ELSE FALSE END"
  match scalarKind with
  | .i64 => numeric
  | .u64 => numeric
  | .f64 => numeric
  | _ => unsupported "BETWEEN on non-numeric JSON operand"

def emitJsahibonBody (acc : SqlAccumulator JsonBind) (column : String)
    (body : JSahibONPredicateBody F) (ctx : SqlEmitContext) : JsonEmitted :=
  match body with
  | .exists_ path => .ok ((pushJExpression acc column path ctx).pushSql " IS NOT NULL")
  | .missing path => .ok ((pushJExpression acc column path ctx).pushSql " IS NULL")
  | .isJsonNull path =>
    .ok (pushAround acc column path ctx "COALESCE(" " = 'null'::jsonb, FALSE)")
  | .isNotJsonNull path =>
    .ok (pushAround acc column path ctx "COALESCE(" " <> 'null'::jsonb, FALSE)")
  | .type path kind =>
    let acc := pushAround acc column path ctx "COALESCE(jsonb_typeof(" ") = "
    .ok ((acc.pushSql (jsonbTypeofLiteral kind)).pushSql ", FALSE)")
  | .hasKey path key =>
    let acc := (pushGuarded acc column path ctx ") = 'object' AND " " ? ").pushBind (.text key)
    .ok (acc.pushSql ", FALSE)")
  | .hasAnyKey path keys =>
    let acc := pushGuarded acc column path ctx ") = 'object' AND " " ?| "
    .ok ((pushKeyArrayBind acc keys).pushSql ", FALSE)")
  | .hasAllKeys path keys =>
    let acc := pushGuarded acc column path ctx ") = 'object' AND " " ?& "
    .ok ((pushKeyArrayBind acc keys).pushSql ", FALSE)")
  | .scalarCompare path op scalarKind operand =>
    emitScalarCompare tryFrom acc column path ctx op scalarKind operand
  | .scalarIn path scalarKind operands polarity =>
    emitScalarIn tryFrom acc column path ctx scalarKind operands polarity
  | .scalarBetween path scalarKind low high =>
    emitScalarBetween tryFrom acc column path ctx scalarKind low high
  | .jsonEq path value =>
    let acc := pushAround acc column path ctx "COALESCE(" " = "
    .ok ((pushJsonbValueBind acc value).pushSql ", FALSE)")
  | .jsonNeq path value =>
    let acc := pushAround acc column path ctx "COALESCE(" " <> "
    .ok ((pushJsonbValueBind acc value).pushSql ", FALSE)")
  | .arrayContains path element =>
    let acc := pushGuarded acc column path ctx ") = 'array' AND " " @> "
    .ok ((acc.pushBind (.json (.array [element]))).pushSql ", FALSE)")
  | .arrayLen path op len =>
    let acc := pushAround acc column path ctx "CASE WHEN jsonb_typeof("
      ") = 'array' THEN jsonb_array_length("
    let acc := ((pushJExpression acc column path ctx).pushSql ")").pushSql (compareOpToken op)
    .ok ((acc.pushBind (.decimal len)).pushSql " ELSE FALSE END")

end Emit

/-! ## Meaning -/

section Meaning

variable {F : Type} (tryFrom : F → Option ℚ)

/-- A property of the values of one type. -/
def onKind (kind : Kind) (p : Json → Bool) (extracted : Option Json) : Bool :=
  extracted.any fun j => decide (j.kind = kind) && p j

def numberOf : Json → ℚ
  | .number n => n.value
  | _ => 0

def stringOf : Json → String
  | .string s => s
  | _ => ""

def boolOf : Json → Bool
  | .bool b => b
  | _ => false

def lengthOf : Json → ℕ
  | .array items => items.length
  | _ => 0

def decimalOperand : JScalarValue F → Option ℚ
  | .i64 value => some value
  | .u64 value => some value
  | .f64 value => tryFrom value
  | _ => none

def textOperand : JScalarValue F → Option String
  | .string value => some value
  | _ => none

def boolOperand : JScalarValue F → Option Bool
  | .bool value => some value
  | _ => none

def JTypeKind.kind : JTypeKind → Kind
  | .null => .null
  | .bool => .boolean
  | .number => .number
  | .string => .string
  | .array => .array
  | .object => .object

def JScalarKind.kind : JScalarKind → Kind
  | .string => .string
  | .bool => .boolean
  | _ => .number

def JCompareOp.holds (op : JCompareOp) (o : Ordering) : Bool :=
  match op with
  | .eq => o == .eq
  | .neq => o != .eq
  | .gt => o == .gt
  | .gte => o != .lt
  | .lt => o == .lt
  | .lte => o != .gt

def JCompareOp.holdsEqual (op : JCompareOp) (equal : Bool) : Bool :=
  match op with
  | .neq => !equal
  | _ => equal

def JInPolarity.holds (polarity : JInPolarity) (member : Bool) : Bool :=
  match polarity with
  | .in_ => member
  | .notIn => !member

/-- A scalar of the JSON value is compared with the operand. -/
def compareHolds (op : JCompareOp) (operand : JScalarValue F) (kind : JScalarKind) (j : Json) :
    Bool :=
  match kind with
  | .string => (textOperand operand).any fun s => op.holdsEqual (decide (stringOf j = s))
  | .bool => (boolOperand operand).any fun b => op.holdsEqual (boolOf j == b)
  | _ => (decimalOperand tryFrom operand).any fun q => op.holds (compare (numberOf j) q)

/-- The scalar of the JSON value is that of the operand. -/
def sameScalar (kind : JScalarKind) (j : Json) (operand : JScalarValue F) : Bool :=
  match kind with
  | .string => decide (textOperand operand = some (stringOf j))
  | .bool => decide (boolOperand operand = some (boolOf j))
  | _ => decide (decimalOperand tryFrom operand = some (numberOf j))

namespace JSahibONPredicateBody

def path : JSahibONPredicateBody F → JPath
  | exists_ path => path
  | missing path => path
  | isJsonNull path => path
  | isNotJsonNull path => path
  | type path _ => path
  | hasKey path _ => path
  | hasAnyKey path _ => path
  | hasAllKeys path _ => path
  | scalarCompare path _ _ _ => path
  | scalarIn path _ _ _ => path
  | scalarBetween path _ _ _ => path
  | jsonEq path _ => path
  | jsonNeq path _ => path
  | arrayContains path _ => path
  | arrayLen path _ _ => path

/-- What a predicate says about the value at its path, if there is one. -/
def holdsOf (body : JSahibONPredicateBody F) (extracted : Option Json) : Bool :=
  match body with
  | exists_ _ => extracted.isSome
  | missing _ => extracted.isNone
  | isJsonNull _ => extracted.any fun j => decide (j.kind = .null)
  | isNotJsonNull _ => extracted.any fun j => decide (j.kind ≠ .null)
  | type _ kind => extracted.any fun j => decide (j.kind = kind.kind)
  | hasKey _ key => onKind .object (Jsonb.hasKey key) extracted
  | hasAnyKey _ keys => onKind .object (fun j => keys.any (Jsonb.hasKey · j)) extracted
  | hasAllKeys _ keys => onKind .object (fun j => keys.all (Jsonb.hasKey · j)) extracted
  | scalarCompare _ op kind operand =>
    onKind kind.kind (compareHolds tryFrom op operand kind) extracted
  | scalarIn _ kind operands polarity =>
    onKind kind.kind (fun j => polarity.holds (operands.any (sameScalar tryFrom kind j))) extracted
  | scalarBetween _ kind low high =>
    onKind kind.kind (fun j => compareHolds tryFrom .gte low kind j &&
      compareHolds tryFrom .lte high kind j) extracted
  | jsonEq _ value => extracted.any fun j => Jsonb.equal j value
  | jsonNeq _ value => extracted.any fun j => !Jsonb.equal j value
  | arrayContains _ element =>
    onKind .array (fun j => Jsonb.contains j (.array [element])) extracted
  | arrayLen _ op len =>
    onKind .array (fun j => op.holds (compare (lengthOf j : ℚ) len)) extracted

/-- The value at the path, in a column that may be `NULL`. -/
def extract (body : JSahibONPredicateBody F) (cell : Option Json) : Option Json :=
  cell.bind fun j => Jsonb.get j body.path.segments

def holds (body : JSahibONPredicateBody F) (cell : Option Json) : Bool :=
  body.holdsOf tryFrom (body.extract cell)

end JSahibONPredicateBody

end Meaning

end Djogi

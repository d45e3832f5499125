import Djogi.Lib.Kleene
import Djogi.Lib.SqlExpr

/-!
# Portable predicates

`query/portable.rs`: a predicate tree is written as SQL text with `$n` parameters, leaf by
leaf through the hook that `#[model]` generates for each field. The text goes to a
`SqlAccumulator`; the same tree is also evaluated in memory, against cached rows.
-/

namespace Djogi

/-! ## The accumulator -/

/-- SQL text with its parameters. The source's counter is a `u32` whose overflow is a panic,
so that every text it returns is one of these. -/
structure SqlAccumulator (V : Type) where
  sql : String
  binds : List V
  nextParam : Nat
  counted : nextParam = binds.length + 1

namespace SqlAccumulator

variable {V : Type}

def new (initialSql : String) : SqlAccumulator V := ⟨initialSql, [], 1, rfl⟩

def pushSql (acc : SqlAccumulator V) (s : String) : SqlAccumulator V :=
  { acc with sql := acc.sql ++ s }

def pushBind (acc : SqlAccumulator V) (v : V) : SqlAccumulator V :=
  { sql := acc.sql ++ ("$" ++ toString acc.nextParam)
    binds := acc.binds ++ [v]
    nextParam := acc.nextParam + 1
    counted := by rw [acc.counted, List.length_append, List.length_singleton] }

end SqlAccumulator

/-- The context of an emission: a joined query qualifies its columns. -/
structure SqlEmitContext where
  parentTable : Option String
  named : ∀ table, parentTable = some table → SqlExpr.isName table.toList = true

namespace SqlEmitContext

variable {V : Type}

def root : SqlEmitContext := ⟨none, by simp⟩

def joined (parentTable : String) (named : SqlExpr.isName parentTable.toList = true) :
    SqlEmitContext :=
  ⟨some parentTable, fun _ h => Option.some.inj h ▸ named⟩

def pushColumn (ctx : SqlEmitContext) (acc : SqlAccumulator V) (column : String) :
    SqlAccumulator V :=
  if column.toList.contains '.' then acc.pushSql column
  else
    match ctx.parentTable with
    | some table => ((acc.pushSql table).pushSql ".").pushSql column
    | none => acc.pushSql column

end SqlEmitContext

/-! ## Leaves -/

inductive LookupOp where
  | eq
  | neq
  | in_
  | notIn
  | isNull
  | isNotNull
deriving DecidableEq

/-- The operand of a leaf with its runtime type, for a field of type `V` or `Option<V>`. -/
inductive Payload (V : Type) where
  | unit
  | value (v : V)
  | option (o : Option V)
  | list (vs : List V)
  | optionList (os : List (Option V))

structure FieldPredicate (V : Type) where
  fieldName : String
  op : LookupOp
  value : Payload V

inductive PortablePredicateError where
  | unsupportedField (field : String)
  | unsupportedLookup (field : String) (op : LookupOp)
  | valueTypeMismatch (field : String) (op : LookupOp)
  | unsupportedFieldType (field : String)
deriving DecidableEq

/-! ## Emitters -/

section Emit

variable {V : Type} (acc : SqlAccumulator V) (ctx : SqlEmitContext) (column : String)

/-- The loop over the values of a list, with `, ` between them. -/
def pushBinds (acc : SqlAccumulator V) : List V → SqlAccumulator V
  | [] => acc
  | v :: vs => vs.foldl (fun acc v => (acc.pushSql ", ").pushBind v) (acc.pushBind v)

def emitValueRef (opSql : String) (value : V) : SqlAccumulator V :=
  ((ctx.pushColumn acc column).pushSql opSql).pushBind value

/-- The body of `emit_list`, which `emit_boxed_list` has too. -/
def listPredicate (values : List V) (negated : Bool) : SqlAccumulator V :=
  if values.isEmpty then acc.pushSql (if negated then "TRUE" else "FALSE")
  else
    let acc := (ctx.pushColumn acc column).pushSql (if negated then " NOT IN (" else " IN (")
    (pushBinds acc values).pushSql ")"

def emitBoxedList (values : List V) (negated : Bool) : SqlAccumulator V :=
  listPredicate acc ctx column values negated

/-- The body of `emit_present_list`, which `emit_boxed_present_list` has too. -/
def presentList (values : List V) (negated : Bool) : SqlAccumulator V :=
  if values.isEmpty then
    if negated then (ctx.pushColumn acc column).pushSql " IS NOT NULL"
    else acc.pushSql "FALSE"
  else if negated then
    let acc := (ctx.pushColumn (acc.pushSql "(") column).pushSql " IS NOT NULL AND "
    (pushBinds ((ctx.pushColumn acc column).pushSql " NOT IN (") values).pushSql "))"
  else
    (pushBinds ((ctx.pushColumn acc column).pushSql " IN (") values).pushSql ")"

def emitPresentList (values : List V) (negated : Bool) : SqlAccumulator V :=
  presentList acc ctx column values negated

def emitBoxedPresentList (values : List V) (negated : Bool) : SqlAccumulator V :=
  presentList acc ctx column values negated

def emitNull (isNull : Bool) : SqlAccumulator V :=
  (ctx.pushColumn acc column).pushSql (if isNull then " IS NULL" else " IS NOT NULL")

/-- The body of `emit_option_eq`, which `emit_boxed_option_eq` has too. -/
def optionEq : Option V → SqlAccumulator V
  | some v => ((ctx.pushColumn acc column).pushSql " = ").pushBind v
  | none => (ctx.pushColumn acc column).pushSql " IS NULL"

def emitOptionEq (value : Option V) : SqlAccumulator V := optionEq acc ctx column value

def emitBoxedOptionEq (value : Option V) : SqlAccumulator V := optionEq acc ctx column value

/-- The body of `emit_option_neq`, which `emit_boxed_option_neq` has too. -/
def optionNeq : Option V → SqlAccumulator V
  | some v =>
    let acc := (ctx.pushColumn (acc.pushSql "(") column).pushSql " IS NULL OR "
    (((ctx.pushColumn acc column).pushSql " <> ").pushBind v).pushSql ")"
  | none => (ctx.pushColumn acc column).pushSql " IS NOT NULL"

def emitOptionNeq (value : Option V) : SqlAccumulator V := optionNeq acc ctx column value

def emitBoxedOptionNeq (value : Option V) : SqlAccumulator V := optionNeq acc ctx column value

/-- `(column IS [NOT] NULL … column [NOT] IN (…))`, with the two texts between. -/
def nullAndMembers (nullSql inSql : String) (values : List V) : SqlAccumulator V :=
  let acc := (ctx.pushColumn (acc.pushSql "(") column).pushSql nullSql
  (pushBinds ((ctx.pushColumn acc column).pushSql inSql) values).pushSql "))"

def emitOptionIn (values : List (Option V)) (negated : Bool) : SqlAccumulator V :=
  if values.isEmpty then acc.pushSql (if negated then "TRUE" else "FALSE")
  else
    let hasNone := values.any Option.isNone
    let someValues := values.filterMap id
    if !negated then
      match hasNone, someValues.isEmpty with
      | true, true => (ctx.pushColumn acc column).pushSql " IS NULL"
      | false, _ => (pushBinds ((ctx.pushColumn acc column).pushSql " IN (") someValues).pushSql ")"
      | true, false => nullAndMembers acc ctx column " IS NULL OR " " IN (" someValues
    else
      match hasNone, someValues.isEmpty with
      | true, true => (ctx.pushColumn acc column).pushSql " IS NOT NULL"
      | false, _ => nullAndMembers acc ctx column " IS NULL OR " " NOT IN (" someValues
      | true, false => nullAndMembers acc ctx column " IS NOT NULL AND " " NOT IN (" someValues

def emitBoxedOptionList (values : List (Option V)) (negated : Bool) : SqlAccumulator V :=
  if values.isEmpty then acc.pushSql (if negated then "TRUE" else "FALSE")
  else
    let hasNone := values.any Option.isNone
    let someValues := values.filterMap id
    if !negated then
      match hasNone, someValues.isEmpty with
      | true, true => (ctx.pushColumn acc column).pushSql " IS NULL"
      | false, _ => emitBoxedList acc ctx column someValues false
      | true, false =>
        let acc := (ctx.pushColumn (acc.pushSql "(") column).pushSql " IS NULL OR "
        (emitBoxedList acc ctx column someValues false).pushSql ")"
    else
      match hasNone, someValues.isEmpty with
      | true, true => (ctx.pushColumn acc column).pushSql " IS NOT NULL"
      | false, _ =>
        let acc := (ctx.pushColumn (acc.pushSql "(") column).pushSql " IS NULL OR "
        (emitBoxedList acc ctx column someValues true).pushSql ")"
      | true, false => nullAndMembers acc ctx column " IS NOT NULL AND " " NOT IN (" someValues

end Emit

/-! ## The generated hook -/

/-- How a field takes part in portable predicates: through the scalar arms, the arms of an
optional field, or the codec of a registered enum. -/
inductive FieldKind where
  | scalar
  | option
  | registered (nullable : Bool)
  | unsupported
deriving DecidableEq

def FieldKind.nullable : FieldKind → Bool
  | .scalar => false
  | .option => true
  | .registered nullable => nullable
  | .unsupported => true

/-- A model: its fields, with names that SQL reads back without quotes. -/
structure Model where
  field : String → Option FieldKind
  named : ∀ name kind, field name = some kind → SqlExpr.isName name.toList = true

section Arms

variable {V : Type} (acc : SqlAccumulator V) (field : FieldPredicate V) (ctx : SqlEmitContext)

def emitValue (opSql : String) : Except PortablePredicateError (SqlAccumulator V) :=
  match field.value with
  | .value v => .ok (emitValueRef acc ctx field.fieldName opSql v)
  | _ => .error (.valueTypeMismatch field.fieldName field.op)

def emitList (negated : Bool) : Except PortablePredicateError (SqlAccumulator V) :=
  match field.value with
  | .list vs => .ok (listPredicate acc ctx field.fieldName vs negated)
  | _ => .error (.valueTypeMismatch field.fieldName field.op)

def scalarArms : Except PortablePredicateError (SqlAccumulator V) :=
  match field.op with
  | .eq => emitValue acc field ctx " = "
  | .neq => emitValue acc field ctx " <> "
  | .in_ => emitList acc field ctx false
  | .notIn => emitList acc field ctx true
  | op => .error (.unsupportedLookup field.fieldName op)

def optionArms : Except PortablePredicateError (SqlAccumulator V) :=
  match field.op, field.value with
  | .eq, .option o => .ok (emitOptionEq acc ctx field.fieldName o)
  | .eq, .value v => .ok (emitValueRef acc ctx field.fieldName " = " v)
  | .neq, .option o => .ok (emitOptionNeq acc ctx field.fieldName o)
  | .neq, .value v => .ok (emitValueRef acc ctx field.fieldName " <> " v)
  | .in_, .optionList os => .ok (emitOptionIn acc ctx field.fieldName os false)
  | .in_, .list vs => .ok (emitPresentList acc ctx field.fieldName vs false)
  | .notIn, .optionList os => .ok (emitOptionIn acc ctx field.fieldName os true)
  | .notIn, .list vs => .ok (emitPresentList acc ctx field.fieldName vs true)
  | .isNull, _ => .ok (emitNull acc ctx field.fieldName true)
  | .isNotNull, _ => .ok (emitNull acc ctx field.fieldName false)
  | op, _ => .error (.valueTypeMismatch field.fieldName op)

def emitRegisteredCustom (nullable : Bool) : Except PortablePredicateError (SqlAccumulator V) :=
  let emitBoxedMembers (vs : List V) (negated : Bool) :=
    if nullable then emitBoxedPresentList acc ctx field.fieldName vs negated
    else emitBoxedList acc ctx field.fieldName vs negated
  match field.op, field.value, nullable with
  | .eq, .option o, true => .ok (emitBoxedOptionEq acc ctx field.fieldName o)
  | .eq, .value v, _ => .ok (emitValueRef acc ctx field.fieldName " = " v)
  | .neq, .option o, true => .ok (emitBoxedOptionNeq acc ctx field.fieldName o)
  | .neq, .value v, _ => .ok (emitValueRef acc ctx field.fieldName " <> " v)
  | .in_, .optionList os, true => .ok (emitBoxedOptionList acc ctx field.fieldName os false)
  | .in_, .list vs, _ => .ok (emitBoxedMembers vs false)
  | .notIn, .optionList os, true => .ok (emitBoxedOptionList acc ctx field.fieldName os true)
  | .notIn, .list vs, _ => .ok (emitBoxedMembers vs true)
  | .isNull, _, _ => .ok ((ctx.pushColumn acc field.fieldName).pushSql " IS NULL")
  | .isNotNull, _, _ => .ok ((ctx.pushColumn acc field.fieldName).pushSql " IS NOT NULL")
  | op, _, _ => .error (.valueTypeMismatch field.fieldName op)

end Arms

/-- `__djogi_emit_field_predicate`, as generated for a model. -/
def emitFieldPredicate {V : Type} (m : Model) (acc : SqlAccumulator V) (field : FieldPredicate V)
    (ctx : SqlEmitContext) : Except PortablePredicateError (SqlAccumulator V) :=
  match m.field field.fieldName with
  | some .scalar => scalarArms acc field ctx
  | some .option => optionArms acc field ctx
  | some (.registered nullable) => emitRegisteredCustom acc field ctx nullable
  | some .unsupported => .error (.unsupportedFieldType field.fieldName)
  | none => .error (.unsupportedField field.fieldName)

/-! ## Trees -/

/-- The lookups of a field: the first four take the operands of a plain field or of `.some()`
on an optional one, the next four are those of an optional field itself. -/
inductive Lookup (V : Type) where
  | eq (v : V)
  | neq (v : V)
  | in_ (vs : List V)
  | notIn (vs : List V)
  | eqOption (o : Option V)
  | neqOption (o : Option V)
  | inOption (os : List (Option V))
  | notInOption (os : List (Option V))
  | isNull
  | isNotNull

namespace Lookup

variable {V : Type}

def op : Lookup V → LookupOp
  | .eq _ | .eqOption _ => .eq
  | .neq _ | .neqOption _ => .neq
  | .in_ _ | .inOption _ => .in_
  | .notIn _ | .notInOption _ => .notIn
  | .isNull => .isNull
  | .isNotNull => .isNotNull

def payload : Lookup V → Payload V
  | .eq v | .neq v => .value v
  | .in_ vs | .notIn vs => .list vs
  | .eqOption o | .neqOption o => .option o
  | .inOption os | .notInOption os => .optionList os
  | .isNull | .isNotNull => .unit

def plain : Lookup V → Bool
  | .eq _ | .neq _ | .in_ _ | .notIn _ => true
  | _ => false

end Lookup

/-- The lookups that the typed surface of a field offers. -/
def FieldKind.offers {V : Type} (kind : FieldKind) (l : Lookup V) : Bool :=
  kind != .unsupported && (kind.nullable || l.plain)

/-- A leaf as the typed surface builds it. -/
structure Leaf (m : Model) (V : Type) where
  column : String
  kind : FieldKind
  known : m.field column = some kind
  lookup : Lookup V
  offered : kind.offers lookup = true

def Leaf.predicate {m : Model} {V : Type} (l : Leaf m V) : FieldPredicate V :=
  ⟨l.column, l.lookup.op, l.lookup.payload⟩

/-- `BasicPredicate`: `True`, `False`, `Field`, `And`, `Or`, `Not` and `Xor`. -/
abbrev BasicPredicate (m : Model) (V : Type) := Kleene.Formula (Leaf m V)

mutual
def emitBasicPredicate {m : Model} {V : Type} (ctx : SqlEmitContext) :
    SqlAccumulator V → BasicPredicate m V → Except PortablePredicateError (SqlAccumulator V)
  | acc, .verum => .ok (acc.pushSql "TRUE")
  | acc, .falsum => .ok (acc.pushSql "FALSE")
  | acc, .atom fp => emitFieldPredicate m acc fp.predicate ctx
  | acc, .conj parts =>
    if parts.isEmpty then .ok (acc.pushSql "TRUE")
    else do
      let acc ← emitParts ctx " AND " true (acc.pushSql "(") parts
      .ok (acc.pushSql ")")
  | acc, .disj parts =>
    if parts.isEmpty then .ok (acc.pushSql "FALSE")
    else do
      let acc ← emitParts ctx " OR " true (acc.pushSql "(") parts
      .ok (acc.pushSql ")")
  | acc, .neg inner => do
    let acc ← emitBasicPredicate ctx (acc.pushSql "NOT (") inner
    .ok (acc.pushSql ")")
  | acc, .xor a b => do
    let acc ← emitBasicPredicate ctx (acc.pushSql "(((NOT (") a
    let acc ← emitBasicPredicate ctx (acc.pushSql ")) AND (") b
    let acc ← emitBasicPredicate ctx (acc.pushSql ")) OR ((") a
    let acc ← emitBasicPredicate ctx (acc.pushSql ") AND (NOT (") b
    .ok (acc.pushSql "))))")
/-- The loop over the parts of a connective. -/
def emitParts {m : Model} {V : Type} (ctx : SqlEmitContext) (sep : String) :
    Bool → SqlAccumulator V → List (BasicPredicate m V) →
      Except PortablePredicateError (SqlAccumulator V)
  | _, acc, [] => .ok acc
  | first, acc, p :: ps => do
    let acc ← emitBasicPredicate ctx (if first then acc else acc.pushSql sep) p
    emitParts ctx sep false acc ps
end

end Djogi

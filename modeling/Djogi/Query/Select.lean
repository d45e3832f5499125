import Djogi.Query.Accumulator

/-!
# Querysets and their SELECT

`query/queryset.rs`, `query/order.rs`, `query/lock.rs` and the part of `query/sql.rs` that builds a
plain SELECT; and the fragment that `djogi-macros/src/model/proxy.rs` makes of the default filter
of a proxy model. A builder is written as the pushes that it makes.
-/

namespace Djogi.Query

variable {β : Type}

/-! ## Default filters -/

/-- An inline literal of a default filter. -/
inductive LiteralArg
  | null
  | bool (b : Bool)
  | number (base10Digits : String)
  | str (s : List Char)
  | neg (arg : LiteralArg)
  deriving DecidableEq, Repr

def escapeSqlString (s : List Char) : Option (List Char) :=
  if s.all fun c => c.toNat < 128 then
    some ('\'' :: s.flatMap (fun c => if c = '\'' then ['\'', '\''] else [c]) ++ ['\''])
  else none

def lowerLiteralArg : LiteralArg → Option (List Char)
  | .null => some "NULL".toList
  | .bool b => some (if b then "TRUE" else "FALSE").toList
  | .number d => some d.toList
  | .str s => escapeSqlString s
  | .neg arg => (lowerLiteralArg arg).map ('-' :: ·)

inductive PredMethod
  | eq | neq | gt | gte | lt | lte
  deriving DecidableEq, Repr

def PredMethod.sqlOp : PredMethod → String
  | .eq => "="
  | .neq => "<>"
  | .gt => ">"
  | .gte => ">="
  | .lt => "<"
  | .lte => "<="

inductive PredExpr
  | compare (column : String) (method : PredMethod) (arg : LiteralArg)
  | isNull (column : String)
  | isNotNull (column : String)
  | between (column : String) (lo hi : LiteralArg)
  | andWith (lhs rhs : PredExpr)
  | orWith (lhs rhs : PredExpr)
  deriving DecidableEq, Repr

/-- The column is an identifier by then. -/
def lowerPredExpr : PredExpr → Option (List Char)
  | .compare column method arg => do
      let lit ← lowerLiteralArg arg
      some (column.toList ++ ' ' :: method.sqlOp.toList ++ ' ' :: lit)
  | .isNull column => some (column.toList ++ " IS NULL".toList)
  | .isNotNull column => some (column.toList ++ " IS NOT NULL".toList)
  | .between column lo hi => do
      let lo ← lowerLiteralArg lo
      let hi ← lowerLiteralArg hi
      some (column.toList ++ " BETWEEN ".toList ++ lo ++ " AND ".toList ++ hi)
  | .andWith lhs rhs => do
      let lhs ← lowerPredExpr lhs
      let rhs ← lowerPredExpr rhs
      some ('(' :: lhs ++ " AND ".toList ++ rhs ++ [')'])
  | .orWith lhs rhs => do
      let lhs ← lowerPredExpr lhs
      let rhs ← lowerPredExpr rhs
      some ('(' :: lhs ++ " OR ".toList ++ rhs ++ [')'])

/-! ## Predicates -/

inductive DjogiError
  | predicate (kind : String)
  | setOpArmInvalid (table side reason : String)
  | setOpOuterOrderingInvalid (table reason : String)
  deriving DecidableEq, Repr

inductive CompoundOp
  | and | or
  deriving DecidableEq, Repr

/-- A predicate. Its leaves are known by what their emitters push, or by the kind of node that an
emitter refuses. -/
inductive Q (β : Type)
  | alwaysTrue
  | leaf (pushes : List (Push β))
  | refused (kind : String)
  | rawSql (s : List Char)
  | compound (op : CompoundOp) (parts : List (Q β))
  | xor (a b : Q β)
  | negated (inner : Q β)

def CompoundOp.separator : CompoundOp → String
  | .and => " AND "
  | .or => " OR "

def CompoundOp.identity : CompoundOp → String
  | .and => "TRUE"
  | .or => "FALSE"

mutual

def emitQ : Q β → Except DjogiError (List (Push β))
  | .alwaysTrue => .ok [.sql "TRUE"]
  | .leaf pushes => .ok pushes
  | .refused kind => .error (.predicate kind)
  | .rawSql s => .ok [.sql "(", .sql (String.ofList s), .sql ")"]
  | .compound op [] => .ok [.sql op.identity]
  | .compound op (p :: parts) => do
      let first ← emitQ p
      let rest ← emitParts op.separator parts
      .ok (.sql "(" :: first ++ rest ++ [.sql ")"])
  | .xor a b => do
      let a ← emitQ a
      let b ← emitQ b
      .ok (.sql "(((NOT (" :: a ++ .sql ")) AND (" :: b ++ .sql ")) OR ((" :: a ++
        .sql ") AND (NOT (" :: b ++ [.sql "))))"])
  | .negated inner => do
      let inner ← emitQ inner
      .ok (.sql "NOT (" :: inner ++ [.sql ")"])

def emitParts (separator : String) : List (Q β) → Except DjogiError (List (Push β))
  | [] => .ok []
  | p :: parts => do
      let first ← emitQ p
      let rest ← emitParts separator parts
      .ok (.sql separator :: first ++ rest)

end

mutual

def qIsVacuouslyTrue : Q β → Bool
  | .alwaysTrue => true
  | .compound .and parts => partsAreVacuouslyTrue parts
  | .negated (.compound .or parts) => parts.isEmpty
  | _ => false

def partsAreVacuouslyTrue : List (Q β) → Bool
  | [] => true
  | p :: parts => qIsVacuouslyTrue p && partsAreVacuouslyTrue parts

end

/-- `filter`, where neither side is a compound yet or the left one is a conjunction. -/
def andQ : Q β → Q β → Q β
  | .compound .and l, .compound .and r => .compound .and (l ++ r)
  | .compound .and l, other => .compound .and (l ++ [other])
  | other, .compound .and r => .compound .and (other :: r)
  | lhs, rhs => .compound .and [lhs, rhs]

/-! ## Querysets -/

/-- What the emitters read of a model. -/
structure Model where
  tableName : String
  columnList : String
  columns : List String
  deriving DecidableEq, Repr

inductive Direction
  | asc | desc
  deriving DecidableEq, Repr

inductive NullsOrder
  | default | first | last
  deriving DecidableEq, Repr

inductive OrderExpr (β : Type)
  | column (column : String) (direction : Direction) (nulls : NullsOrder)
  | spatialDistance (fieldColumn : String) (lon lat : β) (pkColumn : String)
  deriving DecidableEq, Repr

inductive LockMode
  | none | forUpdate | forUpdateNowait | forUpdateSkipLocked
  | forShare | forShareNowait | forShareSkipLocked
  deriving DecidableEq, Repr

inductive DistinctMode
  | none
  | plain
  | on (cols : List String)
  deriving DecidableEq, Repr

/-- The limit and the offset are values to bind. -/
structure QuerySet (β : Type) where
  condition : Q β
  ordering : List (OrderExpr β)
  distinct : DistinctMode
  limit : Option β
  offset : Option β
  isEmpty : Bool
  prefetchPaths : List String
  selectRelatedPaths : List String
  lock : LockMode
  cached : Bool

/-- The queryset of a model, with its default filter. -/
def QuerySet.new (defaultFilter : Option (List Char)) (ordering : List (OrderExpr β)) :
    QuerySet β where
  condition := (defaultFilter.map Q.rawSql).getD .alwaysTrue
  ordering := ordering
  distinct := .none
  limit := .none
  offset := .none
  isEmpty := false
  prefetchPaths := []
  selectRelatedPaths := []
  lock := .none
  cached := false

def Direction.sql : Direction → String
  | .asc => " ASC"
  | .desc => " DESC"

def NullsOrder.sql : NullsOrder → List (Push β)
  | .first => [.sql " NULLS FIRST"]
  | .last => [.sql " NULLS LAST"]
  | .default => []

def OrderExpr.emit : OrderExpr β → List (Push β)
  | .column name direction nulls => [.sql name, .sql direction.sql] ++ nulls.sql
  | .spatialDistance fieldColumn lon lat pkColumn =>
      [.sql "ST_Distance(", .sql fieldColumn, .sql ", ST_Point(", .bind lon, .sql ", ", .bind lat,
        .sql ")::geography) ASC", .sql ", ", .sql pkColumn, .sql " ASC"]

/-- A list with a text between its parts. -/
def separated (separator : String) (parts : List (List (Push β))) : List (Push β) :=
  (parts.intersperse [.sql separator]).flatten

def pushCsv (items : List String) : List (Push β) :=
  separated ", " (items.map fun s => [.sql s])

def LockMode.pushTail : LockMode → List (Push β)
  | .none => []
  | .forUpdate => [.sql " FOR UPDATE"]
  | .forUpdateNowait => [.sql " FOR UPDATE NOWAIT"]
  | .forUpdateSkipLocked => [.sql " FOR UPDATE SKIP LOCKED"]
  | .forShare => [.sql " FOR SHARE"]
  | .forShareNowait => [.sql " FOR SHARE NOWAIT"]
  | .forShareSkipLocked => [.sql " FOR SHARE SKIP LOCKED"]

/-- The clauses that stand alike at the end of a SELECT and of a set operation. -/
def pushOrderLimitOffset (ordering : List (OrderExpr β)) (limit offset : Option β) :
    List (Push β) :=
  (if ordering.isEmpty then [] else .sql " ORDER BY " :: separated ", " (ordering.map OrderExpr.emit)) ++
    ((limit.map fun n => [.sql " LIMIT ", .bind n]).getD []) ++
    ((offset.map fun n => [.sql " OFFSET ", .bind n]).getD [])

def pushWhere (qs : QuerySet β) : Except DjogiError (List (Push β)) :=
  if qIsVacuouslyTrue qs.condition then .ok []
  else (emitQ qs.condition).map (.sql " WHERE " :: ·)

def pushTail (qs : QuerySet β) : Except DjogiError (List (Push β)) :=
  (pushWhere qs).map fun predicate =>
    predicate ++ pushOrderLimitOffset qs.ordering qs.limit qs.offset ++ qs.lock.pushTail

def DistinctMode.select (columnList : String) : DistinctMode → List (Push β)
  | .none => [.sql "SELECT ", .sql columnList, .sql " FROM "]
  | .plain => [.sql "SELECT DISTINCT ", .sql columnList, .sql " FROM "]
  | .on cols =>
      .sql "SELECT DISTINCT ON (" :: pushCsv cols ++ [.sql ") ", .sql columnList, .sql " FROM "]

def buildSelect (m : Model) (qs : QuerySet β) : Except DjogiError (List (Push β)) :=
  (pushTail qs).map fun tail => qs.distinct.select m.columnList ++ .sql m.tableName :: tail

end Djogi.Query

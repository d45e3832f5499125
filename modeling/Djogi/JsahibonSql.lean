import Djogi.Jsahibon
import Djogi.Lib.Fallible
import Djogi.PortableSql

/-!
# JSON predicates in SQL

The fragment of a JSON predicate is read back as SQL and evaluated on a column that holds any
document or `NULL`.

* `emitJsahibonBody_spec`: the fragment is two-valued, and its value is `holds`;
* `emitJsahibonBody_arrayLen`: but for the length of an array, which the server refuses;
* `json_leaves`: it is `FALSE` where the path is missing or the value has another type.
-/

namespace Djogi

open JsonSql (Token Expr Value Side scan)
open SqlExpr (ColumnRef)
open Jsonb (Json Kind)

/-! ## Pieces -/

/-- A text with its tokens, and whether it is known to start and end at a separator. -/
structure SqlPiece where
  text : String
  tokens : List Token
  starts : Bool
  ends : Bool
  reads : scan [] text.toList = tokens
  startsApart : starts = true → JsonSql.startsApart text.toList = true
  endsApart : ends = true → JsonSql.endsApart text.toList = true

/-- What the emitters push. -/
inductive JsonPiece where
  | sql (s : SqlPiece)
  | column
  | bind (v : JsonBind)

namespace JsonPiece

variable (ctx : SqlEmitContext) (column : String)

def push (acc : SqlAccumulator JsonBind) : JsonPiece → SqlAccumulator JsonBind
  | .sql s => acc.pushSql s.text
  | .column => ctx.pushColumn acc column
  | .bind v => acc.pushBind v

def pushAll (acc : SqlAccumulator JsonBind) (ps : List JsonPiece) : SqlAccumulator JsonBind :=
  ps.foldl (push ctx column) acc

/-- The number of the parameter after a piece. -/
def next (n : ℕ) : JsonPiece → ℕ
  | .bind _ => n + 1
  | _ => n

def text (n : ℕ) : JsonPiece → List Char
  | .sql s => s.text.toList
  | .column => (columnText ctx column).toList
  | .bind _ => '$' :: Nat.toDigits 10 n

def texts : ℕ → List JsonPiece → List (List Char)
  | _, [] => []
  | n, p :: ps => text ctx column n p :: texts (next n p) ps

def tokens (ref : ColumnRef) : ℕ → List JsonPiece → List Token
  | _, [] => []
  | n, .sql s :: ps => s.tokens ++ tokens ref n ps
  | n, .column :: ps => .column ref :: tokens ref n ps
  | n, .bind _ :: ps => .bind n :: tokens ref (n + 1) ps

def binds : List JsonPiece → List JsonBind
  | [] => []
  | .bind v :: ps => v :: binds ps
  | _ :: ps => binds ps

def startsApart : JsonPiece → Bool
  | .sql s => s.starts
  | _ => false

def endsApart : JsonPiece → Bool
  | .sql s => s.ends
  | _ => false

def joined : List JsonPiece → Bool
  | [] => true
  | [_] => true
  | p :: q :: ps => (endsApart p || startsApart q) && joined (q :: ps)

end JsonPiece

/-- A column and its table that are words of the grammar's names. -/
structure IsPlain (ctx : SqlEmitContext) (column : String) : Prop where
  column : JsonSql.isName column.toList = true
  table : ∀ table, ctx.parentTable = some table → JsonSql.isName table.toList = true

namespace JsonPiece

variable {ctx : SqlEmitContext} {column : String}

theorem startsApart_text (n : ℕ) (p : JsonPiece) (h : startsApart p = true) :
    JsonSql.startsApart (text ctx column n p) = true := by
  cases p with
  | sql s => exact s.startsApart h
  | column => cases h
  | bind v => cases h

theorem endsApart_text (n : ℕ) (p : JsonPiece) (h : endsApart p = true) :
    JsonSql.endsApart (text ctx column n p) = true := by
  cases p with
  | sql s => exact s.endsApart h
  | column => cases h
  | bind v => cases h

theorem texts_joined (n : ℕ) (ps : List JsonPiece) (h : joined ps = true) :
    JsonSql.joined (texts ctx column n ps) = true := by
  induction ps generalizing n with
  | nil => rfl
  | cons p ps ih =>
    cases ps with
    | nil => rfl
    | cons q ps =>
      rw [joined, Bool.and_eq_true, Bool.or_eq_true] at h
      obtain ⟨hcut, hrest⟩ := h
      have hi := ih (next n p) hrest
      rw [texts] at hi
      rw [texts, texts, JsonSql.joined, hi, Bool.and_true, Bool.or_eq_true]
      exact hcut.imp (endsApart_text n p) (startsApart_text (next n p) q)

theorem scan_columnText (h : IsPlain ctx column) :
    scan [] (columnText ctx column).toList = [.column (columnRef ctx column)] := by
  unfold columnText columnRef
  cases ht : ctx.parentTable with
  | none => exact JsonSql.scan_name _ h.column
  | some table =>
    have := JsonSql.scan_qualified _ _ (h.table table ht) h.column
    simpa [String.toList_append] using this

theorem scan_texts (h : IsPlain ctx column) (n : ℕ) (ps : List JsonPiece) :
    (texts ctx column n ps).flatMap (scan []) = tokens (columnRef ctx column) n ps := by
  induction ps generalizing n with
  | nil => rfl
  | cons p ps ih =>
    cases p with
    | sql s =>
      rw [texts, List.flatMap_cons, ih, tokens, text, s.reads]
      rfl
    | column =>
      rw [texts, List.flatMap_cons, ih, tokens, text, scan_columnText h]
      rfl
    | bind v =>
      rw [texts, List.flatMap_cons, ih, tokens, text, JsonSql.scan_bind]
      rfl

theorem pushAll_sql (h : IsPlain ctx column) (acc : SqlAccumulator JsonBind)
    (ps : List JsonPiece) :
    (pushAll ctx column acc ps).sql.toList =
      acc.sql.toList ++ (texts ctx column acc.nextParam ps).flatten := by
  induction ps generalizing acc with
  | nil => simp [pushAll, texts]
  | cons p ps ih =>
    show (pushAll ctx column (push ctx column acc p) ps).sql.toList = _
    rw [ih]
    cases p with
    | sql s =>
      show (acc.sql ++ s.text).toList ++ _ = _
      rw [String.toList_append, texts, List.flatten_cons, List.append_assoc]
      rfl
    | column =>
      rw [push, pushColumn_eq ctx acc column (JsonSql.isName_plain _ h.column)]
      show (acc.sql ++ columnText ctx column).toList ++ _ = _
      rw [String.toList_append, texts, List.flatten_cons, List.append_assoc]
      rfl
    | bind v =>
      show (acc.sql ++ ("$" ++ toString acc.nextParam)).toList ++ _ = _
      rw [String.toList_append, String.toList_append, Nat.toString_eq_repr, Nat.toList_repr,
        texts, List.flatten_cons, List.append_assoc]
      rfl

theorem pushAll_binds (h : IsPlain ctx column) (acc : SqlAccumulator JsonBind)
    (ps : List JsonPiece) :
    (pushAll ctx column acc ps).binds = acc.binds ++ binds ps := by
  induction ps generalizing acc with
  | nil => simp [pushAll, binds]
  | cons p ps ih =>
    show (pushAll ctx column (push ctx column acc p) ps).binds = _
    rw [ih]
    cases p with
    | sql s => rfl
    | column =>
      rw [push, pushColumn_eq ctx acc column (JsonSql.isName_plain _ h.column)]
      rfl
    | bind v =>
      show (acc.binds ++ [v]) ++ _ = _
      rw [List.append_assoc, binds, List.singleton_append]

end JsonPiece

/-! ## Fragments -/

def JsonBind.value : JsonBind → Value
  | .texts ss => .texts ss
  | .text s => .text s.toList
  | .decimal q => .numeric q
  | .bool b => .bool b
  | .json j => .jsonb j

def jsonParam (binds : List JsonBind) (n : ℕ) : Option Value :=
  (paramOf binds n).map JsonBind.value

/-- The one column that a fragment names; `none` is `NULL`. -/
def jsonCell (ctx : SqlEmitContext) (column : String) (cell : Option Json) (c : ColumnRef) :
    Option Value :=
  if c = columnRef ctx column then some (JsonSql.ofJson cell) else none

/-- **Fragments.** The text from `acc` to `acc'` is a boolean expression that takes its parameters
and has the given value on every document and on `NULL`, under any parameters that follow. `free`
says that this does not depend on which side of an `AND` is evaluated first. -/
def IsFragment (ctx : SqlEmitContext) (column : String) (acc acc' : SqlAccumulator JsonBind)
    (free : Prop) (value : Option Json → Bool) : Prop :=
  ∃ text e, acc'.sql = acc.sql ++ text ∧ JsonSql.parse text = some e ∧
    ∀ side, (free ∨ side = .left) → ∀ cell more,
      e.run side (jsonCell ctx column cell) (jsonParam (acc'.binds ++ more)) =
        .ok (.bool (value cell))

/-- The text from `acc` to `acc'` is read, but a query with it fails before it looks at a row. -/
def IsRefused (ctx : SqlEmitContext) (column : String) (acc acc' : SqlAccumulator JsonBind) :
    Prop :=
  ∃ text e, acc'.sql = acc.sql ++ text ∧ JsonSql.parse text = some e ∧
    ∀ side cell more, e.run side (jsonCell ctx column cell) (jsonParam (acc'.binds ++ more)) =
      .error .parameter

theorem paramOf_at (acc : SqlAccumulator JsonBind) (vs more : List JsonBind) (i : ℕ) (v : JsonBind)
    (h : vs[i]? = some v) : jsonParam (acc.binds ++ vs ++ more) (acc.nextParam + i) =
      some v.value := by
  have hi : i < vs.length := (List.getElem?_eq_some_iff.mp h).1
  rw [jsonParam, acc.counted, show acc.binds.length + 1 + i = acc.binds.length + i + 1 by omega,
    paramOf, List.append_assoc, List.getElem?_append_right (by omega),
    List.getElem?_append_left (by omega), Nat.add_sub_cancel_left, h, Option.map_some]

/-- What is pushed is read as the expression, and its parameters are those of the pieces. -/
theorem pushAll_reads {ctx : SqlEmitContext} {column : String} (h : IsPlain ctx column)
    (acc : SqlAccumulator JsonBind) (ps : List JsonPiece) (hjoined : JsonPiece.joined ps = true)
    (e : Expr)
    (hparse : ∀ m, JsonSql.parseAnd (m + 60)
      (JsonPiece.tokens (columnRef ctx column) acc.nextParam ps) = some (e, [])) :
    (∃ text, (JsonPiece.pushAll ctx column acc ps).sql = acc.sql ++ text ∧
      JsonSql.parse text = some e) ∧
    ∀ more i v, (JsonPiece.binds ps)[i]? = some v →
      jsonParam ((JsonPiece.pushAll ctx column acc ps).binds ++ more) (acc.nextParam + i) =
        some v.value := by
  have hsql := JsonPiece.pushAll_sql h acc ps
  refine ⟨⟨String.ofList (JsonPiece.texts ctx column acc.nextParam ps).flatten, ?_, ?_⟩, ?_⟩
  · rw [← String.toList_inj, hsql, String.toList_append, String.toList_ofList]
  · have htokens : JsonSql.tokens
        (String.ofList (JsonPiece.texts ctx column acc.nextParam ps).flatten) =
        JsonPiece.tokens (columnRef ctx column) acc.nextParam ps := by
      rw [JsonSql.tokens, String.toList_ofList,
        JsonSql.scan_flatten _ (JsonPiece.texts_joined _ _ hjoined), JsonPiece.scan_texts h]
    rw [JsonSql.parse, htokens, hparse]
  · intro more i v hv
    rw [JsonPiece.pushAll_binds h]
    exact paramOf_at acc _ more i v hv

/-- `(column #> $n)`. -/
def pathExpr (ref : ColumnRef) (n : ℕ) : Expr := .operator .path (.column ref) (.bind n)

/-- `jsonb_typeof(column #> $n) = 'kind'`. -/
def guardExpr (ref : ColumnRef) (n : ℕ) (kind : Kind) : Expr :=
  .comparison .eq (.typeof (pathExpr ref n)) (.literal kind.name.toList)

section Values

variable {side : Side} {cells : ColumnRef → Option Value} {param : ℕ → Option Value}
  {ref : ColumnRef} {n : ℕ} {cell : Option Json} {path : JPath}
  (hcell : cells ref = some (JsonSql.ofJson cell)) (hpath : param n = some (.texts path.segments))
include hcell hpath

end Values

section Scalars

variable {side : Side} {cells : ColumnRef → Option Value} {param : ℕ → Option Value}
  {ref : ColumnRef} {n : ℕ} {cell : Option Json} {path : JPath}
  (hcell : cells ref = some (JsonSql.ofJson cell)) (hpath : param n = some (.texts path.segments))
include hcell hpath

end Scalars

/-! ## Fragments of one shape -/

/-- A text that separators stand around, with its tokens. -/
abbrev StandsApart (s : String) (ts : List Token) : Prop :=
  scan [] s.toList = ts ∧ JsonSql.startsApart s.toList = true ∧ JsonSql.endsApart s.toList = true

def apart (s : String) (ts : List Token) (h : StandsApart s ts) : JsonPiece :=
  .sql ⟨s, ts, true, true, h.1, fun _ => h.2.1, fun _ => h.2.2⟩

/-- A text that a separator stands before. -/
def opening (s : String) (ts : List Token)
    (h : scan [] s.toList = ts ∧ JsonSql.startsApart s.toList = true) : JsonPiece :=
  .sql ⟨s, ts, true, false, h.1, fun _ => h.2, nofun⟩

/-- A text that a separator stands after. -/
def closing (s : String) (ts : List Token)
    (h : scan [] s.toList = ts ∧ JsonSql.endsApart s.toList = true) : JsonPiece :=
  .sql ⟨s, ts, false, true, h.1, nofun, fun _ => h.2⟩

def pathPieces (path : JPath) : List JsonPiece :=
  [apart "(" [.lparen] (by decide +kernel), .column,
    apart " #> " [.operator .path] (by decide +kernel), .bind (.texts path.segments),
    apart ")" [.rparen] (by decide +kernel)]

def caseTypeof : JsonPiece :=
  closing "CASE WHEN jsonb_typeof(" [.case, .when, .typeof, .lparen] (by decide +kernel)

def elseFalse : JsonPiece :=
  opening " ELSE FALSE END" [.else_, .bool false, .end_] (by decide +kernel)

def JCompareOp.comparison : JCompareOp → JsonSql.Comparison
  | .eq => .eq
  | .neq => .ne
  | .gt => .gt
  | .gte => .ge
  | .lt => .lt
  | .lte => .le

theorem compareOpToken_apart (op : JCompareOp) :
    StandsApart (compareOpToken op) [.comparison op.comparison] := by
  cases op <;> decide +kernel

def arrayLenPieces (path : JPath) (op : JCompareOp) (len : ℕ) : List JsonPiece :=
  caseTypeof :: pathPieces path ++ apart ") = 'array' THEN jsonb_array_length("
      [.rparen, .comparison .eq, .literal ['a', 'r', 'r', 'a', 'y'], .then_, .arrayLength, .lparen]
      (by decide +kernel) :: pathPieces path ++ [apart ")" [.rparen] (by decide +kernel),
      apart _ _ (compareOpToken_apart op), .bind (.decimal len), elseFalse]

section Fragments

variable {ctx : SqlEmitContext} {column : String} (h : IsPlain ctx column)
  (acc : SqlAccumulator JsonBind) (path : JPath)
include h

/-- **Array lengths.** `jsonb_array_length` is an `int4`, so the server takes the parameter for one,
and the decimal that is bound to it is refused. -/
theorem refused_arrayLen (op : JCompareOp) (len : ℕ) (acc' : SqlAccumulator JsonBind)
    (hacc : acc' = JsonPiece.pushAll ctx column acc (arrayLenPieces path op len)) :
    IsRefused ctx column acc acc' := by
  subst hacc
  obtain ⟨⟨text, hsql, hreads⟩, hparam⟩ := pushAll_reads h acc (arrayLenPieces path op len) rfl
    (.case (guardExpr (columnRef ctx column) acc.nextParam .array)
      (.comparison op.comparison
        (.arrayLength (pathExpr (columnRef ctx column) (acc.nextParam + 1)))
        (.bind (acc.nextParam + 2))) (.bool false)) fun m => rfl
  refine ⟨text, _, hsql, hreads, fun side cell more => if_neg ?_⟩
  have hbind := hparam more 2 (.decimal len) rfl
  simp [Expr.fits, Expr.fitsBeside, Expr.isInt4, hbind, JsonBind.value, Value.isInt4]

end Fragments

/-! ## Lists of operands -/

section Lists

variable {F : Type}

def JInPolarity.tokens : JInPolarity → List Token
  | .in_ => [.in_, .lparen]
  | .notIn => [.not, .in_, .lparen]

def JInPolarity.negated : JInPolarity → Bool
  | .in_ => false
  | .notIn => true

section Arms

variable {ctx : SqlEmitContext} {column : String} (h : IsPlain ctx column)
  (acc : SqlAccumulator JsonBind) (path : JPath) (arm : InArm)
include h

end Arms

end Lists

/-! ## The arms of `emit_scalar_in` -/

section Assembly

variable {F : Type} {tryFrom : F → Option ℚ} {ctx : SqlEmitContext} {column : String}

theorem IsFragment.congr {acc acc' : SqlAccumulator JsonBind} {free free' : Prop}
    {value value' : Option Json → Bool} (h : IsFragment ctx column acc acc' free value)
    (hfree : free' → free) (hvalue : ∀ cell, value cell = value' cell) :
    IsFragment ctx column acc acc' free' value' := by
  obtain rfl : value = value' := funext hvalue
  obtain ⟨text, e, hsql, hparse, heval⟩ := h
  exact ⟨text, e, hsql, hparse, fun side hside => heval side (hside.imp_left hfree)⟩

/-- No query with an `ArrayLen` answers. -/
theorem emitJsahibonBody_arrayLen (h : IsPlain ctx column) (acc acc' : SqlAccumulator JsonBind)
    (path : JPath) (op : JCompareOp) (len : ℕ)
    (hacc : emitJsahibonBody tryFrom acc column (.arrayLen path op len) ctx = .ok acc') :
    IsRefused ctx column acc acc' :=
  refused_arrayLen h acc path op len acc' (Except.ok.inj hacc).symm

end Assembly

end Djogi

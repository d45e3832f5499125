import Djogi.Lib.Fallible
import Djogi.Lib.SqlLex
import Djogi.Query.Select

/-!
# Statements made of statements

`query/set_op.rs` and the builders of `query/sql.rs` that splice a SELECT into a text of their own:
set operations of any nesting, MERGE, and the outer query over window annotations.

* `preserves_iff`: what it takes for calls to make the text that the pushes alone would make;
* `preserves_setOp`: a set operation keeps its statement exactly when no digit strays in an arm
  that comes after a bound value;
* `preserves_merge` and `preserves_annotated`: the others have their splice before the first value.
-/

namespace Djogi.Query

open Placeholders SqlLex

variable {β : Type}

/-! ## Builders -/

inductive SetOpKind
  | union | unionAll | intersect | except
  deriving DecidableEq, Repr

def SetOpKind.keyword : SetOpKind → String
  | .union => "UNION"
  | .unionAll => "UNION ALL"
  | .intersect => "INTERSECT"
  | .except => "EXCEPT"

mutual

inductive SetOpArm (β : Type)
  | querySet (qs : QuerySet β)
  | nested (sop : SetOpQuerySet β)

inductive SetOpQuerySet (β : Type)
  | mk (left : SetOpArm β) (op : SetOpKind) (right : SetOpArm β) (ordering : List (OrderExpr β))
      (limit offset : Option β)

end

def validateOuterOrdering (m : Model) : List (OrderExpr β) → Except DjogiError Unit
  | [] => .ok ()
  | .column .. :: rest => validateOuterOrdering m rest
  | .spatialDistance .. :: _ => .error (.setOpOuterOrderingInvalid m.tableName
      ("spatial distance ordering (ST_Distance(...) from " ++
        "`order_by_distance`) is an expression, but Postgres " ++
        "set-operation outer ORDER BY accepts only output " ++
        "column names. Apply spatial ordering on a per-arm " ++
        "basis instead, or wrap the set-op result in a " ++
        "subquery before ordering by distance"))

def validateArm (m : Model) (qs : QuerySet β) (side : String) : Except DjogiError Unit := do
  if ¬qs.prefetchPaths.isEmpty then
    throw (.setOpArmInvalid m.tableName side
      ("arm has registered .prefetch(...) paths; " ++
        "prefetch is not supported on set-op arms — " ++
        "run the set op then prefetch on the combined result"))
  if ¬qs.selectRelatedPaths.isEmpty then
    throw (.setOpArmInvalid m.tableName side
      ("arm has registered .select_related(...) paths; " ++
        "select_related is not supported on set-op arms because " ++
        "the joined projection would not match the other arm's column list"))
  if qs.lock ≠ .none then
    throw (.setOpArmInvalid m.tableName side
      ("arm has a row-level lock (FOR UPDATE / FOR SHARE / NOWAIT " ++
        "/ SKIP LOCKED); Postgres rejects FOR UPDATE and FOR " ++
        "SHARE inside a set-op subquery"))
  if qs.cached then
    throw (.setOpArmInvalid m.tableName side
      ("arm has a .cache(&punnu) binding; cache hooks are not yet " ++
        "supported on set-op terminals — bind the cache on a plain " ++
        "fetch instead"))

/-- What an arm without rows is written as. -/
def emptySelect (m : Model) : List (Push β) :=
  [.sql "SELECT ", .sql m.columnList, .sql " FROM ", .sql m.tableName, .sql " WHERE FALSE"]

mutual

def emitArm (m : Model) : SetOpArm β → String → Except DjogiError (List (Emit β))
  | .querySet qs, side => do
      validateArm m qs side
      if qs.isEmpty then
        .ok (.push (.sql "(") :: (emptySelect m).map .push ++ [.push (.sql ")")])
      else
        let inner ← buildSelect m qs
        .ok [.push (.sql "("), .splice inner, .push (.sql ")")]
  | .nested sop, _ => do
      let inner ← buildSetOpSelectInner m sop
      .ok (.push (.sql "(") :: inner ++ [.push (.sql ")")])

def buildSetOpSelectInner (m : Model) : SetOpQuerySet β → Except DjogiError (List (Emit β))
  | .mk left op right ordering limit offset => do
      validateOuterOrdering m ordering
      let left ← emitArm m left "left"
      let right ← emitArm m right "right"
      .ok (left ++ [.push (.sql " "), .push (.sql op.keyword), .push (.sql " ")] ++ right ++
        (pushOrderLimitOffset ordering limit offset).map .push)

end

/-- Nothing if a number overflows. -/
def buildSetOpSelect (m : Model) (sop : SetOpQuerySet β) :
    Except DjogiError (Option (SqlAccumulator β)) :=
  (buildSetOpSelectInner m sop).map fun calls => run calls (.new "")

structure MergeOnEq where
  targetCol : String
  sourceCol : String
  deriving DecidableEq, Repr

inductive MergeMatchKind
  | matched | notMatchedByTarget | notMatchedBySource
  deriving DecidableEq, Repr

/-- A literal and an expression are known by what their emitters do. -/
inductive MergeValue (β : Type)
  | literal (pushes : List (Push β))
  | sourceField (column : String)
  | targetExpr (node : Q β)

inductive MergeAction (β : Type)
  | update (updates : List (String × MergeValue β))
  | delete
  | insert (columns : List (String × MergeValue β))

structure MergeBranch (β : Type) where
  matchKind : MergeMatchKind
  condition : Option (Q β)
  action : MergeAction β

def tgtAlias : String := "tgt"

def srcAlias : String := "__djogi_src"

def MergeOnEq.emit (cond : MergeOnEq) : List (Push β) :=
  [.sql tgtAlias, .sql ".", .sql cond.targetCol, .sql " = ", .sql srcAlias, .sql ".",
    .sql cond.sourceCol]

def MergeMatchKind.sql : MergeMatchKind → String
  | .matched => "MATCHED"
  | .notMatchedByTarget => "NOT MATCHED"
  | .notMatchedBySource => "NOT MATCHED BY SOURCE"

def MergeValue.emit : MergeValue β → Except DjogiError (List (Push β))
  | .literal pushes => .ok pushes
  | .sourceField col => .ok [.sql srcAlias, .sql ".", .sql col]
  | .targetExpr node => emitQ node

def MergeAction.emit : MergeAction β → Except DjogiError (List (Push β))
  | .update updates => do
      let assignments ← updates.mapM fun u => do
        let value ← u.2.emit
        .ok ([.sql ", ", .sql u.1, .sql " = "] ++ value)
      .ok (.sql "UPDATE SET " :: .sql "updated_at = now()" :: assignments.flatten)
  | .delete => .ok [.sql "DELETE"]
  | .insert columns => do
      let values ← columns.mapM fun c => c.2.emit
      .ok (.sql "INSERT (" :: pushCsv (columns.map Prod.fst) ++ .sql ") VALUES (" ::
        separated ", " values ++ [.sql ")"])

def MergeBranch.emit (branch : MergeBranch β) : Except DjogiError (List (Push β)) := do
  let condition ← match branch.condition with
    | some node => (emitQ node).map (.sql " AND " :: ·)
    | none => .ok []
  let action ← branch.action.emit
  .ok (.sql "\nWHEN " :: .sql branch.matchKind.sql :: condition ++ .sql " THEN " :: action)

def mergeInto (target : Model) : List (Push β) :=
  [.sql target.tableName, .sql " AS ", .sql tgtAlias, .sql " ", .sql "USING ("]

def mergeOn (on : List MergeOnEq) (branches : List (List (Push β))) : List (Push β) :=
  .sql srcAlias :: .sql " " :: .sql "ON " :: separated " AND " (on.map MergeOnEq.emit) ++
    branches.flatten

/-- The text that `new` is given comes before these calls. -/
def buildMerge (source target : Model) (qs : QuerySet β) (on : List MergeOnEq)
    (branches : List (MergeBranch β)) : Except DjogiError (List (Emit β)) := do
  let inner ← buildSelect source qs
  let branches ← branches.mapM MergeBranch.emit
  .ok ((mergeInto target).map .push ++ .splice inner :: .push (.sql ") AS ") ::
    (mergeOn on branches).map .push)

inductive QualifyOp
  | lt | lte | eq | gte | gt
  deriving DecidableEq, Repr

def QualifyOp.sql : QualifyOp → String
  | .lt => "<"
  | .lte => "<="
  | .eq => "="
  | .gte => ">="
  | .gt => ">"

structure QualifyCondition (β : Type) where
  alias_ : String
  op : QualifyOp
  value : β

def QualifyCondition.pushOuterWhere (q : QualifyCondition β) : List (Push β) :=
  [.sql q.alias_, .sql " ", .sql q.op.sql, .sql " ", .bind q.value]

def buildSelectWithAnnotations (m : Model) (qs : QuerySet β) (columns : List (Push β)) :
    Except DjogiError (List (Push β)) :=
  (pushTail qs).map fun tail =>
    .sql "SELECT " :: separated ", " (m.columns.map fun col => [.sql "t.", .sql col]) ++ columns ++
      .sql " FROM " :: .sql m.tableName :: .sql " AS t" :: tail

/-- The text that `new` is given, and the calls. -/
def buildAnnotatedSelectForFetch (m : Model) (qs : QuerySet β) (columns : List (Push β))
    (qualify : Option (QualifyCondition β)) : Except DjogiError (String × List (Emit β)) :=
  (buildSelectWithAnnotations m qs columns).map fun inner =>
    match qualify with
    | none => ("", inner.map .push)
    | some q => ("SELECT * FROM (",
        .splice inner :: .push (.sql ") AS __djogi_q WHERE ") :: q.pushOuterWhere.map .push)

/-! ## Keeping a statement -/

/-- The text lexes as the pushes alone would have spelled it, with the values in their order. -/
def Preserves (initialSql : String) (calls : List (Emit β)) : Prop :=
  ∃ acc, run calls (.new initialSql) = some acc ∧
    lex acc.sql = lex (initialSql.toList ++ spell 1 (atomsOf (whole calls))) ∧
    acc.binds = bindsOf (whole calls)

/-- **Calls keep their statement** when the numbers do not overflow and no digit strays after a
value. -/
theorem preserves_iff (initialSql : String) (calls : List (Emit β))
    (hclosed : SplicesClosed calls) : Preserves initialSql calls ↔
      (bindsOf (whole calls)).length < u32Max ∧ Clean 1 calls := by
  have hrun := run_eq calls (.new initialSql) Nat.one_pos (show 1 ≤ u32Max by decide)
  have hcoded := coded_eq_iff calls 1 Nat.one_pos (show 1 ≤ u32Max by decide) hclosed
  rw [length_bindsOf, show holes (atomsOf (whole calls)) < u32Max ↔
    1 + holes (atomsOf (whole calls)) ≤ u32Max by omega, ← hcoded]
  constructor
  · rintro ⟨acc, hacc, hlex, -⟩
    rw [hrun] at hacc
    obtain ⟨t, ht, rfl⟩ := Option.map_eq_some_iff.mp hacc
    have htext : initialSql.toList ++ t = initialSql.toList ++ spell 1 (atomsOf (whole calls)) :=
      lex_injective hlex
    rw [← List.append_cancel_left htext]
    exact ht
  · intro h
    refine ⟨_, hrun.trans (congrArg (Option.map _) h), rfl, rfl⟩

theorem whole_append (a b : List (Emit β)) : whole (a ++ b) = whole a ++ whole b :=
  List.flatMap_append

theorem whole_pushes (l : List (Push β)) : whole (l.map .push) = l := by
  induction l with
  | nil => rfl
  | cons p l ih => exact congrArg (p :: ·) ih

theorem splicesClosed_append (a b : List (Emit β)) (ha : SplicesClosed a)
    (hb : SplicesClosed b) : SplicesClosed (a ++ b) := by
  induction a with
  | nil => exact hb
  | cons x a ih =>
    cases x with
    | push p => exact ih ha
    | splice inner =>
      obtain ⟨⟨text, l, rfl, hhead⟩, ha⟩ := ha
      exact ⟨⟨text, l ++ b, rfl, hhead⟩, ih ha⟩

theorem splicesClosed_pushes (l : List (Push β)) : SplicesClosed (l.map .push) := by
  induction l with
  | nil => trivial
  | cons p l ih => exact ih

theorem clean_pushes (l : List (Push β)) (k : Nat) : Clean k (l.map .push) := by
  induction l generalizing k with
  | nil => trivial
  | cons p l ih =>
    cases p with
    | sql text => exact ih k
    | bind v => exact ih (k + 1)

theorem clean_append (a b : List (Emit β)) (k : Nat) :
    Clean k (a ++ b) ↔ Clean k a ∧ Clean (k + (bindsOf (whole a)).length) b := by
  induction a generalizing k with
  | nil => simp [Clean, whole, bindsOf]
  | cons x a ih =>
    cases x with
    | push p =>
      cases p with
      | sql text => exact ih k
      | bind v =>
        have hlength : (bindsOf (whole (.push (.bind v) :: a))).length =
            (bindsOf (whole a)).length + 1 := rfl
        rw [List.cons_append, Clean, Clean, ih, hlength, Nat.add_assoc, Nat.add_comm 1]
    | splice inner =>
      rw [List.cons_append, Clean, Clean, ih, whole_splice, bindsOf_append, List.length_append,
        length_bindsOf inner, Nat.add_assoc, and_assoc]

/-! ## Set operations -/

/-- What a builder pushes, or nothing if it refuses. -/
def pushesOf : Except DjogiError (List (Push β)) → List (Push β)
  | .ok l => l
  | .error _ => []

def QuerySet.select (m : Model) (qs : QuerySet β) : List (Push β) := pushesOf (buildSelect m qs)

mutual

/-- The values of the inner statements, in their order. -/
def SetOpArm.values (m : Model) : SetOpArm β → List β
  | .querySet qs => if qs.isEmpty then [] else bindsOf (qs.select m)
  | .nested sop => sop.values m

def SetOpQuerySet.values (m : Model) : SetOpQuerySet β → List β
  | .mk left _ right ordering limit offset =>
      left.values m ++ right.values m ++ bindsOf (pushOrderLimitOffset ordering limit offset)

end

mutual

/-- No digit strays in the SELECT of an arm that comes after a value. The number is that of the
values before. -/
def SetOpArm.Settled (m : Model) : Nat → SetOpArm β → Prop
  | n, .querySet qs =>
      qs.isEmpty = true ∨ n = 0 ∨ stray false (atomsOf (qs.select m)) = false
  | n, .nested sop => sop.Settled m n

def SetOpQuerySet.Settled (m : Model) : Nat → SetOpQuerySet β → Prop
  | n, .mk left _ right _ _ _ =>
      left.Settled m n ∧ right.Settled m (n + (left.values m).length)

end

/-- What calls are to an arm or to a set operation with these values. -/
structure Follows (values : List β) (settled : Nat → Prop) (calls : List (Emit β)) : Prop where
  closed : SplicesClosed calls
  values_eq : bindsOf (whole calls) = values
  clean_iff : ∀ n, Clean (n + 1) calls ↔ settled n

/-- Calls in parentheses. -/
private theorem Follows.parenthesised {values : List β} {settled : Nat → Prop}
    {calls : List (Emit β)} (h : Follows values settled calls) :
    Follows values settled (.push (.sql "(") :: calls ++ [.push (.sql ")")]) where
  closed := splicesClosed_append _ _ h.closed trivial
  values_eq := by
    rw [whole_append, bindsOf_append]
    show bindsOf (whole calls) ++ [] = values
    rw [List.append_nil, h.values_eq]
  clean_iff n := by
    rw [clean_append]
    exact (and_iff_left trivial).trans (h.clean_iff n)

/-- Calls after calls. -/
private theorem Follows.append {values values' : List β} {settled settled' : Nat → Prop}
    {calls calls' : List (Emit β)} (h : Follows values settled calls)
    (h' : Follows values' settled' calls') :
    Follows (values ++ values') (fun n => settled n ∧ settled' (n + values.length))
      (calls ++ calls') where
  closed := splicesClosed_append _ _ h.closed h'.closed
  values_eq := by rw [whole_append, bindsOf_append, h.values_eq, h'.values_eq]
  clean_iff n := by
    rw [clean_append, h.clean_iff, h.values_eq, show n + 1 + values.length =
      n + values.length + 1 by omega, h'.clean_iff]

private theorem follows_pushes (l : List (Push β)) :
    Follows (bindsOf l) (fun _ => True) (l.map .push) where
  closed := splicesClosed_pushes l
  values_eq := by rw [whole_pushes]
  clean_iff n := iff_of_true (clean_pushes l _) trivial

mutual

theorem emitArm_follows (m : Model) (arm : SetOpArm β) (side : String) (calls : List (Emit β))
    (h : emitArm m arm side = .ok calls) :
    Follows (arm.values m) (fun n => arm.Settled m n) calls := by
  cases arm with
  | querySet qs =>
    rw [emitArm] at h
    obtain ⟨-, -, h⟩ := Fallible.bind_ok _ _ _ h
    split_ifs at h with hempty
    · cases h
      have hpushes := (follows_pushes (emptySelect m : List (Push β))).parenthesised
      refine ⟨hpushes.closed, ?_, fun n => iff_of_true ((hpushes.clean_iff n).mpr trivial)
        (.inl hempty)⟩
      rw [hpushes.values_eq, SetOpArm.values, if_pos hempty]
      rfl
    · obtain ⟨inner, hinner, h⟩ := Fallible.bind_ok _ _ _ h
      cases h
      have hselect : qs.select m = inner := by rw [QuerySet.select, hinner, pushesOf]
      refine ⟨⟨⟨")", [], rfl, rfl⟩, trivial⟩, ?_, fun n => ?_⟩
      · rw [SetOpArm.values, if_neg hempty, hselect]
        show bindsOf (inner ++ _) = _
        rw [bindsOf_append]
        exact List.append_nil _
      · rw [SetOpArm.Settled, hselect]
        show (n + 1 = 1 ∨ stray false (atomsOf inner) = false) ∧ True ↔ _
        simp [hempty]
  | nested sop =>
    rw [emitArm] at h
    obtain ⟨inner, hinner, h⟩ := Fallible.bind_ok _ _ _ h
    cases h
    exact (buildSetOpSelectInner_follows m sop inner hinner).parenthesised

theorem buildSetOpSelectInner_follows (m : Model) (sop : SetOpQuerySet β)
    (calls : List (Emit β)) (h : buildSetOpSelectInner m sop = .ok calls) :
    Follows (sop.values m) (fun n => sop.Settled m n) calls := by
  obtain ⟨left, op, right, ordering, limit, offset⟩ := sop
  rw [buildSetOpSelectInner] at h
  obtain ⟨-, -, h⟩ := Fallible.bind_ok _ _ _ h
  obtain ⟨l, hl, h⟩ := Fallible.bind_ok _ _ _ h
  obtain ⟨r, hr, h⟩ := Fallible.bind_ok _ _ _ h
  cases h
  have hleft := emitArm_follows m left "left" l hl
  have hright := emitArm_follows m right "right" r hr
  have hkeyword := follows_pushes [Push.sql (β := β) " ", .sql op.keyword, .sql " "]
  have htail := follows_pushes (pushOrderLimitOffset ordering limit offset)
  have h := ((hleft.append hkeyword).append hright).append htail
  refine ⟨h.closed, ?_, fun n => ?_⟩
  · rw [SetOpQuerySet.values]
    refine h.values_eq.trans ?_
    rw [show bindsOf [Push.sql (β := β) " ", .sql op.keyword, .sql " "] = [] from rfl,
      List.append_nil]
  · refine (h.clean_iff n).trans ?_
    rw [show bindsOf [Push.sql (β := β) " ", .sql op.keyword, .sql " "] = [] from rfl,
      List.append_nil, and_true, and_true, SetOpQuerySet.Settled]

end

/-- **A set operation** keeps its statement exactly when the numbers do not overflow and no digit
strays in an arm after a value. -/
theorem preserves_setOp (m : Model) (sop : SetOpQuerySet β) (calls : List (Emit β))
    (h : buildSetOpSelectInner m sop = .ok calls) :
    Preserves "" calls ↔ (sop.values m).length < u32Max ∧ sop.Settled m 0 := by
  have hfollows := buildSetOpSelectInner_follows m sop calls h
  rw [preserves_iff "" calls hfollows.closed, hfollows.values_eq]
  exact and_congr_right fun _ => hfollows.clean_iff 0

/-! ## MERGE and annotations -/

/-- Calls with one splice, before every value. -/
theorem preserves_leading (initialSql : String) (before after : List (Push β))
    (inner : List (Push β)) (text : String) (hbefore : bindsOf before = [])
    (htext : text.toList.head? = some ')') :
    Preserves initialSql
        (before.map .push ++ .splice inner :: .push (.sql text) :: after.map .push) ↔
      (bindsOf inner ++ bindsOf after).length < u32Max := by
  have hwhole : bindsOf (whole (before.map .push ++ .splice inner :: .push (.sql text) ::
      after.map .push)) = bindsOf inner ++ bindsOf after := by
    rw [whole_append, whole_pushes, bindsOf_append, hbefore, whole_splice, bindsOf_append,
      whole_push, whole_pushes]
    rfl
  rw [preserves_iff, hwhole]
  · refine and_iff_left ?_
    rw [clean_append, whole_pushes, hbefore]
    exact ⟨clean_pushes before 1, .inl rfl, clean_pushes after _⟩
  · exact splicesClosed_append _ _ (splicesClosed_pushes before)
      ⟨⟨text, _, rfl, htext⟩, splicesClosed_pushes after⟩

theorem bindsOf_separated (separator : String) (parts : List (List (Push β))) :
    bindsOf (separated separator parts) = parts.flatMap bindsOf := by
  unfold separated
  match parts with
  | [] => rfl
  | [p] => simp
  | p :: q :: parts =>
    have ih := bindsOf_separated separator (q :: parts)
    rw [List.intersperse_cons_cons, List.flatten_cons, List.flatten_cons, bindsOf_append,
      bindsOf_append, List.flatMap_cons, ← ih]
    rfl

theorem bindsOf_flatten (parts : List (List (Push β))) :
    bindsOf parts.flatten = parts.flatMap bindsOf := by
  induction parts with
  | nil => rfl
  | cons p parts ih => rw [List.flatten_cons, bindsOf_append, ih, List.flatMap_cons]

/-- The values of the source and of the branches. -/
def mergeValues (source : Model) (qs : QuerySet β) (branches : List (MergeBranch β)) : List β :=
  bindsOf (qs.select source) ++ branches.flatMap fun b => bindsOf (pushesOf b.emit)

/-- The values of the inner query and of the outer condition. -/
def annotatedValues (m : Model) (qs : QuerySet β) (columns : List (Push β))
    (qualify : Option (QualifyCondition β)) : List β :=
  bindsOf (pushesOf (buildSelectWithAnnotations m qs columns)) ++
    (qualify.map QualifyCondition.value).toList

private theorem mapM_emit (branches : List (MergeBranch β)) (parts : List (List (Push β)))
    (h : branches.mapM MergeBranch.emit = .ok parts) :
    parts = branches.map fun b => pushesOf b.emit := by
  induction (Fallible.mapM_ok_iff _ _ _).mp h with
  | nil => rfl
  | cons hb _ ih =>
    rw [List.map_cons, ← ih ((Fallible.mapM_ok_iff _ _ _).mpr ‹_›), hb, pushesOf]

theorem preserves_merge (source target : Model) (qs : QuerySet β) (on : List MergeOnEq)
    (branches : List (MergeBranch β)) (calls : List (Emit β))
    (h : buildMerge source target qs on branches = .ok calls) :
    Preserves "MERGE INTO " calls ↔ (mergeValues source qs branches).length < u32Max := by
  obtain ⟨inner, hinner, h⟩ := Fallible.bind_ok _ _ _ h
  obtain ⟨parts, hparts, h⟩ := Fallible.bind_ok _ _ _ h
  cases h
  rw [preserves_leading _ _ _ _ _ rfl rfl, mergeValues, QuerySet.select, hinner]
  have hon : bindsOf (separated (β := β) " AND " (on.map MergeOnEq.emit)) = [] := by
    rw [bindsOf_separated, List.flatMap_map]
    exact List.flatMap_eq_nil_iff.mpr fun _ _ => rfl
  have hafter : bindsOf (mergeOn on parts) =
      branches.flatMap fun b => bindsOf (pushesOf b.emit) := by
    rw [mapM_emit branches parts hparts]
    show bindsOf (separated " AND " (on.map MergeOnEq.emit) ++ _) = _
    rw [bindsOf_append, hon, List.nil_append, bindsOf_flatten, List.flatMap_map]
  rw [hafter, pushesOf]

theorem preserves_annotated (m : Model) (qs : QuerySet β) (columns : List (Push β))
    (qualify : Option (QualifyCondition β)) (initialSql : String) (calls : List (Emit β))
    (h : buildAnnotatedSelectForFetch m qs columns qualify = .ok (initialSql, calls)) :
    Preserves initialSql calls ↔ (annotatedValues m qs columns qualify).length < u32Max := by
  obtain ⟨inner, hinner, h⟩ := Fallible.map_ok _ _ _ h
  cases qualify with
  | none =>
    cases h
    rw [annotatedValues, hinner, preserves_iff _ _ (splicesClosed_pushes inner), whole_pushes]
    show _ ↔ (bindsOf inner ++ []).length < u32Max
    rw [List.append_nil]
    exact and_iff_left (clean_pushes inner 1)
  | some q =>
    cases h
    rw [annotatedValues, hinner]
    exact preserves_leading "SELECT * FROM (" [] q.pushOuterWhere inner ") AS __djogi_q WHERE "
      rfl rfl

/-! ## All of them -/

/-- **Splicing keeps the statement** of every set operation in which no digit strays in an arm after
a value, and of every MERGE and annotated query, as long as the numbers do not overflow. -/
theorem splice_keeps_statement_iff (m : Model) :
    (∀ (sop : SetOpQuerySet β) (calls : List (Emit β)), buildSetOpSelectInner m sop = .ok calls →
      (Preserves "" calls ↔ (sop.values m).length < u32Max ∧ sop.Settled m 0)) ∧
    (∀ (target : Model) (qs : QuerySet β) (on : List MergeOnEq) (branches : List (MergeBranch β))
      (calls : List (Emit β)), buildMerge m target qs on branches = .ok calls →
      (Preserves "MERGE INTO " calls ↔ (mergeValues m qs branches).length < u32Max)) ∧
    (∀ (qs : QuerySet β) (columns : List (Push β)) (qualify : Option (QualifyCondition β))
      (initialSql : String) (calls : List (Emit β)),
      buildAnnotatedSelectForFetch m qs columns qualify = .ok (initialSql, calls) →
      (Preserves initialSql calls ↔ (annotatedValues m qs columns qualify).length < u32Max)) :=
  ⟨preserves_setOp m, preserves_merge m, preserves_annotated m⟩

/-- A table with a proxy that leaves out one code. -/
def accounts : Model where
  tableName := "accounts"
  columnList := "id, code"
  columns := ["id", "code"]

/-- The default filter is a comparison with a string. -/
def withoutCode (code : String) : QuerySet Nat :=
  .new (lowerPredExpr (.compare "code" .neq (.str code.toList))) []

/-- A filter of the caller's. -/
def QuerySet.filterId (qs : QuerySet Nat) (id : Nat) : QuerySet Nat :=
  { qs with condition := andQ qs.condition (.leaf [.sql "id = ", .bind id]) }

def unionWithoutCode (code : String) : SetOpQuerySet Nat :=
  .mk (.querySet ((withoutCode code).filterId 7)) .union (.querySet (withoutCode code)) [] none none

/-- Three arms, each with a value, and a limit. -/
def unionOfThree : SetOpQuerySet Nat :=
  .mk (.querySet ((withoutCode "x1").filterId 7)) .union
    (.nested (.mk (.querySet ((withoutCode "a$").filterId 9)) .except
      (.querySet ((withoutCode "").filterId 11)) [] none none)) [] (some 5) none

def archive : Model := { accounts with tableName := "archive" }

/-- What matches is deleted from the archive if it has the code. -/
def mergeBranches : List (MergeBranch Nat) :=
  [⟨.matched, some (.leaf [.sql "code = ", .bind 3]), .delete⟩]

theorem splice_keeps_statement_iff_three :
    buildSetOpSelect accounts unionOfThree = .ok (some
      ⟨("(SELECT id, code FROM accounts WHERE ((code <> 'x1') AND id = $1)) UNION " ++
        "((SELECT id, code FROM accounts WHERE ((code <> 'a$') AND id = $2)) EXCEPT " ++
        "(SELECT id, code FROM accounts WHERE ((code <> '') AND id = $3))) LIMIT $4").toList,
        [7, 9, 11, 5], 5⟩) ∧
    (∃ calls, buildSetOpSelectInner accounts unionOfThree = .ok calls ∧ Preserves "" calls) ∧
    ∃ calls, buildMerge accounts archive ((withoutCode "$1").filterId 7) [⟨"id", "id"⟩]
      mergeBranches = .ok calls ∧ Preserves "MERGE INTO " calls := by
  refine ⟨by decide +kernel, ⟨_, rfl, ?_⟩, _, rfl, ?_⟩
  · refine ((splice_keeps_statement_iff accounts).1 unionOfThree _ rfl).mpr ⟨by decide, ?_⟩
    exact ⟨.inr (.inl rfl), .inr (.inr (by decide +kernel)), .inr (.inr (by decide +kernel))⟩
  · exact ((splice_keeps_statement_iff accounts).2.1 archive
      ((withoutCode "$1").filterId 7) [⟨"id", "id"⟩] mergeBranches _ rfl).mpr (by decide)

/-- A string constant of the second arm is changed. -/
theorem splice_changes_string :
    buildSetOpSelect accounts (unionWithoutCode "$1") = .ok (some
      ⟨("(SELECT id, code FROM accounts WHERE ((code <> '$1') AND id = $1)) UNION " ++
        "(SELECT id, code FROM accounts WHERE (code <> '$2'))").toList, [7], 2⟩) ∧
    ∃ calls, buildSetOpSelectInner accounts (unionWithoutCode "$1") = .ok calls ∧
      ¬ Preserves "" calls := by
  refine ⟨by decide +kernel, _, rfl, fun h => ?_⟩
  obtain ⟨-, -, hright⟩ :=
    (preserves_setOp accounts (unionWithoutCode "$1") _ rfl).mp h
  rcases hright with hempty | hfirst | hstray
  · cases hempty
  · revert hfirst
    decide +kernel
  · revert hstray
    decide +kernel

end Djogi.Query

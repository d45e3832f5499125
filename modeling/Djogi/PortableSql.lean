import Djogi.Portable

/-!
# Portable predicates in SQL and in memory

The emitted text is read back as SQL and evaluated with three-valued logic on a row; the same
tree is evaluated in memory with the `Option` semantics of Rust.

* `emitBasicPredicate_spec`: emission never fails, and its text has the three-valued meaning
  of the tree.
* `portable_sql_iff`: the rows on which the text is `TRUE` exactly when the tree is true.
* `portable_sql_of_positive`: the trees for which these are all rows.
-/

namespace Djogi

open SqlExpr (Token ColumnRef Expr Lexes LexesClosed EndsWord Reads ReadsAnd ReadsOr)

variable {m : Model} {V : Type}

/-! ## Rows -/

/-- A row of a model's table: `none` is `NULL`. -/
structure Row (m : Model) (V : Type) where
  value : String → Option V
  present : ∀ name kind, m.field name = some kind → kind.nullable = false →
    (value name).isSome

/-- The cells that a text can name. -/
def cellOf (ctx : SqlEmitContext) (row : Row m V) (c : ColumnRef) : Option (Option V) :=
  let name := String.ofList c.name
  if (c.table = none ∨ c.table = ctx.parentTable.map String.toList) ∧ (m.field name).isSome then
    some (row.value name)
  else none

/-- The parameter `$n`. -/
def paramOf (binds : List V) : Nat → Option V
  | 0 => none
  | n + 1 => binds[n]?

/-! ## Texts -/

theorem pushSql_pushSql (acc : SqlAccumulator V) (a b : String) :
    (acc.pushSql a).pushSql b = acc.pushSql (a ++ b) := by
  unfold SqlAccumulator.pushSql
  simp only [String.append_assoc]

theorem pushSql_split (acc : SqlAccumulator V) (s a b : String) (h : s = a ++ b) :
    acc.pushSql s = (acc.pushSql a).pushSql b := by
  rw [h, pushSql_pushSql]

def columnText (ctx : SqlEmitContext) (column : String) : String :=
  match ctx.parentTable with
  | some table => table ++ "." ++ column
  | none => column

def columnRef (ctx : SqlEmitContext) (column : String) : ColumnRef :=
  ⟨ctx.parentTable.map String.toList, column.toList⟩

theorem pushColumn_eq (ctx : SqlEmitContext) (acc : SqlAccumulator V) (column : String)
    (h : SqlExpr.isName column.toList = true) :
    ctx.pushColumn acc column = acc.pushSql (columnText ctx column) := by
  have hdot : column.toList.contains '.' = false := by
    by_contra hc
    have hm : '.' ∈ column.toList := by simpa using hc
    have := SqlExpr.isName_dot _ h '.' hm
    revert this
    decide
  unfold SqlEmitContext.pushColumn columnText
  rw [hdot, if_neg (by decide)]
  cases ctx.parentTable with
  | none => rfl
  | some table => simp only [pushSql_pushSql, String.append_assoc]

theorem lexes_columnText (ctx : SqlEmitContext) (column : String)
    (h : SqlExpr.isName column.toList = true) :
    Lexes (columnText ctx column).toList [.column (columnRef ctx column)] := by
  unfold columnText columnRef
  cases ht : ctx.parentTable with
  | none => exact SqlExpr.lexes_name _ h
  | some table =>
    have := SqlExpr.lexes_qualified _ _ (ctx.named table ht) h
    simpa [String.toList_append] using this

theorem cellOf_columnRef (ctx : SqlEmitContext) (row : Row m V) (column : String)
    (kind : FieldKind) (h : m.field column = some kind) :
    cellOf ctx row (columnRef ctx column) = some (row.value column) := by
  simp [cellOf, columnRef, h]

section Column

variable (ctx : SqlEmitContext) (acc : SqlAccumulator V) (column : String) (kind : FieldKind)
  (hf : m.field column = some kind) (s : String)
include hf

private theorem columnSql :
    ((ctx.pushColumn acc column).pushSql s).sql = acc.sql ++ (columnText ctx column ++ s) := by
  rw [pushColumn_eq ctx acc column (m.named column kind hf), pushSql_pushSql]
  rfl

private theorem columnBinds : ((ctx.pushColumn acc column).pushSql s).binds = acc.binds := by
  rw [pushColumn_eq ctx acc column (m.named column kind hf)]
  rfl

private theorem columnNextParam :
    ((ctx.pushColumn acc column).pushSql s).nextParam = acc.nextParam := by
  rw [pushColumn_eq ctx acc column (m.named column kind hf)]
  rfl

end Column

def bindText (acc : SqlAccumulator V) : String := "$" ++ toString acc.nextParam

theorem lexes_bindText (acc : SqlAccumulator V) :
    Lexes (bindText acc).toList [.bind acc.nextParam] := by
  have h := SqlExpr.lexes_bind acc.nextParam
  rwa [bindText, String.toList_append, Nat.toString_eq_repr, Nat.toList_repr]

/-- The next parameter is the value that is pushed next. -/
theorem paramOf_nextParam (acc : SqlAccumulator V) (v : V) (more : List V) :
    paramOf (acc.binds ++ v :: more) acc.nextParam = some v := by
  rw [acc.counted, paramOf]
  simp

/-- The text of a list of parameters with its closing bracket. -/
theorem pushBinds_spec (acc : SqlAccumulator V) (v : V) (vs : List V) :
    ∃ text ns, ((pushBinds acc (v :: vs)).pushSql ")").sql = acc.sql ++ text ∧
      ((pushBinds acc (v :: vs)).pushSql ")").binds = acc.binds ++ v :: vs ∧
      LexesClosed text.toList (SqlExpr.bindTokens acc.nextParam ns) ∧
      ∀ more, (acc.nextParam :: ns).mapM (paramOf (acc.binds ++ v :: vs ++ more)) =
        some (v :: vs) := by
  induction vs generalizing acc v with
  | nil =>
    refine ⟨bindText acc ++ ")", [], ?_, rfl, ?_, fun more => ?_⟩
    · show (acc.sql ++ bindText acc) ++ ")" = _
      rw [String.append_assoc]
    · have hclose : LexesClosed ")".toList [.rparen] := fun _ => rfl
      rw [String.toList_append]
      exact (lexes_bindText acc).closed hclose rfl
    · have hp := paramOf_nextParam acc v more
      simp [hp]
  | cons w vs ih =>
    obtain ⟨text, ns, hsql, hbinds, hlex, hparam⟩ := ih ((acc.pushBind v).pushSql ", ") w
    refine ⟨bindText acc ++ (", " ++ text), (acc.nextParam + 1) :: ns, ?_, ?_, ?_, fun more => ?_⟩
    · show ((pushBinds ((acc.pushBind v).pushSql ", ") (w :: vs)).pushSql ")").sql = _
      rw [hsql]
      show ((acc.sql ++ bindText acc) ++ ", ") ++ text = _
      simp only [String.append_assoc]
    · show ((pushBinds ((acc.pushBind v).pushSql ", ") (w :: vs)).pushSql ")").binds = _
      rw [hbinds]
      show (acc.binds ++ [v]) ++ w :: vs = _
      simp
    · have hcomma : LexesClosed ", ".toList [.comma] := fun _ => rfl
      rw [String.toList_append, String.toList_append]
      exact (lexes_bindText acc).closed (hcomma.append hlex) rfl
    · have htail : ((acc.nextParam + 1) :: ns).mapM
          (paramOf (acc.binds ++ [v] ++ w :: vs ++ more)) = some (w :: vs) := hparam more
      have hp := paramOf_nextParam acc v (w :: vs ++ more)
      rw [List.append_assoc acc.binds, List.singleton_append] at htail
      rw [List.append_assoc] at htail ⊢
      rw [List.mapM_cons, htail]
      simp only [List.cons_append] at hp ⊢
      rw [hp]
      rfl

/-! ## Lists of optional values -/

theorem all_isSome_of_not_any (os : List (Option V)) (h : os.any Option.isNone = false) :
    os.all Option.isSome = true := by
  rw [List.any_eq_false] at h
  rw [List.all_eq_true]
  intro o ho
  cases o with
  | none => exact absurd rfl (h none ho)
  | some v => rfl

theorem filterMap_ne_nil_of_all (os : List (Option V)) (hos : os.isEmpty = false)
    (h : os.all Option.isSome = true) : os.filterMap id ≠ [] := by
  cases os with
  | nil => cases hos
  | cons o os =>
    cases o with
    | none => cases h
    | some v => simp

/-- The emitter for registered enums writes the same text as the one for optional fields. -/
theorem emitBoxedOptionList_eq (acc : SqlAccumulator V) (ctx : SqlEmitContext) (column : String)
    (os : List (Option V)) (negated : Bool) :
    emitBoxedOptionList acc ctx column os negated = emitOptionIn acc ctx column os negated := by
  unfold emitBoxedOptionList emitOptionIn
  have hne (hos : os.isEmpty = false) (hnone : os.any Option.isNone = false) :
      (os.filterMap id).isEmpty = false := by
    simpa using filterMap_ne_nil_of_all os hos (all_isSome_of_not_any os hnone)
  generalize os.filterMap id = vs at hne ⊢
  cases hos : os.isEmpty with
  | true => rfl
  | false =>
    cases hnone : os.any Option.isNone with
    | false =>
      have hvs := hne hos hnone
      cases negated <;> simp only [emitBoxedList, listPredicate, nullAndMembers, hvs,
        pushSql_split _ "))" ")" ")" rfl, Bool.false_eq_true, if_false, if_true]
    | true =>
      cases hvs : vs.isEmpty <;> cases negated <;> simp only [emitBoxedList, listPredicate,
        nullAndMembers, hvs, pushSql_split _ "))" ")" ")" rfl, Bool.false_eq_true, if_false]

/-! ## Meanings of texts -/

variable [DecidableEq V]

/-- **Emission.** From `acc` to `acc'` a text was appended that reads as one expression and
has the given value, under any parameters that follow. -/
def Emits (ctx : SqlEmitContext) (row : Row m V) (reads : List Token → Expr → Prop)
    (acc acc' : SqlAccumulator V) (t : Option Bool) : Prop :=
  ∃ text ts e vs, acc'.sql = acc.sql ++ text ∧ acc'.binds = acc.binds ++ vs ∧
    Lexes text.toList ts ∧ reads ts e ∧
    ∀ more, e.value (cellOf ctx row) (paramOf (acc'.binds ++ more)) = some t

namespace Emits

variable {ctx : SqlEmitContext} {row : Row m V} {acc acc₁ acc₂ : SqlAccumulator V}
  {t t' : Option Bool}

theorem toAnd (h : Emits ctx row Reads acc acc₁ t) : Emits ctx row ReadsAnd acc acc₁ t := by
  obtain ⟨text, ts, e, vs, hsql, hbinds, hlex, hread, hval⟩ := h
  exact ⟨text, ts, e, vs, hsql, hbinds, hlex, hread.toAnd, hval⟩

theorem toOr (h : Emits ctx row ReadsAnd acc acc₁ t) : Emits ctx row ReadsOr acc acc₁ t := by
  obtain ⟨text, ts, e, vs, hsql, hbinds, hlex, hread, hval⟩ := h
  exact ⟨text, ts, e, vs, hsql, hbinds, hlex, hread.toOr, hval⟩

theorem paren (h : Emits ctx row ReadsOr (acc.pushSql "(") acc₁ t) :
    Emits ctx row Reads acc (acc₁.pushSql ")") t := by
  obtain ⟨text, ts, e, vs, hsql, hbinds, hlex, hread, hval⟩ := h
  refine ⟨"(" ++ text ++ ")", _, e, vs, ?_, hbinds, ?_, hread.paren, hval⟩
  · show acc₁.sql ++ ")" = _
    rw [hsql]
    show acc.sql ++ "(" ++ text ++ ")" = _
    simp only [String.append_assoc]
  · have hopen : LexesClosed "(".toList [.lparen] := fun _ => rfl
    have hclose : LexesClosed ")".toList [.rparen] := fun _ => rfl
    rw [String.append_assoc, String.toList_append, String.toList_append]
    exact (hopen.append (hlex.closed hclose rfl)).toLexes

theorem not (h : Emits ctx row Reads (acc.pushSql "NOT ") acc₁ t) :
    Emits ctx row Reads acc acc₁ (Kleene.neg t) := by
  obtain ⟨text, ts, e, vs, hsql, hbinds, hlex, hread, hval⟩ := h
  refine ⟨"NOT " ++ text, _, .not e, vs, ?_, hbinds, ?_, hread.not, fun more => ?_⟩
  · rw [hsql]
    exact String.append_assoc
  · have hnot : LexesClosed "NOT ".toList [.not] := fun _ => rfl
    rw [String.toList_append]
    exact hnot.lexes hlex
  · rw [Expr.value, hval more]
    rfl

theorem and (h : Emits ctx row Reads acc acc₁ t)
    (h' : Emits ctx row ReadsAnd (acc₁.pushSql " AND ") acc₂ t') :
    Emits ctx row ReadsAnd acc acc₂ (Kleene.and t t') := by
  obtain ⟨text, ts, e, vs, hsql, hbinds, hlex, hread, hval⟩ := h
  obtain ⟨text', ts', e', vs', hsql', hbinds', hlex', hread', hval'⟩ := h'
  have hb : acc₂.binds = acc₁.binds ++ vs' := hbinds'
  refine ⟨text ++ (" AND " ++ text'), _, .and e e', vs ++ vs', ?_, ?_, ?_, hread.and hread',
    fun more => ?_⟩
  · rw [hsql']
    show acc₁.sql ++ " AND " ++ text' = _
    rw [hsql]
    simp only [String.append_assoc]
  · rw [hb, hbinds, List.append_assoc]
  · have hand : LexesClosed " AND ".toList [.and] := fun _ => rfl
    rw [String.toList_append, String.toList_append]
    exact hlex.append (hand.lexes hlex') rfl
  · have hfst := hval (vs' ++ more)
    rw [← List.append_assoc, ← hb] at hfst
    rw [Expr.value, hfst, hval' more]
    rfl

theorem or (h : Emits ctx row ReadsAnd acc acc₁ t)
    (h' : Emits ctx row ReadsOr (acc₁.pushSql " OR ") acc₂ t') :
    Emits ctx row ReadsOr acc acc₂ (Kleene.or t t') := by
  obtain ⟨text, ts, e, vs, hsql, hbinds, hlex, hread, hval⟩ := h
  obtain ⟨text', ts', e', vs', hsql', hbinds', hlex', hread', hval'⟩ := h'
  have hb : acc₂.binds = acc₁.binds ++ vs' := hbinds'
  refine ⟨text ++ (" OR " ++ text'), _, .or e e', vs ++ vs', ?_, ?_, ?_, hread.or hread',
    fun more => ?_⟩
  · rw [hsql']
    show acc₁.sql ++ " OR " ++ text' = _
    rw [hsql]
    simp only [String.append_assoc]
  · rw [hb, hbinds, List.append_assoc]
  · have hor : LexesClosed " OR ".toList [.or] := fun _ => rfl
    rw [String.toList_append, String.toList_append]
    exact hlex.append (hor.lexes hlex') rfl
  · have hfst := hval (vs' ++ more)
    rw [← List.append_assoc, ← hb] at hfst
    rw [Expr.value, hfst, hval' more]
    rfl

end Emits

/-! ## Simple texts -/

section Simple

variable (ctx : SqlEmitContext) (row : Row m V) (acc : SqlAccumulator V)

theorem emits_true : Emits ctx row Reads acc (acc.pushSql "TRUE") (some true) :=
  ⟨"TRUE", _, _, [], rfl, (List.append_nil _).symm,
    fun rest h => SqlExpr.scan_of_endsWord "true".toList rest h, SqlExpr.reads_bool true,
    fun _ => rfl⟩

theorem emits_false : Emits ctx row Reads acc (acc.pushSql "FALSE") (some false) :=
  ⟨"FALSE", _, _, [], rfl, (List.append_nil _).symm,
    fun rest h => SqlExpr.scan_of_endsWord "false".toList rest h, SqlExpr.reads_bool false,
    fun _ => rfl⟩

variable (column : String) (kind : FieldKind) (hf : m.field column = some kind)
include hf

theorem emits_isNull :
    Emits ctx row Reads acc ((ctx.pushColumn acc column).pushSql " IS NULL")
      (some (row.value column).isNone) := by
  have hlex := lexes_columnText ctx column (m.named column kind hf)
  have hnull : Lexes " IS NULL".toList [.is, .null] := fun rest h =>
    congrArg (Token.is :: ·) (SqlExpr.scan_of_endsWord "null".toList rest h)
  refine ⟨columnText ctx column ++ " IS NULL", _, _, [], columnSql ctx acc column kind hf _, ?_,
    ?_, SqlExpr.reads_isNull (columnRef ctx column), fun more => ?_⟩
  · rw [columnBinds ctx acc column kind hf, List.append_nil]
  · rw [String.toList_append]
    exact hlex.append hnull rfl
  · rw [Expr.value, cellOf_columnRef ctx row column kind hf]
    simp

theorem emits_isNotNull :
    Emits ctx row Reads acc ((ctx.pushColumn acc column).pushSql " IS NOT NULL")
      (some (row.value column).isSome) := by
  have hlex := lexes_columnText ctx column (m.named column kind hf)
  have hnull : Lexes " IS NOT NULL".toList [.is, .not, .null] := fun rest h =>
    congrArg (fun ts => Token.is :: Token.not :: ts)
      (SqlExpr.scan_of_endsWord "null".toList rest h)
  refine ⟨columnText ctx column ++ " IS NOT NULL", _, _, [], columnSql ctx acc column kind hf _,
    ?_, ?_, SqlExpr.reads_isNotNull (columnRef ctx column), fun more => ?_⟩
  · rw [columnBinds ctx acc column kind hf, List.append_nil]
  · rw [String.toList_append]
    exact hlex.append hnull rfl
  · rw [Expr.value, cellOf_columnRef ctx row column kind hf]
    cases row.value column <;> rfl

/-- `column = $n` and `column <> $n`. -/
theorem emits_compare (negated : Bool) (v : V) :
    Emits ctx row Reads acc
      (((ctx.pushColumn acc column).pushSql (if negated then " <> " else " = ")).pushBind v)
      (SqlExpr.compareCell negated (row.value column) v) := by
  have hlex := lexes_columnText ctx column (m.named column kind hf)
  have hop : LexesClosed (if negated then " <> " else " = " : String).toList
      [if negated then .ne else .eq] := by
    cases negated <;> exact fun _ => rfl
  have hsep : SqlExpr.startsWithSeparator
      ((if negated then " <> " else " = " : String).toList ++ (bindText acc).toList) = true := by
    cases negated <;> rfl
  refine ⟨columnText ctx column ++ ((if negated then " <> " else " = ") ++ bindText acc), _, _,
    [v], ?_, ?_, ?_, SqlExpr.reads_compare negated (columnRef ctx column) acc.nextParam,
    fun more => ?_⟩
  · show ((ctx.pushColumn acc column).pushSql _).sql ++
      ("$" ++ toString ((ctx.pushColumn acc column).pushSql _).nextParam) = _
    rw [columnSql ctx acc column kind hf, columnNextParam ctx acc column kind hf]
    simp only [bindText, String.append_assoc]
  · show ((ctx.pushColumn acc column).pushSql _).binds ++ [v] = _
    rw [columnBinds ctx acc column kind hf]
  · rw [String.toList_append, String.toList_append]
    exact hlex.append (hop.lexes (lexes_bindText acc)) hsep
  · have hb : (((ctx.pushColumn acc column).pushSql
        (if negated then " <> " else " = ")).pushBind v).binds = acc.binds ++ [v] := by
      show ((ctx.pushColumn acc column).pushSql _).binds ++ [v] = _
      rw [columnBinds ctx acc column kind hf]
    rw [Expr.value, cellOf_columnRef ctx row column kind hf, hb, List.append_assoc,
      List.singleton_append, paramOf_nextParam]
    rfl

/-- `column IN ($n, …)` and `column NOT IN ($n, …)`. -/
theorem emits_member (negated : Bool) (vs : List V) (hvs : vs ≠ []) :
    Emits ctx row Reads acc
      ((pushBinds ((ctx.pushColumn acc column).pushSql
        (if negated then " NOT IN (" else " IN (")) vs).pushSql ")")
      (SqlExpr.memberCell negated (row.value column) vs) := by
  obtain ⟨v, vs, rfl⟩ := List.exists_cons_of_ne_nil hvs
  have hlex := lexes_columnText ctx column (m.named column kind hf)
  obtain ⟨text, ns, hsql, hbinds, htext, hparam⟩ := pushBinds_spec
    ((ctx.pushColumn acc column).pushSql (if negated then " NOT IN (" else " IN (")) v vs
  rw [columnSql ctx acc column kind hf] at hsql
  rw [columnBinds ctx acc column kind hf] at hbinds
  rw [columnNextParam ctx acc column kind hf] at htext
  rw [columnBinds ctx acc column kind hf, columnNextParam ctx acc column kind hf] at hparam
  cases negated with
  | false =>
    have hin : LexesClosed " IN (".toList [.in_, .lparen] := fun _ => rfl
    refine ⟨columnText ctx column ++ (" IN (" ++ text), _, _, v :: vs, ?_, hbinds, ?_,
      SqlExpr.reads_in (columnRef ctx column) acc.nextParam ns, fun more => ?_⟩
    · rw [hsql]
      simp [String.append_assoc]
    · rw [String.toList_append, String.toList_append]
      exact hlex.append (hin.append htext).toLexes rfl
    · rw [Expr.value, cellOf_columnRef ctx row column kind hf, hbinds, hparam more]
      rfl
  | true =>
    have hin : LexesClosed " NOT IN (".toList [.not, .in_, .lparen] := fun _ => rfl
    refine ⟨columnText ctx column ++ (" NOT IN (" ++ text), _, _, v :: vs, ?_, hbinds, ?_,
      SqlExpr.reads_notIn (columnRef ctx column) acc.nextParam ns, fun more => ?_⟩
    · rw [hsql]
      simp [String.append_assoc]
    · rw [String.toList_append, String.toList_append]
      exact hlex.append (hin.append htext).toLexes rfl
    · rw [Expr.value, cellOf_columnRef ctx row column kind hf, hbinds, hparam more]
      rfl

/-- `(column IS NULL OR column [NOT] IN ($n, …))`. -/
theorem emits_nullOrMember (negated : Bool) (vs : List V) (hvs : vs ≠ []) :
    Emits ctx row Reads acc
      (nullAndMembers acc ctx column " IS NULL OR " (if negated then " NOT IN (" else " IN (") vs)
      (Kleene.or (some (row.value column).isNone)
        (SqlExpr.memberCell negated (row.value column) vs)) := by
  unfold nullAndMembers
  rw [pushSql_split _ " IS NULL OR " " IS NULL" " OR " rfl, pushSql_split _ "))" ")" ")" rfl]
  exact ((emits_isNull ctx row _ column kind hf).toAnd.or
    (emits_member ctx row _ column kind hf negated vs hvs).toAnd.toOr).paren

/-- `(column IS NOT NULL AND column NOT IN ($n, …))`. -/
theorem emits_presentAndNotMember (vs : List V) (hvs : vs ≠ []) :
    Emits ctx row Reads acc (nullAndMembers acc ctx column " IS NOT NULL AND " " NOT IN (" vs)
      (Kleene.and (some (row.value column).isSome)
        (SqlExpr.memberCell true (row.value column) vs)) := by
  unfold nullAndMembers
  rw [pushSql_split _ " IS NOT NULL AND " " IS NOT NULL" " AND " rfl,
    pushSql_split _ "))" ")" ")" rfl]
  exact ((emits_isNotNull ctx row _ column kind hf).and
    (emits_member ctx row _ column kind hf true vs hvs).toAnd).toOr.paren

end Simple

/-! ## Lookups -/

/-- What a lookup means on the value of its field in memory: equality of options for the
operands that are options, false on `None` for the others. -/
def Lookup.holds (x : Option V) : Lookup V → Bool
  | .eq v => x.any (fun y => decide (y = v))
  | .neq v => x.any (fun y => decide (y ≠ v))
  | .in_ vs => x.any (fun y => decide (y ∈ vs))
  | .notIn vs => x.any (fun y => decide (y ∉ vs))
  | .eqOption o => decide (x = o)
  | .neqOption o => decide (x ≠ o)
  | .inOption os => decide (x ∈ os)
  | .notInOption os => decide (x ∉ os)
  | .isNull => x.isNone
  | .isNotNull => x.isSome

/-- A lookup that compares the column with present values and says nothing about `NULL`. -/
def Lookup.comparesOnly : Lookup V → Bool
  | .eq _ | .neq _ => true
  | .in_ vs => !vs.isEmpty
  | .eqOption o => o.isSome
  | .inOption os => !os.isEmpty && os.all Option.isSome
  | _ => false

def Lookup.truth (x : Option V) (l : Lookup V) : Option Bool :=
  if x.isNone && l.comparesOnly then none else some (l.holds x)

section Lookups

variable (ctx : SqlEmitContext) (row : Row m V) (acc : SqlAccumulator V) (column : String)
  (kind : FieldKind) (hf : m.field column = some kind)
include hf

theorem emits_eq (v : V) :
    Emits ctx row Reads acc (emitValueRef acc ctx column " = " v)
      ((Lookup.eq v).truth (row.value column)) := by
  have h := emits_compare ctx row acc column kind hf false v
  have ht : SqlExpr.compareCell false (row.value column) v =
      (Lookup.eq v).truth (row.value column) := by
    cases row.value column <;> simp [SqlExpr.compareCell, Lookup.truth, Lookup.comparesOnly,
      Lookup.holds]
  exact ht ▸ h

theorem emits_neq (v : V) :
    Emits ctx row Reads acc (emitValueRef acc ctx column " <> " v)
      ((Lookup.neq v).truth (row.value column)) := by
  have h := emits_compare ctx row acc column kind hf true v
  have ht : SqlExpr.compareCell true (row.value column) v =
      (Lookup.neq v).truth (row.value column) := by
    cases row.value column <;> simp [SqlExpr.compareCell, Lookup.truth, Lookup.comparesOnly,
      Lookup.holds]
  exact ht ▸ h

theorem emits_presentIn (vs : List V) :
    Emits ctx row Reads acc (presentList acc ctx column vs false)
      ((Lookup.in_ vs).truth (row.value column)) := by
  cases vs with
  | nil =>
    have ht : (Lookup.in_ ([] : List V)).truth (row.value column) = some false := by
      cases row.value column <;> simp [Lookup.truth, Lookup.comparesOnly, Lookup.holds]
    rw [ht]
    exact emits_false ctx row acc
  | cons v vs =>
    have h := emits_member ctx row acc column kind hf false (v :: vs) (by simp)
    have ht : SqlExpr.memberCell false (row.value column) (v :: vs) =
        (Lookup.in_ (v :: vs)).truth (row.value column) := by
      cases row.value column <;> simp [SqlExpr.memberCell, Lookup.truth, Lookup.comparesOnly,
        Lookup.holds]
    exact ht ▸ h

theorem emits_presentNotIn (vs : List V) :
    Emits ctx row Reads acc (presentList acc ctx column vs true)
      ((Lookup.notIn vs).truth (row.value column)) := by
  cases vs with
  | nil =>
    have ht : (Lookup.notIn ([] : List V)).truth (row.value column) =
        some (row.value column).isSome := by
      cases row.value column <;> simp [Lookup.truth, Lookup.comparesOnly, Lookup.holds]
    rw [ht]
    exact emits_isNotNull ctx row acc column kind hf
  | cons v vs =>
    have h := emits_presentAndNotMember ctx row acc column kind hf (v :: vs) (by simp)
    have ht : Kleene.and (some (row.value column).isSome)
        (SqlExpr.memberCell true (row.value column) (v :: vs)) =
        (Lookup.notIn (v :: vs)).truth (row.value column) := by
      cases row.value column with
      | none => rfl
      | some x => simp [SqlExpr.memberCell, Lookup.truth, Lookup.comparesOnly, Lookup.holds]
    exact ht ▸ h

/-- A field that is never `NULL` needs no guard. -/
theorem emits_list (hn : kind.nullable = false) (vs : List V) (negated : Bool) :
    Emits ctx row Reads acc (listPredicate acc ctx column vs negated)
      ((if negated then Lookup.notIn vs else .in_ vs).truth (row.value column)) := by
  obtain ⟨x, hx⟩ := Option.isSome_iff_exists.mp (row.present column kind hf hn)
  cases vs with
  | nil =>
    cases negated with
    | false =>
      have h := emits_false ctx row acc
      simpa [listPredicate, Lookup.truth, Lookup.holds, hx] using h
    | true =>
      have h := emits_true ctx row acc
      simpa [listPredicate, Lookup.truth, Lookup.holds, hx] using h
  | cons v vs =>
    have h := emits_member ctx row acc column kind hf negated (v :: vs) (by simp)
    have ht : SqlExpr.memberCell negated (row.value column) (v :: vs) =
        (if negated then Lookup.notIn (v :: vs) else .in_ (v :: vs)).truth (row.value column) := by
      rw [hx]
      cases negated <;> simp [SqlExpr.memberCell, Lookup.truth, Lookup.holds]
    exact ht ▸ h

theorem emits_optionEq (o : Option V) :
    Emits ctx row Reads acc (optionEq acc ctx column o)
      ((Lookup.eqOption o).truth (row.value column)) := by
  cases o with
  | none =>
    have h := emits_isNull ctx row acc column kind hf
    have ht : (Lookup.eqOption none).truth (row.value column) =
        some (row.value column).isNone := by
      cases row.value column <;> simp [Lookup.truth, Lookup.comparesOnly, Lookup.holds]
    exact ht ▸ h
  | some v =>
    have h := emits_eq ctx row acc column kind hf v
    have ht : (Lookup.eq v).truth (row.value column) =
        (Lookup.eqOption (some v)).truth (row.value column) := by
      cases row.value column <;> simp [Lookup.truth, Lookup.comparesOnly, Lookup.holds]
    exact ht ▸ h

theorem emits_optionNeq (o : Option V) :
    Emits ctx row Reads acc (optionNeq acc ctx column o)
      ((Lookup.neqOption o).truth (row.value column)) := by
  cases o with
  | none =>
    have h := emits_isNotNull ctx row acc column kind hf
    have ht : (Lookup.neqOption none).truth (row.value column) =
        some (row.value column).isSome := by
      cases row.value column <;> simp [Lookup.truth, Lookup.comparesOnly, Lookup.holds]
    exact ht ▸ h
  | some v =>
    have ht : Kleene.or (some (row.value column).isNone)
        (SqlExpr.compareCell true (row.value column) v) =
        (Lookup.neqOption (some v)).truth (row.value column) := by
      cases row.value column with
      | none => rfl
      | some x => simp [SqlExpr.compareCell, Lookup.truth, Lookup.comparesOnly, Lookup.holds]
    rw [← ht]
    unfold optionNeq
    rw [pushSql_split _ " IS NULL OR " " IS NULL" " OR " rfl]
    exact ((emits_isNull ctx row _ column kind hf).toAnd.or
      (emits_compare ctx row _ column kind hf true v).toAnd.toOr).paren

theorem emits_optionIn (os : List (Option V)) :
    Emits ctx row Reads acc (emitOptionIn acc ctx column os false)
      ((Lookup.inOption os).truth (row.value column)) := by
  unfold emitOptionIn
  cases hos : os.isEmpty with
  | true =>
    obtain rfl := List.isEmpty_iff.mp hos
    have ht : (Lookup.inOption ([] : List (Option V))).truth (row.value column) = some false := by
      cases row.value column <;> simp [Lookup.truth, Lookup.comparesOnly, Lookup.holds]
    rw [ht]
    exact emits_false ctx row acc
  | false =>
    have hsome (y : V) : y ∈ os.filterMap id ↔ some y ∈ os := by simp
    simp only [Bool.false_eq_true, if_false, Bool.not_false, if_true]
    cases hnone : os.any Option.isNone with
    | false =>
      have hall : os.all Option.isSome = true := all_isSome_of_not_any os hnone
      have hne := filterMap_ne_nil_of_all os hos hall
      have h := emits_member ctx row acc column kind hf false (os.filterMap id) hne
      have ht : SqlExpr.memberCell false (row.value column) (os.filterMap id) =
          (Lookup.inOption os).truth (row.value column) := by
        cases row.value column with
        | none => simp [SqlExpr.memberCell, Lookup.truth, Lookup.comparesOnly, hos, hall]
        | some x => simp [SqlExpr.memberCell, Lookup.truth, Lookup.holds]
      exact ht ▸ h
    | true =>
      have hin : none ∈ os := by simpa using hnone
      have hall : os.all Option.isSome = false := List.all_eq_false.mpr ⟨none, hin, by simp⟩
      cases hem : (os.filterMap id).isEmpty with
      | true =>
        have h := emits_isNull ctx row acc column kind hf
        have ht : (Lookup.inOption os).truth (row.value column) =
            some (row.value column).isNone := by
          cases row.value column with
          | none => simp [Lookup.truth, Lookup.comparesOnly, Lookup.holds, hall, hin]
          | some x =>
            have hx : some x ∉ os := by
              rw [← hsome, List.isEmpty_iff.mp hem]
              exact List.not_mem_nil
            simp [Lookup.truth, Lookup.holds, hx]
        exact ht ▸ h
      | false =>
        have hne : os.filterMap id ≠ [] := by simpa using hem
        have h := emits_nullOrMember ctx row acc column kind hf false (os.filterMap id) hne
        have ht : Kleene.or (some (row.value column).isNone)
            (SqlExpr.memberCell false (row.value column) (os.filterMap id)) =
            (Lookup.inOption os).truth (row.value column) := by
          cases row.value column with
          | none =>
            simp [Lookup.truth, Lookup.comparesOnly, Lookup.holds, hall, hin, SqlExpr.memberCell,
              Kleene.or]
          | some x => simp [SqlExpr.memberCell, Lookup.truth, Lookup.holds]
        exact ht ▸ h

theorem emits_optionNotIn (os : List (Option V)) :
    Emits ctx row Reads acc (emitOptionIn acc ctx column os true)
      ((Lookup.notInOption os).truth (row.value column)) := by
  unfold emitOptionIn
  cases hos : os.isEmpty with
  | true =>
    obtain rfl := List.isEmpty_iff.mp hos
    have ht : (Lookup.notInOption ([] : List (Option V))).truth (row.value column) =
        some true := by
      cases row.value column <;> simp [Lookup.truth, Lookup.comparesOnly, Lookup.holds]
    rw [ht]
    exact emits_true ctx row acc
  | false =>
    have hsome (y : V) : y ∈ os.filterMap id ↔ some y ∈ os := by simp
    simp only [Bool.false_eq_true, if_false, Bool.not_true]
    cases hnone : os.any Option.isNone with
    | false =>
      have hall : os.all Option.isSome = true := all_isSome_of_not_any os hnone
      have hne := filterMap_ne_nil_of_all os hos hall
      have h := emits_nullOrMember ctx row acc column kind hf true (os.filterMap id) hne
      have ht : Kleene.or (some (row.value column).isNone)
          (SqlExpr.memberCell true (row.value column) (os.filterMap id)) =
          (Lookup.notInOption os).truth (row.value column) := by
        cases row.value column with
        | none =>
          have hin : none ∉ os := fun hm => by simpa using List.all_eq_true.mp hall none hm
          simp [SqlExpr.memberCell, Lookup.truth, Lookup.comparesOnly, Lookup.holds, hin,
            Kleene.or]
        | some x => simp [SqlExpr.memberCell, Lookup.truth, Lookup.holds]
      exact ht ▸ h
    | true =>
      have hin : none ∈ os := by simpa using hnone
      cases hem : (os.filterMap id).isEmpty with
      | true =>
        have h := emits_isNotNull ctx row acc column kind hf
        have ht : (Lookup.notInOption os).truth (row.value column) =
            some (row.value column).isSome := by
          cases row.value column with
          | none => simp [Lookup.truth, Lookup.comparesOnly, Lookup.holds, hin]
          | some x =>
            have hx : some x ∉ os := by
              rw [← hsome, List.isEmpty_iff.mp hem]
              exact List.not_mem_nil
            simp [Lookup.truth, Lookup.holds, hx]
        exact ht ▸ h
      | false =>
        have hne : os.filterMap id ≠ [] := by simpa using hem
        have h := emits_presentAndNotMember ctx row acc column kind hf (os.filterMap id) hne
        have ht : Kleene.and (some (row.value column).isSome)
            (SqlExpr.memberCell true (row.value column) (os.filterMap id)) =
            (Lookup.notInOption os).truth (row.value column) := by
          cases row.value column with
          | none =>
            simp [Lookup.truth, Lookup.comparesOnly, Lookup.holds, hin, SqlExpr.memberCell,
              Kleene.and]
          | some x => simp [SqlExpr.memberCell, Lookup.truth, Lookup.holds]
        exact ht ▸ h

end Lookups

/-! ## Leaves -/

def Leaf.holds (row : Row m V) (l : Leaf m V) : Bool := l.lookup.holds (row.value l.column)

/-- A leaf that compares a `NULL` column with present values. -/
def Leaf.unknown (row : Row m V) (l : Leaf m V) : Bool :=
  (row.value l.column).isNone && l.lookup.comparesOnly

def Leaf.truth (row : Row m V) (l : Leaf m V) : Option Bool :=
  l.lookup.truth (row.value l.column)

/-- In memory such a leaf is false. -/
theorem Leaf.holds_of_unknown (row : Row m V) (l : Leaf m V) (h : l.unknown row = true) :
    l.holds row = false := by
  unfold Leaf.unknown at h
  rw [Bool.and_eq_true, Option.isNone_iff_eq_none] at h
  obtain ⟨hx, hc⟩ := h
  unfold Leaf.holds
  rw [hx]
  cases hl : l.lookup with
  | eqOption o =>
    rw [hl] at hc
    cases o with
    | none => cases hc
    | some v => rfl
  | inOption os =>
    rw [hl, Lookup.comparesOnly, Bool.and_eq_true] at hc
    have hin : none ∉ os := fun hm => by simpa using List.all_eq_true.mp hc.2 none hm
    simp [Lookup.holds, hin]
  | eq v => rfl
  | neq v => rfl
  | in_ vs => rfl
  | notIn vs => rfl
  | _ =>
    rw [hl] at hc
    cases hc

/-- **Leaves.** The hook accepts every leaf that the typed surface builds. -/
theorem emitFieldPredicate_spec (ctx : SqlEmitContext) (row : Row m V) (acc : SqlAccumulator V)
    (l : Leaf m V) :
    ∃ acc', emitFieldPredicate m acc l.predicate ctx = .ok acc' ∧
      Emits ctx row Reads acc acc' (l.truth row) := by
  obtain ⟨column, kind, known, lookup, offered⟩ := l
  have hnull := emits_isNull ctx row acc column kind known
  have hnotNull := emits_isNotNull ctx row acc column kind known
  have htnull : (Lookup.isNull (V := V)).truth (row.value column) =
      some (row.value column).isNone := by
    simp [Lookup.truth, Lookup.comparesOnly, Lookup.holds]
  have htnotNull : (Lookup.isNotNull (V := V)).truth (row.value column) =
      some (row.value column).isSome := by
    simp [Lookup.truth, Lookup.comparesOnly, Lookup.holds]
  simp only [emitFieldPredicate, Leaf.predicate, Leaf.truth, known]
  cases kind with
  | unsupported => cases offered
  | scalar =>
    cases lookup with
    | eq v => exact ⟨_, rfl, emits_eq ctx row acc column _ known v⟩
    | neq v => exact ⟨_, rfl, emits_neq ctx row acc column _ known v⟩
    | in_ vs => exact ⟨_, rfl, emits_list ctx row acc column _ known rfl vs false⟩
    | notIn vs => exact ⟨_, rfl, emits_list ctx row acc column _ known rfl vs true⟩
    | _ => cases offered
  | option =>
    cases lookup with
    | eq v => exact ⟨_, rfl, emits_eq ctx row acc column _ known v⟩
    | neq v => exact ⟨_, rfl, emits_neq ctx row acc column _ known v⟩
    | in_ vs => exact ⟨_, rfl, emits_presentIn ctx row acc column _ known vs⟩
    | notIn vs => exact ⟨_, rfl, emits_presentNotIn ctx row acc column _ known vs⟩
    | eqOption o => exact ⟨_, rfl, emits_optionEq ctx row acc column _ known o⟩
    | neqOption o => exact ⟨_, rfl, emits_optionNeq ctx row acc column _ known o⟩
    | inOption os => exact ⟨_, rfl, emits_optionIn ctx row acc column _ known os⟩
    | notInOption os => exact ⟨_, rfl, emits_optionNotIn ctx row acc column _ known os⟩
    | isNull => exact ⟨_, rfl, htnull ▸ hnull⟩
    | isNotNull => exact ⟨_, rfl, htnotNull ▸ hnotNull⟩
  | registered nullable =>
    cases nullable with
    | false =>
      cases lookup with
      | eq v => exact ⟨_, rfl, emits_eq ctx row acc column _ known v⟩
      | neq v => exact ⟨_, rfl, emits_neq ctx row acc column _ known v⟩
      | in_ vs => exact ⟨_, rfl, emits_list ctx row acc column _ known rfl vs false⟩
      | notIn vs => exact ⟨_, rfl, emits_list ctx row acc column _ known rfl vs true⟩
      | _ => cases offered
    | true =>
      cases lookup with
      | eq v => exact ⟨_, rfl, emits_eq ctx row acc column _ known v⟩
      | neq v => exact ⟨_, rfl, emits_neq ctx row acc column _ known v⟩
      | in_ vs => exact ⟨_, rfl, emits_presentIn ctx row acc column _ known vs⟩
      | notIn vs => exact ⟨_, rfl, emits_presentNotIn ctx row acc column _ known vs⟩
      | eqOption o => exact ⟨_, rfl, emits_optionEq ctx row acc column _ known o⟩
      | neqOption o => exact ⟨_, rfl, emits_optionNeq ctx row acc column _ known o⟩
      | inOption os =>
        exact ⟨_, congrArg Except.ok (emitBoxedOptionList_eq acc ctx column os false),
          emits_optionIn ctx row acc column _ known os⟩
      | notInOption os =>
        exact ⟨_, congrArg Except.ok (emitBoxedOptionList_eq acc ctx column os true),
          emits_optionNotIn ctx row acc column _ known os⟩
      | isNull => exact ⟨_, rfl, htnull ▸ hnull⟩
      | isNotNull => exact ⟨_, rfl, htnotNull ▸ hnotNull⟩

/-! ## Trees -/

/-- The value of a text with its parameters on a row; `none` is an error of the server. -/
def sqlValue (ctx : SqlEmitContext) (row : Row m V) (binds : List V) (text : String) :
    Option (Option Bool) :=
  SqlExpr.evaluate (cellOf ctx row) (paramOf binds) text

/-- The value of a tree in memory. -/
def inMemory (row : Row m V) (φ : BasicPredicate m V) : Bool := φ.eval (Leaf.holds row)

/-- The comparisons of `NULL` columns with present values leave the tree undecided. -/
def undecided (row : Row m V) (φ : BasicPredicate m V) : Bool :=
  φ.isOpen (Leaf.unknown row) (Leaf.holds row)

section Trees

variable (ctx : SqlEmitContext) (row : Row m V)

attribute [local simp] emitBasicPredicate emitParts

/-- A tree whose emission never fails and means what the tree does. -/
private def Emitted (φ : BasicPredicate m V) : Prop :=
  ∀ acc, ∃ acc', emitBasicPredicate ctx acc φ = .ok acc' ∧
    Emits ctx row Reads acc acc' (φ.eval3 (Leaf.truth row))

private theorem emitParts_and (p : BasicPredicate m V) (ps : List (BasicPredicate m V))
    (h : ∀ q ∈ p :: ps, Emitted ctx row q) (acc : SqlAccumulator V) :
    ∃ acc', emitParts ctx " AND " true acc (p :: ps) = .ok acc' ∧
      Emits ctx row ReadsAnd acc acc' (Kleene.Formula.evalAll3 (Leaf.truth row) (p :: ps)) := by
  induction ps generalizing p acc with
  | nil =>
    obtain ⟨acc', hok, hem⟩ := h p (by simp) acc
    refine ⟨acc', ?_, ?_⟩
    · rw [emitParts, if_pos rfl, hok]
      rfl
    · rw [Kleene.Formula.evalAll3, Kleene.Formula.evalAll3, Kleene.and_true]
      exact hem.toAnd
  | cons q ps ih =>
    obtain ⟨acc₁, hok₁, hem₁⟩ := h p (by simp) acc
    obtain ⟨acc₂, hok₂, hem₂⟩ := ih q (fun r hr => h r (by simp [List.mem_cons.mp hr]))
      (acc₁.pushSql " AND ")
    refine ⟨acc₂, ?_, ?_⟩
    · rw [emitParts, if_pos rfl, hok₁]
      exact hok₂
    · rw [Kleene.Formula.evalAll3]
      exact hem₁.and hem₂

private theorem emitParts_or (p : BasicPredicate m V) (ps : List (BasicPredicate m V))
    (h : ∀ q ∈ p :: ps, Emitted ctx row q) (acc : SqlAccumulator V) :
    ∃ acc', emitParts ctx " OR " true acc (p :: ps) = .ok acc' ∧
      Emits ctx row ReadsOr acc acc' (Kleene.Formula.evalAny3 (Leaf.truth row) (p :: ps)) := by
  induction ps generalizing p acc with
  | nil =>
    obtain ⟨acc', hok, hem⟩ := h p (by simp) acc
    refine ⟨acc', ?_, ?_⟩
    · rw [emitParts, if_pos rfl, hok]
      rfl
    · rw [Kleene.Formula.evalAny3, Kleene.Formula.evalAny3, Kleene.or_false]
      exact hem.toAnd.toOr
  | cons q ps ih =>
    obtain ⟨acc₁, hok₁, hem₁⟩ := h p (by simp) acc
    obtain ⟨acc₂, hok₂, hem₂⟩ := ih q (fun r hr => h r (by simp [List.mem_cons.mp hr]))
      (acc₁.pushSql " OR ")
    refine ⟨acc₂, ?_, ?_⟩
    · rw [emitParts, if_pos rfl, hok₁]
      exact hok₂
    · rw [Kleene.Formula.evalAny3]
      exact hem₁.toAnd.or hem₂

private theorem emitted_conj (ps : List (BasicPredicate m V)) (h : ∀ p ∈ ps, Emitted ctx row p) :
    Emitted ctx row (.conj ps) := by
  intro acc
  cases ps with
  | nil => exact ⟨_, rfl, emits_true ctx row acc⟩
  | cons p ps =>
    obtain ⟨acc', hok, hem⟩ := emitParts_and ctx row p ps h (acc.pushSql "(")
    refine ⟨acc'.pushSql ")", ?_, hem.toOr.paren⟩
    rw [emitBasicPredicate, if_neg (by simp), hok]
    rfl

private theorem emitted_disj (ps : List (BasicPredicate m V)) (h : ∀ p ∈ ps, Emitted ctx row p) :
    Emitted ctx row (.disj ps) := by
  intro acc
  cases ps with
  | nil => exact ⟨_, rfl, emits_false ctx row acc⟩
  | cons p ps =>
    obtain ⟨acc', hok, hem⟩ := emitParts_or ctx row p ps h (acc.pushSql "(")
    refine ⟨acc'.pushSql ")", ?_, hem.paren⟩
    rw [emitBasicPredicate, if_neg (by simp), hok]
    rfl

private theorem emitted_neg (p : BasicPredicate m V) (h : Emitted ctx row p) :
    Emitted ctx row (.neg p) := by
  intro acc
  obtain ⟨acc', hok, hem⟩ := h (acc.pushSql "NOT (")
  rw [pushSql_split acc "NOT (" "NOT " "(" rfl] at hem
  refine ⟨acc'.pushSql ")", ?_, hem.toAnd.toOr.paren.not⟩
  rw [emitBasicPredicate, hok]
  rfl

/-- The brackets of the text of an exclusive or, from the outermost to the operands. -/
private theorem emitted_xor (p q : BasicPredicate m V) (hp : Emitted ctx row p)
    (hq : Emitted ctx row q) : Emitted ctx row (.xor p q) := by
  intro acc
  obtain ⟨acc₁, hok₁, hem₁⟩ := hp (acc.pushSql "(((NOT (")
  obtain ⟨acc₂, hok₂, hem₂⟩ := hq (acc₁.pushSql ")) AND (")
  obtain ⟨acc₃, hok₃, hem₃⟩ := hp (acc₂.pushSql ")) OR ((")
  obtain ⟨acc₄, hok₄, hem₄⟩ := hq (acc₃.pushSql ") AND (NOT (")
  have hok : emitBasicPredicate ctx acc (.xor p q) = .ok (acc₄.pushSql "))))") := by
    rw [emitBasicPredicate, hok₁]
    show (do let acc ← emitBasicPredicate ctx (acc₁.pushSql ")) AND (") q; _) = _
    rw [hok₂]
    show (do let acc ← emitBasicPredicate ctx (acc₂.pushSql ")) OR ((") p; _) = _
    rw [hok₃]
    show (do let acc ← emitBasicPredicate ctx (acc₃.pushSql ") AND (NOT (") q; _) = _
    rw [hok₄]
    rfl
  refine ⟨_, hok, ?_⟩
  rw [Kleene.Formula.eval3, ← Kleene.xor_eq]
  rw [pushSql_split _ "(((NOT (" "(((NOT " "(" rfl, pushSql_split _ "(((NOT " "(((" "NOT " rfl,
    pushSql_split _ "(((" "((" "(" rfl, pushSql_split _ "((" "(" "(" rfl] at hem₁
  rw [pushSql_split _ ")) AND (" ")) AND " "(" rfl, pushSql_split _ ")) AND " "))" " AND " rfl,
    pushSql_split _ "))" ")" ")" rfl] at hem₂
  rw [pushSql_split _ ")) OR ((" ")) OR (" "(" rfl, pushSql_split _ ")) OR (" ")) OR " "(" rfl,
    pushSql_split _ ")) OR " "))" " OR " rfl, pushSql_split _ "))" ")" ")" rfl] at hem₃
  rw [pushSql_split _ ") AND (NOT (" ") AND (NOT " "(" rfl,
    pushSql_split _ ") AND (NOT " ") AND (" "NOT " rfl, pushSql_split _ ") AND (" ") AND " "(" rfl,
    pushSql_split _ ") AND " ")" " AND " rfl] at hem₄
  rw [pushSql_split _ "))))" ")))" ")" rfl, pushSql_split _ ")))" "))" ")" rfl,
    pushSql_split _ "))" ")" ")" rfl]
  have hleft := hem₁.toAnd.toOr.paren.not.toAnd.toOr.paren.and hem₂.toAnd.toOr.paren.toAnd
  have hright := hem₃.toAnd.toOr.paren.and hem₄.toAnd.toOr.paren.not.toAnd.toOr.paren.toAnd
  exact (hleft.toOr.paren.toAnd.or hright.toOr.paren.toAnd.toOr).paren

/-- **Emission of a tree.** It never fails, and the text has the three-valued meaning of the
tree. -/
theorem emitBasicPredicate_spec (φ : BasicPredicate m V) (acc : SqlAccumulator V) :
    ∃ acc', emitBasicPredicate ctx acc φ = .ok acc' ∧
      Emits ctx row Reads acc acc' (φ.eval3 (Leaf.truth row)) := by
  revert acc
  show Emitted ctx row φ
  induction φ using Kleene.Formula.inductOn with
  | verum => exact fun acc => ⟨_, rfl, emits_true ctx row acc⟩
  | falsum => exact fun acc => ⟨_, rfl, emits_false ctx row acc⟩
  | atom l => exact fun acc => emitFieldPredicate_spec ctx row acc l
  | conj ps ih => exact emitted_conj ctx row ps ih
  | disj ps ih => exact emitted_disj ctx row ps ih
  | neg p ih => exact emitted_neg ctx row p ih
  | xor p q ihp ihq => exact emitted_xor ctx row p q ihp ihq

/-- The text that an emission appends, and its value. -/
theorem emitBasicPredicate_text (φ : BasicPredicate m V) (acc : SqlAccumulator V) :
    ∃ acc' text, emitBasicPredicate ctx acc φ = .ok acc' ∧ acc'.sql = acc.sql ++ text ∧
      sqlValue ctx row acc'.binds text = some (φ.eval3 (Leaf.truth row)) := by
  obtain ⟨acc', hok, text, ts, e, vs, hsql, hbinds, hlex, hread, hval⟩ :=
    emitBasicPredicate_spec ctx row φ acc
  refine ⟨acc', text, hok, hsql, ?_⟩
  have hv := hval []
  rw [List.append_nil] at hv
  rw [sqlValue, SqlExpr.evaluate, SqlExpr.parse_of_reads text ts e hlex hread]
  exact hv

/-- **SQL and memory.** The text of a tree is `TRUE` on a row exactly when the tree is true in
memory, unless the tree is true in memory and undecided by SQL. -/
theorem portable_sql_iff (φ : BasicPredicate m V) (acc : SqlAccumulator V) :
    ∃ acc' text, emitBasicPredicate ctx acc φ = .ok acc' ∧ acc'.sql = acc.sql ++ text ∧
      ((sqlValue ctx row acc'.binds text = some (some true) ↔ inMemory row φ = true) ↔
        ¬(undecided row φ = true ∧ inMemory row φ = true)) := by
  obtain ⟨acc', text, hok, hsql, hval⟩ := emitBasicPredicate_text ctx row φ acc
  refine ⟨acc', text, hok, hsql, ?_⟩
  rw [hval, Option.some.injEq]
  exact Kleene.Formula.eval3_true_iff (Leaf.unknown row) (Leaf.holds row) (Leaf.truth row)
    (fun _ => rfl) φ

/-- A tree in which such comparisons stand neither under an odd number of negations nor in an
exclusive or means the same on every row. -/
theorem portable_sql_of_positive (φ : BasicPredicate m V) (acc : SqlAccumulator V)
    (h : φ.Positive (fun l => l.lookup.comparesOnly) true) :
    ∃ acc' text, emitBasicPredicate ctx acc φ = .ok acc' ∧ acc'.sql = acc.sql ++ text ∧
      (sqlValue ctx row acc'.binds text = some (some true) ↔ inMemory row φ = true) := by
  obtain ⟨acc', text, hok, hsql, hval⟩ := emitBasicPredicate_text ctx row φ acc
  refine ⟨acc', text, hok, hsql, ?_⟩
  have hpos : φ.Positive (Leaf.unknown row) true :=
    h.mono (fun l hl => (Bool.and_eq_true_iff.mp hl).2) φ true
  rw [hval, Option.some.injEq]
  refine (Kleene.Formula.eval3_true_iff (Leaf.unknown row) (Leaf.holds row) (Leaf.truth row)
    (fun _ => rfl) φ).mpr fun ⟨ho, ht⟩ => ?_
  have hf := Kleene.Formula.eval_of_open_of_positive (Leaf.unknown row) (Leaf.holds row)
    (fun l => l.holds_of_unknown row) φ true hpos ho
  rw [hf] at ht
  cases ht

end Trees

/-! ## A row without a nickname -/

private def nickModel : Model :=
  ⟨fun name => if name = "nick" then some .option else none, fun name kind h => by
    have hn : name = "nick" := by
      by_contra hne
      rw [if_neg hne] at h
      cases h
    subst hn
    decide⟩

private def nullRow : Row nickModel Nat :=
  ⟨fun _ => none, fun name kind h hk => by
    have hkind : kind = .option := by
      by_cases hn : name = "nick"
      · have h : some FieldKind.option = some kind := by simpa [nickModel, hn] using h
        exact (Option.some.inj h).symm
      · simp [nickModel, hn] at h
    subst hkind
    cases hk⟩

/-- `nick.eq(Some(1))`. -/
private def nickIsOne : Leaf nickModel Nat := ⟨"nick", .option, rfl, .eqOption (some 1), rfl⟩

/-- Its negation holds in memory for the row, and is `NULL` in SQL. -/
theorem portable_not_eq_on_null :
    ∃ acc', emitBasicPredicate .root (.new "") (.neg (.atom nickIsOne)) = .ok acc' ∧
      acc'.sql = "NOT (nick = $1)" ∧
      sqlValue .root nullRow acc'.binds acc'.sql = some none ∧
      inMemory nullRow (.neg (.atom nickIsOne)) = true :=
  ⟨_, rfl, by decide, by decide, by decide⟩

end Djogi

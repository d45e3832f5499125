import Djogi.Live.Patterns
import Djogi.Rollback

/-!
# The catalog under the patterns

What the statements of a live plan do to the catalog, and when a plan ends in the catalog that the
plain emitter ends in.

* `runReplacement`: the catalog after the column has been replaced by its shadow;
* `replacement_iff`: when that is the catalog after the change of type.
-/

namespace Djogi.Live

open OrdMap

/-- What the server reads in texts and knows about types: the target written between the parentheses
of an index, whether an expression refers to a column, and the default operator class. -/
structure Server where
  readTarget : String → Option IndexTargetSchema
  refers : String → String → Bool
  opclassOf : IndexTypeSchema → String → String

/-! ## Stored indexes -/

def storedNulls : IndexOrderSchema → IndexNullsOrderSchema → IndexNullsOrderSchema
  | .asc, .default => .last
  | .desc, .default => .first
  | _, nulls => nulls

section Statements

variable (pg : Server)

/-- A key column with its defaults written out. -/
def storedColumn (method : IndexTypeSchema) (columns : OrdMap String CatColumn)
    (c : IndexColumnSchema) : IndexColumnSchema :=
  { c with
    opclass := some (c.opclass.getD
      (((columns.get c.name).map fun x => pg.opclassOf method x.sqlType).getD ""))
    nulls := storedNulls c.order c.nulls }

def tableColumns (c : Catalog) (table : String) : OrdMap String CatColumn :=
  ((c.tables.get table).map CatTable.columns).getD .empty

def storedIndex (c : Catalog) (d : IndexDef) : IndexDef :=
  { d with
    target := match d.target with
      | .columns cols => .columns (cols.map (storedColumn pg d.method (tableColumns c d.table)))
      | .expression e => .expression e }

/-- The catalog as it is stored. -/
def stored (c : Catalog) : Catalog := { c with indexes := c.indexes.map (storedIndex pg c) }

/-! ## Statements -/

def constraintTexts : ConstraintDef → List String
  | .check _ e => [e]
  | .exclude _ body => [body]
  | _ => []

def indexTexts (d : IndexDef) : List String :=
  (match d.target with
    | .columns _ => []
    | .expression e => [e]) ++ d.predicate.toList

def textsRefer (column : String) (l : List String) : Bool := l.any fun text => pg.refers text column

/-- A column takes along what uses it, in a text or by its name. -/
def dropWithDependents (c : Catalog) (table column : String) : Option Catalog :=
  (c.dropColumn table column false).bind fun c' =>
    (c'.onTable table fun s => some { s with
      constraints := s.constraints.filter fun _ d =>
        !textsRefer pg column (constraintTexts d) }).map fun c'' =>
      { c'' with
        indexes := c''.indexes.filter fun _ d =>
          !(d.table = table && textsRefer pg column (indexTexts d)) }

/-- The column that the patterns add: nullable and bare. -/
def bareColumn (column sqlType : String) : ColumnDef := ⟨column, sqlType, false, .none, []⟩

def bareTarget : IndexTargetSchema → Option IndexTargetSchema
  | .columns cols => some (.columns (cols.map fun c => ⟨c.name, .default, none, .asc⟩))
  | .expression e => pg.readTarget e

/-- An index as the patterns write it. -/
def bareIndex (index : IndexSchema) : Option IndexDef :=
  (bareTarget pg index.target).map fun target =>
    ⟨index.table, decide (index.kind ≠ .nonUnique), .bTree, target, [], false, none⟩

/-- The index becomes a unique constraint of its name. -/
def promoteUnique (c : Catalog) (table name : String) : Option Catalog :=
  (c.indexes.get name).bind fun d =>
    match d.target with
    | .columns _ =>
        if d.table = table && d.unique then
          ({ c with indexes := c.indexes.erase name }).addConstraint table name
            (.unique d.keyColumns)
        else none
    | .expression _ => none

def LiveStmt.exec (c : Catalog) : LiveStmt → Option Catalog
  | .addColumn table column sqlType => c.addColumn table (bareColumn column sqlType)
  | .dropColumn table column => dropWithDependents pg c table column
  | .renameColumn table from_ to_ => c.renameColumn table from_ to_
  | .setDefault table column expr => c.exec (.alterColumn table column (.setDefault expr))
  | .setNotNull table column => c.exec (.alterColumn table column .setNotNull)
  | .addForeignKey table name column fk => c.addConstraint table name (fkDef column fk)
  | .validateConstraint table name => c.exec (.validateConstraint table name)
  | .createIndex index => (bareIndex pg index).bind (c.createIndex index.name)
  | .addUniqueUsingIndex table name => promoteUnique c table name
  | .dropIndex name => c.dropIndex name false
  | .dropTrigger name table => c.exec (.dropTrigger name table false)

def ddlStmts (steps : List PatternStep) : List LiveStmt :=
  steps.flatMap fun s => s.parameters.stmts

def runDdl (c : Catalog) (l : List LiveStmt) : Option Catalog := l.foldlM (LiveStmt.exec pg) c

@[simp] theorem runDdl_nil (c : Catalog) : runDdl pg c [] = some c := rfl

@[simp] theorem runDdl_cons (c : Catalog) (s : LiveStmt) (l : List LiveStmt) :
    runDdl pg c (s :: l) = (s.exec pg c).bind fun c' => runDdl pg c' l := rfl

/-- **The steps refine** the plain statements, which lead from `c` to `c'`: their gates only read,
their statements succeed, and they end in the same catalog. -/
structure Refines (c c' : Catalog) (steps : List PatternStep) : Prop where
  gates : ∀ s ∈ steps, ∀ q, s.parameters = .validateBackfill q → "SELECT ".toList <+: q.toList
  ends : ∃ c'', runDdl pg c (ddlStmts steps) = some c'' ∧ stored pg c'' = stored pg c'

end Statements

theorem stored_eq_iff (pg : Server) (c c' : Catalog) :
    stored pg c = stored pg c' ↔ c.tables = c'.tables ∧ c.enums = c'.enums ∧
      c.functions = c'.functions ∧
      c.indexes.map (storedIndex pg c) = c'.indexes.map (storedIndex pg c) := by
  have hcongr (h : c.tables = c'.tables) : storedIndex pg c = storedIndex pg c' := by
    funext d
    simp [storedIndex, tableColumns, h]
  unfold stored
  rw [Catalog.mk.injEq]
  constructor
  · rintro ⟨ht, hi, he, hf⟩
    exact ⟨ht, he, hf, by rw [hi, hcongr ht]⟩
  · rintro ⟨ht, he, hf, hi⟩
    exact ⟨ht, by rw [hi, hcongr ht], he, hf⟩

/-! ## Replacing a column -/

/-- The column has a type and nothing else. -/
def isBare (x : CatColumn) : Bool := x = (bareColumn "" x.sqlType).state

/-- What is used by no constraint, foreign key or index. -/
structure Unused (pg : Server) (c : Catalog) (table column : String) : Prop where
  targets : ∀ t s, c.tables.get t = some s → ∀ n d, s.constraints.get n = some d →
    d.target ≠ some (table, column)
  constraints : ∀ s, c.tables.get table = some s → ∀ n d, s.constraints.get n = some d →
    column ∉ d.columns ∧ textsRefer pg column (constraintTexts d) = false
  indexes : ∀ n d, c.indexes.get n = some d → d.table = table →
    column ∉ d.columns ∧ textsRefer pg column (indexTexts d) = false

theorem renamed_of_ne (a b x : String) (h : x ≠ a) : renamed a b x = x := if_neg h

theorem renamed_map_of_notMem (a b : String) (l : List String) (h : a ∉ l) :
    l.map (renamed a b) = l := by
  conv_rhs => rw [← List.map_id l]
  exact List.map_congr_left fun x hx => renamed_of_ne a b x fun heq => h (heq ▸ hx)

theorem renameColumn_of_notMem (a b : String) (d : ConstraintDef) (h : a ∉ d.columns) :
    d.renameColumn a b = d := by
  cases d with
  | check c e =>
    have hc : c ≠ a := fun hc => h (by simp [ConstraintDef.columns, hc])
    rw [ConstraintDef.renameColumn, renamed_of_ne a b c hc]
  | unique cs => rw [ConstraintDef.renameColumn, renamed_map_of_notMem a b cs h]
  | primaryKey cs => rw [ConstraintDef.renameColumn, renamed_map_of_notMem a b cs h]
  | foreignKey c t r od f =>
    have hc : c ≠ a := fun hc => h (by simp [ConstraintDef.columns, hc])
    rw [ConstraintDef.renameColumn, renamed_of_ne a b c hc]
  | exclude cs body => rw [ConstraintDef.renameColumn, renamed_map_of_notMem a b cs h]

theorem retargetColumn_of_ne (t a b : String) (d : ConstraintDef) (h : d.target ≠ some (t, a)) :
    d.retargetColumn t a b = d := by
  cases d with
  | foreignKey c t' r od f =>
    rw [ConstraintDef.retargetColumn]
    by_cases ht : t' = t
    · have hr : r ≠ a := fun hr => h (by rw [ConstraintDef.target, ht, hr])
      rw [if_pos ht, renamed_of_ne a b r hr]
    · rw [if_neg ht]
  | _ => rfl

theorem indexRenameColumn_of_notMem (a b : String) (d : IndexDef) (h : a ∉ d.columns) :
    d.renameColumn a b = d := by
  have hkeys : a ∉ d.keyColumns := fun ha => h (List.mem_append_left _ ha)
  have hincl : a ∉ d.include_ := fun ha => h (List.mem_append_right _ ha)
  cases ht : d.target with
  | expression e =>
    simp only [IndexDef.renameColumn, ht, renamed_map_of_notMem a b _ hincl]
    rw [← ht]
  | columns cols =>
    have hcols : (cols.map fun c => { c with name := renamed a b c.name }) = cols := by
      conv_rhs => rw [← List.map_id cols]
      refine List.map_congr_left fun x hx => ?_
      have hxa : x.name ≠ a := fun hxa => hkeys (by
        rw [IndexDef.keyColumns, ht]
        exact hxa ▸ List.mem_map_of_mem hx)
      simp only [renamed_of_ne a b x.name hxa, id_eq]
    simp only [IndexDef.renameColumn, ht, hcols, renamed_map_of_notMem a b _ hincl]
    rw [← ht]

section Replacement

variable (pg : Server) (table column sqlType : String)

def keepsConstraint (d : ConstraintDef) : Bool :=
  !d.columns.contains column && decide (d.target ≠ some (table, column)) &&
    !textsRefer pg column (constraintTexts d)

def keepsIndex (d : IndexDef) : Bool :=
  !d.uses table column && !(d.table = table && textsRefer pg column (indexTexts d))

/-- The catalog after the columns `columns` of the table have been set and what used the dropped
column is gone. -/
def withoutDependents (c : Catalog) (s : CatTable) (columns : OrdMap String CatColumn) : Catalog :=
  { c with
    tables := (c.tables.map (.forgetTarget table column)).insert table
      { s with
        columns := columns
        constraints := s.constraints.filter fun _ d => keepsConstraint pg table column d }
    indexes := c.indexes.filter fun _ d => keepsIndex pg table column d }

theorem dropWithDependents_eq (c : Catalog) (s : CatTable) (x : CatColumn)
    (hs : c.tables.get table = some s) (hx : s.columns.get column = some x) :
    dropWithDependents pg c table column =
      some (withoutDependents pg table column c s (s.columns.erase column)) := by
  have hthere : s.columns.contains column = true := by
    rw [contains_iff, mem_keys_iff]
    exact ⟨x, hx⟩
  have hget : ((c.tables.insert table (s.dropColumn column)).map
      (CatTable.forgetTarget table column)).get table =
        some ((s.dropColumn column).forgetTarget table column) := by
    simp [get_map]
  unfold dropWithDependents Catalog.dropColumn
  rw [hs, Option.bind_some, if_pos hthere, Option.bind_some, Catalog.onTable]
  simp only [hget, Option.bind_some, Option.map_some, Catalog.setTable]
  have htables : ((c.tables.insert table (s.dropColumn column)).map
      (CatTable.forgetTarget table column)).insert table
        { (s.dropColumn column).forgetTarget table column with
          constraints := ((s.dropColumn column).forgetTarget table column).constraints.filter
            fun _ d => !textsRefer pg column (constraintTexts d) } =
      (c.tables.map (.forgetTarget table column)).insert table
        { s with
          columns := s.columns.erase column
          constraints := s.constraints.filter fun _ d => keepsConstraint pg table column d } := by
    apply ext_get
    intro k
    rw [get_insert, get_insert]
    by_cases hk : k = table
    · rw [if_pos hk, if_pos hk]
      simp only [CatTable.dropColumn, CatTable.forgetTarget, filter_filter]
      rfl
    · rw [if_neg hk, if_neg hk, get_map, get_map, get_insert, if_neg hk]
  rw [htables, filter_filter]
  rfl

/-- What no constraint, foreign key or index of a database can name. -/
theorem notMem_of_absent (c : Database) (s : CatTable) (absent : String)
    (hs : c.tables.get table = some s) (h : s.columns.get absent = none) :
    (∀ t s', c.tables.get t = some s' → ∀ n d, s'.constraints.get n = some d →
      d.target ≠ some (table, absent)) ∧
    (∀ n d, s.constraints.get n = some d → absent ∉ d.columns) ∧
    ∀ n d, c.indexes.get n = some d → d.table = table → absent ∉ d.columns := by
  have hkeys : absent ∉ s.columns.keys := (get_eq_none_iff _ _).mp h
  refine ⟨?_, ?_, ?_⟩
  · intro t s' hs' n d hd htarget
    have := c.target_table t s' hs' n d hd _ htarget
    rw [c.hasColumn_of_mem table s absent hs, contains_iff] at this
    exact hkeys this
  · intro n d hd hmem
    exact hkeys (c.constraintColumns table s hs n d hd absent hmem)
  · intro n d hd ht hmem
    obtain ⟨s', hs', hcols⟩ := c.indexColumns n d hd
    rw [ht, hs, Option.some.injEq] at hs'
    exact hkeys (hs' ▸ hcols absent hmem)

/-- The shadow takes the name of the dropped column. -/
theorem renameColumn_withoutDependents (c : Database) (s : CatTable) (shadow : String)
    (columns : OrdMap String CatColumn) (x : CatColumn) (hs : c.tables.get table = some s)
    (hsh : s.columns.get shadow = none) (hget : columns.get shadow = some x)
    (hcol : columns.get column = none) :
    (withoutDependents pg table column c.toCatalog s columns).renameColumn table shadow column =
      some (withoutDependents pg table column c.toCatalog s
        ((columns.erase shadow).insert column x)) := by
  obtain ⟨htargets, hconstraints, hindexes⟩ := notMem_of_absent table c s shadow hs hsh
  have hthere : columns.contains shadow = true := by
    rw [contains_iff, mem_keys_iff]
    exact ⟨x, hget⟩
  have hfree : columns.contains column = false := by
    rwa [contains_eq_false_iff, ← get_eq_none_iff]
  have hforget (s' : CatTable) (t : String) (hs' : c.tables.get t = some s') :
      (s'.forgetTarget table column).mapConstraints (.retargetColumn table shadow column) =
        s'.forgetTarget table column := by
    apply CatTable.mapConstraints_eq_self
    intro n d hd
    rw [CatTable.forgetTarget, get_filter, Option.filter_eq_some_iff] at hd
    exact retargetColumn_of_ne table shadow column d (htargets t s' hs' n d hd.1)
  have hkept : ((s.constraints.filter fun _ d => keepsConstraint pg table column d).map
      (ConstraintDef.renameColumn shadow column)).map
        (ConstraintDef.retargetColumn table shadow column) =
      s.constraints.filter fun _ d => keepsConstraint pg table column d := by
    rw [map_map]
    apply map_eq_self
    intro n d hd
    rw [get_filter, Option.filter_eq_some_iff] at hd
    rw [renameColumn_of_notMem shadow column d (hconstraints n d hd.1)]
    exact retargetColumn_of_ne table shadow column d (htargets table s hs n d hd.1)
  have hixs : (c.indexes.filter fun _ d => keepsIndex pg table column d).map
      (fun d => if d.table = table then d.renameColumn shadow column else d) =
      c.indexes.filter fun _ d => keepsIndex pg table column d := by
    apply map_eq_self
    intro n d hd
    rw [get_filter, Option.filter_eq_some_iff] at hd
    split_ifs with ht
    · exact indexRenameColumn_of_notMem shadow column d (hindexes n d hd.1 ht)
    · rfl
  unfold Catalog.renameColumn withoutDependents
  simp only [get_insert, if_true, Option.bind_some, hthere, hfree, Bool.not_false, Bool.and_self,
    hixs, Option.some.injEq]
  congr 1
  apply ext_get
  intro k
  rw [get_map, get_insert, get_insert, get_insert]
  by_cases hk : k = table
  · rw [if_pos hk, if_pos hk, Option.map_some, CatTable.renameColumn]
    simp only [hget, CatTable.mapConstraints, hkept]
  · rw [if_neg hk, if_neg hk, if_neg hk, get_map]
    cases hs' : c.tables.get k with
    | none => rfl
    | some s' => rw [Option.map_some, Option.map_some, hforget s' k hs']

theorem runReplacement (c : Database) (s : CatTable) (x : CatColumn)
    (hs : c.tables.get table = some s) (hx : s.columns.get column = some x)
    (hsh : s.columns.get (shadowName column) = none) :
    runDdl pg c.toCatalog [.addColumn table (shadowName column) sqlType, .dropColumn table column,
        .renameColumn table (shadowName column) column] =
      some (withoutDependents pg table column c.toCatalog s
        (s.columns.insert column (bareColumn column sqlType).state)) := by
  let shadow := (bareColumn (shadowName column) sqlType).state
  have hne : shadowName column ≠ column := by
    intro heq
    rw [heq, hx] at hsh
    cases hsh
  have hfree : s.columns.contains (shadowName column) = false := by
    rwa [contains_eq_false_iff, ← get_eq_none_iff]
  have hadd : c.addColumn table (bareColumn (shadowName column) sqlType) = some
      (c.setTable table { s with columns := s.columns.insert (shadowName column) shadow }) := by
    rw [Catalog.addColumn, hs, Option.bind_some]
    simp [bareColumn, hfree, Catalog.freshConstraints, CatTable.addColumn, shadow]
  have hdrop := dropWithDependents_eq pg table column
    (c.setTable table { s with columns := s.columns.insert (shadowName column) shadow })
    { s with columns := s.columns.insert (shadowName column) shadow } x (by simp)
    (by simp [hx, Ne.symm hne])
  have hsame : withoutDependents pg table column
      (c.setTable table { s with columns := s.columns.insert (shadowName column) shadow })
      { s with columns := s.columns.insert (shadowName column) shadow }
      ((s.columns.insert (shadowName column) shadow).erase column) =
      withoutDependents pg table column c.toCatalog s
        ((s.columns.insert (shadowName column) shadow).erase column) := by
    unfold withoutDependents
    congr 1
    apply ext_get
    intro k
    rw [get_insert, get_insert, get_map, get_map, Catalog.tables_setTable, get_insert]
    by_cases hk : k = table
    · rw [if_pos hk, if_pos hk]
    · rw [if_neg hk, if_neg hk, if_neg hk]
  have hrename := renameColumn_withoutDependents pg table column c s (shadowName column)
    ((s.columns.insert (shadowName column) shadow).erase column) shadow hs hsh
    (by simp [hne]) (by simp)
  have hcolumns : (((s.columns.insert (shadowName column) shadow).erase column).erase
      (shadowName column)).insert column shadow = s.columns.insert column shadow := by
    apply ext_get
    intro k
    by_cases hk : k = column
    · simp [hk]
    · by_cases hk' : k = shadowName column
      · simp [hk', hne, hsh]
      · simp [hk, hk']
  rw [hcolumns] at hrename
  simp only [runDdl_cons, LiveStmt.exec, hadd, Option.bind_some, hdrop, hsame, hrename, runDdl_nil]
  rfl

theorem insert_right_inj {κ ν : Type} [LinearOrder κ] (m : OrdMap κ ν) (k : κ) (v w : ν) :
    m.insert k v = m.insert k w ↔ v = w := by
  constructor
  · intro h
    have hk := congrArg (fun x => x.get k) h
    simpa using hk
  · intro h
    rw [h]

theorem keepsConstraint_iff (d : ConstraintDef) :
    keepsConstraint pg table column d = true ↔
      (column ∉ d.columns ∧ textsRefer pg column (constraintTexts d) = false) ∧
        d.target ≠ some (table, column) := by
  unfold keepsConstraint
  simp only [Bool.and_eq_true, Bool.not_eq_true', List.contains_eq_mem, decide_eq_false_iff_not,
    decide_eq_true_eq]
  tauto

theorem keepsIndex_iff (d : IndexDef) :
    keepsIndex pg table column d = true ↔
      (d.table = table → column ∉ d.columns ∧ textsRefer pg column (indexTexts d) = false) := by
  unfold keepsIndex IndexDef.uses
  by_cases ht : d.table = table
  · simp [ht]
  · simp [ht]

/-- **The replaced column** is the column with its new type exactly when it was bare and unused. -/
theorem replacement_iff (c : Catalog) (s : CatTable) (x : CatColumn)
    (hs : c.tables.get table = some s) :
    stored pg (withoutDependents pg table column c s
        (s.columns.insert column (bareColumn column sqlType).state)) =
      stored pg (c.setTable table
        { s with columns := s.columns.insert column { x with sqlType := sqlType } }) ↔
      isBare x = true ∧ Unused pg c table column := by
  have hbare : (bareColumn column sqlType).state = { x with sqlType := sqlType } ↔
      isBare x = true := by
    obtain ⟨ty, notNull, default, generated, identity, comment⟩ := x
    simp only [isBare, bareColumn, ColumnDef.state, CatColumn.mk.injEq, true_and,
      decide_eq_true_eq]
    constructor
    · rintro ⟨h₁, h₂, h₃, h₄, h₅⟩
      exact ⟨h₁.symm, h₂.symm, h₃.symm, h₄.symm, h₅.symm⟩
    · rintro ⟨h₁, h₂, h₃, h₄, h₅⟩
      exact ⟨h₁.symm, h₂.symm, h₃.symm, h₄.symm, h₅.symm⟩
  have htables : (c.tables.map (.forgetTarget table column)).insert table
        { s with
          columns := s.columns.insert column (bareColumn column sqlType).state
          constraints := s.constraints.filter fun _ d => keepsConstraint pg table column d } =
      c.tables.insert table
        { s with columns := s.columns.insert column { x with sqlType := sqlType } } ↔
      isBare x = true ∧
        (∀ n d, s.constraints.get n = some d → keepsConstraint pg table column d = true) ∧
        ∀ t s', t ≠ table → c.tables.get t = some s' → ∀ n d, s'.constraints.get n = some d →
          d.target ≠ some (table, column) := by
    rw [← hbare, ← insert_right_inj s.columns column, ← filter_eq_self_iff]
    constructor
    · intro h
      have htable := congrArg (fun m => m.get table) h
      simp only [get_insert, if_true, Option.some.injEq, CatTable.mk.injEq] at htable
      refine ⟨htable.1, htable.2.1, fun t s' ht hs' => ?_⟩
      have hother := congrArg (fun m => m.get t) h
      simp only [get_insert, if_neg ht, get_map, hs', Option.map_some, Option.some.injEq] at hother
      have hkept := congrArg CatTable.constraints hother
      rw [CatTable.forgetTarget, filter_eq_self_iff] at hkept
      intro n d hd
      exact of_decide_eq_true (hkept n d hd)
    · rintro ⟨hcolumns, hconstraints, htargets⟩
      rw [hcolumns, hconstraints]
      apply ext_get
      intro t
      rw [get_insert, get_insert]
      by_cases ht : t = table
      · rw [if_pos ht, if_pos ht]
      · rw [if_neg ht, if_neg ht, get_map]
        cases hs' : c.tables.get t with
        | none => rfl
        | some s' =>
          have hkept : s'.constraints.filter
              (fun _ d => decide (d.target ≠ some (table, column))) = s'.constraints := by
            apply filter_eq_self
            intro n d hd
            exact decide_eq_true (htargets t s' ht hs' n d hd)
          rw [Option.map_some, CatTable.forgetTarget, hkept]
  rw [stored_eq_iff]
  simp only [withoutDependents, Catalog.setTable, true_and]
  rw [htables, map_filter_eq_map_iff]
  simp only [keepsConstraint_iff, keepsIndex_iff]
  constructor
  · rintro ⟨⟨hx, hconstraints, htargets⟩, hindexes⟩
    refine ⟨hx, ?_, ?_, hindexes⟩
    · intro t s' hs' n d hd
      by_cases ht : t = table
      · rw [ht, hs, Option.some.injEq] at hs'
        exact (hconstraints n d (hs' ▸ hd)).2
      · exact htargets t s' ht hs' n d hd
    · intro s' hs' n d hd
      rw [hs, Option.some.injEq] at hs'
      exact (hconstraints n d (hs' ▸ hd)).1
  · rintro ⟨hx, htargets, hconstraints, hindexes⟩
    exact ⟨⟨hx, fun n d hd => ⟨hconstraints s hs n d hd, htargets table s hs n d hd⟩,
      fun t s' _ hs' => htargets t s' hs'⟩, hindexes⟩

end Replacement

end Djogi.Live

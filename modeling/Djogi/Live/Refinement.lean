import Djogi.Live.PatternCatalog

/-!
# The patterns and the plain emitter

A live plan is to end in the catalog that `lower_operation` ends in. This module says for which
operations, on which databases, it does.

* `index_refines_iff`: an index, for which the patterns write the key columns and nothing else;
* `changeType_refines_iff`: a column that is replaced by its shadow;
* `pattern_refines_iff`: every operation that a pattern is dispatched for.
-/

namespace Djogi.Live

open OrdMap

variable (pg : Server)

/-! ## Indexes -/

/-- A key column that is written out in full by its name. -/
def PlainKey (c : Catalog) (table : String) (key : IndexColumnSchema) : Prop :=
  key.order = .asc ∧ key.nulls ≠ .first ∧
    ∀ opclass, key.opclass = some opclass → opclass =
      (((tableColumns c table).get key.name).map fun x => pg.opclassOf .bTree x.sqlType).getD ""

/-- An index that is written out in full by its name, table, uniqueness and keys. -/
structure PlainIndex (c : Catalog) (index : IndexSchema) : Prop where
  method : index.indexType = .bTree
  include_ : index.include_ = []
  nulls : index.nullsNotDistinct = false
  predicate : index.predicate = none
  columns : ∀ cols, index.target = .columns cols → ∀ key ∈ cols, PlainKey pg c index.table key
  expression : ∀ e, index.target = .expression e → pg.readTarget e = some (.expression e)

theorem storedColumn_bare_iff (c : Catalog) (table : String) (key : IndexColumnSchema) :
    storedColumn pg .bTree (tableColumns c table) ⟨key.name, .default, none, .asc⟩ =
      storedColumn pg .bTree (tableColumns c table) key ↔ PlainKey pg c table key := by
  obtain ⟨name, nulls, opclass, order⟩ := key
  unfold storedColumn PlainKey
  simp only [IndexColumnSchema.mk.injEq, true_and, Option.getD_none, Option.some.injEq]
  constructor
  · rintro ⟨hnulls, hopclass, horder⟩
    subst horder
    refine ⟨rfl, ?_, fun o ho => ?_⟩
    · rintro rfl
      cases hnulls
    · rw [ho] at hopclass
      exact hopclass.symm
  · rintro ⟨rfl, hnulls, hopclass⟩
    refine ⟨?_, ?_, rfl⟩
    · cases nulls with
      | first => exact absurd rfl hnulls
      | _ => rfl
    · cases opclass with
      | none => rfl
      | some o => exact (hopclass o rfl).symm

/-- **The index of a pattern** is the declared one exactly when that is plain. -/
theorem bareIndex_stored_iff (c : Catalog) (index : IndexSchema)
    (hk : index.kind ≠ .uniqueConstraint) :
    (∃ d, bareIndex pg index = some d ∧ storedIndex pg c d = storedIndex pg c (indexDef index)) ↔
      PlainIndex pg c index := by
  have hunique : decide (index.kind ≠ .nonUnique) = decide (index.kind = .uniqueIndex) := by
    cases hkind : index.kind <;> simp_all
  unfold bareIndex
  cases ht : index.target with
  | columns cols =>
    simp only [bareTarget, Option.map_some, Option.some.injEq, exists_eq_left']
    unfold storedIndex indexDef
    simp only [ht, hunique, IndexDef.mk.injEq, true_and, IndexTargetSchema.columns.injEq,
      List.map_map]
    constructor
    · rintro ⟨hmethod, hcols, hincl, hnulls, hpred⟩
      refine ⟨hmethod.symm, hincl.symm, hnulls.symm, hpred.symm, ?_, by simp [ht]⟩
      intro cols' hcols' key hkey
      rw [ht, IndexTargetSchema.columns.injEq] at hcols'
      rw [← storedColumn_bare_iff]
      rw [← hmethod, List.map_inj_left] at hcols
      exact hcols key (hcols' ▸ hkey)
    · rintro ⟨hmethod, hincl, hnulls, hpred, hcols, -⟩
      refine ⟨hmethod.symm, ?_, hincl.symm, hnulls.symm, hpred.symm⟩
      rw [hmethod, List.map_inj_left]
      intro key hkey
      exact (storedColumn_bare_iff pg c index.table key).mpr (hcols cols ht key hkey)
  | expression e =>
    simp only [bareTarget, Option.map_eq_some_iff]
    unfold storedIndex indexDef
    constructor
    · rintro ⟨d, ⟨target, hread, rfl⟩, heq⟩
      simp only [ht, hunique, IndexDef.mk.injEq, true_and] at heq
      obtain ⟨hmethod, htarget, hincl, hnulls, hpred⟩ := heq
      refine ⟨hmethod.symm, hincl.symm, hnulls.symm, hpred.symm, by simp [ht], ?_⟩
      intro e' he'
      rw [ht, IndexTargetSchema.expression.injEq] at he'
      subst he'
      cases target with
      | columns cols => cases htarget
      | expression e' =>
        cases htarget
        exact hread
    · rintro ⟨hmethod, hincl, hnulls, hpred, -, hread⟩
      refine ⟨_, ⟨_, hread e ht, rfl⟩, ?_⟩
      simp [ht, hunique, hmethod, hincl, hnulls, hpred]

theorem storedIndex_table (c : Catalog) (d : IndexDef) : (storedIndex pg c d).table = d.table := rfl

theorem storedIndex_columns (c : Catalog) (d : IndexDef) :
    (storedIndex pg c d).columns = d.columns := by
  cases ht : d.target with
  | columns cols =>
    simp [storedIndex, IndexDef.columns, IndexDef.keyColumns, ht, storedColumn]
  | expression e => simp [storedIndex, IndexDef.columns, IndexDef.keyColumns, ht]

theorem createIndex_eq_some_iff (c c' : Catalog) (name : String) (d : IndexDef) :
    c.createIndex name d = some c' ↔
      (!c.indexes.contains name && c.tables.contains d.table &&
        d.columns.all (c.hasColumn d.table)) = true ∧
      c' = { c with indexes := c.indexes.insert name d } := by
  unfold Catalog.createIndex
  split_ifs with hok
  · simp [hok, eq_comm]
  · simp [hok]

/-- Two indexes of one name are created in the same catalog if they are stored alike. -/
theorem createIndex_stored_iff (c c' : Catalog) (name : String) (d d' : IndexDef)
    (h : c.createIndex name d' = some c') :
    (∃ c'', c.createIndex name d = some c'' ∧ stored pg c'' = stored pg c') ↔
      storedIndex pg c d = storedIndex pg c d' := by
  obtain ⟨hok, rfl⟩ := (createIndex_eq_some_iff c c' name d').mp h
  have hindex (d : IndexDef) : storedIndex pg { c with indexes := c.indexes.insert name d } =
      storedIndex pg c := rfl
  have hmap (d : IndexDef) : (c.indexes.insert name d).map (storedIndex pg c) =
      (c.indexes.map (storedIndex pg c)).insert name (storedIndex pg c d) := by
    apply ext_get
    intro k
    by_cases hk : k = name <;> simp [get_map, hk]
  constructor
  · rintro ⟨c'', hrun, hstored⟩
    obtain ⟨-, rfl⟩ := (createIndex_eq_some_iff c c'' name d).mp hrun
    obtain ⟨-, -, -, hindexes⟩ := (stored_eq_iff pg _ _).mp hstored
    rw [hindex] at hindexes
    rwa [hmap, hmap, insert_right_inj] at hindexes
  · intro heq
    have htable : d.table = d'.table := by
      rw [← storedIndex_table pg c d, heq, storedIndex_table]
    have hcolumns : d.columns = d'.columns := by
      rw [← storedIndex_columns pg c d, heq, storedIndex_columns]
    refine ⟨_, (createIndex_eq_some_iff c _ name d).mpr ⟨by rwa [htable, hcolumns], rfl⟩, ?_⟩
    rw [stored_eq_iff]
    refine ⟨rfl, rfl, rfl, ?_⟩
    rw [hindex]
    simp only
    rw [hmap, hmap, heq]

/-- Dropping an index that is to stay is seen. -/
theorem stored_dropIndex_ne (c c' c'' : Catalog) (name : String)
    (h : c.dropIndex name false = some c'') (hthere : name ∈ c'.indexes.keys) :
    stored pg c'' ≠ stored pg c' := by
  intro heq
  unfold Catalog.dropIndex at h
  simp only [Bool.false_eq_true, if_false] at h
  split_ifs at h
  cases h
  obtain ⟨-, -, -, hindexes⟩ := (stored_eq_iff pg _ _).mp heq
  have hkeys := congrArg OrdMap.keys hindexes
  rw [keys_map, keys_map] at hkeys
  rw [← hkeys, mem_keys_erase] at hthere
  exact hthere.1 rfl

theorem legacyReplacementTarget_ne (index : IndexSchema) (legacy : String)
    (h : legacyReplacementTarget index = some legacy) : legacy ≠ index.name := by
  unfold legacyReplacementTarget stripSuffix at h
  split_ifs at h with hsuffix
  rw [Option.some.injEq] at h
  intro heq
  have hlength := congrArg (fun s => s.toList.length) (h.trans heq)
  have hle := (List.isSuffixOf_iff_suffix.mp hsuffix).length_le
  simp at hlength hle
  omega

/-! ## Gates -/

theorem gate_reads (start rest : String) (h : "SELECT ".toList <+: start.toList) :
    "SELECT ".toList <+: (start ++ rest).toList := by
  rw [String.toList_append]
  exact h.trans (List.prefix_append _ _)

/-! ## The operations -/

theorem setNotNull_refines (c c' : Catalog) (table column : String) (ctx : PatternContext)
    (steps : List PatternStep) (sql : OperationSql)
    (hemit : NullableNotNull.emit (.alterColumn table column (.setNullable false)) ctx = .ok steps)
    (hlower : lowerOperation (.alterColumn table column (.setNullable false)) = .ok sql)
    (hrun : c.execAll sql.upStmts = some c') : Refines pg c c' steps := by
  cases hemit
  cases hlower
  simp only [OperationSql.upStmts, sqlScript_stmts, Catalog.execAll_cons] at hrun
  constructor
  · intro s hs q hq
    simp only [List.mem_cons, List.not_mem_nil, or_false] at hs
    rcases hs with rfl | rfl | rfl
    · cases hq
    · cases hq
      iterate 4 apply gate_reads
      decide
    · cases hq
  · exact ⟨c', hrun, rfl⟩

/-- **A column is replaced** as its type would be changed exactly when it is bare and unused and the
name of the shadow is free. -/
theorem changeType_refines_iff (c : Database) (c' : Catalog) (table column from_ to_ : String)
    (ctx : PatternContext) (steps : List PatternStep) (sql : OperationSql)
    (hemit : ReplacementColumn.emit (.alterColumn table column (.changeType from_ to_ none)) ctx =
      .ok steps)
    (hlower : lowerOperation (.alterColumn table column (.changeType from_ to_ none)) = .ok sql)
    (hrun : c.execAll sql.upStmts = some c') :
    Refines pg c.toCatalog c' steps ↔
      c.columnAt table (shadowName column) = none ∧
        (∀ x, c.columnAt table column = some x → isBare x = true) ∧
        Unused pg c.toCatalog table column := by
  have halter : c.exec (.alterColumn table column (.setType to_ (Djogi.quoteIdent column ++ "::" ++
      to_))) = some c' := by
    cases hlower
    have hwarning : c.exec (castWarning table column from_ to_) = some c.toCatalog := rfl
    simp only [OperationSql.upStmts, sqlScript_stmts] at hrun
    split_ifs at hrun
    · simpa only [List.singleton_append, Catalog.execAll_cons, hwarning, Option.bind_some,
        Catalog.execAll_nil, Option.bind_fun_some] using hrun
    · simpa only [List.nil_append, Catalog.execAll_cons, Catalog.execAll_nil,
        Option.bind_fun_some] using hrun
  obtain ⟨s, x, x', hs, hx, hx', rfl⟩ := (Catalog.onColumn_eq_some_iff _ _ _ _ _).mp halter
  cases hx'
  have hshadow : c.columnAt table (shadowName column) = s.columns.get (shadowName column) := by
    rw [Catalog.columnAt, hs, Option.bind_some]
  have hcolumn : c.columnAt table column = some x := by
    rw [Catalog.columnAt, hs, Option.bind_some, hx]
  have hddl : ddlStmts steps = [.addColumn table (shadowName column) to_,
      .dropColumn table column, .renameColumn table (shadowName column) column] := by
    cases hemit
    rfl
  rw [hshadow, hcolumn]
  simp only [Option.some.injEq, forall_eq']
  constructor
  · rintro ⟨-, c'', hlive, hstored⟩
    have hfree : s.columns.get (shadowName column) = none := by
      rw [hddl, runDdl_cons, Option.bind_eq_some_iff] at hlive
      obtain ⟨c₁, hadd, -⟩ := hlive
      rw [LiveStmt.exec, Catalog.addColumn, hs, Option.bind_some] at hadd
      dsimp only at hadd
      split_ifs at hadd with hok
      simp only [Bool.and_eq_true, Bool.not_eq_true', contains_eq_false_iff] at hok
      exact (get_eq_none_iff _ _).mpr hok.1.1
    rw [hddl, runReplacement pg table column to_ c s x hs hx hfree, Option.some.injEq] at hlive
    subst hlive
    exact ⟨hfree, (replacement_iff pg table column to_ c.toCatalog s x hs).mp hstored⟩
  · rintro ⟨hfree, hsame⟩
    constructor
    · intro st hst q hq
      cases hemit
      simp only [List.mem_cons, List.not_mem_nil, or_false] at hst
      rcases hst with rfl | rfl | rfl | rfl | rfl | rfl | rfl | rfl <;> cases hq
      iterate 4 apply gate_reads
      decide
    · refine ⟨_, ?_, (replacement_iff pg table column to_ c.toCatalog s x hs).mpr hsame⟩
      rw [hddl]
      exact runReplacement pg table column to_ c s x hs hx hfree

theorem lowerIndex_run (c : Catalog) (index : IndexSchema) (sql : OperationSql)
    (hk : index.kind ≠ .uniqueConstraint) (h : lowerOperation (.addIndex index) = .ok sql) :
    c.execAll sql.upStmts = c.createIndex index.name (indexDef index) := by
  change emitAddIndex index = .ok sql at h
  unfold emitAddIndex createIndexStmt at h
  simp only [if_neg hk] at h
  split_ifs at h with hpanic
  · cases h
  · cases h
    simp only [OperationSql.upStmts, sqlScript_stmts, Catalog.execAll_cons, Catalog.execAll_nil,
      Option.bind_fun_some]
    rfl

theorem lowerUnique_run (c c' : Catalog) (index : IndexSchema) (sql : OperationSql)
    (hk : index.kind = .uniqueConstraint) (h : lowerOperation (.addIndex index) = .ok sql)
    (hrun : c.execAll sql.upStmts = some c') :
    ∃ cols, index.target = .columns cols ∧
      c.addConstraint index.table index.name (.unique (cols.map IndexColumnSchema.name)) =
        some c' := by
  change emitAddIndex index = .ok sql at h
  unfold emitAddIndex createIndexStmt at h
  simp only [if_pos hk] at h
  cases h
  simp only [OperationSql.upStmts, sqlScript_stmts, Catalog.execAll_cons, Catalog.execAll_nil,
    Option.bind_fun_some] at hrun
  unfold uniqueConstraintStmt at hrun
  cases ht : index.target with
  | columns cols =>
    rw [ht] at hrun
    exact ⟨cols, rfl, hrun⟩
  | expression e =>
    rw [ht] at hrun
    cases hrun

theorem uniqueViaIndex_ddl (index : IndexSchema) (ctx : PatternContext) (steps : List PatternStep)
    (h : UniqueViaIndex.emit (.addIndex index) ctx = .ok steps) :
    ddlStmts steps = .createIndex index ::
      ((if index.kind = .uniqueConstraint then [.addUniqueUsingIndex index.table index.name]
        else []) ++ ((legacyReplacementTarget index).map LiveStmt.dropIndex).toList) ∧
    ∀ s ∈ steps, ∀ q, s.parameters = .validateBackfill q → "SELECT ".toList <+: q.toList := by
  unfold UniqueViaIndex.emit at h
  cases hcreate : renderCreateIndex index with
  | error e => simp [hcreate, Except.map] at h
  | ok stmt =>
    simp only [hcreate, Except.map, Except.ok.injEq] at h
    obtain rfl := renderCreateIndex_ok index stmt hcreate
    subst h
    have hgate : "SELECT ".toList <+: (indexGate index).toList := by
      iterate 2 apply gate_reads
      decide
    cases hl : legacyReplacementTarget index with
    | none =>
      constructor
      · simp [ddlStmts, PatternParameters.stmts]
      · intro s hs q hq
        simp only [List.append_nil, List.mem_cons, List.not_mem_nil, or_false] at hs
        rcases hs with rfl | rfl | rfl <;> cases hq
        exact hgate
    | some legacy =>
      constructor
      · simp [ddlStmts, PatternParameters.stmts]
      · intro s hs q hq
        simp only [List.mem_append, List.mem_cons, List.not_mem_nil, or_false] at hs
        rcases hs with (rfl | rfl | rfl) | rfl <;> cases hq
        exact hgate

theorem createIndex_refines_iff (c c' : Catalog) (index : IndexSchema)
    (hk : index.kind ≠ .uniqueConstraint)
    (h : c.createIndex index.name (indexDef index) = some c') :
    (∃ c'', (LiveStmt.createIndex index).exec pg c = some c'' ∧ stored pg c'' = stored pg c') ↔
      PlainIndex pg c index := by
  rw [← bareIndex_stored_iff pg c index hk]
  unfold LiveStmt.exec
  constructor
  · rintro ⟨c'', hrun, hstored⟩
    obtain ⟨d, hd, hcreate⟩ := Option.bind_eq_some_iff.mp hrun
    exact ⟨d, hd, (createIndex_stored_iff pg c c' index.name d _ h).mp ⟨c'', hcreate, hstored⟩⟩
  · rintro ⟨d, hd, heq⟩
    obtain ⟨c'', hcreate, hstored⟩ := (createIndex_stored_iff pg c c' index.name d _ h).mpr heq
    exact ⟨c'', Option.bind_eq_some_iff.mpr ⟨d, hd, hcreate⟩, hstored⟩

theorem index_refines_iff (c c' : Catalog) (index : IndexSchema) (ctx : PatternContext)
    (steps : List PatternStep) (hk : index.kind = .nonUnique)
    (hemit : IndexDependent.emit (.addIndex index) ctx = .ok steps)
    (h : c.createIndex index.name (indexDef index) = some c') :
    Refines pg c c' steps ↔ PlainIndex pg c index := by
  unfold IndexDependent.emit at hemit
  cases hcreate : renderCreateIndex index with
  | error e => simp [hcreate, Except.map] at hemit
  | ok stmt =>
    simp only [hcreate, Except.map, Except.ok.injEq] at hemit
    obtain rfl := renderCreateIndex_ok index stmt hcreate
    subst hemit
    rw [← createIndex_refines_iff pg c c' index (by simp [hk]) h]
    constructor
    · rintro ⟨-, c'', hrun, hstored⟩
      refine ⟨c'', ?_, hstored⟩
      simpa [ddlStmts, PatternParameters.stmts, Option.bind_fun_some] using hrun
    · rintro ⟨c'', hrun, hstored⟩
      constructor
      · intro s hs q hq
        simp only [List.mem_cons, List.not_mem_nil, or_false] at hs
        rcases hs with rfl | rfl <;> cases hq
        iterate 2 apply gate_reads
        decide
      · refine ⟨c'', ?_, hstored⟩
        simpa [ddlStmts, PatternParameters.stmts, Option.bind_fun_some] using hrun

/-- A unique index whose name ends like a replacement also loses the index it is named after. -/
theorem uniqueIndex_refines_iff (c c' : Catalog) (index : IndexSchema) (ctx : PatternContext)
    (steps : List PatternStep) (hk : index.kind = .uniqueIndex)
    (hemit : UniqueViaIndex.emit (.addIndex index) ctx = .ok steps)
    (h : c.createIndex index.name (indexDef index) = some c') :
    Refines pg c c' steps ↔ PlainIndex pg c index ∧ legacyReplacementTarget index = none := by
  obtain ⟨hddl, hgates⟩ := uniqueViaIndex_ddl index ctx steps hemit
  rw [hk, if_neg (by decide), List.nil_append] at hddl
  have hne : index.kind ≠ .uniqueConstraint := by simp [hk]
  rw [← createIndex_refines_iff pg c c' index hne h]
  constructor
  · rintro ⟨-, c'', hrun, hstored⟩
    rw [hddl, runDdl_cons, Option.bind_eq_some_iff] at hrun
    obtain ⟨c₁, hcreate, hrun⟩ := hrun
    cases hl : legacyReplacementTarget index with
    | none =>
      rw [hl] at hrun
      cases hrun
      exact ⟨⟨c'', hcreate, hstored⟩, rfl⟩
    | some legacy =>
      exfalso
      rw [hl] at hrun
      have hdrop : c₁.dropIndex legacy false = some c'' := by
        simpa [LiveStmt.exec, Option.bind_fun_some] using hrun
      have hthere : legacy ∈ c₁.indexes.keys := by
        unfold Catalog.dropIndex at hdrop
        simp only [Bool.false_eq_true, if_false] at hdrop
        split_ifs at hdrop with hok
        exact (contains_iff _ _).mp hok
      obtain ⟨d, -, hd⟩ := Option.bind_eq_some_iff.mp hcreate
      obtain ⟨-, rfl⟩ := (createIndex_eq_some_iff c c₁ index.name d).mp hd
      obtain ⟨-, rfl⟩ := (createIndex_eq_some_iff c c' index.name _).mp h
      rw [mem_keys_insert] at hthere
      refine stored_dropIndex_ne pg _ _ c'' legacy hdrop ?_ hstored
      exact (mem_keys_insert _ _ _ _).mpr hthere
  · rintro ⟨⟨c'', hcreate, hstored⟩, hl⟩
    refine ⟨hgates, c'', ?_, hstored⟩
    rw [hddl, runDdl_cons, hcreate, hl]
    rfl

/-- The index that the patterns create on columns. -/
def bareColumnIndex (index : IndexSchema) (cols : List IndexColumnSchema) : IndexDef where
  table := index.table
  unique := decide (index.kind ≠ .nonUnique)
  method := .bTree
  target := .columns (cols.map fun c => ⟨c.name, .default, none, .asc⟩)
  include_ := []
  nullsNotDistinct := false
  predicate := none

theorem bareColumnIndex_keyColumns (index : IndexSchema) (cols : List IndexColumnSchema) :
    (bareColumnIndex index cols).keyColumns = cols.map IndexColumnSchema.name := by
  simp [bareColumnIndex, IndexDef.keyColumns]

theorem promoteUnique_run (c c' : Catalog) (index : IndexSchema) (cols : List IndexColumnSchema)
    (hk : index.kind = .uniqueConstraint) (ht : index.target = .columns cols)
    (h : c.addConstraint index.table index.name (.unique (cols.map IndexColumnSchema.name)) =
      some c') :
    ((LiveStmt.createIndex index).exec pg c).bind
        (fun c₁ => promoteUnique c₁ index.table index.name) =
      if c.indexes.contains index.name then none else some c' := by
  obtain ⟨s, s', hs, hadd, rfl⟩ := (Catalog.onTable_eq_some_iff _ _ _ _).mp h
  have hcolumns : ∀ col ∈ cols.map IndexColumnSchema.name, s.columns.contains col = true := by
    split_ifs at hadd with hok
    simp only [Bool.and_eq_true, ConstraintDef.required] at hok
    exact List.all_eq_true.mp hok.1.2
  have htable : c.tables.contains index.table = true := by
    rw [contains_iff, mem_keys_iff]
    exact ⟨s, hs⟩
  have hbare : bareIndex pg index = some (bareColumnIndex index cols) := by
    rw [bareIndex, ht]
    rfl
  rw [LiveStmt.exec, hbare, Option.bind_some]
  cases hfree : c.indexes.contains index.name with
  | true => simp [Catalog.createIndex, hfree]
  | false =>
    have hall : (bareColumnIndex index cols).columns.all (c.hasColumn index.table) = true := by
      rw [IndexDef.columns, bareColumnIndex_keyColumns]
      simp only [bareColumnIndex, List.append_nil, List.all_eq_true]
      intro col hcol
      rw [Catalog.hasColumn, hs]
      exact hcolumns col hcol
    have hname : (bareColumnIndex index cols).table = index.table := rfl
    have hcreate := (createIndex_eq_some_iff c _ index.name (bareColumnIndex index cols)).mpr
      ⟨by simp only [hfree, hname, htable, hall, Bool.not_false, Bool.and_self], rfl⟩
    have hgone : (c.indexes.insert index.name (bareColumnIndex index cols)).erase index.name =
        c.indexes :=
      erase_insert_self _ _ _ (by rwa [get_eq_none_iff, ← contains_eq_false_iff])
    have hunique : (bareColumnIndex index cols).unique = true := by
      simp [bareColumnIndex, hk]
    rw [hcreate, Option.bind_some, promoteUnique]
    simp only [get_insert, if_true, Option.bind_some, hgone, hunique, bareColumnIndex_keyColumns]
    simpa [bareColumnIndex] using h

/-- A unique constraint is the declared one, whatever else the index declares. -/
theorem uniqueConstraint_refines_iff (c c' : Catalog) (index : IndexSchema) (ctx : PatternContext)
    (steps : List PatternStep) (cols : List IndexColumnSchema)
    (hk : index.kind = .uniqueConstraint) (ht : index.target = .columns cols)
    (hemit : UniqueViaIndex.emit (.addIndex index) ctx = .ok steps)
    (h : c.addConstraint index.table index.name (.unique (cols.map IndexColumnSchema.name)) =
      some c') :
    Refines pg c c' steps ↔
      c.indexes.contains index.name = false ∧ legacyReplacementTarget index = none := by
  obtain ⟨hddl, hgates⟩ := uniqueViaIndex_ddl index ctx steps hemit
  rw [if_pos hk, List.singleton_append] at hddl
  have hrun : runDdl pg c (ddlStmts steps) =
      (if c.indexes.contains index.name then none else some c').bind fun c₁ =>
        runDdl pg c₁ ((legacyReplacementTarget index).map LiveStmt.dropIndex).toList := by
    rw [← promoteUnique_run pg c c' index cols hk ht h, hddl, runDdl_cons]
    simp only [runDdl_cons, Option.bind_assoc]
    rfl
  constructor
  · rintro ⟨-, c'', hends, hstored⟩
    rw [hrun] at hends
    cases hfree : c.indexes.contains index.name with
    | true => simp [hfree] at hends
    | false =>
      refine ⟨rfl, ?_⟩
      cases hl : legacyReplacementTarget index with
      | none => rfl
      | some legacy =>
        exfalso
        have hdrop : c'.dropIndex legacy false = some c'' := by
          simpa [hfree, hl, LiveStmt.exec, Option.bind_fun_some] using hends
        refine stored_dropIndex_ne pg c' c' c'' legacy hdrop ?_ hstored
        unfold Catalog.dropIndex at hdrop
        simp only [Bool.false_eq_true, if_false] at hdrop
        split_ifs at hdrop with hok
        exact (contains_iff _ _).mp hok
  · rintro ⟨hfree, hl⟩
    refine ⟨hgates, c', ?_, rfl⟩
    rw [hrun, hfree, hl]
    rfl

theorem tables_of_stored_eq (c c' : Catalog) (h : stored pg c = stored pg c') :
    c.tables = c'.tables := ((stored_eq_iff pg c c').mp h).1

/-- The key that the plan validates is never added. -/
theorem addForeignKey_not_refines (c c' : Catalog) (table column : String) (fk : ForeignKeySchema)
    (ctx : PatternContext) (steps : List PatternStep)
    (hemit : BackfillThenTighten.emit (.addForeignKey table column fk) ctx = .ok steps)
    (hrun : c.addConstraint table (fkConstraintName table column) (fkDef column fk) = some c') :
    ¬Refines pg c c' steps := by
  rintro ⟨-, c'', hends, hstored⟩
  have hddl : ddlStmts steps = [.validateConstraint table (fkName table column)] := by
    cases hemit
    rfl
  rw [hddl] at hends
  simp only [runDdl_cons, runDdl_nil, Option.bind_fun_some, LiveStmt.exec, Catalog.exec] at hends
  obtain ⟨s, s', hs, hadd, rfl⟩ := (Catalog.onTable_eq_some_iff _ _ _ _).mp hrun
  obtain ⟨s₁, s₂, hs₁, hvalid, rfl⟩ := (Catalog.onTable_eq_some_iff _ _ _ _).mp hends
  rw [hs, Option.some.injEq] at hs₁
  split_ifs at hvalid with hthere
  split_ifs at hadd with hok
  cases hvalid
  cases hadd
  simp only [Bool.and_eq_true, Bool.not_eq_true', contains_eq_false_iff] at hok
  have htables := congrArg (fun m => m.get table) (tables_of_stored_eq pg _ _ hstored)
  simp only [Catalog.tables_setTable, get_insert, if_true, Option.some.injEq] at htables
  have hkeys := congrArg (fun s => s.constraints.keys) htables
  have hnew : fkConstraintName table column ∈ s₁.constraints.keys := by
    rw [hkeys, mem_keys_insert]
    exact .inl rfl
  exact hok.1.1 (hs₁ ▸ hnew)

/-- The plan of a table does not create it. -/
theorem addTable_not_refines (c c' : Catalog) (table : TableSchema) (ctx : PatternContext)
    (steps : List PatternStep) (sql : OperationSql)
    (hemit : MultiFkStaging.emit (.addTable table) ctx = .ok steps)
    (hlower : lowerOperation (.addTable table) = .ok sql)
    (hrun : c.execAll sql.upStmts = some c') : ¬Refines pg c c' steps := by
  rintro ⟨-, c'', hends, hstored⟩
  change tryEmitAddTable table = .ok sql at hlower
  unfold tryEmitAddTable at hlower
  cases hstorage : storageStmts table.table table.storageParams with
  | error e => simp [hstorage, Except.map] at hlower
  | ok storage =>
    simp only [hstorage, Except.map, Except.ok.injEq] at hlower
    subst hlower
    simp only [OperationSql.upStmts, sqlScript_stmts, Catalog.execAll_cons] at hrun
    obtain ⟨c₁, hcreate, hmeta⟩ := Option.bind_eq_some_iff.mp hrun
    unfold Catalog.exec Catalog.createTable at hcreate
    dsimp only at hcreate
    split_ifs at hcreate with hok
    cases hcreate
    have hfree : c.tables.get table.table = none := by
      simp only [Bool.and_eq_true, Bool.not_eq_true', contains_eq_false_iff] at hok
      exact (get_eq_none_iff _ _).mpr hok.1.1.1
    obtain ⟨s', rfl⟩ := Catalog.execAll_writesOnly _ _ _ _ _
      (tableMetadataStmts_writesOnly table storage hstorage) hmeta
    unfold MultiFkStaging.emit at hemit
    dsimp only at hemit
    split_ifs at hemit
    cases hemit
    cases hfks : fkColumns table with
    | nil =>
      rw [hfks] at hends
      cases hends
      have htables := congrArg (fun m => m.get table.table) (tables_of_stored_eq pg _ _ hstored)
      simp only [Catalog.tables_setTable] at htables
      rw [hfree] at htables
      simp at htables
    | cons e rest =>
      obtain ⟨column, fk⟩ := e
      rw [hfks] at hends
      simp [stageForeignKeys, ddlStmts, PatternParameters.stmts, LiveStmt.exec,
        Catalog.addConstraint, Catalog.onTable, hfree] at hends

def triggersOf (c : Catalog) : OrdMap String (OrdMap String String) := c.tables.map CatTable.triggers

theorem triggersOf_setTable (c : Catalog) (table : String) (s s' : CatTable)
    (hs : c.tables.get table = some s) (h : s'.triggers = s.triggers) :
    triggersOf (c.setTable table s') = triggersOf c := by
  apply ext_get
  intro k
  by_cases hk : k = table
  · simp [triggersOf, get_map, hk, hs, h]
  · simp [triggersOf, get_map, hk]

theorem triggersOf_onColumn (c c' : Catalog) (table column : String)
    (f : CatColumn → Option CatColumn) (h : c.onColumn table column f = some c') :
    triggersOf c' = triggersOf c := by
  obtain ⟨s, x, x', hs, -, -, rfl⟩ := (Catalog.onColumn_eq_some_iff _ _ _ _ _).mp h
  exact triggersOf_setTable c table s _ hs rfl

theorem triggersOf_addColumn (c c' : Catalog) (table : String) (d : ColumnDef)
    (h : c.addColumn table d = some c') : triggersOf c' = triggersOf c := by
  unfold Catalog.addColumn at h
  obtain ⟨s, hs, h⟩ := Option.bind_eq_some_iff.mp h
  dsimp only at h
  split_ifs at h
  cases h
  exact triggersOf_setTable c table s _ hs rfl

/-- The plan ends by dropping a trigger that it never made. -/
theorem addColumn_not_refines (c c' : Catalog) (table : String) (column : ColumnSchema)
    (ctx : PatternContext) (steps : List PatternStep) (sql : OperationSql)
    (hemit : ThreeStepDefault.emit (.addColumn table column) ctx = .ok steps)
    (hlower : lowerOperation (.addColumn table column) = .ok sql)
    (hrun : c.execAll sql.upStmts = some c') : ¬Refines pg c c' steps := by
  rintro ⟨-, c'', hends, hstored⟩
  have hplain : triggersOf c' = triggersOf c := by
    cases hlower
    simp only [OperationSql.upStmts, emitAddColumn, sqlScript_stmts, Catalog.execAll_cons] at hrun
    obtain ⟨c₁, hadd, hcomment⟩ := Option.bind_eq_some_iff.mp hrun
    have hfirst := triggersOf_addColumn c c₁ table _ hadd
    unfold commentStmts at hcomment
    cases hc : column.comment with
    | none =>
      rw [hc] at hcomment
      cases hcomment
      exact hfirst
    | some text =>
      rw [hc] at hcomment
      obtain ⟨c₂, hset, hnil⟩ := Option.bind_eq_some_iff.mp hcomment
      cases hnil
      rw [triggersOf_onColumn c₁ c' table column.name _ hset, hfirst]
  obtain ⟨c₁, hbefore, hdrop⟩ : ∃ c₁, triggersOf c₁ = triggersOf c ∧
      c₁.exec (.dropTrigger (defaultTrigger table column.name) table false) = some c'' := by
    unfold ThreeStepDefault.emit at hemit
    dsimp only at hemit
    split at hemit
    · cases hemit
    next expr hexpr =>
      cases hemit
      obtain ⟨c₁, hadd, hends⟩ := Option.bind_eq_some_iff.mp hends
      obtain ⟨c₂, hdefault, hends⟩ := Option.bind_eq_some_iff.mp hends
      have hfirst := triggersOf_addColumn c c₁ table _ hadd
      have hsecond := (triggersOf_onColumn c₁ c₂ table column.name _ hdefault).trans hfirst
      cases hn : column.nullable with
      | true =>
        rw [hn] at hends
        obtain ⟨c₃, hdrop, hnil⟩ := Option.bind_eq_some_iff.mp hends
        cases hnil
        exact ⟨c₂, hsecond, hdrop⟩
      | false =>
        rw [hn] at hends
        obtain ⟨c₃, hnotNull, hends⟩ := Option.bind_eq_some_iff.mp hends
        obtain ⟨c₄, hdrop, hnil⟩ := Option.bind_eq_some_iff.mp hends
        cases hnil
        exact ⟨c₃, (triggersOf_onColumn c₂ c₃ table column.name _ hnotNull).trans hsecond, hdrop⟩
  obtain ⟨s, s', hs, hthere, rfl⟩ := (Catalog.onTable_eq_some_iff _ _ _ _).mp hdrop
  simp only [Bool.false_eq_true, if_false] at hthere
  split_ifs at hthere with hcontains
  cases hthere
  have hsame : triggersOf c' = triggersOf (c₁.setTable table
      { s with triggers := s.triggers.erase (defaultTrigger table column.name) }) := by
    rw [triggersOf, triggersOf, tables_of_stored_eq pg _ _ hstored]
  have hget := congrArg (fun m => m.get table) (hbefore.trans (hplain.symm.trans hsame))
  simp only [triggersOf, get_map, Catalog.tables_setTable, get_insert, if_true, hs,
    Option.map_some, Option.some.injEq] at hget
  rw [contains_iff, hget, mem_keys_erase] at hcontains
  exact hcontains.1 rfl

/-! ## Every operation -/

/-- The operations and databases on which a pattern does what the plain emitter does. -/
def RefinesWhen (c : Catalog) : SchemaOperation → Prop
  | .alterColumn _ _ (.setNullable false) => True
  | .alterColumn table column (.changeType ..) =>
      c.columnAt table (shadowName column) = none ∧
        (∀ x, c.columnAt table column = some x → isBare x = true) ∧ Unused pg c table column
  | .addIndex index =>
      match index.kind with
      | .nonUnique => PlainIndex pg c index
      | .uniqueIndex => PlainIndex pg c index ∧ legacyReplacementTarget index = none
      | .uniqueConstraint =>
          c.indexes.contains index.name = false ∧ legacyReplacementTarget index = none
  | _ => False

/-- **The patterns refine the plain emitter** exactly on a column that is set not null; a bare and
unused column whose shadow's name is free; an index that is plain, and for a unique one not named
like a replacement; and a unique constraint, under the same provision, whose name no index has. They
do so neither for a new column with a default, nor for a foreign key, nor for a table. -/
theorem pattern_refines_iff (c : Database) (c' : Catalog) (op : SchemaOperation)
    (ctx : PatternContext) (steps : List PatternStep) (sql : OperationSql)
    (hsteps : dispatchPattern op ctx = .ok steps) (hlower : lowerOperation op = .ok sql)
    (hrun : c.execAll sql.upStmts = some c') :
    Refines pg c.toCatalog c' steps ↔ RefinesWhen pg c.toCatalog op := by
  rcases dispatchPattern_ok op ctx steps hsteps with
    ⟨table, column, from_, to_, rfl, hemit⟩ | ⟨table, column, rfl, hemit⟩ |
    ⟨table, column, fk, rfl, hemit⟩ | ⟨index, rfl, hk, hemit⟩ | ⟨index, rfl, hk, hemit⟩ |
    ⟨table, rfl, hemit⟩ | ⟨table, column, rfl, hemit⟩
  · exact changeType_refines_iff pg c c' table column from_ to_ ctx steps sql hemit hlower hrun
  · exact iff_of_true
      (setNotNull_refines pg c.toCatalog c' table column ctx steps sql hemit hlower hrun) trivial
  · refine iff_of_false (addForeignKey_not_refines pg c.toCatalog c' table column fk ctx steps hemit
      ?_) id
    cases hlower
    simpa [emitAddForeignKey_upStmts, addFkStmt, Catalog.exec, Option.bind_fun_some] using hrun
  · cases hkind : index.kind with
    | nonUnique => exact absurd hkind hk
    | uniqueIndex =>
      have hcreate := lowerIndex_run c.toCatalog index sql (by simp [hkind]) hlower
      simp only [RefinesWhen, hkind]
      exact uniqueIndex_refines_iff pg c.toCatalog c' index ctx steps hkind hemit (hcreate ▸ hrun)
    | uniqueConstraint =>
      obtain ⟨cols, ht, hadd⟩ := lowerUnique_run c.toCatalog c' index sql hkind hlower hrun
      simp only [RefinesWhen, hkind]
      exact uniqueConstraint_refines_iff pg c.toCatalog c' index ctx steps cols hkind ht hemit hadd
  · have hcreate := lowerIndex_run c.toCatalog index sql (by simp [hk]) hlower
    simp only [RefinesWhen, hk]
    exact index_refines_iff pg c.toCatalog c' index ctx steps hk hemit (hcreate ▸ hrun)
  · exact iff_of_false
      (addTable_not_refines pg c.toCatalog c' table ctx steps sql hemit hlower hrun) id
  · exact iff_of_false
      (addColumn_not_refines pg c.toCatalog c' table column ctx steps sql hemit hlower hrun) id

def usersTable : CatTable where
  columns := OrdMap.empty.insert "age" ⟨"integer", false, none, none, none, none⟩
  constraints := .empty
  partition := none
  comment := none
  params := .empty
  tablespace := pgDefault
  triggers := .empty

/-- One table with one column. -/
def usersDatabase : Database where
  tables := OrdMap.empty.insert "users" usersTable
  indexes := .empty
  enums := .empty
  functions := .empty
  constraintColumns := by
    intro t s hs n d hd
    rw [get_insert] at hs
    split_ifs at hs
    · cases hs
      cases hd
    · cases hs
  targets := by
    intro t s hs n d hd
    rw [get_insert] at hs
    split_ifs at hs
    · cases hs
      cases hd
    · cases hs
  indexColumns := nofun

def sampleServer : Server where
  readTarget := fun _ => none
  refers := fun text column => text = column
  opclassOf := fun _ _ => "int4_ops"

/-- The database after the type of the column has been changed. -/
def bigintCatalog : Catalog :=
  usersDatabase.setTable "users"
    { usersTable with
      columns := usersTable.columns.insert "age" ⟨"bigint", false, none, none, none, none⟩ }

theorem pattern_refines_iff_bare : ∃ steps,
    dispatchPattern (.alterColumn "users" "age" (.changeType "integer" "bigint" none))
      .withDefaults = .ok steps ∧
    Refines sampleServer usersDatabase.toCatalog bigintCatalog steps := by
  have honly (t : String) (s : CatTable) (hs : usersDatabase.tables.get t = some s) :
      s.constraints = .empty := by
    have hget := get_insert (OrdMap.empty : OrdMap String CatTable) "users" t usersTable
    rw [show usersDatabase.tables = OrdMap.empty.insert "users" usersTable from rfl, hget] at hs
    split_ifs at hs
    · cases hs
      rfl
    · cases hs
  refine ⟨_, rfl, (pattern_refines_iff sampleServer usersDatabase bigintCatalog
    (.alterColumn "users" "age" (.changeType "integer" "bigint" none)) .withDefaults _ _
    rfl rfl (by decide +kernel)).mpr ⟨by decide, ?_, ?_⟩⟩
  · intro x hx
    obtain rfl : CatColumn.mk "integer" false none none none none = x := Option.some.inj hx
    rfl
  · constructor
    · intro t s hs n d hd
      rw [honly t s hs] at hd
      cases hd
    · intro s hs n d hd
      rw [honly "users" s hs] at hd
      cases hd
    · nofun

def partialIndex : IndexSchema :=
  ⟨none, [], .bTree, .uniqueIndex, "users_age_key", false, some "age > 0", true, "users",
    .columns [⟨"age", .default, none, .asc⟩]⟩

/-- The plan of a partial unique index builds it over all rows. -/
theorem partialIndex_not_refines : ∃ steps sql c',
    dispatchPattern (.addIndex partialIndex) .withDefaults = .ok steps ∧
    lowerOperation (.addIndex partialIndex) = .ok sql ∧
    usersDatabase.execAll sql.upStmts = some c' ∧
    ¬Refines sampleServer usersDatabase.toCatalog c' steps := by
  refine ⟨_, _, _, rfl, rfl, rfl, ?_⟩
  rw [uniqueIndex_refines_iff sampleServer usersDatabase.toCatalog _ partialIndex .withDefaults _
    rfl rfl rfl]
  rintro ⟨hplain, -⟩
  cases hplain.predicate

end Djogi.Live

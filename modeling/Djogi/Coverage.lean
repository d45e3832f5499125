import Djogi.Diff

/-!
# Which changes the differ sees

`attributes` collects what DDL gives meaning to: per column, per table, per index
and per enum. The differ compares most of it by hand-picked fields.

* `diffOperations_eq_nil_iff`: no operation is emitted exactly when the two schemas
  agree in every compared field (`Quiet`);
* `diffSchemas_complete_iff`: a change of an attribute always yields an operation
  exactly when the pair is not quiet or the uncompared attributes agree too. These
  are the partition declaration, the full-text configuration and variant order.
-/

namespace Djogi

structure ColumnAttributes where
  sqlType : String
  nullable : Bool
  defaultSql : Option String
  check : Option String
  unique : Bool
  generated : Option GeneratedColumnSchema
  identity : Option IdentityKindSchema
  comment : Option String
  codec : Option String
  foreignKey : Option ForeignKeySchema
  deriving DecidableEq

def ColumnSchema.attributes (c : ColumnSchema) : ColumnAttributes :=
  ⟨c.sqlType, c.nullable, c.defaultSql, c.check, c.unique, c.generated, c.identity, c.comment,
    c.codec, c.foreignKey⟩

structure TableAttributes where
  columns : OrdMap String ColumnAttributes
  primaryKey : PrimaryKeySchema
  partition : Option PartitionSchema
  fts : Option FtsSchema
  exclusions : OrdMap String ExclusionConstraintSchema
  comment : Option String
  storageParams : Option String
  tablespace : Option String
  deriving DecidableEq

def TableSchema.attributes (t : TableSchema) : TableAttributes :=
  ⟨(columnMap t).map ColumnSchema.attributes, t.primaryKey, t.partition, t.fts,
    exclusionMap t, t.tableComment, t.storageParams, t.tablespace⟩

/-- Some attribute with a meaning in DDL differs. -/
def DdlDiffers (before after : AppliedSchema) : Prop :=
  before.models.map TableSchema.attributes ≠ after.models.map TableSchema.attributes ∨
    indexMap before ≠ indexMap after ∨
    before.enums.map EnumSchema.variants ≠ after.enums.map EnumSchema.variants

/-! ## Columns -/

private theorem checkTransition_eq_nil_iff (b a : Option String) :
    checkTransition b a = [] ↔ b = a := by
  cases b <;> cases a <;> simp [checkTransition]

theorem columnChanges_eq_nil_iff (b a : ColumnSchema) :
    columnChanges b a = [] ↔
      { b.attributes with foreignKey := none } = { a.attributes with foreignKey := none } := by
  simp only [columnChanges, ColumnSchema.attributes, ColumnAttributes.mk.injEq,
    List.append_eq_nil_iff]
  by_cases hc : b.codec = a.codec
  · by_cases ht : b.sqlType = a.sqlType
    · simp [typeChanged, codecChanged, hc, ht, checkTransition_eq_nil_iff]
      tauto
    · simp [typeChanged, codecChanged, hc, ht]
  · simp [codecChanged, hc]

private theorem foreignKeyChanges_eq_nil_iff (table column : String)
    (b a : Option ForeignKeySchema) : foreignKeyChanges table column b a = [] ↔ b = a := by
  cases b <;> cases a <;> simp [foreignKeyChanges]

theorem emitAlterColumn_eq_nil_iff (t : TableSchema) (b a : ColumnSchema) :
    emitAlterColumn t b a = [] ↔ b.attributes = a.attributes := by
  rw [emitAlterColumn, List.append_eq_nil_iff, List.map_eq_nil_iff, columnChanges_eq_nil_iff,
    foreignKeyChanges_eq_nil_iff]
  simp only [ColumnSchema.attributes, ColumnAttributes.mk.injEq]
  tauto

theorem attributes_persistent (c : ColumnSchema) : c.persistent.attributes = c.attributes := rfl

/-- No column of the new table names an old column as its former self. -/
def NoColumnRename (b a : TableSchema) : Prop :=
  ∀ c ∈ (columnMap a).values, ∀ prev, c.renamedFrom = some prev → prev ∉ (columnMap b).keys

private theorem filterMap_hint_eq_nil_iff {α : Type} (l : List α) (hint : α → Option String)
    (known : String → Bool) (name : α → String) :
    (l.filterMap fun x => ((hint x).filter known).map fun prev => (prev, name x)) = [] ↔
      ∀ x ∈ l, ∀ prev, hint x = some prev → known prev = false := by
  rw [List.filterMap_eq_nil_iff]
  refine forall₂_congr fun x _ => ?_
  cases hint x <;> simp [Option.filter]

theorem columnRenameTargets_eq_empty_iff (b a : TableSchema) :
    columnRenameTargets b a = .empty ↔ NoColumnRename b a := by
  rw [columnRenameTargets, OrdMap.ofList_eq_empty_iff, filterMap_hint_eq_nil_iff]
  simp only [NoColumnRename, OrdMap.contains_eq_false_iff]

theorem mem_keys_columnMap (t : TableSchema) (k : String) :
    k ∈ (columnMap t).keys ↔ ∃ c ∈ t.columns, c.name = k := by
  simp [columnMap, OrdMap.mem_keys_ofList]

private theorem dropColumnOps_eq_nil_iff (b a : TableSchema)
    (hren : columnRenameTargets b a = .empty) :
    dropColumnOps b a = [] ↔ ∀ k ∈ (columnMap b).keys, k ∈ (columnMap a).keys := by
  simp [dropColumnOps, hren]

private theorem addColumnOps_eq_nil_iff (b a : TableSchema)
    (hren : columnRenameTargets b a = .empty) :
    addColumnOps b a = [] ↔ ∀ k ∈ (columnMap a).keys, k ∈ (columnMap b).keys := by
  simp [addColumnOps, hren, mem_keys_columnMap a]

private theorem commonColumnOps_eq_nil_iff (b a : TableSchema) :
    (columnMap a).entries.flatMap (commonColumnOps b a) = [] ↔
      ∀ k bc ac, (columnMap b).get k = some bc → (columnMap a).get k = some ac →
        bc.attributes = ac.attributes := by
  rw [List.flatMap_eq_nil_iff]
  constructor
  · intro h k bc ac hb ha
    have hk := h (k, ac) ((OrdMap.mem_entries_iff _ _ _).mpr ha)
    simp only [commonColumnOps, hb] at hk
    split_ifs at hk with heq
    · rw [← attributes_persistent bc, heq, attributes_persistent]
    · exact (emitAlterColumn_eq_nil_iff a bc ac).mp hk
  · rintro h ⟨k, ac⟩ hmem
    simp only [commonColumnOps]
    cases hb : (columnMap b).get k with
    | none => rfl
    | some bc =>
        have hattr := h k bc ac hb ((OrdMap.mem_entries_iff _ _ _).mp hmem)
        simp [(emitAlterColumn_eq_nil_iff a bc ac).mpr hattr]

theorem diffColumnsInTable_eq_nil_iff (b a : TableSchema) :
    diffColumnsInTable b a = [] ↔ NoColumnRename b a ∧
      (columnMap b).map ColumnSchema.attributes = (columnMap a).map ColumnSchema.attributes := by
  rw [diffColumnsInTable, List.append_eq_nil_iff, List.append_eq_nil_iff, List.append_eq_nil_iff,
    OrdMap.flatMap_eq_nil_iff_of_ne_nil _ _ (fun e => by simp [renameColumnOps]),
    commonColumnOps_eq_nil_iff, ← columnRenameTargets_eq_empty_iff, OrdMap.map_eq_map_iff,
    OrdMap.keys_eq_iff]
  constructor
  · rintro ⟨⟨⟨hdrop, hadd⟩, hren⟩, hcommon⟩
    exact ⟨hren, ⟨(dropColumnOps_eq_nil_iff b a hren).mp hdrop,
      (addColumnOps_eq_nil_iff b a hren).mp hadd⟩, hcommon⟩
  · rintro ⟨hren, ⟨hdrop, hadd⟩, hcommon⟩
    exact ⟨⟨⟨(dropColumnOps_eq_nil_iff b a hren).mpr hdrop,
      (addColumnOps_eq_nil_iff b a hren).mpr hadd⟩, hren⟩, hcommon⟩

/-! ## Tables -/

private theorem diffPkInTable_eq_nil_iff (b a : TableSchema) (r : OrdMap String String) :
    diffPkInTable b a r = [] ↔ b.primaryKey = a.primaryKey := by
  unfold diffPkInTable
  split_ifs with h <;> simp [h]

private theorem diffAppMoveInTable_eq_nil_iff (b a : TableSchema) :
    diffAppMoveInTable b a = [] ↔ b.app = a.app := by
  simp [diffAppMoveInTable]

private theorem diffTableMetadataInTable_eq_nil_iff (b a : TableSchema) :
    diffTableMetadataInTable b a = [] ↔ b.tableComment = a.tableComment ∧
      b.storageParams = a.storageParams ∧ b.tablespace = a.tablespace := by
  simp [diffTableMetadataInTable]

private theorem diffExclusionConstraintsInTable_eq_nil_iff (b a : TableSchema) :
    diffExclusionConstraintsInTable b a = [] ↔ exclusionMap b = exclusionMap a := by
  rw [diffExclusionConstraintsInTable, List.append_eq_nil_iff, List.map_eq_nil_iff,
    List.filter_eq_nil_iff, List.flatMap_eq_nil_iff]
  constructor
  · rintro ⟨hdrop, hcommon⟩
    apply OrdMap.ext_get
    intro k
    cases ha : (exclusionMap a).get k with
    | none =>
        rw [OrdMap.get_eq_none_iff]
        intro hk
        obtain ⟨x, hx⟩ := (OrdMap.mem_keys_iff _ _).mp hk
        have := hdrop (k, x) ((OrdMap.mem_entries_iff _ _ _).mpr hx)
        rw [OrdMap.get_eq_none_iff] at ha
        simp [ha] at this
    | some x =>
        have hx := hcommon (k, x) ((OrdMap.mem_entries_iff _ _ _).mpr ha)
        cases hb : (exclusionMap b).get k with
        | none => simp [hb] at hx
        | some y =>
            simp only [hb] at hx
            split_ifs at hx with hyx
            rw [hyx]
  · intro h
    refine ⟨?_, ?_⟩
    · rintro ⟨k, x⟩ hmem
      have hk : k ∈ (exclusionMap a).keys :=
        (OrdMap.mem_keys_iff _ _).mpr ⟨x, h ▸ (OrdMap.mem_entries_iff _ _ _).mp hmem⟩
      simp [hk]
    · rintro ⟨k, x⟩ hmem
      have hk := (OrdMap.mem_entries_iff _ _ _).mp hmem
      simp [h, hk]

/-- The compared fields of two tables of one name agree and no rename hint is live. -/
structure TableQuiet (b a : TableSchema) : Prop where
  noRename : NoColumnRename b a
  columns : (columnMap b).map ColumnSchema.attributes = (columnMap a).map ColumnSchema.attributes
  primaryKey : b.primaryKey = a.primaryKey
  app : b.app = a.app
  exclusions : exclusionMap b = exclusionMap a
  comment : b.tableComment = a.tableComment
  storageParams : b.storageParams = a.storageParams
  tablespace : b.tablespace = a.tablespace

/-- Everything the differ compares agrees. -/
structure Quiet (before after : AppliedSchema) : Prop where
  tables : before.models.keys = after.models.keys
  noRename : ∀ t ∈ after.models.values, ∀ prev, t.renamedFrom = some prev →
    prev ∉ before.models.keys
  table : ∀ k b a, before.models.get k = some b → after.models.get k = some a →
    b.persistent = a.persistent ∨ TableQuiet b a
  indexes : indexMap before = indexMap after
  enums : before.enums.keys = after.enums.keys
  variants : ∀ k b a, before.enums.get k = some b → after.enums.get k = some a →
    ∀ v, v ∈ b.variants ↔ v ∈ a.variants

/-- The attributes the differ never compares agree. -/
structure UncomparedEqual (before after : AppliedSchema) : Prop where
  partition : ∀ k b a, before.models.get k = some b → after.models.get k = some a →
    b.partition = a.partition
  fts : ∀ k b a, before.models.get k = some b → after.models.get k = some a → b.fts = a.fts
  variants : ∀ k b a, before.enums.get k = some b → after.enums.get k = some a →
    b.variants = a.variants

private theorem commonTableOps_eq_nil_iff (before after : AppliedSchema) :
    after.models.entries.flatMap (commonTableOps before) = [] ↔
      ∀ k b a, before.models.get k = some b → after.models.get k = some a →
        b.persistent = a.persistent ∨ TableQuiet b a := by
  have hone : ∀ b a : TableSchema,
      diffColumnsInTable b a ++ diffPkInTable b a (columnRenameTargets b a) ++
        diffAppMoveInTable b a ++ diffExclusionConstraintsInTable b a ++
        diffTableMetadataInTable b a = [] ↔ TableQuiet b a := by
    intro b a
    simp only [List.append_eq_nil_iff, diffColumnsInTable_eq_nil_iff, diffPkInTable_eq_nil_iff,
      diffAppMoveInTable_eq_nil_iff, diffExclusionConstraintsInTable_eq_nil_iff,
      diffTableMetadataInTable_eq_nil_iff]
    constructor
    · rintro ⟨⟨⟨⟨⟨h1, h2⟩, h3⟩, h4⟩, h5⟩, h6, h7, h8⟩
      exact ⟨h1, h2, h3, h4, h5, h6, h7, h8⟩
    · rintro ⟨h1, h2, h3, h4, h5, h6, h7, h8⟩
      exact ⟨⟨⟨⟨⟨h1, h2⟩, h3⟩, h4⟩, h5⟩, h6, h7, h8⟩
  rw [List.flatMap_eq_nil_iff]
  constructor
  · intro h k b a hb ha
    have hk := h (k, a) ((OrdMap.mem_entries_iff _ _ _).mpr ha)
    simp only [commonTableOps, hb] at hk
    split_ifs at hk with heq
    · exact .inl heq
    · exact .inr ((hone b a).mp hk)
  · rintro h ⟨k, a⟩ hmem
    simp only [commonTableOps]
    cases hb : before.models.get k with
    | none => rfl
    | some b =>
        rcases h k b a hb ((OrdMap.mem_entries_iff _ _ _).mp hmem) with heq | hq
        · simp [heq]
        · simp only [(hone b a).mpr hq, ite_self]

theorem tableRenameTargets_eq_empty_iff (before after : AppliedSchema) :
    tableRenameTargets before after = .empty ↔
      ∀ t ∈ after.models.values, ∀ prev, t.renamedFrom = some prev →
        prev ∉ before.models.keys := by
  rw [tableRenameTargets, OrdMap.ofList_eq_empty_iff, filterMap_hint_eq_nil_iff]
  simp only [OrdMap.contains_eq_false_iff]

private theorem mem_keys_iff_values (s : NamedSchema) (k : String) :
    k ∈ s.models.keys ↔ ∃ t ∈ s.models.values, t.table = k := by
  constructor
  · intro hk
    obtain ⟨t, ht⟩ := (OrdMap.mem_keys_iff _ _).mp hk
    exact ⟨t, List.mem_map.mpr ⟨(k, t), (OrdMap.mem_entries_iff _ _ _).mpr ht, rfl⟩,
      s.table_eq k t ht⟩
  · rintro ⟨t, ht, rfl⟩
    obtain ⟨e, he, rfl⟩ := List.mem_map.mp ht
    rw [s.modelKey e he]
    exact List.mem_map.mpr ⟨e, he, rfl⟩

private theorem diffTables_eq_nil_iff (before after : NamedSchema) :
    diffTables before.toAppliedSchema after.toAppliedSchema = [] ↔
      before.models.keys = after.models.keys ∧
      tableRenameTargets before.toAppliedSchema after.toAppliedSchema = .empty ∧
      ∀ k b a, before.models.get k = some b → after.models.get k = some a →
        b.persistent = a.persistent ∨ TableQuiet b a := by
  rw [diffTables, List.append_eq_nil_iff, List.append_eq_nil_iff, List.append_eq_nil_iff,
    OrdMap.flatMap_eq_nil_iff_of_ne_nil _ _ (fun e => by simp [renameTableOps]),
    commonTableOps_eq_nil_iff, OrdMap.keys_eq_iff]
  have hdrop : ∀ h : tableRenameTargets before.toAppliedSchema after.toAppliedSchema = .empty,
      dropTableOps before.toAppliedSchema after.toAppliedSchema = [] ↔
        ∀ k ∈ before.models.keys, k ∈ after.models.keys := by
    intro h
    simp [dropTableOps, h]
  have hadd : ∀ h : tableRenameTargets before.toAppliedSchema after.toAppliedSchema = .empty,
      addTableOps before.toAppliedSchema after.toAppliedSchema = [] ↔
        ∀ k ∈ after.models.keys, k ∈ before.models.keys := by
    intro h
    simp [addTableOps, h, mem_keys_iff_values after]
  constructor
  · rintro ⟨⟨⟨h1, h2⟩, h3⟩, h4⟩
    exact ⟨⟨(hdrop h3).mp h1, (hadd h3).mp h2⟩, h3, h4⟩
  · rintro ⟨⟨h1, h2⟩, h3, h4⟩
    exact ⟨⟨⟨(hdrop h3).mpr h1, (hadd h3).mpr h2⟩, h3⟩, h4⟩

/-! ## Indexes and enums -/

private theorem indexMap_get_name (s : AppliedSchema) (k : String) (i : IndexSchema)
    (h : (indexMap s).get k = some i) : i.name = k := by
  rw [indexMap, OrdMap.get_ofList] at h
  have hmem := OrdMap.mem_of_lookupIn k i _ h
  obtain ⟨j, -, hj⟩ := List.mem_map.mp (List.mem_reverse.mp hmem)
  rw [Prod.mk.injEq] at hj
  rw [← hj.2, hj.1]

private theorem logicalEq_empty_iff (bi ai : IndexSchema) (hname : bi.name = ai.name) :
    logicalEq .empty bi ai = true ↔ bi = ai := by
  cases bi
  cases ai
  simp_all [logicalEq]
  tauto

private theorem diffIndexes_eq_nil_iff (before after : AppliedSchema)
    (hren : tableRenameTargets before after = .empty) :
    diffIndexes before after = [] ↔ indexMap before = indexMap after := by
  rw [diffIndexes, hren, List.append_eq_nil_iff, List.map_eq_nil_iff, List.filter_eq_nil_iff,
    List.flatMap_eq_nil_iff]
  constructor
  · rintro ⟨hcommon, hdrop⟩
    apply OrdMap.ext_get
    intro k
    cases ha : (indexMap after).get k with
    | none =>
        rw [OrdMap.get_eq_none_iff]
        intro hk
        obtain ⟨x, hx⟩ := (OrdMap.mem_keys_iff _ _).mp hk
        have := hdrop (k, x) ((OrdMap.mem_entries_iff _ _ _).mpr hx)
        rw [OrdMap.get_eq_none_iff] at ha
        simp [ha] at this
    | some x =>
        have hx := hcommon (k, x) ((OrdMap.mem_entries_iff _ _ _).mpr ha)
        cases hb : (indexMap before).get k with
        | none => simp [hb] at hx
        | some y =>
            have hname : y.name = x.name := by
              rw [indexMap_get_name before k y hb, indexMap_get_name after k x ha]
            simp only [hb] at hx
            split_ifs at hx with heq
            rw [(logicalEq_empty_iff y x hname).mp heq]
  · intro h
    refine ⟨?_, ?_⟩
    · rintro ⟨k, x⟩ hmem
      have hk := (OrdMap.mem_entries_iff _ _ _).mp hmem
      have hself : logicalEq .empty x x = true := (logicalEq_empty_iff x x rfl).mpr rfl
      simp [h, hk, hself]
    · rintro ⟨k, x⟩ hmem
      have hk : k ∈ (indexMap after).keys :=
        (OrdMap.mem_keys_iff _ _).mpr ⟨x, h ▸ (OrdMap.mem_entries_iff _ _ _).mp hmem⟩
      simp [hk]

private theorem addVariantOps_eq_nil_iff (name : String) (old new : List String) :
    addVariantOps name old new = [] ↔ ∀ v ∈ new, v ∈ old := by
  rw [addVariantOps, List.filterMap_eq_nil_iff]
  constructor
  · intro h v hv
    obtain ⟨i, hi⟩ := List.mem_iff_getElem?.mp hv
    by_contra hold
    have := h (v, i) (List.mk_mem_zipIdx_iff_getElem?.mpr hi)
    simp [hold] at this
  · intro h e he
    have := List.fst_mem_of_mem_zipIdx he
    simp [h e.1 this]

private theorem diffEnums_eq_nil_iff (before after : AppliedSchema) :
    diffEnums before after = [] ↔ before.enums.keys = after.enums.keys ∧
      ∀ k b a, before.enums.get k = some b → after.enums.get k = some a →
        ∀ v, v ∈ b.variants ↔ v ∈ a.variants := by
  have hone : ∀ name (b a : EnumSchema),
      addVariantOps name b.variants a.variants ++ removedVariantOps name b.variants a.variants =
        [] ↔ ∀ v, v ∈ b.variants ↔ v ∈ a.variants := by
    intro name b a
    rw [List.append_eq_nil_iff, addVariantOps_eq_nil_iff]
    simp only [removedVariantOps, List.map_eq_nil_iff, List.filter_eq_nil_iff]
    constructor
    · rintro ⟨h1, h2⟩ v
      exact ⟨fun hv => by simpa using h2 v hv, h1 v⟩
    · intro h
      exact ⟨fun v hv => (h v).mpr hv, fun v hv => by simpa using (h v).mp hv⟩
  rw [diffEnums, List.append_eq_nil_iff, List.flatMap_eq_nil_iff, OrdMap.keys_eq_iff]
  constructor
  · rintro ⟨hcommon, hdrop⟩
    refine ⟨⟨?_, ?_⟩, ?_⟩
    · intro k hk
      simpa using (List.filter_eq_nil_iff.mp (List.map_eq_nil_iff.mp hdrop)) k hk
    · intro k hk
      obtain ⟨a, ha⟩ := (OrdMap.mem_keys_iff _ _).mp hk
      have h := hcommon (k, a) ((OrdMap.mem_entries_iff _ _ _).mpr ha)
      cases hb : before.enums.get k with
      | none => simp [diffEnum, hb] at h
      | some b => exact (OrdMap.mem_keys_iff _ _).mpr ⟨b, hb⟩
    · intro k b a hb ha
      have h := hcommon (k, a) ((OrdMap.mem_entries_iff _ _ _).mpr ha)
      simp only [diffEnum, hb] at h
      split_ifs at h with heq
      · rw [heq]
        exact fun _ => Iff.rfl
      · exact (hone k b a).mp h
  · rintro ⟨⟨hdrop, hadd⟩, hcommon⟩
    refine ⟨?_, ?_⟩
    · rintro ⟨k, a⟩ hmem
      have ha := (OrdMap.mem_entries_iff _ _ _).mp hmem
      obtain ⟨b, hb⟩ := (OrdMap.mem_keys_iff _ _).mp
        (hadd k ((OrdMap.mem_keys_iff _ _).mpr ⟨a, ha⟩))
      simp only [diffEnum, hb]
      split_ifs with heq
      · rfl
      · exact (hone k b a).mpr (hcommon k b a hb ha)
    · rw [List.map_eq_nil_iff, List.filter_eq_nil_iff]
      intro k hk
      simp [hdrop k hk]

/-! ## Whole schemas -/

/-- **Quiet pairs.** The differ emits nothing exactly for a quiet pair. -/
theorem diffOperations_eq_nil_iff (before after : NamedSchema) :
    diffOperations before.toAppliedSchema after.toAppliedSchema = [] ↔
      Quiet before.toAppliedSchema after.toAppliedSchema := by
  rw [diffOperations, List.append_eq_nil_iff, List.append_eq_nil_iff, diffTables_eq_nil_iff,
    diffEnums_eq_nil_iff]
  constructor
  · rintro ⟨⟨⟨htables, hren, htable⟩, hidx⟩, henum, hvar⟩
    exact ⟨htables, (tableRenameTargets_eq_empty_iff _ _).mp hren, htable,
      (diffIndexes_eq_nil_iff _ _ hren).mp hidx, henum, hvar⟩
  · rintro ⟨htables, hren, htable, hidx, henum, hvar⟩
    have hempty := (tableRenameTargets_eq_empty_iff _ _).mpr hren
    exact ⟨⟨⟨htables, hempty, htable⟩, (diffIndexes_eq_nil_iff _ _ hempty).mpr hidx⟩,
      henum, hvar⟩

private theorem TableSchema.attributes_persistent (t : TableSchema) :
    t.persistent.attributes = t.attributes := by
  have hcols : (columnMap t.persistent).map ColumnSchema.attributes =
      (columnMap t).map ColumnSchema.attributes := by
    simp only [columnMap, TableSchema.persistent, ← OrdMap.ofList_map, List.map_map]
    rfl
  simp only [TableSchema.attributes, hcols]
  rfl

private theorem not_ddlDiffers_of_eq (before after : AppliedSchema)
    (h : before.persistent = after.persistent) : ¬DdlDiffers before after := by
  have hmodels : ∀ s : AppliedSchema, s.models.map TableSchema.attributes =
      s.persistent.models.map TableSchema.attributes := by
    intro s
    apply OrdMap.ext_get
    intro k
    simp only [AppliedSchema.persistent, OrdMap.get_map, Option.map_map]
    exact congrArg (Option.map · _) (funext fun t => (TableSchema.attributes_persistent t).symm)
  have hindexes : ∀ s : AppliedSchema, indexMap s = indexMap s.persistent := fun _ => rfl
  have henums : ∀ s : AppliedSchema, s.enums = s.persistent.enums := fun _ => rfl
  rintro (hd | hd | hd)
  · exact hd (by rw [hmodels before, hmodels after, h])
  · exact hd (by rw [hindexes before, hindexes after, h])
  · exact hd (by rw [henums before, henums after, h])

private theorem attributes_eq_iff_of_quiet (b a : TableSchema)
    (h : b.persistent = a.persistent ∨ TableQuiet b a) :
    b.attributes = a.attributes ↔ b.partition = a.partition ∧ b.fts = a.fts := by
  rcases h with h | h
  · have hattr : b.attributes = a.attributes := by
      rw [← TableSchema.attributes_persistent, h, TableSchema.attributes_persistent]
    have hpart := congrArg TableAttributes.partition hattr
    have hfts := congrArg TableAttributes.fts hattr
    exact ⟨fun _ => ⟨hpart, hfts⟩, fun _ => hattr⟩
  · simp [TableSchema.attributes, h.columns, h.primaryKey, h.exclusions, h.comment,
      h.storageParams, h.tablespace]

private theorem ddlDiffers_iff_of_quiet (before after : AppliedSchema)
    (h : Quiet before after) : DdlDiffers before after ↔ ¬UncomparedEqual before after := by
  have hmodels : before.models.map TableSchema.attributes =
      after.models.map TableSchema.attributes ↔
      ∀ k b a, before.models.get k = some b → after.models.get k = some a →
        b.partition = a.partition ∧ b.fts = a.fts := by
    rw [OrdMap.map_eq_map_iff, and_iff_right h.tables]
    constructor
    · intro hv k b a hb ha
      exact (attributes_eq_iff_of_quiet b a (h.table k b a hb ha)).mp (hv k b a hb ha)
    · intro hv k b a hb ha
      exact (attributes_eq_iff_of_quiet b a (h.table k b a hb ha)).mpr (hv k b a hb ha)
  have henums : before.enums.map EnumSchema.variants = after.enums.map EnumSchema.variants ↔
      ∀ k b a, before.enums.get k = some b → after.enums.get k = some a →
        b.variants = a.variants := by
    rw [OrdMap.map_eq_map_iff, and_iff_right h.enums]
  rw [DdlDiffers, ne_eq, ne_eq, ne_eq, hmodels, henums]
  constructor
  · rintro (hd | hd | hd) heq
    · exact hd fun k b a hb ha => ⟨heq.partition k b a hb ha, heq.fts k b a hb ha⟩
    · exact hd h.indexes
    · exact hd heq.variants
  · intro hne
    by_contra hall
    simp only [not_or, not_not] at hall
    exact hne ⟨fun k b a hb ha => (hall.1 k b a hb ha).1,
      fun k b a hb ha => (hall.1 k b a hb ha).2, hall.2.2⟩

/-- **Completeness of the differ.** A change of a DDL attribute is reported exactly
when the pair is not quiet, or partitions, full-text configurations and enum variant
lists agree as well. -/
theorem diffSchemas_complete_iff (before after : NamedSchema) (bucket : BucketKey) :
    (DdlDiffers before.toAppliedSchema after.toAppliedSchema →
      (diffSchemas before.toAppliedSchema after.toAppliedSchema bucket).operations ≠ [] ∧
      (diffSchemas before.toAppliedSchema after.toAppliedSchema bucket).classification ≠ .noOp) ↔
    (Quiet before.toAppliedSchema after.toAppliedSchema →
      UncomparedEqual before.toAppliedSchema after.toAppliedSchema) := by
  have hnil := diffOperations_eq_nil_iff before after
  by_cases heq : before.toAppliedSchema.persistent = after.toAppliedSchema.persistent
  · have hsame := not_ddlDiffers_of_eq _ _ heq
    refine ⟨fun _ hq => ?_, fun _ hd => absurd hd hsame⟩
    by_contra hne
    exact hsame ((ddlDiffers_iff_of_quiet _ _ hq).mpr hne)
  · simp only [diffSchemas, if_neg heq, ne_eq, classify_eq_noOp_iff, and_self, hnil]
    constructor
    · intro h hq
      by_contra hne
      exact h ((ddlDiffers_iff_of_quiet _ _ hq).mpr hne) hq
    · intro h hd hq
      exact (ddlDiffers_iff_of_quiet _ _ hq).mp hd (h hq)

instance (before after : AppliedSchema) : Decidable (DdlDiffers before after) :=
  inferInstanceAs (Decidable (_ ∨ _ ∨ _))

/-- A log table with no partitions, indexes or enums. -/
def plainLog : NamedSchema where
  toAppliedSchema := .ofTables [.bare "log" [.bare "id" "BIGINT", .bare "day" "DATE"]]
  modelKey := by decide
  columnNames := by decide

/-- The log table partitioned by day. -/
def partitionedLog : NamedSchema where
  toAppliedSchema := .ofTables [{ TableSchema.bare "log"
    [.bare "id" "BIGINT", .bare "day" "DATE"] with partition := some (.range "day") }]
  modelKey := by decide
  columnNames := by decide

/-- Partitioning an existing table changes a DDL attribute and is reported as no
change at all. -/
theorem diffSchemas_partition_silent :
    DdlDiffers plainLog.toAppliedSchema partitionedLog.toAppliedSchema ∧
      diffSchemas plainLog.toAppliedSchema partitionedLog.toAppliedSchema ⟨"main", ""⟩ =
        ⟨⟨"main", ""⟩, [], .noOp⟩ := by
  decide

end Djogi

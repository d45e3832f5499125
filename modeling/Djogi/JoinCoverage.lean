import Djogi.BucketDiff
import Djogi.FlipMerge

/-!
# Join-table coverage of merged flip groups

* `promote_entries`: every join-table entry of a promoted group names a foreign-key
  column to its parent and the first other foreign key as partner;
* `merge_total`: after the differ's own check the merge never fails;
* `coverage_iff`: the merge keeps every recorded (join table, column) pair in exactly
  one group exactly when the smallest parent of each component records what the others
  lose and nothing that they keep (`WinnerCovers`).
-/

namespace Djogi

/-! ## The differ emits no groups -/

/-- Operations that `diff_schemas` can emit. -/
def emittedByDiff : SchemaOperation → Bool
  | .pkTypeFlipGroup _ | .pkTypeFlipMultiGroup _ | .renameApp .. => false
  | _ => true

theorem opGroups_of_emitted (op : SchemaOperation) (h : emittedByDiff op = true) :
    opGroups op = [] := by
  cases op with
  | pkTypeFlipGroup g => cases h
  | pkTypeFlipMultiGroup gs => cases h
  | _ => rfl

private theorem all_emitted_columns (b a : TableSchema) :
    (diffColumnsInTable b a).all emittedByDiff = true := by
  have hfk : ∀ t c x y, (foreignKeyChanges t c x y).all emittedByDiff = true := by
    intro t c x y
    cases x <;> cases y <;> simp only [foreignKeyChanges]
    · rfl
    · rfl
    · rfl
    · split_ifs <;> rfl
  have halter : ∀ bc ac, (emitAlterColumn a bc ac).all emittedByDiff = true := by
    intro bc ac
    rw [emitAlterColumn, List.all_append, hfk, Bool.and_true, List.all_map]
    exact List.all_eq_true.mpr fun _ _ => rfl
  have hren : ∀ e, (renameColumnOps b a e).all emittedByDiff = true := by
    intro e
    rw [renameColumnOps, List.all_cons]
    split
    · rw [halter]
      rfl
    · rfl
  have hcommon : ∀ e, (commonColumnOps b a e).all emittedByDiff = true := by
    intro e
    rw [commonColumnOps]
    split
    · rfl
    · split_ifs
      · rfl
      · exact halter _ _
  rw [diffColumnsInTable, List.all_append, List.all_append, List.all_append, List.all_flatMap,
    List.all_flatMap, dropColumnOps, addColumnOps, List.all_map, List.all_map]
  simp only [hren, hcommon, Bool.and_eq_true, List.all_eq_true]
  exact ⟨⟨⟨fun _ _ => rfl, fun _ _ => rfl⟩, fun _ _ => trivial⟩, fun _ _ => trivial⟩

private theorem all_emitted_table (b a : TableSchema) (r : OrdMap String String) :
    (diffPkInTable b a r).all emittedByDiff = true ∧
      (diffAppMoveInTable b a).all emittedByDiff = true ∧
      (diffExclusionConstraintsInTable b a).all emittedByDiff = true ∧
      (diffTableMetadataInTable b a).all emittedByDiff = true := by
  refine ⟨?_, ?_, ?_, ?_⟩
  · unfold diffPkInTable
    split_ifs <;> rfl
  · unfold diffAppMoveInTable
    split_ifs <;> rfl
  · rw [diffExclusionConstraintsInTable, List.all_append, List.all_map, List.all_flatMap,
      Bool.and_eq_true, List.all_eq_true, List.all_eq_true]
    refine ⟨fun _ _ => rfl, fun e _ => ?_⟩
    split
    · split_ifs <;> rfl
    · rfl
  · rw [diffTableMetadataInTable, List.all_append, List.all_append]
    split_ifs <;> rfl

theorem all_emitted_diffOperations (before after : AppliedSchema) :
    (diffOperations before after).all emittedByDiff = true := by
  have hcols := all_emitted_columns
  have htab := all_emitted_table
  have hren : ∀ e, (renameTableOps before after e).all emittedByDiff = true := by
    intro e
    rw [renameTableOps, List.all_cons]
    split
    · next b a _ _ =>
        obtain ⟨h1, -, h3, h4⟩ := htab b a (columnRenameTargets b a)
        simp [hcols, h1, h3, h4, emittedByDiff]
    · rfl
  have hcommon : ∀ e, (commonTableOps before e).all emittedByDiff = true := by
    intro e
    rw [commonTableOps]
    split
    · rfl
    · next b _ =>
        obtain ⟨h1, h2, h3, h4⟩ := htab b e.2 (columnRenameTargets b e.2)
        split_ifs
        · rfl
        · simp [hcols, h1, h2, h3, h4]
  have hidx : (diffIndexes before after).all emittedByDiff = true := by
    rw [diffIndexes, List.all_append, List.all_map, List.all_flatMap, Bool.and_eq_true,
      List.all_eq_true, List.all_eq_true]
    refine ⟨fun e _ => ?_, fun _ _ => rfl⟩
    split
    · split_ifs <;> rfl
    · rfl
  have henum : (diffEnums before after).all emittedByDiff = true := by
    rw [diffEnums, List.all_append, List.all_map, List.all_flatMap, Bool.and_eq_true,
      List.all_eq_true, List.all_eq_true]
    refine ⟨fun e _ => ?_, fun _ _ => rfl⟩
    rw [diffEnum]
    split
    · rfl
    · split_ifs
      · rfl
      · rw [List.all_append, Bool.and_eq_true, List.all_eq_true, List.all_eq_true]
        refine ⟨fun op hop => ?_, fun op hop => ?_⟩
        · obtain ⟨i, -, hi⟩ := List.mem_filterMap.mp hop
          split_ifs at hi
          rw [← Option.some.inj hi]
          rfl
        · obtain ⟨v, -, rfl⟩ := List.mem_map.mp hop
          rfl
  rw [diffOperations, List.all_append, List.all_append, hidx, henum, diffTables,
    List.all_append, List.all_append, List.all_append, List.all_flatMap, List.all_flatMap,
    dropTableOps, addTableOps, List.all_map, List.all_map]
  simp only [hren, hcommon, Bool.and_eq_true, List.all_eq_true]
  exact ⟨⟨⟨⟨⟨fun _ _ => rfl, fun _ _ => rfl⟩, fun _ _ => trivial⟩, fun _ _ => trivial⟩, trivial⟩,
    trivial⟩

theorem emitted_bucketOps (before after : OrdMap BucketKey AppliedSchema) (bucket : BucketKey)
    (op : SchemaOperation) (h : op ∈ bucketOps before after bucket) :
    emittedByDiff op = true := by
  rcases List.mem_append.mp h with h | h
  · have hop := List.mem_of_mem_filter h
    unfold diffSchemas at hop
    split_ifs at hop
    · simp at hop
    · exact List.all_eq_true.mp (all_emitted_diffOperations _ _) op hop
  · obtain ⟨m, -, rfl⟩ := List.mem_map.mp h
    rfl

/-! ## Promoted groups -/

theorem promoteParents_ok (after : AppliedSchema) (migrating : List String)
    (ps : List (String × PkKindSchema × PkKindSchema)) (ops ops' : List SchemaOperation)
    (h : promoteParents after migrating ps ops = .ok ops') :
    ∃ gs : List PkTypeFlipGroup, ops' = ops ++ gs.map .pkTypeFlipGroup ∧
      gs.map PkTypeFlipGroup.parentTable = ps.map Prod.fst ∧
      ∀ g ∈ gs, ∃ family, g.joinTableOption = .optionA ∧ g.joinTables =
        sortBy (fun j : PkFlipJoinTable => toLex (j.table, j.fkToParentColumn))
          (groupJoinTables after g.parentTable family migrating) := by
  induction ps generalizing ops with
  | nil =>
      rw [promoteParents, Except.ok.injEq] at h
      exact ⟨[], by simp [h], rfl, by simp⟩
  | cons p ps ih =>
      rw [promoteParents] at h
      split at h
      · simp at h
      · next g hg =>
          obtain ⟨gs, hops, hparents, hgs⟩ := ih _ h
          have hg' : g.parentTable = p.1 ∧ ∃ family, g.joinTableOption = .optionA ∧
              g.joinTables =
                sortBy (fun j : PkFlipJoinTable => toLex (j.table, j.fkToParentColumn))
                  (groupJoinTables after p.1 family migrating) := by
            unfold promoteGroup at hg
            simp only at hg
            split at hg
            · simp at hg
            · rw [← Except.ok.inj hg]
              exact ⟨rfl, _, rfl, rfl⟩
          refine ⟨g :: gs, by simp [hops], by simp [hg'.1, hparents], ?_⟩
          intro g' hmem
          rcases List.mem_cons.mp hmem with rfl | hmem
          · obtain ⟨hp, family, h1, h2⟩ := hg'
            exact ⟨family, h1, hp ▸ h2⟩
          · exact hgs g' hmem

/-- The partner the differ records for a foreign-key column of a through-table. -/
def partnerAt (t : TableSchema) (col parent : String) (migrating : List String) :
    Option (String × String) :=
  (partnerOf t col parent).filter fun p => migrating.contains p.2

/-- Where a join-table entry of a group comes from. -/
structure EntryOf (after : AppliedSchema) (migrating : List String) (parent : String)
    (jt : PkFlipJoinTable) (t : TableSchema) : Prop where
  table : after.models.get jt.table = some t
  column : ∃ c ∈ t.columns, c.name = jt.fkToParentColumn ∧
    ∃ fk, c.foreignKey = some fk ∧ fk.refTable = parent
  partnerColumn : jt.fkToPartnerColumn =
    (partnerAt t jt.fkToParentColumn parent migrating).map Prod.fst
  partnerTable : jt.fkToPartnerTable =
    (partnerAt t jt.fkToParentColumn parent migrating).map Prod.snd

theorem groupJoinTables_entries (after : AppliedSchema) (parent : String)
    (family : PkFlipFamily) (migrating : List String) (jt : PkFlipJoinTable)
    (h : jt ∈ groupJoinTables after parent family migrating) :
    ∃ t, EntryOf after migrating parent jt t := by
  obtain ⟨r, hr, hjt⟩ := List.mem_filterMap.mp h
  obtain ⟨e, he, hcol⟩ := List.mem_flatMap.mp hr
  obtain ⟨c, hc, hfk⟩ := List.mem_filterMap.mp hcol
  split_ifs at hjt with hself hthrough
  · split at hjt
    · simp at hjt
    · rw [← Option.some.inj hjt]
      split at hfk
      · next fk hcfk =>
          split_ifs at hfk with href
          rw [← Option.some.inj hfk]
          exact ⟨e.2, (OrdMap.mem_entries_iff _ _ _).mp he, ⟨c, hc, rfl, fk, hcfk, href⟩,
            by rw [← href]; rfl, by rw [← href]; rfl⟩
      · simp at hfk
  · split at hjt <;> simp at hjt

/-- The groups of one delta of the differ. -/
structure PromotedGroups (after : AppliedSchema) (groups : List PkTypeFlipGroup) : Prop where
  option : ∀ g ∈ groups, g.joinTableOption = .optionA
  entry : ∀ g ∈ groups, ∀ jt ∈ g.joinTables, ∃ t,
    EntryOf after (groups.map PkTypeFlipGroup.parentTable) g.parentTable jt t

theorem PromotedGroups.partnersMigrate (after : AppliedSchema) (groups : List PkTypeFlipGroup)
    (h : PromotedGroups after groups) : PartnersMigrate groups := by
  intro g hg jt hjt b hb
  obtain ⟨t, ht⟩ := h.entry g hg jt hjt
  rw [ht.partnerTable] at hb
  obtain ⟨p, hp, rfl⟩ := Option.map_eq_some_iff.mp hb
  exact List.contains_iff_mem.mp (Option.filter_eq_some_iff.mp hp).2

theorem bucketDelta_groups (before after : OrdMap BucketKey AppliedSchema) (bucket : BucketKey)
    (delta : SchemaDelta) (h : bucketDelta before after bucket = .ok delta) :
    (∀ op ∈ delta.operations, ∀ gs, op ≠ .pkTypeFlipMultiGroup gs) ∧
      PromotedGroups ((after.get bucket).getD .empty) (groupsOf delta.operations) ∧
      rejectPartitionedMultiParentClusters delta.operations = .ok () := by
  unfold bucketDelta at h
  split at h
  · simp at h
  · next ops hops =>
      split at h
      · simp at h
      · next hrej =>
          rw [← Except.ok.inj h]
          rw [promotePkFlipsToGroups] at hops
          obtain ⟨gs, hsplit, hparents, hgs⟩ := promoteParents_ok _ _ _ _ _ hops
          have hbase : ∀ op ∈ (bucketOps before after bucket).filter fun op =>
              (pkTypeFlip? op).isNone, emittedByDiff op = true :=
            fun op hop => emitted_bucketOps before after bucket op (List.mem_of_mem_filter hop)
          have hmulti : ∀ op ∈ ops, ∀ ms, op ≠ .pkTypeFlipMultiGroup ms := by
            rintro op hop ms rfl
            rw [hsplit] at hop
            rcases List.mem_append.mp hop with hop | hop
            · exact absurd (hbase _ hop) (by simp [emittedByDiff])
            · simp at hop
          have hbasegroups : groupsOf ((bucketOps before after bucket).filter fun op =>
              (pkTypeFlip? op).isNone) = [] := by
            rw [groupsOf, List.flatMap_eq_nil_iff]
            exact fun op hop => opGroups_of_emitted op (hbase op hop)
          have hgroups : groupsOf ops = gs := by
            rw [hsplit, groupsOf, List.flatMap_append, ← groupsOf, hbasegroups, List.nil_append,
              List.flatMap_map]
            induction gs with
            | nil => rfl
            | cons g gs ih => simp [opGroups]
          refine ⟨hmulti, ?_, hrej⟩
          rw [hgroups]
          refine ⟨fun g hg => ?_, fun g hg jt hjt => ?_⟩
          · obtain ⟨family, h1, -⟩ := hgs g hg
            exact h1
          · obtain ⟨family, -, h2⟩ := hgs g hg
            rw [h2] at hjt
            rw [hparents]
            exact groupJoinTables_entries _ _ family _ jt ((sortBy_perm _ _).mem_iff.mp hjt)

/-! ## Recorded pairs -/

/-- The (join table, foreign-key column) pairs an entry records. -/
def PkFlipJoinTable.pairs (jt : PkFlipJoinTable) : List (String × String) :=
  (jt.table, jt.fkToParentColumn) :: jt.fkToPartnerColumn.toList.map fun c => (jt.table, c)

def recordedPairs (g : PkTypeFlipGroup) : List (String × String) :=
  g.joinTables.flatMap PkFlipJoinTable.pairs

theorem mem_recordedPairs (g : PkTypeFlipGroup) (x : String × String) :
    x ∈ recordedPairs g ↔ ∃ jt ∈ g.joinTables, x = (jt.table, jt.fkToParentColumn) ∨
      ∃ c, jt.fkToPartnerColumn = some c ∧ x = (jt.table, c) := by
  simp only [recordedPairs, List.mem_flatMap, PkFlipJoinTable.pairs, List.mem_cons, List.mem_map,
    Option.mem_toList]
  refine exists_congr fun jt => and_congr_right fun _ => or_congr_right ?_
  exact exists_congr fun c => and_congr_right fun _ => eq_comm

theorem mem_recordedPairs_dropPartnered (g : PkTypeFlipGroup) (x : String × String) :
    x ∈ recordedPairs (dropPartnered g) ↔ ∃ jt ∈ g.joinTables, jt.fkToPartnerColumn = none ∧
      x = (jt.table, jt.fkToParentColumn) := by
  rw [mem_recordedPairs]
  simp only [dropPartnered, List.mem_filter, Bool.not_eq_true', Option.isSome_eq_false_iff,
    Option.isNone_iff_eq_none]
  constructor
  · rintro ⟨jt, ⟨hjt, hnone⟩, h | ⟨c, hc, -⟩⟩
    · exact ⟨jt, hjt, hnone, h⟩
    · simp [hnone] at hc
  · rintro ⟨jt, hjt, hnone, h⟩
    exact ⟨jt, ⟨hjt, hnone⟩, .inl h⟩

/-- The table a column of the schema points at. -/
def refOf (after : AppliedSchema) (x : String × String) : Option String :=
  (after.models.get x.1).bind fun t =>
    (t.columns.find? fun c => c.name = x.2).bind fun c =>
      c.foreignKey.map ForeignKeySchema.refTable

/-- Column names are unique in every table. -/
def ColumnsNodup (after : AppliedSchema) : Prop :=
  ∀ k t, after.models.get k = some t → (t.columns.map ColumnSchema.name).Nodup

theorem find_column (cols : List ColumnSchema) (hnd : (cols.map ColumnSchema.name).Nodup)
    (c : ColumnSchema) (hc : c ∈ cols) : (cols.find? fun d => d.name = c.name) = some c := by
  induction cols with
  | nil => simp at hc
  | cons d cols ih =>
      rw [List.map_cons, List.nodup_cons] at hnd
      rcases List.mem_cons.mp hc with rfl | hc
      · simp
      · have hne : d.name ≠ c.name := fun h => hnd.1 (h ▸ List.mem_map_of_mem hc)
        rw [List.find?_cons_of_neg (by simpa using hne)]
        exact ih hnd.2 hc

private theorem refOf_column (after : AppliedSchema) (hcols : ColumnsNodup after) (k : String)
    (t : TableSchema) (ht : after.models.get k = some t) (c : ColumnSchema)
    (hc : c ∈ t.columns) (fk : ForeignKeySchema) (hfk : c.foreignKey = some fk) :
    refOf after (k, c.name) = some fk.refTable := by
  simp only [refOf, ht, Option.bind_some, find_column t.columns (hcols k t ht) c hc, hfk,
    Option.map_some]

theorem EntryOf.refOf_parent (after : AppliedSchema) (hcols : ColumnsNodup after)
    (migrating : List String) (parent : String) (jt : PkFlipJoinTable) (t : TableSchema)
    (h : EntryOf after migrating parent jt t) :
    refOf after (jt.table, jt.fkToParentColumn) = some parent := by
  obtain ⟨c, hc, hname, fk, hfk, rfl⟩ := h.column
  rw [← hname]
  exact refOf_column after hcols jt.table t h.table c hc fk hfk

private theorem partnerOf_spec (t : TableSchema) (col parent : String) (p : String × String)
    (h : partnerOf t col parent = some p) : ∃ pre c post, t.columns = pre ++ c :: post ∧
      c.name = p.1 ∧ c.name ≠ col ∧ (∃ fk, c.foreignKey = some fk ∧ fk.refTable = p.2) ∧
      p.2 ≠ parent ∧ ∀ d ∈ pre, d.name ≠ col → ∀ fk, d.foreignKey = some fk →
        fk.refTable = parent := by
  obtain ⟨pre, c, post, hsplit, hc, hpre⟩ := List.findSome?_eq_some_iff.mp h
  split_ifs at hc with hname
  split at hc
  · next fk hfk =>
      split_ifs at hc with href
      rw [← Option.some.inj hc]
      refine ⟨pre, c, post, hsplit, rfl, hname, ⟨fk, hfk, rfl⟩, href, ?_⟩
      intro d hd hne fk' hfk'
      by_contra hne'
      have := hpre d hd
      simp [hne, hfk', hne'] at this
  · simp at hc

theorem EntryOf.partner (after : AppliedSchema) (hcols : ColumnsNodup after)
    (migrating : List String) (parent : String) (jt : PkFlipJoinTable) (t : TableSchema)
    (h : EntryOf after migrating parent jt t) (c : String)
    (hc : jt.fkToPartnerColumn = some c) : ∃ b, jt.fkToPartnerTable = some b ∧
      refOf after (jt.table, c) = some b ∧ b ∈ migrating ∧ b ≠ parent := by
  rw [h.partnerColumn] at hc
  obtain ⟨p, hp, rfl⟩ := Option.map_eq_some_iff.mp hc
  obtain ⟨hpo, hmig⟩ := Option.filter_eq_some_iff.mp hp
  obtain ⟨pre, d, post, hsplit, hname, -, ⟨fk, hfk, href⟩, hne, -⟩ :=
    partnerOf_spec _ _ _ _ hpo
  refine ⟨p.2, by rw [h.partnerTable, hp]; rfl, ?_, List.contains_iff_mem.mp hmig, hne⟩
  rw [← hname, ← href]
  exact refOf_column after hcols jt.table t h.table d (by simp [hsplit]) fk hfk

/-- A recorded column points at a parent of the same component. -/
theorem refOf_recorded (after : AppliedSchema) (hcols : ColumnsNodup after)
    (groups : List PkTypeFlipGroup) (hprom : PromotedGroups after groups)
    (g : PkTypeFlipGroup) (hg : g ∈ groups) (x : String × String) (hx : x ∈ recordedPairs g) :
    ∃ p, refOf after x = some p ∧
      clusterRoot groups g.parentTable = clusterRoot groups p := by
  obtain ⟨jt, hjt, hx⟩ := (mem_recordedPairs g x).mp hx
  obtain ⟨t, ht⟩ := hprom.entry g hg jt hjt
  rcases hx with rfl | ⟨c, hc, rfl⟩
  · exact ⟨g.parentTable, ht.refOf_parent after hcols, rfl⟩
  · obtain ⟨b, hb, href, -, -⟩ := ht.partner after hcols _ _ _ _ c hc
    refine ⟨b, href, ?_⟩
    rw [← linked_iff_root_eq]
    exact .rel _ _ ⟨g, hg, rfl, jt, hjt, hb⟩

/-! ## The condition -/

/-- `w` has the smallest parent among the groups connected to `l`. -/
def IsWinner (groups : List PkTypeFlipGroup) (w l : PkTypeFlipGroup) : Prop :=
  Linked groups w.parentTable l.parentTable ∧
    ∀ m ∈ groups, Linked groups m.parentTable l.parentTable → w.parentTable ≤ m.parentTable

/-- Parents are distinct, and the smallest parent of each component records both columns
of every partnered entry of the others and the column of no other entry of theirs. -/
structure WinnerCovers (groups : List PkTypeFlipGroup) : Prop where
  parents : (groups.map PkTypeFlipGroup.parentTable).Nodup
  partnered : ∀ l ∈ groups, ∀ w ∈ groups, IsWinner groups w l →
    w.parentTable ≠ l.parentTable → ∀ jt ∈ l.joinTables, jt.fkToPartnerColumn.isSome = true →
      ∀ x ∈ jt.pairs, x ∈ recordedPairs w
  single : ∀ l ∈ groups, ∀ w ∈ groups, IsWinner groups w l →
    w.parentTable ≠ l.parentTable → ∀ jt ∈ l.joinTables, jt.fkToPartnerColumn = none →
      (jt.table, jt.fkToParentColumn) ∉ recordedPairs w

theorem isWinner_iff (groups : List PkTypeFlipGroup) (hpart : PartnersMigrate groups)
    (w l : PkTypeFlipGroup) (hl : l ∈ groups) :
    IsWinner groups w l ↔ w.parentTable = clusterRoot groups l.parentTable := by
  constructor
  · rintro ⟨hlink, hmin⟩
    obtain ⟨m, hm, hroot⟩ := exists_root_group groups hpart l hl
    have hml : Linked groups m.parentTable l.parentTable := by
      rw [linked_iff_root_eq, hroot, clusterRoot_clusterRoot]
    apply le_antisymm (hroot ▸ hmin m hm hml)
    rw [← (linked_iff_root_eq groups _ _).mp hlink]
    exact clusterRoot_le groups _
  · intro h
    refine ⟨?_, fun m _ hml => ?_⟩
    · rw [linked_iff_root_eq, h, clusterRoot_clusterRoot]
    · rw [h, ← (linked_iff_root_eq groups _ _).mp hml]
      exact clusterRoot_le groups _

private theorem countP_eq_one_iff {α : Type} (p : α → Bool) (l : List α) (h : l.Nodup) :
    l.countP p = 1 ↔ ∃ a ∈ l, p a = true ∧ ∀ b ∈ l, p b = true → b = a := by
  rw [List.countP_eq_length_filter, List.length_eq_one_iff]
  constructor
  · rintro ⟨a, ha⟩
    have hmem : ∀ b, b ∈ l ∧ p b = true ↔ b = a := by
      intro b
      rw [← List.mem_filter, ha, List.mem_singleton]
    exact ⟨a, ((hmem a).mpr rfl).1, ((hmem a).mpr rfl).2, fun b hb hpb => (hmem b).mp ⟨hb, hpb⟩⟩
  · rintro ⟨a, ha, hpa, huniq⟩
    refine ⟨a, List.perm_singleton.mp ?_⟩
    refine (List.perm_ext_iff_of_nodup (h.filter _) (List.nodup_singleton a)).mpr fun b => ?_
    rw [List.mem_filter, List.mem_singleton]
    exact ⟨fun hb => huniq b hb.1 hb.2, fun hb => hb ▸ ⟨ha, hpa⟩⟩

/-- Some group, and no other, records `x` after the merge. -/
def KeptOnce (groups : List PkTypeFlipGroup) (x : String × String) : Prop :=
  ∃ a ∈ groups, x ∈ recordedPairs (keepByRoot groups a) ∧
    ∀ b ∈ groups, x ∈ recordedPairs (keepByRoot groups b) → b = a

private theorem mem_keepByRoot_of_root (groups : List PkTypeFlipGroup) (g : PkTypeFlipGroup)
    (x : String × String) (h : clusterRoot groups g.parentTable = g.parentTable) :
    x ∈ recordedPairs (keepByRoot groups g) ↔ x ∈ recordedPairs g := by
  rw [keepByRoot, if_pos h]

private theorem mem_keepByRoot_of_not_root (groups : List PkTypeFlipGroup)
    (g : PkTypeFlipGroup) (x : String × String)
    (h : clusterRoot groups g.parentTable ≠ g.parentTable) :
    x ∈ recordedPairs (keepByRoot groups g) ↔ ∃ jt ∈ g.joinTables,
      jt.fkToPartnerColumn = none ∧ x = (jt.table, jt.fkToParentColumn) := by
  rw [keepByRoot, if_neg h, mem_recordedPairs_dropPartnered]

private theorem eq_of_parent (groups : List PkTypeFlipGroup)
    (hnd : (groups.map PkTypeFlipGroup.parentTable).Nodup) (g h : PkTypeFlipGroup)
    (hg : g ∈ groups) (hh : h ∈ groups) (heq : g.parentTable = h.parentTable) : g = h :=
  List.inj_on_of_nodup_map hnd hg hh heq

section Exactness

variable (after : AppliedSchema) (hcols : ColumnsNodup after) (groups : List PkTypeFlipGroup)
  (hprom : PromotedGroups after groups)
  (hnd : (groups.map PkTypeFlipGroup.parentTable).Nodup)

include hcols

/-- If a group records `x = (t, c)` as partner column, then the first foreign key of `t`
seen from any other parent belongs to a migrating parent as well. -/
private theorem partnerAt_isSome (w : PkTypeFlipGroup) (hw : w ∈ groups)
    (jtw : PkFlipJoinTable) (t : TableSchema)
    (htw : EntryOf after (groups.map PkTypeFlipGroup.parentTable) w.parentTable jtw t)
    (c l col b : String) (hc : jtw.fkToPartnerColumn = some c)
    (hl : refOf after (jtw.table, c) = some l) (hcol : c ≠ col) (hb : l ≠ b) :
    (partnerAt t col b (groups.map PkTypeFlipGroup.parentTable)).isSome := by
  have hpc := htw.partnerColumn
  rw [hc] at hpc
  obtain ⟨q, hq, hqc⟩ := Option.map_eq_some_iff.mp hpc.symm
  obtain ⟨hpo, hmig⟩ := Option.filter_eq_some_iff.mp hq
  obtain ⟨pre, d, post, hsplit, hdname, hdcol, ⟨fk, hfk, href⟩, -, hpre⟩ :=
    partnerOf_spec _ _ _ _ hpo
  have hnames := hcols jtw.table t htw.table
  have hdl : q.2 = l := by
    have := refOf_column after hcols jtw.table t htw.table d (by simp [hsplit]) fk hfk
    rw [hdname, hqc, hl, href, Option.some_inj] at this
    exact this.symm
  have hwmem : w.parentTable ∈ groups.map PkTypeFlipGroup.parentTable := List.mem_map_of_mem hw
  -- every foreign key before `d` points at the parent of `w`
  have hpre' : ∀ e ∈ pre, ∀ fk', e.foreignKey = some fk' → fk'.refTable = w.parentTable := by
    intro e he fk' hfk'
    by_cases hename : e.name = jtw.fkToParentColumn
    · have h1 := refOf_column after hcols jtw.table t htw.table e (by simp [hsplit, he]) fk' hfk'
      rw [hename, htw.refOf_parent after hcols, Option.some_inj] at h1
      exact h1.symm
    · exact hpre e he hename fk' hfk'
  have hfound : ∃ r, partnerOf t col b = some r ∧
      r.2 ∈ groups.map PkTypeFlipGroup.parentTable := by
    rw [partnerOf, hsplit, List.findSome?_append]
    cases hp : pre.findSome? _ with
    | some r =>
        refine ⟨r, rfl, ?_⟩
        obtain ⟨e, he, her⟩ := List.exists_of_findSome?_eq_some hp
        split_ifs at her
        split at her
        · next fk' hfk' =>
            split_ifs at her
            rw [← Option.some.inj her, hpre' e he fk' hfk']
            exact hwmem
        · simp at her
    | none =>
        refine ⟨q, ?_, List.contains_iff_mem.mp hmig⟩
        have hne : d.name ≠ col := by rw [hdname, hqc]; exact hcol
        have hrb : fk.refTable ≠ b := by rw [href, hdl]; exact hb
        rw [Option.none_or, List.findSome?_cons]
        simp only [if_neg hne, hfk, if_neg hrb]
        rw [hdname, href]
  obtain ⟨r, hr, hrm⟩ := hfound
  rw [partnerAt, hr, Option.filter_some, if_pos (List.contains_iff_mem.mpr hrm)]
  rfl

include hprom

/-- Two entries for one column belong to one parent and have the same partner. -/
private theorem entry_unique (g h : PkTypeFlipGroup) (hg : g ∈ groups) (hh : h ∈ groups)
    (jt jt' : PkFlipJoinTable) (hjt : jt ∈ g.joinTables) (hjt' : jt' ∈ h.joinTables)
    (heq : (jt.table, jt.fkToParentColumn) = (jt'.table, jt'.fkToParentColumn)) :
    g.parentTable = h.parentTable ∧ jt.fkToPartnerColumn = jt'.fkToPartnerColumn := by
  obtain ⟨t, ht⟩ := hprom.entry g hg jt hjt
  obtain ⟨t', ht'⟩ := hprom.entry h hh jt' hjt'
  have hp : g.parentTable = h.parentTable := by
    have h1 := ht.refOf_parent after hcols
    rw [heq, ht'.refOf_parent after hcols] at h1
    exact (Option.some.inj h1).symm
  rw [Prod.mk.injEq] at heq
  have htt : t = t' := by
    have := ht.table
    rw [heq.1, ht'.table] at this
    exact (Option.some.inj this).symm
  refine ⟨hp, ?_⟩
  rw [ht.partnerColumn, ht'.partnerColumn, htt, hp, heq.2]

/-- A merged group that still records `x` is the root of the component `x` points at,
or the group of the parent `x` points at. -/
private theorem kept_holder (h : PkTypeFlipGroup) (hh : h ∈ groups) (x : String × String)
    (hx : x ∈ recordedPairs (keepByRoot groups h)) (p : String) (hp : refOf after x = some p) :
    (h.parentTable = clusterRoot groups p ∧ x ∈ recordedPairs h) ∨
      (h.parentTable = p ∧ ∃ jt ∈ h.joinTables, jt.fkToPartnerColumn = none ∧
        x = (jt.table, jt.fkToParentColumn)) := by
  by_cases hroot : clusterRoot groups h.parentTable = h.parentTable
  · have hx' := (mem_keepByRoot_of_root groups h x hroot).mp hx
    obtain ⟨q, hq, hlink⟩ := refOf_recorded after hcols groups hprom h hh x hx'
    rw [hp, Option.some_inj] at hq
    exact .inl ⟨by rw [← hroot, hlink, hq], hx'⟩
  · obtain ⟨jt, hjt, hnone, rfl⟩ := (mem_keepByRoot_of_not_root groups h x hroot).mp hx
    obtain ⟨t, ht⟩ := hprom.entry h hh jt hjt
    have := ht.refOf_parent after hcols
    rw [hp, Option.some_inj] at this
    exact .inr ⟨this.symm, jt, hjt, hnone, rfl⟩

include hnd

private theorem keptOnce_of_covers (hcov : WinnerCovers groups) (g : PkTypeFlipGroup)
    (hg : g ∈ groups) (x : String × String) (hx : x ∈ recordedPairs g) :
    KeptOnce groups x := by
  have hpart := hprom.partnersMigrate
  obtain ⟨p, hp, hlink⟩ := refOf_recorded after hcols groups hprom g hg x hx
  obtain ⟨w, hw, hwr⟩ := exists_root_group groups hpart g hg
  have hwroot : clusterRoot groups w.parentTable = w.parentTable := by
    rw [hwr, clusterRoot_clusterRoot]
  have hwin : ∀ h ∈ groups, h.parentTable = p → IsWinner groups w h := by
    intro h hh hhp
    rw [isWinner_iff groups hpart w h hh, hwr, hlink, hhp]
  by_cases hxw : x ∈ recordedPairs w
  · refine ⟨w, hw, (mem_keepByRoot_of_root groups w x hwroot).mpr hxw, fun h hh hxh => ?_⟩
    rcases kept_holder after hcols groups hprom h hh x hxh p hp with
      ⟨hroot, -⟩ | ⟨hhp, jt, hjt, hnone, rfl⟩
    · exact eq_of_parent groups hnd h w hh hw (by rw [hroot, hwr, hlink])
    · by_contra hne
      have hne' : w.parentTable ≠ h.parentTable := fun heq =>
        hne (eq_of_parent groups hnd h w hh hw heq.symm)
      exact hcov.single h hh w hw (hwin h hh hhp) hne' jt hjt hnone hxw
  · have hne : w.parentTable ≠ g.parentTable := fun heq =>
      hxw (eq_of_parent groups hnd w g hw hg heq ▸ hx)
    have hwg : IsWinner groups w g := (isWinner_iff groups hpart w g hg).mpr hwr
    obtain ⟨jt, hjt, hxjt⟩ := List.mem_flatMap.mp hx
    have hnone : jt.fkToPartnerColumn = none := by
      by_contra hsome
      exact hxw (hcov.partnered g hg w hw hwg hne jt hjt
        (Option.isSome_iff_ne_none.mpr hsome) x hxjt)
    have hxeq : x = (jt.table, jt.fkToParentColumn) := by
      simpa [PkFlipJoinTable.pairs, hnone] using hxjt
    have hgroot : clusterRoot groups g.parentTable ≠ g.parentTable := hwr ▸ hne
    refine ⟨g, hg, (mem_keepByRoot_of_not_root groups g x hgroot).mpr ⟨jt, hjt, hnone, hxeq⟩,
      fun h hh hxh => ?_⟩
    obtain ⟨t, ht⟩ := hprom.entry g hg jt hjt
    have hgp := ht.refOf_parent after hcols
    rw [← hxeq, hp, Option.some_inj] at hgp
    rcases kept_holder after hcols groups hprom h hh x hxh p hp with
      ⟨hroot, hxh'⟩ | ⟨hhp, -⟩
    · have hhw : h = w :=
        eq_of_parent groups hnd h w hh hw (by rw [hroot, hwr, hlink])
      exact absurd (hhw ▸ hxh') hxw
    · exact eq_of_parent groups hnd h g hh hg (hhp.trans hgp)

/-- **Exactness, converse.** Once every recorded pair is kept once, the winner covers. -/
private theorem covers_of_keptOnce
    (hkept : ∀ g ∈ groups, ∀ x ∈ recordedPairs g, KeptOnce groups x) : WinnerCovers groups where
  parents := hnd
  partnered l hl w hw hwin hne jt hjt hsome := by
    have hpart := hprom.partnersMigrate
    have hwr := (isWinner_iff groups hpart w l hl).mp hwin
    obtain ⟨t, ht⟩ := hprom.entry l hl jt hjt
    obtain ⟨c', hc'⟩ := Option.isSome_iff_exists.mp hsome
    have hx : (jt.table, jt.fkToParentColumn) ∈ recordedPairs w := by
      obtain ⟨a, ha, hxa, -⟩ := hkept l hl _
        ((mem_recordedPairs l _).mpr ⟨jt, hjt, .inl rfl⟩)
      rcases kept_holder after hcols groups hprom a ha _ hxa _ (ht.refOf_parent after hcols) with
        ⟨hroot, hmem⟩ | ⟨hal, jt', hjt', hnone, heq⟩
      · exact eq_of_parent groups hnd a w ha hw (hroot.trans hwr.symm) ▸ hmem
      · have := (entry_unique after hcols groups hprom l a hl ha jt jt' hjt hjt' heq).2
        rw [hnone, hc'] at this
        cases this
    have hx' : (jt.table, c') ∈ recordedPairs w := by
      obtain ⟨b, hb, href, -, hbl⟩ := ht.partner after hcols _ _ _ _ c' hc'
      obtain ⟨a, ha, hxa, -⟩ := hkept l hl (jt.table, c')
        ((mem_recordedPairs l _).mpr ⟨jt, hjt, .inr ⟨c', hc', rfl⟩⟩)
      have hroot : clusterRoot groups b = w.parentTable := by
        rw [hwr, eq_comm, ← linked_iff_root_eq]
        exact .rel _ _ ⟨l, hl, rfl, jt, hjt, hb⟩
      rcases kept_holder after hcols groups hprom a ha _ hxa _ href with
        ⟨harb, hmem⟩ | ⟨hab, jt', hjt', hnone, heq⟩
      · exact eq_of_parent groups hnd a w ha hw (harb.trans hroot) ▸ hmem
      · -- the winner's entry forces a partner on the entry of the partner's own group
        exfalso
        obtain ⟨jtw, hjtw, hxw⟩ := (mem_recordedPairs w _).mp hx
        obtain ⟨tw, htw⟩ := hprom.entry w hw jtw hjtw
        obtain ⟨t', ht'⟩ := hprom.entry a ha jt' hjt'
        rw [Prod.mk.injEq] at heq
        have href' := ht.refOf_parent after hcols
        rcases hxw with hxw | ⟨c, hcw, hxw⟩
        · rw [hxw, htw.refOf_parent after hcols, Option.some_inj] at href'
          exact hne href'
        · rw [Prod.mk.injEq] at hxw
          have htt : t' = tw := by
            have h1 := ht'.table
            rw [← heq.1, hxw.1, htw.table] at h1
            exact (Option.some.inj h1).symm
          have hcc : c ≠ jt'.fkToParentColumn := by
            intro h
            rw [← heq.2, ← hxw.2] at h
            rw [h, href, Option.some_inj] at href'
            exact hbl href'
          have := partnerAt_isSome after hcols groups w hw jtw tw htw c
            l.parentTable jt'.fkToParentColumn b hcw (by rw [← hxw.1, ← hxw.2]; exact href')
            hcc (Ne.symm hbl)
          have hnone' := ht'.partnerColumn
          rw [hnone, htt, hab] at hnone'
          rw [Option.isSome_iff_exists] at this
          obtain ⟨q, hq⟩ := this
          rw [hq] at hnone'
          cases hnone'
    intro x hxjt
    simp only [PkFlipJoinTable.pairs, hc', Option.toList_some, List.map_cons, List.map_nil,
      List.mem_cons, List.not_mem_nil, or_false] at hxjt
    rcases hxjt with rfl | rfl
    · exact hx
    · exact hx'
  single l hl w hw hwin hne jt hjt hnone hmem := by
    have hwr := (isWinner_iff groups hprom.partnersMigrate w l hl).mp hwin
    obtain ⟨a, -, -, huniq⟩ := hkept l hl _ ((mem_recordedPairs l _).mpr ⟨jt, hjt, .inl rfl⟩)
    have hlroot : clusterRoot groups l.parentTable ≠ l.parentTable := hwr ▸ hne
    have hla := huniq l hl ((mem_keepByRoot_of_not_root groups l _ hlroot).mpr
      ⟨jt, hjt, hnone, rfl⟩)
    have hwroot : clusterRoot groups w.parentTable = w.parentTable := by
      rw [hwr, clusterRoot_clusterRoot]
    have hwa := huniq w hw ((mem_keepByRoot_of_root groups w _ hwroot).mpr hmem)
    exact hne (by rw [hwa, hla])

end Exactness

/-! ## The result -/

/-- A group but for its join tables: the parent with its kinds, the children, the self
reference, the cycles, the partitioning and the flags. -/
def PkTypeFlipGroup.withoutJoinTables (g : PkTypeFlipGroup) : PkTypeFlipGroup :=
  { g with joinTables := [] }

@[simp] theorem keepByRoot_withoutJoinTables (groups : List PkTypeFlipGroup)
    (g : PkTypeFlipGroup) :
    (keepByRoot groups g).withoutJoinTables = g.withoutJoinTables := by
  unfold keepByRoot
  split_ifs <;> rfl

/-- Every recorded pair is recorded by exactly one group afterwards, every group occurs
exactly once, and the groups are those from before in all but their join tables. -/
structure CoverageKept (before after : SchemaDelta) : Prop where
  pairs : ∀ g ∈ groupsOf before.operations, ∀ x ∈ recordedPairs g,
    (groupsOf after.operations).countP (fun h => (recordedPairs h).contains x) = 1
  groups : ∀ g ∈ groupsOf before.operations,
    (groupsOf after.operations).countP (fun h => h.parentTable == g.parentTable) = 1
  contents : ((groupsOf after.operations).map PkTypeFlipGroup.withoutJoinTables).Perm
    ((groupsOf before.operations).map PkTypeFlipGroup.withoutJoinTables)

private theorem keptOnce_iff (groups out : List PkTypeFlipGroup)
    (hnd : (groups.map PkTypeFlipGroup.parentTable).Nodup)
    (hperm : out.Perm (groups.map (keepByRoot groups))) (x : String × String) :
    out.countP (fun h => (recordedPairs h).contains x) = 1 ↔ KeptOnce groups x := by
  rw [hperm.countP_eq, List.countP_map, countP_eq_one_iff _ _ (List.Nodup.of_map _ hnd)]
  simp only [KeptOnce, Function.comp_apply, List.contains_iff_mem]

private theorem delta_coverage_iff (after : AppliedSchema) (hcols : ColumnsNodup after)
    (delta : SchemaDelta)
    (hmulti : ∀ op ∈ delta.operations, ∀ gs, op ≠ .pkTypeFlipMultiGroup gs)
    (hprom : PromotedGroups after (groupsOf delta.operations))
    (hrej : rejectPartitionedMultiParentClusters delta.operations = .ok ()) :
    (∃ out, mergeCrossFlippingGroupsIntoMulti delta = .ok out ∧ CoverageKept delta out) ↔
      WinnerCovers (groupsOf delta.operations) := by
  have hpart := hprom.partnersMigrate
  constructor
  · rintro ⟨out, hout, hkept⟩
    have hparents := merge_parents_perm delta out hmulti hout
    have hnd : ((groupsOf delta.operations).map PkTypeFlipGroup.parentTable).Nodup := by
      rw [List.nodup_iff_count_le_one]
      intro a
      rw [← hparents.count_eq]
      by_cases ha : a ∈ (groupsOf delta.operations).map PkTypeFlipGroup.parentTable
      · obtain ⟨g, hg, rfl⟩ := List.mem_map.mp ha
        have := hkept.groups g hg
        rw [List.count, List.countP_map]
        exact this.le
      · rw [List.count_eq_zero_of_not_mem (fun h => ha (hparents.mem_iff.mp h))]
        omega
    have hperm := merge_groups_perm delta out hmulti hpart hnd hout
    exact covers_of_keptOnce after hcols _ hprom hnd fun g hg x hx =>
      (keptOnce_iff _ _ hnd hperm x).mp (hkept.pairs g hg x hx)
  · intro hcov
    obtain ⟨out, hout⟩ := merge_total delta hmulti hpart hcov.parents hrej
    have hperm := merge_groups_perm delta out hmulti hpart hcov.parents hout
    refine ⟨out, hout, fun g hg x hx => ?_, fun g hg => ?_, ?_⟩
    · exact (keptOnce_iff _ _ hcov.parents hperm x).mpr
        (keptOnce_of_covers after hcols _ hprom hcov.parents hcov g hg x hx)
    · have hparents := merge_parents_perm delta out hmulti hout
      have hone : (groupsOf out.operations).countP (fun h => h.parentTable == g.parentTable) =
          ((groupsOf out.operations).map PkTypeFlipGroup.parentTable).count g.parentTable := by
        rw [List.count, List.countP_map]
        rfl
      rw [hone, hparents.count_eq]
      exact List.count_eq_one_of_mem hcov.parents (List.mem_map_of_mem hg)
    · have hcontents := hperm.map PkTypeFlipGroup.withoutJoinTables
      simpa [List.map_map, Function.comp_def] using hcontents

private theorem stampOption_eq_self (delta : SchemaDelta)
    (hmulti : ∀ op ∈ delta.operations, ∀ gs, op ≠ .pkTypeFlipMultiGroup gs)
    (hopt : ∀ g ∈ groupsOf delta.operations, g.joinTableOption = .optionA) :
    delta.operations.map (stampOption .optionA) = delta.operations := by
  rw [List.map_congr_left (g := id), List.map_id]
  intro op hop
  cases op with
  | pkTypeFlipMultiGroup gs => exact absurd rfl (hmulti _ hop gs)
  | pkTypeFlipGroup g =>
      have hg : g.joinTableOption = .optionA :=
        hopt g (List.mem_flatMap.mpr ⟨_, hop, by simp [opGroups]⟩)
      cases g
      simp only at hg
      simp [stampOption, hg]
  | _ => rfl

private theorem columnsNodup_bucket (after : OrdMap BucketKey NamedSchema)
    (bucket : BucketKey) : ColumnsNodup (((rawBuckets after).get bucket).getD .empty) := by
  intro k t ht
  rw [rawBuckets, OrdMap.get_map] at ht
  cases hs : after.get bucket with
  | none =>
      rw [hs] at ht
      simp [AppliedSchema.empty] at ht
  | some s =>
      rw [hs] at ht
      exact s.columns_nodup k t ht

/-- The condition as a test, with the computed root for the smallest parent. -/
def winnerCoversTest (groups : List PkTypeFlipGroup) : Bool :=
  decide (groups.map PkTypeFlipGroup.parentTable).Nodup &&
    groups.all fun l => groups.all fun w =>
      if w.parentTable = clusterRoot groups l.parentTable ∧ w.parentTable ≠ l.parentTable then
        l.joinTables.all fun jt =>
          if jt.fkToPartnerColumn.isSome then jt.pairs.all (recordedPairs w).contains
          else !(recordedPairs w).contains (jt.table, jt.fkToParentColumn)
      else true

theorem winnerCovers_of_test (groups : List PkTypeFlipGroup) (hpart : PartnersMigrate groups)
    (h : winnerCoversTest groups = true) : WinnerCovers groups := by
  simp only [winnerCoversTest, Bool.and_eq_true, decide_eq_true_iff, List.all_eq_true] at h
  obtain ⟨hnd, hall⟩ := h
  have hjt : ∀ l ∈ groups, ∀ w ∈ groups, IsWinner groups w l → w.parentTable ≠ l.parentTable →
      ∀ jt ∈ l.joinTables, (if jt.fkToPartnerColumn.isSome = true then
        jt.pairs.all (recordedPairs w).contains
        else !(recordedPairs w).contains (jt.table, jt.fkToParentColumn)) = true := by
    intro l hl w hw hwin hne jt hjt
    have := hall l hl w hw
    rw [if_pos ⟨(isWinner_iff groups hpart w l hl).mp hwin, hne⟩] at this
    exact List.all_eq_true.mp this jt hjt
  refine ⟨hnd, ?_, ?_⟩
  · intro l hl w hw hwin hne jt hmem hsome x hx
    have := hjt l hl w hw hwin hne jt hmem
    rw [if_pos hsome] at this
    exact List.contains_iff_mem.mp (List.all_eq_true.mp this x hx)
  · intro l hl w hw hwin hne jt hmem hnone hx
    have := hjt l hl w hw hwin hne jt hmem
    rw [hnone, if_neg (by simp)] at this
    simp [hx] at this

/-- Two parents that share a join table. -/
def pairSchema (kind : PkKindSchema) : NamedSchema :=
  .ofTables [.keyed "a" kind, .keyed "b" kind, .through "ab" "a" "b"]
    (by simp [TableSchema.keyed, TableSchema.through, TableSchema.bare, ColumnSchema.bare,
      ColumnSchema.reference])

/-- Three parents in a chain: one join table for each neighbouring pair. -/
def chainSchema (kind : PkKindSchema) : NamedSchema :=
  .ofTables [.keyed "a" kind, .keyed "b" kind, .keyed "c" kind, .through "ab" "a" "b",
      .through "bc" "b" "c"]
    (by simp [TableSchema.keyed, TableSchema.through, TableSchema.bare, ColumnSchema.bare,
      ColumnSchema.reference])

theorem partnersMigrate_of_mem (before after : OrdMap BucketKey AppliedSchema)
    (deltas : List SchemaDelta) (h : diffBucketMaps before after = .ok deltas) (d : SchemaDelta)
    (hd : d ∈ deltas) : PartnersMigrate (groupsOf d.operations) := by
  obtain ⟨bucket, -, hb⟩ := Fallible.exists_of_mem_mapM _ _ _ h d hd
  exact (bucketDelta_groups _ _ bucket d hb).2.1.partnersMigrate

/-- **Coverage.** After the differ, the merge under option A keeps every recorded
(join table, column) pair in exactly one group, and every group exactly once and as it
was but for its join tables, exactly when in every delta the smallest parent of each component
covers the others. -/
theorem coverage_iff (before after : OrdMap BucketKey NamedSchema) (deltas : List SchemaDelta)
    (h : diffBucketMaps (rawBuckets before) (rawBuckets after) = .ok deltas) :
    (∃ outs, applyPkFlipJoinTableOption deltas .optionA = .ok outs ∧
      List.Forall₂ CoverageKept deltas outs) ↔
    ∀ d ∈ deltas, WinnerCovers (groupsOf d.operations) := by
  have hbucket : ∀ d ∈ deltas, ∃ bucket,
      bucketDelta (rawBuckets before) (rawBuckets after) bucket = .ok d :=
    fun d hd => (Fallible.exists_of_mem_mapM _ _ _ h d hd).imp fun _ hb => hb.2
  have hstamp : deltas.map (fun d =>
      { d with operations := d.operations.map (stampOption .optionA) }) = deltas := by
    rw [List.map_congr_left (g := id), List.map_id]
    intro d hd
    obtain ⟨bucket, hb⟩ := hbucket d hd
    obtain ⟨hmulti, hprom, -⟩ := bucketDelta_groups _ _ bucket d hb
    rw [stampOption_eq_self d hmulti hprom.option, id]
  have hone : ∀ d ∈ deltas,
      (∃ out, mergeCrossFlippingGroupsIntoMulti d = .ok out ∧ CoverageKept d out) ↔
        WinnerCovers (groupsOf d.operations) := by
    intro d hd
    obtain ⟨bucket, hb⟩ := hbucket d hd
    obtain ⟨hmulti, hprom, hrej⟩ := bucketDelta_groups _ _ bucket d hb
    exact delta_coverage_iff _ (columnsNodup_bucket after bucket) d hmulti hprom hrej
  simp only [applyPkFlipJoinTableOption, hstamp]
  rw [Fallible.exists_mapM_forall₂_iff]
  exact forall₂_congr hone


/-- The pair schema flips with full coverage. -/
theorem coverage_pair : ∃ deltas,
    diffBucketMaps (rawBuckets (inMain (pairSchema .heerId)))
      (rawBuckets (inMain (pairSchema .heerIdRecencyBiased))) = .ok deltas ∧
    ∃ outs, applyPkFlipJoinTableOption deltas .optionA = .ok outs ∧
      List.Forall₂ CoverageKept deltas outs := by
  have htest : (diffBucketMaps (rawBuckets (inMain (pairSchema .heerId)))
      (rawBuckets (inMain (pairSchema .heerIdRecencyBiased)))).toOption.map
        (fun ds => ds.all fun d => winnerCoversTest (groupsOf d.operations)) = some true := by
    decide +kernel
  cases h : diffBucketMaps (rawBuckets (inMain (pairSchema .heerId)))
      (rawBuckets (inMain (pairSchema .heerIdRecencyBiased))) with
  | error e => simp [h, Except.toOption] at htest
  | ok deltas =>
      rw [h] at htest
      refine ⟨deltas, rfl, (coverage_iff _ _ deltas h).mpr fun d hd => ?_⟩
      exact winnerCovers_of_test _ (partnersMigrate_of_mem _ _ _ h d hd)
        (List.all_eq_true.mp (Option.some.inj htest) d hd)

/-- Does some group of some delta record the pair? -/
def recordedIn (deltas : List SchemaDelta) (x : String × String) : Bool :=
  deltas.any fun d => (groupsOf d.operations).any fun g => (recordedPairs g).contains x

private theorem recordedIn_of_kept (deltas outs : List SchemaDelta)
    (h : List.Forall₂ CoverageKept deltas outs) (x : String × String)
    (hx : recordedIn deltas x = true) : recordedIn outs x = true := by
  induction h with
  | nil => exact hx
  | @cons d out ds os hkept _ ih =>
      rw [recordedIn, List.any_cons, Bool.or_eq_true] at hx ⊢
      rcases hx with hx | hx
      · obtain ⟨g, hg, hxg⟩ := List.any_eq_true.mp hx
        have hone := hkept.pairs g hg x (List.contains_iff_mem.mp hxg)
        exact .inl (List.any_eq_true.mpr (List.countP_pos_iff.mp (by omega)))
      · exact .inr (ih hx)

/-- In the chain `a – b – c` the merge loses the columns of the join table of `b` and
`c`: they are recorded before it and by no group after it. -/
theorem coverage_lost_in_chain : ∃ deltas,
    diffBucketMaps (rawBuckets (inMain (chainSchema .heerId)))
      (rawBuckets (inMain (chainSchema .heerIdRecencyBiased))) = .ok deltas ∧
    ¬∃ outs, applyPkFlipJoinTableOption deltas .optionA = .ok outs ∧
      List.Forall₂ CoverageKept deltas outs := by
  have hbefore : (diffBucketMaps (rawBuckets (inMain (chainSchema .heerId)))
      (rawBuckets (inMain (chainSchema .heerIdRecencyBiased)))).toOption.map
        (fun ds => recordedIn ds ("bc", "b_id")) = some true := by
    decide +kernel
  have hafter : (diffBucketMaps (rawBuckets (inMain (chainSchema .heerId)))
      (rawBuckets (inMain (chainSchema .heerIdRecencyBiased)))).toOption.map
        (fun ds => (applyPkFlipJoinTableOption ds .optionA).toOption.map
          (recordedIn · ("bc", "b_id"))) = some (some false) := by
    decide +kernel
  cases h : diffBucketMaps (rawBuckets (inMain (chainSchema .heerId)))
      (rawBuckets (inMain (chainSchema .heerIdRecencyBiased))) with
  | error e => simp [h, Except.toOption] at hbefore
  | ok deltas =>
      rw [h] at hbefore hafter
      refine ⟨deltas, rfl, ?_⟩
      rintro ⟨outs, houts, hkept⟩
      have hx := recordedIn_of_kept deltas outs hkept _ (Option.some.inj hbefore)
      simp [Except.toOption, houts, hx] at hafter

end Djogi

import Djogi.Lib.Fallible
import Djogi.Lib.Registry
import Djogi.Projection

/-!
# What the projection accepts

* `project_ok_iff`: the projection accepts exactly the valid inventories, and its result is
  `projected`, which mentions neither errors nor loops;
* `Valid`: the conditions the projection checks.
-/

namespace Djogi

open OrdMap

/-! ## Maps without errors -/

def specKey (spec : DeferrabilitySpec) : String ×ₗ String :=
  toLex (spec.modelTypeName, spec.fieldName)

def specValue (spec : DeferrabilitySpec) : Bool × Bool := (spec.deferrable, spec.initiallyDeferred)

/-- The bucket of a model whose label is known. -/
def bucketOf (labels : OrdMap String AppDescriptor) (m : ModelDescriptor) : BucketKey :=
  ((labels.get m.label).getD AppDescriptor.global).bucket

def Inventory.placed (inv : Inventory) : List (BucketKey × ModelDescriptor) :=
  inv.models.map fun m => (bucketOf (labelToApp inv.apps) m, m)

def Inventory.maps (inv : Inventory) : Lookups :=
  inv.lookups (registry specKey specValue inv.specs)
    (registry ModelDescriptor.typeName ModelDescriptor.tableName inv.models) inv.placed

def Inventory.enumMap (inv : Inventory) : OrdMap String EnumSchema :=
  registry EnumDescriptor.postgresType (fun e => ⟨e.postgresType, e.variants⟩) inv.enums

def Inventory.modelsIn (inv : Inventory) (bucket : BucketKey) : List ModelDescriptor :=
  inv.models.filter fun m => bucketOf (labelToApp inv.apps) m = bucket

/-- The tables of a model under their names. -/
def tablePairs (lk : Lookups) (m : ModelDescriptor) : List (String × TableSchema) :=
  if m.proxyFor.isSome then []
  else (m.tableName, projectModel lk m) ::
    if m.hasOutbox then [(outboxTableName m.tableName, projectOutboxTable lk m)] else []

def tableNames (m : ModelDescriptor) : List String :=
  if m.proxyFor.isSome then []
  else m.tableName :: if m.hasOutbox then [outboxTableName m.tableName] else []

def modelIndexes (m : ModelDescriptor) : List IndexSchema :=
  if m.proxyFor.isSome then []
  else m.fields.foldl (pushFieldIndex m.tableName) (ownIndexes m)

def bucketTables (lk : Lookups) (ms : List ModelDescriptor) : BucketTables :=
  ⟨.ofList (ms.flatMap (tablePairs lk)), ms.flatMap modelIndexes⟩

def Inventory.projected (inv : Inventory) (generatedAt : String) :
    OrdMap BucketKey AppliedSchema :=
  .ofList ((appBuckets inv.maps).map fun bucket =>
    (bucket, bucketSchema inv.maps inv.enumMap generatedAt
      (bucketTables inv.maps (inv.modelsIn bucket))))

/-- What the projection checks. -/
structure Valid (inv : Inventory) : Prop where
  specs : Agree specKey specValue inv.specs
  tables : Agree ModelDescriptor.typeName ModelDescriptor.tableName inv.models
  labels : ∀ m ∈ inv.models, m.label ∈ (labelToApp inv.apps).keys
  foreignKeys : ∀ p ∈ inv.placed, checkForeignKeys inv.maps inv.models.length p = .ok ()
  enums : (inv.enums.map EnumDescriptor.postgresType).Nodup
  names : ∀ bucket ∈ appBuckets inv.maps, ((inv.modelsIn bucket).flatMap tableNames).Nodup

/-! ## One step each -/

theorem insertUnique_none {κ ν ε : Type} [LinearOrder κ] (m : OrdMap κ ν) (k : κ) (v : ν)
    (f : ν → ν → Except ε Unit) (h : m.get k = none) : insertUnique m k v f = .ok (m.insert k v) := by
  rw [insertUnique, h]

theorem insertUnique_some {κ ν ε : Type} [LinearOrder κ] (m : OrdMap κ ν) (k : κ) (v old : ν)
    (f : ν → ν → Except ε Unit) (h : m.get k = some old) :
    insertUnique m k v f = (f old v).map fun _ => m := by
  rw [insertUnique, h]

theorem checks_addDeferrability : Checks specKey specValue addDeferrability where
  add m spec h := by
    unfold addDeferrability
    cases hget : m.get (toLex (spec.modelTypeName, spec.fieldName)) with
    | none => rfl
    | some prev =>
      have hprev : prev = (spec.deferrable, spec.initiallyDeferred) := h prev hget
      simp only [if_pos hprev]
      rfl
  refuse m spec old hget hne := by
    unfold addDeferrability
    have hget' : m.get (toLex (spec.modelTypeName, spec.fieldName)) = some old := hget
    have hne' : ¬old = (spec.deferrable, spec.initiallyDeferred) := hne
    rw [hget']
    simp only [if_neg hne']
    exact ⟨_, rfl⟩

theorem checks_addModelTable :
    Checks ModelDescriptor.typeName ModelDescriptor.tableName addModelTable where
  add m d h := by
    unfold addModelTable
    cases hget : m.get d.typeName with
    | none => rw [insertUnique_none _ _ _ _ hget]
    | some prev =>
      have hprev : prev = d.tableName := h prev hget
      rw [insertUnique_some _ _ _ _ _ hget, if_pos hprev,
        (insert_eq_self_iff m d.typeName d.tableName).mpr (hprev ▸ hget)]
      rfl
  refuse m d old hget hne := by
    unfold addModelTable
    rw [insertUnique_some _ _ _ _ _ hget, if_neg hne]
    exact ⟨_, rfl⟩

theorem place_ok_iff (labels : OrdMap String AppDescriptor) (models : List ModelDescriptor)
    (placed : List (BucketKey × ModelDescriptor)) :
    models.mapM (place labels) = .ok placed ↔
      (∀ m ∈ models, m.label ∈ labels.keys) ∧
        placed = models.map fun m => (bucketOf labels m, m) := by
  have hstep : ∀ m p, place labels m = .ok p ↔
      m.label ∈ labels.keys ∧ p = (bucketOf labels m, m) := by
    intro m p
    rw [mem_keys_iff, place, bucketOf]
    cases labels.get m.label with
    | none => simp
    | some app => simp [eq_comm]
  rw [Fallible.mapM_ok_iff]
  induction models generalizing placed with
  | nil => simp
  | cons m models ih =>
    rw [List.forall₂_cons_left_iff, List.forall_mem_cons, List.map_cons]
    constructor
    · rintro ⟨p, placed', hp, hrest, rfl⟩
      obtain ⟨hlabel, rfl⟩ := (hstep m p).mp hp
      obtain ⟨hlabels, rfl⟩ := (ih placed').mp hrest
      exact ⟨⟨hlabel, hlabels⟩, rfl⟩
    · rintro ⟨⟨hlabel, hlabels⟩, rfl⟩
      exact ⟨_, _, (hstep m _).mpr ⟨hlabel, rfl⟩, (ih _).mpr ⟨hlabels, rfl⟩, rfl⟩

/-- The enum map and the map of Rust types have the same keys. -/
theorem enums_ok_iff (enums : List EnumDescriptor)
    (r : OrdMap String EnumSchema × OrdMap String String) :
    enums.foldlM addEnum (.empty, .empty) = .ok r ↔
      (enums.map EnumDescriptor.postgresType).Nodup ∧
        r = (registry EnumDescriptor.postgresType (fun e => ⟨e.postgresType, e.variants⟩) enums,
          registry EnumDescriptor.postgresType EnumDescriptor.typeName enums) := by
  induction enums using List.reverseRecOn generalizing r with
  | nil =>
    constructor
    · intro h
      exact ⟨List.nodup_nil, (Except.ok.inj h).symm⟩
    · rintro ⟨-, rfl⟩
      rfl
  | append_singleton l e ih =>
    have hnodup : ((l ++ [e]).map EnumDescriptor.postgresType).Nodup ↔
        (l.map EnumDescriptor.postgresType).Nodup ∧
          (registry EnumDescriptor.postgresType EnumDescriptor.typeName l).get e.postgresType =
            none := by
      rw [List.map_append, List.nodup_append, registry_none_iff]
      simp
    rw [List.foldlM_append, registry_concat, registry_concat, hnodup]
    cases hl : l.foldlM addEnum (.empty, .empty) with
    | error err =>
      constructor
      · intro h
        cases h
      · rintro ⟨⟨hnd, -⟩, -⟩
        rw [(ih _).mpr ⟨hnd, rfl⟩] at hl
        cases hl
    | ok st =>
      obtain ⟨hnd, rfl⟩ := (ih st).mp hl
      rw [and_iff_right hnd]
      show [e].foldlM addEnum _ = _ ↔ _
      rw [List.foldlM_cons]
      simp only [List.foldlM_nil, bind_pure]
      cases hget : (registry EnumDescriptor.postgresType EnumDescriptor.typeName l).get
          e.postgresType with
      | none =>
        rw [addEnum, insertUnique_none _ _ _ _ hget, and_iff_right rfl, eq_comm]
        exact ⟨fun h => (Except.ok.inj h.symm).symm, fun h => h ▸ rfl⟩
      | some old =>
        rw [addEnum, insertUnique_some _ _ _ _ _ hget]
        constructor
        · intro h
          cases h
        · rintro ⟨h, -⟩
          cases h

/-! ## One bucket -/

theorem tablePairs_keys (lk : Lookups) (m : ModelDescriptor) :
    (tablePairs lk m).map Prod.fst = tableNames m := by
  unfold tablePairs tableNames
  split_ifs <;> rfl

theorem pushFieldIndex_append (table : String) (pre indexes : List IndexSchema)
    (f : FieldDescriptor) (h : ∀ e ∈ pre, e.table ≠ table) :
    pushFieldIndex table (pre ++ indexes) f = pre ++ pushFieldIndex table indexes f := by
  have hname : ∀ name, (pre.any fun e => e.table == table && e.name == name) = false := by
    intro name
    rw [List.any_eq_false]
    intro e he
    simp [h e he]
  have hgist : hasSingleColumnGistIndex pre table f.name = false := by
    rw [hasSingleColumnGistIndex, List.any_eq_false]
    intro e he
    simp [h e he]
  rw [hasSingleColumnGistIndex] at hgist
  unfold pushFieldIndex hasSingleColumnGistIndex
  rw [List.any_append, hname, Bool.false_or, List.any_append, hgist, Bool.false_or]
  split_ifs <;> simp

theorem foldl_pushFieldIndex_append (table : String) (fields : List FieldDescriptor)
    (pre indexes : List IndexSchema) (h : ∀ e ∈ pre, e.table ≠ table) :
    fields.foldl (pushFieldIndex table) (pre ++ indexes) =
      pre ++ fields.foldl (pushFieldIndex table) indexes := by
  induction fields generalizing indexes with
  | nil => rfl
  | cons f fields ih =>
    rw [List.foldl_cons, List.foldl_cons, pushFieldIndex_append table pre indexes f h, ih]

theorem foldl_pushFieldIndex_mem (table : String) (fields : List FieldDescriptor)
    (indexes : List IndexSchema) (e : IndexSchema)
    (h : e ∈ fields.foldl (pushFieldIndex table) indexes) : e ∈ indexes ∨ e.table = table := by
  induction fields generalizing indexes with
  | nil => exact .inl h
  | cons f fields ih =>
    rw [List.foldl_cons] at h
    rcases ih _ h with h | h
    · unfold pushFieldIndex at h
      split_ifs at h
      · exact .inl h
      · exact .inl h
      · exact .inl h
      · rcases List.mem_append.mp h with h | h
        · exact .inl h
        · rw [List.mem_singleton.mp h]
          exact .inr rfl
    · exact .inr h

/-- Every index of a model is on a table of the model. -/
theorem modelIndexes_table (m : ModelDescriptor) (e : IndexSchema) (h : e ∈ modelIndexes m) :
    e.table ∈ tableNames m := by
  unfold modelIndexes at h
  unfold tableNames
  split_ifs at h ⊢ with hproxy houtbox
  · cases h
  all_goals rcases foldl_pushFieldIndex_mem _ _ _ _ h with h | h
  all_goals try rw [h]; exact List.mem_cons_self
  all_goals rw [ownIndexes, List.mem_append, List.mem_append] at h
  · rcases h with (h | h) | h
    · rw [if_pos houtbox, List.mem_singleton] at h
      rw [h]
      exact List.mem_cons_of_mem _ List.mem_cons_self
    · obtain ⟨idx, -, rfl⟩ := List.mem_map.mp h
      exact List.mem_cons_self
    · obtain ⟨fts, -, rfl⟩ := Option.map_eq_some_iff.mp (Option.mem_toList.mp h)
      exact List.mem_cons_self
  · rcases h with (h | h) | h
    · rw [if_neg houtbox] at h
      cases h
    · obtain ⟨idx, -, rfl⟩ := List.mem_map.mp h
      exact List.mem_cons_self
    · obtain ⟨fts, -, rfl⟩ := Option.map_eq_some_iff.mp (Option.mem_toList.mp h)
      exact List.mem_cons_self

theorem addTable_ok_iff (bucket : BucketKey) (tables tables' : OrdMap String TableSchema)
    (t : TableSchema) (typeName : String) : addTable bucket tables t typeName = .ok tables' ↔
      t.table ∉ tables.keys ∧ tables' = tables.insert t.table t := by
  rw [addTable]
  cases hget : tables.get t.table with
  | none =>
    rw [insertUnique_none _ _ _ _ hget, Except.ok.injEq, eq_comm,
      and_iff_right ((get_eq_none_iff _ _).mp hget)]
  | some old =>
    rw [insertUnique_some _ _ _ _ _ hget, mem_keys_iff, hget]
    constructor
    · intro h
      cases h
    · rintro ⟨h, -⟩
      exact absurd ⟨old, rfl⟩ h

theorem addOutboxTable_ok_iff (lk : Lookups) (bucket : BucketKey)
    (tables tables' : OrdMap String TableSchema) (m : ModelDescriptor) :
    addOutboxTable lk bucket tables m = .ok tables' ↔
      if m.hasOutbox then outboxTableName m.tableName ∉ tables.keys ∧
        tables' = tables.insert (outboxTableName m.tableName) (projectOutboxTable lk m)
      else tables' = tables := by
  rw [addOutboxTable]
  split_ifs
  · exact addTable_ok_iff _ _ _ _ _
  · rw [Except.ok.injEq, eq_comm]

theorem projectInto_ok_iff (lk : Lookups) (bucket : BucketKey) (m : ModelDescriptor)
    (st st' : BucketTables) (hproxy : m.proxyFor.isSome = false) :
    projectInto lk bucket st m = .ok st' ↔
      (tableNames m).Nodup ∧ (∀ n ∈ tableNames m, n ∉ st.tables.keys) ∧
        st' = ⟨(tablePairs lk m).foldl (fun t e => t.insert e.1 e.2) st.tables,
          m.fields.foldl (pushFieldIndex m.tableName) (st.indexes ++ ownIndexes m)⟩ := by
  rw [projectInto, if_neg (by simp [hproxy]), Fallible.bind_ok_iff]
  simp only [Fallible.bind_ok_iff, addTable_ok_iff, addOutboxTable_ok_iff, Except.ok.injEq,
    tableNames, tablePairs, hproxy, Bool.false_eq_true, if_false]
  constructor
  · rintro ⟨tables, ⟨hnew, rfl⟩, tables', houtbox, rfl⟩
    split_ifs at houtbox ⊢ with h
    · obtain ⟨hnew', rfl⟩ := houtbox
      rw [mem_keys_insert, not_or] at hnew'
      refine ⟨?_, ?_, rfl⟩
      · simpa using fun heq => hnew'.1 heq.symm
      · simpa using ⟨hnew, hnew'.2⟩
    · subst houtbox
      exact ⟨by simp, by simpa [projectModel] using hnew, rfl⟩
  · rintro ⟨hnd, hnew, rfl⟩
    obtain ⟨htable, hrest⟩ := List.forall_mem_cons.mp hnew
    refine ⟨_, ⟨htable, rfl⟩, _, ?_, rfl⟩
    split_ifs at hnd hrest ⊢ with h
    · refine ⟨?_, rfl⟩
      rw [mem_keys_insert, not_or]
      refine ⟨fun heq => ?_, hrest _ (by simp)⟩
      rw [heq] at hnd
      simp [projectModel] at hnd
    · rfl

/-- **Bucket.** A bucket is projected exactly when its table names are distinct. -/
theorem bucket_ok_iff (lk : Lookups) (bucket : BucketKey) (ms : List ModelDescriptor)
    (st : BucketTables) : ms.foldlM (projectInto lk bucket) ⟨.empty, []⟩ = .ok st ↔
      (ms.flatMap tableNames).Nodup ∧ st = bucketTables lk ms := by
  induction ms using List.reverseRecOn generalizing st with
  | nil =>
    constructor
    · intro h
      exact ⟨List.nodup_nil, (Except.ok.inj h).symm⟩
    · rintro ⟨-, rfl⟩
      rfl
  | append_singleton ms m ih =>
    have hlast : ∀ st, [m].foldlM (projectInto lk bucket) st = projectInto lk bucket st m := by
      intro st
      rw [List.foldlM_cons]
      exact bind_pure _
    rw [List.foldlM_append, Fallible.bind_ok_iff]
    simp only [ih, and_assoc, exists_and_left, exists_eq_left, hlast]
    rw [List.flatMap_append, List.flatMap_singleton, List.nodup_append]
    rw [and_assoc]
    refine and_congr_right fun hnd => ?_
    have hkeys : ∀ n, n ∈ (bucketTables lk ms).tables.keys ↔ n ∈ ms.flatMap tableNames := by
      intro n
      rw [bucketTables, mem_keys_ofList, List.map_flatMap]
      simp only [tablePairs_keys]
    cases hproxy : m.proxyFor.isSome with
    | true =>
      have hsame : bucketTables lk (ms ++ [m]) = bucketTables lk ms := by
        simp [bucketTables, tablePairs, modelIndexes, hproxy]
      rw [projectInto, if_pos hproxy, hsame, Except.ok.injEq, eq_comm]
      simp [tableNames, hproxy]
    | false =>
      rw [projectInto_ok_iff lk bucket m _ _ hproxy, and_assoc]
      refine and_congr_right fun _ => ?_
      have hfresh : (∀ n ∈ tableNames m, n ∉ (bucketTables lk ms).tables.keys) ↔
          ∀ a ∈ ms.flatMap tableNames, ∀ b ∈ tableNames m, a ≠ b := by
        simp only [hkeys]
        exact ⟨fun h a ha b hb hab => h b hb (hab ▸ ha), fun h n hn hmem => h n hmem n hn rfl⟩
      rw [hfresh]
      refine and_congr_right fun hne => ?_
      have htable : m.tableName ∈ tableNames m := by simp [tableNames, hproxy]
      have hindexes : m.fields.foldl (pushFieldIndex m.tableName)
          ((bucketTables lk ms).indexes ++ ownIndexes m) =
            ms.flatMap modelIndexes ++ modelIndexes m := by
        rw [foldl_pushFieldIndex_append]
        · simp [bucketTables, modelIndexes, hproxy]
        · intro e he heq
          obtain ⟨m', hm', he'⟩ := List.mem_flatMap.mp he
          exact hne _ (List.mem_flatMap.mpr ⟨m', hm', modelIndexes_table m' e he'⟩) _ htable heq
      rw [hindexes]
      simp [bucketTables, ofList]

theorem placed_filter (inv : Inventory) (bucket : BucketKey) :
    inv.placed.filter (fun p => p.1 = bucket) = (inv.modelsIn bucket).map fun m => (bucket, m) := by
  rw [Inventory.placed, Inventory.modelsIn, List.filter_map]
  refine List.map_congr_left fun m hm => ?_
  have hbucket : bucketOf (labelToApp inv.apps) m = bucket := by
    simpa using (List.mem_filter.mp hm).2
  rw [hbucket]

theorem projectBuckets_ok_iff (inv : Inventory) (generatedAt : String)
    (schemas : List (BucketKey × AppliedSchema)) :
    (appBuckets inv.maps).mapM (projectBucket inv.maps inv.enumMap generatedAt inv.placed) =
        .ok schemas ↔
      (∀ bucket ∈ appBuckets inv.maps, ((inv.modelsIn bucket).flatMap tableNames).Nodup) ∧
        schemas = (appBuckets inv.maps).map fun bucket =>
          (bucket, bucketSchema inv.maps inv.enumMap generatedAt
            (bucketTables inv.maps (inv.modelsIn bucket))) := by
  have hone : ∀ bucket s, projectBucket inv.maps inv.enumMap generatedAt inv.placed bucket =
      .ok s ↔ ((inv.modelsIn bucket).flatMap tableNames).Nodup ∧
        s = (bucket, bucketSchema inv.maps inv.enumMap generatedAt
          (bucketTables inv.maps (inv.modelsIn bucket))) := by
    intro bucket s
    rw [projectBucket, placed_filter, List.foldlM_map]
    constructor
    · intro h
      obtain ⟨st, hst, rfl⟩ := Fallible.map_ok _ _ _ h
      obtain ⟨hnd, rfl⟩ := (bucket_ok_iff _ _ _ _).mp hst
      exact ⟨hnd, rfl⟩
    · rintro ⟨hnd, rfl⟩
      rw [(bucket_ok_iff _ _ _ _).mpr ⟨hnd, rfl⟩]
      rfl
  rw [Fallible.mapM_ok_iff]
  simp only [hone]
  generalize appBuckets inv.maps = buckets
  induction buckets generalizing schemas with
  | nil => simp
  | cons bucket buckets ih =>
    rw [List.forall₂_cons_left_iff, List.forall_mem_cons, List.map_cons]
    simp only [ih]
    constructor
    · rintro ⟨s, rest, ⟨hnd, rfl⟩, ⟨hnds, rfl⟩, rfl⟩
      exact ⟨⟨hnd, hnds⟩, rfl⟩
    · rintro ⟨⟨hnd, hnds⟩, rfl⟩
      exact ⟨_, _, ⟨hnd, rfl⟩, ⟨hnds, rfl⟩, rfl⟩

/-! ## The whole projection -/

/-- **Acceptance.** The projection accepts exactly the valid inventories. -/
theorem project_ok_iff (inv : Inventory) (generatedAt : String)
    (out : OrdMap BucketKey AppliedSchema) :
    projectFromIters inv generatedAt = .ok out ↔
      Valid inv ∧ out = inv.projected generatedAt := by
  have hspecs := checked_ok_iff specKey specValue addDeferrability checks_addDeferrability inv.specs
  have htables := checked_ok_iff ModelDescriptor.typeName ModelDescriptor.tableName addModelTable
    checks_addModelTable inv.models
  have hplaced := place_ok_iff (labelToApp inv.apps) inv.models
  have henums := enums_ok_iff inv.enums
  have hbuckets := projectBuckets_ok_iff inv generatedAt
  have hforM := Fallible.forM_ok_iff (checkForeignKeys inv.maps inv.models.length) inv.placed
  unfold projectFromIters
  constructor
  · intro h
    obtain ⟨deferrability, hd, h⟩ := Fallible.bind_ok _ _ _ h
    obtain ⟨tables, ht, h⟩ := Fallible.bind_ok _ _ _ h
    obtain ⟨placed, hp, h⟩ := Fallible.bind_ok _ _ _ h
    obtain ⟨hagree, rfl⟩ := (hspecs _).mp hd
    obtain ⟨hnames, rfl⟩ := (htables _).mp ht
    obtain ⟨hlabels, rfl⟩ := (hplaced _).mp hp
    obtain ⟨⟨⟩, hfk, h⟩ := Fallible.bind_ok _ _ _ h
    obtain ⟨enums, he, h⟩ := Fallible.bind_ok _ _ _ h
    obtain ⟨schemas, hs, h⟩ := Fallible.bind_ok _ _ _ h
    obtain ⟨henum, rfl⟩ := (henums _).mp he
    obtain ⟨htable, rfl⟩ := (hbuckets _).mp hs
    exact ⟨⟨hagree, hnames, hlabels, hforM.mp hfk, henum, htable⟩, (Except.ok.inj h).symm⟩
  · rintro ⟨hv, rfl⟩
    rw [(hspecs _).mpr ⟨hv.specs, rfl⟩]
    show (inv.models.foldlM addModelTable .empty >>= _) = _
    rw [(htables _).mpr ⟨hv.tables, rfl⟩]
    show (inv.models.mapM (place (labelToApp inv.apps)) >>= _) = _
    rw [(hplaced _).mpr ⟨hv.labels, rfl⟩]
    show (inv.placed.forM (checkForeignKeys inv.maps inv.models.length) >>= _) = _
    rw [hforM.mpr hv.foreignKeys]
    show (inv.enums.foldlM addEnum (.empty, .empty) >>= _) = _
    rw [(henums _).mpr ⟨hv.enums, rfl⟩]
    show ((appBuckets inv.maps).mapM (projectBucket inv.maps inv.enumMap generatedAt inv.placed) >>=
      _) = _
    rw [(hbuckets _).mpr ⟨hv.names, rfl⟩]
    rfl

/-! ## What the result holds -/

theorem mem_appBuckets (lk : Lookups) (bucket : BucketKey) :
    bucket ∈ appBuckets lk ↔ ∃ label app, lk.labelToApp.get label = some app ∧
      app.bucket = bucket := by
  rw [appBuckets, mem_sortedDedup, List.mem_map]
  simp only [mem_values_iff]
  constructor
  · rintro ⟨app, ⟨label, hget⟩, rfl⟩
    exact ⟨label, app, hget, rfl⟩
  · rintro ⟨label, app, hget, rfl⟩
    exact ⟨app, ⟨label, hget⟩, rfl⟩

theorem bucketOf_mem (inv : Inventory) (hv : Valid inv) (m : ModelDescriptor)
    (hm : m ∈ inv.models) : bucketOf (labelToApp inv.apps) m ∈ appBuckets inv.maps := by
  obtain ⟨app, happ⟩ := (mem_keys_iff _ _).mp (hv.labels m hm)
  rw [mem_appBuckets]
  refine ⟨m.label, app, happ, ?_⟩
  rw [bucketOf, happ, Option.getD_some]

theorem projected_pairs_nodup (inv : Inventory) (generatedAt : String) :
    (((appBuckets inv.maps).map fun bucket =>
      (bucket, bucketSchema inv.maps inv.enumMap generatedAt
        (bucketTables inv.maps (inv.modelsIn bucket)))).map Prod.fst).Nodup := by
  rw [List.map_map]
  exact (List.map_id _).symm ▸ keys_nodup _

theorem projected_get_iff (inv : Inventory) (generatedAt : String) (bucket : BucketKey)
    (s : AppliedSchema) : (inv.projected generatedAt).get bucket = some s ↔
      bucket ∈ appBuckets inv.maps ∧
        s = bucketSchema inv.maps inv.enumMap generatedAt
          (bucketTables inv.maps (inv.modelsIn bucket)) := by
  have hnd := projected_pairs_nodup inv generatedAt
  rw [Inventory.projected, get_ofList_of_nodup _ hnd, lookupIn_eq_some_iff _ hnd, List.mem_map]
  constructor
  · rintro ⟨b, hb, heq⟩
    obtain ⟨rfl, rfl⟩ := Prod.mk.inj heq
    exact ⟨hb, rfl⟩
  · rintro ⟨hb, rfl⟩
    exact ⟨bucket, hb, rfl⟩

theorem projected_keys (inv : Inventory) (generatedAt : String) (bucket : BucketKey) :
    bucket ∈ (inv.projected generatedAt).keys ↔ bucket ∈ appBuckets inv.maps := by
  simp only [mem_keys_iff, projected_get_iff, exists_and_left, exists_eq, and_true]

theorem tablePairs_nodup (lk : Lookups) (ms : List ModelDescriptor)
    (hnd : (ms.flatMap tableNames).Nodup) : ((ms.flatMap (tablePairs lk)).map Prod.fst).Nodup := by
  rw [List.map_flatMap]
  simpa only [tablePairs_keys] using hnd

theorem bucketTables_get_iff (lk : Lookups) (ms : List ModelDescriptor)
    (hnd : (ms.flatMap tableNames).Nodup) (n : String) (t : TableSchema) :
    (bucketTables lk ms).tables.get n = some t ↔ ∃ m ∈ ms, (n, t) ∈ tablePairs lk m := by
  have hpairs := tablePairs_nodup lk ms hnd
  rw [bucketTables, get_ofList_of_nodup _ hpairs, lookupIn_eq_some_iff _ hpairs, List.mem_flatMap]

theorem bucketTables_keys_perm (lk : Lookups) (ms : List ModelDescriptor)
    (hnd : (ms.flatMap tableNames).Nodup) :
    (bucketTables lk ms).tables.keys.Perm (ms.flatMap tableNames) := by
  have hnames : (ms.flatMap (tablePairs lk)).map Prod.fst = ms.flatMap tableNames := by
    rw [List.map_flatMap]
    simp only [tablePairs_keys]
  rw [← hnames]
  exact (entries_ofList_perm _ (tablePairs_nodup lk ms hnd)).map Prod.fst

end Djogi

import Mathlib.Data.List.Pairwise
import Mathlib.Data.List.Perm.Basic
import Djogi.Accept
import Djogi.JoinCoverage

/-!
# Names of relations

Tables and indexes of a database share one namespace. The projection checks table names, and only
inside a bucket.

* `projected_names`: what an accepted inventory promises about names, and when the names of a
  database are distinct;
* `createAll_isSome_iff`: a replay meets no relation that exists exactly when it creates distinct
  names;
* `names_clash`: two apps of one database with a table of the same name.
-/

namespace Djogi

open OrdMap

/-! ## Replaying creations -/

/-- The relation that an operation creates. -/
def created : SchemaOperation → Option String
  | .addTable t => some t.table
  | .addIndex i => some i.name
  | _ => none

def isAddTable : SchemaOperation → Bool
  | .addTable _ => true
  | _ => false

def isAddIndex : SchemaOperation → Bool
  | .addIndex _ => true
  | _ => false

/-- The operations that create a relation. -/
def creating (ops : List SchemaOperation) : List SchemaOperation :=
  ops.filter fun op => isAddTable op || isAddIndex op

theorem filterMap_creating (ops : List SchemaOperation) :
    (creating ops).filterMap created = ops.filterMap created := by
  rw [creating, List.filterMap_filter]
  refine List.filterMap_congr fun op _ => ?_
  cases op <;> rfl

theorem filter_isAddTable (ops : List SchemaOperation) :
    (creating ops).filter isAddTable = ops.filter isAddTable := by
  rw [creating, List.filter_filter]
  refine List.filter_congr fun op _ => ?_
  cases isAddTable op <;> simp

theorem filter_isAddIndex (ops : List SchemaOperation) :
    (creating ops).filter isAddIndex = ops.filter isAddIndex := by
  rw [creating, List.filter_filter]
  refine List.filter_congr fun op _ => ?_
  cases isAddIndex op <;> simp

theorem creating_append (a b : List SchemaOperation) :
    creating (a ++ b) = creating a ++ creating b := List.filter_append ..

theorem creating_eq_nil (ops : List SchemaOperation) (h : ∀ op ∈ ops, created op = none) :
    creating ops = [] := by
  rw [creating, List.filter_eq_nil_iff]
  intro op hop
  have hnone := h op hop
  cases op <;> simp_all [created, isAddTable, isAddIndex]

def createOne (existing : List String) (op : SchemaOperation) : Option (List String) :=
  match created op with
  | none => some existing
  | some name => if name ∈ existing then none else some (name :: existing)

/-- Run operations against the names that exist; to meet one is an error. -/
def createAll (existing : List String) (ops : List SchemaOperation) : Option (List String) :=
  ops.foldlM createOne existing

theorem createAll_isSome_iff (ops : List SchemaOperation) (existing : List String) :
    (createAll existing ops).isSome = true ↔
      (ops.filterMap created).Nodup ∧ ∀ n ∈ ops.filterMap created, n ∉ existing := by
  induction ops generalizing existing with
  | nil => simp [createAll]
  | cons op ops ih =>
    rw [createAll, List.foldlM_cons, createOne]
    cases hop : created op with
    | none =>
      rw [List.filterMap_cons_none hop]
      exact ih existing
    | some name =>
      rw [List.filterMap_cons_some hop]
      simp only
      split_ifs with hold
      · simp [hold]
      · show (createAll (name :: existing) ops).isSome = true ↔ _
        rw [ih, List.nodup_cons, List.forall_mem_cons]
        simp only [List.mem_cons, not_or]
        constructor
        · rintro ⟨hnd, hnew⟩
          exact ⟨⟨fun hmem => (hnew name hmem).1 rfl, hnd⟩, hold, fun n hn => (hnew n hn).2⟩
        · rintro ⟨⟨hname, hnd⟩, -, hnew⟩
          exact ⟨hnd, fun n hn => ⟨fun heq => hname (heq ▸ hn), hnew n hn⟩⟩

/-! ## A fresh diff -/

section Fresh

variable (out : OrdMap BucketKey AppliedSchema)

theorem bucketMoves_empty : bucketMoves .empty out = [] := by
  rw [bucketMoves, List.flatMap_eq_nil_iff]
  intro d _
  rw [List.filterMap_eq_nil_iff]
  intro e _
  rw [declaredMove]
  cases e.2.movedFromApp <;> rfl

theorem bucketOps_empty (bucket : BucketKey) :
    bucketOps .empty out bucket =
      (diffSchemas .empty ((out.get bucket).getD .empty) bucket).operations := by
  have hkeep : ∀ op, isSuppressed [] bucket op = false := by
    intro op
    cases op <;> rfl
  simp [bucketOps, bucketMoves_empty, moveOps, hkeep]

theorem tableRenameTargets_empty (s : AppliedSchema) : tableRenameTargets .empty s = .empty := by
  rw [tableRenameTargets, ofList_eq_empty_iff, List.filterMap_eq_nil_iff]
  intro t _
  cases t.renamedFrom <;> rfl

theorem creating_diffTables (s : AppliedSchema) :
    creating (diffTables .empty s) = s.models.values.map .addTable := by
  have hadds : addTableOps .empty s = s.models.values.map .addTable := by
    rw [addTableOps, tableRenameTargets_empty, List.filter_eq_self.mpr]
    intro t _
    rfl
  have hcommon : s.models.entries.flatMap (commonTableOps .empty) = [] := by
    rw [List.flatMap_eq_nil_iff]
    exact fun e _ => rfl
  have hdrops : dropTableOps .empty s = [] := rfl
  rw [diffTables, hadds, hcommon, hdrops, tableRenameTargets_empty, List.nil_append,
    List.append_nil, entries_empty, List.flatMap_nil, List.append_nil, creating,
    List.filter_eq_self.mpr]
  intro op hop
  obtain ⟨t, -, rfl⟩ := List.mem_map.mp hop
  rfl

theorem creating_diffIndexes (s : AppliedSchema) :
    creating (diffIndexes .empty s) = (indexMap s).entries.map fun e => .addIndex e.2 := by
  have hadds : diffIndexes .empty s = (indexMap s).entries.map fun e => .addIndex e.2 := by
    have hnone : indexMap .empty = .empty := rfl
    simp [diffIndexes, hnone, ← List.map_eq_flatMap]
  rw [hadds, creating, List.filter_eq_self.mpr]
  intro op hop
  obtain ⟨e, -, rfl⟩ := List.mem_map.mp hop
  rfl

theorem creating_diffEnums (s : AppliedSchema) : creating (diffEnums .empty s) = [] := by
  refine creating_eq_nil _ fun op hop => ?_
  rcases List.mem_append.mp hop with hop | hop
  · obtain ⟨e, -, hop⟩ := List.mem_flatMap.mp hop
    rw [List.mem_singleton.mp hop]
    rfl
  · cases hop

/-- Promoted groups create nothing. -/
theorem creating_promote (after : AppliedSchema) (ops ops' : List SchemaOperation)
    (h : promotePkFlipsToGroups after ops = .ok ops') : creating ops' = creating ops := by
  obtain ⟨gs, hsplit, -, -⟩ := promoteParents_ok _ _ _ _ _ h
  have hgs : creating (gs.map .pkTypeFlipGroup) = [] := by
    refine creating_eq_nil _ fun op hop => ?_
    obtain ⟨g, -, rfl⟩ := List.mem_map.mp hop
    rfl
  rw [hsplit, creating_append, hgs, List.append_nil, creating, List.filter_filter, creating]
  refine List.filter_congr fun op _ => ?_
  cases op <;> rfl

/-- What a delta creates from nothing. -/
structure FreshDelta (s : AppliedSchema) (d : SchemaDelta) : Prop where
  creates : creating d.operations = [] ∨ creating d.operations =
    s.models.values.map .addTable ++ (indexMap s).entries.map fun e => .addIndex e.2

theorem fresh_bucketDelta (bucket : BucketKey) (s : AppliedSchema) (hs : out.get bucket = some s)
    (d : SchemaDelta) (h : bucketDelta .empty out bucket = .ok d) :
    d.bucket = bucket ∧ FreshDelta s d := by
  unfold bucketDelta at h
  cases hops : promotePkFlipsToGroups ((out.get bucket).getD .empty)
      (bucketOps .empty out bucket) with
  | error e => rw [hops] at h; cases h
  | ok ops =>
    rw [hops] at h
    cases hrej : rejectPartitionedMultiParentClusters ops with
    | error e => simp only [hrej] at h; cases h
    | ok u =>
      simp only [hrej] at h
      obtain rfl := Except.ok.inj h
      refine ⟨rfl, ?_⟩
      have hcreates := creating_promote _ _ _ hops
      rw [bucketOps_empty, hs, Option.getD_some, diffSchemas] at hcreates
      split_ifs at hcreates with hsame
      · exact ⟨.inl hcreates⟩
      · refine ⟨.inr ?_⟩
        rw [hcreates, diffOperations, creating_append, creating_append, creating_diffTables,
          creating_diffIndexes, creating_diffEnums, List.append_nil]

theorem indexMap_name (s : AppliedSchema) (e : String × IndexSchema)
    (he : e ∈ (indexMap s).entries) : e.2.name = e.1 ∧ e.2 ∈ s.indexes := by
  obtain ⟨i, hi, rfl⟩ := List.mem_map.mp (mem_of_mem_ofList _ e he)
  exact ⟨rfl, hi⟩

section Created

variable (s : AppliedSchema) (hkey : s.models.values.map TableSchema.table = s.models.keys)
  (d : SchemaDelta) (h : FreshDelta s d)

include hkey h

theorem FreshDelta.created : d.operations.filterMap created = [] ∨
    d.operations.filterMap created = s.models.keys ++ (indexMap s).keys := by
  rw [← filterMap_creating]
  refine h.creates.imp (fun hnil => by rw [hnil]; rfl) fun hops => ?_
  have hindexes : (indexMap s).entries.map (fun e => e.2.name) = (indexMap s).keys :=
    List.map_congr_left fun e he => (indexMap_name s e he).1
  have htables : (s.models.values.map SchemaOperation.addTable).filterMap Djogi.created =
      s.models.values.map TableSchema.table := by
    rw [List.filterMap_map, ← List.filterMap_eq_map']
    rfl
  have hadds : ((indexMap s).entries.map fun e => SchemaOperation.addIndex e.2).filterMap
      Djogi.created = (indexMap s).entries.map fun e => e.2.name := by
    rw [List.filterMap_map, ← List.filterMap_eq_map']
    rfl
  rw [hops, List.filterMap_append, htables, hadds, hkey, hindexes]

/-- The tables of a delta are distinct, and so are its indexes. -/
theorem FreshDelta.replay : (createAll [] (d.operations.filter isAddTable)).isSome = true ∧
    (createAll [] (d.operations.filter isAddIndex)).isSome = true := by
  have hindexes : (indexMap s).entries.map (fun e => e.2.name) = (indexMap s).keys :=
    List.map_congr_left fun e he => (indexMap_name s e he).1
  rw [← filter_isAddTable, ← filter_isAddIndex, createAll_isSome_iff, createAll_isSome_iff]
  rcases h.creates with hops | hops
  · rw [hops]
    simp
  · have htables : (creating d.operations).filter isAddTable = s.models.values.map .addTable := by
      rw [hops, List.filter_append, List.filter_eq_self.mpr, List.filter_eq_nil_iff.mpr,
        List.append_nil]
      · exact List.forall_mem_map.mpr fun e _ => Bool.false_ne_true
      · exact List.forall_mem_map.mpr fun t _ => rfl
    have hadds : (creating d.operations).filter isAddIndex =
        (indexMap s).entries.map fun e => .addIndex e.2 := by
      rw [hops, List.filter_append, List.filter_eq_nil_iff.mpr, List.filter_eq_self.mpr,
        List.nil_append]
      · exact List.forall_mem_map.mpr fun e _ => rfl
      · exact List.forall_mem_map.mpr fun t _ => Bool.false_ne_true
    rw [htables, hadds, List.filterMap_map, List.filterMap_map]
    refine ⟨⟨?_, by simp⟩, ⟨?_, by simp⟩⟩
    · show (s.models.values.filterMap fun t => some t.table).Nodup
      rw [List.filterMap_eq_map', hkey]
      exact keys_nodup _
    · show ((indexMap s).entries.filterMap fun e => some e.2.name).Nodup
      rw [List.filterMap_eq_map', hindexes]
      exact keys_nodup _

end Created

end Fresh

/-! ## Field-level indexes -/

/-- Does the index have the table and the name of the other one? -/
def sameSlot (i j : IndexSchema) : Bool := j.table == i.table && j.name == i.name

theorem sameSlot_iff (i j : IndexSchema) :
    sameSlot i j = true ↔ j.table = i.table ∧ j.name = i.name := by
  rw [sameSlot, Bool.and_eq_true, beq_iff_eq, beq_iff_eq]

theorem sameSlot_comm (i j : IndexSchema) : sameSlot i j = sameSlot j i := by
  rw [Bool.eq_iff_iff, sameSlot_iff, sameSlot_iff, eq_comm, @eq_comm _ j.name]

theorem pushFieldIndex_cases (table : String) (indexes : List IndexSchema) (f : FieldDescriptor) :
    pushFieldIndex table indexes f = indexes ∨
      ∃ new, pushFieldIndex table indexes f = indexes ++ [new] ∧
        ∀ e ∈ indexes, sameSlot new e = false := by
  unfold pushFieldIndex
  split_ifs with hindexed hexplicit hspatial
  · exact .inl rfl
  · exact .inl rfl
  · exact .inl rfl
  · refine .inr ⟨_, rfl, fun e he => ?_⟩
    have hnone := List.any_eq_false.mp (Bool.eq_false_iff.mpr hexplicit) e he
    simpa [sameSlot, projectFieldLevelIndex, plainIndex] using hnone

/-- A field-level index has its table and name for itself. -/
theorem foldl_pushFieldIndex_alone (table : String) (fields : List FieldDescriptor)
    (own : List IndexSchema) (i : IndexSchema)
    (h : i ∈ fields.foldl (pushFieldIndex table) own) : i ∈ own ∨
      (fields.foldl (pushFieldIndex table) own).filter (sameSlot i) = [i] := by
  induction fields using List.reverseRecOn with
  | nil => exact .inl h
  | append_singleton fields f ih =>
    rw [List.foldl_append, List.foldl_cons, List.foldl_nil] at h ⊢
    rcases pushFieldIndex_cases table (fields.foldl (pushFieldIndex table) own) f with
      hsame | ⟨new, hnew, hfree⟩
    · rw [hsame] at h ⊢
      exact ih h
    · rw [hnew] at h ⊢
      rw [List.filter_append]
      rcases List.mem_append.mp h with hold | hlast
      · refine (ih hold).imp_right fun halone => ?_
        have hne : sameSlot i new = false := by
          rw [← hfree i hold, sameSlot_comm]
        rw [halone]
        simp [hne]
      · right
        obtain rfl := List.mem_singleton.mp hlast
        rw [List.filter_eq_nil_iff.mpr fun e he => by rw [hfree e he]; exact Bool.false_ne_true]
        simp [sameSlot]

theorem modelIndexes_alone (m : ModelDescriptor) (i : IndexSchema) (h : i ∈ modelIndexes m) :
    i ∈ ownIndexes m ∨ (modelIndexes m).filter (sameSlot i) = [i] := by
  unfold modelIndexes at h ⊢
  split_ifs at h ⊢ with hproxy
  · cases h
  · exact foldl_pushFieldIndex_alone m.tableName m.fields (ownIndexes m) i h

/-- In a bucket with distinct table names the indexes of other models are on other tables. -/
theorem filter_bucketIndexes (ms : List ModelDescriptor) (hnd : (ms.flatMap tableNames).Nodup)
    (m : ModelDescriptor) (hm : m ∈ ms) (i : IndexSchema) (hi : i ∈ modelIndexes m) :
    (ms.flatMap modelIndexes).filter (sameSlot i) = (modelIndexes m).filter (sameSlot i) := by
  obtain ⟨pre, post, rfl⟩ := List.append_of_mem hm
  have hdisj := (List.nodup_flatMap.mp hnd).2
  rw [List.pairwise_append, List.pairwise_cons] at hdisj
  have hnone : ∀ m', List.Disjoint (tableNames m') (tableNames m) →
      (modelIndexes m').filter (sameSlot i) = [] := by
    intro m' hd
    rw [List.filter_eq_nil_iff]
    intro e he hslot
    refine hd (modelIndexes_table m' e he) ?_
    rw [((sameSlot_iff i e).mp hslot).1]
    exact modelIndexes_table m i hi
  have hpre : pre.flatMap (fun m' => (modelIndexes m').filter (sameSlot i)) = [] := by
    rw [List.flatMap_eq_nil_iff]
    exact fun m' hm' => hnone m' (hdisj.2.2 m' hm' m List.mem_cons_self)
  have hpost : post.flatMap (fun m' => (modelIndexes m').filter (sameSlot i)) = [] := by
    rw [List.flatMap_eq_nil_iff]
    exact fun m' hm' => hnone m' fun _ h h' => hdisj.2.1.1 m' hm' h' h
  rw [List.filter_flatMap, List.flatMap_append, List.flatMap_cons, hpre, hpost, List.nil_append,
    List.append_nil]

/-! ## One bucket -/

/-- The columns of a model: its fields and the one of its full-text index. -/
def ModelDescriptor.columnNames (m : ModelDescriptor) : List String :=
  m.fields.map FieldDescriptor.name ++ (m.fts.map FtsDescriptor.column).toList

/-- What a bucket promises about names. -/
structure BucketNames (ms : List ModelDescriptor) (s : AppliedSchema) : Prop where
  tables : (ms.flatMap tableNames).Nodup
  keys : s.models.keys.Perm (ms.flatMap tableNames)
  columns : ∀ m ∈ ms, m.proxyFor = none → ∃ t, s.models.get m.tableName = some t ∧
    t.columns.map ColumnSchema.name = m.columnNames
  outboxes : ∀ m ∈ ms, m.proxyFor = none → m.hasOutbox = true →
    ∃ t, s.models.get (outboxTableName m.tableName) = some t ∧
      (t.columns.map ColumnSchema.name).Nodup
  indexTables : ∀ i ∈ s.indexes, i.table ∈ s.models.keys
  fieldIndexes : ∀ i ∈ s.indexes, (∃ m ∈ ms, i ∈ ownIndexes m) ∨
    s.indexes.filter (sameSlot i) = [i]

theorem bucketNames (lk : Lookups) (enums : OrdMap String EnumSchema) (generatedAt : String)
    (ms : List ModelDescriptor) (hnd : (ms.flatMap tableNames).Nodup) :
    BucketNames ms (bucketSchema lk enums generatedAt (bucketTables lk ms)) where
  tables := hnd
  keys := bucketTables_keys_perm lk ms hnd
  columns m hm hproxy := by
    refine ⟨projectModel lk m, (bucketTables_get_iff lk ms hnd _ _).mpr ⟨m, hm, ?_⟩, ?_⟩
    · rw [tablePairs, if_neg (by simp [hproxy])]
      exact List.mem_cons_self
    · simp only [projectModel, ModelDescriptor.columnNames, List.map_append, List.map_map]
      cases m.fts <;> rfl
  outboxes m hm hproxy houtbox := by
    refine ⟨projectOutboxTable lk m, (bucketTables_get_iff lk ms hnd _ _).mpr ⟨m, hm, ?_⟩, ?_⟩
    · rw [tablePairs, if_neg (by simp [hproxy]), if_pos houtbox]
      exact List.mem_cons_of_mem _ List.mem_cons_self
    · show (["id", "row_id", "action", "payload", "created_at", "state", "leased_until",
        "retry_count", "failed_reason"] : List String).Nodup
      decide
  indexTables i hi := by
    obtain ⟨m, hm, hmi⟩ := List.mem_flatMap.mp ((List.mem_insertionSort _).mp hi)
    refine (bucketTables_keys_perm lk ms hnd).mem_iff.mpr ?_
    exact List.mem_flatMap.mpr ⟨m, hm, modelIndexes_table m i hmi⟩
  fieldIndexes i hi := by
    obtain ⟨m, hm, hmi⟩ := List.mem_flatMap.mp ((List.mem_insertionSort _).mp hi)
    refine (modelIndexes_alone m i hmi).imp (fun hown => ⟨m, hm, hown⟩) fun halone => ?_
    rw [← filter_bucketIndexes ms hnd m hm i hmi] at halone
    refine List.perm_singleton.mp ?_
    rw [← halone]
    exact (List.perm_insertionSort _ _).filter _

/-! ## A database -/

/-- The names of all tables and indexes of a bucket. -/
def bucketRelations (s : AppliedSchema) : List String :=
  s.models.keys ++ s.indexes.map IndexSchema.name

/-- The names of all tables and indexes of a database. -/
def relationNames (out : OrdMap BucketKey AppliedSchema) (database : String) : List String :=
  (out.entries.filter fun e => e.1.database = database).flatMap fun e => bucketRelations e.2

/-- The relations that a model asks for. -/
def modelRelations (m : ModelDescriptor) : List String :=
  tableNames m ++ (modelIndexes m).map IndexSchema.name

def Inventory.modelsOf (inv : Inventory) (database : String) : List ModelDescriptor :=
  inv.models.filter fun m => (bucketOf (labelToApp inv.apps) m).database = database

/-- Elements by the class they belong to. -/
theorem flatMap_filter_perm {α κ : Type} [DecidableEq κ] (f : α → κ) (l : List α) (ks : List κ)
    (hks : ks.Nodup) :
    (ks.flatMap fun k => l.filter fun a => f a = k).Perm (l.filter fun a => f a ∈ ks) := by
  induction ks with
  | nil => simp
  | cons k ks ih =>
    obtain ⟨hk, hnd⟩ := List.nodup_cons.mp hks
    rw [List.flatMap_cons]
    refine ((ih hnd).append_left _).trans ?_
    have hsplit := List.filter_append_perm (fun a => decide (f a = k))
      (l.filter fun a => f a ∈ k :: ks)
    rw [List.filter_filter, List.filter_filter] at hsplit
    refine Eq.subst (motive := fun r => List.Perm r _) ?_ hsplit
    congr 1
    · refine List.filter_congr fun a _ => ?_
      by_cases hak : f a = k <;> simp [hak]
    · refine List.filter_congr fun a _ => ?_
      by_cases hak : f a = k
      · simp [hak, hk]
      · simp [hak]

theorem relationNames_perm (inv : Inventory) (hv : Valid inv) (generatedAt database : String) :
    (relationNames (inv.projected generatedAt) database).Perm
      ((inv.modelsOf database).flatMap modelRelations) := by
  have hbuckets : (inv.modelsOf database).Perm
      (((appBuckets inv.maps).filter fun b => b.database = database).flatMap inv.modelsIn) := by
    have hparts := flatMap_filter_perm (bucketOf (labelToApp inv.apps)) inv.models
      ((appBuckets inv.maps).filter fun b => b.database = database) ((keys_nodup _).filter _)
    refine Eq.subst (motive := fun r => List.Perm r _) ?_ hparts.symm
    refine List.filter_congr fun m hm => ?_
    have hmem := bucketOf_mem inv hv m hm
    rw [decide_eq_decide, List.mem_filter, and_iff_right hmem, decide_eq_true_iff]
  have hentries := entries_ofList_perm _ (projected_pairs_nodup inv generatedAt)
  refine ((hentries.filter _).flatMap_right _).trans ?_
  rw [List.filter_map, List.flatMap_map]
  refine List.Perm.trans ?_ (hbuckets.symm.flatMap_right _)
  rw [List.flatMap_assoc]
  refine List.Perm.flatMap_left _ fun bucket hb => ?_
  have hmem : bucket ∈ appBuckets inv.maps := List.mem_of_mem_filter hb
  have hkeys := bucketTables_keys_perm inv.maps _ (hv.names bucket hmem)
  have hindexes : ((bucketSchema inv.maps inv.enumMap generatedAt
      (bucketTables inv.maps (inv.modelsIn bucket))).indexes.map IndexSchema.name).Perm
        ((inv.modelsIn bucket).flatMap fun m => (modelIndexes m).map IndexSchema.name) := by
    rw [← List.map_flatMap]
    exact (List.perm_insertionSort _ _).map _
  exact (hkeys.append hindexes).trans (List.flatMap_append_perm _ _ _)

theorem projected_table_keys (inv : Inventory) (hv : Valid inv) (generatedAt : String)
    (bucket : BucketKey) (s : AppliedSchema)
    (hs : (inv.projected generatedAt).get bucket = some s) :
    s.models.values.map TableSchema.table = s.models.keys := by
  obtain ⟨hb, rfl⟩ := (projected_get_iff inv generatedAt bucket s).mp hs
  have hkey : ∀ e ∈ (bucketTables inv.maps (inv.modelsIn bucket)).tables.entries,
      e.2.table = e.1 := by
    rintro ⟨n, t⟩ he
    rw [mem_entries_iff, bucketTables_get_iff _ _ (hv.names bucket hb)] at he
    obtain ⟨m, -, hpair⟩ := he
    unfold tablePairs at hpair
    split_ifs at hpair with hproxy houtbox
    · cases hpair
    · simp only [List.mem_cons, List.not_mem_nil, or_false, Prod.mk.injEq] at hpair
      rcases hpair with ⟨rfl, rfl⟩ | ⟨rfl, rfl⟩ <;> rfl
    · simp only [List.mem_cons, List.not_mem_nil, or_false, Prod.mk.injEq] at hpair
      obtain ⟨rfl, rfl⟩ := hpair
      rfl
  rw [values, List.map_map]
  exact List.map_congr_left hkey

/-- The deltas of a fresh diff and the buckets they belong to. -/
theorem fresh_deltas (out : OrdMap BucketKey AppliedSchema) (deltas : List SchemaDelta)
    (h : diffBucketMaps .empty out = .ok deltas) :
    deltas.map SchemaDelta.bucket = out.keys ∧
      ∀ d ∈ deltas, ∃ s, out.get d.bucket = some s ∧ FreshDelta s d := by
  have hbuckets : bucketsOf .empty out = out.keys := by
    refine List.Perm.eq_of_pairwise (fun a b _ _ hab hba => absurd (hab.trans hba) (lt_irrefl a))
      (keys_sorted _) (keys_sorted _) ?_
    refine (List.perm_ext_iff_of_nodup (keys_nodup _) (keys_nodup _)).mpr fun k => ?_
    show k ∈ sortedDedup _ ↔ _
    rw [mem_sortedDedup]
    rfl
  rw [diffBucketMaps, hbuckets, Fallible.mapM_ok_iff] at h
  have hall : ∀ k ∈ out.keys, ∃ s, out.get k = some s := fun k hk => (mem_keys_iff _ _).mp hk
  generalize out.keys = ks at h hall
  induction h with
  | nil => exact ⟨rfl, by simp⟩
  | cons hd _ ih =>
    obtain ⟨⟨s, hs⟩, hrest⟩ := List.forall_mem_cons.mp hall
    obtain ⟨hbucket, hfresh⟩ := fresh_bucketDelta out _ s hs _ hd
    obtain ⟨hmap, hdeltas⟩ := ih hrest
    refine ⟨by rw [List.map_cons, hmap, hbucket], List.forall_mem_cons.mpr ⟨⟨s, ?_, hfresh⟩, hdeltas⟩⟩
    rw [hbucket, hs]

/-- When the relations of a database have distinct names, its deltas meet none that exists, in
every order of the buckets. -/
theorem replay_database (out : OrdMap BucketKey AppliedSchema) (deltas : List SchemaDelta)
    (hkeys : ∀ bucket s, out.get bucket = some s →
      s.models.values.map TableSchema.table = s.models.keys)
    (h : diffBucketMaps .empty out = .ok deltas) (database : String)
    (hnd : (relationNames out database).Nodup) (ds : List SchemaDelta)
    (hp : ds.Perm (deltas.filter fun d => d.bucket.database = database)) :
    (createAll [] (ds.flatMap SchemaDelta.operations)).isSome = true := by
  obtain ⟨hbuckets, hfresh⟩ := fresh_deltas out deltas h
  obtain ⟨hself, hpairs⟩ := List.nodup_flatMap.mp hnd
  have hcreated : ∀ d ∈ ds, ∃ s, (d.bucket, s) ∈ out.entries.filter (fun e =>
      e.1.database = database) ∧ (d.operations.filterMap created).Nodup ∧
        ∀ n ∈ d.operations.filterMap created, n ∈ bucketRelations s := by
    intro d hd
    obtain ⟨hdeltas, hdb⟩ := List.mem_filter.mp (hp.mem_iff.mp hd)
    obtain ⟨s, hs, hfr⟩ := hfresh d hdeltas
    have hentry : (d.bucket, s) ∈ out.entries.filter (fun e => e.1.database = database) :=
      List.mem_filter.mpr ⟨(mem_entries_iff _ _ _).mpr hs, hdb⟩
    have hsub : ∀ n ∈ (indexMap s).keys, n ∈ s.indexes.map IndexSchema.name := by
      intro n hn
      obtain ⟨i, hi⟩ := (mem_keys_iff _ _).mp hn
      obtain ⟨hname, hmem⟩ := indexMap_name s (n, i) ((mem_entries_iff _ _ _).mpr hi)
      exact List.mem_map.mpr ⟨i, hmem, hname⟩
    refine ⟨s, hentry, ?_⟩
    rcases hfr.created s (hkeys _ s hs) d with hnil | hnames
    · rw [hnil]
      simp
    · rw [hnames]
      refine ⟨List.nodup_append.mpr ⟨keys_nodup _, keys_nodup _, fun a ha b hb => ?_⟩,
        fun n hn => ?_⟩
      · exact (List.nodup_append.mp (hself _ hentry)).2.2 a ha b (hsub b hb)
      · rw [bucketRelations, List.mem_append]
        exact (List.mem_append.mp hn).imp_right (hsub n)
  rw [createAll_isSome_iff, List.filterMap_flatMap]
  refine ⟨List.nodup_flatMap.mpr ⟨fun d hd => ?_, ?_⟩, by simp⟩
  · obtain ⟨s, -, hnodup, -⟩ := hcreated d hd
    exact hnodup
  · -- Deltas of different buckets create different names.
    have hdistinct : (ds.map SchemaDelta.bucket).Nodup := by
      rw [(hp.map SchemaDelta.bucket).nodup_iff]
      exact ((List.filter_sublist.map _).nodup (hbuckets ▸ keys_nodup out))
    have hne : ds.Pairwise fun d d' => d.bucket ≠ d'.bucket := List.pairwise_map.mp hdistinct
    refine hne.imp_of_mem fun {d d'} hd hd' hbucket n hn hn' => ?_
    obtain ⟨s, hentry, -, hsub⟩ := hcreated d hd
    obtain ⟨s', hentry', -, hsub'⟩ := hcreated d' hd'
    have hsymm : Std.Symm (Function.onFun List.Disjoint fun e : BucketKey × AppliedSchema =>
        bucketRelations e.2) := ⟨fun _ _ hd _ h h' => hd h' h⟩
    have hdisj := hpairs.forall hentry hentry' fun heq => hbucket (congrArg Prod.fst heq)
    exact hdisj (hsub n hn) (hsub' n hn')

/-- **Names.** In every bucket of an accepted inventory each model and outbox has a table of its
own, a field-level index has its table and name for itself, and a fresh diff meets no table and no
index twice; a database has exactly the relations that its models ask for, and when their names
are distinct the fresh deltas of its buckets meet no relation that exists. -/
theorem projected_names (inv : Inventory) (generatedAt : String)
    (out : OrdMap BucketKey AppliedSchema) (h : projectFromIters inv generatedAt = .ok out) :
    (∀ bucket s, out.get bucket = some s → BucketNames (inv.modelsIn bucket) s) ∧
    (∀ database, (relationNames out database).Perm
      ((inv.modelsOf database).flatMap modelRelations)) ∧
    ∀ deltas, diffBucketMaps .empty out = .ok deltas →
      (∀ d ∈ deltas, (createAll [] (d.operations.filter isAddTable)).isSome = true ∧
        (createAll [] (d.operations.filter isAddIndex)).isSome = true) ∧
      ∀ database, ((inv.modelsOf database).flatMap modelRelations).Nodup →
        ∀ ds : List SchemaDelta, ds.Perm (deltas.filter fun d => d.bucket.database = database) →
          (createAll [] (ds.flatMap SchemaDelta.operations)).isSome = true := by
  obtain ⟨hv, rfl⟩ := (project_ok_iff inv generatedAt out).mp h
  have hkeys := projected_table_keys inv hv generatedAt
  refine ⟨fun bucket s hs => ?_, relationNames_perm inv hv generatedAt,
    fun deltas hdeltas => ⟨fun d hd => ?_, fun database hnd ds hp => ?_⟩⟩
  · obtain ⟨hb, rfl⟩ := (projected_get_iff inv generatedAt bucket s).mp hs
    exact bucketNames _ _ _ _ (hv.names bucket hb)
  · obtain ⟨s, hs, hfresh⟩ := (fresh_deltas _ deltas hdeltas).2 d hd
    exact hfresh.replay s (hkeys _ s hs) d
  · refine replay_database _ deltas hkeys hdeltas database ?_ ds hp
    exact (relationNames_perm inv hv generatedAt database).nodup_iff.mpr hnd

/-- Invoices with an outbox, a field-level index and one of their own, of shops of another app. -/
def invoices : Inventory where
  models := [
    { plainModel "Invoice" "invoices" "billing" .heerId
        [plainField "id" .bigInt none, { plainField "number" .text none with indexed := true },
          plainField "shop_id" .bigInt (some "Shop")] with
      hasOutbox := true
      indexes := [⟨"invoices_shop_number_key", .columns [⟨"shop_id", none, .asc, .default⟩,
        ⟨"number", none, .asc, .default⟩], .uniqueIndex, .bTree, none, [], false, false, none⟩] },
    plainModel "Shop" "shops" "directory" .heerId
      [plainField "id" .bigInt none, plainField "name" .text none]]
  enums := []
  apps := [⟨"billing", "main"⟩, ⟨"directory", "main"⟩]
  specs := []

/-- The six relations that the two apps ask for are made in any order of the buckets. -/
theorem projected_names_invoices :
    ∃ out deltas, projectFromIters invoices "" = .ok out ∧ diffBucketMaps .empty out = .ok deltas ∧
      (∀ bucket s, out.get bucket = some s → BucketNames (invoices.modelsIn bucket) s) ∧
      (relationNames out "main").Perm ["invoices", "invoices_outbox",
        "invoices_outbox_pending_idx", "invoices_shop_number_key", "invoices_number_idx", "shops"] ∧
      (∀ d ∈ deltas, (createAll [] (d.operations.filter isAddTable)).isSome = true ∧
        (createAll [] (d.operations.filter isAddIndex)).isSome = true) ∧
      ∀ ds : List SchemaDelta, ds.Perm (deltas.filter fun d => d.bucket.database = "main") →
        (createAll [] (ds.flatMap SchemaDelta.operations)).isSome = true := by
  obtain ⟨out, hout, hdiff⟩ := Fallible.exists_of_any (projectFromIters invoices "")
    (fun out => (diffBucketMaps .empty out).toOption.isSome) (by decide +kernel)
  obtain ⟨deltas, hdeltas⟩ : ∃ deltas, diffBucketMaps .empty out = .ok deltas := by
    cases hd : diffBucketMaps .empty out with
    | error e => rw [hd] at hdiff; cases hdiff
    | ok deltas => exact ⟨deltas, rfl⟩
  obtain ⟨hnames, hrelations, hfresh⟩ := projected_names invoices "" out hout
  obtain ⟨hbucket, hdatabase⟩ := hfresh deltas hdeltas
  refine ⟨out, deltas, hout, hdeltas, hnames, (hrelations "main").trans ?_, hbucket,
    hdatabase "main" (by decide +kernel)⟩
  exact of_decide_eq_true (by decide +kernel)

/-! ## Apps that share a table name -/

/-- All names are plain identifiers. -/
def Inventory.plain (inv : Inventory) : Bool :=
  inv.models.all fun m => isPlainIdent (utf8 m.tableName) &&
    (m.columnNames ++ m.indexes.map IndexSpec.name).all fun n => isPlainIdent (utf8 n)

/-- No relation of a database, no column of a table and no creation of a fresh diff clashes. -/
structure NoClash (out : OrdMap BucketKey AppliedSchema) : Prop where
  relations : ∀ database, (relationNames out database).Nodup
  columns : ∀ bucket s, out.get bucket = some s → ∀ t ∈ s.models.values,
    (t.columns.map ColumnSchema.name).Nodup
  fresh : ∀ deltas, diffBucketMaps .empty out = .ok deltas → ∀ database,
    (createAll [] ((deltas.filter fun d => d.bucket.database = database).flatMap
      SchemaDelta.operations)).isSome = true

/-- The settings of two apps, as in the projection's own test. -/
def twoSettings : Inventory where
  models := [plainModel "BillingSettings" "settings" "billing" .heerId
      [plainField "id" .bigInt none],
    plainModel "UserSettings" "settings" "users" .heerId [plainField "id" .bigInt none]]
  enums := []
  apps := [⟨"billing", "main"⟩, ⟨"users", "main"⟩]
  specs := []

theorem names_clash : ¬∀ inv generatedAt out, inv.plain = true →
    projectFromIters inv generatedAt = .ok out → NoClash out := by
  intro h
  obtain ⟨out, hout, hclash⟩ := Fallible.exists_of_any (projectFromIters twoSettings "")
    (fun out => ¬(relationNames out "main").Nodup) (by decide +kernel)
  exact of_decide_eq_true hclash ((h twoSettings "" out (by decide +kernel) hout).relations "main")

end Djogi

import Djogi.Lib.Evolution
import Djogi.Coverage
import Djogi.Order

/-!
# Replaying tables and columns

The planned operations as edits of a map from table names to sets of column names.

* `replay_order_iff`: the planned order renames tables, adds tables, makes columns, drops
  columns and drops tables;
* `replay_diffSchemas_iff`: the replay of a delta ends in the names of the new schema
  exactly when the rename hints are usable (`Replayable`);
* `replay_takeover`: a table renamed onto the name of another table is refused.
-/

namespace Djogi

open OrdMap

/-! ## Shapes -/

abbrev Names := OrdMap String Unit

def columnNames (t : TableSchema) : Names := (columnMap t).map fun _ => ()

/-- Tables with the sets of their column names. -/
def AppliedSchema.shape (s : AppliedSchema) : OrdMap String Names := s.models.map columnNames

inductive ShapeEdit
  | table (e : Edit String Names)
  | column (table : String) (e : Edit String Unit)
  deriving DecidableEq

def shapeEdit? : SchemaOperation → Option ShapeEdit
  | .addTable t => some (.table (.add t.table (columnNames t)))
  | .dropTable t => some (.table (.drop t))
  | .renameTable a b => some (.table (.rename a b))
  | .addColumn t c => some (.column t (.add c.name ()))
  | .dropColumn t c => some (.column t (.drop c))
  | .renameColumn t a b => some (.column t (.rename a b))
  | _ => none

def ShapeEdit.run (m : OrdMap String Names) : ShapeEdit → Option (OrdMap String Names)
  | .table e => m.edit e
  | .column t e => m.stepAt edit (t, e)

def replayOp (m : OrdMap String Names) (op : SchemaOperation) : Option (OrdMap String Names) :=
  match shapeEdit? op with
  | some e => e.run m
  | none => some m

/-- Replay operations; an edit of an absent name or onto a present one fails. -/
def replay (ops : List SchemaOperation) (m : OrdMap String Names) :
    Option (OrdMap String Names) := ops.foldlM replayOp m

def runEdits (l : List ShapeEdit) (m : OrdMap String Names) : Option (OrdMap String Names) :=
  l.foldlM ShapeEdit.run m

def shapeEdits (ops : List SchemaOperation) : List ShapeEdit := ops.filterMap shapeEdit?

theorem shapeEdits_cons_none (op : SchemaOperation) (ops : List SchemaOperation)
    (h : shapeEdit? op = none) : shapeEdits (op :: ops) = shapeEdits ops :=
  List.filterMap_cons_none h

theorem shapeEdits_cons_some (op : SchemaOperation) (ops : List SchemaOperation) (e : ShapeEdit)
    (h : shapeEdit? op = some e) : shapeEdits (op :: ops) = e :: shapeEdits ops :=
  List.filterMap_cons_some h

theorem replay_eq_runEdits (ops : List SchemaOperation) (m : OrdMap String Names) :
    replay ops m = runEdits (shapeEdits ops) m := by
  induction ops generalizing m with
  | nil => rfl
  | cons op ops ih =>
      show ((replayOp m op).bind fun m' => replay ops m') = _
      cases h : shapeEdit? op with
      | none =>
          have hstep : replayOp m op = some m := by rw [replayOp, h]
          rw [shapeEdits_cons_none op ops h, hstep]
          exact ih m
      | some e =>
          have hstep : replayOp m op = e.run m := by rw [replayOp, h]
          rw [shapeEdits_cons_some op ops e h, hstep]
          exact congrArg ((e.run m).bind ·) (funext fun m' => ih m')

theorem runEdits_append (l₁ l₂ : List ShapeEdit) (m : OrdMap String Names) :
    runEdits (l₁ ++ l₂) m = (runEdits l₁ m).bind (runEdits l₂) := by
  simp only [runEdits, List.foldlM_append]
  rfl

theorem runEdits_tables (l : List (Edit String Names)) (m : OrdMap String Names) :
    runEdits (l.map .table) m = m.edits l := by
  induction l generalizing m with
  | nil => rfl
  | cons e l ih =>
      rw [List.map_cons, runEdits, List.foldlM_cons, edits_cons]
      exact congrArg ((m.edit e).bind ·) (funext fun m' => ih m')

theorem runEdits_columns (l : List (String × Edit String Unit)) (m : OrdMap String Names) :
    runEdits (l.map fun s => .column s.1 s.2) m = m.runAt edit l := by
  induction l generalizing m with
  | nil => rfl
  | cons s l ih =>
      rw [List.map_cons, runEdits, List.foldlM_cons, runAt, List.foldlM_cons]
      exact congrArg ((m.stepAt edit s).bind ·) (funext fun m' => ih m')

/-! ## The edits of a delta -/

/-- Additions and renames of columns come before drops. -/
def ShapeEdit.phase : ShapeEdit → Nat
  | .table (.rename ..) => 1
  | .table (.add ..) => 2
  | .column _ (.add ..) | .column _ (.rename ..) => 3
  | .column _ (.drop _) => 8
  | .table (.drop _) => 9

theorem shapeEdit?_phase (op : SchemaOperation) (e : ShapeEdit) (h : shapeEdit? op = some e) :
    operationPhase op = e.phase := by
  cases op <;> cases h <;> rfl

theorem shapeEdits_append (a b : List SchemaOperation) :
    shapeEdits (a ++ b) = shapeEdits a ++ shapeEdits b := List.filterMap_append

theorem shapeEdits_flatMap {α : Type} (l : List α) (f : α → List SchemaOperation) :
    shapeEdits (l.flatMap f) = l.flatMap fun x => shapeEdits (f x) := List.filterMap_flatMap

theorem shapeEdits_phaseOps (ops : List SchemaOperation) (k : Nat) :
    shapeEdits (phaseOps ops k) = (shapeEdits ops).filter fun e => e.phase = k := by
  induction ops with
  | nil => rfl
  | cons op ops ih =>
      by_cases hk : operationPhase op = k
      · have hcons : phaseOps (op :: ops) k = op :: phaseOps ops k := by
          simp [phaseOps, StableSort.bucket, hk]
        cases h : shapeEdit? op with
        | none => rw [hcons, shapeEdits_cons_none _ _ h, shapeEdits_cons_none _ _ h, ih]
        | some e =>
            have he : e.phase = k := (shapeEdit?_phase op e h).symm.trans hk
            rw [hcons, shapeEdits_cons_some _ _ e h, shapeEdits_cons_some _ _ e h, ih,
              List.filter_cons_of_pos (by simpa using he)]
      · have hcons : phaseOps (op :: ops) k = phaseOps ops k :=
          StableSort.bucket_cons_of_ne operationPhase op ops k hk
        cases h : shapeEdit? op with
        | none => rw [hcons, shapeEdits_cons_none _ _ h, ih]
        | some e =>
            have he : e.phase ≠ k := fun he => hk ((shapeEdit?_phase op e h).trans he)
            rw [hcons, shapeEdits_cons_some _ _ e h, ih,
              List.filter_cons_of_neg (by simpa using he)]

/-! ## Rename hints -/

section Hints

variable {α : Type} (m : OrdMap String α) (hint : α → Option String) (known : String → Bool)
  (name : α → String)

/-- The rename hints of a map whose sources are known; the last hint for a source wins. -/
private def hintMap : OrdMap String String :=
  .ofList (m.values.filterMap fun x => ((hint x).filter known).map fun prev => (prev, name x))

variable (hname : ∀ k x, m.get k = some x → name x = k)

include hname

private theorem hintMap_get (p n : String) (h : (hintMap m hint known name).get p = some n) :
    known p = true ∧ ∃ x, m.get n = some x ∧ hint x = some p := by
  have hmem := mem_of_mem_ofList _ _ ((mem_entries_iff _ p n).mpr h)
  obtain ⟨x, hx, hsome⟩ := List.mem_filterMap.mp hmem
  obtain ⟨q, hq, heq⟩ := Option.map_eq_some_iff.mp hsome
  obtain ⟨hq, hknown⟩ := Option.filter_eq_some_iff.mp hq
  obtain ⟨k, hk⟩ := (mem_values_iff m x).mp hx
  cases heq
  exact ⟨hknown, x, hname k x hk ▸ hk, hq⟩

private theorem hintMap_values_nodup : (hintMap m hint known name).values.Nodup := by
  refine List.Nodup.map_on ?_ (entries_nodup _)
  rintro ⟨p, n⟩ hp ⟨q, n'⟩ hq rfl
  obtain ⟨-, x, hx, hxp⟩ := hintMap_get m hint known name hname p n ((mem_entries_iff _ _ _).mp hp)
  obtain ⟨-, y, hy, hyq⟩ := hintMap_get m hint known name hname q n ((mem_entries_iff _ _ _).mp hq)
  obtain rfl : x = y := Option.some.inj (hx.symm.trans hy)
  obtain rfl : p = q := Option.some.inj (hxp.symm.trans hyq)
  rfl

end Hints

theorem columnMap_name (t : TableSchema) (k : String) (c : ColumnSchema)
    (h : (columnMap t).get k = some c) : c.name = k := by
  have hmem := mem_of_mem_ofList _ _ ((mem_entries_iff _ k c).mpr h)
  obtain ⟨c', -, heq⟩ := List.mem_map.mp hmem
  cases heq
  rfl

@[simp] theorem keys_columnNames (t : TableSchema) : (columnNames t).keys = (columnMap t).keys :=
  keys_map _ _

theorem columnRenameTargets_get (b a : TableSchema) (p n : String)
    (h : (columnRenameTargets b a).get p = some n) :
    p ∈ (columnMap b).keys ∧ ∃ c, (columnMap a).get n = some c ∧ c.renamedFrom = some p := by
  obtain ⟨hp, hc⟩ := hintMap_get (columnMap a) _ _ _ (columnMap_name a) p n h
  exact ⟨(contains_iff _ p).mp hp, hc⟩

theorem tableRenameTargets_get (before : AppliedSchema) (after : NamedSchema) (p n : String)
    (h : (tableRenameTargets before after.toAppliedSchema).get p = some n) :
    p ∈ before.models.keys ∧ ∃ t, after.models.get n = some t ∧ t.renamedFrom = some p := by
  obtain ⟨hp, ht⟩ := hintMap_get after.models _ _ _ after.table_eq p n h
  exact ⟨(contains_iff _ p).mp hp, ht⟩

theorem tableRenameTargets_values_nodup (before : AppliedSchema) (after : NamedSchema) :
    (tableRenameTargets before after.toAppliedSchema).values.Nodup :=
  hintMap_values_nodup after.models _ _ _ after.table_eq

/-! ## Columns of one table -/

/-- What the differ finds between the column names of two tables. -/
def columnEvolution (b a : TableSchema) (ha : (a.columns.map ColumnSchema.name).Nodup) :
    Evolution String where
  before := columnNames b
  after := columnNames a
  renames := columnRenameTargets b a
  added := (a.columns.filter fun c => !(columnMap b).contains c.name &&
    !(columnRenameTargets b a).values.contains c.name).map ColumnSchema.name
  dropped := (columnMap b).keys.filter fun old =>
    !(columnMap a).contains old && !(columnRenameTargets b a).contains old
  source_mem k hk := by
    obtain ⟨n, hn⟩ := (mem_keys_iff _ k).mp hk
    rw [keys_columnNames]
    exact (columnRenameTargets_get b a k n hn).1
  target_mem k hk := by
    obtain ⟨p, hp⟩ := (mem_values_iff _ k).mp hk
    obtain ⟨-, c, hc, -⟩ := columnRenameTargets_get b a p k hp
    rw [keys_columnNames]
    exact (mem_keys_iff _ k).mpr ⟨c, hc⟩
  target_nodup := hintMap_values_nodup (columnMap a) _ _ _ (columnMap_name a)
  added_nodup := ha.sublist (List.filter_sublist.map _)
  mem_added k := by
    simp only [List.mem_map, List.mem_filter, keys_columnNames, mem_keys_columnMap a]
    constructor
    · rintro ⟨c, ⟨hc, hnew⟩, rfl⟩
      exact ⟨⟨c, hc, rfl⟩, by simpa using hnew⟩
    · rintro ⟨⟨c, hc, rfl⟩, hnew⟩
      exact ⟨c, ⟨hc, by simpa using hnew⟩, rfl⟩
  dropped_nodup := (keys_nodup _).filter _
  mem_dropped k := by simp

/-- The edits that make columns, and those that drop them. -/
def makeColumns (b a : TableSchema) : List (Edit String Unit) :=
  (a.columns.filter fun c => !(columnMap b).contains c.name &&
      !(columnRenameTargets b a).values.contains c.name).map (fun c => .add c.name ()) ++
    (columnRenameTargets b a).entries.map fun e => .rename e.1 e.2

def dropColumns (b a : TableSchema) : List (Edit String Unit) :=
  ((columnMap b).keys.filter fun old =>
    !(columnMap a).contains old && !(columnRenameTargets b a).contains old).map .drop

theorem makeColumns_eq (b a : TableSchema) (ha : (a.columns.map ColumnSchema.name).Nodup) :
    makeColumns b a = (columnEvolution b a ha).adds ++ (columnEvolution b a ha).moves := by
  simp [makeColumns, Evolution.adds, Evolution.moves, columnEvolution, Function.comp_def]

/-! ## The edits of one delta -/

theorem shapeEdits_emitAlterColumn (t : TableSchema) (b a : ColumnSchema) :
    shapeEdits (emitAlterColumn t b a) = [] := by
  refine List.filterMap_eq_nil_iff.mpr fun op hop => ?_
  rcases List.mem_append.mp hop with h | h
  · obtain ⟨c, -, rfl⟩ := List.mem_map.mp h
    rfl
  · cases hb : b.foreignKey <;> cases ha : a.foreignKey <;> simp [foreignKeyChanges, hb, ha] at h
    · rw [h]
      rfl
    · rw [h]
      rfl
    · rcases h with ⟨-, rfl | rfl⟩ <;> rfl

/-- The column edits of a table that is in both schemas. -/
def pairEdits (b a : TableSchema) : List ShapeEdit :=
  (dropColumns b a ++ makeColumns b a).map (.column a.table)

private theorem shapeEdits_map {α : Type} (l : List α) (f : α → SchemaOperation) (g : α → ShapeEdit)
    (h : ∀ x, shapeEdit? (f x) = some (g x)) : shapeEdits (l.map f) = l.map g := by
  induction l with
  | nil => rfl
  | cons x l ih => rw [List.map_cons, shapeEdits_cons_some _ _ _ (h x), ih, List.map_cons]

theorem shapeEdits_diffColumnsInTable (b a : TableSchema) :
    shapeEdits (diffColumnsInTable b a) = pairEdits b a := by
  have hcommon : shapeEdits ((columnMap a).entries.flatMap (commonColumnOps b a)) = [] := by
    rw [shapeEdits_flatMap, List.flatMap_eq_nil_iff]
    intro e _
    rw [commonColumnOps]
    split
    · rfl
    · split_ifs
      · rfl
      · exact shapeEdits_emitAlterColumn _ _ _
  have hrename (e : String × String) : shapeEdits (renameColumnOps b a e) =
      [.column a.table (.rename e.1 e.2)] := by
    rw [renameColumnOps, shapeEdits_cons_some _ _ _ rfl]
    congr 1
    split
    · exact shapeEdits_emitAlterColumn _ _ _
    · rfl
  rw [diffColumnsInTable, shapeEdits_append, shapeEdits_append, shapeEdits_append, hcommon,
    List.append_nil, shapeEdits_flatMap, dropColumnOps, addColumnOps,
    shapeEdits_map _ _ (fun c => .column a.table (.drop c)) fun _ => rfl,
    shapeEdits_map _ _ (fun c => .column a.table (.add c.name ())) fun _ => rfl,
    funext hrename, ← List.map_eq_flatMap, pairEdits, dropColumns, makeColumns]
  simp [Function.comp_def]

private theorem shapeEdits_eq_nil (ops : List SchemaOperation)
    (h : ∀ op ∈ ops, shapeEdit? op = none) : shapeEdits ops = [] :=
  List.filterMap_eq_nil_iff.mpr h

theorem shapeEdits_diffPkInTable (b a : TableSchema) (r : OrdMap String String) :
    shapeEdits (diffPkInTable b a r) = [] := by
  rw [diffPkInTable]
  split_ifs <;> rfl

theorem shapeEdits_diffExclusionConstraintsInTable (b a : TableSchema) :
    shapeEdits (diffExclusionConstraintsInTable b a) = [] := by
  refine shapeEdits_eq_nil _ fun op hop => ?_
  rcases List.mem_append.mp hop with h | h
  · obtain ⟨e, -, rfl⟩ := List.mem_map.mp h
    rfl
  · obtain ⟨e, -, h⟩ := List.mem_flatMap.mp h
    split at h
    · split_ifs at h
      · cases h
      · simp only [List.mem_cons, List.not_mem_nil, or_false] at h
        rcases h with rfl | rfl <;> rfl
    · rw [List.mem_singleton.mp h]
      rfl

theorem shapeEdits_diffTableMetadataInTable (b a : TableSchema) :
    shapeEdits (diffTableMetadataInTable b a) = [] := by
  rw [diffTableMetadataInTable]
  split_ifs <;> rfl

theorem shapeEdits_diffAppMoveInTable (b a : TableSchema) :
    shapeEdits (diffAppMoveInTable b a) = [] := by
  rw [diffAppMoveInTable]
  split_ifs <;> rfl

theorem shapeEdits_diffIndexes (before after : AppliedSchema) :
    shapeEdits (diffIndexes before after) = [] := by
  refine shapeEdits_eq_nil _ fun op hop => ?_
  rcases List.mem_append.mp hop with h | h
  · obtain ⟨e, -, h⟩ := List.mem_flatMap.mp h
    split at h
    · split_ifs at h
      · cases h
      · simp only [List.mem_cons, List.not_mem_nil, or_false] at h
        rcases h with rfl | rfl <;> rfl
    · rw [List.mem_singleton.mp h]
      rfl
  · obtain ⟨e, -, rfl⟩ := List.mem_map.mp h
    rfl

theorem shapeEdits_diffEnums (before after : AppliedSchema) :
    shapeEdits (diffEnums before after) = [] := by
  refine shapeEdits_eq_nil _ fun op hop => ?_
  rcases List.mem_append.mp hop with h | h
  · obtain ⟨e, -, h⟩ := List.mem_flatMap.mp h
    rw [diffEnum] at h
    split at h
    · rw [List.mem_singleton.mp h]
      rfl
    · split_ifs at h
      · cases h
      · rcases List.mem_append.mp h with h | h
        · obtain ⟨v, -, h⟩ := List.mem_filterMap.mp h
          split_ifs at h
          rw [← Option.some.inj h]
          rfl
        · obtain ⟨v, -, rfl⟩ := List.mem_map.mp h
          rfl
  · obtain ⟨e, -, rfl⟩ := List.mem_map.mp h
    rfl

/-! ### Walks over pairs of tables -/

section Walk

variable {β : Type} (before after : AppliedSchema) (f : TableSchema → TableSchema → List β)

def renamedPair (e : String × String) : List β :=
  match before.models.get e.1, after.models.get e.2 with
  | some b, some a => f b a
  | _, _ => []

def commonPair (e : String × TableSchema) : List β :=
  match before.models.get e.1 with
  | none => []
  | some b => if b.persistent = e.2.persistent then [] else f b e.2

/-- The pairs in the differ's order: the renamed tables, then the tables whose name is
in both schemas. -/
def pairWalk : List β :=
  (tableRenameTargets before after).entries.flatMap (renamedPair before after f) ++
    after.models.entries.flatMap (commonPair before f)

theorem filter_renamedPair (p : β → Bool) (e : String × String) :
    (renamedPair before after f e).filter p =
      renamedPair before after (fun b a => (f b a).filter p) e := by
  simp only [renamedPair]
  split <;> rfl

theorem filter_commonPair (p : β → Bool) (e : String × TableSchema) :
    (commonPair before f e).filter p = commonPair before (fun b a => (f b a).filter p) e := by
  simp only [commonPair]
  split
  · rfl
  · split_ifs <;> rfl

theorem map_pairWalk {γ : Type} (g : β → γ) :
    (pairWalk before after f).map g = pairWalk before after fun b a => (f b a).map g := by
  have hr (e : String × String) : (renamedPair before after f e).map g =
      renamedPair before after (fun b a => (f b a).map g) e := by
    simp only [renamedPair]
    split <;> rfl
  have hc (e : String × TableSchema) : (commonPair before f e).map g =
      commonPair before (fun b a => (f b a).map g) e := by
    simp only [commonPair]
    split
    · rfl
    · split_ifs <;> rfl
  simp only [pairWalk, List.map_append, List.map_flatMap, hr, hc]

end Walk

def droppedTables (before after : AppliedSchema) : List String :=
  before.models.keys.filter fun old =>
    !after.models.contains old && !(tableRenameTargets before after).contains old

def addedTables (before after : AppliedSchema) : List TableSchema :=
  after.models.values.filter fun t =>
    !before.models.contains t.table &&
      !(tableRenameTargets before after).values.contains t.table

theorem shapeEdits_renameTableOps (before after : AppliedSchema) (e : String × String) :
    shapeEdits (renameTableOps before after e) =
      .table (.rename e.1 e.2) :: renamedPair before after pairEdits e := by
  rw [renameTableOps, shapeEdits_cons_some _ _ _ rfl, renamedPair]
  congr 1
  cases before.models.get e.1 with
  | none => rfl
  | some b =>
      cases after.models.get e.2 with
      | none => rfl
      | some a =>
          simp only
          rw [shapeEdits_append, shapeEdits_append, shapeEdits_append,
            shapeEdits_diffColumnsInTable, shapeEdits_diffPkInTable,
            shapeEdits_diffExclusionConstraintsInTable, shapeEdits_diffTableMetadataInTable,
            List.append_nil, List.append_nil, List.append_nil]

theorem shapeEdits_commonTableOps (before : AppliedSchema) (e : String × TableSchema) :
    shapeEdits (commonTableOps before e) = commonPair before pairEdits e := by
  rw [commonTableOps, commonPair]
  cases before.models.get e.1 with
  | none => rfl
  | some b =>
      simp only
      split_ifs
      · rfl
      · rw [shapeEdits_append, shapeEdits_append, shapeEdits_append, shapeEdits_append,
          shapeEdits_diffColumnsInTable, shapeEdits_diffPkInTable, shapeEdits_diffAppMoveInTable,
          shapeEdits_diffExclusionConstraintsInTable, shapeEdits_diffTableMetadataInTable,
          List.append_nil, List.append_nil, List.append_nil, List.append_nil]

theorem shapeEdits_diffOperations (before after : AppliedSchema) :
    shapeEdits (diffOperations before after) =
      (droppedTables before after).map (fun t => .table (.drop t)) ++
      (addedTables before after).map (fun t => .table (.add t.table (columnNames t))) ++
      (tableRenameTargets before after).entries.flatMap
        (fun e => .table (.rename e.1 e.2) :: renamedPair before after pairEdits e) ++
      after.models.entries.flatMap (commonPair before pairEdits) := by
  rw [diffOperations, shapeEdits_append, shapeEdits_append, shapeEdits_diffIndexes,
    shapeEdits_diffEnums, List.append_nil, List.append_nil, diffTables, shapeEdits_append,
    shapeEdits_append, shapeEdits_append, shapeEdits_flatMap, shapeEdits_flatMap,
    funext (shapeEdits_renameTableOps before after), funext (shapeEdits_commonTableOps before)]
  have hdrop : shapeEdits (dropTableOps before after) =
      (droppedTables before after).map fun t => .table (.drop t) :=
    shapeEdits_map _ _ _ fun _ => rfl
  have hadd : shapeEdits (addTableOps before after) =
      (addedTables before after).map fun t => .table (.add t.table (columnNames t)) :=
    shapeEdits_map _ _ _ fun _ => rfl
  rw [hdrop, hadd]

/-! ### The planned edits -/

def renameEdits (before after : AppliedSchema) : List (Edit String Names) :=
  (tableRenameTargets before after).entries.map fun e => .rename e.1 e.2

def newTables (tables : List TableSchema) : List (String × Names) :=
  tables.map fun t => (t.table, columnNames t)

def addEdits (l : List (String × Names)) : List (Edit String Names) :=
  l.map fun e => .add e.1 e.2

def dropEdits (before after : AppliedSchema) : List (Edit String Names) :=
  (droppedTables before after).map .drop

/-- The column edits under the table names they run under. -/
def makeSteps (b a : TableSchema) : List (String × Edit String Unit) :=
  (makeColumns b a).map (a.table, ·)

def dropSteps (b a : TableSchema) : List (String × Edit String Unit) :=
  (dropColumns b a).map (a.table, ·)

private theorem filter_const {α : Type} (l : List α) (p : α → Bool) (c : Bool)
    (h : ∀ x ∈ l, p x = c) : l.filter p = if c = true then l else [] := by
  cases c with
  | true => exact List.filter_eq_self.mpr h
  | false => exact List.filter_eq_nil_iff.mpr fun x hx => by simp [h x hx]

private theorem filter_pairEdits (b a : TableSchema) (k : Nat) :
    (pairEdits b a).filter (fun e => e.phase = k) =
      (if k = 8 then (dropSteps b a).map fun s => .column s.1 s.2 else []) ++
        if k = 3 then (makeSteps b a).map fun s => .column s.1 s.2 else [] := by
  have hdrop : ∀ e ∈ (dropColumns b a).map (ShapeEdit.column a.table), decide (e.phase = k) =
      decide (8 = k) := by
    intro e he
    obtain ⟨d, hd, rfl⟩ := List.mem_map.mp he
    obtain ⟨c, -, rfl⟩ := List.mem_map.mp hd
    rfl
  have hmake : ∀ e ∈ (makeColumns b a).map (ShapeEdit.column a.table), decide (e.phase = k) =
      decide (3 = k) := by
    intro e he
    obtain ⟨d, hd, rfl⟩ := List.mem_map.mp he
    rcases List.mem_append.mp hd with hd | hd
    · obtain ⟨c, -, rfl⟩ := List.mem_map.mp hd
      rfl
    · obtain ⟨c, -, rfl⟩ := List.mem_map.mp hd
      rfl
  rw [pairEdits, List.map_append, List.filter_append, filter_const _ _ _ hdrop,
    filter_const _ _ _ hmake]
  simp [dropSteps, makeSteps, eq_comm, Function.comp_def]

/-- The edits of one phase. -/
private theorem filter_phase (before after : AppliedSchema) (k : Nat) :
    (shapeEdits (diffOperations before after)).filter (fun e => e.phase = k) =
      (if k = 9 then (dropEdits before after).map .table else []) ++
      (if k = 2 then (addEdits (newTables (addedTables before after))).map .table else []) ++
      (if k = 1 then (renameEdits before after).map .table else []) ++
      (if k = 3 then (pairWalk before after makeSteps).map fun s => .column s.1 s.2 else []) ++
      if k = 8 then (pairWalk before after dropSteps).map fun s => .column s.1 s.2 else [] := by
  have hdrop : ∀ e ∈ (dropEdits before after).map ShapeEdit.table, decide (e.phase = k) =
      decide (9 = k) := by
    intro e he
    obtain ⟨d, hd, rfl⟩ := List.mem_map.mp he
    obtain ⟨t, -, rfl⟩ := List.mem_map.mp hd
    rfl
  have hadd : ∀ e ∈ (addEdits (newTables (addedTables before after))).map ShapeEdit.table,
      decide (e.phase = k) = decide (2 = k) := by
    intro e he
    obtain ⟨d, hd, rfl⟩ := List.mem_map.mp he
    obtain ⟨t, -, rfl⟩ := List.mem_map.mp hd
    rfl
  have hrename (e : String × String) : (ShapeEdit.table (.rename e.1 e.2) ::
      renamedPair before after pairEdits e).filter (fun e => e.phase = k) =
      (if k = 1 then [ShapeEdit.table (.rename e.1 e.2)] else []) ++
        renamedPair before after (fun b a => (pairEdits b a).filter fun e => e.phase = k) e := by
    rw [List.filter_cons, filter_renamedPair]
    simp only [ShapeEdit.phase, decide_eq_true_eq, eq_comm (a := 1)]
    split_ifs <;> rfl
  have hnone (e : String × String) : renamedPair before after (fun _ _ => []) e =
      ([] : List ShapeEdit) := by
    rw [renamedPair]
    split <;> rfl
  have hnone' (e : String × TableSchema) : commonPair before (fun _ _ => []) e =
      ([] : List ShapeEdit) := by
    rw [commonPair]
    split
    · rfl
    · split_ifs <;> rfl
  have hdrops : (droppedTables before after).map (fun t => ShapeEdit.table (.drop t)) =
      (dropEdits before after).map .table := by simp [dropEdits]
  have hadds : (addedTables before after).map
      (fun t => ShapeEdit.table (.add t.table (columnNames t))) =
      (addEdits (newTables (addedTables before after))).map .table := by simp [addEdits, newTables]
  have hrenames : (renameEdits before after).map ShapeEdit.table =
      (tableRenameTargets before after).entries.map fun e => .table (.rename e.1 e.2) := by
    simp [renameEdits]
  rw [shapeEdits_diffOperations, hdrops, hadds, List.filter_append, List.filter_append,
    List.filter_append, filter_const _ _ _ hdrop, filter_const _ _ _ hadd, List.filter_flatMap,
    List.filter_flatMap, funext hrename, hrenames, map_pairWalk, map_pairWalk]
  simp only [filter_commonPair, filter_pairEdits, decide_eq_true_eq, eq_comm (a := 9),
    eq_comm (a := 2)]
  by_cases h1 : k = 1
  · subst h1
    simp [hnone, hnone', List.map_eq_flatMap]
  · by_cases h3 : k = 3
    · subst h3
      simp [pairWalk]
    · by_cases h8 : k = 8
      · subst h8
        simp [pairWalk]
      · simp [h1, h3, h8, hnone, hnone']

/-- The new tables of a delta. -/
theorem filterMap_addTable (ops : List SchemaOperation) :
    (ops.filterMap addTable?).map (fun t => ShapeEdit.table (.add t.table (columnNames t))) =
      (shapeEdits ops).filter fun e => e.phase = 2 := by
  induction ops with
  | nil => rfl
  | cons op ops ih =>
      cases op <;>
        simpa [shapeEdits, shapeEdit?, addTable?, ShapeEdit.phase, List.filterMap_cons] using ih

theorem columnNames_eq (t : TableSchema) :
    columnNames t = .ofList ((t.columns.map ColumnSchema.name).map fun n => (n, ())) := by
  rw [columnNames, columnMap, ← ofList_map, List.map_map, List.map_map]
  rfl

theorem columnNames_strip (members : List String) (t : TableSchema) :
    columnNames (stripForeignKeys members t) = columnNames t := by
  have hcols : (stripForeignKeys members t).columns.map ColumnSchema.name =
      t.columns.map ColumnSchema.name := by
    rw [stripForeignKeys, List.map_map]
    refine List.map_congr_left fun c _ => ?_
    simp only [Function.comp_apply]
    cases c.foreignKey with
    | none => rfl
    | some fk =>
        simp only
        split_ifs <;> rfl
  rw [columnNames_eq, columnNames_eq, hcols]

theorem newTables_of_diffOperations (before after : AppliedSchema) :
    newTables ((diffOperations before after).filterMap addTable?) =
      newTables (addedTables before after) := by
  have hinj : Function.Injective fun e : String × Names => ShapeEdit.table (.add e.1 e.2) := by
    rintro ⟨k, v⟩ ⟨k', v'⟩ h
    simpa using h
  apply hinj.list_map
  rw [newTables, List.map_map]
  refine (filterMap_addTable _).trans ?_
  rw [filter_phase]
  simp [addEdits]

theorem NamedSchema.values_map_table (s : NamedSchema) :
    s.models.values.map TableSchema.table = s.models.keys := by
  rw [values, List.map_map]
  exact List.map_congr_left fun e he => s.modelKey e he

theorem addedTables_nodup (before : AppliedSchema) (after : NamedSchema) :
    ((addedTables before after.toAppliedSchema).map TableSchema.table).Nodup := by
  have h := after.values_map_table ▸ after.models.keys_nodup
  exact h.sublist (List.filter_sublist.map _)

theorem newTables_keys (tables : List TableSchema) :
    (newTables tables).map Prod.fst = tables.map TableSchema.table := by
  simp [newTables, Function.comp_def]

/-- **The planned edits.** -/
theorem shapeEdits_order (before : AppliedSchema) (after : NamedSchema) :
    ∃ l, l.Perm (newTables (addedTables before after.toAppliedSchema)) ∧
      shapeEdits (orderOperations (diffOperations before after.toAppliedSchema)) =
        (renameEdits before after.toAppliedSchema ++ addEdits l).map .table ++
        (pairWalk before after.toAppliedSchema makeSteps ++
          pairWalk before after.toAppliedSchema dropSteps).map (fun s => .column s.1 s.2) ++
        (dropEdits before after.toAppliedSchema).map .table := by
  have hadd := newTables_of_diffOperations before after.toAppliedSchema
  have hphase := filter_phase before after.toAppliedSchema
  generalize diffOperations before after.toAppliedSchema = ops at hadd hphase ⊢
  have hnames : (ops.filterMap addTable?).map TableSchema.table =
      (addedTables before after.toAppliedSchema).map TableSchema.table := by
    rw [← newTables_keys, hadd, newTables_keys]
  have hn : ((ops.filterMap addTable?).map TableSchema.table).Nodup :=
    hnames ▸ addedTables_nodup before after
  refine ⟨newTables (toposortAddTables (ops.filterMap addTable?)).1, ?_, ?_⟩
  · rw [← hadd]
    refine toposort_tables_perm _ (fun members t => ?_) _ hn
    rw [columnNames_strip]
    rfl
  · have hkeys : shapeEdits (toposortAddTables (ops.filterMap addTable?)).2 = [] := by
      refine shapeEdits_eq_nil _ fun op hop => ?_
      obtain ⟨t, -, c, -, fk, -, rfl⟩ := toposort_foreignKeys _ hn op hop
      rfl
    have hbatch : shapeEdits (tableBatch ops) =
        (addEdits (newTables (toposortAddTables (ops.filterMap addTable?)).1)).map .table := by
      rw [tableBatch, shapeEdits_append, hkeys, List.append_nil, addEdits, newTables, List.map_map,
        List.map_map]
      exact shapeEdits_map _ _ _ fun _ => rfl
    rw [orderOperations_eq, shapeEdits_append, shapeEdits_append, shapeEdits_append, hbatch,
      shapeEdits_flatMap]
    simp [shapeEdits_phaseOps, hphase]

/-- **The replay in stages.** -/
theorem replay_order_iff (before : AppliedSchema) (after : NamedSchema)
    (m m' : OrdMap String Names) :
    replay (orderOperations (diffOperations before after.toAppliedSchema)) m = some m' ↔
      ∃ m₁ m₂ m₃, m.edits (renameEdits before after.toAppliedSchema) = some m₁ ∧
        m₁.edits (addEdits (newTables (addedTables before after.toAppliedSchema))) = some m₂ ∧
        m₂.runAt edit (pairWalk before after.toAppliedSchema makeSteps ++
          pairWalk before after.toAppliedSchema dropSteps) = some m₃ ∧
        m₃.edits (dropEdits before after.toAppliedSchema) = some m' := by
  obtain ⟨l, hl, hedits⟩ := shapeEdits_order before after
  rw [replay_eq_runEdits, hedits, runEdits_append, runEdits_append, runEdits_tables, edits_append]
  simp only [Option.bind_eq_some_iff, addEdits, edits_adds_perm _ _ hl, runEdits_columns,
    runEdits_tables]
  constructor
  · rintro ⟨m₃, ⟨m₂, ⟨m₁, h₁, h₂⟩, h₃⟩, h₄⟩
    exact ⟨m₁, m₂, m₃, h₁, h₂, h₃, h₄⟩
  · rintro ⟨m₁, m₂, m₃, h₁, h₂, h₃, h₄⟩
    exact ⟨m₃, ⟨m₂, ⟨m₁, h₁, h₂⟩, h₃⟩, h₄⟩

/-! ## Steps of one table -/

section Steps

variable (before : AppliedSchema) (after : NamedSchema)
  (g : TableSchema → TableSchema → List (Edit String Unit))

/-- The steps of the table a rename brings to the name. -/
def renamedSteps (k : String) : List (Edit String Unit) :=
  match sourceOf (tableRenameTargets before after.toAppliedSchema).entries k with
  | some p => renamedPair before after.toAppliedSchema g (p, k)
  | none => []

/-- The steps of the table that is in both schemas. -/
def commonSteps (k : String) : List (Edit String Unit) :=
  match after.models.get k with
  | some a => commonPair before g (k, a)
  | none => []

private theorem stepsOf_renamedPair (k : String) (e : String × String) :
    stepsOf k (renamedPair before after.toAppliedSchema
        (fun b a => (g b a).map (a.table, ·)) e) =
      if e.2 = k then renamedPair before after.toAppliedSchema g e else [] := by
  rw [renamedPair, renamedPair]
  cases before.models.get e.1 with
  | none => simp [stepsOf]
  | some b =>
      cases ha : after.models.get e.2 with
      | none => simp [stepsOf]
      | some a =>
          have hname := after.table_eq e.2 a ha
          by_cases hk : e.2 = k
          · subst hk
            simp only [hname, if_true]
            exact stepsOf_map_same _ _
          · simp only [hname, if_neg hk]
            exact stepsOf_map_other _ _ _ hk

private theorem stepsOf_commonPair (k : String) (e : String × TableSchema)
    (he : e ∈ after.models.entries) :
    stepsOf k (commonPair before (fun b a => (g b a).map (a.table, ·)) e) =
      if e.1 = k then commonPair before g e else [] := by
  have hname := after.modelKey e he
  rw [commonPair, commonPair]
  cases before.models.get e.1 with
  | none => simp [stepsOf]
  | some b =>
      simp only [hname]
      by_cases hp : b.persistent = e.2.persistent
      · simp [hp, stepsOf]
      · rw [if_neg hp, if_neg hp]
        by_cases hk : e.1 = k
        · subst hk
          rw [if_pos rfl]
          exact stepsOf_map_same _ _
        · rw [if_neg hk]
          exact stepsOf_map_other _ _ _ hk

theorem stepsOf_pairWalk (k : String) :
    stepsOf k (pairWalk before after.toAppliedSchema fun b a => (g b a).map (a.table, ·)) =
      renamedSteps before after g k ++ commonSteps before after g k := by
  rw [pairWalk, stepsOf_append, stepsOf_flatMap, stepsOf_flatMap]
  congr 1
  · rw [funext (stepsOf_renamedPair before after g k), renamedSteps]
    have hdst := tableRenameTargets_values_nodup before after
    cases hs : sourceOf (tableRenameTargets before after.toAppliedSchema).entries k with
    | none =>
        have hk := (sourceOf_eq_none_iff _ k).mp hs
        rw [List.flatMap_eq_nil_iff]
        intro e he
        exact if_neg fun h : e.2 = k => hk (h ▸ List.mem_map.mpr ⟨e, he, rfl⟩)
    | some p =>
        have hmem := (sourceOf_eq_some_iff _ hdst k p).mp hs
        rw [flatMap_eq_of_unique _ (p, k) _ (entries_nodup _) hmem]
        · exact if_pos rfl
        · intro e he hne
          refine if_neg fun h => hne ?_
          have hsrc := (sourceOf_eq_some_iff _ hdst k e.1).mpr (h ▸ he)
          rw [hs, Option.some.injEq] at hsrc
          rw [hsrc, ← h]
  · have hwalk : (after.models.entries.flatMap fun e =>
        stepsOf k (commonPair before (fun b a => (g b a).map (a.table, ·)) e)) =
        after.models.entries.flatMap fun e => if e.1 = k then commonPair before g e else [] :=
      List.flatMap_congr fun e he => stepsOf_commonPair before after g k e he
    rw [hwalk, commonSteps]
    cases ha : after.models.get k with
    | none =>
        have hk := (get_eq_none_iff _ k).mp ha
        rw [List.flatMap_eq_nil_iff]
        intro e he
        exact if_neg fun h : e.1 = k => hk (h ▸ List.mem_map.mpr ⟨e, he, rfl⟩)
    | some a =>
        rw [flatMap_entries_eq _ k a _ ha fun e _ hne => if_neg hne]
        exact if_pos rfl

end Steps

/-! ## Usable rename hints -/

/-- The rename hints between two tables are usable: the new name of every column is free,
or freed by a rename of an earlier old name, and an old name that stays a column is taken
over by another rename. -/
def ColumnsOk (b a : TableSchema) : Prop :=
  Freed (columnRenameTargets b a).entries (columnNames b) ∧
    ∀ c ∈ (columnRenameTargets b a).keys, c ∈ (columnMap a).keys →
      c ∈ (columnRenameTargets b a).values

/-- A table renamed onto the name of `b'`: the differences from `b'` are applied as well,
which is only harmless when they restore the columns the renames of `b` lost. -/
def RestoresOnly (b b' a : TableSchema) : Prop :=
  Freed (columnRenameTargets b a).entries (columnNames b) ∧
    (columnRenameTargets b' a).keys = [] ∧
    ∀ c, c ∈ (columnMap b').keys ↔ c ∈ (columnMap a).keys ∧
      (c ∈ (columnRenameTargets b a).keys → c ∈ (columnRenameTargets b a).values)

def TableOk (before after : AppliedSchema) (k : String) (a : TableSchema) : Prop :=
  match sourceOf (tableRenameTargets before after).entries k with
  | some p => ∀ b, before.models.get p = some b →
      match before.models.get k with
      | none => ColumnsOk b a
      | some b' => if b'.persistent = a.persistent then ColumnsOk b a else RestoresOnly b b' a
  | none => k ∉ (tableRenameTargets before after).keys ∧
      ∀ b, before.models.get k = some b → b.persistent = a.persistent ∨ ColumnsOk b a

structure Replayable (before after : AppliedSchema) : Prop where
  freed : Freed (tableRenameTargets before after).entries before.models
  tables : ∀ k a, after.models.get k = some a → TableOk before after k a

theorem edits_pair_iff (b a : TableSchema) (ha : (a.columns.map ColumnSchema.name).Nodup) :
    (columnNames b).edits (makeColumns b a ++ dropColumns b a) = some (columnNames a) ↔
      ColumnsOk b a := by
  have h := (columnEvolution b a ha).evolve_iff
  rw [← makeColumns_eq b a ha] at h
  rw [ColumnsOk, ← keys_columnNames a]
  exact h

theorem edits_pair_twice_iff (b b' a : TableSchema)
    (ha : (a.columns.map ColumnSchema.name).Nodup) :
    (columnNames b).edits (makeColumns b a ++ makeColumns b' a ++
      (dropColumns b a ++ dropColumns b' a)) = some (columnNames a) ↔ RestoresOnly b b' a := by
  have h := (columnEvolution b a ha).evolve_twice_iff (columnEvolution b' a ha) rfl
  rw [← makeColumns_eq b a ha, ← makeColumns_eq b' a ha] at h
  rw [RestoresOnly, ← keys_columnNames a, ← keys_columnNames b']
  exact h

theorem columnNames_of_persistent (b a : TableSchema) (h : b.persistent = a.persistent) :
    columnNames b = columnNames a := by
  have hnames (t : TableSchema) : t.persistent.columns.map ColumnSchema.name =
      t.columns.map ColumnSchema.name := by
    rw [TableSchema.persistent, List.map_map]
    rfl
  rw [columnNames_eq, columnNames_eq, ← hnames, h, hnames]

theorem shape_get (s : AppliedSchema) (k : String) :
    s.shape.get k = (s.models.get k).map columnNames := get_map _ _ _

theorem lookupIn_newTables (before : AppliedSchema) (after : NamedSchema) (k : String) :
    lookupIn k (newTables (addedTables before after.toAppliedSchema)) =
      if k ∈ before.models.keys ∨ k ∈ (tableRenameTargets before after.toAppliedSchema).values
        then none else after.shape.get k := by
  have hn : ((newTables (addedTables before after.toAppliedSchema)).map Prod.fst).Nodup :=
    (newTables_keys _).symm ▸ addedTables_nodup before after
  apply Option.ext
  intro v
  rw [lookupIn_eq_some_iff _ hn, newTables, List.mem_map]
  constructor
  · rintro ⟨t, ht, heq⟩
    obtain ⟨ht, hnew⟩ := List.mem_filter.mp ht
    obtain ⟨j, hj⟩ := (mem_values_iff _ t).mp ht
    have hname := after.table_eq j t hj
    cases heq
    rw [if_neg (by simpa using hnew), shape_get, hname, hj]
    rfl
  · intro h
    split_ifs at h with hold
    rw [shape_get] at h
    obtain ⟨t, ht, rfl⟩ := Option.map_eq_some_iff.mp h
    have hname := after.table_eq k t ht
    refine ⟨t, List.mem_filter.mpr ⟨(mem_values_iff _ t).mpr ⟨k, ht⟩, ?_⟩, by rw [hname]⟩
    simpa [hname] using hold

/-- A table name at the moment its columns are edited. -/
def startAt (before after : AppliedSchema) (k : String) : Option Names :=
  (lookupIn k (newTables (addedTables before after))).or
    (match sourceOf (tableRenameTargets before after).entries k with
    | some p => before.shape.get p
    | none => if k ∈ (tableRenameTargets before after).keys then none else before.shape.get k)

def stepsAt (before : AppliedSchema) (after : NamedSchema) (k : String) :
    List (Edit String Unit) :=
  renamedSteps before after makeColumns k ++ commonSteps before after makeColumns k ++
    (renamedSteps before after dropColumns k ++ commonSteps before after dropColumns k)

/-- The names of a table at the moment dropped tables go. -/
def goalAt (before after : AppliedSchema) (k : String) : Option Names :=
  if k ∈ droppedTables before after then before.shape.get k else after.shape.get k

theorem mem_droppedTables (before after : AppliedSchema) (k : String) :
    k ∈ droppedTables before after ↔ k ∈ before.models.keys ∧ k ∉ after.models.keys ∧
      k ∉ (tableRenameTargets before after).keys := by
  simp [droppedTables]

section OneTable

variable (before : AppliedSchema) (after : NamedSchema) (k : String)

private theorem mem_after_of_value
    (hk : k ∈ (tableRenameTargets before after.toAppliedSchema).values) :
    k ∈ after.models.keys := by
  obtain ⟨p, hp⟩ := (mem_values_iff _ k).mp hk
  obtain ⟨-, t, ht, -⟩ := tableRenameTargets_get before after p k hp
  exact (mem_keys_iff _ k).mpr ⟨t, ht⟩

private theorem mem_before_of_key
    (hk : k ∈ (tableRenameTargets before after.toAppliedSchema).keys) :
    k ∈ before.models.keys := by
  obtain ⟨n, hn⟩ := (mem_keys_iff _ k).mp hk
  exact (tableRenameTargets_get before after k n hn).1

private theorem goalAt_new (a : TableSchema) (ha : after.models.get k = some a) :
    goalAt before after.toAppliedSchema k = some (columnNames a) := by
  have hnew : k ∈ after.models.keys := (mem_keys_iff _ k).mpr ⟨a, ha⟩
  rw [goalAt, if_neg fun h => ((mem_droppedTables _ _ k).mp h).2.1 hnew, shape_get, ha]
  rfl

private theorem startAt_renamed (p : String) (b : TableSchema)
    (hs : sourceOf (tableRenameTargets before after.toAppliedSchema).entries k = some p)
    (hb : before.models.get p = some b) :
    startAt before after.toAppliedSchema k = some (columnNames b) := by
  have hmem := (sourceOf_eq_some_iff _ (tableRenameTargets_values_nodup before after) k p).mp hs
  have hval : k ∈ (tableRenameTargets before after.toAppliedSchema).values :=
    List.mem_map.mpr ⟨(p, k), hmem, rfl⟩
  rw [startAt, lookupIn_newTables, if_pos (.inr hval), hs]
  simp [shape_get, hb]

private theorem startAt_common (b : TableSchema)
    (hs : sourceOf (tableRenameTargets before after.toAppliedSchema).entries k = none)
    (hb : before.models.get k = some b) :
    startAt before after.toAppliedSchema k =
      if k ∈ (tableRenameTargets before after.toAppliedSchema).keys then none
      else some (columnNames b) := by
  rw [startAt, lookupIn_newTables, if_pos (.inl ((mem_keys_iff _ k).mpr ⟨b, hb⟩)), hs]
  simp [shape_get, hb]

private theorem startAt_added
    (hs : sourceOf (tableRenameTargets before after.toAppliedSchema).entries k = none)
    (hb : before.models.get k = none) :
    startAt before after.toAppliedSchema k = after.shape.get k := by
  have hold : k ∉ before.models.keys := (get_eq_none_iff _ k).mp hb
  have hval : k ∉ (tableRenameTargets before after.toAppliedSchema).values :=
    (sourceOf_eq_none_iff _ k).mp hs
  have hkey : k ∉ (tableRenameTargets before after.toAppliedSchema).keys :=
    fun h => hold (mem_before_of_key before after k h)
  rw [startAt, lookupIn_newTables, if_neg (not_or.mpr ⟨hold, hval⟩), hs]
  simp [shape_get, hb, hkey]

private theorem runOption_some_iff (v w : Names) (l : List (Edit String Unit)) :
    runOption edit (some v) l = some (some w) ↔ v.edits l = some w := by
  rw [runOption, Option.map_eq_some_iff]
  simp [edits]

private theorem runOption_none_ne (l : List (Edit String Unit)) (w : Names) :
    runOption edit none l ≠ some (some w) := by
  cases l <;> simp [runOption]

private theorem runOption_nil (v : Option Names) : runOption edit v [] = some v := by
  cases v <;> rfl

/-- A table that is gone. -/
private theorem runOption_old (ha : after.models.get k = none) :
    runOption edit (startAt before after.toAppliedSchema k) (stepsAt before after k) =
      some (goalAt before after.toAppliedSchema k) := by
  have hnew : k ∉ after.models.keys := (get_eq_none_iff _ k).mp ha
  have hs : sourceOf (tableRenameTargets before after.toAppliedSchema).entries k = none :=
    (sourceOf_eq_none_iff _ k).mpr fun h => hnew (mem_after_of_value before after k h)
  have hsteps : stepsAt before after k = [] := by
    simp [stepsAt, renamedSteps, commonSteps, hs, ha]
  have hshape : after.shape.get k = none := by rw [shape_get, ha, Option.map_none]
  rw [hsteps, runOption_nil, Option.some.injEq]
  cases hb : before.models.get k with
  | none =>
      have hbshape : before.shape.get k = none := by rw [shape_get, hb, Option.map_none]
      rw [startAt_added before after k hs hb, goalAt, hshape, hbshape, ite_self]
  | some b =>
      have hold : k ∈ before.models.keys := (mem_keys_iff _ k).mpr ⟨b, hb⟩
      rw [startAt_common before after k b hs hb]
      by_cases hk : k ∈ (tableRenameTargets before after.toAppliedSchema).keys
      · rw [if_pos hk, goalAt, if_neg fun h => ((mem_droppedTables _ _ k).mp h).2.2 hk, hshape]
      · rw [if_neg hk, goalAt, if_pos ((mem_droppedTables _ _ k).mpr ⟨hold, hnew, hk⟩),
          shape_get, hb, Option.map_some]

/-- A table under a name it was renamed to. -/
private theorem runOption_renamed (a : TableSchema) (ha : after.models.get k = some a)
    (p : String)
    (hs : sourceOf (tableRenameTargets before after.toAppliedSchema).entries k = some p) :
    runOption edit (startAt before after.toAppliedSchema k) (stepsAt before after k) =
        some (goalAt before after.toAppliedSchema k) ↔
      TableOk before after.toAppliedSchema k a := by
  have hcols := after.columns_nodup k a ha
  have hmem := (sourceOf_eq_some_iff _ (tableRenameTargets_values_nodup before after) k p).mp hs
  obtain ⟨b, hb⟩ := (mem_keys_iff _ p).mp
    (mem_before_of_key before after p (List.mem_map.mpr ⟨(p, k), hmem, rfl⟩))
  rw [goalAt_new before after k a ha, startAt_renamed before after k p b hs hb,
    runOption_some_iff]
  simp only [TableOk, hs, hb, Option.some.injEq, forall_eq', stepsAt, renamedSteps, commonSteps,
    renamedPair, commonPair, ha]
  cases before.models.get k with
  | none =>
      simp only [List.append_nil]
      exact edits_pair_iff b a hcols
  | some b' =>
      simp only
      by_cases hp : b'.persistent = a.persistent
      · simp only [hp, if_true, List.append_nil]
        exact edits_pair_iff b a hcols
      · simp only [hp, if_false]
        exact edits_pair_twice_iff b b' a hcols

/-- A table whose name is no destination. -/
private theorem runOption_kept (a : TableSchema) (ha : after.models.get k = some a)
    (hs : sourceOf (tableRenameTargets before after.toAppliedSchema).entries k = none) :
    runOption edit (startAt before after.toAppliedSchema k) (stepsAt before after k) =
        some (goalAt before after.toAppliedSchema k) ↔
      TableOk before after.toAppliedSchema k a := by
  have hcols := after.columns_nodup k a ha
  rw [goalAt_new before after k a ha]
  simp only [TableOk, hs, stepsAt, renamedSteps, commonSteps, commonPair, ha, List.nil_append]
  cases hb : before.models.get k with
  | none =>
      have hkey : k ∉ (tableRenameTargets before after.toAppliedSchema).keys := fun h =>
        (get_eq_none_iff _ k).mp hb (mem_before_of_key before after k h)
      rw [startAt_added before after k hs hb, shape_get, ha]
      simp [runOption, hkey]
  | some b =>
      rw [startAt_common before after k b hs hb]
      by_cases hk : k ∈ (tableRenameTargets before after.toAppliedSchema).keys
      · refine iff_of_false ?_ fun h => h.1 hk
        rw [if_pos hk]
        exact runOption_none_ne _ _
      · rw [if_neg hk, runOption_some_iff]
        by_cases hp : b.persistent = a.persistent
        · simp [hp, hk, columnNames_of_persistent b a hp]
        · simp only [hp, if_false, hk, not_false_eq_true, true_and, Option.some.injEq, forall_eq',
            false_or]
          exact edits_pair_iff b a hcols

/-- **One table.** -/
theorem runOption_iff :
    runOption edit (startAt before after.toAppliedSchema k) (stepsAt before after k) =
        some (goalAt before after.toAppliedSchema k) ↔
      ∀ a, after.models.get k = some a → TableOk before after.toAppliedSchema k a := by
  cases ha : after.models.get k with
  | none => exact iff_of_true (runOption_old before after k ha) (by simp)
  | some a =>
      simp only [Option.some.injEq, forall_eq']
      cases hs : sourceOf (tableRenameTargets before after.toAppliedSchema).entries k with
      | none => exact runOption_kept before after k a ha hs
      | some p => exact runOption_renamed before after k a ha p hs

end OneTable

/-! ## The whole replay -/

theorem shape_eq_of_persistent (before after : AppliedSchema)
    (h : before.persistent = after.persistent) : before.shape = after.shape := by
  have hshape (s : AppliedSchema) : s.persistent.shape = s.shape := by
    rw [eq_iff_get]
    intro k
    rw [shape_get, shape_get, AppliedSchema.persistent, get_map, Option.map_map]
    refine congrArg (Option.map · (s.models.get k)) (funext fun t => ?_)
    exact columnNames_of_persistent _ _ (by simp [TableSchema.persistent, ColumnSchema.persistent])
  rw [← hshape, h, hshape]

theorem diffSchemas_operations (before after : AppliedSchema) (bucket : BucketKey)
    (h : before.persistent ≠ after.persistent) :
    (diffSchemas before after bucket).operations = diffOperations before after := by
  rw [diffSchemas, if_neg h]

section Stages

variable (before : AppliedSchema) (after : NamedSchema)

/-- The names after the renames of tables. -/
def renamedAt (k : String) : Option Names :=
  match sourceOf (tableRenameTargets before after.toAppliedSchema).entries k with
  | some p => before.shape.get p
  | none =>
      if k ∈ (tableRenameTargets before after.toAppliedSchema).keys then none
      else before.shape.get k

private theorem shape_get_eq_none_iff (s : AppliedSchema) (k : String) :
    s.shape.get k = none ↔ s.models.get k = none := by
  rw [shape_get, Option.map_eq_none_iff]

theorem renameEdits_iff (m : OrdMap String Names) :
    before.shape.edits (renameEdits before after.toAppliedSchema) = some m ↔
      Freed (tableRenameTargets before after.toAppliedSchema).entries before.models ∧
        ∀ k, m.get k = renamedAt before after k := by
  have hpres : ∀ e ∈ (tableRenameTargets before after.toAppliedSchema).entries,
      before.shape.get e.1 ≠ none := by
    intro e he
    rw [Ne, shape_get_eq_none_iff, get_eq_none_iff, not_not]
    exact mem_before_of_key before after e.1 (List.mem_map.mpr ⟨e, he, rfl⟩)
  rw [renameEdits, edits_renames_iff _ _ _ (keys_sorted _)
    (tableRenameTargets_values_nodup before after) hpres]
  rw [freed_congr _ before.shape before.models fun e _ => shape_get_eq_none_iff before e.2]
  refine and_congr_right fun _ => forall_congr' fun k => ?_
  rw [renamedAt]
  cases sourceOf (tableRenameTargets before after.toAppliedSchema).entries k <;> rfl

theorem addEdits_iff (m m' : OrdMap String Names) (hm : ∀ k, m.get k = renamedAt before after k) :
    m.edits (addEdits (newTables (addedTables before after.toAppliedSchema))) = some m' ↔
      ∀ k, m'.get k = startAt before after.toAppliedSchema k := by
  rw [addEdits, edits_adds_iff, newTables_keys, and_iff_right (addedTables_nodup before after)]
  have hfree : ∀ k ∈ (addedTables before after.toAppliedSchema).map TableSchema.table,
      m.get k = none := by
    intro k hk
    obtain ⟨t, ht, rfl⟩ := List.mem_map.mp hk
    have hnew := (List.mem_filter.mp ht).2
    simp only [Bool.and_eq_true, Bool.not_eq_true', contains_eq_false_iff,
      List.contains_eq_mem, decide_eq_false_iff_not] at hnew
    have hs := (sourceOf_eq_none_iff _ t.table).mpr hnew.2
    have hb := (shape_get_eq_none_iff before t.table).mpr ((get_eq_none_iff _ _).mpr hnew.1)
    rw [hm, renamedAt, hs]
    simp [hb]
  rw [and_iff_right hfree]
  exact forall_congr' fun k => by rw [hm]; rfl

theorem columnSteps_iff (m m' : OrdMap String Names)
    (hm : ∀ k, m.get k = startAt before after.toAppliedSchema k) :
    m.runAt edit (pairWalk before after.toAppliedSchema makeSteps ++
        pairWalk before after.toAppliedSchema dropSteps) = some m' ↔
      ∀ k, runOption edit (startAt before after.toAppliedSchema k) (stepsAt before after k) =
        some (m'.get k) := by
  rw [runAt_eq_some_iff]
  refine forall_congr' fun k => ?_
  have hmake := stepsOf_pairWalk before after makeColumns k
  have hdrop := stepsOf_pairWalk before after dropColumns k
  rw [hm, stepsOf_append, stepsAt, ← hmake, ← hdrop]
  rfl

theorem dropEdits_iff (m m' : OrdMap String Names) :
    m.edits (dropEdits before after.toAppliedSchema) = some m' ↔
      (∀ k ∈ droppedTables before after.toAppliedSchema, m.get k ≠ none) ∧
        ∀ k, m'.get k =
          if k ∈ droppedTables before after.toAppliedSchema then none else m.get k := by
  have hn : (droppedTables before after.toAppliedSchema).Nodup := (keys_nodup _).filter _
  rw [dropEdits, edits_drops_iff, and_iff_right hn]

/-- A dropped table is left alone until it goes. -/
private theorem goalAt_dropped (k : String)
    (hk : k ∈ droppedTables before after.toAppliedSchema) :
    goalAt before after.toAppliedSchema k ≠ none ∧ after.shape.get k = none := by
  obtain ⟨hold, hnew, -⟩ := (mem_droppedTables _ _ k).mp hk
  rw [goalAt, if_pos hk, Ne, shape_get_eq_none_iff, shape_get_eq_none_iff, get_eq_none_iff,
    get_eq_none_iff, not_not]
  exact ⟨hold, hnew⟩

theorem replay_diffOperations_iff :
    replay (orderOperations (diffOperations before after.toAppliedSchema)) before.shape =
        some after.shape ↔ Replayable before after.toAppliedSchema := by
  rw [replay_order_iff]
  constructor
  · rintro ⟨m₁, m₂, m₃, h₁, h₂, h₃, h₄⟩
    obtain ⟨hfreed, hm₁⟩ := (renameEdits_iff before after m₁).mp h₁
    have hm₂ := (addEdits_iff before after m₁ m₂ hm₁).mp h₂
    have hm₃ := (columnSteps_iff before after m₂ m₃ hm₂).mp h₃
    obtain ⟨-, hafter⟩ := (dropEdits_iff before after m₃ after.shape).mp h₄
    refine ⟨hfreed, fun k a ha => (runOption_iff before after k).mp ?_ a ha⟩
    have hk : k ∉ droppedTables before after.toAppliedSchema := fun h => by
      have := (goalAt_dropped before after k h).2
      rw [shape_get, ha] at this
      cases this
    rw [hm₃ k, goalAt, if_neg hk, hafter k, if_neg hk]
  · rintro ⟨hfreed, htables⟩
    have hsupport (f : String → Option Names)
        (hf : ∀ k, before.models.get k = none → after.models.get k = none → f k = none) :
        ∃ m : OrdMap String Names, ∀ k, m.get k = f k := by
      refine exists_get f (before.models.keys ++ after.models.keys) fun k hk => ?_
      rw [List.mem_append, not_or] at hk
      exact hf k ((get_eq_none_iff _ k).mpr hk.1) ((get_eq_none_iff _ k).mpr hk.2)
    have hsource (k : String) (ha : after.models.get k = none) :
        sourceOf (tableRenameTargets before after.toAppliedSchema).entries k = none :=
      (sourceOf_eq_none_iff _ k).mpr fun h =>
        (get_eq_none_iff _ k).mp ha (mem_after_of_value before after k h)
    obtain ⟨m₁, hm₁⟩ := hsupport (renamedAt before after) fun k hb ha => by
      rw [renamedAt, hsource k ha]
      simp [(shape_get_eq_none_iff before k).mpr hb]
    obtain ⟨m₂, hm₂⟩ := hsupport (startAt before after.toAppliedSchema) fun k hb ha => by
      rw [startAt_added before after k (hsource k ha) hb, shape_get_eq_none_iff, ha]
    obtain ⟨m₃, hm₃⟩ := hsupport (goalAt before after.toAppliedSchema) fun k hb ha => by
      rw [goalAt, (shape_get_eq_none_iff _ k).mpr hb, (shape_get_eq_none_iff _ k).mpr ha, ite_self]
    refine ⟨m₁, m₂, m₃, (renameEdits_iff before after m₁).mpr ⟨hfreed, hm₁⟩,
      (addEdits_iff before after m₁ m₂ hm₁).mpr hm₂,
      (columnSteps_iff before after m₂ m₃ hm₂).mpr fun k => ?_,
      (dropEdits_iff before after m₃ after.shape).mpr ⟨fun k hk => ?_, fun k => ?_⟩⟩
    · rw [hm₃]
      exact (runOption_iff before after k).mpr (htables k)
    · rw [hm₃]
      exact (goalAt_dropped before after k hk).1
    · rw [hm₃]
      by_cases hk : k ∈ droppedTables before after.toAppliedSchema
      · rw [if_pos hk, (goalAt_dropped before after k hk).2]
      · rw [if_neg hk, goalAt, if_neg hk]

end Stages

/-- **Replay.** The planned table and column operations of a delta lead from the names of
the old schema to those of the new one exactly when nothing changed or the rename hints are
usable. -/
theorem replay_diffSchemas_iff (before after : NamedSchema) (bucket : BucketKey) :
    replay (orderOperations
        (diffSchemas before.toAppliedSchema after.toAppliedSchema bucket).operations)
        before.shape = some after.shape ↔
      before.persistent = after.persistent ∨
        Replayable before.toAppliedSchema after.toAppliedSchema := by
  by_cases hp : before.persistent = after.persistent
  · refine iff_of_true ?_ (.inl hp)
    rw [diffSchemas, if_pos hp, ← shape_eq_of_persistent _ _ hp]
    rfl
  · rw [diffSchemas_operations _ _ _ hp, or_iff_right hp]
    exact replay_diffOperations_iff before.toAppliedSchema after

/-! ### A takeover -/

def members : TableSchema := .bare "members" [.bare "id" "BIGINT"]

def users : TableSchema := .bare "users" [.bare "id" "BIGINT"]

/-- Two tables, and the same with a leftover rename hint. -/
def twoTables (hint : Option String) : NamedSchema :=
  .ofTables [{ members with renamedFrom := hint }, users]
    (by simp [members, users, TableSchema.bare])

/-- The hint makes the differ rename onto a table that is there. -/
theorem replay_takeover :
    replay (orderOperations (diffSchemas (twoTables none).toAppliedSchema
      (twoTables (some "users")).toAppliedSchema mainBucket).operations)
      (twoTables none).shape = none := by
  decide +kernel

end Djogi

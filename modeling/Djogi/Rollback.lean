import Djogi.Lowering

/-!
# Rollback

The down statements of an operation after its up statements.

* `renameTable_undo`, `renameColumn_undo`: a rename is undone by the reverse rename;
* `createTable_undo`: a new table, with everything said about it, is undone by its drop;
* `rollback_iff`: an operation lowered without a warning is undone exactly when the
  catalog held what the operation takes for granted (`PriorKnown`);
* `rollback_forgets_default`: a changed default is lost without a warning.
-/

namespace Djogi

open OrdMap

/-! ## Databases -/

/-- A catalog whose constraints and indexes refer to tables and columns that are there. -/
structure Database extends Catalog where
  constraintColumns : ∀ t s, tables.get t = some s → ∀ n d, s.constraints.get n = some d →
    ∀ col ∈ d.columns, col ∈ s.columns.keys
  targets : ∀ t s, tables.get t = some s → ∀ n d, s.constraints.get n = some d →
    toCatalog.targetPresent d = true
  indexColumns : ∀ n d, indexes.get n = some d →
    ∃ s, tables.get d.table = some s ∧ ∀ col ∈ d.columns, col ∈ s.columns.keys

namespace Catalog

def columnAt (c : Catalog) (table column : String) : Option CatColumn :=
  (c.tables.get table).bind fun s => s.columns.get column

def constraintAt (c : Catalog) (table name : String) : Option ConstraintDef :=
  (c.tables.get table).bind fun s => s.constraints.get name

/-! ## Acting on one table -/

@[simp] theorem setTable_setTable (c : Catalog) (t : String) (s s' : CatTable) :
    (c.setTable t s).setTable t s' = c.setTable t s' := by
  simp [setTable, insert_insert_self]

@[simp] theorem tables_setTable (c : Catalog) (t : String) (s : CatTable) :
    (c.setTable t s).tables = c.tables.insert t s := rfl

@[simp] theorem indexes_setTable (c : Catalog) (t : String) (s : CatTable) :
    (c.setTable t s).indexes = c.indexes := rfl

theorem setTable_eq_self_iff (c : Catalog) (t : String) (s : CatTable) :
    c.setTable t s = c ↔ c.tables.get t = some s := by
  rw [← insert_eq_self_iff]
  constructor
  · intro h
    exact congrArg Catalog.tables h
  · intro h
    rw [setTable, h]

theorem onTable_eq_some_iff (c c' : Catalog) (t : String) (f : CatTable → Option CatTable) :
    c.onTable t f = some c' ↔
      ∃ s s', c.tables.get t = some s ∧ f s = some s' ∧ c' = c.setTable t s' := by
  simp only [onTable, Option.bind_eq_some_iff, Option.map_eq_some_iff]
  constructor
  · rintro ⟨s, hs, s', hs', rfl⟩
    exact ⟨s, s', hs, hs', rfl⟩
  · rintro ⟨s, s', hs, hs', rfl⟩
    exact ⟨s, hs, s', hs', rfl⟩

/-- **Undo on one table.** -/
theorem onTable_undo_iff (c : Catalog) (t : String) (s s' : CatTable)
    (g : CatTable → Option CatTable) (hs : c.tables.get t = some s) :
    (c.setTable t s').onTable t g = some c ↔ g s' = some s := by
  have hget : (c.setTable t s').tables.get t = some s' := by simp
  simp only [onTable, hget, Option.bind_some, Option.map_eq_some_iff, setTable_setTable,
    setTable_eq_self_iff, hs, Option.some.injEq]
  constructor
  · rintro ⟨s'', h, rfl⟩
    exact h
  · intro h
    exact ⟨s, h, rfl⟩

theorem onColumn_eq_some_iff (c c' : Catalog) (t col : String) (f : CatColumn → Option CatColumn) :
    c.onColumn t col f = some c' ↔ ∃ s x x', c.tables.get t = some s ∧ s.columns.get col = some x ∧
      f x = some x' ∧ c' = c.setTable t { s with columns := s.columns.insert col x' } := by
  simp only [onColumn, onTable_eq_some_iff, Option.bind_eq_some_iff, Option.map_eq_some_iff]
  constructor
  · rintro ⟨s, _, hs, ⟨x, hx, x', hx', rfl⟩, rfl⟩
    exact ⟨s, x, x', hs, hx, hx', rfl⟩
  · rintro ⟨s, x, x', hs, hx, hx', rfl⟩
    exact ⟨s, _, hs, ⟨x, hx, x', hx', rfl⟩, rfl⟩

/-- **Undo on one column.** -/
theorem onColumn_undo_iff (c : Catalog) (t col : String) (s : CatTable) (x x' : CatColumn)
    (g : CatColumn → Option CatColumn) (hs : c.tables.get t = some s)
    (hx : s.columns.get col = some x) :
    (c.setTable t { s with columns := s.columns.insert col x' }).onColumn t col g = some c ↔
      g x' = some x := by
  rw [onColumn, onTable_undo_iff _ _ s _ _ hs]
  simp only [get_insert, if_true, Option.bind_some, Option.map_eq_some_iff, insert_insert_self]
  constructor
  · rintro ⟨y, hy, heq⟩
    have hcols : s.columns.insert col y = s.columns := congrArg CatTable.columns heq
    rw [insert_eq_self_iff, hx] at hcols
    rw [hy, hcols]
  · intro h
    exact ⟨x, h, by rw [(insert_eq_self_iff _ _ _).mpr hx]⟩

/-! ## Constraints and indexes -/

theorem addConstraint_undo (c c' : Catalog) (t n : String) (d : ConstraintDef)
    (h : c.addConstraint t n d = some c') : c'.dropConstraint t n false = some c := by
  obtain ⟨s, s', hs, hadd, rfl⟩ := (onTable_eq_some_iff _ _ _ _).mp h
  split_ifs at hadd with hok
  obtain rfl : _ = s' := Option.some.inj hadd
  simp only [Bool.and_eq_true, Bool.not_eq_true', contains_eq_false_iff] at hok
  have hfree : s.constraints.get n = none := (get_eq_none_iff _ n).mpr hok.1.1
  rw [dropConstraint, onTable_undo_iff _ _ s _ _ hs, if_pos (by simp [mem_keys_insert]),
    erase_insert_self _ _ _ hfree]

theorem hasColumn_setTable (c : Catalog) (t : String) (s s' : CatTable)
    (hs : c.tables.get t = some s) (hcols : s'.columns = s.columns) (k col : String) :
    (c.setTable t s').hasColumn k col = c.hasColumn k col := by
  rw [hasColumn, hasColumn, tables_setTable, get_insert]
  by_cases hk : k = t
  · rw [if_pos hk, hk, hs]
    simp only [hcols]
  · rw [if_neg hk]

theorem targetPresent_setTable (c : Catalog) (t : String) (s s' : CatTable)
    (hs : c.tables.get t = some s) (hcols : s'.columns = s.columns) (d : ConstraintDef) :
    (c.setTable t s').targetPresent d = c.targetPresent d := by
  rw [targetPresent, targetPresent]
  cases d.target with
  | none => rfl
  | some r => exact hasColumn_setTable c t s s' hs hcols r.1 r.2

end Catalog

@[simp] theorem ConstraintDef.target_stored (d : ConstraintDef) (cols : OrdMap String CatColumn) :
    (d.stored cols).target = d.target := by
  cases d <;> rfl

theorem ConstraintDef.required_stored (d : ConstraintDef) (cols : OrdMap String CatColumn) :
    ∀ col ∈ d.required, col ∈ (d.stored cols).columns := by
  cases d <;> simp [required, stored, columns]

theorem Catalog.targetPresent_stored (c : Catalog) (d : ConstraintDef)
    (cols : OrdMap String CatColumn) : c.targetPresent (d.stored cols) = c.targetPresent d := by
  rw [targetPresent, targetPresent, ConstraintDef.target_stored]

namespace Database

/-- **Undo of a dropped constraint.** -/
theorem dropConstraint_undo_iff (c : Database) (c' : Catalog) (t n : String) (d : ConstraintDef)
    (h : c.dropConstraint t n false = some c') :
    c'.addConstraint t n d = some c.toCatalog ↔
      ∀ s, c.tables.get t = some s → s.constraints.get n = some (d.stored s.columns) := by
  obtain ⟨s, s', hs, hdrop, rfl⟩ := (Catalog.onTable_eq_some_iff _ _ _ _).mp h
  have hn : s.constraints.contains n = true := by
    by_contra hn
    simp [hn] at hdrop
  rw [if_pos hn] at hdrop
  obtain rfl : _ = s' := Option.some.inj hdrop
  rw [Catalog.addConstraint, Catalog.onTable_undo_iff _ _ s _ _ hs, hs]
  simp only [Option.some.injEq, forall_eq']
  have hfree : ((s.constraints.erase n).contains n) = false := by simp [mem_keys_erase]
  simp only [hfree, Bool.not_false, Bool.true_and]
  constructor
  · intro hadd
    split_ifs at hadd
    have hcons := congrArg CatTable.constraints (Option.some.inj hadd)
    simp only [insert_erase_self] at hcons
    exact (insert_eq_self_iff _ _ _).mp hcons
  · intro hget
    have hreq : d.required.all s.columns.contains = true := by
      rw [List.all_eq_true]
      intro col hcol
      rw [contains_iff]
      exact c.constraintColumns t s hs n _ hget col (d.required_stored s.columns col hcol)
    have htarget := c.targets t s hs n _ hget
    rw [Catalog.targetPresent_stored] at htarget
    rw [Catalog.targetPresent_setTable c.toCatalog t s { s with constraints := s.constraints.erase n }
      hs rfl, htarget, hreq]
    simp only [Bool.and_true, if_true, Option.some.injEq]
    rw [insert_erase_of_get _ _ _ hget]

end Database

theorem Catalog.createIndex_undo (c c' : Catalog) (n : String) (d : IndexDef)
    (h : c.createIndex n d = some c') : c'.dropIndex n false = some c := by
  rw [createIndex] at h
  split_ifs at h with hok
  obtain rfl : _ = c' := Option.some.inj h
  simp only [Bool.and_eq_true, Bool.not_eq_true', contains_eq_false_iff] at hok
  rw [dropIndex, if_pos (by simp [mem_keys_insert]),
    erase_insert_self _ _ _ ((get_eq_none_iff _ n).mpr hok.1.1)]

/-- **Undo of a dropped index.** -/
theorem Database.dropIndex_undo_iff (c : Database) (c' : Catalog) (n : String) (d : IndexDef)
    (h : c.dropIndex n false = some c') :
    c'.createIndex n d = some c.toCatalog ↔ c.indexes.get n = some d := by
  rw [Catalog.dropIndex] at h
  have hn : c.indexes.contains n = true := by
    by_contra hn
    simp [hn] at h
  rw [if_pos hn] at h
  obtain rfl : _ = c' := Option.some.inj h
  rw [Catalog.createIndex]
  constructor
  · intro hcreate
    split_ifs at hcreate
    have hidx := congrArg Catalog.indexes (Option.some.inj hcreate)
    simp only [insert_erase_self] at hidx
    exact (insert_eq_self_iff _ _ _).mp hidx
  · intro hget
    obtain ⟨s, hs, hcols⟩ := c.indexColumns n d hget
    have htable : c.tables.contains d.table = true := by
      rw [contains_iff, mem_keys_iff]
      exact ⟨s, hs⟩
    have hall : d.columns.all (Catalog.hasColumn
        { c.toCatalog with indexes := c.indexes.erase n } d.table) = true := by
      rw [List.all_eq_true]
      intro col hcol
      simp only [Catalog.hasColumn, hs, contains_iff]
      exact hcols col hcol
    have hfree : ((c.indexes.erase n).contains n) = false := by simp [mem_keys_erase]
    simp only [hfree, htable, hall, Bool.not_false, Bool.and_self, if_true, Option.some.injEq]
    rw [insert_erase_of_get _ _ _ hget]

theorem Catalog.createType_undo (c c' : Catalog) (n : String) (vs : List String)
    (h : c.exec (.createType n vs) = some c') : c'.exec (.dropType n) = some c := by
  rw [exec] at h
  split_ifs at h with hok
  obtain rfl : _ = c' := Option.some.inj h
  rw [contains_iff] at hok
  rw [exec, if_pos (by simp [mem_keys_insert]),
    erase_insert_self _ _ _ ((get_eq_none_iff _ n).mpr hok)]

/-! ## Renames -/

theorem renamed_undo (a b name : String) (h : name ≠ b) :
    renamed b a (renamed a b name) = name := by
  rw [renamed, renamed]
  by_cases hn : name = a
  · simp [hn]
  · simp [hn, h]

theorem renamed_map_undo (a b : String) (l : List String) (h : b ∉ l) :
    (l.map (renamed a b)).map (renamed b a) = l := by
  rw [List.map_map]
  conv_rhs => rw [← List.map_id l]
  exact List.map_congr_left fun x hx => renamed_undo a b x fun hxb => h (hxb ▸ hx)

namespace ConstraintDef

theorem retargetTable_undo (a b : String) (d : ConstraintDef)
    (h : ∀ r, d.target = some r → r.1 ≠ b) : (d.retargetTable a b).retargetTable b a = d := by
  cases d with
  | foreignKey c t r od f =>
      have ht : t ≠ b := h (t, r) rfl
      rw [retargetTable, retargetTable, renamed_undo a b t ht]
  | _ => rfl

theorem renameColumn_undo (a b : String) (d : ConstraintDef) (h : b ∉ d.columns) :
    (d.renameColumn a b).renameColumn b a = d := by
  cases d with
  | check c e =>
      have hc : c ≠ b := fun hc => h (by simp [columns, hc])
      rw [renameColumn, renameColumn, renamed_undo a b c hc]
  | unique cs => rw [renameColumn, renameColumn, renamed_map_undo a b cs h]
  | primaryKey cs => rw [renameColumn, renameColumn, renamed_map_undo a b cs h]
  | foreignKey c t r od f =>
      have hc : c ≠ b := fun hc => h (by simp [columns, hc])
      rw [renameColumn, renameColumn, renamed_undo a b c hc]
  | exclude cs body => rw [renameColumn, renameColumn, renamed_map_undo a b cs h]

theorem retargetColumn_undo (t a b : String) (d : ConstraintDef) (h : d.target ≠ some (t, b)) :
    (d.retargetColumn t a b).retargetColumn t b a = d := by
  cases d with
  | foreignKey c t' r od f =>
      rw [retargetColumn, retargetColumn]
      by_cases ht : t' = t
      · have hr : r ≠ b := fun hr => h (by rw [target, ht, hr])
        rw [if_pos ht, if_pos ht, renamed_undo a b r hr]
      · rw [if_neg ht, if_neg ht]
  | _ => rfl

/-- Renaming a column of the own table and retargeting act on different places. -/
theorem retargetColumn_renameColumn (t a b x y : String) (d : ConstraintDef) :
    (d.renameColumn x y).retargetColumn t a b = (d.retargetColumn t a b).renameColumn x y := by
  cases d <;> rfl

theorem columns_retargetColumn (t a b : String) (d : ConstraintDef) :
    (d.retargetColumn t a b).columns = d.columns := by
  cases d <;> rfl

end ConstraintDef

theorem IndexDef.renameColumn_undo (a b : String) (d : IndexDef) (h : b ∉ d.columns) :
    (d.renameColumn a b).renameColumn b a = d := by
  have hkeys : b ∉ d.keyColumns := fun hb => h (List.mem_append_left _ hb)
  have hincl : b ∉ d.include_ := fun hb => h (List.mem_append_right _ hb)
  cases ht : d.target with
  | expression e =>
      simp only [renameColumn, ht, renamed_map_undo a b _ hincl]
      rw [← ht]
  | columns cols =>
      have hcols : (cols.map fun c => { c with name := renamed a b c.name }).map
          (fun c => { c with name := renamed b a c.name }) = cols := by
        rw [List.map_map]
        conv_rhs => rw [← List.map_id cols]
        refine List.map_congr_left fun x hx => ?_
        have hxb : x.name ≠ b := fun hxb => hkeys (by
          rw [keyColumns, ht]
          exact hxb ▸ List.mem_map.mpr ⟨x, hx, rfl⟩)
        simp only [Function.comp_def, renamed_undo a b x.name hxb, id_eq]
      simp only [renameColumn, ht, hcols, renamed_map_undo a b _ hincl]
      rw [← ht]

theorem CatTable.mapConstraints_eq_self (s : CatTable) (f : ConstraintDef → ConstraintDef)
    (h : ∀ n d, s.constraints.get n = some d → f d = d) : s.mapConstraints f = s := by
  rw [mapConstraints, map_eq_self s.constraints f h]

theorem CatTable.mapConstraints_mapConstraints (s : CatTable) (f g : ConstraintDef → ConstraintDef) :
    (s.mapConstraints f).mapConstraints g = s.mapConstraints fun d => g (f d) := by
  simp only [mapConstraints, OrdMap.map_map]

namespace Database

theorem target_table (c : Database) (t : String) (s : CatTable) (hs : c.tables.get t = some s)
    (n : String) (d : ConstraintDef) (hd : s.constraints.get n = some d) (r : String × String)
    (hr : d.target = some r) : c.hasColumn r.1 r.2 = true := by
  have h := c.targets t s hs n d hd
  rwa [Catalog.targetPresent, hr] at h

theorem hasColumn_of_mem (c : Database) (t : String) (s : CatTable) (col : String)
    (hs : c.tables.get t = some s) : c.hasColumn t col = s.columns.contains col := by
  rw [Catalog.hasColumn, hs]

/-- **Undo of a table rename.** -/
theorem renameTable_undo (c : Database) (c' : Catalog) (a b : String)
    (h : c.renameTable a b = some c') : c'.renameTable b a = some c.toCatalog := by
  rw [Catalog.renameTable] at h
  cases hs : c.tables.get a with
  | none => simp [hs] at h
  | some s =>
      simp only [hs] at h
      split_ifs at h with hb
      have hfree : c.tables.get b = none := by
        rwa [get_eq_none_iff, ← contains_iff]
      have hab : a ≠ b := by
        rintro rfl
        rw [hs] at hfree
        cases hfree
      obtain rfl : _ = c' := Option.some.inj h
      have hretarget (t : String) (s' : CatTable) (hs' : c.tables.get t = some s') :
          s'.mapConstraints (fun d => (d.retargetTable a b).retargetTable b a) = s' := by
        refine s'.mapConstraints_eq_self _ fun n d hd => d.retargetTable_undo a b fun r hr hrb => ?_
        have := c.target_table t s' hs' n d hd r hr
        rw [hrb, Catalog.hasColumn, hfree] at this
        cases this
      have hindexes : c.indexes.map (fun d =>
          { d with table := renamed b a (renamed a b d.table) }) = c.indexes := by
        refine map_eq_self _ _ fun n d hd => ?_
        obtain ⟨s', hs', -⟩ := c.indexColumns n d hd
        have hdb : d.table ≠ b := fun hdb => by
          rw [hdb, hfree] at hs'
          cases hs'
        rw [renamed_undo a b d.table hdb]
      have hnew : (((c.tables.erase a).insert b s).map
          (CatTable.mapConstraints (.retargetTable a b))).get b =
          some (s.mapConstraints (.retargetTable a b)) := by simp [get_map]
      have hold : (((c.tables.erase a).insert b s).map
          (CatTable.mapConstraints (.retargetTable a b))).contains a = false := by
        rw [contains_eq_false_iff, ← get_eq_none_iff]
        simp [get_map, hab]
      rw [Catalog.renameTable]
      simp only [hnew, hold, Bool.false_eq_true, if_false, map_map, Option.some.injEq, hindexes]
      have htables : (((((c.tables.erase a).insert b s).map
          (CatTable.mapConstraints (.retargetTable a b))).erase b).insert a
            (s.mapConstraints (.retargetTable a b))).map
          (CatTable.mapConstraints (.retargetTable b a)) = c.tables := by
        apply ext_get
        intro k
        rw [get_map, get_insert, get_erase, get_map, get_insert, get_erase]
        by_cases hka : k = a
        · subst hka
          rw [if_pos rfl, Option.map_some, CatTable.mapConstraints_mapConstraints, hs,
            hretarget k s hs]
        · by_cases hkb : k = b
          · subst hkb
            rw [if_neg hka, if_pos rfl, hfree, Option.map_none]
          · rw [if_neg hka, if_neg hkb, if_neg hkb, if_neg hka]
            cases hk : c.tables.get k with
            | none => rfl
            | some s' =>
                rw [Option.map_some, Option.map_some, CatTable.mapConstraints_mapConstraints,
                  hretarget k s' hk]
      rw [htables]

/-- **Undo of a column rename.** -/
theorem renameColumn_undo (c : Database) (c' : Catalog) (t a b : String)
    (h : c.renameColumn t a b = some c') : c'.renameColumn t b a = some c.toCatalog := by
  rw [Catalog.renameColumn, Option.bind_eq_some_iff] at h
  obtain ⟨s, hs, h⟩ := h
  split_ifs at h with hok
  obtain rfl : _ = c' := Option.some.inj h
  simp only [Bool.and_eq_true, Bool.not_eq_true', contains_eq_false_iff, contains_iff] at hok
  obtain ⟨ha, hb⟩ := hok
  obtain ⟨x, hx⟩ := (mem_keys_iff _ a).mp ha
  have hfree : s.columns.get b = none := (get_eq_none_iff _ b).mpr hb
  have hab : a ≠ b := fun hab => hb (hab ▸ ha)
  have hretarget (k : String) (s' : CatTable) (hs' : c.tables.get k = some s') (n : String)
      (d : ConstraintDef) (hd : s'.constraints.get n = some d) : d.target ≠ some (t, b) := by
    intro hr
    have := c.target_table k s' hs' n d hd (t, b) hr
    rw [c.hasColumn_of_mem t s b hs, contains_iff] at this
    exact hb this
  have hindexes : c.indexes.map (fun d =>
      if (if d.table = t then d.renameColumn a b else d).table = t then
        (if d.table = t then d.renameColumn a b else d).renameColumn b a
      else (if d.table = t then d.renameColumn a b else d)) = c.indexes := by
    refine map_eq_self _ _ fun n d hd => ?_
    by_cases ht : d.table = t
    · obtain ⟨s', hs', hcols⟩ := c.indexColumns n d hd
      obtain rfl : s = s' := Option.some.inj (hs.symm.trans (ht ▸ hs'))
      have htable : (d.renameColumn a b).table = t := ht
      rw [if_pos ht, if_pos htable, d.renameColumn_undo a b fun hbd => hb (hcols b hbd)]
    · rw [if_neg ht, if_neg ht]
  have hren : s.renameColumn a b = { s with
      columns := (s.columns.erase a).insert b x
      constraints := s.constraints.map (.renameColumn a b) } := by
    rw [CatTable.renameColumn, hx]
  have hback : ((s.renameColumn a b).mapConstraints (.retargetColumn t a b)).renameColumn b a =
      s.mapConstraints (.retargetColumn t a b) := by
    have hcols : (((s.columns.erase a).insert b x).erase b).insert a x = s.columns := by
      rw [erase_insert_self _ _ _ (by rw [get_erase, if_neg (Ne.symm hab), hfree]),
        insert_erase_of_get _ _ _ hx]
    have hcons : ((s.constraints.map (ConstraintDef.renameColumn a b)).map
        (ConstraintDef.retargetColumn t a b)).map (ConstraintDef.renameColumn b a) =
        s.constraints.map (ConstraintDef.retargetColumn t a b) := by
      rw [map_map, map_map]
      apply ext_get
      intro n
      rw [get_map, get_map]
      cases hd : s.constraints.get n with
      | none => rfl
      | some d =>
          have hbd : b ∉ (d.retargetColumn t a b).columns := by
            rw [d.columns_retargetColumn]
            exact fun hbd => hb (c.constraintColumns t s hs n d hd b hbd)
          rw [Option.map_some, Option.map_some, d.retargetColumn_renameColumn,
            (d.retargetColumn t a b).renameColumn_undo a b hbd]
    have hget : ((s.columns.erase a).insert b x).get b = some x := by simp
    rw [hren, CatTable.mapConstraints, CatTable.mapConstraints, CatTable.renameColumn]
    simp only [hget, hcols, hcons]
  have hnew : ((c.tables.insert t (s.renameColumn a b)).map
      (CatTable.mapConstraints (.retargetColumn t a b))).get t =
      some ((s.renameColumn a b).mapConstraints (.retargetColumn t a b)) := by simp [get_map]
  have hcolumns : ((s.renameColumn a b).mapConstraints (.retargetColumn t a b)).columns =
      (s.columns.erase a).insert b x := by rw [hren, CatTable.mapConstraints]
  have hhas : ((s.columns.erase a).insert b x).contains b = true := by
    simp [mem_keys_insert]
  have hgone : ((s.columns.erase a).insert b x).contains a = false := by
    rw [contains_eq_false_iff, mem_keys_insert, mem_keys_erase]
    simp [hab]
  rw [Catalog.renameColumn]
  simp only [hnew, Option.bind_some, hcolumns, hhas, hgone, Bool.not_false, Bool.and_self, if_true,
    hback, map_map, Option.some.injEq]
  have htables : (((c.tables.insert t (s.renameColumn a b)).map
      (CatTable.mapConstraints (.retargetColumn t a b))).insert t
        (s.mapConstraints (.retargetColumn t a b))).map
      (CatTable.mapConstraints (.retargetColumn t b a)) = c.tables := by
    apply ext_get
    intro k
    rw [get_map, get_insert, get_map, get_insert]
    by_cases hk : k = t
    · subst hk
      rw [if_pos rfl, Option.map_some, CatTable.mapConstraints_mapConstraints, hs,
        s.mapConstraints_eq_self _ fun n d hd => d.retargetColumn_undo k a b (hretarget k s hs n d hd)]
    · rw [if_neg hk, if_neg hk]
      cases hs' : c.tables.get k with
      | none => rfl
      | some s' =>
          rw [Option.map_some, Option.map_some, CatTable.mapConstraints_mapConstraints,
            s'.mapConstraints_eq_self _ fun n d hd =>
              d.retargetColumn_undo t a b (hretarget k s' hs' n d hd)]
  rw [htables]
  rw [hindexes]

end Database

/-! ## A new table -/

/-- The statement only writes to one table, and neither renames nor drops it. -/
def Stmt.writesOnly (t : String) : Stmt → Prop
  | .commentOnTable t' _ | .commentOnColumn t' _ _ | .setParams t' _ | .setTablespace t' _ => t' = t
  | _ => False

namespace Catalog

theorem exec_writesOnly (c c' : Catalog) (t : String) (s : CatTable) (st : Stmt)
    (hst : st.writesOnly t) (h : (c.setTable t s).exec st = some c') :
    ∃ s', c' = c.setTable t s' := by
  have honTable (f : CatTable → Option CatTable)
      (h : (c.setTable t s).onTable t f = some c') : ∃ s', c' = c.setTable t s' := by
    obtain ⟨_, s', -, -, rfl⟩ := (onTable_eq_some_iff _ _ _ _).mp h
    exact ⟨s', setTable_setTable c t s s'⟩
  cases st <;> simp only [Stmt.writesOnly] at hst <;> subst hst <;> exact honTable _ h

theorem execAll_writesOnly (c c' : Catalog) (t : String) (s : CatTable) (l : List Stmt)
    (hl : ∀ st ∈ l, st.writesOnly t) (h : (c.setTable t s).execAll l = some c') :
    ∃ s', c' = c.setTable t s' := by
  induction l generalizing s with
  | nil => exact ⟨s, (Option.some.inj h).symm⟩
  | cons st l ih =>
      rw [List.forall_mem_cons] at hl
      rw [execAll_cons, Option.bind_eq_some_iff] at h
      obtain ⟨c₁, h₁, h⟩ := h
      obtain ⟨s₁, rfl⟩ := exec_writesOnly c c₁ t s st hl.1 h₁
      exact ih s₁ hl.2 h

end Catalog

theorem tableMetadataStmts_writesOnly (t : TableSchema) (storage : List Stmt)
    (hs : storageStmts t.table t.storageParams = .ok storage) :
    ∀ st ∈ tableMetadataStmts t storage, st.writesOnly t.table := by
  intro st hst
  simp only [tableMetadataStmts, List.mem_append, Option.mem_toList, List.mem_flatMap,
    Option.map_eq_some_iff, commentStmts] at hst
  rcases hst with ((⟨text, -, rfl⟩ | ⟨c, -, text, -, rfl⟩) | hst) | ⟨ts, -, rfl⟩
  · rfl
  · rfl
  · cases hp : t.storageParams with
    | none =>
        rw [hp, storageStmts] at hs
        cases hs
        cases hst
    | some params =>
        rw [hp, storageStmts] at hs
        cases hparse : parseStorageParamsForSql params with
        | error e =>
            rw [hparse] at hs
            cases hs
        | ok ps =>
            rw [hparse] at hs
            cases hs
            rw [List.mem_singleton.mp hst]
            rfl
  · rfl

/-- **Undo of a new table.** -/
theorem Database.createTable_undo (c : Database) (c' : Catalog) (d : TableDef) (l : List Stmt)
    (hl : ∀ st ∈ l, st.writesOnly d.name)
    (h : c.execAll (.createTable d :: l) = some c') : c'.dropTable d.name = some c.toCatalog := by
  rw [Catalog.execAll_cons, Option.bind_eq_some_iff] at h
  obtain ⟨c₁, h₁, h⟩ := h
  have hcreate : c.tables.get d.name = none ∧ c₁ = c.setTable d.name d.state := by
    rw [Catalog.exec, Catalog.createTable] at h₁
    split_ifs at h₁ with hok
    simp only [Bool.and_eq_true, Bool.not_eq_true', contains_eq_false_iff] at hok
    exact ⟨(get_eq_none_iff _ _).mpr hok.1.1.1, (Option.some.inj h₁).symm⟩
  obtain ⟨hfree, rfl⟩ := hcreate
  obtain ⟨s', rfl⟩ := Catalog.execAll_writesOnly _ _ _ _ _ hl h
  have hindexes : c.indexes.filter (fun _ i => decide (i.table ≠ d.name)) = c.indexes := by
    refine filter_eq_self _ _ fun n i hi => ?_
    obtain ⟨s, hs, -⟩ := c.indexColumns n i hi
    rw [decide_eq_true_eq]
    intro hname
    rw [hname, hfree] at hs
    cases hs
  have hthere : (c.setTable d.name s').tables.contains d.name = true := by
    simp [mem_keys_insert]
  rw [Catalog.dropTable, if_pos hthere]
  simp only [Catalog.tables_setTable, Catalog.indexes_setTable, hindexes,
    erase_insert_self _ _ _ hfree, Option.some.injEq]
  rfl

/-! ## Storage parameters -/

def storageEntries : Option String → Except LowerFailure (List (String × String))
  | none => .ok []
  | some params => parseStorageParamsForSql params

def resetParams (er : List (String × String)) (m : OrdMap String String) : OrdMap String String :=
  m.filter fun k _ => !(er.map Prod.fst).contains k

def setParams (es : List (String × String)) (m : OrdMap String String) : OrdMap String String :=
  es.foldl (fun m p => m.insert p.1 p.2) m

def replaceParams (er es : List (String × String)) (s : CatTable) : CatTable :=
  { s with params := setParams es (resetParams er s.params) }

theorem resetParams_nil (m : OrdMap String String) : resetParams [] m = m :=
  filter_eq_self m _ fun _ _ _ => rfl

/-- What a change of storage parameters does to a table that is there. -/
theorem renderStorageChange_exec (c : Catalog) (t : String) (s : CatTable)
    (reset set : Option String) (l : List Line) (hs : c.tables.get t = some s)
    (h : renderStorageChange t reset set = .ok l) : ∃ er es, storageEntries reset = .ok er ∧
      storageEntries set = .ok es ∧
      c.execAll (l.map Line.stmt) = some (c.setTable t (replaceParams er es s)) := by
  have hself : c.setTable t s = c := (Catalog.setTable_eq_self_iff c t s).mpr hs
  have hreset (er : List (String × String)) : c.exec (.resetParams t (er.map Prod.fst)) =
      some (c.setTable t { s with params := resetParams er s.params }) := by
    rw [Catalog.exec, Catalog.onTable, hs]
    rfl
  have hset (c' : Catalog) (s' : CatTable) (es : List (String × String))
      (hs' : c'.tables.get t = some s') : c'.exec (.setParams t es) =
      some (c'.setTable t { s' with params := setParams es s'.params }) := by
    rw [Catalog.exec, Catalog.onTable, hs']
    rfl
  have hget (s' : CatTable) : (c.setTable t s').tables.get t = some s' := by simp
  cases reset with
  | none =>
      cases set with
      | none =>
          cases h
          refine ⟨[], [], rfl, rfl, ?_⟩
          simp [sqlScript, Catalog.exec, replaceParams, setParams, resetParams_nil, hself]
      | some ps =>
          cases hp : parseStorageParamsForSql ps with
          | error e => simp [renderStorageChange, storageStmts, hp, bind, Except.bind, Except.map] at h
          | ok es =>
              simp only [renderStorageChange, storageStmts, hp, bind, Except.bind, Except.map,
                List.nil_append, Except.ok.injEq] at h
              subst h
              refine ⟨[], es, rfl, hp, ?_⟩
              rw [sqlScript_stmts, Catalog.execAll_cons, hset c s es hs, replaceParams,
                resetParams_nil]
              rfl
  | some rs =>
      cases hr : parseStorageParamsForSql rs with
      | error e => simp [renderStorageChange, hr, bind, Except.bind, Except.map] at h
      | ok er =>
          cases set with
          | none =>
              simp only [renderStorageChange, storageStmts, hr, bind, Except.bind, Except.map,
                List.cons_append, List.nil_append, Except.ok.injEq] at h
              subst h
              refine ⟨er, [], hr, rfl, ?_⟩
              rw [sqlScript_stmts, Catalog.execAll_cons, hreset]
              rfl
          | some ps =>
              cases hp : parseStorageParamsForSql ps with
              | error e =>
                  simp [renderStorageChange, storageStmts, hr, hp, bind, Except.bind, Except.map] at h
              | ok es =>
                  simp only [renderStorageChange, storageStmts, hr, hp, bind, Except.bind,
                    Except.map, List.cons_append, List.nil_append, Except.ok.injEq] at h
                  subst h
                  refine ⟨er, es, hr, hp, ?_⟩
                  rw [sqlScript_stmts, Catalog.execAll_cons, hreset, Option.bind_some,
                    Catalog.execAll_cons, hset _ _ es (hget _), Catalog.setTable_setTable]
                  rfl

/-- Without the table only a change that says nothing runs. -/
theorem renderStorageChange_missing (c c' : Catalog) (t : String) (reset set : Option String)
    (l : List Line) (ht : c.tables.get t = none) (h : renderStorageChange t reset set = .ok l)
    (hrun : c.execAll (l.map Line.stmt) = some c') : reset = none ∧ set = none ∧ c' = c := by
  have hfail (f : CatTable → Option CatTable) : c.onTable t f = none := by
    rw [Catalog.onTable, ht, Option.bind_none]
  cases reset with
  | none =>
      cases set with
      | none =>
          cases h
          exact ⟨rfl, rfl, (Option.some.inj hrun).symm⟩
      | some ps =>
          cases hp : parseStorageParamsForSql ps with
          | error e => simp [renderStorageChange, storageStmts, hp, bind, Except.bind, Except.map] at h
          | ok es =>
              simp only [renderStorageChange, storageStmts, hp, bind, Except.bind, Except.map,
                List.nil_append, Except.ok.injEq] at h
              subst h
              simp [Catalog.exec, hfail] at hrun
  | some rs =>
      cases hr : parseStorageParamsForSql rs with
      | error e => simp [renderStorageChange, hr, bind, Except.bind, Except.map] at h
      | ok er =>
          cases hset : storageStmts t set with
          | error e => simp [renderStorageChange, hr, hset, bind, Except.bind, Except.map] at h
          | ok sets =>
              simp only [renderStorageChange, hr, hset, bind, Except.bind, Except.map,
                List.cons_append, List.nil_append, Except.ok.injEq] at h
              subst h
              simp [Catalog.exec, hfail] at hrun

theorem lastIn_eq_none_iff {ν : Type} (k : String) (l : List (String × ν)) :
    lastIn k l = none ↔ k ∉ l.map Prod.fst := by
  rw [← get_ofList, get_eq_none_iff, mem_keys_ofList]

/-- Replacing parameters there and back restores those no one names. -/
theorem replaceParams_undo_iff (s : CatTable) (er es : List (String × String)) :
    replaceParams es er (replaceParams er es s) = s ↔
      ∀ k ∈ (er ++ es).map Prod.fst, s.params.get k = (ofList er).get k := by
  have hget (k : String) : (replaceParams es er (replaceParams er es s)).params.get k =
      (lastIn k er).or (if k ∈ es.map Prod.fst then none
        else if k ∈ er.map Prod.fst then none else s.params.get k) := by
    simp only [replaceParams, setParams, resetParams, get_foldl_insert, get_filter]
    cases hl : lastIn k er with
    | some v => simp
    | none =>
        have hk := (lastIn_eq_none_iff k er).mp hl
        by_cases he : k ∈ es.map Prod.fst
        · simp [he]
        · have hl' := (lastIn_eq_none_iff k es).mpr he
          cases hs : s.params.get k <;> simp [he, hl', hk, Option.filter]
  have hparams : replaceParams es er (replaceParams er es s) = s ↔
      (replaceParams es er (replaceParams er es s)).params = s.params := by
    constructor
    · exact congrArg CatTable.params
    · intro h
      cases s
      simp only [replaceParams] at h ⊢
      rw [h]
  rw [hparams]
  constructor
  · intro h k hk
    have hk' := hget k
    rw [h] at hk'
    rw [hk', get_ofList]
    cases hl : lastIn k er with
    | some v => simp
    | none =>
        have hker := (lastIn_eq_none_iff k er).mp hl
        rw [List.map_append, List.mem_append, or_iff_right hker] at hk
        simp [hk]
  · intro h
    apply ext_get
    intro k
    rw [hget]
    have hk := h k
    rw [get_ofList, List.map_append, List.mem_append] at hk
    cases hl : lastIn k er with
    | some v =>
        have hker : k ∈ er.map Prod.fst := by
          by_contra hker
          rw [(lastIn_eq_none_iff k er).mpr hker] at hl
          cases hl
        rw [hk (.inl hker), hl]
        rfl
    | none =>
        have hker := (lastIn_eq_none_iff k er).mp hl
        by_cases he : k ∈ es.map Prod.fst
        · rw [hk (.inr he), hl]
          simp [he]
        · simp [he, hker]

/-! ## What an operation takes for granted -/

/-- The catalog holds what a column change says was there before. A changed default says
nothing, so there must be none; a constraint or an index that goes must be the one that is
put back. -/
def PriorChange (c : Catalog) (table column : String) : ColumnChange → Prop
  | .setNullable nullable => ∀ x, c.columnAt table column = some x → x.notNull = nullable
  | .setDefault _ => ∀ x, c.columnAt table column = some x → x.default = none
  | .changeType from_ _ _ => ∀ x, c.columnAt table column = some x → x.sqlType = from_
  | .setCheck (some prior) _ =>
      c.constraintAt table (checkConstraintName table column) = some (.check column prior)
  | .setUnique false =>
      c.constraintAt table (uniqueConstraintName table column) = some (.unique [column])
  | .setIndexed false =>
      c.indexes.get (indexName table column) = some (columnIndexDef table column)
  | .setGenerated (some prior) (some _) => ∀ x, c.columnAt table column = some x →
      x.generated.map GeneratedColumnSchema.expression = some prior.expression
  | .setIdentity (some prior) _ => ∀ x, c.columnAt table column = some x → x.identity = some prior
  | .setComment from_ _ => ∀ x, c.columnAt table column = some x → x.comment = from_
  | _ => True

def PriorKnown (c : Catalog) : SchemaOperation → Prop
  | .alterColumn table column change => PriorChange c table column change
  | .dropForeignKey table column fk =>
      c.constraintAt table (fkConstraintName table column) = some (fkDef column fk)
  | .dropExclusionConstraint table name x => ∀ s, c.tables.get table = some s →
      s.constraints.get name = some ((exclusionDef x).stored s.columns)
  | .setTableComment table from_ _ => ∀ s, c.tables.get table = some s → s.comment = from_
  | .setStorageParams table from_ to_ => ∀ s er es, c.tables.get table = some s →
      storageEntries from_ = .ok er → storageEntries to_ = .ok es →
      ∀ k ∈ (er ++ es).map Prod.fst, s.params.get k = (ofList er).get k
  | .setTablespace table from_ _ => ∀ s, c.tables.get table = some s →
      s.tablespace = from_.getD pgDefault
  | _ => True

/-! ### One statement there, one back -/

namespace Catalog

theorem alterColumn_undo (c c' : Catalog) (t col : String) (a b : ColumnAction)
    (h : c.exec (.alterColumn t col a) = some c') : ∃ x x', c.columnAt t col = some x ∧
      a.run x = some x' ∧ (c'.exec (.alterColumn t col b) = some c ↔ b.run x' = some x) := by
  obtain ⟨s, x, x', hs, hx, hx', rfl⟩ := (onColumn_eq_some_iff _ _ _ _ _).mp h
  have hat : c.columnAt t col = some x := by rw [columnAt, hs, Option.bind_some, hx]
  exact ⟨x, x', hat, hx', onColumn_undo_iff c t col s x x' _ hs hx⟩

theorem hasColumn_of_columnAt (c : Catalog) (t col : String) (x : CatColumn)
    (h : c.columnAt t col = some x) : c.hasColumn t col = true := by
  obtain ⟨s, hs, hx⟩ := Option.bind_eq_some_iff.mp h
  rw [hasColumn, hs]
  exact (contains_iff _ _).mpr ((mem_keys_iff _ _).mpr ⟨x, hx⟩)

theorem commentOnColumn_undo_iff (c c' : Catalog) (t col : String) (from_ to_ : Option String)
    (h : c.exec (.commentOnColumn t col to_) = some c') :
    c'.exec (.commentOnColumn t col from_) = some c ↔
      ∀ x, c.columnAt t col = some x → x.comment = from_ := by
  obtain ⟨s, x, x', hs, hx, hx', rfl⟩ := (onColumn_eq_some_iff _ _ _ _ _).mp h
  have hat : c.columnAt t col = some x := by rw [columnAt, hs, Option.bind_some, hx]
  rw [exec, onColumn_undo_iff c t col s x x' _ hs hx, hat]
  obtain rfl : _ = x' := Option.some.inj hx'
  cases x
  simp [eq_comm]

/-- Statements on one table that set one of its attributes. -/
theorem onTable_set_undo_iff (c c' : Catalog) (t : String) (f g : CatTable → CatTable)
    (h : c.onTable t (fun s => some (f s)) = some c') :
    c'.onTable t (fun s => some (g s)) = some c ↔
      ∀ s, c.tables.get t = some s → g (f s) = s := by
  obtain ⟨s, s', hs, hs', rfl⟩ := (onTable_eq_some_iff _ _ _ _).mp h
  obtain rfl : _ = s' := Option.some.inj hs'
  rw [onTable_undo_iff c t s _ _ hs, hs]
  simp

end Catalog

/-! ### The rollback of a column change -/

section ColumnChanges

variable (c : Database) (c' : Catalog) (t col : String)

private theorem execAll_singleton (c : Catalog) (st : Stmt) : c.execAll [st] = c.exec st := by
  rw [Catalog.execAll_cons]
  simp

/-- A constraint whose stored form is its own goes and comes back. -/
theorem Database.dropConstraint_undo_iff' (n : String) (d : ConstraintDef)
    (hd : ∀ cols, d.stored cols = d) (h : c.exec (.dropConstraint t n false) = some c') :
    c'.exec (.addConstraint t n d false) = some c.toCatalog ↔ c.constraintAt t n = some d := by
  obtain ⟨s, s', hs, -, -⟩ := (Catalog.onTable_eq_some_iff _ _ _ _).mp h
  have hiff := c.dropConstraint_undo_iff c' t n d h
  rw [Catalog.constraintAt, hs]
  simp only [hs, Option.some.injEq, forall_eq', hd] at hiff
  exact hiff

theorem setCheck_undo_iff (from_ to_ : Option String)
    (hup : c.execAll (lowerSetCheck t col from_ to_).1 = some c') :
    c'.execAll (lowerSetCheck t col from_ to_).2.1 = some c.toCatalog ↔
      PriorChange c.toCatalog t col (.setCheck from_ to_) := by
  cases from_ with
  | none =>
      cases to_ with
      | none =>
          obtain rfl : c.toCatalog = c' := Option.some.inj hup
          exact iff_of_true rfl trivial
      | some e =>
          rw [lowerSetCheck, execAll_singleton] at hup
          refine iff_of_true ?_ trivial
          rw [lowerSetCheck, execAll_singleton]
          exact Catalog.addConstraint_undo _ _ _ _ _ hup
  | some prior =>
      cases to_ with
      | none =>
          rw [lowerSetCheck, execAll_singleton] at hup
          rw [lowerSetCheck, execAll_singleton]
          exact c.dropConstraint_undo_iff' c' t _ _ (fun _ => rfl) hup
      | some e =>
          rw [lowerSetCheck, Catalog.execAll_cons, Option.bind_eq_some_iff] at hup
          obtain ⟨c₁, hdrop, hadd⟩ := hup
          rw [execAll_singleton] at hadd
          have hback := Catalog.addConstraint_undo _ _ _ _ _ hadd
          rw [lowerSetCheck, Catalog.execAll_cons, Catalog.exec, hback, Option.bind_some,
            execAll_singleton]
          exact c.dropConstraint_undo_iff' c₁ t _ _ (fun _ => rfl) hdrop

/-- A column action whose undo only depends on the column. -/
private theorem column_undo_iff (a b : ColumnAction) (P : CatColumn → Prop)
    (hP : ∀ x x', a.run x = some x' → (b.run x' = some x ↔ P x))
    (hup : c.toCatalog.exec (.alterColumn t col a) = some c') :
    c'.exec (.alterColumn t col b) = some c.toCatalog ↔
      ∀ x, c.columnAt t col = some x → P x := by
  obtain ⟨x, x', hat, hx', hiff⟩ := Catalog.alterColumn_undo _ _ _ _ a b hup
  rw [hiff, hP x x' hx', hat]
  simp only [Option.some.injEq, forall_eq']

private theorem sync_iff (c₁ c₂ : Catalog) : c₁.execAll [.syncSequence t col] = some c₂ ↔
    c₁.hasColumn t col = true ∧ c₁ = c₂ := by
  rw [execAll_singleton, Catalog.exec]
  by_cases h : c₁.hasColumn t col = true <;> simp [h]

theorem setIdentity_undo_iff (from_ to_ : Option IdentityKindSchema) (l : ColumnLowering)
    (hl : lowerSetIdentity t col from_ to_ = some l) (hup : c.execAll l.1 = some c') :
    c'.execAll l.2.1 = some c.toCatalog ↔
      PriorChange c.toCatalog t col (.setIdentity from_ to_) := by
  cases from_ with
  | none =>
      cases to_ with
      | none => cases hl
      | some kind =>
          cases hl
          rw [Catalog.execAll_cons, Option.bind_eq_some_iff] at hup
          obtain ⟨c₁, hadd, hs⟩ := hup
          obtain ⟨-, rfl⟩ := (sync_iff t col c₁ c').mp hs
          rw [execAll_singleton]
          refine (column_undo_iff c c₁ t col _ _ (fun _ => True) (fun x x' hx' => ?_) hadd).trans ?_
          · rw [ColumnAction.run] at hx'
            split_ifs at hx' with hid
            obtain rfl : _ = x' := Option.some.inj hx'
            cases x
            simp_all [ColumnAction.run]
          · simp [PriorChange]
  | some prior =>
      cases to_ with
      | none =>
          cases hl
          rw [execAll_singleton] at hup
          obtain ⟨x, -, hat, -, -⟩ := Catalog.alterColumn_undo _ _ _ _ _ .dropIdentity hup
          have hback : c'.execAll [.alterColumn t col (.addIdentity prior), .syncSequence t col] =
              some c.toCatalog ↔
              c'.exec (.alterColumn t col (.addIdentity prior)) = some c.toCatalog := by
            rw [Catalog.execAll_cons, Option.bind_eq_some_iff]
            constructor
            · rintro ⟨c₁, hadd, hs⟩
              rw [hadd, ((sync_iff t col c₁ c.toCatalog).mp hs).2]
            · intro hadd
              exact ⟨c.toCatalog, hadd,
                (sync_iff t col _ _).mpr ⟨c.hasColumn_of_columnAt t col x hat, rfl⟩⟩
          refine hback.trans (column_undo_iff c c' t col _ _ (fun x => x.identity = some prior)
            (fun x x' hx' => ?_) hup)
          obtain ⟨k, hk, rfl⟩ := Option.map_eq_some_iff.mp hx'
          cases x
          simp [ColumnAction.run, eq_comm (a := some prior)]
      | some next =>
          cases hl
          rw [execAll_singleton] at hup
          rw [execAll_singleton]
          refine column_undo_iff c c' t col _ _ (fun x => x.identity = some prior)
            (fun x x' hx' => ?_) hup
          obtain ⟨k, hk, rfl⟩ := Option.map_eq_some_iff.mp hx'
          cases x
          simp [ColumnAction.run, eq_comm (a := some prior)]

theorem setGenerated_undo_iff (from_ to_ : Option GeneratedColumnSchema) (l : ColumnLowering)
    (hl : lowerSetGenerated t col from_ to_ = some l) (hw : l.2.2.2 = none)
    (hup : c.execAll l.1 = some c') :
    c'.execAll l.2.1 = some c.toCatalog ↔
      PriorChange c.toCatalog t col (.setGenerated from_ to_) := by
  cases from_ with
  | none =>
      cases to_ with
      | none => cases hl
      | some spec =>
          cases hl
          obtain rfl : c.toCatalog = c' := Option.some.inj hup
          exact iff_of_true rfl trivial
  | some prior =>
      cases to_ with
      | none =>
          cases hl
          cases hw
      | some next =>
          cases hl
          rw [Catalog.execAll_cons, Option.bind_eq_some_iff] at hup
          obtain ⟨c₁, hremark, hset⟩ := hup
          obtain rfl : c.toCatalog = c₁ := Option.some.inj hremark
          rw [execAll_singleton] at hset
          rw [execAll_singleton]
          refine column_undo_iff c c' t col _ _
            (fun x => x.generated.map GeneratedColumnSchema.expression = some prior.expression)
            (fun x x' hx' => ?_) hset
          obtain ⟨g, hg, rfl⟩ := Option.map_eq_some_iff.mp hx'
          cases x
          cases g
          simp_all [ColumnAction.run, eq_comm (a := prior.expression)]

theorem columnChange_undo_iff (change : ColumnChange) (l : ColumnLowering)
    (hl : lowerColumnChange t col change = some l) (hw : l.2.2.2 = none)
    (hup : c.execAll l.1 = some c') :
    c'.execAll l.2.1 = some c.toCatalog ↔ PriorChange c.toCatalog t col change := by
  cases change with
  | setNullable nullable =>
      cases nullable with
      | true =>
          cases hl
          rw [execAll_singleton] at hup
          rw [execAll_singleton]
          refine column_undo_iff c c' t col _ _ (fun x => x.notNull = true) (fun x x' hx' => ?_) hup
          cases hx'
          cases x
          simp [ColumnAction.run, eq_comm (a := true)]
      | false =>
          cases hl
          rw [execAll_singleton] at hup
          rw [execAll_singleton]
          refine column_undo_iff c c' t col _ _ (fun x => x.notNull = false) (fun x x' hx' => ?_) hup
          cases hx'
          cases x
          simp [ColumnAction.run, eq_comm (a := false)]
  | setDefault d =>
      cases d with
      | some expr =>
          cases hl
          rw [execAll_singleton] at hup
          show c'.execAll [.alterColumn t col .dropDefault] = some c.toCatalog ↔ _
          rw [execAll_singleton]
          refine column_undo_iff c c' t col _ _ (fun x => x.default = none) (fun x x' hx' => ?_) hup
          cases hx'
          cases x
          simp [ColumnAction.run, eq_comm (a := (none : Option String))]
      | none =>
          -- The down script is a remark, so the default stays dropped.
          cases hl
          rw [execAll_singleton] at hup
          obtain ⟨s, x, x', hs, hx, hx', rfl⟩ := (Catalog.onColumn_eq_some_iff _ _ _ _ _).mp hup
          obtain rfl : _ = x' := Option.some.inj hx'
          have hat : c.columnAt t col = some x := by
            rw [Catalog.columnAt, hs, Option.bind_some, hx]
          rw [PriorChange, hat]
          simp only [Option.some.injEq, forall_eq']
          rw [execAll_singleton, Catalog.exec, Option.some.injEq, Catalog.setTable_eq_self_iff, hs,
            Option.some.injEq]
          constructor
          · intro h
            have hcols := congrArg CatTable.columns h
            rw [eq_comm, insert_eq_self_iff, hx, Option.some.injEq] at hcols
            rw [hcols]
          · intro h
            have hself : { x with default := none } = x := by
              cases x
              simp_all
            rw [hself, (insert_eq_self_iff _ _ _).mpr hx]
  | changeType from_ to_ using_ =>
      cases using_ with
      | some e =>
          cases hl
          cases hw
      | none =>
          cases hl
          have halter : c.exec (.alterColumn t col (.setType to_ (quoteIdent col ++ "::" ++ to_))) =
              some c' := by
            simp only [lowerChangeType] at hup
            split_ifs at hup
            · exact (execAll_singleton _ _).symm.trans hup
            · exact (execAll_singleton _ _).symm.trans hup
          simp only [lowerChangeType]
          rw [execAll_singleton]
          refine column_undo_iff c c' t col _ _ (fun x => x.sqlType = from_) (fun x x' hx' => ?_)
            halter
          cases hx'
          cases x
          simp [ColumnAction.run, eq_comm (a := from_)]
  | codecChange from_ to_ =>
      cases hl
      obtain rfl : c.toCatalog = c' := Option.some.inj hup
      exact iff_of_true rfl trivial
  | setCheck from_ to_ =>
      cases hl
      exact setCheck_undo_iff c c' t col from_ to_ hup
  | setUnique unique =>
      cases unique with
      | true =>
          cases hl
          rw [execAll_singleton] at hup
          refine iff_of_true ?_ trivial
          rw [execAll_singleton]
          exact Catalog.addConstraint_undo _ _ _ _ _ hup
      | false =>
          cases hl
          rw [execAll_singleton] at hup
          rw [execAll_singleton]
          exact c.dropConstraint_undo_iff' c' t _ _ (fun _ => rfl) hup
  | setIndexed indexed =>
      cases indexed with
      | true =>
          cases hl
          rw [execAll_singleton] at hup
          refine iff_of_true ?_ trivial
          rw [execAll_singleton]
          exact Catalog.createIndex_undo _ _ _ _ hup
      | false =>
          cases hl
          rw [execAll_singleton] at hup
          rw [execAll_singleton]
          exact c.dropIndex_undo_iff c' _ _ hup
  | setGenerated from_ to_ => exact setGenerated_undo_iff c c' t col from_ to_ l hl hw hup
  | setComment from_ to_ =>
      cases hl
      rw [execAll_singleton] at hup
      rw [execAll_singleton]
      exact Catalog.commentOnColumn_undo_iff _ _ _ _ _ _ hup
  | setIdentity from_ to_ => exact setIdentity_undo_iff c c' t col from_ to_ l hl hup

end ColumnChanges

/-! ## Every operation -/

section Operations

variable (c : Database) (c' : Catalog)

theorem setStorageParams_undo_iff (t : String) (from_ to_ : Option String) (sql : OperationSql)
    (hl : emitSetStorageParams t from_ to_ = .ok sql) (hup : c.execAll sql.upStmts = some c') :
    c'.execAll sql.downStmts = some c.toCatalog ↔
      PriorKnown c.toCatalog (.setStorageParams t from_ to_) := by
  cases hu : renderStorageChange t from_ to_ with
  | error e => simp [emitSetStorageParams, hu, bind, Except.bind] at hl
  | ok up =>
      cases hd : renderStorageChange t to_ from_ with
      | error e => simp [emitSetStorageParams, hu, hd, bind, Except.bind] at hl
      | ok down =>
          simp only [emitSetStorageParams, hu, hd, bind, Except.bind, Except.ok.injEq] at hl
          subst hl
          cases ht : c.tables.get t with
          | none =>
              obtain ⟨rfl, rfl, rfl⟩ := renderStorageChange_missing _ _ t _ _ up ht hu hup
              cases hd
              exact iff_of_true rfl fun s _ _ hs => by simp [ht] at hs
          | some s =>
              obtain ⟨er, es, her, hes, hrun⟩ := renderStorageChange_exec c.toCatalog t s _ _ up ht hu
              obtain rfl : _ = c' := Option.some.inj (hrun.symm.trans hup)
              have hthere : (c.setTable t (replaceParams er es s)).tables.get t =
                  some (replaceParams er es s) := by simp
              obtain ⟨es', er', hes', her', hback⟩ :=
                renderStorageChange_exec _ t _ _ _ down hthere hd
              obtain rfl : es = es' := Except.ok.inj (hes.symm.trans hes')
              obtain rfl : er = er' := Except.ok.inj (her.symm.trans her')
              show Catalog.execAll _ (down.map Line.stmt) = _ ↔ _
              rw [hback, Catalog.setTable_setTable, Option.some.injEq, Catalog.setTable_eq_self_iff,
                ht, Option.some.injEq, eq_comm, replaceParams_undo_iff, PriorKnown]
              constructor
              · intro h s' er' es' hs' her' hes'
                obtain rfl : s = s' := Option.some.inj (ht.symm.trans hs')
                obtain rfl : er = er' := Except.ok.inj (her.symm.trans her')
                obtain rfl : es = es' := Except.ok.inj (hes.symm.trans hes')
                exact h
              · intro h
                exact h s er es ht her hes

theorem addTable_undo (t : TableSchema) (sql : OperationSql) (hl : tryEmitAddTable t = .ok sql)
    (hup : c.execAll sql.upStmts = some c') : c'.execAll sql.downStmts = some c.toCatalog := by
  rw [tryEmitAddTable] at hl
  cases hs : storageStmts t.table t.storageParams with
  | error e => simp [hs, Except.map] at hl
  | ok storage =>
      simp only [hs, Except.map, Except.ok.injEq] at hl
      subst hl
      rw [OperationSql.upStmts, sqlScript_stmts] at hup
      rw [OperationSql.downStmts, sqlScript_stmts, execAll_singleton]
      exact c.createTable_undo c' (tableDefinition t) _ (tableMetadataStmts_writesOnly t storage hs) hup

theorem addIndex_undo (idx : IndexSchema) (sql : OperationSql) (hl : emitAddIndex idx = .ok sql)
    (hup : c.execAll sql.upStmts = some c') : c'.execAll sql.downStmts = some c.toCatalog := by
  rw [emitAddIndex] at hl
  cases hs : createIndexStmt idx with
  | error e => simp [hs, Except.map] at hl
  | ok create =>
      simp only [hs, Except.map, Except.ok.injEq] at hl
      subst hl
      rw [OperationSql.upStmts, sqlScript_stmts, execAll_singleton] at hup
      rw [OperationSql.downStmts, sqlScript_stmts, execAll_singleton, dropIndexStmt]
      rw [createIndexStmt] at hs
      split_ifs at hs with hkind hmethod
      · rw [if_pos hkind]
        cases hs
        rw [uniqueConstraintStmt] at hup
        cases ht : idx.target with
        | columns cols =>
            rw [ht] at hup
            exact Catalog.addConstraint_undo _ _ _ _ _ hup
        | expression e =>
            rw [ht] at hup
            cases hup
      · rw [if_neg hkind]
        cases hs
        exact Catalog.createIndex_undo _ _ _ _ hup

theorem dropForeignKey_undo_iff (t col : String) (fk : ForeignKeySchema)
    (hup : c.execAll (emitDropForeignKey t col fk).upStmts = some c') :
    c'.execAll (emitDropForeignKey t col fk).downStmts = some c.toCatalog ↔
      PriorKnown c.toCatalog (.dropForeignKey t col fk) := by
  rw [emitDropForeignKey_upStmts, execAll_singleton] at hup
  rw [emitDropForeignKey_downStmts, execAll_singleton]
  exact c.dropConstraint_undo_iff' c' t _ _ (fun _ => rfl) hup

theorem setTable_undo_iff (t : String) (st st' : Stmt) (f g : CatTable → CatTable)
    (hst : ∀ c : Catalog, c.exec st = c.onTable t fun s => some (f s))
    (hst' : ∀ c : Catalog, c.exec st' = c.onTable t fun s => some (g s))
    (hup : c.execAll [st] = some c') :
    c'.execAll [st'] = some c.toCatalog ↔ ∀ s, c.tables.get t = some s → g (f s) = s := by
  rw [execAll_singleton, hst] at hup
  rw [execAll_singleton, hst']
  exact Catalog.onTable_set_undo_iff _ _ _ _ _ hup

/-- The down statements after the up statements of one operation. -/
theorem lowered_undo_iff (op : SchemaOperation) (sql : OperationSql)
    (hl : lowerOperation op = .ok sql) (hw : sql.lossy = none)
    (hup : c.execAll sql.upStmts = some c') :
    c'.execAll sql.downStmts = some c.toCatalog ↔ PriorKnown c.toCatalog op := by
  cases op with
  | addTable t => exact iff_of_true (addTable_undo c c' t sql hl hup) trivial
  | dropTable name =>
      cases hl
      cases hw
  | renameTable a b =>
      cases hl
      refine iff_of_true ?_ trivial
      exact (execAll_singleton _ _).trans
        (c.renameTable_undo c' a b ((execAll_singleton _ _).symm.trans hup))
  | addColumn t col =>
      cases hl
      cases hw
  | dropColumn t col =>
      cases hl
      cases hw
  | renameColumn t a b =>
      cases hl
      refine iff_of_true ?_ trivial
      exact (execAll_singleton _ _).trans
        (c.renameColumn_undo c' t a b ((execAll_singleton _ _).symm.trans hup))
  | alterColumn t col change =>
      rw [lowerOperation, Sql.emitAlterColumn] at hl
      cases hc : lowerColumnChange t col change with
      | none => simp [hc] at hl
      | some l =>
          obtain ⟨up, down, suffix, lossy⟩ := l
          simp only [hc, Except.ok.injEq] at hl
          subst hl
          rw [OperationSql.upStmts, sqlScript_stmts] at hup
          rw [OperationSql.downStmts, sqlScript_stmts]
          exact columnChange_undo_iff c c' t col change _ hc hw hup
  | addForeignKey t col fk =>
      cases hl
      refine iff_of_true ?_ trivial
      exact (execAll_singleton _ _).trans
        (Catalog.addConstraint_undo _ _ _ _ _ ((execAll_singleton _ _).symm.trans hup))
  | dropForeignKey t col fk =>
      cases hl
      exact dropForeignKey_undo_iff c c' t col fk hup
  | addIndex idx => exact iff_of_true (addIndex_undo c c' idx sql hl hup) trivial
  | dropIndex idx =>
      rw [lowerOperation, emitDropIndex] at hl
      cases hs : createIndexStmt idx with
      | error e => simp [hs, Except.map] at hl
      | ok create =>
          simp only [hs, Except.map, Except.ok.injEq] at hl
          subst hl
          cases hw
  | addExclusionConstraint t x =>
      cases hl
      refine iff_of_true ?_ trivial
      exact (execAll_singleton _ _).trans
        (Catalog.addConstraint_undo _ _ _ _ _ ((execAll_singleton _ _).symm.trans hup))
  | dropExclusionConstraint t name x =>
      cases hl
      exact (execAll_singleton _ _).symm ▸
        c.dropConstraint_undo_iff c' t name _ ((execAll_singleton _ _).symm.trans hup)
  | addEnum e =>
      cases hl
      refine iff_of_true ?_ trivial
      exact (execAll_singleton _ _).trans
        (Catalog.createType_undo _ _ _ _ ((execAll_singleton _ _).symm.trans hup))
  | dropEnum name =>
      cases hl
      cases hw
  | addEnumVariant n v anchor =>
      cases hl
      cases hw
  | pkTypeFlip t a b => cases hl
  | pkTypeFlipGroup g =>
      cases hl
      cases hw
  | pkTypeFlipMultiGroup gs =>
      cases hl
      cases hw
  | renameApp a b =>
      cases hl
      exact iff_of_true (congrArg some (Option.some.inj hup).symm) trivial
  | moveModelBetweenApps m a b =>
      cases hl
      exact iff_of_true (congrArg some (Option.some.inj hup).symm) trivial
  | setTableComment t from_ to_ =>
      cases hl
      refine (setTable_undo_iff c c' t _ _ (fun s => { s with comment := to_ })
        (fun s => { s with comment := from_ }) (fun _ => rfl) (fun _ => rfl) hup).trans ?_
      refine forall₂_congr fun s _ => ?_
      cases s
      simp [eq_comm (a := from_)]
  | setStorageParams t from_ to_ => exact setStorageParams_undo_iff c c' t from_ to_ sql hl hup
  | setTablespace t from_ to_ =>
      cases hl
      refine (setTable_undo_iff c c' t _ _ (fun s => { s with tablespace := to_.getD pgDefault })
        (fun s => { s with tablespace := from_.getD pgDefault }) (fun _ => rfl) (fun _ => rfl)
        hup).trans ?_
      refine forall₂_congr fun s _ => ?_
      cases s
      simp [eq_comm (a := from_.getD pgDefault)]
  | unsupported reason => cases hl

/-- **Rollback.** An operation lowered without a warning is undone by its down statements
exactly when the catalog held what the operation takes for granted. -/
theorem rollback_iff (op : SchemaOperation) (sql : OperationSql)
    (hl : lowerOperation op = .ok sql) (hw : sql.lossy = none)
    (hup : c.execAll sql.upStmts = some c') :
    c'.execAll sql.downStmts = some c.toCatalog ↔ PriorKnown c.toCatalog op :=
  lowered_undo_iff c c' op sql hl hw hup

end Operations

/-! ### A default -/

/-- A table with a key and a name that may have a default. -/
def namedUsers (default : Option String) : TableSchema :=
  .bare "users" [.bare "id" "BIGINT", { ColumnSchema.bare "name" "TEXT" with defaultSql := default }]

def usersTable (default : Option String) : CatTable where
  columns := .ofList [("id", ⟨"BIGINT", true, none, none, none, none⟩),
    ("name", ⟨"TEXT", false, default, none, none, none⟩)]
  constraints := .ofList [("users_pkey", .primaryKey ["id"])]
  partition := none
  comment := none
  params := .empty
  tablespace := pgDefault
  triggers := .empty

theorem get_ofList_singleton {ν : Type} (k : String) (v : ν) (j : String) (w : ν)
    (h : (ofList [(k, v)]).get j = some w) : j = k ∧ w = v := by
  have hmem := mem_of_mem_ofList _ _ ((mem_entries_iff _ j w).mpr h)
  simpa using hmem

def usersDatabase (default : Option String) : Database where
  tables := .ofList [("users", usersTable default)]
  indexes := .empty
  enums := .empty
  functions := .empty
  constraintColumns t s hs n d hd col hcol := by
    obtain ⟨-, rfl⟩ := get_ofList_singleton _ _ _ _ hs
    obtain ⟨-, rfl⟩ := get_ofList_singleton _ _ _ _ hd
    rw [List.mem_singleton.mp hcol, usersTable, mem_keys_ofList]
    simp
  targets t s hs n d hd := by
    obtain ⟨-, rfl⟩ := get_ofList_singleton _ _ _ _ hs
    obtain ⟨-, rfl⟩ := get_ofList_singleton _ _ _ _ hd
    rfl
  indexColumns n d hd := by simp at hd

/-- A first default comes and goes. -/
theorem rollback_first_default : ∃ sql c',
    lowerOperation (.alterColumn "users" "name" (.setDefault (some "'b'"))) = .ok sql ∧
      (usersDatabase none).execAll sql.upStmts = some c' ∧
      c'.execAll sql.downStmts = some (usersDatabase none).toCatalog := by
  have hup : (usersDatabase none).execAll
      [.alterColumn "users" "name" (.setDefault "'b'")] = some (usersDatabase (some "'b'")).toCatalog := by
    decide +kernel
  refine ⟨_, _, rfl, hup, (rollback_iff (usersDatabase none) _
    (.alterColumn "users" "name" (.setDefault (some "'b'"))) _ rfl rfl hup).mpr ?_⟩
  intro x hx
  have hat : (usersDatabase none).columnAt "users" "name" =
      some ⟨"TEXT", false, none, none, none, none⟩ := by decide +kernel
  rw [hat] at hx
  rw [← Option.some.inj hx]

/-- A changed default is not put back, and no warning says so. -/
theorem rollback_forgets_default : ∃ op ∈ (diffSchemas (.ofTables [namedUsers (some "'a'")])
      (.ofTables [namedUsers (some "'b'")]) mainBucket).operations,
    ∃ create sql c c₁ c₂, lowerOperation (.addTable (namedUsers (some "'a'"))) = .ok create ∧
      Catalog.empty.execAll create.upStmts = some c ∧
      lowerOperation op = .ok sql ∧ sql.lossy = none ∧
      c.execAll sql.upStmts = some c₁ ∧ c₁.execAll sql.downStmts = some c₂ ∧ c₂ ≠ c := by
  refine ⟨.alterColumn "users" "name" (.setDefault (some "'b'")), by decide +kernel, _, _,
    (usersDatabase (some "'a'")).toCatalog, (usersDatabase (some "'b'")).toCatalog,
    (usersDatabase none).toCatalog, rfl, ?_, rfl, rfl, ?_, ?_, ?_⟩
  · decide +kernel
  · decide +kernel
  · decide +kernel
  · decide +kernel

end Djogi

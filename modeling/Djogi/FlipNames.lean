import Djogi.FlipMerge
import Djogi.PkFlip

/-!
# Constraint names in flip groups

`promote_pk_flips_to_groups` writes the names of the foreign keys that a cutover drops; the emitter
made these keys under the name of `fk_constraint_name`, which cuts long names.

* `truncateConstraint_eq_iff`: a name with a suffix of its own is kept exactly when it is short;
* `recorded_name`: the name that a group records for a key;
* `recorded_agrees_iff`: when it is the emitter's name.
-/

namespace Djogi

/-! ## Names that are cut -/

theorem mem_toDigitsCore (fuel n : ℕ) (acc : List Char) (c : Char)
    (h : c ∈ Nat.toDigitsCore 16 fuel n acc) : c ∈ acc ∨ c ≠ 'y' := by
  induction fuel generalizing n acc with
  | zero => exact .inl h
  | succ fuel ih =>
    have hall : ∀ d < 16, Nat.digitChar d ≠ 'y' := by decide
    have hdigit := hall (n % 16) (Nat.mod_lt n (by omega))
    rw [Nat.toDigitsCore] at h
    split at h
    · rcases List.mem_cons.mp h with rfl | h
      · exact .inr hdigit
      · exact .inl h
    · rcases ih _ _ h with h | h
      · rcases List.mem_cons.mp h with rfl | h
        · exact .inr hdigit
        · exact .inl h
      · exact .inr h

/-- A digest is hexadecimal. -/
theorem hex16_last (x : UInt64) : (hex16 x).toList.getLast? ≠ some 'y' := by
  intro h
  have hmem := List.mem_of_getLast? h
  rw [hex16, String.toList_ofList] at hmem
  rcases List.mem_append.mp hmem with hmem | hmem
  · have := List.eq_of_mem_replicate hmem
    exact absurd this (by decide)
  · rcases mem_toDigitsCore _ _ _ _ hmem with hmem | hmem
    · cases hmem
    · exact hmem rfl

theorem hex16_ne_nil (x : UInt64) : (hex16 x).toList ≠ [] := by
  intro h
  rw [hex16, String.toList_ofList] at h
  have hlength := congrArg List.length h
  rw [List.length_append, List.length_replicate, List.length_nil] at hlength
  omega

/-- A name that does not end like a digest is kept exactly when it is short. -/
theorem truncateConstraint_eq_iff (name : String) (h : name.toList.getLast? = some 'y') :
    truncateConstraint name = name ↔ name.utf8ByteSize ≤ 63 := by
  unfold truncateConstraint
  split
  · rename_i hshort
    exact iff_of_true rfl hshort
  · rename_i hlong
    refine iff_of_false (fun heq => ?_) hlong
    rw [← heq, String.toList_append, List.getLast?_append_of_ne_nil _ (hex16_ne_nil _)] at h
    exact hex16_last _ h

theorem fkey_last (table column : String) :
    (table ++ "_" ++ column ++ "_fkey").toList.getLast? = some 'y' := by
  rw [String.toList_append]
  exact List.getLast?_append_of_ne_nil _ (by decide)

/-! ## Recorded keys -/

/-- A foreign key of a group with the name that the cutover drops. -/
structure RecordedKey where
  table : String
  column : String
  name : String
  deriving DecidableEq, Repr

def PkFlipChild.key (c : PkFlipChild) : RecordedKey := ⟨c.table, c.fkColumn, c.fkConstraintName⟩

def PkFlipSelfFk.keys (s : PkFlipSelfFk) (table : String) : List RecordedKey :=
  (s.fkColumns.zip s.fkConstraintNames).map fun p => ⟨table, p.1, p.2⟩

/-- The key to the parent, and the one to a partner that migrates too. -/
def PkFlipJoinTable.keys (jt : PkFlipJoinTable) : List RecordedKey :=
  ⟨jt.table, jt.fkToParentColumn, jt.fkToParentConstraint⟩ ::
    match jt.fkToPartnerColumn, jt.fkToPartnerConstraint with
    | some column, some name => [⟨jt.table, column, name⟩]
    | _, _ => []

def recordedKeys (g : PkTypeFlipGroup) : List RecordedKey :=
  g.children.map PkFlipChild.key ++ g.selfFk.elim [] (·.keys g.parentTable) ++
    g.joinTables.flatMap PkFlipJoinTable.keys

/-- The name that the differ writes down. -/
def RecordedKey.Plain (k : RecordedKey) : Prop := k.name = k.table ++ "_" ++ k.column ++ "_fkey"

theorem children_plain (after : AppliedSchema) (parent : String) (family : PkFlipFamily)
    (c : PkFlipChild) (h : c ∈ groupChildren after parent family) : c.key.Plain := by
  obtain ⟨r, -, hr⟩ := List.mem_filterMap.mp h
  split at hr
  · cases hr
  · split at hr
    · cases hr
      rfl
    · split at hr
      · cases hr
      · cases hr
        rfl

theorem joinTables_plain (after : AppliedSchema) (parent : String) (family : PkFlipFamily)
    (migrating : List String) (jt : PkFlipJoinTable)
    (h : jt ∈ groupJoinTables after parent family migrating) : ∀ k ∈ jt.keys, k.Plain := by
  obtain ⟨r, -, hr⟩ := List.mem_filterMap.mp h
  split at hr
  · cases hr
  · split at hr
    · cases hr
    · split at hr
      · cases hr
        intro k hk
        rcases List.mem_cons.mp hk with rfl | hk
        · rfl
        · unfold FkRef.joinTable at hk
          dsimp only at hk
          cases hpartner : (partnerOf r.schema r.column.name r.fk.refTable).filter
              fun p => migrating.contains p.2 with
          | none =>
            rw [hpartner] at hk
            cases hk
          | some p =>
            rw [hpartner] at hk
            rw [List.mem_singleton.mp hk]
            rfl
      · cases hr

theorem selfFk_plain (after : AppliedSchema) (parent : String) (cycle : Bool) (s : PkFlipSelfFk)
    (h : groupSelfFk after parent cycle = some s) : ∀ k ∈ s.keys parent, k.Plain := by
  unfold groupSelfFk at h
  dsimp only at h
  split at h
  · cases h
  · cases h
    intro k hk
    obtain ⟨p, hp, rfl⟩ := List.mem_map.mp hk
    dsimp only at hp
    rw [List.zip_map', List.mem_map] at hp
    obtain ⟨r, hr, rfl⟩ := hp
    have htable := (List.mem_filter.mp ((sortBy_perm _ _).mem_iff.mp hr)).2
    change r.table ++ "_" ++ r.column.name ++ "_fkey" = parent ++ "_" ++ r.column.name ++ "_fkey"
    rw [of_decide_eq_true htable]

theorem promoteGroup_plain (after : AppliedSchema) (ops : List SchemaOperation)
    (migrating : List String) (parent : String) (from_ to_ : PkKindSchema) (g : PkTypeFlipGroup)
    (h : promoteGroup after ops migrating parent from_ to_ = .ok g) :
    ∀ k ∈ recordedKeys g, k.Plain := by
  unfold promoteGroup at h
  dsimp only at h
  split at h
  · cases h
  · cases h
    intro k hk
    rcases List.mem_append.mp hk with hk | hk
    · rcases List.mem_append.mp hk with hk | hk
      · obtain ⟨c, hc, rfl⟩ := List.mem_map.mp hk
        exact children_plain _ _ _ _ ((sortBy_perm _ _).mem_iff.mp hc)
      · dsimp only at hk
        generalize hself : groupSelfFk after parent _ = self at hk
        cases self with
        | none => cases hk
        | some s => exact selfFk_plain _ _ _ _ hself k hk
    · obtain ⟨jt, hjt, hk⟩ := List.mem_flatMap.mp hk
      exact joinTables_plain _ _ _ _ _ ((sortBy_perm _ _).mem_iff.mp hjt) k hk

theorem promoteParents_mem (after : AppliedSchema) (migrating : List String)
    (ps : List (String × PkKindSchema × PkKindSchema)) (ops ops' : List SchemaOperation)
    (h : promoteParents after migrating ps ops = .ok ops') (g : PkTypeFlipGroup)
    (hg : .pkTypeFlipGroup g ∈ ops') : .pkTypeFlipGroup g ∈ ops ∨
      ∃ (old : List SchemaOperation) (p : String × PkKindSchema × PkKindSchema),
        promoteGroup after old migrating p.1 p.2.1 p.2.2 = .ok g := by
  induction ps generalizing ops with
  | nil =>
    cases h
    exact .inl hg
  | cons p ps ih =>
    rw [promoteParents] at h
    split at h
    · cases h
    · rename_i g' hg'
      rcases ih _ h with hmem | hmem
      · rcases List.mem_append.mp hmem with hmem | hmem
        · exact .inl hmem
        · cases List.mem_singleton.mp hmem
          exact .inr ⟨ops, p, hg'⟩
      · exact .inr hmem

/-- The name that a promoted group records for a key. -/
theorem recorded_name (after : AppliedSchema) (ops ops' : List SchemaOperation)
    (h : promotePkFlipsToGroups after ops = .ok ops') (g : PkTypeFlipGroup)
    (hg : .pkTypeFlipGroup g ∈ ops') (hnew : .pkTypeFlipGroup g ∉ ops) :
    ∀ k ∈ recordedKeys g, k.Plain := by
  unfold promotePkFlipsToGroups at h
  rcases promoteParents_mem _ _ _ _ _ h g hg with hold | ⟨old, p, hp⟩
  · exact absurd (List.mem_of_mem_filter hold) hnew
  · exact promoteGroup_plain _ _ _ _ _ _ _ hp

/-- **Names in groups.** A recorded key has the emitter's name exactly when that name was not
cut. -/
theorem recorded_agrees_iff (after : AppliedSchema) (ops ops' : List SchemaOperation)
    (h : promotePkFlipsToGroups after ops = .ok ops') (g : PkTypeFlipGroup)
    (hg : .pkTypeFlipGroup g ∈ ops') (hnew : .pkTypeFlipGroup g ∉ ops) (k : RecordedKey)
    (hk : k ∈ recordedKeys g) : k.name = fkConstraintName k.table k.column ↔
      (k.table ++ "_" ++ k.column ++ "_fkey").utf8ByteSize ≤ 63 := by
  have hname : k.name = k.table ++ "_" ++ k.column ++ "_fkey" :=
    recorded_name after ops ops' h g hg hnew k hk
  rw [hname, fkConstraintName, eq_comm]
  exact truncateConstraint_eq_iff _ (fkey_last k.table k.column)

/-- A parent that migrates, and a table that references it. -/
def flippedParent (child : String) : AppliedSchema :=
  { AppliedSchema.empty with
    models := OrdMap.ofList [("users", .keyed "users" .heerIdRecencyBiased),
      (child, .bare child [.bare "id" "BIGINT", .reference "user_id" "users"])] }

def parentFlip : List SchemaOperation := [.pkTypeFlip "users" .heerId .heerIdRecencyBiased]

/-- The group of the parent. -/
def parentGroup (child : String) : Option PkTypeFlipGroup :=
  match promotePkFlipsToGroups (flippedParent child) parentFlip with
  | .ok [.pkTypeFlipGroup g] => some g
  | _ => none

theorem parentGroup_ok (child : String) (g : PkTypeFlipGroup) (h : parentGroup child = some g) :
    promotePkFlipsToGroups (flippedParent child) parentFlip = .ok [.pkTypeFlipGroup g] := by
  unfold parentGroup at h
  split at h
  · rename_i g' hrun
    rw [hrun, Option.some.inj h]
  · cases h

theorem recorded_agrees_posts : ∃ g k,
    promotePkFlipsToGroups (flippedParent "posts") parentFlip = .ok [.pkTypeFlipGroup g] ∧
      k ∈ recordedKeys g ∧ (k.name = fkConstraintName k.table k.column ↔
        (k.table ++ "_" ++ k.column ++ "_fkey").utf8ByteSize ≤ 63) := by
  have hsome : (parentGroup "posts").map recordedKeys =
      some [⟨"posts", "user_id", "posts_user_id_fkey"⟩] := by decide +kernel
  obtain ⟨g, hg, hkeys⟩ := Option.map_eq_some_iff.mp hsome
  have hk : ⟨"posts", "user_id", "posts_user_id_fkey"⟩ ∈ recordedKeys g := by
    rw [hkeys]
    exact List.mem_singleton_self _
  exact ⟨g, _, parentGroup_ok _ g hg, hk, recorded_agrees_iff _ _ _ (parentGroup_ok _ g hg) g
    (List.mem_singleton_self _) (by simp [parentFlip]) _ hk⟩

/-- Sixty bytes. -/
def longTable : String := String.ofList (List.replicate 60 'a')

/-- The cutover drops a constraint that the emitter never made. -/
theorem recorded_misses_long : ∃ g k,
    promotePkFlipsToGroups (flippedParent longTable) parentFlip = .ok [.pkTypeFlipGroup g] ∧
      k ∈ recordedKeys g ∧ k.name ≠ fkConstraintName k.table k.column := by
  have hsome : (parentGroup longTable).map recordedKeys =
      some [⟨longTable, "user_id", longTable ++ "_user_id_fkey"⟩] := by decide +kernel
  have hne : longTable ++ "_user_id_fkey" ≠ fkConstraintName longTable "user_id" := by
    decide +kernel
  obtain ⟨g, hg, hkeys⟩ := Option.map_eq_some_iff.mp hsome
  refine ⟨g, ⟨longTable, "user_id", longTable ++ "_user_id_fkey"⟩, parentGroup_ok _ g hg, ?_, hne⟩
  rw [hkeys]
  exact List.mem_singleton_self _

end Djogi

import Mathlib.Data.Finset.Card
import Djogi.Lib.StableSort
import Djogi.Accept

/-!
# Link order

The linker yields the descriptors in no fixed order.

* `projected_reordered`: the orders of an unambiguous inventory have one projection;
* `unambiguous_of_orderFree`: whatever is ambiguous is seen in some order;
* `order_free_iff`: the projection does not depend on the order exactly when every accepted order
  is unambiguous;
* `order_matters`: two models of one type with different keys.
-/

namespace Djogi

open OrdMap

/-! ## Orders -/

/-- The same descriptors in another order. -/
structure Reordered (inv inv' : Inventory) : Prop where
  models : inv.models.Perm inv'.models
  enums : inv.enums.Perm inv'.enums
  apps : inv.apps.Perm inv'.apps
  specs : inv.specs.Perm inv'.specs

/-- Two orders are both refused, or both accepted with one result. -/
def OrderFree (inv : Inventory) : Prop :=
  ∀ inv₁ inv₂, Reordered inv inv₁ → Reordered inv inv₂ → ∀ generatedAt out,
    projectFromIters inv₁ generatedAt = .ok out ↔ projectFromIters inv₂ generatedAt = .ok out

theorem Reordered.refl (inv : Inventory) : Reordered inv inv := ⟨.refl _, .refl _, .refl _, .refl _⟩

theorem Reordered.symm (inv inv' : Inventory) (h : Reordered inv inv') : Reordered inv' inv :=
  ⟨h.models.symm, h.enums.symm, h.apps.symm, h.specs.symm⟩

theorem Reordered.trans (inv inv' inv'' : Inventory) (h : Reordered inv inv')
    (h' : Reordered inv' inv'') : Reordered inv inv'' :=
  ⟨h.models.trans h'.models, h.enums.trans h'.enums, h.apps.trans h'.apps, h.specs.trans h'.specs⟩

/-! ## Ambiguity -/

/-- Some model of the type is a proxy for the parent. -/
def ProxyStep (models : List ModelDescriptor) (t parent : String) : Prop :=
  ∃ m ∈ models, m.typeName = t ∧ m.proxyFor = some parent

def Registered (models : List ModelDescriptor) (t : String) : Prop :=
  ∃ m ∈ models, m.typeName = t

/-- Every way to follow proxies from the type stays in registered types and ends at models of
one database. -/
inductive Leads (models : List ModelDescriptor) (home : ModelDescriptor → BucketKey)
    (database : String) : String → Prop
  | intro (t : String) (registered : ∀ u, ProxyStep models t u → Registered models u)
      (parents : ∀ u, ProxyStep models t u → Leads models home database u)
      (homes : (∀ u, ¬ProxyStep models t u) → ∀ m ∈ models, m.typeName = t →
        (home m).database = database) : Leads models home database t

def Inventory.home (inv : Inventory) : ModelDescriptor → BucketKey := bucketOf (labelToApp inv.apps)

/-- Repeated names do not matter: apps of one label share their database, every target of a
relation is in the database of its source, and models of one type have one kind of key where the
key of the type is read. -/
structure Unambiguous (inv : Inventory) : Prop where
  labels : Agree AppDescriptor.label AppDescriptor.database inv.apps
  targets : ∀ m ∈ inv.models, m.proxyFor = none → ∀ f ∈ m.fields, ∀ t, f.target = some t →
    Leads inv.models inv.home (inv.home m).database t
  keys : ∀ m ∈ inv.models, m.proxyFor = none → ∀ f ∈ m.fields, ∀ t, f.target = some t →
    ∀ a ∈ inv.models, ∀ b ∈ inv.models, a.typeName = t → b.typeName = t →
      pkSqlTypeText a.pkType = pkSqlTypeText b.pkType ∧
        (f.strictIdCheck = true → strictIdFamilyOfPk a.pkType = strictIdFamilyOfPk b.pkType)
  outboxes : ∀ m ∈ inv.models, m.proxyFor = none → m.hasOutbox = true →
    ∀ a ∈ inv.models, a.typeName = m.typeName → pkSqlTypeText a.pkType = pkSqlTypeText m.pkType

/-! ## Lookups -/

theorem labelToApp_get (apps : List AppDescriptor) (label : String) :
    (labelToApp apps).get label = ((registry AppDescriptor.label id apps).get label).or
      (if label = AppDescriptor.globalLabel then some AppDescriptor.global else none) := by
  rw [labelToApp, ofList, List.foldl_cons, get_foldl_insert, get_insert, get_empty, registry,
    get_ofList]
  rfl

theorem labelToApp_label (apps : List AppDescriptor) (label : String) (app : AppDescriptor)
    (h : (labelToApp apps).get label = some app) : app.label = label := by
  rw [labelToApp_get, Option.or_eq_some_iff] at h
  rcases h with h | ⟨-, h⟩
  · obtain ⟨a, -, hkey, rfl⟩ := registry_some _ _ _ _ _ h
    exact hkey
  · split_ifs at h with hglobal
    rw [← Option.some.inj h, hglobal]
    rfl

theorem labelToApp_perm (apps apps' : List AppDescriptor) (hp : apps.Perm apps')
    (h : Agree AppDescriptor.label AppDescriptor.database apps) :
    labelToApp apps = labelToApp apps' := by
  refine ext_get fun label => ?_
  have hid : Agree AppDescriptor.label id apps := by
    rintro ⟨l, d⟩ ha ⟨l', d'⟩ hb (rfl : l = l')
    have hd : d = d' := h _ ha _ hb rfl
    rw [hd]
  rw [labelToApp_get, labelToApp_get, registry_perm _ _ apps apps' hp hid]

section Maps

variable (inv : Inventory)

theorem typeToBucket_eq : inv.maps.typeToBucket =
    registry ModelDescriptor.typeName inv.home inv.models := by
  rw [Inventory.maps, Inventory.lookups, Inventory.placed, registry, List.map_map]
  rfl

theorem typeToBucket_contains_iff (t : String) :
    inv.maps.typeToBucket.contains t = true ↔ Registered inv.models t := by
  rw [contains_iff, typeToBucket_eq, registry_contains_iff]
  rfl

theorem typeToProxyFor_some (t parent : String)
    (h : inv.maps.typeToProxyFor.get t = some parent) : ProxyStep inv.models t parent := by
  have hmem := mem_of_mem_ofList _ (t, parent) ((mem_entries_iff _ _ _).mpr h)
  obtain ⟨m, hm, heq⟩ := List.mem_filterMap.mp hmem
  obtain ⟨p, hp, hpair⟩ := Option.map_eq_some_iff.mp heq
  obtain ⟨rfl, rfl⟩ := Prod.mk.inj hpair
  exact ⟨m, hm, rfl, hp⟩

theorem typeToProxyFor_none (t : String) (h : inv.maps.typeToProxyFor.get t = none) (u : String) :
    ¬ProxyStep inv.models t u := by
  rintro ⟨m, hm, rfl, hproxy⟩
  rw [get_eq_none_iff] at h
  refine h ((mem_keys_ofList _ _).mpr (List.mem_map.mpr ⟨(m.typeName, u), ?_, rfl⟩))
  exact List.mem_filterMap.mpr ⟨m, hm, by rw [hproxy, Option.map_some]⟩

theorem typeToProxyFor_keys_length : inv.maps.typeToProxyFor.keys.length ≤ inv.models.length := by
  have hsub : inv.maps.typeToProxyFor.keys ⊆ inv.models.map ModelDescriptor.typeName := by
    intro t ht
    obtain ⟨parent, hparent⟩ := (mem_keys_iff _ _).mp ht
    obtain ⟨m, hm, rfl, -⟩ := typeToProxyFor_some inv t parent hparent
    exact List.mem_map_of_mem hm
  have hle := (List.subperm_of_subset (keys_nodup _) hsub).length_le
  rwa [List.length_map] at hle

/-! ## Walks that end well -/

/-- The walk goes on from the first type to the second one. -/
def Follows (t u : String) : Prop := inv.maps.typeToProxyFor.get t = some u

theorem leads_acyclic (database t : String) (h : Leads inv.models inv.home database t) (u : String)
    (hu : Follows inv t u) : ¬Relation.ReflTransGen (Follows inv) u t := by
  induction h generalizing u with
  | intro t _ _ _ ih =>
    intro hback
    have hstep := typeToProxyFor_some inv t u hu
    rcases Relation.ReflTransGen.cases_head hback with rfl | ⟨v, hv, hrest⟩
    · exact ih _ hstep _ hu .refl
    · exact ih u hstep v hv (hrest.tail hu)

open Classical in
/-- Types that the walk can still pass. -/
noncomputable def ahead (t : String) : Finset String :=
  inv.maps.typeToProxyFor.keys.toFinset.filter fun k => Relation.ReflTransGen (Follows inv) t k

theorem mem_ahead (t k : String) : k ∈ ahead inv t ↔
    k ∈ inv.maps.typeToProxyFor.keys ∧ Relation.ReflTransGen (Follows inv) t k := by
  classical
  rw [ahead, Finset.mem_filter, List.mem_toFinset]

theorem ahead_card_lt (t u : String) (hu : Follows inv t u)
    (hback : ¬Relation.ReflTransGen (Follows inv) u t) :
    (ahead inv u).card < (ahead inv t).card := by
  refine Finset.card_lt_card ((Finset.ssubset_iff_of_subset fun k hk => ?_).mpr ⟨t, ?_, ?_⟩)
  · rw [mem_ahead] at hk ⊢
    exact ⟨hk.1, hk.2.head hu⟩
  · rw [mem_ahead, mem_keys_iff]
    exact ⟨⟨u, hu⟩, .refl⟩
  · rw [mem_ahead]
    exact fun hmem => hback hmem.2

theorem walk_leads (database t : String) (h : Leads inv.models inv.home database t) (fuel : Nat)
    (hfuel : (ahead inv t).card ≤ fuel) :
    ∃ u, walkProxies inv.maps fuel t = .found u ∧ (∀ v, ¬ProxyStep inv.models u v) ∧
      Leads inv.models inv.home database u := by
  induction h generalizing fuel with
  | intro t registered parents homes ih =>
    cases hnext : inv.maps.typeToProxyFor.get t with
    | none =>
      refine ⟨t, ?_, typeToProxyFor_none inv t hnext, ⟨t, registered, parents, homes⟩⟩
      cases fuel <;> rw [walkProxies, hnext]
    | some u =>
      have hstep := typeToProxyFor_some inv t u hnext
      have hlt := ahead_card_lt inv t u hnext
        (leads_acyclic inv database t ⟨t, registered, parents, homes⟩ u hnext)
      obtain ⟨n, rfl⟩ : ∃ n, fuel = n + 1 := ⟨fuel - 1, by omega⟩
      have hcontains := (typeToBucket_contains_iff inv u).mpr (registered u hstep)
      rw [walkProxies, hnext]
      simp only [hcontains, if_true]
      exact ih u hstep n (by omega)

theorem checkFieldTarget_leads (source : BucketKey) (m : ModelDescriptor) (f : FieldDescriptor)
    (t : String) (h : Leads inv.models inv.home source.database t) :
    checkFieldTarget inv.maps inv.models.length source m f t = .ok () := by
  have hcard : (ahead inv t).card ≤ inv.models.length := by
    have hsub : ahead inv t ⊆ inv.maps.typeToProxyFor.keys.toFinset := fun k hk =>
      List.mem_toFinset.mpr ((mem_ahead inv t k).mp hk).1
    refine le_trans (Finset.card_le_card hsub) ?_
    exact le_trans (List.toFinset_card_le _) (typeToProxyFor_keys_length inv)
  obtain ⟨u, hwalk, hend, hleads⟩ := walk_leads inv _ t h _ hcard
  rw [checkFieldTarget, hwalk]
  cases hget : inv.maps.typeToBucket.get u with
  | none => simp only [hget]
  | some bucket =>
    simp only [hget]
    rw [typeToBucket_eq] at hget
    obtain ⟨m', hm', hname, rfl⟩ := registry_some _ _ _ _ _ hget
    obtain ⟨_, _, _, homes⟩ := hleads
    rw [if_pos (homes hend m' hm' hname)]

end Maps

/-! ## Unambiguous inventories -/

section Orders

variable (inv inv' : Inventory)

theorem home_reordered (hr : Reordered inv inv')
    (hl : Agree AppDescriptor.label AppDescriptor.database inv.apps) : inv'.home = inv.home := by
  rw [Inventory.home, Inventory.home, labelToApp_perm _ _ hr.apps hl]

theorem leads_reordered (hp : inv.models.Perm inv'.models) (home : ModelDescriptor → BucketKey)
    (database t : String) (h : Leads inv.models home database t) :
    Leads inv'.models home database t := by
  have hstep : ∀ a b, ProxyStep inv'.models a b → ProxyStep inv.models a b := by
    rintro a b ⟨m, hm, hname, hproxy⟩
    exact ⟨m, hp.mem_iff.mpr hm, hname, hproxy⟩
  induction h with
  | intro t registered _ homes ih =>
    refine ⟨t, fun u hu => ?_, fun u hu => ih u (hstep t u hu), fun hend m hm hname => ?_⟩
    · obtain ⟨m, hm, hname⟩ := registered u (hstep t u hu)
      exact ⟨m, hp.mem_iff.mp hm, hname⟩
    · refine homes (fun u hu => hend u ?_) m (hp.mem_iff.mpr hm) hname
      obtain ⟨m', hm', hname', hproxy⟩ := hu
      exact ⟨m', hp.mem_iff.mp hm', hname', hproxy⟩

theorem modelsIn_perm (hr : Reordered inv inv') (hhome : inv'.home = inv.home)
    (bucket : BucketKey) : (inv.modelsIn bucket).Perm (inv'.modelsIn bucket) := by
  have heq : inv'.modelsIn bucket = inv'.models.filter fun m => inv.home m = bucket := by
    rw [← hhome]
    rfl
  rw [heq]
  exact hr.models.filter _

/-- Every order of an unambiguous inventory that has a valid one is valid. -/
theorem valid_reordered (hv : Valid inv) (hu : Unambiguous inv) (hr : Reordered inv inv') :
    Valid inv' := by
  have hhome := home_reordered inv inv' hr hu.labels
  have hlabels := labelToApp_perm _ _ hr.apps hu.labels
  refine ⟨hv.specs.perm _ _ _ _ hr.specs, hv.tables.perm _ _ _ _ hr.models, fun m hm => ?_,
    fun p hp => ?_, (hr.enums.map _).nodup_iff.mp hv.enums, fun bucket hb => ?_⟩
  · rw [← hlabels]
    exact hv.labels m (hr.models.mem_iff.mpr hm)
  · obtain ⟨m, hm, rfl⟩ := List.mem_map.mp hp
    have hm' := hr.models.mem_iff.mpr hm
    rw [checkForeignKeys]
    split_ifs with hproxy
    · rfl
    · rw [Fallible.forM_ok_iff]
      intro f hf
      rw [checkField]
      cases ht : f.target with
      | none => rfl
      | some t =>
        have hnone : m.proxyFor = none := by simpa using hproxy
        refine checkFieldTarget_leads inv' _ m f t ?_
        rw [hhome, show bucketOf (labelToApp inv'.apps) m = inv.home m from congrFun hhome m]
        exact leads_reordered inv inv' hr.models _ _ t (hu.targets m hm' hnone f hf t ht)
  · have hb' : bucket ∈ appBuckets inv.maps := by
      rw [appBuckets, mem_sortedDedup] at hb ⊢
      rw [show inv.maps.labelToApp = inv'.maps.labelToApp from hlabels]
      exact hb
    exact ((modelsIn_perm inv inv' hr hhome bucket).flatMap_right tableNames).nodup_iff.mp
      (hv.names bucket hb')

/-- What a column reads from the lookups. -/
theorem projectColumn_congr (lk lk' : Lookups) (m : ModelDescriptor) (f : FieldDescriptor)
    (hspecs : lk.deferrabilityByField = lk'.deferrabilityByField)
    (htables : lk.typeToTable = lk'.typeToTable)
    (hread : ∀ t, f.target = some t → lk.typeToPkSql.get t = lk'.typeToPkSql.get t ∧
      (f.strictIdCheck = true → lk.typeToPkFamily.get t = lk'.typeToPkFamily.get t)) :
    projectColumn lk m f = projectColumn lk' m f := by
  have hsql : fieldSqlType lk f = fieldSqlType lk' f := by
    unfold fieldSqlType
    cases ht : f.target with
    | none => rfl
    | some t => rw [Option.bind_some, Option.bind_some, (hread t ht).1]
  have hfk : fieldForeignKey lk f m = fieldForeignKey lk' f m := by
    rw [fieldForeignKey, fieldForeignKey, hspecs, htables]
  have hcheck : fieldCheck lk f m = fieldCheck lk' f m := by
    unfold fieldCheck
    by_cases hstrict : f.strictIdCheck = true
    · have hfamily : fieldFamily lk f m = fieldFamily lk' f m := by
        unfold fieldFamily
        cases hkind : f.relationKind with
        | none => rfl
        | some kind =>
          have htarget : f.target = f.targetTypeName := by
            rw [FieldDescriptor.target, hkind, Option.bind_some]
          cases ht : f.targetTypeName with
          | none => rfl
          | some t =>
            rw [Option.bind_some, Option.bind_some, (hread t (htarget.trans ht)).2 hstrict]
      rw [hfamily]
    · rw [if_neg hstrict, if_neg hstrict]
  rw [projectColumn, projectColumn, hsql, hfk, hcheck]

theorem projectModel_reordered (hv : Valid inv) (hu : Unambiguous inv) (hr : Reordered inv inv')
    (m : ModelDescriptor) (hm : m ∈ inv.models) (hproxy : m.proxyFor = none) :
    projectModel inv'.maps m = projectModel inv.maps m := by
  have hcolumns : m.fields.map (projectColumn inv'.maps m) =
      m.fields.map (projectColumn inv.maps m) := by
    refine List.map_congr_left fun f hf => projectColumn_congr _ _ m f
      (registry_perm _ _ _ _ hr.specs hv.specs).symm
      (registry_perm _ _ _ _ hr.models hv.tables).symm fun t ht => ⟨?_, fun hstrict => ?_⟩
    · exact (registry_perm_at _ _ _ _ hr.models t fun a ha b hb hka hkb =>
        (hu.keys m hm hproxy f hf t ht a ha b hb hka hkb).1).symm
    · exact (registry_perm_at _ _ _ _ hr.models t fun a ha b hb hka hkb =>
        (hu.keys m hm hproxy f hf t ht a ha b hb hka hkb).2 hstrict).symm
  rw [projectModel, projectModel, hcolumns]

/-- What a model reads from the lookups is the same in every order. -/
theorem tablePairs_reordered (hv : Valid inv) (hu : Unambiguous inv) (hr : Reordered inv inv')
    (m : ModelDescriptor) (hm : m ∈ inv.models) :
    tablePairs inv'.maps m = tablePairs inv.maps m := by
  unfold tablePairs
  split_ifs with hproxy houtbox
  · rfl
  · have hnone : m.proxyFor = none := by simpa using hproxy
    have hkey : inv'.maps.typeToPkSql.get m.typeName = inv.maps.typeToPkSql.get m.typeName :=
      (registry_perm_at _ _ _ _ hr.models m.typeName fun a ha b hb hka hkb =>
        (hu.outboxes m hm hnone houtbox a ha hka).trans
          (hu.outboxes m hm hnone houtbox b hb hkb).symm).symm
    rw [projectModel_reordered inv inv' hv hu hr m hm hnone, projectOutboxTable,
      projectOutboxTable, hkey]
  · have hnone : m.proxyFor = none := by simpa using hproxy
    rw [projectModel_reordered inv inv' hv hu hr m hm hnone]

theorem fiber_flatMap {α β κ : Type} [LinearOrder κ] (key : α → κ) (g : β → List α) (l : List β)
    (k : κ) : StableSort.fiber key (l.flatMap g) k =
      l.flatMap fun b => StableSort.fiber key (g b) k := by
  rw [StableSort.fiber, List.filter_flatMap]
  rfl

/-- The indexes of a bucket sort to one list in every order of its models. -/
theorem indexes_reordered (ms ms' : List ModelDescriptor) (hp : ms.Perm ms')
    (hnd : (ms.flatMap tableNames).Nodup) :
    sortBy (fun i : IndexSchema => toLex (i.table, i.name)) (ms'.flatMap modelIndexes) =
      sortBy (fun i : IndexSchema => toLex (i.table, i.name)) (ms.flatMap modelIndexes) := by
  refine StableSort.insertionSort_congr _ _ _ fun k => ?_
  rw [fiber_flatMap, fiber_flatMap]
  refine (StableSort.flatMap_perm_of_one _ ms ms' hp ?_).symm
  have hdisj := (List.nodup_flatMap.mp hnd).2
  refine hdisj.imp fun {m m'} hd => ?_
  by_contra hboth
  rw [not_or] at hboth
  obtain ⟨e, he⟩ := List.exists_mem_of_ne_nil _ hboth.1
  obtain ⟨e', he'⟩ := List.exists_mem_of_ne_nil _ hboth.2
  obtain ⟨hmem, hkey⟩ := List.mem_filter.mp he
  obtain ⟨hmem', hkey'⟩ := List.mem_filter.mp he'
  rw [decide_eq_true_iff] at hkey hkey'
  have htable : e.table = e'.table :=
    congrArg (fun p => (ofLex p).1) (hkey.trans hkey'.symm)
  exact hd (modelIndexes_table m e hmem) (htable ▸ modelIndexes_table m' e' hmem')

/-- **Unambiguous.** All orders of an unambiguous inventory have one projection. -/
theorem projected_reordered (hv : Valid inv) (hu : Unambiguous inv) (hr : Reordered inv inv')
    (generatedAt : String) : inv'.projected generatedAt = inv.projected generatedAt := by
  have hhome := home_reordered inv inv' hr hu.labels
  have hlabels : inv'.maps.labelToApp = inv.maps.labelToApp :=
    (labelToApp_perm _ _ hr.apps hu.labels).symm
  have henums : inv'.enumMap = inv.enumMap :=
    (registry_perm _ _ _ _ hr.enums (agree_of_nodup _ _ _ hv.enums)).symm
  have hbuckets : appBuckets inv'.maps = appBuckets inv.maps := by
    rw [appBuckets, appBuckets, hlabels]
  rw [Inventory.projected, Inventory.projected, hbuckets]
  refine congrArg _ (List.map_congr_left fun bucket hb => ?_)
  have hperm := modelsIn_perm inv inv' hr hhome bucket
  have hnd := hv.names bucket hb
  have hpairs : (inv'.modelsIn bucket).flatMap (tablePairs inv'.maps) =
      (inv'.modelsIn bucket).flatMap (tablePairs inv.maps) := by
    refine List.flatMap_congr fun m hm => ?_
    exact tablePairs_reordered inv inv' hv hu hr m
      (hr.models.mem_iff.mpr (List.mem_of_mem_filter hm))
  have htables : (bucketTables inv'.maps (inv'.modelsIn bucket)).tables =
      (bucketTables inv.maps (inv.modelsIn bucket)).tables := by
    rw [bucketTables, bucketTables, hpairs, ← registry_pairs, ← registry_pairs]
    refine (registry_perm _ _ _ _ (hperm.flatMap_right _) (agree_of_nodup _ _ _ ?_)).symm
    rw [List.map_flatMap]
    simpa only [tablePairs_keys] using hnd
  have hindexes := indexes_reordered _ _ hperm hnd
  rw [Prod.mk.injEq, and_iff_right rfl, bucketSchema, bucketSchema, htables, henums, hlabels]
  congr 1

end Orders

/-! ## Checks that show the family of a key -/

theorem trimChars_head (c : Char) (cs : List Char) (h : isWhitespace c = false) :
    (trimChars (c :: cs)).head? = some c := by
  rw [trimChars, List.dropWhile_cons, if_neg (by simp [h]), List.reverse_cons,
    List.dropWhile_append]
  split_ifs
  · simp [h]
  · simp

theorem trimText_combine (o o' x : Option String)
    (h : combineCheckExpressions o x = combineCheckExpressions o' x) :
    o.map trimText = o'.map trimText := by
  have hlen : ∀ t s : String, "(" ++ t ++ ") AND (" ++ s ++ ")" ≠ s := by
    intro t s heq
    have hlen := congrArg String.length heq
    simp only [String.length_append] at hlen
    have hone : (")" : String).length = 1 := rfl
    omega
  cases x with
  | none => cases o <;> cases o' <;> simp_all [combineCheckExpressions]
  | some x =>
    cases o with
    | none =>
      cases o' with
      | none => rfl
      | some t => exact absurd (Option.some.inj h).symm (hlen _ _)
    | some t =>
      cases o' with
      | none => exact absurd (Option.some.inj h) (hlen _ _)
      | some t' =>
        have heq : "(" ++ trimText t ++ ") AND (" ++ trimText x ++ ")" =
          "(" ++ trimText t' ++ ") AND (" ++ trimText x ++ ")" := Option.some.inj h
        simp only [String.append_left_inj, String.append_right_inj] at heq
        rw [Option.map_some, Option.map_some, heq]

theorem trimText_head (s : String) (c : Char) (hs : s.toList.head? = some c)
    (h : isWhitespace c = false) : (trimText s).toList.head? = some c := by
  obtain ⟨cs, hcs⟩ := List.head?_eq_some_iff.mp hs
  rw [trimText, String.toList_ofList, hcs, trimChars_head c cs h]

/-- The first character of a check of the family. -/
theorem strictIdCheck_head (family : StrictIdFamily) (column : String) :
    (strictIdCheckExpr family column).map (fun t : String => t.toList.head?) =
      match family with
      | .heerId => some (some '"')
      | .ranjId => some (some 'p')
      | .none => none := by
  cases family with
  | heerId => simp [strictIdCheckExpr, quoteIdent, quoteBytes]
  | ranjId =>
    rw [strictIdCheckExpr, Option.map_some]
    simp only [String.append_assoc, String.toList_append]
    rfl
  | none => rfl

theorem strictIdCheck_trimmed (family : StrictIdFamily) (column : String) :
    (((strictIdCheckExpr family column).map trimText).map trimText).map
        (fun t : String => t.toList.head?) =
      (strictIdCheckExpr family column).map fun t : String => t.toList.head? := by
  have hhead := strictIdCheck_head family column
  cases hcheck : strictIdCheckExpr family column with
  | none => rfl
  | some t =>
    rw [hcheck] at hhead
    simp only [Option.map_some, Option.some.injEq]
    cases family with
    | heerId =>
      have ht : t.toList.head? = _ := Option.some.inj hhead
      rw [ht, trimText_head _ _ (trimText_head t _ ht rfl) rfl]
    | ranjId =>
      have ht : t.toList.head? = _ := Option.some.inj hhead
      rw [ht, trimText_head _ _ (trimText_head t _ ht rfl) rfl]
    | none => cases hhead

/-- The check of a column shows the family. -/
theorem strictIdCheck_inj (column : String) (x : Option String) (a b : StrictIdFamily)
    (h : combineCheckExpressions (combineCheckExpressions none (strictIdCheckExpr a column)) x =
      combineCheckExpressions (combineCheckExpressions none (strictIdCheckExpr b column)) x) :
    a = b := by
  have hnone : ∀ o : Option String, combineCheckExpressions none o = o.map trimText := by
    intro o
    cases o <;> rfl
  rw [hnone, hnone] at h
  have hheads := congrArg (Option.map fun t : String => t.toList.head?) (trimText_combine _ _ _ h)
  rw [strictIdCheck_trimmed, strictIdCheck_trimmed, strictIdCheck_head,
    strictIdCheck_head] at hheads
  cases a <;> cases b <;> first | rfl | simp at hheads

/-! ## Orders that show what is ambiguous -/

section Shown

variable (inv : Inventory)

/-- The chosen models come last. -/
def withModelsLast (chosen : ModelDescriptor → Bool) : Inventory :=
  { inv with models := arrange chosen inv.models }

def withAppLast (app : AppDescriptor) : Inventory :=
  { inv with apps := arrange (fun a => a == app) inv.apps }

theorem reordered_modelsLast (chosen : ModelDescriptor → Bool) :
    Reordered inv (withModelsLast inv chosen) :=
  ⟨arrange_perm chosen inv.models, .refl _, .refl _, .refl _⟩

theorem reordered_appLast (app : AppDescriptor) : Reordered inv (withAppLast inv app) :=
  ⟨.refl _, .refl _, arrange_perm _ inv.apps, .refl _⟩

theorem appLast_get (app : AppDescriptor) (happ : app ∈ inv.apps) :
    (withAppLast inv app).maps.labelToApp.get app.label = some app := by
  show (labelToApp (arrange (fun a => a == app) inv.apps)).get app.label = some app
  have hagree : Agree AppDescriptor.label id (inv.apps.filter fun a => a == app) := by
    intro a ha b hb _
    have ha' : a = app := by simpa using (List.mem_filter.mp ha).2
    have hb' : b = app := by simpa using (List.mem_filter.mp hb).2
    rw [ha', hb']
  rw [labelToApp_get, registry_arrange _ _ _ _ hagree app happ (beq_self_eq_true app)]
  rfl

/-- Each app of a label gives its database to the label in some order. -/
theorem labels_of_orderFree (generatedAt : String)
    (h : ∀ inv', Reordered inv inv' →
      inv'.projected generatedAt = inv.projected generatedAt) :
    Agree AppDescriptor.label AppDescriptor.database inv.apps := by
  intro a ha b hb hlabel
  have hbucket : a.bucket ∈ (inv.projected generatedAt).keys := by
    rw [← h _ (reordered_appLast inv a), projected_keys, mem_appBuckets]
    exact ⟨a.label, a, appLast_get inv a ha, rfl⟩
  rw [← h _ (reordered_appLast inv b), projected_keys, mem_appBuckets] at hbucket
  obtain ⟨label, app, hget, heq⟩ := hbucket
  have hname : app.label = label := labelToApp_label _ label app hget
  obtain ⟨hdb, happ⟩ := BucketKey.mk.inj heq
  rw [← hname, happ, hlabel, appLast_get inv b hb] at hget
  rw [← hdb, ← Option.some.inj hget]

/-! ### Targets -/

/-- From a type that does not lead to the database, some model of the type goes wrong: its parent
is not registered or goes wrong itself, or the model is in another database. -/
theorem wrong_of_not_leads (database t : String)
    (h : ¬Leads inv.models inv.home database t) :
    (∃ m ∈ inv.models, m.typeName = t ∧ ∃ u, m.proxyFor = some u ∧
      (Registered inv.models u → ¬Leads inv.models inv.home database u)) ∨
    ((∀ u, ¬ProxyStep inv.models t u) ∧
      ∃ m ∈ inv.models, m.typeName = t ∧ (inv.home m).database ≠ database) := by
  by_contra hcon
  rw [not_or] at hcon
  obtain ⟨hproxy, hhome⟩ := hcon
  have hgood : ∀ u, ProxyStep inv.models t u →
      Registered inv.models u ∧ Leads inv.models inv.home database u := by
    rintro u ⟨m, hm, hname, hparent⟩
    by_contra hbad
    exact hproxy ⟨m, hm, hname, u, hparent, fun hreg hleads => hbad ⟨hreg, hleads⟩⟩
  refine h ⟨t, fun u hu => (hgood u hu).1, fun u hu => (hgood u hu).2, fun hend m hm hname => ?_⟩
  by_contra hne
  exact hhome ⟨hend, m, hm, hname, hne⟩

open Classical in
/-- The model that goes wrong. -/
noncomputable def wrongModel (database t : String) : Option ModelDescriptor :=
  if h : ∃ m ∈ inv.models, m.typeName = t ∧ ∃ u, m.proxyFor = some u ∧
      (Registered inv.models u → ¬Leads inv.models inv.home database u) then some h.choose
  else if h : ∃ m ∈ inv.models, m.typeName = t ∧ (inv.home m).database ≠ database then
    some h.choose
  else none

open Classical in
/-- Exactly the models that go wrong, one for each type. -/
noncomputable def wrong (database : String) (m : ModelDescriptor) : Bool :=
  decide (wrongModel inv database m.typeName = some m)

theorem wrong_iff (database : String) (m : ModelDescriptor) :
    wrong inv database m = true ↔ wrongModel inv database m.typeName = some m := by
  classical
  exact decide_eq_true_iff

theorem wrong_agree {ν : Type} (val : ModelDescriptor → ν) (database : String) :
    Agree ModelDescriptor.typeName val (inv.models.filter (wrong inv database)) := by
  intro a ha b hb hkey
  have ha' := (wrong_iff inv database a).mp (List.mem_filter.mp ha).2
  have hb' := (wrong_iff inv database b).mp (List.mem_filter.mp hb).2
  rw [hkey, hb'] at ha'
  rw [Option.some.inj ha']

/-- A wrong proxy wins when the wrong models come last. -/
theorem wrong_proxy (database t : String)
    (h : ∃ m ∈ inv.models, m.typeName = t ∧ ∃ u, m.proxyFor = some u ∧
      (Registered inv.models u → ¬Leads inv.models inv.home database u)) :
    ∃ u, (withModelsLast inv (wrong inv database)).maps.typeToProxyFor.get t = some u ∧
      (Registered inv.models u → ¬Leads inv.models inv.home database u) := by
  obtain ⟨hmem, hname, u, hparent, hbad⟩ := h.choose_spec
  have hwrong : wrong inv database h.choose = true := by
    rw [wrong_iff, hname, wrongModel, dif_pos h]
  refine ⟨u, ?_, hbad⟩
  let parents : List ModelDescriptor → List (String × String) := fun ms =>
    ms.filterMap fun m => m.proxyFor.map fun parent => (m.typeName, parent)
  have hagree : Agree Prod.fst Prod.snd (parents (inv.models.filter (wrong inv database))) := by
    intro a ha b hb hkey
    obtain ⟨ma, hma, hpa⟩ := List.mem_filterMap.mp ha
    obtain ⟨mb, hmb, hpb⟩ := List.mem_filterMap.mp hb
    obtain ⟨pa, hparenta, rfl⟩ := Option.map_eq_some_iff.mp hpa
    obtain ⟨pb, hparentb, rfl⟩ := Option.map_eq_some_iff.mp hpb
    have hval := wrong_agree inv ModelDescriptor.proxyFor database ma hma mb hmb hkey
    rw [hparenta, hparentb] at hval
    exact Option.some.inj hval
  have hlast : (t, u) ∈ parents (inv.models.filter (wrong inv database)) := by
    refine List.mem_filterMap.mpr ⟨h.choose, List.mem_filter.mpr ⟨hmem, hwrong⟩, ?_⟩
    rw [hparent, Option.map_some, hname]
  have hget := registry_append Prod.fst Prod.snd
    (parents (inv.models.filter fun m => !wrong inv database m)) _ (t, u) hagree hlast
  rw [registry_pairs, ← List.filterMap_append] at hget
  exact hget

/-- A wrong model without a parent gives its bucket to the type. -/
theorem wrong_home (database t : String) (hend : ∀ u, ¬ProxyStep inv.models t u)
    (h : ∃ m ∈ inv.models, m.typeName = t ∧ (inv.home m).database ≠ database) :
    (withModelsLast inv (wrong inv database)).maps.typeToProxyFor.get t = none ∧
      ∃ bucket, (withModelsLast inv (wrong inv database)).maps.typeToBucket.get t = some bucket ∧
        bucket.database ≠ database := by
  have hp := arrange_perm (wrong inv database) inv.models
  constructor
  · rw [Option.eq_none_iff_forall_ne_some]
    intro u hu
    obtain ⟨m, hm, hname, hparent⟩ := typeToProxyFor_some _ t u hu
    exact hend u ⟨m, hp.mem_iff.mpr hm, hname, hparent⟩
  · obtain ⟨hmem, hname, hne⟩ := h.choose_spec
    have hwrong : wrong inv database h.choose = true := by
      rw [wrong_iff, hname, wrongModel, dif_neg, dif_pos h]
      rintro ⟨m, hm, hname', u, hparent, -⟩
      exact hend u ⟨m, hm, hname', hparent⟩
    refine ⟨inv.home h.choose, ?_, hne⟩
    have hget := registry_arrange ModelDescriptor.typeName inv.home (wrong inv database) inv.models
      (wrong_agree inv inv.home database) h.choose hmem hwrong
    rw [hname] at hget
    rw [typeToBucket_eq]
    exact hget

/-- When the wrong models come last, the walk from a type that does not lead to the database is
refused. -/
theorem walk_wrong (database : String) (fuel : Nat) (t : String)
    (h : ¬Leads inv.models inv.home database t) :
    (∃ p q, walkProxies (withModelsLast inv (wrong inv database)).maps fuel t =
        .parentNotRegistered p q) ∨
      walkProxies (withModelsLast inv (wrong inv database)).maps fuel t = .cycle ∨
      ∃ u bucket, walkProxies (withModelsLast inv (wrong inv database)).maps fuel t = .found u ∧
        (withModelsLast inv (wrong inv database)).maps.typeToBucket.get u = some bucket ∧
        bucket.database ≠ database := by
  have hregistered : ∀ u,
      (withModelsLast inv (wrong inv database)).maps.typeToBucket.contains u = true ↔
        Registered inv.models u := by
    intro u
    rw [typeToBucket_contains_iff]
    have hp := arrange_perm (wrong inv database) inv.models
    exact ⟨fun ⟨m, hm, hn⟩ => ⟨m, hp.mem_iff.mpr hm, hn⟩,
      fun ⟨m, hm, hn⟩ => ⟨m, hp.mem_iff.mp hm, hn⟩⟩
  induction fuel generalizing t with
  | zero =>
    rw [walkProxies]
    rcases wrong_of_not_leads inv database t h with hproxy | ⟨hend, hhome⟩
    · obtain ⟨u, hget, -⟩ := wrong_proxy inv database t hproxy
      rw [hget]
      simp only
      split_ifs
      · exact .inr (.inl rfl)
      · exact .inl ⟨t, u, rfl⟩
    · obtain ⟨hnone, bucket, hbucket, hne⟩ := wrong_home inv database t hend hhome
      rw [hnone]
      exact .inr (.inr ⟨t, bucket, rfl, hbucket, hne⟩)
  | succ n ih =>
    rw [walkProxies]
    rcases wrong_of_not_leads inv database t h with hproxy | ⟨hend, hhome⟩
    · obtain ⟨u, hget, hbad⟩ := wrong_proxy inv database t hproxy
      rw [hget]
      simp only
      split_ifs with hcontains
      · exact ih u (hbad ((hregistered u).mp hcontains))
      · exact .inl ⟨t, u, rfl⟩
    · obtain ⟨hnone, bucket, hbucket, hne⟩ := wrong_home inv database t hend hhome
      rw [hnone]
      exact .inr (.inr ⟨t, bucket, rfl, hbucket, hne⟩)

/-- A target that does not lead to the database of its source is refused in some order. -/
theorem targets_of_valid (h : ∀ inv', Reordered inv inv' → Valid inv') (m : ModelDescriptor)
    (hm : m ∈ inv.models) (hproxy : m.proxyFor = none) (f : FieldDescriptor) (hf : f ∈ m.fields)
    (t : String) (ht : f.target = some t) :
    Leads inv.models inv.home (inv.home m).database t := by
  by_contra hleads
  have hv := h _ (reordered_modelsLast inv (wrong inv (inv.home m).database))
  have hplaced : (inv.home m, m) ∈
      (withModelsLast inv (wrong inv (inv.home m).database)).placed :=
    List.mem_map.mpr ⟨m, (arrange_perm _ inv.models).mem_iff.mp hm, rfl⟩
  have hcheck := hv.foreignKeys _ hplaced
  rw [checkForeignKeys, if_neg (by simp [hproxy]), Fallible.forM_ok_iff] at hcheck
  have hfield := hcheck f hf
  rw [checkField, ht] at hfield
  simp only [checkFieldTarget] at hfield
  rcases walk_wrong inv (inv.home m).database
    (withModelsLast inv (wrong inv (inv.home m).database)).models.length t hleads with
    ⟨p, q, hwalk⟩ | hwalk | ⟨u, bucket, hwalk, hbucket, hne⟩
  · rw [hwalk] at hfield
    cases hfield
  · rw [hwalk] at hfield
    cases hfield
  · rw [hwalk] at hfield
    simp only [hbucket, if_neg hne] at hfield
    cases hfield

/-! ### Keys -/

theorem projected_pair (hv : Valid inv) (generatedAt : String) (m : ModelDescriptor)
    (hm : m ∈ inv.models) (e : String × TableSchema) (he : e ∈ tablePairs inv.maps m) :
    ∃ s, (inv.projected generatedAt).get (inv.home m) = some s ∧
      s.models.get e.1 = some e.2 := by
  have hbucket := bucketOf_mem inv hv m hm
  refine ⟨_, (projected_get_iff inv generatedAt _ _).mpr ⟨hbucket, rfl⟩, ?_⟩
  refine (bucketTables_get_iff inv.maps _ (hv.names _ hbucket) e.1 e.2).mpr ⟨m, ?_, he⟩
  exact List.mem_filter.mpr ⟨hm, by simp⟩

theorem projectColumn_keys (lk lk' : Lookups) (m : ModelDescriptor) (f : FieldDescriptor)
    (t : String) (ht : f.target = some t) (a b : PkType)
    (hsql : lk.typeToPkSql.get t = some (pkSqlTypeText a))
    (hsql' : lk'.typeToPkSql.get t = some (pkSqlTypeText b))
    (hfam : lk.typeToPkFamily.get t = some (strictIdFamilyOfPk a))
    (hfam' : lk'.typeToPkFamily.get t = some (strictIdFamilyOfPk b))
    (h : projectColumn lk m f = projectColumn lk' m f) :
    pkSqlTypeText a = pkSqlTypeText b ∧
      (f.strictIdCheck = true → strictIdFamilyOfPk a = strictIdFamilyOfPk b) := by
  have htarget : f.relationKind.isSome = true ∧ f.targetTypeName = some t := by
    obtain ⟨kind, hkind, htype⟩ := Option.bind_eq_some_iff.mp ht
    exact ⟨by rw [hkind]; rfl, htype⟩
  constructor
  · have hcolumn : fieldSqlType lk f = fieldSqlType lk' f := congrArg ColumnSchema.sqlType h
    rwa [fieldSqlType, fieldSqlType, ht, Option.bind_some, Option.bind_some, hsql, hsql'] at hcolumn
  · intro hstrict
    have hcheck : fieldCheck lk f m = fieldCheck lk' f m := congrArg ColumnSchema.check h
    have hfamily : ∀ lk : Lookups, ∀ p : PkType,
        lk.typeToPkFamily.get t = some (strictIdFamilyOfPk p) →
        fieldFamily lk f m = strictIdFamilyOfPk p := by
      intro lk p hp
      rw [fieldFamily, if_pos htarget.1, htarget.2, Option.bind_some, hp, Option.getD_some]
    simp only [fieldCheck, ht, Option.isSome_some, if_true, hstrict, hfamily lk a hfam,
      hfamily lk' b hfam'] at hcheck
    exact strictIdCheck_inj f.name f.checkSql _ _ hcheck

open Classical in
noncomputable def withModelLast (a : ModelDescriptor) : Inventory :=
  withModelsLast inv fun m => decide (m = a)

theorem reordered_modelLast (a : ModelDescriptor) : Reordered inv (withModelLast inv a) :=
  reordered_modelsLast inv _

theorem modelLast_get {ν : Type} (val : ModelDescriptor → ν) (a : ModelDescriptor)
    (ha : a ∈ inv.models) :
    (registry ModelDescriptor.typeName val (withModelLast inv a).models).get a.typeName =
      some (val a) := by
  classical
  refine registry_arrange _ _ _ _ ?_ a ha (decide_eq_true rfl)
  intro b hb c hc _
  rw [of_decide_eq_true (List.mem_filter.mp hb).2, of_decide_eq_true (List.mem_filter.mp hc).2]

/-- Two accepted orders with one result project a model the same way. -/
theorem tablePairs_of_orderFree (inv₁ inv₂ : Inventory) (hr : Reordered inv₁ inv₂)
    (hhome : inv₁.home = inv₂.home) (hv₁ : Valid inv₁) (hv₂ : Valid inv₂) (generatedAt : String)
    (h : inv₁.projected generatedAt = inv₂.projected generatedAt) (m : ModelDescriptor)
    (hm : m ∈ inv₁.models) (n : String) (t₁ t₂ : TableSchema)
    (h₁ : (n, t₁) ∈ tablePairs inv₁.maps m) (h₂ : (n, t₂) ∈ tablePairs inv₂.maps m) : t₁ = t₂ := by
  obtain ⟨s₁, hs₁, ht₁⟩ := projected_pair inv₁ hv₁ generatedAt m hm _ h₁
  obtain ⟨s₂, hs₂, ht₂⟩ :=
    projected_pair inv₂ hv₂ generatedAt m (hr.models.mem_iff.mp hm) _ h₂
  rw [h, hhome, hs₂] at hs₁
  rw [Option.some.inj hs₁, ht₁] at ht₂
  exact Option.some.inj ht₂

variable (hv : ∀ inv', Reordered inv inv' → Valid inv') (generatedAt : String)
  (h : ∀ inv', Reordered inv inv' → inv'.projected generatedAt = inv.projected generatedAt)

include hv h

theorem tablePairs_modelLast (a b : ModelDescriptor) (m : ModelDescriptor) (hm : m ∈ inv.models)
    (n : String) (t₁ t₂ : TableSchema) (h₁ : (n, t₁) ∈ tablePairs (withModelLast inv a).maps m)
    (h₂ : (n, t₂) ∈ tablePairs (withModelLast inv b).maps m) : t₁ = t₂ := by
  have hra := reordered_modelLast inv a
  have hrb := reordered_modelLast inv b
  exact tablePairs_of_orderFree _ _ ((hra.symm _ _).trans _ _ _ hrb) rfl (hv _ hra) (hv _ hrb)
    generatedAt ((h _ hra).trans (h _ hrb).symm) m (hra.models.mem_iff.mp hm) n t₁ t₂ h₁ h₂

/-- The keys of two models of one type differ in some order. -/
theorem keys_of_orderFree (m : ModelDescriptor) (hm : m ∈ inv.models) (hproxy : m.proxyFor = none)
    (f : FieldDescriptor) (hf : f ∈ m.fields) (t : String) (ht : f.target = some t)
    (a : ModelDescriptor) (ha : a ∈ inv.models) (b : ModelDescriptor) (hb : b ∈ inv.models)
    (hat : a.typeName = t) (hbt : b.typeName = t) :
    pkSqlTypeText a.pkType = pkSqlTypeText b.pkType ∧
      (f.strictIdCheck = true → strictIdFamilyOfPk a.pkType = strictIdFamilyOfPk b.pkType) := by
  have hpair : ∀ lk : Lookups, (m.tableName, projectModel lk m) ∈ tablePairs lk m := by
    intro lk
    rw [tablePairs, if_neg (by simp [hproxy])]
    exact List.mem_cons_self
  have htable := tablePairs_modelLast inv hv generatedAt h a b m hm _ _ _ (hpair _) (hpair _)
  have hcolumns := List.append_cancel_right (congrArg TableSchema.columns htable)
  have hcolumn := List.map_inj_left.mp hcolumns f hf
  refine projectColumn_keys _ _ m f t ht a.pkType b.pkType ?_ ?_ ?_ ?_ hcolumn
  · exact hat ▸ modelLast_get inv (fun m => pkSqlTypeText m.pkType) a ha
  · exact hbt ▸ modelLast_get inv (fun m => pkSqlTypeText m.pkType) b hb
  · exact hat ▸ modelLast_get inv (fun m => strictIdFamilyOfPk m.pkType) a ha
  · exact hbt ▸ modelLast_get inv (fun m => strictIdFamilyOfPk m.pkType) b hb

theorem outboxes_of_orderFree (m : ModelDescriptor) (hm : m ∈ inv.models)
    (hproxy : m.proxyFor = none) (houtbox : m.hasOutbox = true) (a : ModelDescriptor)
    (ha : a ∈ inv.models) (hat : a.typeName = m.typeName) :
    pkSqlTypeText a.pkType = pkSqlTypeText m.pkType := by
  have hpair : ∀ lk : Lookups,
      (outboxTableName m.tableName, projectOutboxTable lk m) ∈ tablePairs lk m := by
    intro lk
    rw [tablePairs, if_neg (by simp [hproxy]), if_pos houtbox]
    exact List.mem_cons_of_mem _ List.mem_cons_self
  have htable := tablePairs_modelLast inv hv generatedAt h a m m hm _ _ _ (hpair _) (hpair _)
  have hrow := congrArg (fun t : TableSchema => (t.columns.map ColumnSchema.sqlType)[1]?) htable
  have hkey := modelLast_get inv (fun m => pkSqlTypeText m.pkType) a ha
  have hkey' := modelLast_get inv (fun m => pkSqlTypeText m.pkType) m hm
  rw [hat] at hkey
  have hread : ∀ lk : Lookups, ∀ key, lk.typeToPkSql.get m.typeName = some key →
      ((projectOutboxTable lk m).columns.map ColumnSchema.sqlType)[1]? = some key := by
    intro lk key hget
    rw [projectOutboxTable, hget]
    rfl
  rw [hread _ _ hkey, hread _ _ hkey'] at hrow
  exact Option.some.inj hrow

end Shown

/-- **Ambiguous.** Whatever is ambiguous is refused or seen in some order. -/
theorem unambiguous_of_orderFree (inv : Inventory)
    (hv : ∀ inv', Reordered inv inv' → Valid inv') (generatedAt : String)
    (h : ∀ inv', Reordered inv inv' → inv'.projected generatedAt = inv.projected generatedAt) :
    Unambiguous inv where
  labels := labels_of_orderFree inv generatedAt h
  targets m hm hproxy f hf t ht := targets_of_valid inv hv m hm hproxy f hf t ht
  keys m hm hproxy f hf t ht a ha b hb hat hbt :=
    keys_of_orderFree inv hv generatedAt h m hm hproxy f hf t ht a ha b hb hat hbt
  outboxes m hm hproxy houtbox a ha hat :=
    outboxes_of_orderFree inv hv generatedAt h m hm hproxy houtbox a ha hat

theorem unambiguous_reordered (inv inv' : Inventory) (hr : Reordered inv inv')
    (hu : Unambiguous inv) : Unambiguous inv' := by
  have hhome := home_reordered inv inv' hr hu.labels
  have hmem : ∀ m ∈ inv'.models, m ∈ inv.models := fun m hm => hr.models.mem_iff.mpr hm
  refine ⟨hu.labels.perm _ _ _ _ hr.apps, fun m hm hproxy f hf t ht => ?_,
    fun m hm hproxy f hf t ht a ha b hb => ?_, fun m hm hproxy houtbox a ha => ?_⟩
  · rw [hhome]
    exact leads_reordered inv inv' hr.models _ _ t (hu.targets m (hmem m hm) hproxy f hf t ht)
  · exact hu.keys m (hmem m hm) hproxy f hf t ht a (hmem a ha) b (hmem b hb)
  · exact hu.outboxes m (hmem m hm) hproxy houtbox a (hmem a ha)

/-- **Link order.** The projection does not depend on the order exactly when the inventory is
unambiguous or refused in every order. -/
theorem order_free_iff (inv : Inventory) :
    OrderFree inv ↔ Unambiguous inv ∨ ∀ inv', Reordered inv inv' → ¬Valid inv' := by
  constructor
  · intro h
    by_contra hcon
    rw [not_or] at hcon
    obtain ⟨hamb, haccepted⟩ := hcon
    push Not at haccepted
    obtain ⟨inv', hr, hv⟩ := haccepted
    have hsame : ∀ inv'', Reordered inv' inv'' →
        Valid inv'' ∧ inv'.projected "" = inv''.projected "" := by
      intro inv'' hr'
      rw [← project_ok_iff, ← h inv' inv'' hr (hr.trans _ _ _ hr'), project_ok_iff]
      exact ⟨hv, rfl⟩
    refine hamb (unambiguous_reordered inv' inv (hr.symm _ _) ?_)
    exact unambiguous_of_orderFree inv' (fun inv'' hr' => (hsame inv'' hr').1) ""
      fun inv'' hr' => (hsame inv'' hr').2.symm
  · intro h inv₁ inv₂ hr₁ hr₂ generatedAt out
    rw [project_ok_iff, project_ok_iff]
    rcases h with hu | hnone
    · have hu₁ := unambiguous_reordered inv inv₁ hr₁ hu
      have hu₂ := unambiguous_reordered inv inv₂ hr₂ hu
      have hr := (hr₁.symm _ _).trans _ _ _ hr₂
      constructor
      · rintro ⟨hv, rfl⟩
        exact ⟨valid_reordered _ _ hv hu₁ hr,
          (projected_reordered _ _ hv hu₁ hr generatedAt).symm⟩
      · rintro ⟨hv, rfl⟩
        exact ⟨valid_reordered _ _ hv hu₂ (hr.symm _ _),
          (projected_reordered _ _ hv hu₂ (hr.symm _ _) generatedAt).symm⟩
    · exact ⟨fun hok => absurd hok.1 (hnone inv₁ hr₁), fun hok => absurd hok.1 (hnone inv₂ hr₂)⟩

/-- A comment of a post, in the apps that both register a type for posts. -/
def twoPosts : Inventory where
  models := [plainModel "Post" "posts" "blog" .heerId [plainField "id" .bigInt none],
    plainModel "Post" "posts" "shop" .ranjId [plainField "id" .uuid none],
    plainModel "Comment" "comments" "blog" .heerId
      [plainField "id" .bigInt none, plainField "post" .bigInt (some "Post")]]
  enums := []
  apps := [⟨"blog", "main"⟩, ⟨"shop", "main"⟩]
  specs := []

def commentTypes (out : OrdMap BucketKey AppliedSchema) : Option (List String) :=
  ((out.get ⟨"main", "blog"⟩).bind fun s => s.models.get "comments").map fun t =>
    t.columns.map ColumnSchema.sqlType

/-- The foreign key takes its type from the post that comes last. -/
theorem order_matters : ¬∀ inv, OrderFree inv := by
  intro h
  have hr : Reordered twoPosts { twoPosts with models := twoPosts.models.reverse } :=
    ⟨(List.reverse_perm _).symm, .refl _, .refl _, .refl _⟩
  obtain ⟨out, hout, htypes⟩ := Fallible.exists_of_any (projectFromIters twoPosts "")
    (fun out => commentTypes out = some ["BIGINT", "UUID"]) (by decide +kernel)
  obtain ⟨out', hout', htypes'⟩ := Fallible.exists_of_any
    (projectFromIters { twoPosts with models := twoPosts.models.reverse } "")
    (fun out => commentTypes out = some ["BIGINT", "BIGINT"]) (by decide +kernel)
  have hsame := (h _ _ _ (Reordered.refl _) hr "" out).mp hout
  rw [hout', Except.ok.injEq] at hsame
  rw [decide_eq_true_iff] at htypes htypes'
  rw [hsame, htypes] at htypes'
  revert htypes'
  decide

end Djogi

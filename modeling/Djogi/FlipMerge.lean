import Djogi.Lib.Fallible
import Djogi.PkFlipGroup

/-!
# What the merge of flip groups does

* `linked_iff_root_eq`: the clusters are the connected components of the partner
  relation, and each one is named after its smallest parent;
* `merge_parents_perm`: merging moves groups, it neither loses nor copies one;
* `merge_groups_perm`: with distinct parents, the merged groups are the old ones where
  every group but the smallest of its component has lost its partnered entries.
-/

namespace Djogi

/-- Connected through join-table entries that name the other parent as partner. -/
def Linked (groups : List PkTypeFlipGroup) : String → String → Prop :=
  Relation.EqvGen fun a b =>
    ∃ g ∈ groups, g.parentTable = a ∧ ∃ jt ∈ g.joinTables, jt.fkToPartnerTable = some b

/-- Every partner is the parent of some group. -/
def PartnersMigrate (groups : List PkTypeFlipGroup) : Prop :=
  ∀ g ∈ groups, ∀ jt ∈ g.joinTables, ∀ b, jt.fkToPartnerTable = some b →
    b ∈ groups.map PkTypeFlipGroup.parentTable

def clusterForest (groups : List PkTypeFlipGroup) : Forest String :=
  (Forest.ofKeys (groups.map PkTypeFlipGroup.parentTable)).unionAll (peerEdges groups)

/-- The name of the component of a parent: its smallest parent. -/
def clusterRoot (groups : List PkTypeFlipGroup) (x : String) : String :=
  (clusterForest groups).root x

/-! ## Clusters are components -/

theorem mem_peerEdges (groups : List PkTypeFlipGroup) (x y : String) :
    (x, y) ∈ peerEdges groups ↔ ∃ g ∈ groups, ∃ jt ∈ g.joinTables, ∃ b,
      jt.fkToPartnerTable = some b ∧
        ((g.parentTable ≤ b ∧ x = g.parentTable ∧ y = b) ∨
          (¬g.parentTable ≤ b ∧ x = b ∧ y = g.parentTable)) := by
  simp only [peerEdges, List.mem_map, OrdMap.mem_sortedDedup, List.mem_flatMap,
    List.mem_filterMap, Option.map_eq_some_iff]
  constructor
  · rintro ⟨e, ⟨g, hg, jt, hjt, b, hb, rfl⟩, hxy⟩
    refine ⟨g, hg, jt, hjt, b, hb, ?_⟩
    split_ifs at hxy with hle
    · exact .inl ⟨hle, (congrArg Prod.fst hxy).symm, (congrArg Prod.snd hxy).symm⟩
    · exact .inr ⟨hle, (congrArg Prod.fst hxy).symm, (congrArg Prod.snd hxy).symm⟩
  · rintro ⟨g, hg, jt, hjt, b, hb, ⟨hle, rfl, rfl⟩ | ⟨hle, rfl, rfl⟩⟩
    · exact ⟨_, ⟨g, hg, jt, hjt, _, hb, rfl⟩, by rw [if_pos hle]; rfl⟩
    · exact ⟨_, ⟨g, hg, jt, hjt, _, hb, rfl⟩, by rw [if_neg hle]; rfl⟩

private theorem eqvGen_le {α : Type} {r s : α → α → Prop}
    (h : ∀ a b, r a b → Relation.EqvGen s a b) (a b : α) (hab : Relation.EqvGen r a b) :
    Relation.EqvGen s a b := by
  induction hab with
  | rel x y hxy => exact h x y hxy
  | refl x => exact .refl x
  | symm x y _ ih => exact .symm x y ih
  | trans x y z _ _ ih1 ih2 => exact .trans x y z ih1 ih2

theorem linked_iff_root_eq (groups : List PkTypeFlipGroup) (x y : String) :
    Linked groups x y ↔ clusterRoot groups x = clusterRoot groups y := by
  rw [clusterRoot, clusterRoot, clusterForest,
    Forest.root_unionAll_eq_iff _ (Forest.root_ofKeys _)]
  constructor
  · apply eqvGen_le
    rintro a b ⟨g, hg, rfl, jt, hjt, hb⟩
    by_cases hle : g.parentTable ≤ b
    · exact .rel _ _ ((mem_peerEdges groups _ _).mpr
        ⟨g, hg, jt, hjt, b, hb, .inl ⟨hle, rfl, rfl⟩⟩)
    · exact .symm _ _ (.rel _ _ ((mem_peerEdges groups _ _).mpr
        ⟨g, hg, jt, hjt, b, hb, .inr ⟨hle, rfl, rfl⟩⟩))
  · apply eqvGen_le
    intro a b hab
    obtain ⟨g, hg, jt, hjt, c, hc, ⟨-, rfl, rfl⟩ | ⟨-, rfl, rfl⟩⟩ :=
      (mem_peerEdges groups a b).mp hab
    · exact .rel _ _ ⟨g, hg, rfl, jt, hjt, hc⟩
    · exact .symm _ _ (.rel _ _ ⟨g, hg, rfl, jt, hjt, hc⟩)

theorem clusterRoot_le (groups : List PkTypeFlipGroup) (x : String) :
    clusterRoot groups x ≤ x := Forest.root_le _ x

theorem clusterRoot_clusterRoot (groups : List PkTypeFlipGroup) (x : String) :
    clusterRoot groups (clusterRoot groups x) = clusterRoot groups x := Forest.root_root _ x

private theorem linked_mem (groups : List PkTypeFlipGroup) (h : PartnersMigrate groups)
    (x y : String) (hxy : Linked groups x y) :
    x ∈ groups.map PkTypeFlipGroup.parentTable ↔ y ∈ groups.map PkTypeFlipGroup.parentTable := by
  induction hxy with
  | rel a b hab =>
      obtain ⟨g, hg, rfl, jt, hjt, hb⟩ := hab
      exact ⟨fun _ => h g hg jt hjt b hb, fun _ => List.mem_map_of_mem hg⟩
  | refl => exact Iff.rfl
  | symm _ _ _ ih => exact ih.symm
  | trans _ _ _ _ _ ih1 ih2 => exact ih1.trans ih2

/-- The root of a component is itself the parent of a group. -/
theorem exists_root_group (groups : List PkTypeFlipGroup) (h : PartnersMigrate groups)
    (g : PkTypeFlipGroup) (hg : g ∈ groups) :
    ∃ w ∈ groups, w.parentTable = clusterRoot groups g.parentTable := by
  have hlink : Linked groups g.parentTable (clusterRoot groups g.parentTable) :=
    (linked_iff_root_eq groups _ _).mpr (clusterRoot_clusterRoot groups _).symm
  have hmem := (linked_mem groups h _ _ hlink).mp (List.mem_map_of_mem hg)
  obtain ⟨w, hw, hroot⟩ := List.mem_map.mp hmem
  exact ⟨w, hw, hroot⟩

theorem get_collectClusters (f : Forest String) (clusters : OrdMap String (List PkTypeFlipGroup))
    (gs : List PkTypeFlipGroup) (k : String) :
    (collectClusters f clusters gs).get k =
      if gs.filter (fun g => f.root g.parentTable = k) = [] then clusters.get k
      else some ((clusters.get k).getD [] ++ gs.filter fun g => f.root g.parentTable = k) := by
  induction gs generalizing f clusters with
  | nil => simp [collectClusters]
  | cons g gs ih =>
      have hroots : ∀ y, (f.find g.parentTable).1.root y = f.root y := f.find_fst_root _
      rw [collectClusters, ih, f.find_root]
      simp only [hroots, OrdMap.push, OrdMap.get_insert]
      by_cases hk : f.root g.parentTable = k
      · subst hk
        by_cases hnil : gs.filter (fun g' => f.root g'.parentTable = f.root g.parentTable) = []
        · simp [hnil]
        · simp [hnil]
      · simp [hk, Ne.symm hk]

/-- A cluster is the list of all groups of one component, in operation order. -/
theorem mem_values_clusterPkFlipGroups (ops : List SchemaOperation)
    (hedges : peerEdges (ops.filterMap pkTypeFlipGroup?) ≠ []) (k : String)
    (cluster : List PkTypeFlipGroup) :
    (clusterPkFlipGroups ops).get k = some cluster ↔
      cluster ≠ [] ∧ cluster = (ops.filterMap pkTypeFlipGroup?).filter fun g =>
        clusterRoot (ops.filterMap pkTypeFlipGroup?) g.parentTable = k := by
  simp only [clusterPkFlipGroups, List.isEmpty_iff, hedges, if_false]
  rw [get_collectClusters]
  simp only [OrdMap.get_empty, Option.getD_none, List.nil_append]
  split_ifs with h
  · constructor
    · intro hn
      simp at hn
    · rintro ⟨hne, hc⟩
      exact absurd (hc.trans h) hne
  · constructor
    · intro hc
      rw [← Option.some.inj hc]
      exact ⟨h, rfl⟩
    · rintro ⟨-, rfl⟩
      rfl

/-! ## One cluster -/

/-- A group without its partnered entries. -/
def dropPartnered (g : PkTypeFlipGroup) : PkTypeFlipGroup :=
  { g with joinTables := g.joinTables.filter fun jt => !jt.fkToPartnerColumn.isSome }

/-- What becomes of a group: the root of a component keeps all, the others lose their
partnered entries. -/
def keepByRoot (groups : List PkTypeFlipGroup) (g : PkTypeFlipGroup) : PkTypeFlipGroup :=
  if clusterRoot groups g.parentTable = g.parentTable then g else dropPartnered g

@[simp] theorem keepByRoot_parentTable (groups : List PkTypeFlipGroup) (g : PkTypeFlipGroup) :
    (keepByRoot groups g).parentTable = g.parentTable := by
  unfold keepByRoot
  split_ifs <;> rfl

theorem sortBy_perm {α κ : Type} [LinearOrder κ] (key : α → κ) (l : List α) :
    (sortBy key l).Perm l := List.perm_insertionSort _ l

theorem sortBy_sorted {α κ : Type} [LinearOrder κ] (key : α → κ) (l : List α) :
    (sortBy key l).Pairwise fun a b => key a ≤ key b := by
  have : Std.Total fun a b : α => key a ≤ key b := ⟨fun a b => le_total (key a) (key b)⟩
  have : IsTrans α fun a b : α => key a ≤ key b := ⟨fun a b c => le_trans⟩
  exact List.pairwise_insertionSort _ l

private theorem dropCrossFlipping_eq (l : List PkTypeFlipGroup) (g : PkTypeFlipGroup)
    (hg : g ∈ l) : dropCrossFlipping (crossFlippingNames l) g = dropPartnered g := by
  have hfilter : ∀ jt ∈ g.joinTables,
      (!(jt.fkToPartnerColumn.isSome && (crossFlippingNames l).contains jt.table)) =
        !jt.fkToPartnerColumn.isSome := by
    intro jt hjt
    by_cases hp : jt.fkToPartnerColumn.isSome = true
    · have hname : jt.table ∈ crossFlippingNames l :=
        List.mem_flatMap.mpr ⟨g, hg, List.mem_map.mpr
          ⟨jt, List.mem_filter.mpr ⟨hjt, hp⟩, rfl⟩⟩
      simp [hname]
    · simp [hp]
  rw [dropCrossFlipping, dropPartnered, List.filter_congr hfilter]

theorem winnerTakesAll_parents (l : List PkTypeFlipGroup) :
    (winnerTakesAll l).map PkTypeFlipGroup.parentTable = l.map PkTypeFlipGroup.parentTable := by
  cases l with
  | nil => rfl
  | cons w rest => simp [winnerTakesAll, dropCrossFlipping]

/-- On a whole component the winner is the root. -/
private theorem winnerTakesAll_eq_map (groups l : List PkTypeFlipGroup) (r : String)
    (hroot : ∀ g ∈ l, clusterRoot groups g.parentTable = r)
    (hmem : r ∈ l.map PkTypeFlipGroup.parentTable)
    (hnd : (l.map PkTypeFlipGroup.parentTable).Nodup)
    (hsort : l.Pairwise fun a b => a.parentTable ≤ b.parentTable) :
    winnerTakesAll l = l.map (keepByRoot groups) := by
  cases l with
  | nil => rfl
  | cons w rest =>
      obtain ⟨hw, -⟩ := List.pairwise_cons.mp hsort
      have hle : r ≤ w.parentTable := hroot w (by simp) ▸ clusterRoot_le groups w.parentTable
      have hwr : w.parentTable = r := by
        obtain ⟨g, hg, hgr⟩ := List.mem_map.mp hmem
        rcases List.mem_cons.mp hg with rfl | hg
        · exact hgr
        · exact le_antisymm (hgr ▸ hw g hg) hle
      have hrest : ∀ g ∈ rest, g.parentTable ≠ r := by
        intro g hg hgr
        rw [List.map_cons, List.nodup_cons] at hnd
        exact hnd.1 (hwr ▸ hgr ▸ List.mem_map_of_mem hg)
      rw [winnerTakesAll, List.map_cons]
      congr 1
      · rw [keepByRoot, if_pos ((hroot w (by simp)).trans hwr.symm)]
      · refine List.map_congr_left fun g hg => ?_
        have hne : clusterRoot groups g.parentTable ≠ g.parentTable := by
          rw [hroot g (by simp [hg])]
          exact Ne.symm (hrest g hg)
        rw [dropCrossFlipping_eq _ g (by simp [hg]), keepByRoot, if_neg hne]

/-! ## All clusters -/

private theorem isMemberOp_eq (members : List String) (op : SchemaOperation) :
    isMemberOp members op =
      (pkTypeFlipGroup? op).any fun g => members.contains g.parentTable := by
  cases op <;> rfl

private theorem filterMap_filter_any {α β : Type} (f : α → Option β) (p : β → Bool)
    (l : List α) :
    (l.filter fun a => (f a).any p).filterMap f = (l.filterMap f).filter p ∧
      (l.filter fun a => !(f a).any p).filterMap f = (l.filterMap f).filter fun b => !p b := by
  induction l with
  | nil => simp
  | cons a l ih =>
      cases ha : f a with
      | none => simpa [List.filter_cons, ha] using ih
      | some b =>
          by_cases hb : p b = true
          · simpa [List.filter_cons, ha, hb] using ih
          · simpa [List.filter_cons, ha, hb] using ih

private theorem filterMap_isMemberOp (members : List String) (ops : List SchemaOperation) :
    (ops.filter (isMemberOp members)).filterMap pkTypeFlipGroup? =
        (ops.filterMap pkTypeFlipGroup?).filter (fun g => members.contains g.parentTable) ∧
      (ops.filter fun op => !isMemberOp members op).filterMap pkTypeFlipGroup? =
        (ops.filterMap pkTypeFlipGroup?).filter fun g => !members.contains g.parentTable := by
  have h := filterMap_filter_any pkTypeFlipGroup?
    (fun g : PkTypeFlipGroup => members.contains g.parentTable) ops
  simpa only [← isMemberOp_eq] using h

/-- Parents after a merge are those before it, in another order. -/
private theorem mergeClusters_parents (clusters : List (List PkTypeFlipGroup))
    (ops ops' : List SchemaOperation) (multi multi' : List (List PkTypeFlipGroup))
    (h : mergeClusters clusters ops multi = .ok (ops', multi')) :
    ((ops'.filterMap pkTypeFlipGroup? ++ multi'.flatten).map PkTypeFlipGroup.parentTable).Perm
      ((ops.filterMap pkTypeFlipGroup? ++ multi.flatten).map PkTypeFlipGroup.parentTable) := by
  induction clusters generalizing ops multi with
  | nil =>
      simp only [mergeClusters, Except.ok.injEq, Prod.mk.injEq] at h
      rw [h.1, h.2]
  | cons c clusters ih =>
      rw [mergeClusters] at h
      split_ifs at h with hlen
      · exact ih ops multi h
      · simp only at h
        split at h
        · simp at h
        · refine (ih _ _ h).trans ?_
          obtain ⟨hin, hout⟩ := filterMap_isMemberOp (c.map PkTypeFlipGroup.parentTable) ops
          have hsplit := (List.filter_append_perm (fun g : PkTypeFlipGroup =>
            (c.map PkTypeFlipGroup.parentTable).contains g.parentTable)
            (ops.filterMap pkTypeFlipGroup?)).map PkTypeFlipGroup.parentTable
          have hsort := (sortBy_perm PkTypeFlipGroup.parentTable
            ((ops.filter (isMemberOp (c.map PkTypeFlipGroup.parentTable))).filterMap
              pkTypeFlipGroup?)).map PkTypeFlipGroup.parentTable
          rw [List.map_append, ← hin, ← hout] at hsplit
          simp only [List.map_append, List.flatten_append, List.flatten_cons, List.flatten_nil,
            List.append_nil, winnerTakesAll_parents]
          refine List.Perm.trans ?_ (hsplit.append_right _)
          rw [List.perm_iff_count]
          intro a
          have hcount := hsort.count_eq a
          simp only [List.count_append]
          omega

/-- What the merge loop still has to do: every remaining cluster is complete among the
remaining groups, and every remaining group is a root or sits in a remaining cluster. -/
private structure MergeInv (groups : List PkTypeFlipGroup)
    (clusters : List (List PkTypeFlipGroup)) (rest : List PkTypeFlipGroup) : Prop where
  whole : ∀ c ∈ clusters, 2 ≤ c.length →
    rest.filter (fun g => (c.map PkTypeFlipGroup.parentTable).contains g.parentTable) = c
  disjoint : clusters.Pairwise fun c d =>
    ∀ g ∈ c, ∀ h ∈ d, g.parentTable ≠ h.parentTable
  component : ∀ c ∈ clusters, ∃ r, ∀ g ∈ c, clusterRoot groups g.parentTable = r
  rooted : ∀ c ∈ clusters, ∀ g ∈ c, clusterRoot groups g.parentTable ∈
    c.map PkTypeFlipGroup.parentTable
  covered : ∀ g ∈ rest, clusterRoot groups g.parentTable = g.parentTable ∨
    ∃ c ∈ clusters, 2 ≤ c.length ∧ g ∈ c

private theorem MergeInv.skip (groups : List PkTypeFlipGroup) (c : List PkTypeFlipGroup)
    (clusters : List (List PkTypeFlipGroup)) (rest : List PkTypeFlipGroup)
    (h : MergeInv groups (c :: clusters) rest) (hlen : c.length < 2) :
    MergeInv groups clusters rest where
  whole d hd := h.whole d (List.mem_cons_of_mem _ hd)
  disjoint := (List.pairwise_cons.mp h.disjoint).2
  component d hd := h.component d (List.mem_cons_of_mem _ hd)
  rooted d hd := h.rooted d (List.mem_cons_of_mem _ hd)
  covered g hg := by
    rcases h.covered g hg with hr | ⟨d, hd, hlen', hgd⟩
    · exact .inl hr
    · rcases List.mem_cons.mp hd with rfl | hd
      · omega
      · exact .inr ⟨d, hd, hlen', hgd⟩

private theorem MergeInv.take (groups : List PkTypeFlipGroup) (c : List PkTypeFlipGroup)
    (clusters : List (List PkTypeFlipGroup)) (rest : List PkTypeFlipGroup)
    (h : MergeInv groups (c :: clusters) rest) :
    MergeInv groups clusters (rest.filter fun g =>
      !(c.map PkTypeFlipGroup.parentTable).contains g.parentTable) where
  whole d hd hlen := by
    have hdisj := (List.pairwise_cons.mp h.disjoint).1 d hd
    have hwhole := h.whole d (List.mem_cons_of_mem _ hd) hlen
    rw [List.filter_filter]
    conv_rhs => rw [← hwhole]
    refine List.filter_congr fun g _ => ?_
    by_cases hgd : (d.map PkTypeFlipGroup.parentTable).contains g.parentTable = true
    · have hgc : (c.map PkTypeFlipGroup.parentTable).contains g.parentTable = false := by
        rw [Bool.eq_false_iff]
        intro hgc
        obtain ⟨a, ha, hag⟩ := List.mem_map.mp (List.contains_iff_mem.mp hgc)
        obtain ⟨b, hb, hbg⟩ := List.mem_map.mp (List.contains_iff_mem.mp hgd)
        exact hdisj a ha b hb (hag.trans hbg.symm)
      rw [hgd, hgc]
      rfl
    · rw [Bool.not_eq_true] at hgd
      rw [hgd, Bool.false_and]
  disjoint := (List.pairwise_cons.mp h.disjoint).2
  component d hd := h.component d (List.mem_cons_of_mem _ hd)
  rooted d hd := h.rooted d (List.mem_cons_of_mem _ hd)
  covered g hg := by
    obtain ⟨hgr, hgc⟩ := List.mem_filter.mp hg
    rcases h.covered g hgr with hr | ⟨d, hd, hlen', hgd⟩
    · exact .inl hr
    · rcases List.mem_cons.mp hd with rfl | hd
      · have hmem : g.parentTable ∈ d.map PkTypeFlipGroup.parentTable := List.mem_map_of_mem hgd
        simp [hmem] at hgc
      · exact .inr ⟨d, hd, hlen', hgd⟩

/-- **Merge loop.** From a state that meets the invariant, the loop applies `keepByRoot`
to every remaining group. -/
private theorem mergeClusters_perm (groups : List PkTypeFlipGroup)
    (clusters : List (List PkTypeFlipGroup)) (ops ops' : List SchemaOperation)
    (multi multi' : List (List PkTypeFlipGroup))
    (hnd : ((ops.filterMap pkTypeFlipGroup?).map PkTypeFlipGroup.parentTable).Nodup)
    (hinv : MergeInv groups clusters (ops.filterMap pkTypeFlipGroup?))
    (h : mergeClusters clusters ops multi = .ok (ops', multi')) :
    (ops'.filterMap pkTypeFlipGroup? ++ multi'.flatten).Perm
      ((ops.filterMap pkTypeFlipGroup?).map (keepByRoot groups) ++ multi.flatten) := by
  induction clusters generalizing ops multi with
  | nil =>
      simp only [mergeClusters, Except.ok.injEq, Prod.mk.injEq] at h
      have hkeep : (ops.filterMap pkTypeFlipGroup?).map (keepByRoot groups) =
          ops.filterMap pkTypeFlipGroup? := by
        rw [List.map_congr_left (g := id), List.map_id]
        intro g hg
        rcases hinv.covered g hg with hr | ⟨c, hc, -⟩
        · rw [keepByRoot, if_pos hr, id]
        · simp at hc
      rw [hkeep, h.1, h.2]
  | cons c clusters ih =>
      rw [mergeClusters] at h
      split_ifs at h with hlen
      · exact ih ops multi hnd (hinv.skip groups c clusters _ hlen) h
      · simp only at h
        split at h
        · simp at h
        · obtain ⟨hin, hout⟩ := filterMap_isMemberOp (c.map PkTypeFlipGroup.parentTable) ops
          have hwhole := hinv.whole c (by simp) (by omega)
          rw [hwhole] at hin
          obtain ⟨r, hr⟩ := hinv.component c (by simp)
          have hcnd : (c.map PkTypeFlipGroup.parentTable).Nodup := by
            rw [← hwhole]
            exact hnd.sublist (List.filter_sublist.map _)
          have hperm := sortBy_perm PkTypeFlipGroup.parentTable c
          have hwin : winnerTakesAll (sortBy PkTypeFlipGroup.parentTable c) =
              (sortBy PkTypeFlipGroup.parentTable c).map (keepByRoot groups) := by
            apply winnerTakesAll_eq_map groups _ r
            · exact fun g hg => hr g (hperm.mem_iff.mp hg)
            · obtain ⟨g, hg⟩ := List.exists_mem_of_length_pos (l := c) (by omega)
              have hroot := hinv.rooted c (by simp) g hg
              rw [hr g hg] at hroot
              exact (hperm.map _).mem_iff.mpr hroot
            · exact (hperm.map _).nodup_iff.mpr hcnd
            · exact sortBy_sorted _ c
          rw [hin, hwin] at h
          have hrec := ih _ _ (by rw [hout]; exact hnd.sublist (List.filter_sublist.map _))
            (by rw [hout]; exact hinv.take groups c clusters _) h
          refine hrec.trans ?_
          have hsplit := (List.filter_append_perm (fun g : PkTypeFlipGroup =>
            (c.map PkTypeFlipGroup.parentTable).contains g.parentTable)
            (ops.filterMap pkTypeFlipGroup?)).map (keepByRoot groups)
          rw [hwhole, List.map_append] at hsplit
          rw [hout, List.perm_iff_count]
          intro a
          have h1 := hsplit.count_eq a
          have h2 := (hperm.map (keepByRoot groups)).count_eq a
          simp only [List.count_append, List.flatten_append, List.flatten_cons,
            List.flatten_nil, List.append_nil] at h1 h2 ⊢
          omega

/-! ## The whole merge -/

private theorem clusterRoot_of_no_edges (groups : List PkTypeFlipGroup)
    (h : peerEdges groups = []) (x : String) : clusterRoot groups x = x := by
  rw [clusterRoot, clusterForest, h]
  exact Forest.root_ofKeys _ x

private theorem mergeInv_clusters (ops : List SchemaOperation) (groups : List PkTypeFlipGroup)
    (hgroups : ops.filterMap pkTypeFlipGroup? = groups) (hpart : PartnersMigrate groups) :
    MergeInv groups (clusterPkFlipGroups ops).values groups := by
  by_cases hedges : peerEdges groups = []
  · have hempty : clusterPkFlipGroups ops = .empty := by
      simp [clusterPkFlipGroups, hgroups, hedges]
    rw [hempty, OrdMap.values_empty]
    exact ⟨by simp, .nil, by simp, by simp,
      fun g _ => .inl (clusterRoot_of_no_edges groups hedges _)⟩
  · have hget : ∀ k c, (clusterPkFlipGroups ops).get k = some c ↔
        c ≠ [] ∧ c = groups.filter fun g => clusterRoot groups g.parentTable = k := by
      intro k c
      rw [mem_values_clusterPkFlipGroups ops (hgroups ▸ hedges), hgroups]
    have hroot : ∀ k c, (clusterPkFlipGroups ops).get k = some c → ∀ g ∈ groups,
        g ∈ c ↔ clusterRoot groups g.parentTable = k := by
      intro k c hc g hg
      rw [((hget k c).mp hc).2]
      simp [hg]
    have hsub : ∀ k c, (clusterPkFlipGroups ops).get k = some c → ∀ g ∈ c, g ∈ groups := by
      intro k c hc g hg
      rw [((hget k c).mp hc).2] at hg
      exact (List.mem_filter.mp hg).1
    refine ⟨?_, ?_, ?_, ?_, ?_⟩
    · intro c hc _
      obtain ⟨k, hk⟩ := (OrdMap.mem_values_iff _ _).mp hc
      conv_rhs => rw [((hget k c).mp hk).2]
      refine List.filter_congr fun g hg => ?_
      rw [Bool.eq_iff_iff, List.contains_iff_mem, decide_eq_true_iff, ← hroot k c hk g hg]
      constructor
      · intro hmem
        obtain ⟨a, ha, hag⟩ := List.mem_map.mp hmem
        rw [hroot k c hk g hg, ← hag]
        exact (hroot k c hk a (hsub k c hk a ha)).mp ha
      · exact List.mem_map_of_mem
    · refine List.pairwise_map.mpr ((clusterPkFlipGroups ops).sorted.imp_of_mem ?_)
      rintro ⟨k, c⟩ ⟨k', d⟩ hc hd hlt g hg h hh heq
      have hkc := (OrdMap.mem_entries_iff _ _ _).mp hc
      have hkd := (OrdMap.mem_entries_iff _ _ _).mp hd
      have h1 := (hroot k c hkc g (hsub k c hkc g hg)).mp hg
      have h2 := (hroot k' d hkd h (hsub k' d hkd h hh)).mp hh
      rw [heq, h2] at h1
      exact absurd h1.symm (ne_of_lt hlt)
    · intro c hc
      obtain ⟨k, hk⟩ := (OrdMap.mem_values_iff _ _).mp hc
      exact ⟨k, fun g hg => (hroot k c hk g (hsub k c hk g hg)).mp hg⟩
    · intro c hc g hg
      obtain ⟨k, hk⟩ := (OrdMap.mem_values_iff _ _).mp hc
      have hgr := hsub k c hk g hg
      obtain ⟨w, hw, hwr⟩ := exists_root_group groups hpart g hgr
      have hwc : w ∈ c := by
        rw [hroot k c hk w hw, hwr, clusterRoot_clusterRoot]
        exact (hroot k c hk g hgr).mp hg
      exact hwr ▸ List.mem_map_of_mem hwc
    · intro g hg
      obtain ⟨c, hc⟩ : ∃ c, (clusterPkFlipGroups ops).get
          (clusterRoot groups g.parentTable) = some c := by
        refine ⟨_, (hget _ _).mpr ⟨?_, rfl⟩⟩
        exact List.ne_nil_of_mem (List.mem_filter.mpr ⟨hg, by simp⟩)
      by_cases hlen : 2 ≤ c.length
      · exact .inr ⟨c, (OrdMap.mem_values_iff _ _).mpr ⟨_, hc⟩, hlen, (hroot _ c hc g hg).mpr rfl⟩
      · -- a lone member is its own root, since the root is a member too
        obtain ⟨w, hw, hwr⟩ := exists_root_group groups hpart g hg
        have hwc : w ∈ c := by rw [hroot _ c hc w hw, hwr, clusterRoot_clusterRoot]
        have hgc : g ∈ c := (hroot _ c hc g hg).mpr rfl
        have hone : c.length = 1 := by
          have := List.length_pos_of_mem hgc
          omega
        obtain ⟨a, ha⟩ := List.length_eq_one_iff.mp hone
        rw [ha, List.mem_singleton] at hwc hgc
        exact .inl (by rw [← hwr, hwc, hgc])

/-- Groups of a list without multi-groups. -/
theorem groupsOf_eq_filterMap (ops : List SchemaOperation)
    (h : ∀ op ∈ ops, ∀ gs, op ≠ .pkTypeFlipMultiGroup gs) :
    groupsOf ops = ops.filterMap pkTypeFlipGroup? := by
  induction ops with
  | nil => rfl
  | cons op ops ih =>
      have htail := ih fun op' hop' => h op' (List.mem_cons_of_mem _ hop')
      have hhead := h op (by simp)
      rw [groupsOf, List.flatMap_cons, ← groupsOf, htail]
      cases op with
      | pkTypeFlipMultiGroup gs => exact absurd rfl (hhead gs)
      | pkTypeFlipGroup g => rfl
      | _ => rfl

theorem mergeClusters_subset (clusters : List (List PkTypeFlipGroup))
    (ops ops' : List SchemaOperation) (multi multi' : List (List PkTypeFlipGroup))
    (h : mergeClusters clusters ops multi = .ok (ops', multi')) : ∀ op ∈ ops', op ∈ ops := by
  induction clusters generalizing ops multi with
  | nil =>
      simp only [mergeClusters, Except.ok.injEq, Prod.mk.injEq] at h
      rw [h.1]
      exact fun _ hop => hop
  | cons c clusters ih =>
      rw [mergeClusters] at h
      split_ifs at h with hlen
      · exact ih ops multi h
      · simp only at h
        split at h
        · simp at h
        · exact fun op hop => List.mem_of_mem_filter (ih _ _ h op hop)

private theorem groupsOf_merged (ops : List SchemaOperation)
    (multi : List (List PkTypeFlipGroup)) (h : ∀ op ∈ ops, ∀ gs, op ≠ .pkTypeFlipMultiGroup gs) :
    groupsOf (ops ++ multi.map .pkTypeFlipMultiGroup) =
      ops.filterMap pkTypeFlipGroup? ++ multi.flatten := by
  rw [groupsOf, List.flatMap_append, ← groupsOf, groupsOf_eq_filterMap ops h, List.flatMap_map]
  congr 1
  induction multi with
  | nil => rfl
  | cons gs multi ih => rw [List.flatMap_cons, ih, List.flatten_cons, opGroups]

/-- Merging neither loses nor copies a group. -/
theorem merge_parents_perm (delta out : SchemaDelta)
    (hmulti : ∀ op ∈ delta.operations, ∀ gs, op ≠ .pkTypeFlipMultiGroup gs)
    (h : mergeCrossFlippingGroupsIntoMulti delta = .ok out) :
    ((groupsOf out.operations).map PkTypeFlipGroup.parentTable).Perm
      ((groupsOf delta.operations).map PkTypeFlipGroup.parentTable) := by
  unfold mergeCrossFlippingGroupsIntoMulti at h
  split at h
  · simp at h
  · next ops' multi' hm =>
      rw [← Except.ok.inj h, groupsOf_merged _ _ fun op hop =>
        hmulti op (mergeClusters_subset _ _ _ _ _ hm op hop), groupsOf_eq_filterMap _ hmulti]
      simpa using mergeClusters_parents _ _ _ _ _ hm

/-- **Merged groups.** With distinct parents the merge applies `keepByRoot` to every
group. -/
theorem merge_groups_perm (delta out : SchemaDelta)
    (hmulti : ∀ op ∈ delta.operations, ∀ gs, op ≠ .pkTypeFlipMultiGroup gs)
    (hpart : PartnersMigrate (groupsOf delta.operations))
    (hnd : ((groupsOf delta.operations).map PkTypeFlipGroup.parentTable).Nodup)
    (h : mergeCrossFlippingGroupsIntoMulti delta = .ok out) :
    (groupsOf out.operations).Perm
      ((groupsOf delta.operations).map (keepByRoot (groupsOf delta.operations))) := by
  unfold mergeCrossFlippingGroupsIntoMulti at h
  have hgroups := groupsOf_eq_filterMap _ hmulti
  split at h
  · simp at h
  · next ops' multi' hm =>
      have hinv := mergeInv_clusters delta.operations _ hgroups.symm hpart
      rw [hgroups] at hinv hnd
      have hperm := mergeClusters_perm _ _ _ _ _ _ hnd hinv hm
      rw [← Except.ok.inj h, groupsOf_merged _ _ fun op hop =>
        hmulti op (mergeClusters_subset _ _ _ _ _ hm op hop), hgroups]
      simpa using hperm

/-! ## The merge never fails after the differ's check -/

private theorem exists_edge_of_linked (groups : List PkTypeFlipGroup) (x y : String)
    (h : Linked groups x y) : x = y ∨ ∃ g ∈ groups, Linked groups x g.parentTable ∧
      ∃ jt ∈ g.joinTables, jt.fkToPartnerTable.isSome := by
  induction h with
  | rel a b hab =>
      obtain ⟨g, hg, rfl, jt, hjt, hb⟩ := hab
      exact .inr ⟨g, hg, .refl _, jt, hjt, by rw [hb]; rfl⟩
  | refl => exact .inl rfl
  | symm a b hab ih =>
      rcases ih with rfl | ⟨g, hg, hl, hjt⟩
      · exact .inl rfl
      · exact .inr ⟨g, hg, .trans _ _ _ (.symm _ _ hab) hl, hjt⟩
  | trans a b c hab _ ih1 ih2 =>
      rcases ih1 with rfl | h1
      · exact ih2
      · exact .inr h1

private theorem mergeClusters_total (groups : List PkTypeFlipGroup)
    (clusters : List (List PkTypeFlipGroup)) (ops : List SchemaOperation)
    (multi : List (List PkTypeFlipGroup))
    (hinv : MergeInv groups clusters (ops.filterMap pkTypeFlipGroup?))
    (hpart : ∀ c ∈ clusters, 2 ≤ c.length →
      partitionedMultiParentClusterError (sortBy PkTypeFlipGroup.parentTable c) = none) :
    ∃ r, mergeClusters clusters ops multi = .ok r := by
  induction clusters generalizing ops multi with
  | nil => exact ⟨_, rfl⟩
  | cons c clusters ih =>
      rw [mergeClusters]
      split_ifs with hlen
      · exact ih ops multi (hinv.skip groups c clusters _ hlen)
          fun d hd => hpart d (List.mem_cons_of_mem _ hd)
      · obtain ⟨hin, hout⟩ := filterMap_isMemberOp (c.map PkTypeFlipGroup.parentTable) ops
        rw [hinv.whole c (by simp) (by omega)] at hin
        simp only [hin, hpart c (by simp) (by omega)]
        exact ih _ _ (by rw [hout]; exact hinv.take groups c clusters _)
          fun d hd => hpart d (List.mem_cons_of_mem _ hd)

private theorem cluster_eq_filter (ops : List SchemaOperation) (c : List PkTypeFlipGroup)
    (hc : c ∈ (clusterPkFlipGroups ops).values) :
    ∃ k, c = (ops.filterMap pkTypeFlipGroup?).filter fun g =>
      clusterRoot (ops.filterMap pkTypeFlipGroup?) g.parentTable = k := by
  by_cases hedges : peerEdges (ops.filterMap pkTypeFlipGroup?) = []
  · have hempty : clusterPkFlipGroups ops = .empty := by simp [clusterPkFlipGroups, hedges]
    simp [hempty] at hc
  · obtain ⟨k, hk⟩ := (OrdMap.mem_values_iff _ _).mp hc
    exact ⟨k, ((mem_values_clusterPkFlipGroups ops hedges k c).mp hk).2⟩

/-- A component with two parents has an entry whose partner is in the component. -/
private theorem hasInternalCrossFlip_cluster (groups c : List PkTypeFlipGroup) (k : String)
    (hpart : PartnersMigrate groups)
    (hnd : (groups.map PkTypeFlipGroup.parentTable).Nodup)
    (hc : c = groups.filter fun g => clusterRoot groups g.parentTable = k)
    (hlen : 2 ≤ c.length) : hasInternalCrossFlip c = true := by
  have hmem : ∀ g, g ∈ c ↔ g ∈ groups ∧ clusterRoot groups g.parentTable = k := by
    intro g
    rw [hc, List.mem_filter, decide_eq_true_iff]
  have hcnd : (c.map PkTypeFlipGroup.parentTable).Nodup := by
    rw [hc]
    exact hnd.sublist (List.filter_sublist.map _)
  obtain ⟨x, y, l, rfl⟩ : ∃ x y l, c = x :: y :: l := by
    rcases c with _ | ⟨x, _ | ⟨y, l⟩⟩
    · simp at hlen
    · simp at hlen
    · exact ⟨x, y, l, rfl⟩
  have hx := (hmem x).mp (by simp)
  have hy := (hmem y).mp (by simp)
  have hxy : x.parentTable ≠ y.parentTable := by
    intro h
    simp [h] at hcnd
  have hlink : Linked groups x.parentTable y.parentTable := by
    rw [linked_iff_root_eq, hx.2, hy.2]
  rcases exists_edge_of_linked groups _ _ hlink with h | ⟨g, hg, hxg, jt, hjt, hsome⟩
  · exact absurd h hxy
  · obtain ⟨b, hb⟩ := Option.isSome_iff_exists.mp hsome
    have hgc : g ∈ x :: y :: l := by
      rw [hmem, ← (linked_iff_root_eq groups _ _).mp hxg]
      exact ⟨hg, hx.2⟩
    obtain ⟨p, hp, hpb⟩ := List.mem_map.mp (hpart g hg jt hjt b hb)
    have hgb : Linked groups g.parentTable b := .rel _ _ ⟨g, hg, rfl, jt, hjt, hb⟩
    have hpc : p ∈ x :: y :: l := by
      rw [hmem, hpb, ← (linked_iff_root_eq groups _ _).mp hgb]
      exact ⟨hp, ((hmem g).mp hgc).2⟩
    refine List.any_eq_true.mpr ⟨g, hgc, List.any_eq_true.mpr ⟨jt, hjt, ?_⟩⟩
    simp only [hb]
    exact List.contains_iff_mem.mpr (hpb ▸ List.mem_map_of_mem hpc)

/-- After the differ's check the merge succeeds. -/
theorem merge_total (delta : SchemaDelta)
    (hmulti : ∀ op ∈ delta.operations, ∀ gs, op ≠ .pkTypeFlipMultiGroup gs)
    (hpart : PartnersMigrate (groupsOf delta.operations))
    (hnd : ((groupsOf delta.operations).map PkTypeFlipGroup.parentTable).Nodup)
    (hrej : rejectPartitionedMultiParentClusters delta.operations = .ok ()) :
    ∃ out, mergeCrossFlippingGroupsIntoMulti delta = .ok out := by
  have hgroups := groupsOf_eq_filterMap _ hmulti
  have hinv := mergeInv_clusters delta.operations _ hgroups.symm hpart
  have hcheck := Fallible.forM_ok _ _ hrej
  have hnone : ∀ c ∈ (clusterPkFlipGroups delta.operations).values, 2 ≤ c.length →
      partitionedMultiParentClusterError (sortBy PkTypeFlipGroup.parentTable c) = none := by
    intro c hc hlen
    obtain ⟨k, hk⟩ := cluster_eq_filter delta.operations c hc
    rw [← hgroups] at hk
    have hcross := hasInternalCrossFlip_cluster _ c k hpart hnd hk hlen
    have hok := hcheck c hc
    unfold rejectCluster at hok
    rw [if_neg (by omega), hcross] at hok
    simp only [Bool.not_true, Bool.false_eq_true, if_false] at hok
    split at hok
    · simp at hok
    · assumption
  rw [hgroups] at hinv
  obtain ⟨r, hr⟩ := mergeClusters_total _ _ delta.operations [] hinv hnone
  exact ⟨_, by rw [mergeCrossFlippingGroupsIntoMulti, hr]⟩

end Djogi

import Djogi.Compose

/-!
# Composing again

What the deltas of a compose are in terms of the differ, and when a compose after the first one
was applied has nothing to do.

* `composeDeltas_nothing_iff`: a compose has nothing to do exactly when no bucket changed;
* `compose_converges_iff`: which renames and moves settle;
* `rename_never_settles`: an annotation that stays is composed again and again.
-/

namespace Djogi

open OrdMap

/-! ## Deltas without operations -/

theorem promote_eq_nil_iff (after : AppliedSchema) (ops ops' : List SchemaOperation)
    (h : promotePkFlipsToGroups after ops = .ok ops') : ops' = [] ↔ ops = [] := by
  obtain ⟨gs, hsplit, hparents, -⟩ := promoteParents_ok _ _ _ _ _ h
  constructor
  · intro hnil
    obtain ⟨hbase, hgs⟩ := List.append_eq_nil_iff.mp (hsplit.symm.trans hnil)
    rw [List.map_eq_nil_iff] at hgs
    rw [hgs, List.map_nil] at hparents
    -- No operation is a flip, and no other operation is left.
    have hflips : ops.filterMap pkTypeFlip? = [] := List.map_eq_nil_iff.mp hparents.symm
    refine List.eq_nil_iff_forall_not_mem.mpr fun op hop => ?_
    have hnone : pkTypeFlip? op = none := List.filterMap_eq_nil_iff.mp hflips op hop
    have hflip := List.filter_eq_nil_iff.mp hbase op hop
    rw [hnone] at hflip
    exact hflip rfl
  · rintro rfl
    exact (Except.ok.inj h).symm

theorem isEffective_eq_true_iff (d : SchemaDelta) :
    isEffective d = true ↔ d.operations ≠ [] ∨ d.classification ≠ .noOp := by
  rw [isEffective, Bool.or_eq_true, Bool.not_eq_true', List.isEmpty_eq_false_iff,
    decide_eq_true_iff]

theorem movedFolder_emitted (bucket : BucketKey) (op : SchemaOperation)
    (h : emittedByDiff op = true) : movedFolder bucket op = none := by
  cases op <;> first | rfl | cases h

theorem bucketDelta_ok (before after : OrdMap BucketKey AppliedSchema) (bucket : BucketKey)
    (d : SchemaDelta) (h : bucketDelta before after bucket = .ok d) :
    d.bucket = bucket ∧ d.classification = classify d.operations ∧
      (d.operations = [] ↔ bucketOps before after bucket = []) ∧
      ∀ op ∈ d.operations, ∀ b, movedFolder b op = none := by
  unfold bucketDelta at h
  cases hops : promotePkFlipsToGroups ((after.get bucket).getD .empty)
      (bucketOps before after bucket) with
  | error e => rw [hops] at h; cases h
  | ok ops =>
    rw [hops] at h
    cases hrej : rejectPartitionedMultiParentClusters ops with
    | error e => simp only [hrej] at h; cases h
    | ok u =>
      simp only [hrej] at h
      obtain rfl := Except.ok.inj h
      refine ⟨rfl, rfl, promote_eq_nil_iff _ _ _ hops, fun op hop b => ?_⟩
      obtain ⟨gs, hsplit, -, -⟩ := promoteParents_ok _ _ _ _ _ hops
      rw [hsplit] at hop
      rcases List.mem_append.mp hop with hop | hop
      · exact movedFolder_emitted b op
          (emitted_bucketOps before after bucket op (List.mem_of_mem_filter hop))
      · obtain ⟨g, -, rfl⟩ := List.mem_map.mp hop
        rfl

theorem bucketDelta_of_nil (before after : OrdMap BucketKey AppliedSchema) (bucket : BucketKey)
    (h : bucketOps before after bucket = []) :
    bucketDelta before after bucket = .ok ⟨bucket, [], .noOp⟩ := by
  unfold bucketDelta
  rw [h]
  rfl

/-! ## Stages -/

/-- What the merge of flip groups leaves of a delta. -/
theorem merge_ok (d d' : SchemaDelta) (h : mergeCrossFlippingGroupsIntoMulti d = .ok d') :
    d'.bucket = d.bucket ∧ d'.classification = d.classification ∧
      (d.operations = [] → d'.operations = []) ∧
      ∀ op ∈ d'.operations, op ∈ d.operations ∨ ∃ gs, op = .pkTypeFlipMultiGroup gs := by
  unfold mergeCrossFlippingGroupsIntoMulti at h
  cases hm : mergeClusters (clusterPkFlipGroups d.operations).values d.operations [] with
  | error e => rw [hm] at h; cases h
  | ok r =>
    obtain ⟨ops, multi⟩ := r
    rw [hm] at h
    obtain rfl := Except.ok.inj h
    refine ⟨rfl, rfl, fun hnil => ?_, fun op hop => ?_⟩
    · rw [hnil] at hm
      obtain ⟨rfl, rfl⟩ := Prod.mk.inj (Except.ok.inj hm)
      rfl
    · rcases List.mem_append.mp hop with hop | hop
      · exact .inl (mergeClusters_subset _ _ _ _ _ hm op hop)
      · obtain ⟨gs, -, rfl⟩ := List.mem_map.mp hop
        exact .inr ⟨gs, rfl⟩

theorem movedFolder_stampOption (option : PkFlipJoinTableOption) (bucket : BucketKey)
    (op : SchemaOperation) : movedFolder bucket (stampOption option op) = movedFolder bucket op := by
  cases op <;> rfl

/-- A delta of the differ, before renames are injected. -/
structure RawDelta (before after : OrdMap BucketKey AppliedSchema) (bucket : BucketKey)
    (d : SchemaDelta) : Prop where
  bucket_eq : d.bucket = bucket
  noOp_iff : d.classification = .noOp ↔ bucketOps before after bucket = []
  nil : bucketOps before after bucket = [] → d.operations = []
  folders : ∀ op ∈ d.operations, ∀ b, movedFolder b op = none

section Stages

variable {before after : OrdMap BucketKey AppliedSchema} {bucket : BucketKey}

theorem rawDelta_bucketDelta (d : SchemaDelta)
    (h : bucketDelta before after bucket = .ok d) : RawDelta before after bucket d := by
  obtain ⟨hb, hclass, hnil, hfolders⟩ := bucketDelta_ok before after bucket d h
  exact ⟨hb, by rw [hclass, classify_eq_noOp_iff, hnil], hnil.mpr, hfolders⟩

theorem RawDelta.stamp (d : SchemaDelta) (option : PkFlipJoinTableOption)
    (h : RawDelta before after bucket d) :
    RawDelta before after bucket { d with operations := d.operations.map (stampOption option) } := by
  refine ⟨h.bucket_eq, h.noOp_iff, fun hnil => ?_, fun op hop b => ?_⟩
  · rw [h.nil hnil, List.map_nil]
  · obtain ⟨op', hop', rfl⟩ := List.mem_map.mp hop
    rw [movedFolder_stampOption, h.folders op' hop']

theorem RawDelta.merge (d d' : SchemaDelta) (h : RawDelta before after bucket d)
    (hm : mergeCrossFlippingGroupsIntoMulti d = .ok d') : RawDelta before after bucket d' := by
  obtain ⟨hb, hclass, hnil, hops⟩ := merge_ok d d' hm
  refine ⟨hb.trans h.bucket_eq, hclass ▸ h.noOp_iff, fun hz => hnil (h.nil hz), fun op hop b => ?_⟩
  rcases hops op hop with hold | ⟨gs, rfl⟩
  · exact h.folders op hold b
  · rfl

theorem rawDeltas (option : Option PkFlipJoinTableOption) (ks : List BucketKey)
    (ds ds' : List SchemaDelta) (hdiff : ks.mapM (bucketDelta before after) = .ok ds)
    (hoption : withJoinTableOption option ds = .ok ds') :
    List.Forall₂ (RawDelta before after) ks ds' := by
  have hraw : List.Forall₂ (RawDelta before after) ks ds :=
    ((Fallible.mapM_ok_iff _ _ _).mp hdiff).imp fun _ _ => rawDelta_bucketDelta _
  have hstamp : ∀ o, List.Forall₂ (RawDelta before after) ks
      (ds.map fun d => { d with operations := d.operations.map (stampOption o) }) := fun o =>
    List.forall₂_map_right_iff.mpr (hraw.imp fun _ _ => RawDelta.stamp _ o)
  rcases option with - | - | -
  · exact Except.ok.inj hoption ▸ hraw
  · simp only [withJoinTableOption, applyPkFlipJoinTableOption] at hoption
    exact Fallible.forall₂_mapM (RawDelta before after) (RawDelta before after) _
      (fun _ d d' => RawDelta.merge d d') _ _ _ (hstamp .optionA) hoption
  · exact Except.ok.inj hoption ▸ hstamp .optionB

theorem withJoinTableOption_of_nil (option : Option PkFlipJoinTableOption) (ks : List BucketKey) :
    withJoinTableOption option (ks.map fun k => ⟨k, [], .noOp⟩) =
      .ok (ks.map fun k => ⟨k, [], .noOp⟩) := by
  rcases option with - | - | -
  · rfl
  · simp only [withJoinTableOption, applyPkFlipJoinTableOption, List.map_map, Function.comp_def,
      List.map_nil]
    rw [Fallible.mapM_ok_iff, List.forall₂_same]
    intro d hd
    obtain ⟨k, -, rfl⟩ := List.mem_map.mp hd
    rfl
  · simp only [withJoinTableOption, applyPkFlipJoinTableOption, List.map_map, Function.comp_def,
      List.map_nil]

end Stages

/-! ## Injected renames -/

/-- The buckets of the deltas, which of them compose keeps, and the folders they move. -/
structure Marked (ks : List BucketKey) (changed : BucketKey → Prop)
    (moved : BucketKey → BucketKey → Prop) (ds : List SchemaDelta) : Prop where
  buckets : ds.map SchemaDelta.bucket = ks
  effective : ∀ d ∈ ds, isEffective d = true ↔ changed d.bucket
  folders : ∀ d ∈ ds, ∀ op ∈ d.operations, ∀ old, movedFolder d.bucket op = some old →
    moved d.bucket old

theorem marked_raw (before after : OrdMap BucketKey AppliedSchema) (ks : List BucketKey)
    (ds : List SchemaDelta) (h : List.Forall₂ (RawDelta before after) ks ds) :
    Marked ks (fun k => bucketOps before after k ≠ []) (fun _ _ => False) ds := by
  induction h with
  | nil => exact ⟨rfl, by simp, by simp⟩
  | cons hd _ ih =>
    refine ⟨?_, List.forall_mem_cons.mpr ⟨?_, ih.effective⟩,
      List.forall_mem_cons.mpr ⟨?_, ih.folders⟩⟩
    · rw [List.map_cons, ih.buckets, hd.bucket_eq]
    · rw [isEffective_eq_true_iff, hd.bucket_eq, ne_eq, ne_eq, hd.noOp_iff]
      exact ⟨fun h hz => h.elim (fun hn => hn (hd.nil hz)) (fun hn => hn hz), .inr⟩
    · intro op hop old hold
      rw [hd.folders op hop] at hold
      cases hold

theorem marked_injectAt (bucket : BucketKey) (prior label : String) (ks : List BucketKey)
    (changed : BucketKey → Prop) (moved : BucketKey → BucketKey → Prop) (ds : List SchemaDelta)
    (hm : Marked ks changed moved ds) (hnd : ks.Nodup) :
    Marked ks (fun k => changed k ∨ k = bucket)
      (fun k old => moved k old ∨ k = bucket ∧ old = ⟨bucket.database, prior⟩)
      (injectAt bucket (.renameApp prior label) ds) := by
  induction ds generalizing ks with
  | nil => exact ⟨hm.buckets, by simp [injectAt], by simp [injectAt]⟩
  | cons d ds ih =>
    obtain rfl := hm.buckets
    rw [List.map_cons, List.nodup_cons] at hnd
    obtain ⟨heff, heffs⟩ := List.forall_mem_cons.mp hm.effective
    obtain ⟨hfold, hfolds⟩ := List.forall_mem_cons.mp hm.folders
    rw [injectAt]
    split_ifs with hb
    · refine ⟨rfl, List.forall_mem_cons.mpr ⟨?_, fun d' hd' => ?_⟩,
        List.forall_mem_cons.mpr ⟨fun op hop old hold => ?_, fun d' hd' op hop old hold =>
          .inl (hfolds d' hd' op hop old hold)⟩⟩
      · rw [isEffective_eq_true_iff]
        exact ⟨fun _ => .inr hb, fun _ => .inl (List.cons_ne_nil _ _)⟩
      · have hne : d'.bucket ≠ bucket := by
          rintro rfl
          exact hnd.1 (hb ▸ List.mem_map_of_mem hd')
        rw [heffs d' hd', or_iff_left hne]
      · rcases List.mem_cons.mp hop with rfl | hop
        · exact .inr ⟨hb, by rw [← hb]; exact (Option.some.inj hold).symm⟩
        · exact .inl (hfold op hop old hold)
    · have hrest := ih _ ⟨rfl, heffs, hfolds⟩ hnd.2
      refine ⟨?_, List.forall_mem_cons.mpr ⟨?_, hrest.effective⟩,
        List.forall_mem_cons.mpr ⟨fun op hop old hold => .inl (hfold op hop old hold),
          hrest.folders⟩⟩
      · rw [List.map_cons, hrest.buckets, List.map_cons]
      · rw [heff, or_iff_left hb]

/-- A renamed app. -/
def Renames (apps : List AppLifecycle) (bucket old : BucketKey) : Prop :=
  ∃ app ∈ apps, app.bucket = bucket ∧ app.prior = some old

theorem marked_injectRenames (apps : List AppLifecycle) (ks : List BucketKey)
    (changed : BucketKey → Prop) (moved : BucketKey → BucketKey → Prop) (ds : List SchemaDelta)
    (hm : Marked ks changed moved ds) (hnd : ks.Nodup) :
    Marked ks (fun k => changed k ∨ ∃ old, Renames apps k old)
      (fun k old => moved k old ∨ Renames apps k old) (apps.foldl injectRename ds) := by
  induction apps generalizing changed moved ds with
  | nil => simpa [Renames] using hm
  | cons app apps ih =>
    rw [List.foldl_cons]
    cases hfrom : app.renamedFrom with
    | none =>
      have hkeep : injectRename ds app = ds := by rw [injectRename, hfrom]
      have hno : ∀ k old, Renames (app :: apps) k old ↔ Renames apps k old := by
        simp [Renames, AppLifecycle.prior, hfrom]
      simpa only [hkeep, hno] using ih changed moved ds hm
    | some prior =>
      have hinj : injectRename ds app = injectAt app.bucket (.renameApp prior app.label) ds := by
        rw [injectRename, hfrom]
      have hyes : ∀ k old, Renames (app :: apps) k old ↔
          (k = app.bucket ∧ old = ⟨app.bucket.database, prior⟩) ∨ Renames apps k old := by
        intro k old
        have hprior : app.prior = some ⟨app.bucket.database, prior⟩ := by
          rw [AppLifecycle.prior, hfrom]
          rfl
        simp only [Renames, List.mem_cons, exists_eq_or_imp, hprior, Option.some.injEq]
        exact or_congr_left (and_congr eq_comm eq_comm)
      rw [hinj]
      have hrest := ih _ _ _ (marked_injectAt app.bucket prior app.label ks changed moved ds hm hnd)
      refine ⟨hrest.buckets, fun d hd => ?_, fun d hd op hop old hold => ?_⟩
      · rw [hrest.effective d hd]
        simp only [hyes, exists_or, exists_and_left, exists_eq, and_true, or_assoc]
      · rw [hyes, ← or_assoc]
        exact hrest.folders d hd op hop old hold

/-! ## What a compose goes on with -/

theorem mem_bucketsOf (before after : OrdMap BucketKey AppliedSchema) (k : BucketKey) :
    k ∈ bucketsOf before after ↔ k ∈ before.keys ∨ k ∈ after.keys := by
  rw [bucketsOf, mem_sortedDedup, List.mem_append]

theorem bucketsOf_nodup (before after : OrdMap BucketKey AppliedSchema) :
    (bucketsOf before after).Nodup := keys_nodup _

theorem mem_bucketMoves (before after : OrdMap BucketKey AppliedSchema) (m : BucketMove) :
    m ∈ bucketMoves before after ↔ ∃ s t from_, after.get m.dest = some s ∧
      s.models.get m.model = some t ∧ t.movedFromApp = some from_ ∧
      m.src = ⟨m.dest.database, from_⟩ ∧
      ∃ srcSchema, before.get m.src = some srcSchema ∧ m.model ∈ srcSchema.models.keys := by
  rw [bucketMoves, List.mem_flatMap]
  constructor
  · rintro ⟨d, hd, hm⟩
    obtain ⟨e, he, hmove⟩ := List.mem_filterMap.mp hm
    obtain ⟨from_, hfrom, hmove⟩ := Option.bind_eq_some_iff.mp hmove
    obtain ⟨srcSchema, hsrc, hmove⟩ := Option.bind_eq_some_iff.mp hmove
    split_ifs at hmove with hhas
    obtain rfl := Option.some.inj hmove
    exact ⟨d.2, e.2, from_, (mem_entries_iff _ _ _).mp hd, (mem_entries_iff _ _ _).mp he, hfrom,
      rfl, srcSchema, hsrc, (contains_iff _ _).mp hhas⟩
  · rintro ⟨s, t, from_, hs, ht, hfrom, hsrceq, srcSchema, hsrc, hhas⟩
    refine ⟨(m.dest, s), (mem_entries_iff _ _ _).mpr hs, List.mem_filterMap.mpr
      ⟨(m.model, t), (mem_entries_iff _ _ _).mpr ht, ?_⟩⟩
    rw [declaredMove, hfrom, Option.bind_some, ← hsrceq, hsrc, Option.bind_some,
      if_pos ((contains_iff _ _).mpr hhas)]

theorem moveOps_eq_nil_iff (moves : List BucketMove) (bucket : BucketKey) :
    moveOps moves bucket = [] ↔ ∀ m ∈ moves, m.dest ≠ bucket := by
  rw [moveOps, List.map_eq_nil_iff, List.filter_eq_nil_iff]
  simp only [beq_iff_eq, ne_eq]

/-- Operations of a bucket without those that a move takes away. -/
def ownOps (before after : OrdMap BucketKey AppliedSchema) (bucket : BucketKey) :
    List SchemaOperation :=
  (diffSchemas ((before.get bucket).getD .empty) ((after.get bucket).getD .empty)
    bucket).operations

theorem bucketOps_eq_nil_iff (before after : OrdMap BucketKey AppliedSchema) (bucket : BucketKey) :
    bucketOps before after bucket = [] ↔
      (∀ op ∈ ownOps before after bucket,
        isSuppressed (bucketMoves before after) bucket op = true) ∧
      ∀ m ∈ bucketMoves before after, m.dest ≠ bucket := by
  rw [bucketOps, List.append_eq_nil_iff, moveOps_eq_nil_iff, List.filter_eq_nil_iff]
  simp only [Bool.not_eq_true', Bool.not_eq_false]
  rfl

theorem diffSchemas_self (s : AppliedSchema) (bucket : BucketKey) :
    (diffSchemas s s bucket).operations = [] := by
  rw [diffSchemas, if_pos rfl]

theorem mem_bucketsOf_of_ops (before after : OrdMap BucketKey AppliedSchema) (k : BucketKey)
    (h : bucketOps before after k ≠ []) : k ∈ bucketsOf before after := by
  by_contra hk
  rw [mem_bucketsOf, not_or, ← get_eq_none_iff, ← get_eq_none_iff] at hk
  refine h ((bucketOps_eq_nil_iff _ _ _).mpr ⟨fun op hop => ?_, fun m hm => ?_⟩)
  · rw [ownOps, hk.1, hk.2, diffSchemas_self] at hop
    cases hop
  · rintro rfl
    obtain ⟨s, -, -, hs, -⟩ := (mem_bucketMoves _ _ _).mp hm
    rw [hk.2] at hs
    cases hs

/-- The differ has operations for a bucket, or an annotation names it. -/
def Changed (before after : OrdMap BucketKey AppliedSchema) (apps : List AppLifecycle)
    (k : BucketKey) : Prop :=
  bucketOps before after k ≠ [] ∨ ∃ old, Renames apps k old

section Compose

variable (req : ComposeRequest)

/-- The snapshots that the differ sees. -/
def ComposeRequest.remapped : OrdMap BucketKey AppliedSchema :=
  remapSnapshotsForRenames req.snapshots req.apps

theorem planned_marked (ds : List SchemaDelta) (h : plannedDeltas req = .ok ds) :
    Marked (bucketsOf req.remapped req.models) (Changed req.remapped req.models req.apps)
      (fun k old => Renames req.apps k old) ds := by
  obtain ⟨raw, hraw, h⟩ := Fallible.bind_ok _ _ _ h
  obtain ⟨ds', hds', h⟩ := Fallible.bind_ok _ _ _ h
  obtain rfl := Except.ok.inj h
  have hm := marked_injectRenames req.apps _ _ _ ds'
    (marked_raw _ _ _ _ (rawDeltas _ _ raw ds' hraw hds')) (bucketsOf_nodup _ _)
  simp only [false_or] at hm
  exact hm

theorem planned_of_nil
    (h : ∀ k ∈ bucketsOf req.remapped req.models, bucketOps req.remapped req.models k = []) :
    ∃ ds, plannedDeltas req = .ok ds := by
  have hraw : diffBucketMaps req.remapped req.models =
      .ok ((bucketsOf req.remapped req.models).map fun k => ⟨k, [], .noOp⟩) := by
    rw [diffBucketMaps, Fallible.mapM_ok_iff, List.forall₂_map_right_iff, List.forall₂_same]
    exact fun k hk => bucketDelta_of_nil _ _ _ (h k hk)
  refine ⟨req.apps.foldl injectRename
    ((bucketsOf req.remapped req.models).map fun k => ⟨k, [], .noOp⟩), ?_⟩
  rw [plannedDeltas, ← ComposeRequest.remapped, hraw]
  show (withJoinTableOption req.pkFlipJoinTableOption _ >>= _) = _
  rw [withJoinTableOption_of_nil]
  rfl

/-- Guards that let a compose pass. -/
def Unguarded : Prop :=
  tombstoneViolation req = none ∧ linkageViolation req req.remapped = none

theorem composeDeltas_of_guard (h : ¬Unguarded req) : ∃ e, composeDeltas req = .error e ∧
    e ≠ .nothingToCompose := by
  unfold composeDeltas
  cases ht : tombstoneViolation req with
  | some e =>
    refine ⟨e, rfl, ?_⟩
    unfold tombstoneViolation at ht
    split_ifs at ht
    obtain ⟨app, -, happ⟩ := List.exists_of_findSome?_eq_some ht
    split_ifs at happ
    exact Option.some.inj happ ▸ nofun
  | none =>
    cases hl : linkageViolation req (remapSnapshotsForRenames req.snapshots req.apps) with
    | some e =>
      refine ⟨e, rfl, ?_⟩
      obtain ⟨k, -, hk⟩ := List.exists_of_findSome?_eq_some hl
      split_ifs at hk
      exact Option.some.inj hk ▸ nofun
    | none => exact absurd ⟨ht, hl⟩ h

theorem composeDeltas_eq (h : Unguarded req) : composeDeltas req =
    match plannedDeltas req with
    | .error e => .error (.diff e)
    | .ok deltas =>
        if (deltas.filter isEffective).isEmpty then .error .nothingToCompose
        else .ok (deltas.filter isEffective) := by
  have hlinked : linkageViolation req (remapSnapshotsForRenames req.snapshots req.apps) = none :=
    h.2
  cases hplanned : plannedDeltas req with
  | error e => simp only [composeDeltas, h.1, hlinked, hplanned]
  | ok deltas => simp only [composeDeltas, h.1, hlinked, hplanned]

/-- **Nothing.** A compose has nothing to do exactly when no bucket changed. -/
theorem composeDeltas_nothing_iff : composeDeltas req = .error .nothingToCompose ↔
    Unguarded req ∧ ∀ k ∈ bucketsOf req.remapped req.models,
      ¬Changed req.remapped req.models req.apps k := by
  by_cases hg : Unguarded req
  · rw [composeDeltas_eq req hg, and_iff_right hg]
    cases hp : plannedDeltas req with
    | error e =>
      refine ⟨fun h => ?_, fun h => ?_⟩
      · cases h
      · obtain ⟨ds, hds⟩ := planned_of_nil req fun k hk => by
          by_contra hne
          exact h k hk (.inl hne)
        rw [hp] at hds
        cases hds
    | ok ds =>
      have hm := planned_marked req ds hp
      have hempty : (ds.filter isEffective).isEmpty = true ↔
          ∀ k ∈ bucketsOf req.remapped req.models,
            ¬Changed req.remapped req.models req.apps k := by
        rw [List.isEmpty_iff, List.filter_eq_nil_iff, ← hm.buckets, List.forall_mem_map]
        exact forall₂_congr fun d hd => not_congr (hm.effective d hd)
      rw [← hempty]
      by_cases he : (ds.filter isEffective).isEmpty = true
      · simp only [he, if_true]
      · simp only [he, Bool.false_eq_true, if_false, iff_false]
        nofun
  · obtain ⟨e, he, hne⟩ := composeDeltas_of_guard req hg
    rw [he]
    refine ⟨fun h => ?_, fun h => absurd h.1 hg⟩
    exact absurd (Except.error.inj h) hne

/-- What a successful compose goes on with. -/
structure Composed (deltas : List SchemaDelta) : Prop where
  unguarded : Unguarded req
  mem_iff : ∀ k, k ∈ deltas.map SchemaDelta.bucket ↔
    k ∈ bucketsOf req.remapped req.models ∧ Changed req.remapped req.models req.apps k
  folders : ∀ old ∈ movedFolders deltas,
    ∃ k ∈ bucketsOf req.remapped req.models, Renames req.apps k old

theorem composed_of_ok (deltas : List SchemaDelta) (h : composeDeltas req = .ok deltas) :
    Composed req deltas := by
  have hg : Unguarded req := by
    by_contra hg
    obtain ⟨e, he, -⟩ := composeDeltas_of_guard req hg
    rw [he] at h
    cases h
  rw [composeDeltas_eq req hg] at h
  cases hp : plannedDeltas req with
  | error e => simp only [hp] at h; cases h
  | ok ds =>
    simp only [hp] at h
    split_ifs at h
    obtain rfl := Except.ok.inj h
    have hm := planned_marked req ds hp
    refine ⟨hg, fun k => ?_, fun old hold => ?_⟩
    · rw [List.mem_map, ← hm.buckets, List.mem_map]
      constructor
      · rintro ⟨d, hd, rfl⟩
        obtain ⟨hd, heff⟩ := List.mem_filter.mp hd
        exact ⟨⟨d, hd, rfl⟩, (hm.effective d hd).mp heff⟩
      · rintro ⟨⟨d, hd, rfl⟩, hchanged⟩
        exact ⟨d, List.mem_filter.mpr ⟨hd, (hm.effective d hd).mpr hchanged⟩, rfl⟩
    · obtain ⟨d, hd, hold⟩ := List.mem_flatMap.mp hold
      obtain ⟨op, hop, hop'⟩ := List.mem_filterMap.mp hold
      have hd := List.mem_of_mem_filter hd
      exact ⟨d.bucket, hm.buckets ▸ List.mem_map_of_mem hd, hm.folders d hd op hop old hop'⟩

end Compose

/-! ## Schemas that declare nothing -/

def AppliedSchema.Bare (s : AppliedSchema) : Prop :=
  s.models = .empty ∧ s.indexes = [] ∧ s.enums = .empty

theorem diffOperations_empty (s : AppliedSchema) : diffOperations .empty s =
    s.models.values.map .addTable ++ (indexMap s).values.map .addIndex ++
      s.enums.values.map .addEnum := by
  have hren : tableRenameTargets .empty s = .empty := by
    rw [tableRenameTargets, ofList_eq_empty_iff, List.filterMap_eq_nil_iff]
    intro t _
    cases t.renamedFrom <;> rfl
  have htables : diffTables .empty s = s.models.values.map .addTable := by
    have hadd : addTableOps .empty s = s.models.values.map .addTable := by
      rw [addTableOps, hren]
      exact congrArg (List.map _) (List.filter_eq_self.mpr fun _ _ => rfl)
    have hcommon : s.models.entries.flatMap (commonTableOps .empty) = [] :=
      List.flatMap_eq_nil_iff.mpr fun _ _ => rfl
    rw [diffTables, hadd, hcommon, hren, List.append_nil]
    exact List.append_nil _
  have hindexes : diffIndexes .empty s = (indexMap s).values.map .addIndex := by
    rw [values, List.map_map, ← List.flatMap_singleton' (List.map _ _), List.flatMap_map]
    exact List.append_nil _
  have henums : diffEnums .empty s = s.enums.values.map .addEnum := by
    rw [values, List.map_map, ← List.flatMap_singleton' (List.map _ _), List.flatMap_map]
    exact List.append_nil _
  rw [diffOperations, htables, hindexes, henums]

theorem diffOperations_empty_iff (s : AppliedSchema) :
    diffOperations .empty s = [] ↔ s.Bare := by
  rw [diffOperations_empty, List.append_eq_nil_iff, List.append_eq_nil_iff, List.map_eq_nil_iff,
    List.map_eq_nil_iff, List.map_eq_nil_iff, values, values, values, List.map_eq_nil_iff,
    List.map_eq_nil_iff, List.map_eq_nil_iff, ← eq_empty_iff, ← eq_empty_iff, ← eq_empty_iff,
    indexMap, ofList_eq_empty_iff, List.map_eq_nil_iff, and_assoc]
  rfl

/-- Without a snapshot a bucket has operations unless its schema declares nothing. -/
theorem bucketOps_of_no_snapshot (before after : OrdMap BucketKey AppliedSchema) (k : BucketKey)
    (hk : before.get k = none) :
    bucketOps before after k = [] ↔ ∀ s, after.get k = some s → s.Bare := by
  rw [bucketOps_eq_nil_iff, ownOps, hk, Option.getD_none]
  constructor
  · rintro ⟨hown, hmoves⟩ s hs
    rw [hs, Option.getD_some, diffSchemas] at hown
    split_ifs at hown with heq
    · -- Schemas that are equal in the sense of the source have the same maps.
      rw [AppliedSchema.persistent, AppliedSchema.persistent] at heq
      injection heq with _ henums _ _ hindexes hmodels _
      refine ⟨?_, hindexes.symm, henums.symm⟩
      rw [eq_empty_iff]
      exact List.map_eq_nil_iff.mp (congrArg OrdMap.entries hmodels.symm)
    · rw [← diffOperations_empty_iff, List.eq_nil_iff_forall_not_mem]
      intro op hop
      have hsup := hown op hop
      rw [diffOperations_empty] at hop
      rcases List.mem_append.mp hop with hop | hop
      · rcases List.mem_append.mp hop with hop | hop
        · obtain ⟨t, -, rfl⟩ := List.mem_map.mp hop
          obtain ⟨m, hm, hdest⟩ := List.any_eq_true.mp hsup
          rw [Bool.and_eq_true, beq_iff_eq] at hdest
          exact hmoves m hm hdest.1
        · obtain ⟨i, -, rfl⟩ := List.mem_map.mp hop
          cases hsup
      · obtain ⟨e, -, rfl⟩ := List.mem_map.mp hop
        cases hsup
  · intro hbare
    refine ⟨fun op hop => ?_, fun m hm => ?_⟩
    · cases hs : after.get k with
      | none =>
        rw [hs, Option.getD_none, diffSchemas_self] at hop
        cases hop
      | some s =>
        rw [hs, Option.getD_some, diffSchemas] at hop
        split_ifs at hop
        · cases hop
        · rw [(diffOperations_empty_iff s).mpr (hbare s hs)] at hop
          cases hop
    · rintro rfl
      obtain ⟨s, t, -, hs, ht, -⟩ := (mem_bucketMoves _ _ _).mp hm
      rw [(hbare s hs).1, get_empty] at ht
      cases ht

theorem diffSchemas_emptySchemaFor (k : BucketKey) :
    (diffSchemas (emptySchemaFor k) .empty k).operations = [] := by
  unfold diffSchemas
  split_ifs <;> rfl

/-! ## Renames that move nothing -/

/-- No renamed app has a snapshot, neither under its old label nor under its new one. -/
def Untouched (m : OrdMap BucketKey AppliedSchema) (apps : List AppLifecycle) : Prop :=
  ∀ bucket old, Renames apps bucket old → m.get old = none ∧ m.get bucket = none

theorem landing_self (apps : List AppLifecycle) (k : BucketKey) (s : AppliedSchema)
    (h : ∀ bucket, ¬Renames apps bucket k) : landing apps k s = (k, s) := by
  rcases landing_cases apps k s with ⟨-, heq⟩ | ⟨app, happ, hprior, -⟩
  · exact heq
  · exact absurd ⟨app, happ, rfl, hprior⟩ (h app.bucket)

theorem remap_of_untouched (m : OrdMap BucketKey AppliedSchema) (apps : List AppLifecycle)
    (h : Untouched m apps) : remapSnapshotsForRenames m apps = m := by
  have hself : ∀ k s, m.get k = some s → landing apps k s = (k, s) := by
    refine fun k s hs => landing_self apps k s fun bucket hren => ?_
    rw [(h bucket k hren).1] at hs
    cases hs
  refine ext_get fun k => Option.ext fun v => ?_
  rw [remap_get]
  constructor
  · rintro ⟨k', s', hs', hland, -⟩
    rw [hself k' s' hs'] at hland
    obtain ⟨rfl, rfl⟩ := Prod.mk.inj hland
    exact hs'
  · intro hv
    refine ⟨k, v, hv, hself k v hv, fun k' s' hs' hland => ?_⟩
    rw [hself k' s' hs'] at hland
    exact le_of_eq hland

/-- Nothing lands on the bucket of a renamed app exactly when no renamed app has a snapshot. -/
theorem untouched_iff (m : OrdMap BucketKey AppliedSchema) (apps : List AppLifecycle) :
    Untouched m apps ↔ ∀ bucket old, Renames apps bucket old →
      bucket ∉ (remapSnapshotsForRenames m apps).keys := by
  constructor
  · intro h bucket old hren
    rw [remap_of_untouched m apps h, ← get_eq_none_iff]
    exact (h bucket old hren).2
  · intro h
    have hprior : ∀ bucket old, Renames apps bucket old → m.get old = none := by
      rintro bucket old ⟨app, happ, -, hold⟩
      rw [Option.eq_none_iff_forall_ne_some]
      intro s hs
      have hmem := mem_remap_keys m apps old s hs
      rcases landing_cases apps old s with ⟨hno, -⟩ | ⟨app', happ', hprior, heq⟩
      · exact hno app happ hold
      · rw [heq] at hmem
        exact h app'.bucket old ⟨app', happ', rfl, hprior⟩ hmem
    refine fun bucket old hren => ⟨hprior bucket old hren, ?_⟩
    rw [Option.eq_none_iff_forall_ne_some]
    intro s hs
    have hmem := mem_remap_keys m apps bucket s hs
    rw [landing_self apps bucket s fun b hb => by simp [hprior b bucket hb] at hs] at hmem
    exact h bucket old hren hmem

/-! ## The second compose -/

theorem appliedSnapshots_get (req : ComposeRequest) (deltas : List SchemaDelta) (k : BucketKey) :
    (appliedSnapshots req deltas).get k =
      if k ∈ deltas.map SchemaDelta.bucket then some (modelSnapshot req k)
      else if k ∈ movedFolders deltas then none else req.snapshots.get k := by
  have hfold : ∀ (l : List SchemaDelta) (m : OrdMap BucketKey AppliedSchema),
      (l.foldl (fun m d => m.insert d.bucket (modelSnapshot req d.bucket)) m).get k =
        if k ∈ l.map SchemaDelta.bucket then some (modelSnapshot req k) else m.get k := by
    intro l
    induction l with
    | nil => exact fun m => rfl
    | cons d l ih =>
      intro m
      rw [List.foldl_cons, ih, get_insert, List.map_cons]
      by_cases hl : k ∈ l.map SchemaDelta.bucket
      · rw [if_pos hl, if_pos (List.mem_cons_of_mem _ hl)]
      · by_cases hd : k = d.bucket
        · rw [if_neg hl, if_pos hd, if_pos (hd ▸ List.mem_cons_self), hd]
        · rw [if_neg hl, if_neg hd, if_neg (List.not_mem_cons_of_ne_of_not_mem hd hl)]
  rw [appliedSnapshots, hfold, get_filter]
  congr 1
  by_cases hmoved : k ∈ movedFolders deltas
  · rw [if_pos hmoved]
    exact Option.filter_eq_none_iff.mpr fun _ _ => by simpa using hmoved
  · rw [if_neg hmoved]
    cases req.snapshots.get k with
    | none => rfl
    | some s => exact Option.filter_some_pos (by simpa using hmoved)

/-- The tables of the models that declare where they were moved from. -/
def Declares (models : OrdMap BucketKey AppliedSchema) (src : BucketKey) (name : String) : Prop :=
  ∃ dest s t from_, models.get dest = some s ∧ s.models.get name = some t ∧
    t.movedFromApp = some from_ ∧ src = ⟨dest.database, from_⟩

def HasTable (m : OrdMap BucketKey AppliedSchema) (k : BucketKey) (name : String) : Prop :=
  ∃ s, m.get k = some s ∧ name ∈ s.models.keys

/-- No annotation has an effect: a renamed app has neither models nor a snapshot under its new
label and no schema under its old one, and the source of a move has lost the table, by a change
of its own or because its snapshot never had it. -/
structure Settled (req : ComposeRequest) : Prop where
  renames : ∀ bucket old, Renames req.apps bucket old →
    req.models.get bucket = none ∧ req.snapshots.get bucket = none ∧
      req.snapshots.get old = none ∧ ∀ s, req.models.get old = some s → s.Bare
  moves : ∀ src name, Declares req.models src name →
    if bucketOps req.snapshots req.models src = [] then ¬HasTable req.snapshots src name
    else ¬HasTable req.models src name

section Second

variable (req : ComposeRequest) (deltas : List SchemaDelta)

/-- The request of the second compose. -/
def ComposeRequest.again : ComposeRequest :=
  { req with snapshots := appliedSnapshots req deltas }

theorem hasTables_iff (m : OrdMap BucketKey AppliedSchema) (k : BucketKey) :
    hasTables m k = true ↔ ∃ s, m.get k = some s ∧ s.models.entries ≠ [] := by
  rw [hasTables, Option.any_eq_true]
  simp only [Bool.not_eq_true', List.isEmpty_eq_false_iff]

theorem modelSnapshot_cases (k : BucketKey) :
    req.models.get k = some (modelSnapshot req k) ∨
      req.models.get k = none ∧ modelSnapshot req k = emptySchemaFor k := by
  rw [modelSnapshot]
  cases req.models.get k with
  | none => exact .inr ⟨rfl, rfl⟩
  | some s => exact .inl rfl

/-- Applying a compose adds no table to a snapshot that the models do not have. -/
theorem hasTables_applied (k : BucketKey)
    (h : hasTables (appliedSnapshots req deltas) k = true) :
    hasTables req.snapshots k = true ∨ hasTables req.models k = true := by
  rw [hasTables_iff, appliedSnapshots_get] at h
  obtain ⟨s, hs, hne⟩ := h
  split_ifs at hs with hb hmoved
  · obtain rfl := Option.some.inj hs
    rcases modelSnapshot_cases req k with hmodel | ⟨-, hempty⟩
    · exact .inr ((hasTables_iff _ _).mpr ⟨_, hmodel, hne⟩)
    · rw [hempty] at hne
      exact absurd rfl hne
  · exact .inl ((hasTables_iff _ _).mpr ⟨s, hs, hne⟩)

/-- The guards that let the first compose pass let the second one pass. -/
theorem unguarded_again (hg : Unguarded req) (huntouched : Untouched req.snapshots req.apps)
    (hagain : Untouched (appliedSnapshots req deltas) req.apps) :
    Unguarded (req.again deltas) := by
  have hremap : req.remapped = req.snapshots := remap_of_untouched _ _ huntouched
  have hremap' : (req.again deltas).remapped = appliedSnapshots req deltas :=
    remap_of_untouched _ _ hagain
  obtain ⟨htomb, hlink⟩ := hg
  constructor
  · unfold tombstoneViolation at htomb ⊢
    show (if req.allowDestructive then none else _) = none
    split_ifs at htomb ⊢ with hallow
    · rfl
    rw [List.findSome?_eq_none_iff] at htomb ⊢
    intro app happ
    have hpass := htomb app happ
    split_ifs at hpass with hcond
    refine if_neg fun hcond' => hcond ?_
    rw [Bool.and_eq_true, Bool.or_eq_true] at hcond' ⊢
    refine ⟨hcond'.1, ?_⟩
    rcases hcond'.2 with hmodel | hsnap
    · exact .inl hmodel
    · exact (hasTables_applied req deltas _ hsnap).symm
  · rw [hremap']
    rw [hremap] at hlink
    unfold linkageViolation at hlink ⊢
    rw [List.findSome?_eq_none_iff] at hlink ⊢
    intro k _
    refine if_neg fun hcond => ?_
    rw [Bool.and_eq_true, Bool.and_eq_true, Bool.not_eq_true', Bool.not_eq_true'] at hcond
    obtain ⟨⟨hsnap, htombstoned⟩, hmodels⟩ := hcond
    rcases hasTables_applied req deltas k hsnap with hold | hmodel
    · obtain ⟨s, hs, -⟩ := (hasTables_iff _ _).mp hold
      have hpass := hlink k ((mem_keys_iff _ _).mpr ⟨s, hs⟩)
      split_ifs at hpass with hcond'
      exact hcond' (by
        rw [Bool.and_eq_true, Bool.and_eq_true, Bool.not_eq_true', Bool.not_eq_true']
        exact ⟨⟨hold, htombstoned⟩, hmodels⟩)
    · exact absurd (hmodels.symm.trans hmodel) Bool.false_ne_true

theorem declares_iff (src : BucketKey) (name : String) (before : OrdMap BucketKey AppliedSchema) :
    (Declares req.models src name ∧ HasTable before src name) ↔
      ∃ m ∈ bucketMoves before req.models, m.src = src ∧ m.model = name := by
  simp only [mem_bucketMoves]
  constructor
  · rintro ⟨⟨dest, s, t, from_, hs, ht, hfrom, hsrc⟩, srcSchema, hsrcSchema, hname⟩
    exact ⟨⟨src, dest, name⟩, ⟨s, t, from_, hs, ht, hfrom, hsrc, srcSchema, hsrcSchema, hname⟩,
      rfl, rfl⟩
  · rintro ⟨m, ⟨s, t, from_, hs, ht, hfrom, hsrc, srcSchema, hsrcSchema, hname⟩, rfl, rfl⟩
    exact ⟨⟨m.dest, s, t, from_, hs, ht, hfrom, hsrc⟩, srcSchema, hsrcSchema, hname⟩

/-- Where snapshots are not moved, the deltas of the first compose are those with operations. -/
structure Unrenamed : Prop where
  composed : Composed req deltas
  models : ∀ bucket old, Renames req.apps bucket old → req.models.get bucket = none
  before : Untouched req.snapshots req.apps

theorem Unrenamed.mem_iff (h : Unrenamed req deltas) (k : BucketKey) :
    k ∈ deltas.map SchemaDelta.bucket ↔ bucketOps req.snapshots req.models k ≠ [] := by
  have hremap : req.remapped = req.snapshots := remap_of_untouched _ _ h.before
  rw [h.composed.mem_iff k, hremap]
  constructor
  · rintro ⟨hk, hops | ⟨old, hren⟩⟩
    · exact hops
    · rw [mem_bucketsOf, mem_keys_iff, mem_keys_iff, (h.before k old hren).2,
        h.models k old hren] at hk
      rcases hk with ⟨_, hk⟩ | ⟨_, hk⟩ <;> cases hk
  · exact fun hops => ⟨mem_bucketsOf_of_ops _ _ _ hops, .inl hops⟩

theorem Unrenamed.get (h : Unrenamed req deltas) (k : BucketKey) :
    (appliedSnapshots req deltas).get k =
      if bucketOps req.snapshots req.models k = [] then req.snapshots.get k
      else some (modelSnapshot req k) := by
  rw [appliedSnapshots_get]
  by_cases hops : bucketOps req.snapshots req.models k = []
  · have hnot : k ∉ deltas.map SchemaDelta.bucket := by
      rw [h.mem_iff]
      exact fun hne => hne hops
    have hmoved : k ∉ movedFolders deltas := by
      intro hmem
      obtain ⟨b, hb, hren⟩ := h.composed.folders k hmem
      rw [ComposeRequest.remapped, remap_of_untouched _ _ h.before, mem_bucketsOf, mem_keys_iff,
        mem_keys_iff, (h.before b k hren).2, h.models b k hren] at hb
      rcases hb with ⟨_, hb⟩ | ⟨_, hb⟩ <;> cases hb
    rw [if_neg hnot, if_neg hmoved, if_pos hops]
  · rw [if_pos ((h.mem_iff req deltas k).mpr hops), if_neg hops]

/-- Renamed apps stay without snapshots unless a schema is left under an old label. -/
theorem Unrenamed.after_iff (h : Unrenamed req deltas) :
    Untouched (appliedSnapshots req deltas) req.apps ↔
      ∀ bucket old, Renames req.apps bucket old → ∀ s, req.models.get old = some s → s.Bare := by
  refine forall₃_congr fun bucket old hren => ?_
  obtain ⟨hold, hbucket⟩ := h.before bucket old hren
  have hnew : (appliedSnapshots req deltas).get bucket = none := by
    have hops : bucketOps req.snapshots req.models bucket = [] := by
      rw [bucketOps_of_no_snapshot _ _ _ hbucket, h.models bucket old hren]
      nofun
    rw [h.get, if_pos hops, hbucket]
  rw [and_iff_left hnew, h.get, ← bucketOps_of_no_snapshot _ _ _ hold]
  split_ifs with hops
  · exact iff_of_true hold hops
  · exact iff_of_false nofun hops

/-- The source of a declared move has the table after the first compose. -/
theorem Unrenamed.hasTable_iff (h : Unrenamed req deltas) (k : BucketKey) (name : String) :
    HasTable (appliedSnapshots req deltas) k name ↔
      if bucketOps req.snapshots req.models k = [] then HasTable req.snapshots k name
      else HasTable req.models k name := by
  rw [HasTable, h.get req deltas k]
  split_ifs with hops
  · rfl
  · rcases modelSnapshot_cases req k with hmodel | ⟨hnone, hempty⟩
    · rw [HasTable, hmodel]
    · rw [HasTable, hnone, hempty]
      constructor
      · rintro ⟨s, hs, hname⟩
        obtain rfl := Option.some.inj hs
        cases hname
      · rintro ⟨s, hs, -⟩
        cases hs

/-- Without a move that still applies, no bucket has operations after the first compose. -/
theorem Unrenamed.ops_nil (h : Unrenamed req deltas)
    (hmoves : bucketMoves (appliedSnapshots req deltas) req.models = []) (k : BucketKey) :
    bucketOps (appliedSnapshots req deltas) req.models k = [] := by
  rw [bucketOps_eq_nil_iff, hmoves]
  refine ⟨fun op hop => ?_, fun m hm => by cases hm⟩
  exfalso
  rw [ownOps, h.get req deltas k] at hop
  by_cases hops : bucketOps req.snapshots req.models k = []
  · rw [if_pos hops] at hop
    obtain ⟨hown, hdest⟩ := (bucketOps_eq_nil_iff _ _ _).mp hops
    have hsup := hown op hop
    -- What a move took away in the first compose would still be taken away.
    cases op with
    | dropTable name =>
      obtain ⟨m, hm, hmk⟩ := List.any_eq_true.mp hsup
      rw [Bool.and_eq_true, beq_iff_eq, beq_iff_eq] at hmk
      obtain ⟨hdecl, htable⟩ := (declares_iff req k name req.snapshots).mpr ⟨m, hm, hmk⟩
      have htable' : HasTable (appliedSnapshots req deltas) k name := by
        rw [h.hasTable_iff, if_pos hops]
        exact htable
      obtain ⟨m', hm', -⟩ := (declares_iff req k name _).mp ⟨hdecl, htable'⟩
      rw [hmoves] at hm'
      cases hm'
    | addTable t =>
      obtain ⟨m, hm, hmk⟩ := List.any_eq_true.mp hsup
      rw [Bool.and_eq_true, beq_iff_eq] at hmk
      exact hdest m hm hmk.1
    | _ => cases hsup
  · rw [if_neg hops, Option.getD_some] at hop
    rcases modelSnapshot_cases req k with hmodel | ⟨hnone, hempty⟩
    · rw [hmodel, Option.getD_some, diffSchemas_self] at hop
      cases hop
    · rw [hnone, hempty, Option.getD_none, diffSchemas_emptySchemaFor] at hop
      cases hop

theorem Unrenamed.nothing_iff (h : Unrenamed req deltas)
    (hafter : Untouched (appliedSnapshots req deltas) req.apps) :
    composeDeltas (req.again deltas) = .error .nothingToCompose ↔
      ∀ src name, Declares req.models src name →
        if bucketOps req.snapshots req.models src = [] then ¬HasTable req.snapshots src name
        else ¬HasTable req.models src name := by
  have hremap : (req.again deltas).remapped = appliedSnapshots req deltas :=
    remap_of_untouched _ _ hafter
  rw [composeDeltas_nothing_iff, hremap,
    and_iff_right (unguarded_again req deltas h.composed.unguarded h.before hafter)]
  have hmoves : (∀ src name, Declares req.models src name →
      if bucketOps req.snapshots req.models src = [] then ¬HasTable req.snapshots src name
      else ¬HasTable req.models src name) ↔
      bucketMoves (appliedSnapshots req deltas) req.models = [] := by
    rw [List.eq_nil_iff_forall_not_mem]
    constructor
    · intro hall m hm
      obtain ⟨hdecl, htable⟩ := (declares_iff req m.src m.model _).mpr ⟨m, hm, rfl, rfl⟩
      rw [h.hasTable_iff] at htable
      have hno := hall m.src m.model hdecl
      split_ifs at hno htable with hops
      · exact hno htable
      · exact hno htable
    · intro hnone src name hdecl
      by_contra hcon
      have htable : HasTable (appliedSnapshots req deltas) src name := by
        rw [h.hasTable_iff]
        split_ifs at hcon ⊢ with hops
        · exact not_not.mp hcon
        · exact not_not.mp hcon
      obtain ⟨m, hm, -⟩ := (declares_iff req src name _).mp ⟨hdecl, htable⟩
      exact hnone m hm
  rw [hmoves]
  constructor
  · intro hall
    rw [List.eq_nil_iff_forall_not_mem]
    intro m hm
    have hops : bucketOps (appliedSnapshots req deltas) req.models m.dest = [] := by
      by_contra hne
      exact hall m.dest (mem_bucketsOf_of_ops _ _ _ hne) (.inl hne)
    exact ((bucketOps_eq_nil_iff _ _ _).mp hops).2 m hm rfl
  · rintro hnil k hk (hops | ⟨old, hren⟩)
    · exact hops (h.ops_nil req deltas hnil k)
    · rcases (mem_bucketsOf _ _ _).mp hk with hk | hk
      · rw [mem_keys_iff, (hafter k old hren).2] at hk
        obtain ⟨_, hk⟩ := hk
        cases hk
      · have hmodel : req.models.get k = none := h.models k old hren
        obtain ⟨_, hk⟩ := (mem_keys_iff _ _).mp hk
        rw [show (req.again deltas).models = req.models from rfl, hmodel] at hk
        cases hk

theorem quiet_of_nothing (hc : Composed req deltas)
    (h : composeDeltas (req.again deltas) = .error .nothingToCompose) :
    Unrenamed req deltas ∧ Untouched (appliedSnapshots req deltas) req.apps := by
  have hnone : ∀ bucket old, Renames req.apps bucket old →
      bucket ∉ bucketsOf (req.again deltas).remapped req.models := fun bucket old hren hmem =>
    ((composeDeltas_nothing_iff _).mp h).2 bucket hmem (.inr ⟨old, hren⟩)
  have hafter : Untouched (appliedSnapshots req deltas) req.apps := by
    rw [untouched_iff]
    exact fun bucket old hren hmem =>
      hnone bucket old hren ((mem_bucketsOf _ _ _).mpr (.inl hmem))
  refine ⟨⟨hc, fun bucket old hren => ?_, ?_⟩, hafter⟩
  · rw [get_eq_none_iff]
    exact fun hmem => hnone bucket old hren ((mem_bucketsOf _ _ _).mpr (.inr hmem))
  · -- A snapshot that landed on a renamed app was composed, so it is still there.
    rw [untouched_iff]
    intro bucket old hren hmem
    have hbucket : bucket ∈ deltas.map SchemaDelta.bucket :=
      (hc.mem_iff bucket).mpr ⟨(mem_bucketsOf _ _ _).mpr (.inl hmem), .inr ⟨old, hren⟩⟩
    have hget := (hafter bucket old hren).2
    rw [appliedSnapshots_get, if_pos hbucket] at hget
    cases hget

theorem settled_iff (hc : Composed req deltas) :
    composeDeltas (req.again deltas) = .error .nothingToCompose ↔ Settled req := by
  constructor
  · intro h
    obtain ⟨hq, hafter⟩ := quiet_of_nothing req deltas hc h
    refine ⟨fun bucket old hren => ⟨hq.models bucket old hren, (hq.before bucket old hren).2,
      (hq.before bucket old hren).1, (hq.after_iff req deltas).mp hafter bucket old hren⟩, ?_⟩
    exact (hq.nothing_iff req deltas hafter).mp h
  · intro h
    have hq : Unrenamed req deltas := ⟨hc, fun bucket old hren => (h.renames bucket old hren).1,
      fun bucket old hren => ⟨(h.renames bucket old hren).2.2.1, (h.renames bucket old hren).2.1⟩⟩
    have hafter := (hq.after_iff req deltas).mpr fun bucket old hren =>
      (h.renames bucket old hren).2.2.2
    exact (hq.nothing_iff req deltas hafter).mpr h.moves

end Second

/-- **Converge.** The remap lets the old label win exactly when it sorts last, and after a compose
was applied the next one has nothing to do exactly when no annotation has an effect. -/
theorem compose_converges_iff (req : ComposeRequest) :
    (Remapped req.snapshots req.apps ↔ OldSortsLast req.snapshots req.apps) ∧
      ∀ deltas, composeDeltas req = .ok deltas →
        (composeDeltas (req.again deltas) = .error .nothingToCompose ↔ Settled req) :=
  ⟨remapped_iff _ _, fun deltas h => settled_iff req deltas (composed_of_ok req deltas h)⟩

/-! ## Requests -/

def shopApp : AppLifecycle := ⟨"shop", "main", none, false⟩

def shopBucket : BucketKey := ⟨"main", "shop"⟩

def postsSchema : AppliedSchema := .ofTables [.keyed "posts" .heerId]

/-- A first compose of one app. -/
def freshRequest : ComposeRequest where
  models := .ofList [(shopBucket, postsSchema)]
  snapshots := .empty
  apps := [shopApp]
  allowDestructive := false
  pkFlipJoinTableOption := none

def billingBucket : BucketKey := ⟨"main", "billing"⟩

/-- The posts move from `billing` to `shop` while `billing` gets another table, and an app is
called `archive` before it has models. -/
def movedRequest : ComposeRequest where
  models := .ofList [
    (billingBucket, .ofTables [.keyed "invoices" .heerId]),
    (shopBucket, .ofTables [
      { TableSchema.keyed "posts" .heerId with movedFromApp := some "billing" }])]
  snapshots := .ofList [(billingBucket, postsSchema)]
  apps := [shopApp, { shopApp with label := "billing" },
    { shopApp with label := "archive", renamedFrom := some "attic" }]
  allowDestructive := false
  pkFlipJoinTableOption := none

theorem movedRequest_settled : Settled movedRequest := by
  constructor
  · rintro bucket old ⟨app, happ, rfl, hprior⟩
    simp only [movedRequest, List.mem_cons, List.not_mem_nil, or_false] at happ
    rcases happ with rfl | rfl | rfl
    · cases hprior
    · cases hprior
    · obtain rfl := Option.some.inj hprior
      have hmodels : movedRequest.models.get ⟨"main", "attic"⟩ = none := by decide +kernel
      refine ⟨by decide +kernel, by decide +kernel, by decide +kernel, fun s hs => ?_⟩
      exact absurd (hmodels.symm.trans hs) (Option.some_ne_none s).symm
  · rintro src name ⟨dest, s, t, from_, hs, ht, hfrom, rfl⟩
    have hmoved : ∀ d ∈ movedRequest.models.entries, ∀ e ∈ d.2.models.entries,
        e.2.movedFromApp.all fun f => d.1.database = "main" ∧ f = "billing" ∧ e.1 = "posts" := by
      decide +kernel
    have hthis := hmoved (dest, s) ((mem_entries_iff _ _ _).mpr hs) (name, t)
      ((mem_entries_iff _ _ _).mpr ht)
    rw [hfrom] at hthis
    obtain ⟨hdatabase, rfl, rfl⟩ : dest.database = "main" ∧ from_ = "billing" ∧ name = "posts" :=
      of_decide_eq_true hthis
    have hops : bucketOps movedRequest.snapshots movedRequest.models ⟨"main", "billing"⟩ ≠ [] := by
      decide +kernel
    rw [hdatabase, if_neg hops]
    rintro ⟨s, hs, hmem⟩
    have hnone : (movedRequest.models.get billingBucket).all fun s => "posts" ∉ s.models.keys := by
      decide +kernel
    rw [show movedRequest.models.get billingBucket = some s from hs] at hnone
    exact of_decide_eq_true hnone hmem

/-- The move settles, since its source has a change of its own. -/
theorem compose_converges_moved : ∃ deltas, composeDeltas movedRequest = .ok deltas ∧
    composeDeltas (movedRequest.again deltas) = .error .nothingToCompose := by
  obtain ⟨deltas, hok, -⟩ := Fallible.exists_of_any (composeDeltas movedRequest)
    (fun _ => true) (by decide +kernel)
  exact ⟨deltas, hok, ((compose_converges_iff movedRequest).2 deltas hok).mpr
    movedRequest_settled⟩

/-- The app `billing` is now called `shop`. -/
def renamedRequest : ComposeRequest :=
  { freshRequest with
    snapshots := .ofList [(⟨"main", "billing"⟩, postsSchema)]
    apps := [{ shopApp with renamedFrom := some "billing" }] }

/-- The new label has a snapshot too, and it sorts after the old one. -/
def staleSnapshots : OrdMap BucketKey AppliedSchema :=
  .ofList [(⟨"main", "billing"⟩, postsSchema), (shopBucket, .empty)]

/-- **Rename.** After a rename was applied the next compose renames again, and a snapshot under
the new label replaces the old one when it sorts after it. -/
theorem rename_never_settles :
    (∃ deltas, composeDeltas renamedRequest = .ok deltas ∧
      composeDeltas (renamedRequest.again deltas) ≠ .error .nothingToCompose) ∧
    ¬Remapped staleSnapshots renamedRequest.apps := by
  constructor
  · obtain ⟨deltas, hok, hagain⟩ := Fallible.exists_of_any (composeDeltas renamedRequest)
      (fun deltas => (composeDeltas (renamedRequest.again deltas)).toOption.isSome)
      (by decide +kernel)
    refine ⟨deltas, hok, fun hnothing => ?_⟩
    rw [hnothing] at hagain
    cases hagain
  · intro h
    have hwins := h.wins { shopApp with renamedFrom := some "billing" } List.mem_cons_self
      ⟨"main", "billing"⟩ postsSchema rfl (by decide +kernel)
    exact absurd hwins (by decide +kernel)

end Djogi

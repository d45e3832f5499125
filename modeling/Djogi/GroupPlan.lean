import Djogi.BucketDiff
import Djogi.Segment

/-!
# What a key flip does to the rest of its delta

A delta with a key-flip group is planned by its groups alone:

* `groupSegments_error_iff`: the group path fails exactly when a group is refused;
* `groupSegments_labels`: every statement of the group path belongs to a flip;
* `planDelta_lowers_rest_iff`: the other operations are lowered, or the plan is an
  error, exactly when there are none or a group is refused.
-/

namespace Djogi

/-! ## Groups and other operations -/

def SchemaOperation.isFlip : SchemaOperation → Bool
  | .pkTypeFlipGroup _ | .pkTypeFlipMultiGroup _ => true
  | _ => false

/-- The lists of the self-reference metadata differ in length. -/
def PkTypeFlipGroup.Malformed (g : PkTypeFlipGroup) : Prop :=
  match g.selfFk with
  | none => False
  | some s => s.fkConstraintNames.length ≠ s.fkColumns.length ∨
      s.fkDeferrable.length ≠ s.fkColumns.length ∨
      s.fkInitiallyDeferred.length ≠ s.fkColumns.length

/-- A group the planner does not lower: malformed, or a partitioned parent in a cluster. -/
def Refused : SchemaOperation → Prop
  | .pkTypeFlipGroup g => g.Malformed
  | .pkTypeFlipMultiGroup groups =>
      (∃ g ∈ groups, g.Malformed) ∨
        (2 ≤ groups.length ∧ ∃ g ∈ groups, g.partitionedParent.isSome)
  | _ => False

/-- What the planner may make of an operation before it lowers it: a new table loses the
foreign keys of a reference cycle. -/
inductive Rewrites : SchemaOperation → SchemaOperation → Prop
  | same (op : SchemaOperation) : Rewrites op op
  | strip (t : TableSchema) (members : List String) :
      Rewrites (.addTable t) (.addTable (stripForeignKeys members t))

def LoweredIn (p : MigrationPlan) (op : SchemaOperation) : Prop :=
  ∃ op', Rewrites op op' ∧ ∃ sql, lowerOperation op' = .ok sql ∧
    ∃ seg ∈ p.segments, sql ∈ seg.statements

/-! ## Errors of the group path -/

theorem validateGroup_eq_error_iff (g : PkTypeFlipGroup) :
    (∃ e, validateGroup g = .error e) ↔ g.Malformed := by
  unfold validateGroup PkTypeFlipGroup.Malformed
  cases g.selfFk with
  | none => simp
  | some s =>
      simp only
      split_ifs with h
      · simpa using h
      · simpa using h

private theorem forM_validate_error_iff (groups : List PkTypeFlipGroup) :
    (∃ e, groups.forM validateGroup = .error e) ↔ ∃ g ∈ groups, g.Malformed := by
  induction groups with
  | nil => simp [pure, Except.pure]
  | cons g gs ih =>
      rw [List.exists_mem_cons_iff, ← validateGroup_eq_error_iff, ← ih]
      show (∃ e, (validateGroup g >>= fun _ => gs.forM validateGroup) = .error e) ↔ _
      cases validateGroup g with
      | error e => simp [bind, Except.bind]
      | ok u => simp [bind, Except.bind]

theorem buildSegments_error_iff (g : PkTypeFlipGroup) :
    (∃ e, buildSegments g = .error e) ↔ g.Malformed := by
  rw [← validateGroup_eq_error_iff, buildSegments]
  cases validateGroup g with
  | error e => simp
  | ok u => cases g.partitionedParent <;> simp

private theorem liftFlipError_error_iff {α : Type} (x : Except PkFlipError α) :
    (∃ e, liftFlipError x = .error e) ↔ ∃ e, x = .error e := by
  cases x <;> simp [liftFlipError]

theorem partitionedMultiParentClusterError_isSome_iff (groups : List PkTypeFlipGroup) :
    (∃ e, partitionedMultiParentClusterError groups = some e) ↔
      2 ≤ groups.length ∧ ∃ g ∈ groups, g.partitionedParent.isSome := by
  unfold partitionedMultiParentClusterError
  by_cases hlen : groups.length < 2
  · simp only [if_pos hlen, reduceCtorEq, exists_false, false_iff, not_and]
    omega
  · have hlen' : 2 ≤ groups.length := by omega
    by_cases hpart : ∃ g ∈ groups, g.partitionedParent.isSome
    · obtain ⟨g, hg, hp⟩ := hpart
      have hne : (groups.filter fun g => g.partitionedParent.isSome) ≠ [] :=
        List.ne_nil_of_mem (List.mem_filter.mpr ⟨hg, hp⟩)
      have hex : ∃ g ∈ groups, g.partitionedParent.isSome := ⟨g, hg, hp⟩
      simp only [if_neg hlen, hlen', hex, and_self, iff_true, List.isEmpty_map]
      rw [if_neg (by simpa using hne)]
      exact ⟨_, rfl⟩
    · have hnil : (groups.filter fun g => g.partitionedParent.isSome) = [] := by
        simpa [List.filter_eq_nil_iff] using hpart
      simp [hpart, hnil]

theorem buildSegmentsMulti_error_iff (groups : List PkTypeFlipGroup) :
    (∃ e, buildSegmentsMulti groups = .error e) ↔ Refused (.pkTypeFlipMultiGroup groups) := by
  have hvalid := forM_validate_error_iff groups
  rw [← liftFlipError_error_iff] at hvalid
  simp only [Refused, ← hvalid, ← partitionedMultiParentClusterError_isSome_iff]
  unfold buildSegmentsMulti
  cases hv : liftFlipError (groups.forM validateGroup) with
  | error e => simp
  | ok u =>
      rcases groups with _ | ⟨g, _ | ⟨g', gs⟩⟩
      · simp [partitionedMultiParentClusterError]
      · have hmal : ¬ g.Malformed := by
          rw [hv] at hvalid
          simpa using hvalid.symm
        rw [← buildSegments_error_iff, ← liftFlipError_error_iff] at hmal
        simp [partitionedMultiParentClusterError, hmal]
      · simp only
        cases partitionedMultiParentClusterError (g :: g' :: gs) <;> simp

theorem ownSegments_error_iff (op : SchemaOperation) :
    (∃ e, ownSegments op = .error e) ↔ Refused op := by
  cases op
  case pkTypeFlipGroup g =>
    show _ ↔ g.Malformed
    rw [← buildSegments_error_iff, ← liftFlipError_error_iff, ownSegments]
    cases liftFlipError (buildSegments g) <;> simp [Except.mapError]
  case pkTypeFlipMultiGroup groups =>
    rw [← buildSegmentsMulti_error_iff, ownSegments]
    cases buildSegmentsMulti groups <;> simp [Except.mapError]
  all_goals simp [ownSegments, Refused]

/-- **Errors of the group path.** -/
theorem groupSegments_error_iff (ops : List SchemaOperation) :
    (∃ e, groupSegments ops = .error e) ↔ ∃ op ∈ ops, Refused op := by
  induction ops with
  | nil => simp [groupSegments]
  | cons op ops ih =>
      rw [List.exists_mem_cons_iff, ← ih, ← ownSegments_error_iff, groupSegments]
      cases ownSegments op with
      | error e => simp
      | ok segs => cases groupSegments ops <;> simp [Except.map]

/-! ## Labels -/

/-- Labels of the group path start with `PkFlip`, those of no other operation with `P`. -/
def OperationSql.ofFlip (o : OperationSql) : Prop := o.label.toList.head? = some 'P'

def FlipOps (ops : List OperationSql) : Prop := ∀ o ∈ ops, o.ofFlip

def FlipSegments (segs : List Segment) : Prop := ∀ seg ∈ segs, FlipOps seg.statements

private theorem head_label {c : Char} (a b : String) (h : a.toList.head? = some c) :
    (a ++ b).toList.head? = some c := by
  rw [String.toList_append, List.head?_append, h, Option.some_or]

theorem flipOps_append (l₁ l₂ : List OperationSql) :
    FlipOps (l₁ ++ l₂) ↔ FlipOps l₁ ∧ FlipOps l₂ := by
  simp only [FlipOps, List.mem_append]
  exact ⟨fun h => ⟨fun o ho => h o (.inl ho), fun o ho => h o (.inr ho)⟩,
    fun h o ho => ho.elim (h.1 o) (h.2 o)⟩

theorem flipOps_cons (o : OperationSql) (l : List OperationSql) :
    FlipOps (o :: l) ↔ o.ofFlip ∧ FlipOps l := by
  simp [FlipOps]

theorem flipOps_nil : FlipOps [] := by simp [FlipOps]

theorem flipOps_map {α : Type} (l : List α) (f : α → OperationSql) (h : ∀ a, (f a).ofFlip) :
    FlipOps (l.map f) := by
  intro o ho
  obtain ⟨a, -, rfl⟩ := List.mem_map.mp ho
  exact h a

theorem flipOps_flatMap {α : Type} (l : List α) (f : α → List OperationSql)
    (h : ∀ a, FlipOps (f a)) : FlipOps (l.flatMap f) := by
  intro o ho
  obtain ⟨a, -, ha⟩ := List.mem_flatMap.mp ho
  exact h a o ha

theorem flipOps_ite (b : Bool) (l : List OperationSql) (h : FlipOps l) :
    FlipOps (if b then l else []) := by
  cases b
  · exact flipOps_nil
  · exact h

theorem backfillOp_ofFlip (label table column : String) (f : PkFlipFamily) (d : PkFlipDirection) :
    (backfillOp label table column f d).ofFlip := head_label _ _ rfl

theorem verifyOp_ofFlip (label : String) (s : Stmt) : (verifyOp label s).ofFlip :=
  head_label _ _ rfl

theorem concurrentIndexOp_ofFlip (label table column : String) (u : Bool) :
    (concurrentIndexOp label table column u).ofFlip := head_label _ _ rfl

theorem shadowFkOps_flip (table column target : String) (d : Deferral) :
    FlipOps (shadowFkOps table column target d) := by
  have hadd := head_label ("PkFlipAddFk " ++ table ++ " ") column
    (head_label _ _ (head_label _ _ rfl))
  have hval := head_label ("PkFlipValidateFk " ++ table ++ " ") column
    (head_label _ _ (head_label _ _ rfl))
  exact (flipOps_cons _ _).mpr ⟨hadd, (flipOps_cons _ _).mpr ⟨hval, flipOps_nil⟩⟩

theorem backfill_flip (g : PkTypeFlipGroup) (m : EmitMode) :
    FlipOps (emitBackfillStatementsWithMode g m) := by
  simp only [emitBackfillStatementsWithMode, flipOps_append]
  refine ⟨⟨⟨?_, ?_⟩, ?_⟩, ?_⟩
  · exact flipOps_ite _ _ ((flipOps_cons _ _).mpr ⟨backfillOp_ofFlip _ _ _ _ _, flipOps_nil⟩)
  · exact flipOps_map _ _ fun _ => backfillOp_ofFlip _ _ _ _ _
  · exact flipOps_map _ _ fun _ => backfillOp_ofFlip _ _ _ _ _
  · exact flipOps_flatMap _ _ fun _ => flipOps_map _ _ fun _ => backfillOp_ofFlip _ _ _ _ _

theorem verification_flip (g : PkTypeFlipGroup) (m : EmitMode) :
    FlipOps (emitVerificationStatementsWithMode g m) := by
  simp only [emitVerificationStatementsWithMode, flipOps_append]
  refine ⟨⟨⟨?_, ?_⟩, ?_⟩, ?_⟩
  · exact flipOps_ite _ _ ((flipOps_cons _ _).mpr ⟨verifyOp_ofFlip _ _, flipOps_nil⟩)
  · exact flipOps_map _ _ fun _ => verifyOp_ofFlip _ _
  · exact flipOps_map _ _ fun _ => verifyOp_ofFlip _ _
  · exact flipOps_flatMap _ _ fun _ => flipOps_map _ _ fun _ => verifyOp_ofFlip _ _

theorem concurrentIndex_flip (g : PkTypeFlipGroup) (m : EmitMode) :
    FlipOps (emitConcurrentIndexStatementsWithMode g m) := by
  simp only [emitConcurrentIndexStatementsWithMode, flipOps_append]
  refine ⟨⟨⟨?_, ?_⟩, ?_⟩, ?_⟩
  · exact flipOps_ite _ _ ((flipOps_cons _ _).mpr ⟨concurrentIndexOp_ofFlip _ _ _ _, flipOps_nil⟩)
  · exact flipOps_ite _ _ (flipOps_map _ _ fun _ => concurrentIndexOp_ofFlip _ _ _ _)
  · exact flipOps_map _ _ fun _ => concurrentIndexOp_ofFlip _ _ _ _
  · exact flipOps_flatMap _ _ fun _ => flipOps_map _ _ fun _ => concurrentIndexOp_ofFlip _ _ _ _

theorem childFk_flip (g : PkTypeFlipGroup) : FlipOps (emitChildFkStatements g) := by
  simp only [emitChildFkStatements, flipOps_append]
  refine ⟨⟨?_, ?_⟩, ?_⟩
  · unfold selfFkOps
    cases g.selfFk with
    | none => exact flipOps_nil
    | some s => exact flipOps_flatMap _ _ fun _ => shadowFkOps_flip _ _ _ _
  · exact flipOps_flatMap _ _ fun _ => shadowFkOps_flip _ _ _ _
  · exact flipOps_flatMap _ _ fun _ => flipOps_flatMap _ _ fun _ => shadowFkOps_flip _ _ _ _

theorem preparation_ofFlip (g : PkTypeFlipGroup) (m : EmitMode) :
    (emitPreparationWithMode g m).ofFlip := by
  cases m <;> exact head_label _ _ rfl

private theorem flipSegments_of_forall (segs : List Segment)
    (h : FlipOps (segs.flatMap Segment.statements)) : FlipSegments segs :=
  fun seg hs o ho => h o (List.mem_flatMap.mpr ⟨seg, hs, ho⟩)

private theorem segmentIfAny_statements (k : SegmentKind) (ops : List OperationSql) :
    (segmentIfAny k ops).flatMap Segment.statements = ops := by
  unfold segmentIfAny
  cases ops <;> simp

theorem buildSegments_flip (g : PkTypeFlipGroup) (segs : List Segment)
    (h : buildSegments g = .ok segs) : segs ≠ [] ∧ FlipSegments segs := by
  unfold buildSegments at h
  cases hv : validateGroup g with
  | error e => simp [hv] at h
  | ok u =>
      have hproof : (emitNotNullProof g).ofFlip := head_label _ _ rfl
      cases hp : g.partitionedParent with
      | none =>
          have hcut : (emitCutover g).ofFlip := head_label _ _ rfl
          simp only [hv, hp, Except.ok.injEq] at h
          subst h
          refine ⟨by simp, flipSegments_of_forall _ ?_⟩
          simp only [List.flatMap_append, List.flatMap_cons, List.flatMap_nil,
            segmentIfAny_statements, flipOps_append, flipOps_cons, flipOps_nil, and_true]
          exact ⟨⟨⟨⟨⟨preparation_ofFlip g _, backfill_flip g _⟩, verification_flip g _⟩,
            concurrentIndex_flip g _⟩, childFk_flip g⟩, hproof, hcut⟩
      | some part =>
          have hprep : (partitionedPrep g).ofFlip := by
            simp only [partitionedPrep]
            split_ifs <;> exact head_label _ _ rfl
          have hback : (emitPartitionedBackfillOnly g).ofFlip := head_label _ _ rfl
          have hindex : (emitPartitionedIndexes g part).ofFlip := head_label _ _ rfl
          have hself : FlipOps (emitPartitionedSelfFkIndexes g) :=
            flipOps_map _ _ fun _ => head_label _ _ rfl
          have hcut : (emitPartitionedCutoverWithCascade g part).ofFlip := head_label _ _ rfl
          simp only [hv, hp, Except.ok.injEq] at h
          subst h
          refine ⟨by simp [buildSegmentsPartitioned], flipSegments_of_forall _ ?_⟩
          simp only [buildSegmentsPartitioned, List.flatMap_append, List.flatMap_cons,
            List.flatMap_nil, segmentIfAny_statements, flipOps_append, flipOps_cons, flipOps_nil,
            and_true]
          exact ⟨⟨⟨hprep, ⟨hback, backfill_flip g _⟩, ⟨verifyOp_ofFlip _ _, verification_flip g _⟩,
            ⟨hindex, hself⟩, concurrentIndex_flip g _⟩, childFk_flip g⟩, hproof, hcut⟩

theorem multiSegments_flip (groups : List PkTypeFlipGroup) :
    multiSegments groups ≠ [] ∧ FlipSegments (multiSegments groups) := by
  have hprep (ops : List OperationSql) :
      (mergedOp ("PkFlipPrepMulti [" ++ clusterLabel groups ++ "]") ops).ofFlip :=
    head_label _ _ (head_label _ _ rfl)
  have hproof (ops : List OperationSql) :
      (mergedOp ("PkFlipNotNullProofMulti [" ++ clusterLabel groups ++ "]") ops).ofFlip :=
    head_label _ _ (head_label _ _ rfl)
  have hcut : (emitCutoverMulti groups).ofFlip := head_label _ _ (head_label _ _ rfl)
  refine ⟨by simp [multiSegments], flipSegments_of_forall _ ?_⟩
  simp only [multiSegments, List.flatMap_append, List.flatMap_cons, List.flatMap_nil,
    segmentIfAny_statements, flipOps_append, flipOps_cons, flipOps_nil, and_true]
  exact ⟨⟨⟨⟨⟨hprep _, flipOps_flatMap _ _ fun _ => backfill_flip _ _⟩,
    flipOps_flatMap _ _ fun _ => verification_flip _ _⟩,
    flipOps_flatMap _ _ fun _ => concurrentIndex_flip _ _⟩,
    flipOps_flatMap _ _ fun _ => childFk_flip _⟩, hproof _, hcut⟩

theorem buildSegmentsMulti_flip (groups : List PkTypeFlipGroup) (segs : List Segment)
    (h : buildSegmentsMulti groups = .ok segs) :
    (groups ≠ [] → segs ≠ []) ∧ FlipSegments segs := by
  unfold buildSegmentsMulti at h
  cases hv : liftFlipError (groups.forM validateGroup) with
  | error e =>
      rw [hv] at h
      cases h
  | ok u =>
      rw [hv] at h
      rcases groups with _ | ⟨g, _ | ⟨g', gs⟩⟩
      · simp only [Except.ok.injEq] at h
        subst h
        exact ⟨fun hne => absurd rfl hne, by simp [FlipSegments]⟩
      · simp only at h
        cases hb : buildSegments g with
        | error e => simp [hb, liftFlipError] at h
        | ok segs' =>
            simp only [hb, liftFlipError, Except.ok.injEq] at h
            subst h
            exact ⟨fun _ => (buildSegments_flip g segs' hb).1, (buildSegments_flip g segs' hb).2⟩
      · simp only at h
        cases hp : partitionedMultiParentClusterError (g :: g' :: gs) with
        | some e => simp [hp] at h
        | none =>
            simp only [hp, Except.ok.injEq] at h
            subst h
            exact ⟨fun _ => (multiSegments_flip _).1, (multiSegments_flip _).2⟩

theorem ownSegments_flip (op : SchemaOperation) (segs : List Segment)
    (h : ownSegments op = .ok segs) :
    (opGroups op ≠ [] → segs ≠ []) ∧ FlipSegments segs := by
  cases op
  case pkTypeFlipGroup g =>
    cases hb : buildSegments g with
    | error e => simp [ownSegments, hb, liftFlipError, Except.mapError] at h
    | ok segs' =>
        simp only [ownSegments, hb, liftFlipError, Except.mapError, Except.ok.injEq] at h
        subst h
        exact ⟨fun _ => (buildSegments_flip g segs' hb).1, (buildSegments_flip g segs' hb).2⟩
  case pkTypeFlipMultiGroup groups =>
    cases hb : buildSegmentsMulti groups with
    | error e => simp [ownSegments, hb, Except.mapError] at h
    | ok segs' =>
        simp only [ownSegments, hb, Except.mapError, Except.ok.injEq] at h
        subst h
        exact buildSegmentsMulti_flip groups segs' hb
  all_goals
    simp only [ownSegments, Except.ok.injEq] at h
    subst h
    exact ⟨fun hne => absurd rfl hne, by simp [FlipSegments]⟩

/-- **Labels of the group path.** -/
theorem groupSegments_labels (ops : List SchemaOperation) (segs : List Segment)
    (h : groupSegments ops = .ok segs) :
    (groupsOf ops ≠ [] → segs ≠ []) ∧ FlipSegments segs := by
  induction ops generalizing segs with
  | nil =>
      simp only [groupSegments, Except.ok.injEq] at h
      subst h
      exact ⟨fun hne => absurd rfl hne, by simp [FlipSegments]⟩
  | cons op ops ih =>
      rw [groupSegments] at h
      cases hown : ownSegments op with
      | error e => simp [hown] at h
      | ok own =>
          cases hrest : groupSegments ops with
          | error e => simp [hown, hrest, Except.map] at h
          | ok rest =>
              simp only [hown, hrest, Except.map, Except.ok.injEq] at h
              subst h
              obtain ⟨hne, hflip⟩ := ownSegments_flip op own hown
              obtain ⟨hne', hflip'⟩ := ih rest hrest
              refine ⟨?_, ?_⟩
              · intro h
                rw [groupsOf, List.flatMap_cons, Ne, List.append_eq_nil_iff, not_and_or] at h
                rw [Ne, List.append_eq_nil_iff, not_and_or]
                exact h.imp hne hne'
              · intro seg hseg
                rcases List.mem_append.mp hseg with hs | hs
                · exact hflip seg hs
                · exact hflip' seg hs

/-! ## Operations outside the group path -/

private theorem not_ofFlip {c : Char} (o : OperationSql) (h : o.label.toList.head? = some c)
    (hc : c ≠ 'P') : ¬ o.ofFlip := by
  intro hp
  rw [OperationSql.ofFlip, h, Option.some.injEq] at hp
  exact hc hp

private theorem map_eq_ok {ε α β : Type} (x : Except ε α) (f : α → β) (b : β)
    (h : x.map f = .ok b) : ∃ a, f a = b := by
  cases x with
  | error e => cases h
  | ok a => exact ⟨a, by simpa [Except.map] using h⟩

theorem lowerOperation_label (op : SchemaOperation) (sql : OperationSql)
    (h : lowerOperation op = .ok sql) (hop : op.isFlip = false) : ¬ sql.ofFlip := by
  cases op
  case addTable t =>
    obtain ⟨storage, rfl⟩ := map_eq_ok _ _ _ h
    exact not_ofFlip (c := 'A') _ (head_label _ _ rfl) (by decide)
  case alterColumn table column change =>
    simp only [lowerOperation, Sql.emitAlterColumn] at h
    cases hl : lowerColumnChange table column change with
    | none => simp [hl] at h
    | some l =>
        simp only [hl, Except.ok.injEq] at h
        subst h
        refine not_ofFlip (c := 'A') _ ?_ (by decide)
        simp only [String.append_assoc]
        exact head_label _ _ rfl
  case addIndex idx =>
    obtain ⟨create, rfl⟩ := map_eq_ok _ _ _ h
    refine not_ofFlip (c := 'A') _ (head_label _ _ ?_) (by decide)
    split_ifs <;> rfl
  case dropIndex idx =>
    obtain ⟨create, rfl⟩ := map_eq_ok _ _ _ h
    refine not_ofFlip (c := 'D') _ (head_label _ _ ?_) (by decide)
    split_ifs <;> rfl
  case setStorageParams table from_ to_ =>
    simp only [lowerOperation, emitSetStorageParams] at h
    cases hu : renderStorageChange table from_ to_ with
    | error e => simp [hu, bind, Except.bind] at h
    | ok up =>
        cases hd : renderStorageChange table to_ from_ with
        | error e => simp [hu, hd, bind, Except.bind] at h
        | ok down =>
            simp only [hu, hd, bind, Except.bind, Except.ok.injEq] at h
            subst h
            exact not_ofFlip (c := 'S') _ (head_label _ _ rfl) (by decide)
  case pkTypeFlip | unsupported => cases h
  case pkTypeFlipGroup | pkTypeFlipMultiGroup => cases hop
  all_goals obtain rfl := Except.ok.inj h
  case dropTable => exact not_ofFlip (c := 'D') _ (head_label _ _ rfl) (by decide)
  case renameTable =>
    exact not_ofFlip (c := 'R') _
      (head_label _ _ (head_label _ _ (head_label _ _ rfl))) (by decide)
  case addColumn =>
    exact not_ofFlip (c := 'A') _
      (head_label _ _ (head_label _ _ (head_label _ _ rfl))) (by decide)
  case dropColumn =>
    exact not_ofFlip (c := 'D') _
      (head_label _ _ (head_label _ _ (head_label _ _ rfl))) (by decide)
  case renameColumn =>
    exact not_ofFlip (c := 'R') _
      (head_label _ _ (head_label _ _ (head_label _ _ (head_label _ _ (head_label _ _ rfl))))) (by decide)
  case addForeignKey =>
    exact not_ofFlip (c := 'A') _
      (head_label _ _ (head_label _ _ (head_label _ _ rfl))) (by decide)
  case dropForeignKey =>
    exact not_ofFlip (c := 'D') _
      (head_label _ _ (head_label _ _ (head_label _ _ rfl))) (by decide)
  case addExclusionConstraint =>
    exact not_ofFlip (c := 'A') _
      (head_label _ _ (head_label _ _ (head_label _ _ rfl))) (by decide)
  case dropExclusionConstraint =>
    exact not_ofFlip (c := 'D') _
      (head_label _ _ (head_label _ _ (head_label _ _ rfl))) (by decide)
  case addEnum => exact not_ofFlip (c := 'A') _ (head_label _ _ rfl) (by decide)
  case dropEnum => exact not_ofFlip (c := 'D') _ (head_label _ _ rfl) (by decide)
  case addEnumVariant =>
    exact not_ofFlip (c := 'A') _
      (head_label _ _ (head_label _ _ (head_label _ _ rfl))) (by decide)
  case setTableComment => exact not_ofFlip (c := 'S') _ (head_label _ _ rfl) (by decide)
  case setTablespace => exact not_ofFlip (c := 'S') _ (head_label _ _ rfl) (by decide)
  case renameApp =>
    exact not_ofFlip (c := 'R') _
      (head_label _ _ (head_label _ _ (head_label _ _ rfl))) (by decide)
  case moveModelBetweenApps =>
    exact not_ofFlip (c := 'M') _
      (head_label _ _ (head_label _ _ (head_label _ _ (head_label _ _ (head_label _ _ (head_label _ _ rfl)))))) (by decide)

theorem Rewrites.isFlip_eq {op op' : SchemaOperation} (h : Rewrites op op') :
    op'.isFlip = op.isFlip := by
  cases h <;> rfl

/-- A plan made of flip segments lowers no other operation. -/
theorem not_loweredIn (p : MigrationPlan) (hp : FlipSegments p.segments) (op : SchemaOperation)
    (hop : op.isFlip = false) : ¬ LoweredIn p op := by
  rintro ⟨op', hrw, sql, hsql, seg, hseg, hmem⟩
  exact lowerOperation_label op' sql hsql (hrw.isFlip_eq.trans hop) (hp seg hseg sql hmem)

/-! ## The plan of a delta with a group -/

theorem planDelta_of_groups (d : SchemaDelta) (hclass : d.classification ≠ .noOp)
    (segs : List Segment) (hsegs : groupSegments d.operations = .ok segs) (hne : segs ≠ []) :
    planDelta d = .ok ⟨d.bucket, d.classification, segs⟩ := by
  rw [planDelta, if_neg hclass, hsegs]
  cases segs with
  | nil => exact absurd rfl hne
  | cons s r => rfl

theorem planDelta_of_error (d : SchemaDelta) (hclass : d.classification ≠ .noOp)
    (e : SqlEmitError) (he : groupSegments d.operations = .error e) :
    planDelta d = .error (.error e) := by
  rw [planDelta, if_neg hclass, he]

/-- **The rest of a delta with a flip.** Every other operation is lowered into the plan, or
there is no plan, exactly when the delta has no other operation or a group is refused. -/
theorem planDelta_lowers_rest_iff (d : SchemaDelta) (hclass : d.classification ≠ .noOp)
    (hflip : groupsOf d.operations ≠ []) :
    (∀ plan, planDelta d = .ok plan →
        ∀ op ∈ d.operations, op.isFlip = false → LoweredIn plan op) ↔
      (∀ op ∈ d.operations, op.isFlip = true) ∨ ∃ op ∈ d.operations, Refused op := by
  rw [← groupSegments_error_iff]
  cases hg : groupSegments d.operations with
  | error e => simp [planDelta_of_error d hclass e hg]
  | ok segs =>
      obtain ⟨hne, hlabels⟩ := groupSegments_labels d.operations segs hg
      simp only [planDelta_of_groups d hclass segs hg (hne hflip), Except.ok.injEq, forall_eq',
        reduceCtorEq, exists_false, or_false]
      refine forall₂_congr fun op _ => ?_
      rw [← Bool.not_eq_false]
      exact ⟨fun h hop => not_loweredIn _ hlabels op hop (h hop), fun h hop => absurd hop h⟩

/-- One table whose key flips, with or without a new column. -/
def flippedUsers (kind : PkKindSchema) (columns : List ColumnSchema) : AppliedSchema :=
  .ofTables [{ TableSchema.keyed "users" kind with columns := .bare "id" "BIGINT" :: columns }]

/-- The delta of the key flip alone. -/
theorem planDelta_lowers_rest_alone : ∃ d,
    diffBucketMaps (inMain (flippedUsers .heerId []))
      (inMain (flippedUsers .heerIdRecencyBiased [])) = .ok [d] ∧
    ∀ plan, planDelta d = .ok plan →
      ∀ op ∈ d.operations, op.isFlip = false → LoweredIn plan op := by
  have htest : (diffBucketMaps (inMain (flippedUsers .heerId []))
      (inMain (flippedUsers .heerIdRecencyBiased []))).toOption.map
        (fun ds => ds.map fun d => (decide (d.classification = .noOp),
          (groupsOf d.operations).isEmpty, d.operations.all SchemaOperation.isFlip)) =
      some [(false, false, true)] := by
    decide +kernel
  cases h : diffBucketMaps (inMain (flippedUsers .heerId []))
      (inMain (flippedUsers .heerIdRecencyBiased [])) with
  | error e => simp [h, Except.toOption] at htest
  | ok ds =>
      rcases ds with _ | ⟨d, _ | ⟨d', ds⟩⟩
      · simp [h, Except.toOption] at htest
      · simp only [h, Except.toOption, Option.map_some, List.map_cons, List.map_nil,
          Option.some.injEq, List.cons.injEq, and_true, Prod.mk.injEq, decide_eq_false_iff_not,
          List.isEmpty_eq_false_iff, List.all_eq_true] at htest
        obtain ⟨hclass, hgroups, hall⟩ := htest
        exact ⟨d, rfl, (planDelta_lowers_rest_iff d hclass hgroups).mpr (.inl hall)⟩
      · simp [h, Except.toOption] at htest

/-- The new column of a table whose key flips is in the delta and in no segment. -/
theorem planDelta_swallows_column : ∃ d plan,
    diffBucketMaps (inMain (flippedUsers .heerId []))
      (inMain (flippedUsers .heerIdRecencyBiased [.bare "nick" "TEXT"])) = .ok [d] ∧
    d.classification = .pkTypeFlip false false ∧ groupsOf d.operations ≠ [] ∧
    planDelta d = .ok plan ∧
    .addColumn "users" (.bare "nick" "TEXT") ∈ d.operations ∧
    ¬ LoweredIn plan (.addColumn "users" (.bare "nick" "TEXT")) := by
  have htest : (diffBucketMaps (inMain (flippedUsers .heerId []))
      (inMain (flippedUsers .heerIdRecencyBiased [.bare "nick" "TEXT"]))).toOption.map
        (fun ds => ds.map fun d => (decide (d.classification = .pkTypeFlip false false),
          (groupsOf d.operations).isEmpty,
          decide (SchemaOperation.addColumn "users" (.bare "nick" "TEXT") ∈ d.operations),
          (groupSegments d.operations).isOk)) = some [(true, false, true, true)] := by
    decide +kernel
  cases h : diffBucketMaps (inMain (flippedUsers .heerId []))
      (inMain (flippedUsers .heerIdRecencyBiased [.bare "nick" "TEXT"])) with
  | error e => simp [h, Except.toOption] at htest
  | ok ds =>
      rcases ds with _ | ⟨d, _ | ⟨d', ds⟩⟩
      · simp [h, Except.toOption] at htest
      · simp only [h, Except.toOption, Option.map_some, List.map_cons, List.map_nil,
          Option.some.injEq, List.cons.injEq, and_true, Prod.mk.injEq, decide_eq_true_eq,
          List.isEmpty_eq_false_iff] at htest
        obtain ⟨hclass, hgroups, hmem, hok⟩ := htest
        cases hsegs : groupSegments d.operations with
        | error e => simp [hsegs, Except.isOk, Except.toBool] at hok
        | ok segs =>
            obtain ⟨hne, hlabels⟩ := groupSegments_labels d.operations segs hsegs
            have hplan := planDelta_of_groups d (by simp [hclass]) segs hsegs (hne hgroups)
            exact ⟨d, _, rfl, hclass, hgroups, hplan, hmem, not_loweredIn _ hlabels _ rfl⟩
      · simp [h, Except.toOption] at htest

end Djogi

import Djogi.Live.Patterns
import Djogi.Live.TypeChange
import Djogi.Volatility

/-!
# Online-safety classification

`live_migrate/classify.rs`: the verdict on each operation of a delta, and which verdicts of the
live path have a pattern.

* `classifyDelta_eq`: one verdict for each operation that is no key flip, in their order;
* `verdict_raised`: more rows make no operation safe;
* `live_path_has_pattern_iff`: when every operation of the live path has a pattern.
-/

namespace Djogi.Live

inductive LoggingProfile
  | light | balanced | strictAudit
  deriving DecidableEq, Repr

inductive TargetDatabase
  | application | crudLog | eventLog
  deriving DecidableEq, Repr

inductive DefaultVolatility
  | immutable | stable | volatile
  deriving DecidableEq, Repr

/-- The maps are only read. -/
structure ClassifyContext where
  estimatedRows : Option ℕ
  validationThresholdRows : ℕ
  multiFkThreshold : ℕ
  loggingProfile : LoggingProfile
  targetDatabase : TargetDatabase
  inboundFkCounts : String → Option ℕ
  defaultVolatilityOverrides : String × String → Option DefaultVolatility

/-! ## Single operations -/

def isPkTypeFlipOperation : SchemaOperation → Bool
  | .pkTypeFlip .. | .pkTypeFlipGroup _ | .pkTypeFlipMultiGroup _ => true
  | _ => false

def classifierApplies (ctx : ClassifyContext) : Bool :=
  match ctx.targetDatabase with
  | .application => true
  | .crudLog => ctx.loggingProfile = .strictAudit
  | .eventLog => false

/-- Only an empty table is safe. -/
def classifyOnEmpty (ctx : ClassifyContext) (otherwise : OnlineSafetyClassification) :
    OnlineSafetyClassification :=
  if ctx.estimatedRows = some 0 then .onlineSafe else otherwise

def classifyAddColumn (table : String) (column : ColumnSchema) (ctx : ClassifyContext) :
    OnlineSafetyClassification :=
  if column.generated.isSome then classifyOnEmpty ctx .offlineOnly
  else
    match column.defaultSql with
    | none => if column.nullable then .onlineSafe else .expandContract
    | some default =>
        match ctx.defaultVolatilityOverrides (table, column.name) with
        | some .immutable | some .stable => .onlineSafe
        | some .volatile => .expandContract
        | none =>
            match classifyDefaultExpression default.toList with
            | .immutable | .stable => .onlineSafe
            | .volatile => .expandContract

def belowThreshold (ctx : ClassifyContext) : Bool :=
  ctx.estimatedRows.any fun rows => rows ≤ ctx.validationThresholdRows

def classifyValidationAgainstThreshold (ctx : ClassifyContext) : OnlineSafetyClassification :=
  if belowThreshold ctx then .onlineSafe else .expandContract

def classifyCodecTransition (from_ to_ : Option String) : OnlineSafetyClassification :=
  match from_, to_ with
  | some a, some b => if a = b then .onlineSafe else .expandContract
  | none, some _ | some _, none => .offlineOnly
  | none, none => .onlineSafe

def classifyColumnChange (change : ColumnChange) (ctx : ClassifyContext) :
    OnlineSafetyClassification :=
  match change with
  | .setNullable nowNullable =>
      if nowNullable then .onlineSafe else classifyValidationAgainstThreshold ctx
  | .setDefault _ => .onlineSafe
  | .changeType _ _ (some _) => .offlineOnly
  | .changeType from_ to_ none => classifyTypeChange from_.toList to_.toList
  | .setCheck _ to_ =>
      if to_.isSome then classifyValidationAgainstThreshold ctx else .onlineSafe
  | .setUnique newUnique => if newUnique then .expandContract else .onlineSafe
  | .setIndexed nowIndexed => if nowIndexed then .expandContract else .onlineSafe
  | .setGenerated .. => .offlineOnly
  | .setIdentity .. | .setComment .. => .onlineSafe
  | .codecChange fromCodec toCodec => classifyCodecTransition fromCodec toCodec

def classifyIndexAddition (index : IndexSchema) (ctx : ClassifyContext) :
    OnlineSafetyClassification :=
  match index.kind with
  | .uniqueConstraint | .uniqueIndex => .expandContract
  | .nonUnique =>
      if index.requiresOutOfTransaction then .onlineSafe else classifyOnEmpty ctx .expandContract

def classifyDropTable (table : String) (ctx : ClassifyContext) : OnlineSafetyClassification :=
  if ctx.multiFkThreshold ≤ (ctx.inboundFkCounts table).getD 0 then .expandContract
  else .fastLockDestructiveGuarded

def classifyOperation (op : SchemaOperation) (ctx : ClassifyContext) :
    OnlineSafetyClassification :=
  if isPkTypeFlipOperation op then .offlineOnly
  else if !classifierApplies ctx then .onlineSafe
  else
    match op with
    | .addColumn table column => classifyAddColumn table column ctx
    | .dropColumn .. => .fastLockDestructiveGuarded
    | .alterColumn _ _ change => classifyColumnChange change ctx
    | .addForeignKey .. => classifyValidationAgainstThreshold ctx
    | .addExclusionConstraint .. => classifyOnEmpty ctx .offlineOnly
    | .addIndex index => classifyIndexAddition index ctx
    | .dropTable table => classifyDropTable table ctx
    | .dropEnum _ | .setTablespace .. | .unsupported _ => .offlineOnly
    | .pkTypeFlip .. | .pkTypeFlipGroup _ | .pkTypeFlipMultiGroup _ => .offlineOnly
    | .renameColumn .. | .dropForeignKey .. | .dropExclusionConstraint .. | .dropIndex _
    | .addTable _ | .renameTable .. | .addEnum _ | .addEnumVariant .. | .renameApp ..
    | .moveModelBetweenApps .. | .setTableComment .. | .setStorageParams .. => .onlineSafe

/-! ## A delta -/

def indexTargetsOverlap : IndexTargetSchema → IndexTargetSchema → Bool
  | .columns left, .columns right => left.any fun l => right.any fun r => l.name = r.name
  | _, _ => false

def indexesReplaceEachOther (add drop : IndexSchema) : Bool :=
  add.table = drop.table && indexTargetsOverlap add.target drop.target

/-- A replacement that is not built and dropped out of transactions. -/
def replacementRefused (add drop : IndexSchema) : Bool :=
  indexesReplaceEachOther add drop &&
    (!add.requiresOutOfTransaction || !drop.requiresOutOfTransaction)

def indexReplacementRequiresRefusal (op : SchemaOperation) (ops : List SchemaOperation) : Bool :=
  match op with
  | .addIndex add => ops.any fun other =>
      match other with
      | .dropIndex drop => replacementRefused add drop
      | _ => false
  | .dropIndex drop => ops.any fun other =>
      match other with
      | .addIndex add => replacementRefused add drop
      | _ => false
  | _ => false

def addsForeignKeyTo (table : String) : SchemaOperation → Bool
  | .addForeignKey t .. => t = table
  | _ => false

/-- Many keys on one table are staged. -/
def manyForeignKeys (ops : List SchemaOperation) (ctx : ClassifyContext) (op : SchemaOperation) :
    Bool :=
  match op with
  | .addForeignKey table .. => ctx.multiFkThreshold ≤ ops.countP (addsForeignKeyTo table)
  | _ => false

def verdictIn (ops : List SchemaOperation) (ctx : ClassifyContext) (op : SchemaOperation) :
    OnlineSafetyClassification :=
  if indexReplacementRequiresRefusal op ops then .offlineOnly
  else if manyForeignKeys ops ctx op then .expandContract
  else classifyOperation op ctx

def classifyDelta (ops : List SchemaOperation) (ctx : ClassifyContext) :
    List (SchemaOperation × OnlineSafetyClassification) :=
  if !classifierApplies ctx then
    ops.filterMap fun op => if isPkTypeFlipOperation op then none else some (op, .onlineSafe)
  else
    ops.filterMap fun op =>
      if isPkTypeFlipOperation op then none else some (op, verdictIn ops ctx op)

/-! ## One verdict for each operation -/

theorem classifyDelta_eq (ops : List SchemaOperation) (ctx : ClassifyContext) :
    classifyDelta ops ctx = (ops.filter fun op => !isPkTypeFlipOperation op).map fun op =>
      (op, if classifierApplies ctx then verdictIn ops ctx op else .onlineSafe) := by
  have key (f : SchemaOperation → OnlineSafetyClassification) (l : List SchemaOperation) :
      (l.filterMap fun op => if isPkTypeFlipOperation op then none else some (op, f op)) =
        (l.filter fun op => !isPkTypeFlipOperation op).map fun op => (op, f op) := by
    induction l with
    | nil => rfl
    | cons op l ih =>
      cases h : isPkTypeFlipOperation op <;> simp [h, ih]
  unfold classifyDelta
  cases classifierApplies ctx with
  | true => exact key (verdictIn ops ctx) ops
  | false => exact key (fun _ => .onlineSafe) ops

/-! ## More rows -/

/-- An estimate that is not lower; no estimate is the highest. -/
def AtLeast (raised estimatedRows : Option ℕ) : Prop :=
  ∀ n, raised = some n → ∃ m, estimatedRows = some m ∧ m ≤ n

def ClassifyContext.raise (ctx : ClassifyContext) (raised : Option ℕ) : ClassifyContext :=
  { ctx with estimatedRows := raised }

section Raised

variable (ctx : ClassifyContext) (raised : Option ℕ) (h : AtLeast raised ctx.estimatedRows)

include h

theorem classifyOnEmpty_raised (otherwise : OnlineSafetyClassification)
    (hsafe : classifyOnEmpty (ctx.raise raised) otherwise = .onlineSafe) :
    classifyOnEmpty ctx otherwise = .onlineSafe := by
  unfold classifyOnEmpty at hsafe ⊢
  change (if raised = some 0 then _ else _) = _ at hsafe
  by_cases hzero : raised = some 0
  · obtain ⟨m, hm, hle⟩ := h 0 hzero
    rw [hm, Nat.le_zero.mp hle, if_pos rfl]
  · rw [if_neg hzero] at hsafe
    rw [hsafe, ite_self]

theorem classifyValidation_raised
    (hsafe : classifyValidationAgainstThreshold (ctx.raise raised) = .onlineSafe) :
    classifyValidationAgainstThreshold ctx = .onlineSafe := by
  have hbelow : belowThreshold (ctx.raise raised) = true := by
    by_contra hnot
    rw [classifyValidationAgainstThreshold, if_neg hnot] at hsafe
    cases hsafe
  change raised.any _ = true at hbelow
  cases raised with
  | none => cases hbelow
  | some n =>
    obtain ⟨m, hm, hmn⟩ := h n rfl
    have hthreshold : m ≤ ctx.validationThresholdRows := hmn.trans (of_decide_eq_true hbelow)
    simp [classifyValidationAgainstThreshold, belowThreshold, hm, hthreshold]

theorem classifyOperation_raised (op : SchemaOperation)
    (hsafe : classifyOperation op (ctx.raise raised) = .onlineSafe) :
    classifyOperation op ctx = .onlineSafe := by
  unfold classifyOperation at hsafe ⊢
  split at hsafe
  · cases hsafe
  · rename_i hflip
    rw [if_neg hflip]
    change (if (!classifierApplies ctx) = true then _ else _) = _ at hsafe
    split at hsafe
    · rename_i happlies
      rw [if_pos happlies]
    · rename_i happlies
      rw [if_neg happlies]
      cases op with
      | addColumn table column =>
        dsimp only [classifyAddColumn] at hsafe ⊢
        split at hsafe
        · rename_i hgenerated
          rw [if_pos hgenerated]
          exact classifyOnEmpty_raised ctx raised h _ hsafe
        · rename_i hgenerated
          rw [if_neg hgenerated]
          exact hsafe
      | alterColumn table column change =>
        cases change with
        | setNullable nowNullable =>
          cases nowNullable with
          | true => rfl
          | false => exact classifyValidation_raised ctx raised h hsafe
        | setCheck from_ to_ =>
          cases to_ with
          | none => rfl
          | some expr => exact classifyValidation_raised ctx raised h hsafe
        | changeType from_ to_ using_ => cases using_ <;> exact hsafe
        | _ => exact hsafe
      | addForeignKey => exact classifyValidation_raised ctx raised h hsafe
      | addExclusionConstraint => exact classifyOnEmpty_raised ctx raised h _ hsafe
      | addIndex index =>
        dsimp only [classifyIndexAddition] at hsafe ⊢
        cases hkind : index.kind with
        | nonUnique =>
          simp only [hkind] at hsafe ⊢
          split at hsafe
          · rename_i hout
            rw [if_pos hout]
          · rename_i hout
            rw [if_neg hout]
            exact classifyOnEmpty_raised ctx raised h _ hsafe
        | _ =>
          simp only [hkind] at hsafe
          cases hsafe
      | _ => exact hsafe

/-- **More rows** make no operation safe. -/
theorem verdict_raised (ops : List SchemaOperation) (op : SchemaOperation)
    (hsafe : verdictIn ops (ctx.raise raised) op = .onlineSafe) :
    verdictIn ops ctx op = .onlineSafe := by
  unfold verdictIn at hsafe ⊢
  split at hsafe
  · cases hsafe
  · rename_i hrefused
    rw [if_neg hrefused]
    have hmany : manyForeignKeys ops (ctx.raise raised) op = manyForeignKeys ops ctx op := by
      cases op <;> rfl
    rw [hmany] at hsafe
    split at hsafe
    · cases hsafe
    · rename_i hfew
      rw [if_neg hfew]
      exact classifyOperation_raised ctx raised h op hsafe

end Raised

/-! ## The live path -/

def HasPattern (op : SchemaOperation) (ctx : PatternContext) : Prop :=
  ∃ steps, dispatchPattern op ctx = .ok steps ∧ steps ≠ []

/-- The operations whose patterns are documented as deferred. -/
def isDeferred : SchemaOperation → Bool
  | .dropTable _ => true
  | .alterColumn _ _ (.codecChange (some _) (some _)) => true
  | _ => false

/-- The operations that go to the live path and have no pattern. -/
def withoutPattern (ctx : ClassifyContext) : SchemaOperation → Bool
  | .addColumn _ column =>
      column.generated.isNone && column.defaultSql.isNone && !column.nullable
  | .alterColumn _ _ (.setCheck _ (some _)) => !belowThreshold ctx
  | .alterColumn _ _ (.setUnique true) | .alterColumn _ _ (.setIndexed true) => true
  | .addIndex index =>
      index.target = .columns [] &&
        (index.kind ≠ .nonUnique ||
          !index.requiresOutOfTransaction && ctx.estimatedRows ≠ some 0)
  | _ => false

theorem classifyOnEmpty_ne_expand (ctx : ClassifyContext) (otherwise : OnlineSafetyClassification)
    (h : otherwise ≠ .expandContract) : classifyOnEmpty ctx otherwise ≠ .expandContract := by
  unfold classifyOnEmpty
  split
  · simp
  · exact h

theorem renderCreateIndex_iff (index : IndexSchema) :
    (∃ create, renderCreateIndex index = .ok create) ↔ index.target ≠ .columns [] := by
  unfold renderCreateIndex
  split
  · rename_i htarget
    simp [htarget]
  · rename_i htarget
    simpa using htarget

theorem addIndex_hasPattern_iff (index : IndexSchema) (pctx : PatternContext) :
    HasPattern (.addIndex index) pctx ↔ index.target ≠ .columns [] := by
  rw [← renderCreateIndex_iff]
  unfold HasPattern dispatchPattern
  cases hcreate : renderCreateIndex index with
  | error e =>
    cases hkind : index.kind <;>
      simp [hkind, UniqueViaIndex.emit, IndexDependent.emit, hcreate, Except.map]
  | ok create =>
    cases hkind : index.kind <;>
      simp [hkind, UniqueViaIndex.emit, IndexDependent.emit, hcreate, Except.map]

/-- An index without columns replaces none. -/
theorem not_refused_of_no_columns (index : IndexSchema) (ops : List SchemaOperation)
    (h : index.target = .columns []) :
    indexReplacementRequiresRefusal (.addIndex index) ops = false := by
  rw [indexReplacementRequiresRefusal, List.any_eq_false]
  intro other _
  cases other with
  | dropIndex drop =>
    simp [replacementRefused, indexesReplaceEachOther, indexTargetsOverlap, h]
    cases drop.target <;> simp
  | _ => simp

theorem addIndex_expand_iff (index : IndexSchema) (ops : List SchemaOperation)
    (ctx : ClassifyContext) (happlies : classifierApplies ctx = true)
    (htarget : index.target = .columns []) :
    verdictIn ops ctx (.addIndex index) = .expandContract ↔
      index.kind ≠ .nonUnique ∨
        index.requiresOutOfTransaction = false ∧ ctx.estimatedRows ≠ some 0 := by
  have hverdict : verdictIn ops ctx (.addIndex index) = classifyIndexAddition index ctx := by
    simp [verdictIn, not_refused_of_no_columns index ops htarget, manyForeignKeys,
      classifyOperation, isPkTypeFlipOperation, happlies]
  rw [hverdict, classifyIndexAddition]
  cases hkind : index.kind with
  | nonUnique =>
    cases hout : index.requiresOutOfTransaction <;>
      by_cases hzero : ctx.estimatedRows = some 0 <;> simp [classifyOnEmpty, hzero]
  | _ => simp

/-- The verdict on an operation that is neither an index nor a foreign key. -/
theorem verdictIn_of_plain (ops : List SchemaOperation) (ctx : ClassifyContext)
    (op : SchemaOperation) (hindex : ∀ index, op ≠ .addIndex index ∧ op ≠ .dropIndex index)
    (hfk : ∀ t c fk, op ≠ .addForeignKey t c fk) :
    verdictIn ops ctx op = classifyOperation op ctx := by
  have hrefused : indexReplacementRequiresRefusal op ops = false := by
    cases op with
    | addIndex index => exact absurd rfl (hindex index).1
    | dropIndex index => exact absurd rfl (hindex index).2
    | _ => rfl
  have hmany : manyForeignKeys ops ctx op = false := by
    cases op with
    | addForeignKey t c fk => exact absurd rfl (hfk t c fk)
    | _ => rfl
  simp [verdictIn, hrefused, hmany]

/-- An added column: staging needs the default that the verdict is about. -/
theorem addColumn_hasPattern_iff (ctx : ClassifyContext) (pctx : PatternContext) (table : String)
    (column : ColumnSchema) :
    (classifyAddColumn table column ctx = .expandContract →
      HasPattern (.addColumn table column) pctx) ↔
      withoutPattern ctx (.addColumn table column) = false := by
  unfold classifyAddColumn withoutPattern HasPattern
  by_cases hgenerated : column.generated.isSome = true
  · have hnone : column.generated.isNone = false := by simpa using hgenerated
    have hverdict := classifyOnEmpty_ne_expand ctx .offlineOnly (by simp)
    simp [hgenerated, hnone, hverdict]
  · have hnone : column.generated.isNone = true := by simpa using hgenerated
    rw [if_neg hgenerated]
    cases hdefault : column.defaultSql with
    | none =>
      cases hnullable : column.nullable <;>
        simp [hnone, hnullable, dispatchPattern, ThreeStepDefault.emit, hdefault]
    | some expr => simp [dispatchPattern, ThreeStepDefault.emit, hdefault]

/-- A changed column: of the changes on the live path three have no pattern. -/
theorem alterColumn_hasPattern_iff (ctx : ClassifyContext) (pctx : PatternContext)
    (table column : String) (change : ColumnChange) :
    (classifyColumnChange change ctx = .expandContract →
      isDeferred (.alterColumn table column change) = false →
      HasPattern (.alterColumn table column change) pctx) ↔
      withoutPattern ctx (.alterColumn table column change) = false := by
  cases change with
  | setNullable nullable =>
    cases nullable with
    | false => exact iff_of_true (fun _ _ => ⟨_, rfl, List.cons_ne_nil _ _⟩) rfl
    | true => exact iff_of_true (fun h => by cases h) rfl
  | changeType from_ to_ using_ =>
    cases using_ with
    | none => exact iff_of_true (fun _ _ => ⟨_, rfl, List.cons_ne_nil _ _⟩) rfl
    | some expr => exact iff_of_true (fun h => by cases h) rfl
  | codecChange fromCodec toCodec =>
    refine iff_of_true (fun h hdeferred => ?_) rfl
    cases fromCodec with
    | none => cases toCodec <;> cases h
    | some a =>
      cases toCodec with
      | none => cases h
      | some b => cases hdeferred
  | setCheck from_ to_ =>
    cases to_ with
    | none => exact iff_of_true (fun h => by cases h) rfl
    | some expr =>
      have hverdict : classifyColumnChange (.setCheck from_ (some expr)) ctx =
          if belowThreshold ctx then .onlineSafe else .expandContract := rfl
      have hwithout : withoutPattern ctx (.alterColumn table column (.setCheck from_ (some expr))) =
          !belowThreshold ctx := rfl
      rw [hverdict, hwithout]
      cases belowThreshold ctx with
      | true => exact iff_of_true (fun h => by cases h) rfl
      | false => exact iff_of_false (fun h => by obtain ⟨_, h, -⟩ := h rfl rfl; cases h) (by decide)
  | setUnique newUnique =>
    cases newUnique with
    | false => exact iff_of_true (fun h => by cases h) rfl
    | true => exact iff_of_false (fun h => by obtain ⟨_, h, -⟩ := h rfl rfl; cases h) (nofun)
  | setIndexed nowIndexed =>
    cases nowIndexed with
    | false => exact iff_of_true (fun h => by cases h) rfl
    | true => exact iff_of_false (fun h => by obtain ⟨_, h, -⟩ := h rfl rfl; cases h) (nofun)
  | setDefault _ => exact iff_of_true (fun h => by cases h) rfl
  | setGenerated _ _ => exact iff_of_true (fun h => by cases h) rfl
  | setIdentity _ _ => exact iff_of_true (fun h => by cases h) rfl
  | setComment _ _ => exact iff_of_true (fun h => by cases h) rfl

/-- One operation of the live path has a pattern unless it is one without. -/
theorem hasPattern_iff (ops : List SchemaOperation) (ctx : ClassifyContext)
    (pctx : PatternContext) (op : SchemaOperation) (happlies : classifierApplies ctx = true)
    (hflip : isPkTypeFlipOperation op = false) :
    (verdictIn ops ctx op = .expandContract → isDeferred op = false → HasPattern op pctx) ↔
      withoutPattern ctx op = false := by
  cases op with
  | addIndex index =>
    rw [addIndex_hasPattern_iff]
    by_cases htarget : index.target = .columns []
    · rw [addIndex_expand_iff index ops ctx happlies htarget]
      simp [withoutPattern, isDeferred, htarget, not_or, imp_false]
    · simp [withoutPattern, htarget]
  | addForeignKey table column fk =>
    simp [withoutPattern, HasPattern, dispatchPattern, BackfillThenTighten.emit]
  | dropIndex index =>
    have hverdict : verdictIn ops ctx (.dropIndex index) ≠ .expandContract := by
      unfold verdictIn
      split
      · simp
      · simp [manyForeignKeys, classifyOperation, isPkTypeFlipOperation, happlies]
    simp [hverdict, withoutPattern]
  | addColumn table column =>
    rw [verdictIn_of_plain ops ctx _ (by simp) (by simp), ← addColumn_hasPattern_iff ctx pctx]
    simp [classifyOperation, isPkTypeFlipOperation, happlies, isDeferred]
  | alterColumn table column change =>
    rw [verdictIn_of_plain ops ctx _ (by simp) (by simp),
      ← alterColumn_hasPattern_iff ctx pctx table column change]
    simp [classifyOperation, isPkTypeFlipOperation, happlies]
  | dropTable table => simp [isDeferred, withoutPattern]
  | _ =>
    rw [verdictIn_of_plain ops ctx _ (by simp) (by simp)]
    simp [classifyOperation, isPkTypeFlipOperation, happlies, withoutPattern,
      classifyOnEmpty_ne_expand]

/-- **The live path.** With the classifier in force, every operation of the live path has a
pattern exactly when no operation of the delta is one of those without. -/
theorem live_path_has_pattern_iff (ops : List SchemaOperation) (ctx : ClassifyContext)
    (pctx : PatternContext) :
    ((∀ e ∈ classifyDelta ops ctx, e.2 = .expandContract → isDeferred e.1 = false →
        HasPattern e.1 pctx) ∧
      (classifyDelta ops ctx).map Prod.fst = ops.filter (fun op => !isPkTypeFlipOperation op) ∧
      ∀ raised, AtLeast raised ctx.estimatedRows →
        List.Forall₂ (fun before after => before.1 = after.1 ∧
            (after.2 = .onlineSafe → before.2 = .onlineSafe))
          (classifyDelta ops ctx) (classifyDelta ops (ctx.raise raised))) ↔
      classifierApplies ctx = false ∨ ∀ op ∈ ops, withoutPattern ctx op = false := by
  have hkept : (classifyDelta ops ctx).map Prod.fst =
      ops.filter (fun op => !isPkTypeFlipOperation op) := by
    simp [classifyDelta_eq, Function.comp_def]
  have hraised (raised : Option ℕ) (h : AtLeast raised ctx.estimatedRows) :
      List.Forall₂ (fun before after => before.1 = after.1 ∧
          (after.2 = .onlineSafe → before.2 = .onlineSafe))
        (classifyDelta ops ctx) (classifyDelta ops (ctx.raise raised)) := by
    rw [classifyDelta_eq, classifyDelta_eq, List.forall₂_map_left_iff, List.forall₂_map_right_iff,
      List.forall₂_same]
    intro op _
    refine ⟨rfl, fun hsafe => ?_⟩
    change (if classifierApplies ctx then _ else _) = _ at hsafe
    cases happlies : classifierApplies ctx with
    | false => rfl
    | true =>
      rw [happlies] at hsafe
      exact verdict_raised ctx raised h ops op hsafe
  rw [and_iff_left ⟨hkept, hraised⟩, classifyDelta_eq]
  cases happlies : classifierApplies ctx with
  | false =>
    refine iff_of_true ?_ (.inl rfl)
    intro e he hexpand
    obtain ⟨op, _, rfl⟩ := List.mem_map.mp he
    cases hexpand
  | true =>
    have hflips (op : SchemaOperation) (hflip : isPkTypeFlipOperation op = true) :
        withoutPattern ctx op = false := by
      cases op <;> first | rfl | cases hflip
    simp only [List.mem_map, List.mem_filter, Bool.not_eq_true', if_true, false_or,
      reduceCtorEq]
    constructor
    · intro hall op hop
      cases hflip : isPkTypeFlipOperation op with
      | true => exact hflips op hflip
      | false =>
        exact (hasPattern_iff ops ctx pctx op happlies hflip).mp
          (hall _ ⟨op, ⟨hop, hflip⟩, rfl⟩)
    · rintro hall e ⟨op, ⟨hop, hflip⟩, rfl⟩
      exact (hasPattern_iff ops ctx pctx op happlies hflip).mpr (hall op hop)

/-- The thresholds of the defaults, and nothing known of the tables. -/
def ClassifyContext.withDefaults : ClassifyContext :=
  ⟨none, 100000, 4, .balanced, .application, fun _ => none, fun _ => none⟩

/-- A column that becomes unique goes to the live path, which refuses it. -/
theorem set_unique_has_no_pattern :
    ¬∀ e ∈ classifyDelta [.alterColumn "users" "email" (.setUnique true)]
        ClassifyContext.withDefaults,
      e.2 = .expandContract → isDeferred e.1 = false →
        HasPattern e.1 PatternContext.withDefaults := by
  intro hall
  obtain ⟨steps, hsteps, -⟩ :=
    hall (.alterColumn "users" "email" (.setUnique true), .expandContract)
      (by simp [classifyDelta, classifierApplies, ClassifyContext.withDefaults,
        isPkTypeFlipOperation, verdictIn, indexReplacementRequiresRefusal, manyForeignKeys,
        classifyOperation, classifyColumnChange]) rfl rfl
  cases hsteps

end Djogi.Live

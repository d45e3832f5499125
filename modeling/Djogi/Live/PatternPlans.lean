import Djogi.Live.Executor
import Djogi.Live.Hooks
import Djogi.Live.Patterns

/-!
# Plans of the patterns

The plan that a pattern emits goes to three consumers: the validation of plans with the hook walker,
the checks of a backfill, and the executor, which runs each DDL step in one transaction. This module
says for which operations all three accept it.

* `executable_iff`: what the consumers ask of the steps;
* `dispatched_executable_iff`: the operations whose plan they accept.
-/

namespace Djogi.Live

/-! ## What the consumers ask -/

/-- What the executor runs in its transaction. -/
def ddlSegments : StepParameters → List String
  | .expandSchema l | .finalizeConstraints l | .cleanupLegacyState l => l
  | .runReversibleSchemaOp upSql _ => [upSql]
  | _ => []

/-- The commands that the database refuses in a transaction block. -/
def concurrentCommands : List String :=
  ["CREATE INDEX CONCURRENTLY ", "CREATE UNIQUE INDEX CONCURRENTLY ", "DROP INDEX CONCURRENTLY "]

def refusesTransaction (sql : String) : Bool :=
  concurrentCommands.any fun command => command.toList.isPrefixOf sql.toList

def Step.backfillAccepted (s : Step) : Prop :=
  match s.parameters with
  | .backfillChunked table template _ =>
      validateTableIdent table = .ok () ∧ validatePredicateTemplate template = .ok ()
  | _ => True

def Step.runsInTransaction (s : Step) : Prop :=
  s.kind.isDdl = true → ∀ sql ∈ ddlSegments s.parameters, refusesTransaction sql = false

/-- All the consumers accept the steps. -/
structure Executable (steps : List Step) : Prop where
  valid : ∀ header, validateSlugBytes header.slug = .ok () →
    (LivePlan.mk header steps).validate = .ok ()
  hooks : ∀ header, ∀ n ≤ u32Max, ∃ hooks, activeHooksAtStep ⟨header, steps⟩ n = .ok hooks
  backfills : ∀ s ∈ steps, s.backfillAccepted
  atomicDdl : ∀ s ∈ steps, s.runsInTransaction

/-- What the consumers ask of one step. -/
structure Step.Accepted (s : Step) : Prop where
  hooks : ∀ id ∈ s.hookIds, ∃ hook, parseHookId id = .ok hook
  backfill : s.backfillAccepted
  ddl : s.runsInTransaction

theorem validate_iff (header : PlanHeader) (steps : List Step)
    (hslug : validateSlugBytes header.slug = .ok ()) :
    (LivePlan.mk header steps).validate = .ok () ↔ steps ≠ [] ∧ validateSteps 0 steps = .ok () := by
  unfold LivePlan.validate
  cases steps with
  | nil => simp
  | cons s l =>
    cases validateSteps 0 (s :: l) with
    | error e => simp [Bind.bind, Except.bind]
    | ok u => simp [hslug, Bind.bind, Except.bind]

/-- **The consumers ask** for steps that are numbered from zero and accepted one by one. -/
theorem executable_iff (steps : List Step) :
    Executable steps ↔
      steps ≠ [] ∧ validateSteps 0 steps = .ok () ∧ ∀ s ∈ steps, s.Accepted := by
  have hslug : validateSlugBytes (PlanHeader.mk 0 "plan" "" "").slug = .ok () := by decide +kernel
  have hmax (hv : validateSteps 0 steps = .ok ()) : ∀ s ∈ steps, s.ordinal ≤ u32Max := by
    intro s hs
    obtain ⟨i, hi, rfl⟩ := List.mem_iff_getElem.mp hs
    obtain ⟨-, hle, hord⟩ := (validateSteps_iff 0 steps).mp hv i hi
    omega
  constructor
  · intro h
    obtain ⟨hne, hv⟩ := (validate_iff _ steps hslug).mp (h.valid _ hslug)
    have hparse := (activeHooks_iff ⟨⟨0, "plan", "", ""⟩, steps⟩ (hmax hv)).mp (h.hooks _)
    exact ⟨hne, hv, fun s hs => ⟨hparse s hs, h.backfills s hs, h.atomicDdl s hs⟩⟩
  · rintro ⟨hne, hv, haccepted⟩
    exact {
      valid := fun header hs => (validate_iff header steps hs).mpr ⟨hne, hv⟩
      hooks := fun header =>
        (activeHooks_iff ⟨header, steps⟩ (hmax hv)).mpr fun s hs => (haccepted s hs).hooks
      backfills := fun s hs => (haccepted s hs).backfill
      atomicDdl := fun s hs => (haccepted s hs).ddl }

/-! ## Plain identifiers -/

/-- The names that the statements of the operation's plan quote. -/
def identifiers : SchemaOperation → List String
  | .alterColumn table column _ => [table, column]
  | .addForeignKey table column fk => [table, column, fk.refTable, fk.refColumn]
  | .addIndex index => index.name :: index.table ::
      match index.target with
      | .columns cols => cols.map IndexColumnSchema.name
      | .expression _ => []
  | .addTable table => table.table :: table.columns.map ColumnSchema.name ++
      (fkColumns table).flatMap fun c => [c.2.refTable, c.2.refColumn]
  | .addColumn table column => [table, column.name]
  | _ => []

def PlainName (name : String) : Prop := validateTableIdent name = .ok ()

theorem PlainName.isIdentByte (name : String) (h : PlainName name) (c : Char)
    (hc : c ∈ name.toList) : isIdentByte c = true := by
  unfold PlainName validateTableIdent at h
  split at h
  next => cases h
  next first rest heq =>
    split_ifs at h with hlen hfirst hrest
    rw [heq] at hc
    cases hc with
    | head =>
      have hstart : isIdentStart c = true := by simpa using hfirst
      unfold isIdentStart at hstart
      unfold Live.isIdentByte Char.isAlphanum
      rcases Bool.or_eq_true_iff.mp hstart with ha | hu
      · simp [ha]
      · simp [hu]
    | tail _ hmem =>
      have hall : rest.all Live.isIdentByte = true := by simpa using hrest
      exact List.all_eq_true.mp hall c hmem

theorem PlainName.notMem (name : String) (h : PlainName name) (c : Char)
    (hc : Live.isIdentByte c = false) : c ∉ name.toList := by
  intro hmem
  have := h.isIdentByte name c hmem
  simp [hc] at this

theorem PlainName.isEmpty (name : String) (h : PlainName name) : name.isEmpty = false := by
  by_contra hne
  have hnil : name = "" := by simpa using hne
  subst hnil
  cases h

/-! ## Templates -/

theorem onlyFirstPlaceholder_append (a b : List Char) (h : '$' ∉ a) :
    onlyFirstPlaceholder (a ++ b) = onlyFirstPlaceholder b := by
  induction a with
  | nil => rfl
  | cons c a ih =>
    obtain ⟨hc, ha⟩ := not_or.mp (by simpa using h : ¬('$' = c ∨ '$' ∈ a))
    rw [List.cons_append, onlyFirstPlaceholder]
    · exact ih ha
    · intro x rest heq
      exact absurd heq.symm hc

/-- A placeholder ends where no digit follows. -/
theorem onlyFirstPlaceholder_append_cons (a b : List Char) (c : Char) (h : c.isDigit = false) :
    onlyFirstPlaceholder (a ++ c :: b) =
      (onlyFirstPlaceholder a && onlyFirstPlaceholder (c :: b)) := by
  fun_induction onlyFirstPlaceholder a with
  | case1 => simp
  | case2 x rest hx ih =>
    have hhead : ((rest ++ c :: b).head?.any Char.isDigit) = rest.head?.any Char.isDigit := by
      cases rest with
      | nil => simp [h]
      | cons y rest => rfl
    simp only [List.cons_append, onlyFirstPlaceholder, hx, if_true, ih, hhead, Bool.and_assoc]
  | case3 x rest hx ih =>
    simp only [List.cons_append] at ih
    simp only [List.cons_append, onlyFirstPlaceholder, hx, ih]
    rfl
  | case4 x rest hno ih =>
    cases rest with
    | nil =>
      by_cases hx : x = '$'
      · subst hx
        simp [onlyFirstPlaceholder, h]
      · rw [onlyFirstPlaceholder_append [x] (c :: b) (by simpa using Ne.symm hx)]
        simp [onlyFirstPlaceholder]
    | cons y ys =>
      have hx : x ≠ '$' := fun heq => hno y ys heq rfl
      rw [List.cons_append, onlyFirstPlaceholder, ih]
      intro z zs heq
      exact absurd heq hx

theorem containsText_append (text : String) (a b : List Char) :
    containsText text (a ++ (text.toList ++ b)) = true := by
  unfold containsText
  rw [List.any_eq_true]
  exact ⟨text.toList ++ b, by simp [List.mem_tails], by simp⟩

/-- The shape of the templates: a text without placeholders, one of the operation's, and the end of
the statement. -/
theorem validatePredicateTemplate_iff (before text after : String) (hb : '$' ∉ before.toList)
    (ha : '$' ∉ after.toList) :
    validatePredicateTemplate (before ++ text ++ " " ++ after ++ " LIMIT $1)") = .ok () ↔
      onlyFirstPlaceholder text.toList = true := by
  have hlist : (before ++ text ++ " " ++ after ++ " LIMIT $1)").toList =
      before.toList ++ (text.toList ++ ' ' :: (after.toList ++ " LIMIT $1)".toList)) := by
    simp
  have hlimit : containsText "LIMIT $1"
      (before ++ text ++ " " ++ after ++ " LIMIT $1)").toList = true := by
    have hsplit : (before ++ text ++ " " ++ after ++ " LIMIT $1)").toList =
        (before ++ text ++ " " ++ after ++ " ").toList ++ ("LIMIT $1".toList ++ [')']) := by
      simp
    rw [hsplit]
    exact containsText_append _ _ _
  have hend : onlyFirstPlaceholder (' ' :: (after.toList ++ " LIMIT $1)".toList)) = true := by
    rw [← List.cons_append, onlyFirstPlaceholder_append _ _ (by simpa using ha)]
    decide
  unfold validatePredicateTemplate
  rw [hlimit, hlist, onlyFirstPlaceholder_append _ _ hb,
    onlyFirstPlaceholder_append_cons _ _ _ (by decide), hend]
  cases onlyFirstPlaceholder text.toList <;> simp

/-! ## Statements -/

theorem refusesTransaction_append (start rest : String) (h : refusesTransaction start = true) :
    refusesTransaction (start ++ rest) = true := by
  unfold refusesTransaction at h ⊢
  rw [List.any_eq_true] at h ⊢
  obtain ⟨command, hmem, hpre⟩ := h
  rw [List.isPrefixOf_iff_prefix] at hpre
  refine ⟨command, hmem, ?_⟩
  rw [List.isPrefixOf_iff_prefix, String.toList_append]
  exact hpre.trans (List.prefix_append _ _)

/-- The text is no command, however it goes on. -/
def PartsFromCommands (start : String) : Prop :=
  ∀ command ∈ concurrentCommands, ¬command.toList <+: start.toList ∧
    ¬start.toList <+: command.toList

instance (start : String) : Decidable (PartsFromCommands start) :=
  inferInstanceAs (Decidable (∀ command ∈ concurrentCommands, ¬command.toList <+: start.toList ∧
    ¬start.toList <+: command.toList))

theorem PartsFromCommands.append (start rest : String) (h : PartsFromCommands start) :
    PartsFromCommands (start ++ rest) := by
  intro command hmem
  obtain ⟨hcommand, hstart⟩ := h command hmem
  have hpre : start.toList <+: (start ++ rest).toList := by
    rw [String.toList_append]
    exact List.prefix_append _ _
  constructor
  · intro hle
    rcases List.prefix_or_prefix_of_prefix hle hpre with hle | hle
    · exact hcommand hle
    · exact hstart hle
  · intro hle
    exact hstart (hpre.trans hle)

theorem PartsFromCommands.refusesTransaction (sql : String) (h : PartsFromCommands sql) :
    refusesTransaction sql = false := by
  unfold Live.refusesTransaction
  rw [List.any_eq_false]
  intro command hmem hpre
  exact (h command hmem).1 (List.isPrefixOf_iff_prefix.mp hpre)

/-- **The statements** that the executor may not run: those that build or drop an index. -/
theorem refusesTransaction_render (stmt : LiveStmt) :
    refusesTransaction stmt.render = match stmt with
      | .createIndex _ | .dropIndex _ => true
      | _ => false := by
  cases stmt with
  | createIndex index =>
    have hstart : refusesTransaction
        ("CREATE " ++ renderUnique index.kind ++ "INDEX CONCURRENTLY ") = true := by
      cases index.kind <;> decide +kernel
    unfold LiveStmt.render
    iterate 5 apply refusesTransaction_append
    exact hstart
  | dropIndex name => exact refusesTransaction_append _ _ (by decide +kernel)
  | dropTrigger name table =>
    apply PartsFromCommands.refusesTransaction
    unfold LiveStmt.render
    repeat apply PartsFromCommands.append
    decide +kernel
  | _ =>
    apply PartsFromCommands.refusesTransaction
    unfold LiveStmt.render
    repeat apply PartsFromCommands.append
    decide +kernel

/-! ## Steps of the patterns -/

/-- What the consumers ask of the parameters of a step. -/
def PatternParameters.Accepted : PatternParameters → Prop
  | .expandSchema l | .finalizeConstraints l | .cleanupLegacyState l =>
      ∀ stmt ∈ l, refusesTransaction stmt.render = false
  | .beginCompatibilityWindow ids => ∀ id ∈ ids, ∃ hook, parseHookId id = .ok hook
  | .backfillChunked table template _ =>
      validateTableIdent table = .ok () ∧ validatePredicateTemplate template = .ok ()
  | _ => True

theorem accepted_iff (s : PatternStep) (h : s.toStep.isConsistent = true) :
    s.toStep.Accepted ↔ s.parameters.Accepted := by
  obtain ⟨kind, ordinal, parameters⟩ := s
  have hkind : kind = parameters.toParameters.kind := by
    exact of_decide_eq_true h
  subst hkind
  constructor
  · rintro ⟨hhooks, hbackfill, hddl⟩
    cases parameters with
    | expandSchema l | finalizeConstraints l | cleanupLegacyState l =>
      intro stmt hmem
      exact hddl rfl _ (List.mem_map_of_mem hmem)
    | beginCompatibilityWindow ids => exact hhooks
    | backfillChunked table template n => exact hbackfill
    | _ => trivial
  · intro h
    cases parameters with
    | expandSchema l | finalizeConstraints l | cleanupLegacyState l =>
      refine ⟨nofun, trivial, fun _ sql hsql => ?_⟩
      obtain ⟨stmt, hmem, rfl⟩ := List.mem_map.mp hsql
      exact h stmt hmem
    | beginCompatibilityWindow ids => exact ⟨h, trivial, nofun⟩
    | backfillChunked table template n =>
      exact ⟨nofun, h, nofun⟩
    | _ => exact ⟨nofun, trivial, nofun⟩

/-- **What the consumers ask** of the steps that a pattern emits. -/
theorem executable_toStep_iff (steps : List PatternStep) :
    Executable (steps.map PatternStep.toStep) ↔
      steps ≠ [] ∧ validateSteps 0 (steps.map PatternStep.toStep) = .ok () ∧
        ∀ s ∈ steps, s.parameters.Accepted := by
  rw [executable_iff]
  simp only [ne_eq, List.map_eq_nil_iff, List.forall_mem_map]
  refine and_congr_right fun _ => and_congr_right fun hv => ?_
  have hconsistent : ∀ s ∈ steps, s.toStep.isConsistent = true := by
    intro s hs
    have hmem : s.toStep ∈ steps.map PatternStep.toStep := List.mem_map_of_mem hs
    obtain ⟨i, hi, hget⟩ := List.mem_iff_getElem.mp hmem
    have := ((validateSteps_iff 0 _).mp hv i hi).1
    rwa [hget] at this
  exact forall₂_congr fun s hs => accepted_iff s (hconsistent s hs)

/-! ## The patterns -/

theorem NullableNotNull.executable (table column : String) (ctx : PatternContext)
    (steps : List PatternStep)
    (h : NullableNotNull.emit (.alterColumn table column (.setNullable false)) ctx = .ok steps) :
    Executable (steps.map PatternStep.toStep) := by
  cases h
  rw [executable_toStep_iff]
  refine ⟨nofun, rfl, ?_⟩
  simp [PatternParameters.Accepted, refusesTransaction_render]

/-- The replacement of a column runs if its type has no placeholder that the runner does not
bind. -/
theorem ReplacementColumn.executable_iff (table column from_ to_ : String) (ctx : PatternContext)
    (steps : List PatternStep) (ht : PlainName table) (hc : PlainName column)
    (h : ReplacementColumn.emit (.alterColumn table column (.changeType from_ to_ none)) ctx =
      .ok steps) :
    Executable (steps.map PatternStep.toStep) ↔ onlyFirstPlaceholder to_.toList = true := by
  have hpair := parseHookId_pair table column (ht.notMem table ':' (by decide))
    (hc.notMem column ':' (by decide)) ht.isEmpty hc.isEmpty
  have htable := ht.notMem table '$' (by decide)
  have hcolumn := hc.notMem column '$' (by decide)
  have htemplate := validatePredicateTemplate_iff
    ("SET " ++ quoteIdent (shadowName column) ++ " = " ++ quoteIdent column ++ "::") to_
    ("WHERE id IN (SELECT id FROM " ++ quoteIdent table ++ " WHERE " ++
      quoteIdent (shadowName column) ++ " IS NULL")
    (by simp [quoteIdent, shadowName, hcolumn]) (by simp [quoteIdent, shadowName, htable, hcolumn])
  have hemitted : "SET " ++ quoteIdent (shadowName column) ++ " = " ++ quoteIdent column ++ "::" ++
      to_ ++ " " ++ ("WHERE id IN (SELECT id FROM " ++ quoteIdent table ++ " WHERE " ++
        quoteIdent (shadowName column) ++ " IS NULL") ++ " LIMIT $1)" =
      "SET " ++ quoteIdent (shadowName column) ++ " = " ++ quoteIdent column ++ "::" ++ to_ ++
        " WHERE id IN (SELECT id FROM " ++ quoteIdent table ++ " WHERE " ++
        quoteIdent (shadowName column) ++ " IS NULL LIMIT $1)" := by
    apply String.toList_inj.mp
    simp
  rw [hemitted] at htemplate
  cases h
  rw [executable_toStep_iff, ← htemplate]
  constructor
  · rintro ⟨-, -, haccepted⟩
    exact (haccepted _ (.tail _ (.tail _ (.head _)))).2
  · intro hok
    refine ⟨nofun, rfl, ?_⟩
    simp only [List.forall_mem_cons, PatternParameters.Accepted]
    refine ⟨by simp [refusesTransaction_render], ⟨⟨_, hpair.1⟩, ⟨_, hpair.2⟩, by simp⟩, ⟨ht, hok⟩, ?_⟩
    simp [refusesTransaction_render]

theorem BackfillThenTighten.executable (table column : String) (fk : ForeignKeySchema)
    (ctx : PatternContext) (steps : List PatternStep) (ht : PlainName table)
    (hc : PlainName column) (hrt : PlainName fk.refTable) (hrc : PlainName fk.refColumn)
    (h : BackfillThenTighten.emit (.addForeignKey table column fk) ctx = .ok steps) :
    Executable (steps.map PatternStep.toStep) := by
  have htable := ht.notMem table '$' (by decide)
  have hcolumn := hc.notMem column '$' (by decide)
  have hrefTable := hrt.notMem fk.refTable '$' (by decide)
  have hrefColumn := hrc.notMem fk.refColumn '$' (by decide)
  have htemplate := validatePredicateTemplate_iff ("SET " ++ quoteIdent column ++ " = NULL") ""
    ("WHERE id IN (SELECT id FROM " ++ quoteIdent table ++ " WHERE " ++ orphans column fk)
    (by simp [quoteIdent, hcolumn])
    (by simp [quoteIdent, orphans, htable, hcolumn, hrefTable, hrefColumn])
  have hemitted : "SET " ++ quoteIdent column ++ " = NULL" ++ "" ++ " " ++
      ("WHERE id IN (SELECT id FROM " ++ quoteIdent table ++ " WHERE " ++ orphans column fk) ++
        " LIMIT $1)" =
      "SET " ++ quoteIdent column ++ " = NULL WHERE id IN (SELECT id FROM " ++ quoteIdent table ++
        " WHERE " ++ orphans column fk ++ " LIMIT $1)" := by
    apply String.toList_inj.mp
    simp
  rw [hemitted] at htemplate
  have hok := htemplate.mpr rfl
  cases h
  rw [executable_toStep_iff]
  refine ⟨nofun, rfl, ?_⟩
  simp only [List.forall_mem_cons, PatternParameters.Accepted]
  refine ⟨by simp, ⟨ht, hok⟩, ?_⟩
  simp [refusesTransaction_render]

/-- An index is built in the transaction of a step. -/
theorem not_executable_of_createIndex (index : IndexSchema) (s : PatternStep)
    (steps : List PatternStep) (h : s.parameters = .expandSchema [.createIndex index])
    (hmem : s ∈ steps) : ¬Executable (steps.map PatternStep.toStep) := by
  rw [executable_toStep_iff]
  rintro ⟨-, -, haccepted⟩
  have hstmt := haccepted s hmem
  rw [h] at hstmt
  have := hstmt _ (.head _)
  simp [refusesTransaction_render] at this

theorem IndexDependent.not_executable (index : IndexSchema) (ctx : PatternContext)
    (steps : List PatternStep) (h : IndexDependent.emit (.addIndex index) ctx = .ok steps) :
    ¬Executable (steps.map PatternStep.toStep) := by
  unfold IndexDependent.emit at h
  cases hcreate : renderCreateIndex index with
  | error e => simp [hcreate, Except.map] at h
  | ok stmt =>
    simp only [hcreate, Except.map, Except.ok.injEq] at h
    rw [renderCreateIndex_ok index stmt hcreate] at h
    subst h
    exact not_executable_of_createIndex index _ _ rfl (.head _)

theorem UniqueViaIndex.not_executable (index : IndexSchema) (ctx : PatternContext)
    (steps : List PatternStep) (h : UniqueViaIndex.emit (.addIndex index) ctx = .ok steps) :
    ¬Executable (steps.map PatternStep.toStep) := by
  unfold UniqueViaIndex.emit at h
  cases hcreate : renderCreateIndex index with
  | error e => simp [hcreate, Except.map] at h
  | ok stmt =>
    simp only [hcreate, Except.map, Except.ok.injEq] at h
    rw [renderCreateIndex_ok index stmt hcreate] at h
    subst h
    exact not_executable_of_createIndex index _ _ rfl (.head _)

/-- The walker does not know the hook of a trigger. -/
theorem ThreeStepDefault.not_executable (table : String) (column : ColumnSchema)
    (ctx : PatternContext) (steps : List PatternStep) (ht : PlainName table)
    (hc : PlainName column.name)
    (h : ThreeStepDefault.emit (.addColumn table column) ctx = .ok steps) :
    ¬Executable (steps.map PatternStep.toStep) := by
  have htable := ht.notMem table ':' (by decide)
  have hcolumn := hc.notMem column.name ':' (by decide)
  have htokens : hookTokens ("before_insert_trigger" ++ "::" ++ (table ++ "::" ++ (column.name ++
      "::" ++ defaultTrigger table column.name))) =
      ["before_insert_trigger", table, column.name, defaultTrigger table column.name] := by
    rw [hookTokens_append _ _ (by decide), hookTokens_append _ _ htable,
      hookTokens_append _ _ hcolumn, hookTokens_of_notMem]
    simp [defaultTrigger, htable, hcolumn]
  have hemitted : "before_insert_trigger" ++ "::" ++ (table ++ "::" ++ (column.name ++ "::" ++
      defaultTrigger table column.name)) = "before_insert_trigger::" ++ table ++ "::" ++
        column.name ++ "::" ++ defaultTrigger table column.name := by
    apply String.toList_inj.mp
    simp
  rw [hemitted] at htokens
  rw [executable_toStep_iff]
  rintro ⟨-, -, haccepted⟩
  unfold ThreeStepDefault.emit at h
  dsimp only at h
  split at h
  next => cases h
  next expr hexpr =>
    cases h
    obtain ⟨hook, hparse⟩ := haccepted _ (.tail _ (.head _)) _ (.head _)
    have := parseHookId_tokens _ hook hparse
    rw [htokens] at this
    simp at this

theorem stageForeignKeys_length (table : String) (ordinal : Nat)
    (fks : List (String × ForeignKeySchema)) :
    (stageForeignKeys table ordinal fks).length = 2 * fks.length := by
  induction fks generalizing ordinal with
  | nil => rfl
  | cons c fks ih =>
    simp only [stageForeignKeys, List.length_cons, ih]
    omega

theorem stageForeignKeys_accepted (table : String) (ordinal : Nat)
    (fks : List (String × ForeignKeySchema)) (s : PatternStep)
    (h : s ∈ stageForeignKeys table ordinal fks) : s.parameters.Accepted := by
  induction fks generalizing ordinal with
  | nil => cases h
  | cons c fks ih =>
    simp only [stageForeignKeys, List.mem_cons] at h
    rcases h with rfl | rfl | h
    · simp [PatternParameters.Accepted, refusesTransaction_render]
    · trivial
    · exact ih _ h

/-- The ordinals of the steps saturate, their positions do not. -/
theorem stageForeignKeys_valid (table : String) (idx : Nat)
    (fks : List (String × ForeignKeySchema)) :
    validateSteps idx ((stageForeignKeys table (min idx u32Max) fks).map PatternStep.toStep) =
        .ok () ↔ fks = [] ∨ idx + 2 * fks.length ≤ u32Max + 1 := by
  induction fks generalizing idx with
  | nil => simp [stageForeignKeys, validateSteps]
  | cons c fks ih =>
    have hnext : u32SaturatingAdd (u32SaturatingAdd (min idx u32Max)) = min (idx + 2) u32Max := by
      unfold u32SaturatingAdd
      omega
    simp only [stageForeignKeys, List.map_cons, validateSteps_cons, hnext, ih, validateStep_iff]
    simp only [PatternStep.toStep, Step.isConsistent, PatternParameters.toParameters,
      StepParameters.kind, decide_true, true_and, List.length_cons, reduceCtorEq, false_or]
    unfold u32SaturatingAdd
    constructor
    · rintro ⟨⟨h1, -⟩, ⟨h2, -⟩, hfks | hle⟩
      · subst hfks
        simp only [List.length_nil]
        omega
      · omega
    · intro h
      exact ⟨by omega, by omega, .inr (by omega)⟩

theorem MultiFkStaging.executable_iff (table : TableSchema) (ctx : PatternContext)
    (steps : List PatternStep) (h : MultiFkStaging.emit (.addTable table) ctx = .ok steps) :
    Executable (steps.map PatternStep.toStep) ↔
      0 < (fkColumns table).length ∧ 2 * (fkColumns table).length ≤ 2 ^ 32 := by
  unfold MultiFkStaging.emit at h
  dsimp only at h
  split_ifs at h
  cases h
  have hvalid := stageForeignKeys_valid table.table 0 (fkColumns table)
  have hlength := stageForeignKeys_length table.table 0 (fkColumns table)
  rw [Nat.zero_min] at hvalid
  rw [executable_toStep_iff, hvalid]
  have hmax : u32Max + 1 = 2 ^ 32 := by decide
  have hnonempty : stageForeignKeys table.table 0 (fkColumns table) ≠ [] ↔
      0 < (fkColumns table).length := by
    rw [← List.length_pos_iff, hlength]
    omega
  rw [hnonempty, hmax]
  constructor
  · rintro ⟨hpos, hnil | hle, -⟩
    · simp [hnil] at hpos
    · exact ⟨hpos, by omega⟩
  · rintro ⟨hpos, hle⟩
    exact ⟨hpos, .inr (by omega), fun s hs => stageForeignKeys_accepted _ _ _ s hs⟩

/-! ## Every plan -/

/-- The operations whose plan runs as it is emitted. -/
def runsAsEmitted : SchemaOperation → Bool
  | .alterColumn _ _ (.changeType _ to_ _) => onlyFirstPlaceholder to_.toList
  | .alterColumn .. | .addForeignKey .. => true
  | .addTable table =>
      0 < (fkColumns table).length && 2 * (fkColumns table).length ≤ 2 ^ 32
  | _ => false

/-- **The consumers accept a plan** of an operation on plain identifiers exactly when the operation
sets a column not null, adds a foreign key, replaces a column by one whose type has no placeholder of
its own, or adds a table with foreign keys that can be numbered. An index would be built in a
transaction, and a default comes with a hook that the walker does not know. -/
theorem dispatched_executable_iff (op : SchemaOperation) (ctx : PatternContext)
    (steps : List PatternStep) (hplain : ∀ name ∈ identifiers op, PlainName name)
    (h : dispatchPattern op ctx = .ok steps) :
    Executable (steps.map PatternStep.toStep) ↔ runsAsEmitted op = true := by
  rcases dispatchPattern_ok op ctx steps h with
    ⟨table, column, from_, to_, rfl, hemit⟩ | ⟨table, column, rfl, hemit⟩ |
    ⟨table, column, fk, rfl, hemit⟩ | ⟨index, rfl, -, hemit⟩ | ⟨index, rfl, -, hemit⟩ |
    ⟨table, rfl, hemit⟩ | ⟨table, column, rfl, hemit⟩
  · exact ReplacementColumn.executable_iff table column from_ to_ ctx steps
      (hplain _ (by simp [identifiers])) (hplain _ (by simp [identifiers])) hemit
  · exact iff_of_true (NullableNotNull.executable table column ctx steps hemit) rfl
  · exact iff_of_true (BackfillThenTighten.executable table column fk ctx steps
      (hplain _ (by simp [identifiers])) (hplain _ (by simp [identifiers]))
      (hplain _ (by simp [identifiers])) (hplain _ (by simp [identifiers])) hemit) rfl
  · exact iff_of_false (UniqueViaIndex.not_executable index ctx steps hemit) nofun
  · exact iff_of_false (IndexDependent.not_executable index ctx steps hemit) nofun
  · rw [MultiFkStaging.executable_iff table ctx steps hemit]
    simp [runsAsEmitted]
  · exact iff_of_false (ThreeStepDefault.not_executable table column ctx steps
      (hplain _ (by simp [identifiers])) (hplain _ (by simp [identifiers])) hemit) nofun

theorem dispatched_executable_iff_setNotNull :
    Executable ([
      ⟨.expandSchema, 0, .expandSchema []⟩,
      ⟨.validateBackfill, 1, .validateBackfill
        "SELECT count(*) FROM \"users\" WHERE \"email\" IS NULL"⟩,
      ⟨.finalizeConstraints, 2, .finalizeConstraints
        ["ALTER TABLE \"users\" ALTER COLUMN \"email\" SET NOT NULL"]⟩] : List Step) :=
  (dispatched_executable_iff (.alterColumn "users" "email" (.setNullable false)) 
    .withDefaults _
    (by
      simp only [identifiers, List.forall_mem_cons, PlainName]
      exact ⟨by decide +kernel, by decide +kernel, nofun⟩) rfl).mpr rfl

def sampleIndex : IndexSchema :=
  ⟨none, [], .bTree, .nonUnique, "users_email_idx", false, none, false, "users",
    .columns [⟨"email", .default, none, .asc⟩]⟩

/-- The executor would build the index in the transaction of the first step. -/
theorem dispatched_index_not_executable :
    (∀ name ∈ identifiers (.addIndex sampleIndex), PlainName name) ∧
    1 ≤ PatternContext.withDefaults.backfillChunkSize ∧
    ∃ steps, dispatchPattern (.addIndex sampleIndex) PatternContext.withDefaults = .ok steps ∧
      ¬Executable (steps.map PatternStep.toStep) := by
  refine ⟨?_, by decide, _, rfl, not_executable_of_createIndex sampleIndex _ _ rfl (.head _)⟩
  simp only [identifiers, sampleIndex, List.map_cons, List.map_nil, List.forall_mem_cons, PlainName]
  exact ⟨by decide +kernel, by decide +kernel, by decide +kernel, nofun⟩

end Djogi.Live

import Mathlib.Data.List.Basic
import Mathlib.Data.List.Infix
import Mathlib.Tactic.Ring

/-!
# Live plans

`live_migrate/plan.rs`: the steps of a plan, which of them drop something, and when a plan is
valid.

* `LivePlan.ordinal_of_valid`: the steps of a valid plan are numbered from zero and each has the
  parameters of its kind.
-/

namespace Djogi.Live

/-! ## Steps -/

inductive StepKind
  | expandSchema | beginCompatibilityWindow | backfillChunked | validateBackfill | cutoverReads
  | cutoverWrites | finalizeConstraints | cleanupLegacyState | runReversibleSchemaOp
  deriving DecidableEq, Repr

def StepKind.asDbStr : StepKind → String
  | .expandSchema => "expand_schema"
  | .beginCompatibilityWindow => "begin_compatibility_window"
  | .backfillChunked => "backfill_chunked"
  | .validateBackfill => "validate_backfill"
  | .cutoverReads => "cutover_reads"
  | .cutoverWrites => "cutover_writes"
  | .finalizeConstraints => "finalize_constraints"
  | .cleanupLegacyState => "cleanup_legacy_state"
  | .runReversibleSchemaOp => "run_reversible_schema_op"

/-- The name of the variant. -/
def StepKind.debug : StepKind → String
  | .expandSchema => "ExpandSchema"
  | .beginCompatibilityWindow => "BeginCompatibilityWindow"
  | .backfillChunked => "BackfillChunked"
  | .validateBackfill => "ValidateBackfill"
  | .cutoverReads => "CutoverReads"
  | .cutoverWrites => "CutoverWrites"
  | .finalizeConstraints => "FinalizeConstraints"
  | .cleanupLegacyState => "CleanupLegacyState"
  | .runReversibleSchemaOp => "RunReversibleSchemaOp"

theorem asDbStr_injective : Function.Injective StepKind.asDbStr := by
  intro a b h
  cases a <;> cases b <;> first | rfl | exact absurd h (by decide)

inductive StepParameters
  | expandSchema (sqlSegments : List String)
  | beginCompatibilityWindow (hooks : List String)
  | backfillChunked (table predicateTemplate : String) (chunkSize : Nat)
  | validateBackfill (gateQuery : String)
  | cutoverReads (description : String)
  | cutoverWrites (description : String)
  | finalizeConstraints (sqlSegments : List String)
  | cleanupLegacyState (sqlSegments : List String)
  | runReversibleSchemaOp (upSql downSql : String)
  deriving DecidableEq, Repr

def StepParameters.kind : StepParameters → StepKind
  | .expandSchema _ => .expandSchema
  | .beginCompatibilityWindow _ => .beginCompatibilityWindow
  | .backfillChunked .. => .backfillChunked
  | .validateBackfill _ => .validateBackfill
  | .cutoverReads _ => .cutoverReads
  | .cutoverWrites _ => .cutoverWrites
  | .finalizeConstraints _ => .finalizeConstraints
  | .cleanupLegacyState _ => .cleanupLegacyState
  | .runReversibleSchemaOp .. => .runReversibleSchemaOp

structure Step where
  kind : StepKind
  ordinal : Nat
  parameters : StepParameters
  deriving DecidableEq, Repr

def Step.isConsistent (s : Step) : Bool := s.kind = s.parameters.kind

/-! ## Destructive statements -/

def isIdentByte (c : Char) : Bool := c.isAlphanum || c == '_'

def isWsByte (c : Char) : Bool := c == ' ' || c == '\t' || c == '\n' || c == '\r'

/-- What follows the keyword, in any case. -/
def dropKeyword : List Char → List Char → Option (List Char)
  | [], rest => some rest
  | _ :: _, [] => none
  | k :: ks, c :: cs => if k.toLower = c.toLower then dropKeyword ks cs else none

/-- The keyword stands here and ends at a word boundary. -/
def keywordHere (keyword : String) (input : List Char) : Bool :=
  match dropKeyword keyword.toList input with
  | none => false
  | some [] => true
  | some (c :: _) => !isIdentByte c

def dropKindKeywords : List String :=
  ["TABLE", "COLUMN", "INDEX", "CONSTRAINT", "SCHEMA", "TYPE", "VIEW", "FUNCTION", "TRIGGER"]

def destructiveHere (input : List Char) : Bool :=
  keywordHere "TRUNCATE" input ||
    match dropKeyword "DROP".toList input with
    | none => false
    | some [] => false
    | some (c :: rest) =>
        !isIdentByte c &&
          dropKindKeywords.any fun kw => keywordHere kw ((c :: rest).dropWhile isWsByte)

def scanDestructive : Bool → List Char → Bool
  | _, [] => false
  | prevOk, c :: cs =>
      (prevOk && destructiveHere (c :: cs)) || scanDestructive (!isIdentByte c) cs

def sqlContainsDestructiveToken (sql : String) : Bool := scanDestructive true sql.toList

def Step.emitsDestructiveSql (s : Step) : Bool :=
  match s.kind, s.parameters with
  | .cleanupLegacyState, _ => true
  | .runReversibleSchemaOp, .runReversibleSchemaOp upSql _ => sqlContainsDestructiveToken upSql
  | _, _ => false

/-! ## Plans -/

structure PlanHeader where
  planId : Int
  slug : String
  targetDatabase : String
  appLabel : String
  deriving DecidableEq, Repr

structure LivePlan where
  header : PlanHeader
  steps : List Step
  deriving DecidableEq, Repr

def LivePlan.hasDestructiveSteps (p : LivePlan) : Bool := p.steps.any Step.emitsDestructiveSql

inductive PlanValidationError
  | emptySteps
  | tooManySteps
  | kindMismatch (ordinal : Nat) (declared parametersKind : StepKind)
  | ordinalGap (position expected observed : Nat)
  | slugByte (offset : Nat) (byte : UInt8)
  | emptySlug
  deriving DecidableEq, Repr

def u32Max : Nat := 2 ^ 32 - 1

def validateStep (idx : Nat) (s : Step) : Except PlanValidationError Unit :=
  if !s.isConsistent then .error (.kindMismatch s.ordinal s.kind s.parameters.kind)
  else if u32Max < idx then .error .tooManySteps
  else if s.ordinal ≠ idx then .error (.ordinalGap idx idx s.ordinal)
  else .ok ()

def validateSteps : Nat → List Step → Except PlanValidationError Unit
  | _, [] => .ok ()
  | idx, s :: rest => do
      validateStep idx s
      validateSteps (idx + 1) rest

def isPortableByte (b : UInt8) : Bool :=
  (48 ≤ b && b ≤ 57) || (65 ≤ b && b ≤ 90) || (97 ≤ b && b ≤ 122) || b == 95

def validateSlugFrom : Nat → List UInt8 → Except PlanValidationError Unit
  | _, [] => .ok ()
  | offset, b :: rest =>
      if isPortableByte b then validateSlugFrom (offset + 1) rest
      else .error (.slugByte offset b)

def validateSlugBytes (slug : String) : Except PlanValidationError Unit :=
  if slug.isEmpty then .error .emptySlug
  else validateSlugFrom 0 slug.toUTF8.data.toList

def LivePlan.validate (p : LivePlan) : Except PlanValidationError Unit :=
  if p.steps.isEmpty then .error .emptySteps
  else do
    validateSteps 0 p.steps
    validateSlugBytes p.header.slug

/-! ## Valid plans -/

theorem validateStep_iff (idx : Nat) (s : Step) :
    validateStep idx s = .ok () ↔ s.isConsistent = true ∧ idx ≤ u32Max ∧ s.ordinal = idx := by
  unfold validateStep
  cases s.isConsistent with
  | false => simp
  | true =>
    by_cases hmax : u32Max < idx
    · have hgt : ¬idx ≤ u32Max := by omega
      simp [hmax, hgt]
    · have hle : idx ≤ u32Max := by omega
      by_cases hord : s.ordinal = idx <;> simp [hmax, hord, hle]

theorem validateSteps_cons (idx : Nat) (s : Step) (l : List Step) :
    validateSteps idx (s :: l) = .ok () ↔
      validateStep idx s = .ok () ∧ validateSteps (idx + 1) l = .ok () := by
  rw [validateSteps]
  cases validateStep idx s with
  | error e => simp [Bind.bind, Except.bind]
  | ok u => simp [Bind.bind, Except.bind]

theorem validateSteps_iff (idx : Nat) (l : List Step) :
    validateSteps idx l = .ok () ↔
      ∀ i (h : i < l.length), l[i].isConsistent = true ∧ idx + i ≤ u32Max ∧
        l[i].ordinal = idx + i := by
  induction l generalizing idx with
  | nil => simp [validateSteps]
  | cons s l ih =>
    rw [validateSteps_cons, validateStep_iff, ih]
    constructor
    · rintro ⟨hs, hl⟩ i hi
      cases i with
      | zero => exact hs
      | succ i =>
        have := hl i (by simpa using hi)
        rwa [show idx + 1 + i = idx + (i + 1) by omega] at this
    · intro h
      refine ⟨h 0 (by simp), fun i hi => ?_⟩
      have := h (i + 1) (by simpa using hi)
      rwa [show idx + (i + 1) = idx + 1 + i by omega] at this

/-- **A valid plan** numbers its steps from zero. -/
theorem LivePlan.ordinal_of_valid (p : LivePlan) (h : p.validate = .ok ()) (i : Nat)
    (hi : i < p.steps.length) : p.steps[i].isConsistent = true ∧ p.steps[i].ordinal = i := by
  have hsteps : validateSteps 0 p.steps = .ok () := by
    unfold LivePlan.validate at h
    cases he : p.steps.isEmpty with
    | true => simp [he] at h
    | false =>
      cases hv : validateSteps 0 p.steps with
      | error e => simp [he, hv, Bind.bind, Except.bind] at h
      | ok u => rfl
  obtain ⟨hc, -, ho⟩ := (validateSteps_iff 0 p.steps).mp hsteps i hi
  exact ⟨hc, by simpa using ho⟩

example : (LivePlan.mk ⟨1, "add_email", "main", "shop"⟩
    [⟨.cleanupLegacyState, 0, .cleanupLegacyState ["drop  Table t"]⟩]).validate = .ok () ∧
    sqlContainsDestructiveToken "drop  Table t" = true ∧
    sqlContainsDestructiveToken "do_drop_table" = false := by
  decide +kernel

end Djogi.Live

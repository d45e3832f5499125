import Djogi.ComposeFiles
import Djogi.Lib.Text

/-!
# Reading the committed files back

`migrate/reset.rs` reads the statements of a migration out of the files that compose wrote, to
compute their checksums and to replay them without a committed plan.

* `checksum_recoverable`: statements that keep clear of what separates the statements of a file
  are read back as they were lowered;
* `checksum_not_recoverable`: a table comment with a blank line before two dashes is not.
-/

namespace Djogi

open Text

/-! ## The statements of a file -/

inductive ResetSqlSide
  | up | down
  deriving DecidableEq, Repr

structure CommittedSqlFragment where
  label : String
  sql : String
  deriving DecidableEq, Repr

def fragmentSeparator : List Char := "\n\n-- ".toList

def lossyPrefix : List Char := "-- LOSSY:".toList

/-- The down file takes the statements back, the last one first. -/
def inFile {α : Type} (side : ResetSqlSide) (l : List α) : List α :=
  match side with
  | .up => l
  | .down => l.reverse

def fragmentSql (side : ResetSqlSide) (fragment : List Char) : List Char :=
  match side with
  | .up => fragment
  | .down => joinLines ((lines fragment).filter fun line => !lossyPrefix.isPrefixOf line)

/-- The loop of `parse_composed_operation_fragments`. -/
def parseFragments (side : ResetSqlSide) : ℕ → List Char → Option (List CommittedSqlFragment)
  | 0, _ => none
  | n + 1, rest => do
    let afterDashes ← stripPrefix "-- ".toList rest
    let (label, afterLabel) ← splitOnce ['\n'] afterDashes
    match cut fragmentSeparator afterLabel with
    | some (fragment, next) =>
      let found ← parseFragments side n (next.drop 2)
      some (⟨String.ofList label, String.ofList (fragmentSql side fragment)⟩ :: found)
    | none => some [⟨String.ofList label, String.ofList (fragmentSql side afterLabel)⟩]

def parseComposedOperationFragments (body : List Char) (side : ResetSqlSide) :
    Option (List CommittedSqlFragment) :=
  let rest := trimEnd body
  if rest.all isWhitespace then some [] else parseFragments side rest.length rest

/-- A turn takes the dashes at least, so that as many turns as there are characters do. -/
theorem parseFragments_turns (side : ResetSqlSide) (n : ℕ) (rest : List Char)
    (h : rest.length ≤ n) : parseFragments side (n + 1) rest = parseFragments side n rest := by
  induction n generalizing rest with
  | zero =>
    obtain rfl := List.length_eq_zero_iff.mp (Nat.le_zero.mp h)
    rfl
  | succ n ih =>
    rw [parseFragments, parseFragments]
    cases hdashes : stripPrefix "-- ".toList rest with
    | none => rfl
    | some afterDashes =>
      have hlen := stripPrefix_length _ _ _ hdashes
      have hthree : "-- ".toList.length = 3 := by decide
      simp only [Option.bind_eq_bind, Option.bind_some]
      cases hline : splitOnce ['\n'] afterDashes with
      | none => rfl
      | some line =>
        obtain ⟨label, afterLabel⟩ := line
        have hafter := splitOnce_length _ _ _ _ hline
        simp only [Option.bind_some]
        cases hcut : cut fragmentSeparator afterLabel with
        | none => rfl
        | some place =>
          obtain ⟨fragment, next⟩ := place
          obtain ⟨hsplit, -⟩ := cut_some _ _ _ _ hcut
          have hnext := congrArg List.length hsplit
          rw [List.length_append] at hnext
          simp only [ih (next.drop 2) (by rw [List.length_drop]; omega)]

def composedHeader : ResetSqlSide → List Char
  | .up => "-- Djogi composed migration — up\n".toList
  | .down => "-- Djogi composed migration — down\n".toList

def doNotEdit : List Char :=
  "-- DO NOT EDIT — regenerate via `djogi migrations compose`.\n\n".toList

/-- A helper: the prelude in the file, and the fragment it stands for. -/
def helperPair (side : ResetSqlSide) (label : String) (helper : OperationSql) :
    List Char × CommittedSqlFragment :=
  ((scriptText helper.up).toList,
    ⟨label, match side with
      | .up => scriptText helper.up
      | .down => scriptText helper.down⟩)

def helperPairs (side : ResetSqlSide) : List (List Char × CommittedSqlFragment) :=
  [helperPair side "NumericArrayHelperPrelude" numericArrayHelperOperation,
    helperPair side "DateArrayHelperPrelude" dateArrayHelperOperation,
    helperPair side "TstzArrayHelperPrelude" tstzArrayHelperOperation]

def stripHelpers : List (List Char × CommittedSqlFragment) → List Char →
    List CommittedSqlFragment × List Char
  | [], body => ([], body)
  | (prelude, fragment) :: pairs, body =>
    match stripPrefix prelude body with
    | some rest =>
      let found := stripHelpers pairs ((stripPrefix ['\n'] rest).getD rest)
      (fragment :: found.1, found.2)
    | none => stripHelpers pairs body

def canonicalComposedLabeledFragments (sql : String) (side : ResetSqlSide) :
    Option (List CommittedSqlFragment) :=
  if (composedHeader side).isPrefixOf sql.toList then do
    let (_, body) ← splitOnce doNotEdit sql.toList
    let helpers := stripHelpers (helperPairs side) body
    let found ← parseComposedOperationFragments helpers.2 side
    some (helpers.1 ++ inFile side found)
  else none

def canonicalComposedSqlFragments (sql : String) (side : ResetSqlSide) : Option (List String) :=
  (canonicalComposedLabeledFragments sql side).map fun found => found.map CommittedSqlFragment.sql

/-! ## Checksums -/

section Checksum

variable (digest : String → String)

/-- The digest of the fragments, joined by newlines. -/
def computeChecksum (fragments : List String) : String :=
  "V1:" ++ digest (String.ofList (joinLines (fragments.map String.toList)))

def isDashed (s : String) : Bool := "--".toList.isPrefixOf s.toList

/-- `compute_checksums`, of what compose lowers. -/
def computeChecksums (lowered : List OperationSql) : String × Option String :=
  (computeChecksum digest (lowered.map fun o => scriptText o.up),
    if lowered.any fun o => !isDashed (scriptText o.down) then
      some (computeChecksum digest (lowered.map fun o => scriptText o.down))
    else none)

def isCommentOnlySql (sql : String) : Bool :=
  (((lines sql.toList).map (List.dropWhile isWhitespace)).filter
    fun line => !line.all isWhitespace).all fun line => "--".toList.isPrefixOf line

def computeCommittedSqlChecksum (sql : String) (side : ResetSqlSide) : String :=
  match canonicalComposedSqlFragments sql side with
  | some fragments => computeChecksum digest fragments
  | none => computeChecksum digest [sql]

def computeCommittedDownSqlChecksum (sql : String) : Option String :=
  match canonicalComposedSqlFragments sql .down with
  | some fragments =>
    if fragments.all isDashed then none else some (computeChecksum digest fragments)
  | none => if isCommentOnlySql sql then none else some (computeChecksum digest [sql])

/-! ## The plan without a sidecar -/

/-- A statement of a plan that is built from files: only its text is known. -/
structure ReplaySql where
  label : String
  up : String
  down : String
  lossy : Option LossyRollbackWarning
  deriving DecidableEq, Repr

structure ReplaySegment where
  kind : SegmentKind
  statements : List ReplaySql
  deriving DecidableEq, Repr

structure FallbackReplayPlan where
  bucket : BucketKey
  classification : Classification
  segments : List ReplaySegment
  checksumUp : String
  checksumDown : Option String

def FallbackReplayPlan.ups (p : FallbackReplayPlan) : List String :=
  p.segments.flatMap fun seg => seg.statements.map ReplaySql.up

inductive FallbackReplayPlanError
  | nonTransactionalStatement (shape : String)
  deriving DecidableEq, Repr

variable (findNonTransactionalStatementShape : String → Option String)

def canonicalFallbackReplayPlan (bucket : BucketKey) (version upSql downSql : String) :
    Except FallbackReplayPlanError FallbackReplayPlan :=
  match findNonTransactionalStatementShape upSql with
  | some shape => .error (.nonTransactionalStatement shape)
  | none =>
    let statements := match canonicalComposedLabeledFragments upSql .up with
      | some fragments => fragments.map fun f => ⟨f.label, f.sql, "", none⟩
      | none => [⟨"replay " ++ version, upSql, downSql, none⟩]
    .ok {
      bucket
      classification := .additive
      segments := [⟨.transactional, statements⟩]
      checksumUp := computeCommittedSqlChecksum digest upSql .up
      checksumDown := computeCommittedDownSqlChecksum digest downSql }

end Checksum

/-! ## What can be read back -/

def OperationSql.script (side : ResetSqlSide) (o : OperationSql) : String :=
  match side with
  | .up => scriptText o.up
  | .down => scriptText o.down

/-- What stands in the file below the label. -/
def OperationSql.body (side : ResetSqlSide) (o : OperationSql) : List Char :=
  match side with
  | .up => trimEnd (scriptText o.up).toList
  | .down => (lossyNote o.lossy).toList ++ trimEnd (scriptText o.down).toList

/-- A statement that keeps clear of what separates the statements of a file. -/
structure Legible (side : ResetSqlSide) (o : OperationSql) : Prop where
  label : '\n' ∉ o.label.toList
  detail : side = .down → ∀ w ∈ o.lossy, '\n' ∉ w.detail.toList
  ended : trimEnd (o.script side).toList = (o.script side).toList
  whole : ¬ fragmentSeparator <:+: o.body side
  kept : side = .down → ∀ line ∈ pieces (o.script side).toList, ¬ lossyPrefix <+: line
  returns : side = .down → ¬ ['\r', '\n'] <:+: (o.script side).toList

/-- Every statement is legible, and the last one of the file is not a mere label. -/
structure LegibleFile (side : ResetSqlSide) (lowered : List OperationSql) : Prop where
  each : ∀ o ∈ lowered, Legible side o
  last : ∀ o ∈ (inFile side lowered).getLast?, trimEnd (o.body side) ≠ []

instance (side : ResetSqlSide) (o : OperationSql) : Decidable (Legible side o) :=
  decidable_of_iff ('\n' ∉ o.label.toList ∧ (side = .down → ∀ w ∈ o.lossy, '\n' ∉ w.detail.toList) ∧
      trimEnd (o.script side).toList = (o.script side).toList ∧
      ¬ fragmentSeparator <:+: o.body side ∧
      (side = .down → ∀ line ∈ pieces (o.script side).toList, ¬ lossyPrefix <+: line) ∧
      (side = .down → ¬ ['\r', '\n'] <:+: (o.script side).toList))
    ⟨fun ⟨hlabel, hdetail, hended, hwhole, hkept, hreturns⟩ =>
        ⟨hlabel, hdetail, hended, hwhole, hkept, hreturns⟩,
      fun h => ⟨h.label, h.detail, h.ended, h.whole, h.kept, h.returns⟩⟩

instance (side : ResetSqlSide) (lowered : List OperationSql) :
    Decidable (LegibleFile side lowered) :=
  decidable_of_iff ((∀ o ∈ lowered, Legible side o) ∧
      ∀ o ∈ (inFile side lowered).getLast?, trimEnd (o.body side) ≠ [])
    ⟨fun ⟨heach, hlast⟩ => ⟨heach, hlast⟩, fun h => ⟨h.each, h.last⟩⟩

/-! ## Reading the statements -/

def render (side : ResetSqlSide) (ops : List OperationSql) : List Char :=
  ops.flatMap fun o => "-- ".toList ++ o.label.toList ++ '\n' :: (o.body side ++ ['\n', '\n'])

/-- The statements without the newlines at the end. -/
def rendered (side : ResetSqlSide) : List OperationSql → List Char
  | [] => []
  | [o] => "-- ".toList ++ o.label.toList ++ '\n' :: trimEnd (o.body side)
  | o :: p :: ops => "-- ".toList ++ o.label.toList ++ '\n' ::
      (o.body side ++ ['\n', '\n'] ++ rendered side (p :: ops))

theorem rendered_cons (side : ResetSqlSide) (o : OperationSql) (ops : List OperationSql) :
    ∃ r, rendered side (o :: ops) = "-- ".toList ++ r := by
  cases ops with
  | nil => exact ⟨_, by rw [rendered, List.append_assoc]⟩
  | cons p ops => exact ⟨_, by rw [rendered, List.append_assoc]⟩

theorem trimEnd_render (side : ResetSqlSide) (ops : List OperationSql)
    (hlast : ∀ o ∈ ops.getLast?, trimEnd (o.body side) ≠ []) :
    trimEnd (render side ops) = rendered side ops := by
  induction ops with
  | nil => rfl
  | cons o ops ih =>
    cases ops with
    | nil =>
      have ho : trimEnd (o.body side) ≠ [] := hlast o rfl
      have hbody : trimEnd (o.body side ++ ['\n', '\n']) = trimEnd (o.body side) :=
        trimEnd_append_eq _ _ rfl
      have hsplit : render side [o] = ("-- ".toList ++ o.label.toList ++ ['\n']) ++
          (o.body side ++ ['\n', '\n']) := by simp [render]
      rw [hsplit, trimEnd_append _ _ (by rwa [hbody]), hbody, rendered]
      simp
    | cons p ops =>
      have ih := ih fun q hq => hlast q (by simpa using hq)
      obtain ⟨r, hr⟩ := rendered_cons side p ops
      have hne : trimEnd (render side (p :: ops)) ≠ [] := by
        rw [ih, hr]
        simp
      have hsplit : render side (o :: p :: ops) = ("-- ".toList ++ o.label.toList ++ '\n' ::
          (o.body side ++ ['\n', '\n'])) ++ render side (p :: ops) := by simp [render]
      rw [hsplit, trimEnd_append _ _ hne, ih, rendered]
      simp

/-- A separator that stands in no text before it is found. -/
theorem cut_separator (a r : List Char) (ha : ¬ fragmentSeparator <:+: a) :
    cut fragmentSeparator (a ++ (fragmentSeparator ++ r)) = some (a, fragmentSeparator ++ r) := by
  refine cut_append _ a _ (List.prefix_append _ _) fun x y hxy hy hpre => ?_
  have hsep : fragmentSeparator = ['\n', '\n', '-', '-', ' '] := by decide
  rw [hsep] at hpre ha
  -- the separator does not overlap with itself
  rcases y with _ | ⟨c1, _ | ⟨c2, _ | ⟨c3, _ | ⟨c4, _ | ⟨c5, y⟩⟩⟩⟩⟩
  · exact hy rfl
  · simp at hpre
  · simp at hpre
  · simp at hpre
  · simp at hpre
  · refine ha ⟨x, y, ?_⟩
    simp only [List.cons_append, List.cons_prefix_cons] at hpre
    obtain ⟨rfl, rfl, rfl, rfl, rfl, -⟩ := hpre
    simp [hxy]

/-- The line of a warning, without its end. -/
def lossyLine (w : LossyRollbackWarning) : List Char :=
  lossyPrefix ++ ' ' :: (w.kind.debug ++ " — " ++ w.detail).toList

theorem lossyNote_some (w : LossyRollbackWarning) :
    (lossyNote (some w)).toList = lossyLine w ++ ['\n'] := by
  have hopen : "-- LOSSY: ".toList = lossyPrefix ++ [' '] := by decide
  simp [lossyNote, lossyLine, hopen]

theorem lossyLine_newline (w : LossyRollbackWarning) (h : '\n' ∉ w.detail.toList) :
    '\n' ∉ lossyLine w := by
  have hkind : '\n' ∉ w.kind.debug.toList := by cases w.kind <;> decide
  have hopen : '\n' ∉ lossyPrefix := by decide
  have hdash : '\n' ∉ " — ".toList := by decide
  simp only [lossyLine, String.toList_append, List.mem_append, List.mem_cons, not_or]
  exact ⟨hopen, by decide, ⟨hkind, hdash⟩, h⟩

theorem stripReturn_lossyLine (w : LossyRollbackWarning) :
    lossyPrefix.isPrefixOf (stripReturn (lossyLine w)) = true := by
  rw [List.isPrefixOf_iff_prefix, stripReturn]
  split
  · rw [lossyLine, List.dropLast_append_of_ne_nil (by simp)]
    exact List.prefix_append _ _
  · exact List.prefix_append _ _

/-- Below the label stands the statement, after the filter for warnings. -/
theorem Legible.fragment (side : ResetSqlSide) (o : OperationSql) (h : Legible side o) :
    fragmentSql side (o.body side) = (o.script side).toList ∧
      fragmentSql side (trimEnd (o.body side)) = (o.script side).toList := by
  cases side with
  | up =>
    have hended : trimEnd (scriptText o.up).toList = (scriptText o.up).toList := h.ended
    simp [fragmentSql, OperationSql.body, OperationSql.script, hended]
  | down =>
    have hended : trimEnd (scriptText o.down).toList = (scriptText o.down).toList := h.ended
    have hdown : joinLines ((lines (scriptText o.down).toList).filter
        fun line => !lossyPrefix.isPrefixOf line) = (scriptText o.down).toList := by
      refine joinLines_filter _ _ (h.returns rfl) hended fun line hline => ?_
      rw [Bool.not_eq_true', ← Bool.not_eq_true, List.isPrefixOf_iff_prefix]
      exact h.kept rfl line hline
    simp only [fragmentSql, OperationSql.body, OperationSql.script, hended]
    cases hlossy : o.lossy with
    | none => simp [lossyNote, hended, hdown]
    | some w =>
      have hline := lossyLine_newline w (h.detail rfl w (by simp [hlossy]))
      have hskip : ∀ d, (lines (lossyLine w ++ '\n' :: d)).filter
          (fun line => !lossyPrefix.isPrefixOf line) =
          (lines d).filter fun line => !lossyPrefix.isPrefixOf line := fun d => by
        rw [lines_append _ _ hline, List.filter_cons, stripReturn_lossyLine]
        rfl
      have hfull : joinLines ((lines (lossyLine w ++ '\n' :: (scriptText o.down).toList)).filter
          fun line => !lossyPrefix.isPrefixOf line) = (scriptText o.down).toList := by
        rw [hskip, hdown]
      rw [lossyNote_some, List.append_assoc, List.singleton_append]
      refine ⟨hfull, ?_⟩
      by_cases hempty : (scriptText o.down).toList = []
      · have hend : trimEnd (lossyLine w ++ ['\n']) = lossyLine w := by
          rw [trimEnd_newline, trimEnd_of_notMem _ hline]
        have hone := lines_of_notMem _ hline (by simp [lossyLine])
        have hfound : lossyPrefix.isPrefixOf (lossyLine w) = true := by
          rw [List.isPrefixOf_iff_prefix]
          exact List.prefix_append _ _
        rw [hempty, hend, hone, List.filter_cons, hfound]
        rfl
      · have hd : trimEnd ('\n' :: (scriptText o.down).toList) =
            '\n' :: (scriptText o.down).toList := by
          rw [← List.singleton_append, trimEnd_append _ _ (by rwa [hended]), hended]
        rw [trimEnd_append _ _ (by simp [hd]), hd, hfull]

def OperationSql.fragment (side : ResetSqlSide) (o : OperationSql) : CommittedSqlFragment :=
  ⟨o.label, o.script side⟩

/-- One turn of the loop, at a label. -/
theorem parseFragments_label (side : ResetSqlSide) (n : ℕ) (label r : List Char)
    (hlabel : '\n' ∉ label) :
    parseFragments side (n + 1) ("-- ".toList ++ label ++ '\n' :: r) =
      match cut fragmentSeparator r with
      | some (fragment, next) =>
        (parseFragments side n (next.drop 2)).map fun found =>
          ⟨String.ofList label, String.ofList (fragmentSql side fragment)⟩ :: found
      | none => some [⟨String.ofList label, String.ofList (fragmentSql side r)⟩] := by
  rw [parseFragments, List.append_assoc, stripPrefix_append]
  simp only [Option.bind_eq_bind, Option.bind_some, splitOnce_singleton _ _ _ hlabel]
  cases cut fragmentSeparator r with
  | none => rfl
  | some p =>
    obtain ⟨fragment, next⟩ := p
    cases hfound : parseFragments side n (next.drop 2) <;> simp [hfound]

theorem parseFragments_rendered (side : ResetSqlSide) (o : OperationSql) (ops : List OperationSql)
    (n : ℕ) (hn : ops.length < n) (h : ∀ p ∈ o :: ops, Legible side p) :
    parseFragments side n (rendered side (o :: ops)) =
      some ((o :: ops).map (OperationSql.fragment side)) := by
  induction ops generalizing o n with
  | nil =>
    obtain ⟨n, rfl⟩ := Nat.exists_eq_succ_of_ne_zero (by omega : n ≠ 0)
    have ho := h o (by simp)
    have hwhole : ¬ fragmentSeparator <:+: trimEnd (o.body side) :=
      fun hin => ho.whole (hin.trans (trimEnd_isPrefix _).isInfix)
    rw [rendered, parseFragments_label side n _ _ ho.label,
      cut_eq_none _ _ (by decide) hwhole, (ho.fragment).2]
    simp [OperationSql.fragment]
  | cons p ops ih =>
    obtain ⟨n, rfl⟩ := Nat.exists_eq_succ_of_ne_zero (by omega : n ≠ 0)
    have ho := h o (by simp)
    have ih := ih p n (by simpa using hn) fun q hq => h q (by simp only [List.mem_cons] at hq ⊢; tauto)
    obtain ⟨r, hr⟩ := rendered_cons side p ops
    have hsep : ['\n', '\n'] ++ rendered side (p :: ops) = fragmentSeparator ++ r := by
      rw [hr]
      rfl
    have hdrop : (fragmentSeparator ++ r).drop 2 = rendered side (p :: ops) := by
      rw [← hsep]
      rfl
    rw [rendered, parseFragments_label side n _ _ ho.label, List.append_assoc, hsep,
      cut_separator _ _ ho.whole]
    simp only [hdrop, ih, (ho.fragment).1]
    simp [OperationSql.fragment]

theorem length_le_rendered (side : ResetSqlSide) (ops : List OperationSql) :
    ops.length ≤ (rendered side ops).length := by
  induction ops with
  | nil => simp
  | cons o ops ih =>
    cases ops with
    | nil => simp [rendered]
    | cons p ops =>
      rw [rendered]
      simp only [List.length_append, List.length_cons] at ih ⊢
      omega

/-- **Statements read back.** -/
theorem parse_render (side : ResetSqlSide) (ops : List OperationSql)
    (h : ∀ o ∈ ops, Legible side o) (hlast : ∀ o ∈ ops.getLast?, trimEnd (o.body side) ≠ []) :
    parseComposedOperationFragments (render side ops) side =
      some (ops.map (OperationSql.fragment side)) := by
  rw [parseComposedOperationFragments, trimEnd_render side ops hlast]
  cases ops with
  | nil => rfl
  | cons o ops =>
    obtain ⟨r, hr⟩ := rendered_cons side o ops
    have hblank : (rendered side (o :: ops)).all isWhitespace = false := by
      rw [hr]
      rfl
    have hlen := length_le_rendered side (o :: ops)
    simp only [hblank, Bool.false_eq_true, if_false]
    exact parseFragments_rendered side o ops _ (by simp only [List.length_cons] at hlen; omega) h

/-! ## The framing of a file -/

/-- The file of a side. -/
def composedText (side : ResetSqlSide) (version : String) (delta : SchemaDelta)
    (lowered : List OperationSql) : String :=
  match side with
  | .up => composeUpText version delta lowered
  | .down => composeDownText version delta lowered

def sideWord : ResetSqlSide → String
  | .up => "up"
  | .down => "down"

def classificationLine (side : ResetSqlSide) (delta : SchemaDelta) : List (List Char) :=
  match side with
  | .up => ["-- Classification: ".toList ++ delta.classification.debug.toList]
  | .down => []

/-- The lines of a header that say something of the migration. -/
def headerLines (side : ResetSqlSide) (version : String) (delta : SchemaDelta) :
    List (List Char) :=
  ["-- Djogi composed migration — ".toList ++ (sideWord side).toList,
    "-- Version: ".toList ++ version.toList,
    "-- Bucket:  ".toList ++ delta.bucket.database.toList ++ '/' ::
      (appDirname delta.bucket.app).toList] ++ classificationLine side delta

/-- The lines that every header has. -/
def adviceLines : List (List Char) :=
  ["--".toList,
    "-- Apply via `djogi migrations apply`, not psql. This file is a review".toList,
    "-- artifact and replay source. Manual execution bypasses ledger recording,".toList,
    "-- checksum verification, advisory locking, and snapshot advancement.".toList,
    "-- Direct execution is only appropriate for debugging, audit transparency,".toList,
    "-- or explicit operator override.".toList,
    "--".toList]

def doNotEditLine : List Char :=
  "-- DO NOT EDIT — regenerate via `djogi migrations compose`.".toList

set_option maxRecDepth 4000 in
theorem advice_toList :
    "--\n-- Apply via `djogi migrations apply`, not psql. This file is a review\n".toList ++
      ("-- artifact and replay source. Manual execution bypasses ledger recording,\n".toList ++
        ("-- checksum verification, advisory locking, and snapshot advancement.\n".toList ++
          ("-- Direct execution is only appropriate for debugging, audit transparency,\n".toList ++
            ("-- or explicit operator override.\n--\n".toList ++
              "-- DO NOT EDIT — regenerate via `djogi migrations compose`.\n\n".toList)))) =
      adviceLines.flatMap (fun l => l ++ ['\n']) ++ (doNotEditLine ++ ['\n', '\n']) := by
  unfold adviceLines doNotEditLine
  repeat rw [String.toList_ofList]
  rfl

theorem fileHeader_toList (side version : String) (bucket : BucketKey) (classification : String) :
    (fileHeader side version bucket classification).toList =
      "-- Djogi composed migration — ".toList ++ (side.toList ++ '\n' :: ("-- Version: ".toList ++
        (version.toList ++ '\n' :: ("-- Bucket:  ".toList ++ (bucket.database.toList ++
          '/' :: ((appDirname bucket.app).toList ++ '\n' :: (classification.toList ++
            (adviceLines.flatMap (fun l => l ++ ['\n']) ++
              (doNotEditLine ++ ['\n', '\n']))))))))) := by
  have hversion : "\n-- Version: ".toList = '\n' :: "-- Version: ".toList := by decide
  have hbucket : "\n-- Bucket:  ".toList = '\n' :: "-- Bucket:  ".toList := by decide
  have hslash : "/".toList = ['/'] := by decide
  have hnewline : "\n".toList = ['\n'] := by decide
  unfold fileHeader
  simp only [String.toList_append, List.append_assoc, hversion, hbucket, hslash,
    hnewline, advice_toList, List.cons_append, List.nil_append]

theorem composedText_toList (side : ResetSqlSide) (version : String) (delta : SchemaDelta)
    (lowered : List OperationSql) :
    (composedText side version delta lowered).toList =
      (headerLines side version delta ++ adviceLines).flatMap (fun l => l ++ ['\n']) ++
        (doNotEditLine ++ ['\n', '\n'] ++
          ((helperPreludes lowered).toList ++ render side (inFile side lowered))) := by
  have hnewline : "\n".toList = ['\n'] := by decide
  have hblank : "\n\n".toList = ['\n', '\n'] := by decide
  have hempty : "".toList = [] := by decide
  cases side with
  | up =>
    unfold composedText composeUpText
    simp only [String.toList_append, fileHeader_toList, String.toList_join, headerLines,
      classificationLine, sideWord, hnewline, hblank, List.append_assoc, List.flatMap_map,
      List.flatMap_cons, List.cons_append, List.nil_append,
      render, inFile, OperationSql.body, trimNewlines, trimEnd, String.toList_ofList]
  | down =>
    unfold composedText composeDownText
    simp only [String.toList_append, fileHeader_toList, String.toList_join, headerLines,
      classificationLine, sideWord, hnewline, hblank, hempty, List.append_assoc, List.flatMap_map,
      List.flatMap_cons, List.cons_append, List.nil_append, render, inFile, OperationSql.body, trimNewlines, trimEnd,
      String.toList_ofList]

/-- A header without newlines in what it says. -/
structure PlainHeader (version : String) (delta : SchemaDelta) : Prop where
  version : '\n' ∉ version.toList
  database : '\n' ∉ delta.bucket.database.toList
  app : '\n' ∉ delta.bucket.app.toList

theorem debugString_newline (s : String) : '\n' ∉ (debugString s).toList := by
  have hquote : "\"".toList = ['"'] := by decide
  have hchar : ∀ c : Char, '\n' ∉ (if c.toNat = 34 then "\\\"" else if c.toNat = 92 then "\\\\"
      else if c.toNat = 10 then "\\n" else if c.toNat = 13 then "\\r"
      else if c.toNat = 9 then "\\t" else if c.toNat = 0 then "\\0"
      else String.singleton c).toList := fun c => by
    split_ifs with h1 h2 h3
    all_goals first
      | decide
      | (rw [String.toList_singleton, List.mem_singleton]
         rintro rfl
         exact h3 rfl)
  simp only [debugString, String.toList_append, String.toList_join, List.mem_append,
    List.mem_flatMap, List.mem_map, hquote]
  rintro ((hq | ⟨t, ⟨c, -, rfl⟩, hc⟩) | hq)
  · exact absurd hq (by decide)
  · exact hchar c hc
  · exact absurd hq (by decide)

theorem Classification.debug_newline (c : Classification) : '\n' ∉ c.debug.toList := by
  cases c with
  | unsupported reason =>
    have hopen : '\n' ∉ "Unsupported \x7b reason: ".toList := by decide
    have hclose : '\n' ∉ " \x7d".toList := by decide
    unfold Classification.debug
    simp only [String.toList_append, List.mem_append, not_or]
    exact ⟨⟨hopen, debugString_newline reason⟩, hclose⟩
  | pkTypeFlip coDestructive coLossy =>
    cases coDestructive <;> cases coLossy <;> decide
  | noOp => decide
  | additive => decide
  | reversible => decide
  | destructive => decide
  | lossy => decide

/-- No line of a header is blank. -/
theorem headerLines_plain (side : ResetSqlSide) (version : String) (delta : SchemaDelta)
    (h : PlainHeader version delta) :
    ∀ l ∈ headerLines side version delta ++ adviceLines, '\n' ∉ l ∧ l ≠ [] := by
  have hside : '\n' ∉ "-- Djogi composed migration — ".toList ++ (sideWord side).toList := by
    cases side <;> decide
  have hversion : '\n' ∉ "-- Version: ".toList := by decide
  have hbucket : '\n' ∉ "-- Bucket:  ".toList := by decide
  have hclass : '\n' ∉ "-- Classification: ".toList := by decide
  have hadvice : ∀ l ∈ adviceLines, '\n' ∉ l ∧ l ≠ [] := by
    unfold adviceLines
    repeat rw [String.toList_ofList]
    decide
  have happ : '\n' ∉ (appDirname delta.bucket.app).toList := by
    rw [appDirname]
    split
    · decide
    · exact h.app
  intro l hl
  rw [List.mem_append] at hl
  obtain hl | hl := hl
  · rw [headerLines, List.mem_append] at hl
    obtain hl | hl := hl
    · simp only [List.mem_cons, List.not_mem_nil, or_false] at hl
      obtain rfl | rfl | rfl := hl
      · exact ⟨hside, by simp⟩
      · simp only [List.mem_append, not_or]
        exact ⟨⟨hversion, h.version⟩, by simp⟩
      · simp only [List.mem_append, List.mem_cons, not_or]
        exact ⟨⟨⟨hbucket, h.database⟩, by decide, happ⟩, by simp⟩
    · cases side with
      | up =>
        obtain rfl := List.mem_singleton.mp hl
        simp only [List.mem_append, not_or]
        exact ⟨⟨hclass, delta.classification.debug_newline⟩, by simp⟩
      | down => cases hl
  · exact hadvice l hl

/-! ## Helper preludes -/

/-- Of helpers that are no beginnings of each other those that stand in the file are found. -/
theorem stripHelpers_flagged (flags : List (Bool × List Char × CommittedSqlFragment))
    (body : List Char)
    (hapart : flags.Pairwise fun p q => ¬ p.2.1 <+: q.2.1 ∧ ¬ q.2.1 <+: p.2.1)
    (hbody : ∀ p ∈ flags, ¬ p.2.1 <+: body) :
    stripHelpers (flags.map Prod.snd)
        ((flags.filter Prod.fst).flatMap (fun p => p.2.1 ++ ['\n']) ++ body) =
      ((flags.filter Prod.fst).map (fun p => p.2.2), body) := by
  induction flags with
  | nil => rfl
  | cons p flags ih =>
    obtain ⟨present, prelude, fragment⟩ := p
    obtain ⟨hp, hapart⟩ := List.pairwise_cons.mp hapart
    have ih := ih hapart fun q hq => hbody q (by simp [hq])
    cases present with
    | true =>
      have hhere : stripPrefix prelude (prelude ++ '\n' ::
          ((flags.filter Prod.fst).flatMap (fun p => p.2.1 ++ ['\n']) ++ body)) =
          some ('\n' :: ((flags.filter Prod.fst).flatMap (fun p => p.2.1 ++ ['\n']) ++ body)) :=
        stripPrefix_append _ _
      have hline := stripPrefix_append ['\n']
        ((flags.filter Prod.fst).flatMap (fun p => p.2.1 ++ ['\n']) ++ body)
      rw [List.singleton_append] at hline
      simp [stripHelpers, hhere, hline, ih]
    | false =>
      have hnone : ¬ prelude <+: (flags.filter Prod.fst).flatMap (fun p => p.2.1 ++ ['\n']) ++
          body := by
        cases hf : flags.filter Prod.fst with
        | nil => exact hbody (false, prelude, fragment) (by simp)
        | cons q rest =>
          have hq : q ∈ flags := List.mem_of_mem_filter (hf ▸ List.mem_cons_self)
          rw [List.flatMap_cons, List.append_assoc, List.append_assoc]
          intro hpre
          obtain h | h := List.prefix_or_prefix_of_prefix hpre (List.prefix_append q.2.1 _)
          · exact (hp q hq).1 h
          · exact (hp q hq).2 h
      simp [stripHelpers, stripPrefix_eq_none _ _ hnone, ih]

/-- The helpers, each with whether the statements need it. -/
def flaggedHelpers (side : ResetSqlSide) (lowered : List OperationSql) :
    List (Bool × List Char × CommittedSqlFragment) :=
  [requiresHelper numericArrayHelperMarker lowered, requiresHelper dateArrayHelperMarker lowered,
    requiresHelper tstzArrayHelperMarker lowered].zip (helperPairs side)

theorem flaggedHelpers_preludes (side : ResetSqlSide) (lowered : List OperationSql) :
    (helperPreludes lowered).toList =
      ((flaggedHelpers side lowered).filter Prod.fst).flatMap fun p => p.2.1 ++ ['\n'] := by
  have hnewline : "\n".toList = ['\n'] := by decide
  unfold helperPreludes helperOperations flaggedHelpers helperPairs helperPair
  cases requiresHelper numericArrayHelperMarker lowered <;>
    cases requiresHelper dateArrayHelperMarker lowered <;>
      cases requiresHelper tstzArrayHelperMarker lowered <;> simp [hnewline]

theorem flaggedHelpers_fragments (side : ResetSqlSide) (lowered : List OperationSql) :
    ((flaggedHelpers side lowered).filter Prod.fst).map (fun p => p.2.2.sql) =
      (helperOperations lowered).map (OperationSql.script side) := by
  unfold helperOperations flaggedHelpers helperPairs helperPair
  cases requiresHelper numericArrayHelperMarker lowered <;>
    cases requiresHelper dateArrayHelperMarker lowered <;>
      cases requiresHelper tstzArrayHelperMarker lowered <;> cases side <;> rfl

def preludeFront : List Char :=
  "CREATE SCHEMA IF NOT EXISTS djogi;\n\nCREATE OR REPLACE FUNCTION djogi.".toList

theorem helperOperation_front (label function elem body : String) :
    ∃ r, (scriptText (helperOperation label (arrayHelperPrelude function elem body)).up).toList =
      preludeFront ++ (function.toList ++ r) := by
  unfold helperOperation scriptText remarkLine arrayHelperPrelude
  simp only [List.map_cons, List.map_nil, String.toList_join, List.flatMap_cons, List.flatMap_nil,
    List.append_nil, String.toList_append, List.append_assoc]
  exact ⟨_, rfl⟩

/-- The preludes begin alike, up to the name of the function. -/
theorem helperPairs_front (side : ResetSqlSide) :
    ∃ r₁ r₂ r₃, (helperPairs side).map Prod.fst =
      [preludeFront ++ ("__djogi_numeric_array_is_rust_decimal_v1".toList ++ r₁),
        preludeFront ++ ("__djogi_date_array_is_finite_v1".toList ++ r₂),
        preludeFront ++ ("__djogi_tstz_array_is_finite_v1".toList ++ r₃)] := by
  obtain ⟨r₁, h₁⟩ : ∃ r, (scriptText numericArrayHelperOperation.up).toList = preludeFront ++
      ("__djogi_numeric_array_is_rust_decimal_v1".toList ++ r) := helperOperation_front _ _ _ _
  obtain ⟨r₂, h₂⟩ : ∃ r, (scriptText dateArrayHelperOperation.up).toList = preludeFront ++
      ("__djogi_date_array_is_finite_v1".toList ++ r) := helperOperation_front _ _ _ _
  obtain ⟨r₃, h₃⟩ : ∃ r, (scriptText tstzArrayHelperOperation.up).toList = preludeFront ++
      ("__djogi_tstz_array_is_finite_v1".toList ++ r) := helperOperation_front _ _ _ _
  refine ⟨r₁, r₂, r₃, ?_⟩
  have hfst : ∀ label helper, (helperPair side label helper).1 = (scriptText helper.up).toList :=
    fun _ _ => rfl
  simp only [helperPairs, List.map_cons, List.map_nil, hfst, h₁, h₂, h₃]

/-- Texts that part after a common front are no beginnings of each other. -/
theorem not_prefix_of_take (n : ℕ) (front f g r s : List Char) (hf : n ≤ f.length)
    (hg : n ≤ g.length) (h : f.take n ≠ g.take n) :
    ¬ front ++ (f ++ r) <+: front ++ (g ++ s) := by
  intro hpre
  rw [List.prefix_append_right_inj] at hpre
  have htake := hpre.take n
  rw [List.take_append_of_le_length hf, List.take_append_of_le_length hg] at htake
  exact h (htake.eq_of_length (by simp [hf, hg]))

theorem flaggedHelpers_apart (side : ResetSqlSide) (lowered : List OperationSql) :
    (flaggedHelpers side lowered).Pairwise fun p q => ¬ p.2.1 <+: q.2.1 ∧ ¬ q.2.1 <+: p.2.1 := by
  obtain ⟨r₁, r₂, r₃, hfront⟩ := helperPairs_front side
  have happart : ∀ (f g : String) (r s : List Char), 9 ≤ f.toList.length → 9 ≤ g.toList.length →
      f.toList.take 9 ≠ g.toList.take 9 →
      ¬ preludeFront ++ (f.toList ++ r) <+: preludeFront ++ (g.toList ++ s) ∧
        ¬ preludeFront ++ (g.toList ++ s) <+: preludeFront ++ (f.toList ++ r) :=
    fun f g r s hf hg h => ⟨not_prefix_of_take 9 _ _ _ _ _ hf hg h,
      not_prefix_of_take 9 _ _ _ _ _ hg hf h.symm⟩
  have hpairs : ((flaggedHelpers side lowered).map fun p => p.2.1).Pairwise
      fun a b => ¬ a <+: b ∧ ¬ b <+: a := by
    have hfst : ((flaggedHelpers side lowered).map fun p => p.2.1) =
        (helperPairs side).map Prod.fst := rfl
    rw [hfst, hfront]
    simp only [List.pairwise_cons, List.mem_cons, List.not_mem_nil, or_false, forall_eq_or_imp,
      forall_eq, List.Pairwise.nil, false_imp_iff, implies_true, and_true]
    exact ⟨⟨happart _ _ _ _ (by decide) (by decide) (by decide),
      happart _ _ _ _ (by decide) (by decide) (by decide)⟩,
      happart _ _ _ _ (by decide) (by decide) (by decide)⟩
  exact List.pairwise_map.mp hpairs

/-- A statement of the file is no helper. -/
theorem flaggedHelpers_render (side : ResetSqlSide) (lowered ops : List OperationSql) :
    ∀ p ∈ flaggedHelpers side lowered, ¬ p.2.1 <+: render side ops := by
  obtain ⟨r₁, r₂, r₃, hfront⟩ := helperPairs_front side
  have hC : preludeFront.head? = some 'C' := by decide
  intro p hp hpre
  have hmem := List.mem_map_of_mem (f := Prod.fst) (List.of_mem_zip hp).2
  rw [hfront] at hmem
  have hp : p.2.1.head? = some 'C' := by
    simp only [List.mem_cons, List.not_mem_nil, or_false] at hmem
    obtain h | h | h := hmem
    all_goals rw [h, List.head?_append, hC, Option.some_or]
  cases hrender : render side ops with
  | nil =>
    rw [hrender, List.prefix_nil] at hpre
    simp [hpre] at hp
  | cons c r =>
    obtain ⟨o, ops, rfl⟩ : ∃ o ops', ops = o :: ops' := by
      cases ops with
      | nil => cases hrender
      | cons o ops => exact ⟨o, ops, rfl⟩
    have hc : (render side (o :: ops)).head? = some '-' := by
      simp [render]
    obtain ⟨t, ht⟩ := hpre
    rw [← ht, List.head?_append, hp] at hc
    cases hc

theorem doNotEdit_eq : doNotEdit = doNotEditLine ++ ['\n', '\n'] := by
  unfold doNotEdit doNotEditLine
  repeat rw [String.toList_ofList]
  rfl

theorem doNotEditLine_plain : '\n' ∉ doNotEditLine ∧ doNotEditLine ≠ [] := by
  unfold doNotEditLine
  rw [String.toList_ofList]
  decide

theorem composedText_start (side : ResetSqlSide) (version : String) (delta : SchemaDelta)
    (lowered : List OperationSql) :
    (composedHeader side).isPrefixOf (composedText side version delta lowered).toList = true := by
  have hhead : composedHeader side =
      "-- Djogi composed migration — ".toList ++ (sideWord side).toList ++ ['\n'] := by
    cases side <;> decide
  rw [List.isPrefixOf_iff_prefix, composedText_toList, hhead, headerLines]
  simp only [List.cons_append, List.nil_append, List.flatMap_cons, List.append_assoc,
    List.prefix_append_right_inj]
  exact List.prefix_append ['\n'] _

theorem stripHelpers_composed (side : ResetSqlSide) (lowered ops : List OperationSql) :
    stripHelpers (helperPairs side) ((helperPreludes lowered).toList ++ render side ops) =
      (((flaggedHelpers side lowered).filter Prod.fst).map (fun p => p.2.2), render side ops) := by
  have hhelpers := stripHelpers_flagged (flaggedHelpers side lowered) (render side ops)
    (flaggedHelpers_apart side lowered) (flaggedHelpers_render side lowered _)
  have hpairs : (flaggedHelpers side lowered).map Prod.snd = helperPairs side := by
    simp [flaggedHelpers, helperPairs]
  rw [flaggedHelpers_preludes side, ← hpairs]
  exact hhelpers

theorem splitOnce_composed (side : ResetSqlSide) (version : String) (delta : SchemaDelta)
    (lowered : List OperationSql) (hheader : PlainHeader version delta) :
    ∃ header, splitOnce doNotEdit (composedText side version delta lowered).toList =
      some (header, (helperPreludes lowered).toList ++ render side (inFile side lowered)) := by
  rw [composedText_toList, doNotEdit_eq]
  exact ⟨_, splitOnce_lines '\n' doNotEditLine _ _ doNotEditLine_plain.1 doNotEditLine_plain.2
    (headerLines_plain side version delta hheader)⟩

theorem canonicalComposedLabeledFragments_split (side : ResetSqlSide) (sql : String)
    (header body rest : List Char) (helpers : List CommittedSqlFragment)
    (hstart : (composedHeader side).isPrefixOf sql.toList = true)
    (hsplit : splitOnce doNotEdit sql.toList = some (header, body))
    (hstrip : stripHelpers (helperPairs side) body = (helpers, rest)) :
    canonicalComposedLabeledFragments sql side =
      (parseComposedOperationFragments rest side).map fun found => helpers ++ inFile side found := by
  rw [canonicalComposedLabeledFragments, if_pos hstart, hsplit]
  rw [Option.bind_eq_bind, Option.bind_some]
  dsimp only
  rw [hstrip]
  cases parseComposedOperationFragments rest side <;> rfl

/-- **A file read back**, helpers first and then the statements in the order of the file. -/
theorem canonicalComposedLabeledFragments_composed (side : ResetSqlSide) (version : String)
    (delta : SchemaDelta) (lowered : List OperationSql) (hheader : PlainHeader version delta) :
    canonicalComposedLabeledFragments (composedText side version delta lowered) side =
      (parseComposedOperationFragments (render side (inFile side lowered)) side).map fun found =>
        ((flaggedHelpers side lowered).filter Prod.fst).map (fun p => p.2.2) ++
          inFile side found := by
  obtain ⟨header, hsplit⟩ := splitOnce_composed side version delta lowered hheader
  exact canonicalComposedLabeledFragments_split side _ header _ _ _
    (composedText_start side version delta lowered) hsplit (stripHelpers_composed side lowered _)

theorem LegibleFile.fragments (side : ResetSqlSide) (version : String) (delta : SchemaDelta)
    (lowered : List OperationSql) (hheader : PlainHeader version delta)
    (h : LegibleFile side lowered) :
    canonicalComposedSqlFragments (composedText side version delta lowered) side =
      some ((helperOperations lowered ++ lowered).map (OperationSql.script side)) := by
  have heach : ∀ o ∈ inFile side lowered, Legible side o := by
    cases side with
    | up => exact h.each
    | down => exact fun o ho => h.each o (List.mem_reverse.mp ho)
  have hfound := canonicalComposedLabeledFragments_composed side version delta lowered hheader
  rw [parse_render side _ heach h.last] at hfound
  rw [canonicalComposedSqlFragments, hfound, List.map_append, ← flaggedHelpers_fragments side]
  cases side <;> simp [inFile, OperationSql.fragment, Function.comp_def]

/-! ## Recovery -/

/-- What is hashed and planned from the files is what is hashed and planned from the statements,
with the helpers they need before them. -/
def Recoverable (digest : String → String) (shape : String → Option String) (bucket : BucketKey)
    (version : String) (delta : SchemaDelta) (lowered : List OperationSql) : Prop :=
  let all := helperOperations lowered ++ lowered
  let up := composeUpText version delta lowered
  let down := composeDownText version delta lowered
  computeCommittedSqlChecksum digest up .up = (computeChecksums digest all).1 ∧
    computeCommittedDownSqlChecksum digest down = (computeChecksums digest all).2 ∧
    ∀ plan, canonicalFallbackReplayPlan digest shape bucket version up down = .ok plan →
      plan.ups = all.map fun o => scriptText o.up

/-- The statements of a plan are what was read, or the file as one statement. -/
theorem canonicalFallbackReplayPlan_ups (digest : String → String) (shape : String → Option String)
    (bucket : BucketKey) (version up down : String) (plan : FallbackReplayPlan)
    (h : canonicalFallbackReplayPlan digest shape bucket version up down = .ok plan) :
    plan.ups = (canonicalComposedSqlFragments up .up).getD [up] := by
  rw [canonicalFallbackReplayPlan] at h
  split at h
  · cases h
  · obtain rfl := Except.ok.inj h
    rw [canonicalComposedSqlFragments]
    cases canonicalComposedLabeledFragments up .up <;> simp [FallbackReplayPlan.ups]

/-- **Recovery.** Statements that are legible on both sides are recovered. -/
theorem LegibleFile.recoverable (digest : String → String) (shape : String → Option String)
    (bucket : BucketKey) (version : String) (delta : SchemaDelta) (lowered : List OperationSql)
    (hheader : PlainHeader version delta) (hup : LegibleFile .up lowered)
    (hdown : LegibleFile .down lowered) :
    Recoverable digest shape bucket version delta lowered := by
  have hups := hup.fragments .up version delta lowered hheader
  have hdowns := hdown.fragments .down version delta lowered hheader
  simp only [composedText] at hups hdowns
  refine ⟨?_, ?_, fun plan hplan => ?_⟩
  · rw [computeCommittedSqlChecksum, hups]
    rfl
  · have hdashed : ((helperOperations lowered ++ lowered).map (OperationSql.script .down)).all
        isDashed = !(helperOperations lowered ++ lowered).any fun o =>
          !isDashed (scriptText o.down) := by
      rw [List.all_map, List.not_any_eq_all_not]
      simp [Function.comp_def, OperationSql.script]
    rw [computeCommittedDownSqlChecksum, hdowns, computeChecksums]
    simp only [hdashed, Bool.not_eq_true']
    cases (helperOperations lowered ++ lowered).any fun o => !isDashed (scriptText o.down)
    · rfl
    · rfl
  · rw [canonicalFallbackReplayPlan_ups _ _ _ _ _ _ plan hplan, hups]
    rfl

/-! ## What recovery needs -/

theorem body_up (o : OperationSql) : o.body .up <+: (o.script .up).toList := trimEnd_isPrefix _

theorem trimEnd_render_cons (side : ResetSqlSide) (o : OperationSql) (ops : List OperationSql) :
    ∃ r, trimEnd (render side (o :: ops)) = "-- ".toList ++ r := by
  obtain ⟨x, hx⟩ : ∃ x, render side (o :: ops) = "-- ".toList ++ x :=
    ⟨_, by rw [render, List.flatMap_cons, List.append_assoc, List.append_assoc]⟩
  rw [hx]
  by_cases h : trimEnd x = []
  · exact ⟨[], by rw [trimEnd_append_eq _ _ h]; decide⟩
  · exact ⟨trimEnd x, trimEnd_append _ _ h⟩

/-- A text of the length of one that begins with it is that text. -/
theorem eq_of_length_le (a b : List Char) (h : a <+: b) (hle : b.length ≤ a.length) : a = b :=
  h.eq_of_length (le_antisymm h.length_le hle)

/-- Statements that are read from the up file as they were lowered are legible. -/
theorem legible_of_parse (ops : List OperationSql) (o : OperationSql) (n : ℕ)
    (found : List CommittedSqlFragment) (hlabel : ∀ p ∈ o :: ops, '\n' ∉ p.label.toList)
    (hfound : parseFragments .up n (trimEnd (render .up (o :: ops))) = some found)
    (hsql : found.map CommittedSqlFragment.sql = (o :: ops).map (OperationSql.script .up)) :
    (∀ p ∈ o :: ops, Legible .up p) ∧
      ∀ q ∈ (o :: ops).getLast?, trimEnd (q.body .up) ≠ [] := by
  have hlegible : ∀ p : OperationSql, '\n' ∉ p.label.toList →
      p.body .up = (p.script .up).toList → ¬ fragmentSeparator <:+: p.body .up → Legible .up p :=
    fun p hp hbody hwhole => ⟨hp, fun h => (by cases h), hbody, hwhole, fun h => (by cases h),
      fun h => (by cases h)⟩
  induction ops generalizing o n found with
  | nil =>
    obtain _ | n := n
    · cases hfound
    have ho := hlabel o (by simp)
    have hidem : trimEnd (o.body .up) = o.body .up := trimEnd_trimEnd _
    have hbody : trimEnd (o.body .up ++ ['\n', '\n']) = o.body .up := by
      rw [trimEnd_append_eq _ _ rfl, hidem]
    by_cases hempty : o.body .up = []
    · -- without a statement the text is the mere label
      have hsplit : render .up [o] = "-- ".toList ++ o.label.toList ++ ['\n', '\n', '\n'] := by
        simp [render, hempty]
      have hbare : '\n' ∉ "-- ".toList ++ o.label.toList := by
        rw [List.mem_append, not_or]
        exact ⟨by decide, ho⟩
      rw [hsplit, trimEnd_append_eq _ _ rfl, trimEnd_of_notMem _ hbare, parseFragments,
        stripPrefix_append] at hfound
      have hnone : splitOnce ['\n'] o.label.toList = none := by
        rw [splitOnce, cut_eq_none _ _ (by simp) fun hin => ho (hin.subset (by simp))]
        rfl
      simp [hnone] at hfound
    · have hsplit : render .up [o] = "-- ".toList ++ o.label.toList ++ ['\n'] ++
          (o.body .up ++ ['\n', '\n']) := by simp [render]
      rw [hsplit, trimEnd_append _ _ (by rwa [hbody]), hbody, List.append_assoc,
        List.singleton_append, parseFragments_label .up n _ _ ho] at hfound
      refine ⟨fun p hp => ?_, fun q hq => ?_⟩
      · obtain rfl := List.mem_singleton.mp hp
        cases hcut : cut fragmentSeparator (p.body .up) with
        | none =>
          rw [hcut] at hfound
          obtain rfl := Option.some.inj hfound
          have hscript : p.body .up = (p.script .up).toList := by
            have := (List.cons.inj hsql).1
            simpa [fragmentSql, ← String.toList_inj] using this
          exact hlegible p ho hscript (not_infix_of_cut _ _ hcut)
        | some place =>
          -- a fragment that stops before the end of the statement is not the statement
          obtain ⟨fragment, next⟩ := place
          obtain ⟨hb, hnext⟩ := cut_some _ _ _ _ hcut
          rw [hcut] at hfound
          obtain ⟨found', -, rfl⟩ := Option.map_eq_some_iff.mp hfound
          have hscript : fragment = (p.script .up).toList := by
            have := (List.cons.inj hsql).1
            simpa [fragmentSql, ← String.toList_inj] using this
          have hlen := (body_up p).length_le
          have hpos := hnext.length_le
          have hsep : fragmentSeparator.length = 5 := by decide
          rw [hb, ← hscript, List.length_append] at hlen
          omega
      · obtain rfl : o = q := by simpa using hq
        rwa [hidem]
  | cons p ops ih =>
    obtain _ | n := n
    · cases hfound
    have ho := hlabel o (by simp)
    obtain ⟨r, hr⟩ := trimEnd_render_cons .up p ops
    have hsplit : render .up (o :: p :: ops) = "-- ".toList ++ o.label.toList ++ '\n' ::
        (o.body .up ++ ['\n', '\n']) ++ render .up (p :: ops) := by simp [render]
    have hsep : ['\n', '\n'] ++ trimEnd (render .up (p :: ops)) = fragmentSeparator ++ r := by
      rw [hr]
      rfl
    have htext : trimEnd (render .up (o :: p :: ops)) = "-- ".toList ++ o.label.toList ++ '\n' ::
        (o.body .up ++ (fragmentSeparator ++ r)) := by
      rw [hsplit, trimEnd_append _ _ (by simp [hr]), ← hsep]
      simp
    obtain ⟨fragment, next, hcut, hle⟩ := cut_length_le fragmentSeparator (o.body .up)
      (fragmentSeparator ++ r) (List.prefix_append _ _)
    rw [htext, parseFragments_label .up n _ _ ho, hcut] at hfound
    obtain ⟨found', hfound', rfl⟩ := Option.map_eq_some_iff.mp hfound
    obtain ⟨hhead, htail⟩ := List.cons.inj hsql
    have hscript : fragment = (o.script .up).toList := by
      simpa [fragmentSql, ← String.toList_inj] using hhead
    have hbody : o.body .up = (o.script .up).toList :=
      eq_of_length_le _ _ (body_up o) (by rwa [← hscript])
    obtain ⟨hb, -⟩ := cut_some _ _ _ _ hcut
    rw [hbody, ← hscript] at hb
    have hnext : next = fragmentSeparator ++ r := (List.append_cancel_left hb).symm
    have hwhole : ¬ fragmentSeparator <:+: o.body .up := by
      rw [hbody, ← hscript]
      exact cut_not_infix _ _ _ _ (by decide) hcut
    have hrest : next.drop 2 = trimEnd (render .up (p :: ops)) := by
      rw [hnext, ← hsep]
      rfl
    rw [hrest] at hfound'
    obtain ⟨heach, hlast⟩ := ih p n found' (fun q hq => hlabel q (List.mem_cons_of_mem o hq))
      hfound' htail
    refine ⟨fun q hq => ?_, fun q hq => hlast q (by simpa using hq)⟩
    obtain rfl | hq := List.mem_cons.mp hq
    · exact hlegible q ho hbody hwhole
    · exact heach q hq

/-- A file holds more than its statements. -/
theorem composed_ne_script (version : String) (delta : SchemaDelta) (o : OperationSql) :
    composeUpText version delta [o] ≠ o.script .up := by
  intro h
  have hfile : (composeUpText version delta [o]).toList = _ :=
    composedText_toList .up version delta [o]
  have hone : render .up (inFile .up [o]) =
      "-- ".toList ++ (o.label.toList ++ '\n' :: (o.body .up ++ ['\n', '\n'])) := by
    simp [render, inFile]
  have hbody : (o.body .up).countP (· ≠ '\n') = (o.script .up).toList.countP (· ≠ '\n') :=
    trimEnd_countP _
  have hdash : "-- ".toList.countP (· ≠ '\n') = 3 := by decide
  have hcount := congrArg (fun s => s.toList.countP (· ≠ '\n')) h
  simp only [hfile, hone, List.countP_append, List.countP_cons, hdash, hbody] at hcount
  omega

/-- Without a refusal, statements under labels of one line that are recovered are legible. -/
theorem LegibleFile.of_recoverable (digest : String → String) (shape : String → Option String)
    (bucket : BucketKey) (version : String) (delta : SchemaDelta) (lowered : List OperationSql)
    (hheader : PlainHeader version delta) (hlabel : ∀ o ∈ lowered, '\n' ∉ o.label.toList)
    (hshape : shape (composeUpText version delta lowered) = none)
    (h : Recoverable digest shape bucket version delta lowered) : LegibleFile .up lowered := by
  obtain ⟨plan, hplan⟩ : ∃ plan, canonicalFallbackReplayPlan digest shape bucket version
      (composeUpText version delta lowered) (composeDownText version delta lowered) = .ok plan := by
    rw [canonicalFallbackReplayPlan, hshape]
    exact ⟨_, rfl⟩
  have hups := h.2.2 plan hplan
  rw [canonicalFallbackReplayPlan_ups _ _ _ _ _ _ plan hplan] at hups
  have hfile := canonicalComposedLabeledFragments_composed .up version delta lowered hheader
  simp only [composedText, inFile] at hfile
  rw [canonicalComposedSqlFragments, hfile] at hups
  cases lowered with
  | nil => exact ⟨fun o ho => (by cases ho), fun o ho => (by cases ho)⟩
  | cons o ops =>
    cases hfound : parseComposedOperationFragments (render .up (o :: ops)) .up with
    | none =>
      -- the file as one statement would have to be the only statement
      rw [hfound] at hups
      have hlen := congrArg List.length hups
      simp only [Option.map_none, Option.getD_none, List.map_append, List.length_append,
        List.length_map, List.length_cons, List.length_nil] at hlen
      have hhelpers : helperOperations (o :: ops) = [] := List.length_eq_zero_iff.mp (by omega)
      obtain rfl : ops = [] := List.length_eq_zero_iff.mp (by omega)
      rw [hhelpers] at hups
      exact absurd (List.singleton_inj.mp hups) (composed_ne_script version delta o)
    | some found =>
      rw [hfound] at hups
      have hsql : found.map CommittedSqlFragment.sql = (o :: ops).map (OperationSql.script .up) := by
        have hsplit : ((flaggedHelpers .up (o :: ops)).filter Prod.fst).map (fun p => p.2.2.sql) ++
            found.map CommittedSqlFragment.sql =
            (helperOperations (o :: ops) ++ o :: ops).map (OperationSql.script .up) := by
          rw [Option.map_some, Option.map_some, Option.getD_some, List.map_append,
            List.map_map] at hups
          exact hups
        rw [flaggedHelpers_fragments, List.map_append] at hsplit
        exact List.append_cancel_left hsplit
      rw [parseComposedOperationFragments] at hfound
      split at hfound
      · obtain rfl := Option.some.inj hfound
        cases hsql
      · obtain ⟨heach, hlast⟩ := legible_of_parse ops o _ found hlabel hfound hsql
        exact ⟨heach, hlast⟩

/-- **Checksums are recoverable** from files whose statements are legible: the checksums of the
files are those of the statements with their helpers, and a plan that is built from the files
holds these statements. Statements under labels of one line are recovered in no other case,
unless the plan is refused. -/
theorem checksum_recoverable (version : String) (delta : SchemaDelta) (lowered : List OperationSql)
    (hheader : PlainHeader version delta) (digest : String → String)
    (shape : String → Option String) (bucket : BucketKey) :
    (LegibleFile .up lowered → LegibleFile .down lowered →
      Recoverable digest shape bucket version delta lowered) ∧
    ((∀ o ∈ lowered, '\n' ∉ o.label.toList) →
      shape (composeUpText version delta lowered) = none →
      Recoverable digest shape bucket version delta lowered → LegibleFile .up lowered) :=
  ⟨fun hup hdown => hup.recoverable digest shape bucket version delta lowered hheader hdown,
    fun hlabel hshape h =>
      LegibleFile.of_recoverable digest shape bucket version delta lowered hheader hlabel hshape h⟩

/-- A table comment with a blank line before two dashes. -/
def commentDelta : SchemaDelta where
  bucket := ⟨"main", ""⟩
  operations := [.setTableComment "users" none (some "a\n\n-- b\nc")]
  classification := .additive

def commentSql : OperationSql := emitSetTableComment "users" none (some "a\n\n-- b\nc")

theorem commentDelta_plain : PlainHeader "V1" commentDelta := ⟨by decide, by decide, by decide⟩

/-- The comment is read back as two statements, and its line after the dashes as a label. -/
theorem commentSql_read : parseComposedOperationFragments (render .up [commentSql]) .up =
    some [⟨"SetTableComment users", "COMMENT ON TABLE \"users\" IS E'a"⟩, ⟨"b", "c';"⟩] := by
  decide +kernel

theorem checksum_not_recoverable : lowerDelta commentDelta = .ok [commentSql] ∧
    (∀ digest bucket,
      ¬ Recoverable digest (fun _ => none) bucket "V1" commentDelta [commentSql]) ∧
    computeCommittedSqlChecksum id (composeUpText "V1" commentDelta [commentSql]) .up ≠
      (computeChecksums id (helperOperations [commentSql] ++ [commentSql])).1 := by
  have hhelpers : helperOperations [commentSql] = [] := by decide +kernel
  refine ⟨rfl, fun digest bucket h => ?_, fun h => ?_⟩
  · have hup := LegibleFile.of_recoverable digest _ bucket "V1" commentDelta [commentSql]
      commentDelta_plain (by decide) rfl h
    exact (hup.each commentSql (by simp)).whole (by decide +kernel)
  · have hfile := canonicalComposedLabeledFragments_composed .up "V1" commentDelta [commentSql]
      commentDelta_plain
    simp only [composedText, inFile, commentSql_read] at hfile
    have hnone := flaggedHelpers_fragments .up [commentSql]
    rw [hhelpers, List.map_nil, List.map_eq_nil_iff] at hnone
    have hsql : canonicalComposedSqlFragments (composeUpText "V1" commentDelta [commentSql]) .up =
        some ["COMMENT ON TABLE \"users\" IS E'a", "c';"] := by
      rw [canonicalComposedSqlFragments, hfile, hnone]
      rfl
    rw [computeCommittedSqlChecksum, hsql, hhelpers] at h
    exact absurd h (by decide +kernel)

/-- A column of timestamps, whose CHECK calls a helper. -/
def visitsColumn : ColumnSchema :=
  { ColumnSchema.bare "visits" "TIMESTAMPTZ[]" with
    check := some "djogi.__djogi_tstz_array_is_finite_v1(\"visits\")" }

/-- A column is added, which a rollback loses, and the table is commented in one line. -/
def usersDelta : SchemaDelta where
  bucket := ⟨"main", ""⟩
  operations := [.addColumn "users" visitsColumn, .setTableComment "users" none (some "Accounts")]
  classification := .additive

def usersLowered : List OperationSql :=
  [emitAddColumn "users" visitsColumn, emitSetTableComment "users" none (some "Accounts")]

/-- The checksums count the helper too, and the note on what a rollback loses is left out. -/
theorem checksum_recoverable_users : lowerDelta usersDelta = .ok usersLowered ∧
    helperOperations usersLowered = [tstzArrayHelperOperation] ∧
    (usersLowered.map fun o => o.lossy.isSome) = [true, false] ∧
    Recoverable id (fun _ => none) ⟨"main", ""⟩ "V1" usersDelta usersLowered :=
  ⟨by decide +kernel, by decide +kernel, rfl,
    (checksum_recoverable "V1" usersDelta usersLowered ⟨by decide, by decide, by decide⟩ id
      (fun _ => none) ⟨"main", ""⟩).1 (by decide +kernel) (by decide +kernel)⟩

end Djogi

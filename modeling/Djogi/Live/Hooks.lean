import Mathlib.Data.List.TakeWhile
import Djogi.Live.Plan

/-!
# Compatibility hooks

`live_migrate/hooks.rs`: the identifiers of hooks, and the hooks that are active at a step of a plan.

* `parseHookId_pair`: the identifiers of a column pair are read back as the pair;
* `parseHookId_tokens`: an identifier that parses has three tokens or five;
* `activeHooks_iff`: the hooks are known at every step exactly when every identifier parses.
-/

namespace Djogi.Live

/-! ## Hooks -/

structure DualReadHook where
  table : String
  legacyColumn : String
  shadowColumn : String
  deriving DecidableEq, Repr

structure DualWriteHook where
  table : String
  legacyColumn : String
  shadowColumn : String
  codecTransform : Option String
  deriving DecidableEq, Repr

structure ActiveHooks where
  dualRead : List DualReadHook
  dualWrite : List DualWriteHook
  sideEffectsSuppressed : Bool
  deriving DecidableEq, Repr

inductive ParsedHook
  | read (hook : DualReadHook)
  | write (hook : DualWriteHook)
  deriving DecidableEq, Repr

inductive HookError
  | malformedHookId (id : String)
  deriving DecidableEq, Repr

/-! ## Identifiers -/

/-- The tokens between the separators `::`. -/
def splitTokens : List Char → List (List Char)
  | [] => [[]]
  | ':' :: ':' :: rest => [] :: splitTokens rest
  | c :: rest =>
      match splitTokens rest with
      | [] => [[c]]
      | token :: tokens => (c :: token) :: tokens

def hookTokens (id : String) : List String := (splitTokens id.toList).map String.ofList

def parseHookId (id : String) : Except HookError ParsedHook :=
  if (hookTokens id).any String.isEmpty then .error (.malformedHookId id)
  else
    match hookTokens id with
    | ["dual_read", table, column] => .ok (.read ⟨table, column, column ++ "_new"⟩)
    | ["dual_read", "codec", table, column, _] => .ok (.read ⟨table, column, column ++ "_new"⟩)
    | ["dual_write", table, column] => .ok (.write ⟨table, column, column ++ "_new", none⟩)
    | ["dual_write", "codec", table, column, transform] =>
        .ok (.write ⟨table, column, column ++ "_new", some transform⟩)
    | _ => .error (.malformedHookId id)

theorem splitTokens_cons (c : Char) (l : List Char) (h : c ≠ ':') :
    splitTokens (c :: l) = match splitTokens l with
      | [] => [[c]]
      | token :: tokens => (c :: token) :: tokens := by
  rw [splitTokens.eq_def]
  split
  next heq => cases heq
  next heq =>
    cases heq
    exact absurd rfl h
  next heq =>
    cases heq
    rfl

theorem splitTokens_of_notMem (l : List Char) (h : ':' ∉ l) : splitTokens l = [l] := by
  induction l with
  | nil => rfl
  | cons c l ih =>
    obtain ⟨hc, hl⟩ := not_or.mp (by simpa using h : ¬(':' = c ∨ ':' ∈ l))
    rw [splitTokens_cons c l (Ne.symm hc), ih hl]

theorem splitTokens_append (a b : List Char) (h : ':' ∉ a) :
    splitTokens (a ++ ':' :: ':' :: b) = a :: splitTokens b := by
  induction a with
  | nil => simp [splitTokens]
  | cons c a ih =>
    obtain ⟨hc, ha⟩ := not_or.mp (by simpa using h : ¬(':' = c ∨ ':' ∈ a))
    rw [List.cons_append, splitTokens_cons c _ (Ne.symm hc), ih ha]

theorem hookTokens_append (a b : String) (h : ':' ∉ a.toList) :
    hookTokens (a ++ "::" ++ b) = a :: hookTokens b := by
  have hsplit := splitTokens_append a.toList b.toList h
  have hlist : (a ++ "::" ++ b).toList = a.toList ++ ':' :: ':' :: b.toList := by simp
  rw [hookTokens, hlist, hsplit]
  simp [hookTokens]

theorem hookTokens_of_notMem (a : String) (h : ':' ∉ a.toList) : hookTokens a = [a] := by
  simp [hookTokens, splitTokens_of_notMem a.toList h]

/-- **The identifiers of a column pair.** -/
theorem parseHookId_pair (table column : String) (ht : ':' ∉ table.toList)
    (hc : ':' ∉ column.toList) (ht0 : table.isEmpty = false) (hc0 : column.isEmpty = false) :
    parseHookId ("dual_read::" ++ table ++ "::" ++ column) =
        .ok (.read ⟨table, column, column ++ "_new"⟩) ∧
      parseHookId ("dual_write::" ++ table ++ "::" ++ column) =
        .ok (.write ⟨table, column, column ++ "_new", none⟩) := by
  have htokens (tag : String) (htag : ':' ∉ tag.toList) :
      hookTokens (tag ++ "::" ++ (table ++ "::" ++ column)) = [tag, table, column] := by
    rw [hookTokens_append _ _ htag, hookTokens_append _ _ ht, hookTokens_of_notMem _ hc]
  have hread := htokens "dual_read" (by decide)
  have hwrite := htokens "dual_write" (by decide)
  have hassoc (tag : String) : tag ++ "::" ++ (table ++ "::" ++ column) =
      tag ++ "::" ++ table ++ "::" ++ column := by
    simp [String.append_assoc]
  rw [hassoc] at hread hwrite
  constructor
  · change parseHookId ("dual_read" ++ "::" ++ table ++ "::" ++ column) = _
    rw [parseHookId, hread]
    simp [ht0, hc0]
  · change parseHookId ("dual_write" ++ "::" ++ table ++ "::" ++ column) = _
    rw [parseHookId, hwrite]
    simp [ht0, hc0]

theorem parseHookId_tokens (id : String) (hook : ParsedHook) (h : parseHookId id = .ok hook) :
    (hookTokens id).length = 3 ∨ (hookTokens id).length = 5 := by
  unfold parseHookId at h
  split_ifs at h
  split at h
  next heq => exact .inl (by simp [heq])
  next heq => exact .inr (by simp [heq])
  next heq => exact .inl (by simp [heq])
  next heq => exact .inr (by simp [heq])
  next => cases h

/-! ## The walk -/

def addHook (hooks : ActiveHooks) : ParsedHook → ActiveHooks
  | .read hook => { hooks with dualRead := hooks.dualRead ++ [hook] }
  | .write hook => { hooks with dualWrite := hooks.dualWrite ++ [hook] }

def addHooks : ActiveHooks → List String → Except HookError ActiveHooks
  | hooks, [] => .ok hooks
  | hooks, id :: rest =>
      match parseHookId id with
      | .error e => .error e
      | .ok hook => addHooks (addHook hooks hook) rest

/-- The hooks after the step, while the plan is at `stepOrdinal`. -/
def stepHooks (stepOrdinal : Nat) (hooks : ActiveHooks) (step : Step) :
    Except HookError ActiveHooks :=
  let hooks := { hooks with sideEffectsSuppressed := false }
  match step.kind, step.parameters with
  | .beginCompatibilityWindow, .beginCompatibilityWindow ids => addHooks hooks ids
  | .cutoverReads, _ => .ok { hooks with dualRead := [] }
  | .cutoverWrites, _ => .ok { hooks with dualWrite := [] }
  | .backfillChunked, _ =>
      .ok { hooks with sideEffectsSuppressed := decide (step.ordinal = stepOrdinal) }
  | _, _ => .ok hooks

def walkHooks (stepOrdinal : Nat) : ActiveHooks → List Step → Except HookError ActiveHooks
  | hooks, [] => .ok hooks
  | hooks, step :: rest =>
      if stepOrdinal < step.ordinal then .ok hooks
      else
        match stepHooks stepOrdinal hooks step with
        | .error e => .error e
        | .ok hooks' => walkHooks stepOrdinal hooks' rest

def activeHooksAtStep (plan : LivePlan) (stepOrdinal : Nat) : Except HookError ActiveHooks :=
  walkHooks stepOrdinal ⟨[], [], false⟩ plan.steps

/-- The identifiers that the walk reads at the step. -/
def Step.hookIds (s : Step) : List String :=
  match s.kind, s.parameters with
  | .beginCompatibilityWindow, .beginCompatibilityWindow ids => ids
  | _, _ => []

theorem addHooks_ok_iff (hooks : ActiveHooks) (ids : List String) :
    (∃ hooks', addHooks hooks ids = .ok hooks') ↔
      ∀ id ∈ ids, ∃ hook, parseHookId id = .ok hook := by
  induction ids generalizing hooks with
  | nil => simp [addHooks]
  | cons id ids ih =>
    cases hp : parseHookId id with
    | error e => simp [addHooks, hp]
    | ok hook => simp [addHooks, hp, ih]

theorem stepHooks_ok_iff (n : Nat) (hooks : ActiveHooks) (s : Step) :
    (∃ hooks', stepHooks n hooks s = .ok hooks') ↔
      ∀ id ∈ s.hookIds, ∃ hook, parseHookId id = .ok hook := by
  obtain ⟨kind, ordinal, parameters⟩ := s
  cases kind with
  | beginCompatibilityWindow =>
    cases parameters with
    | beginCompatibilityWindow ids => exact addHooks_ok_iff _ ids
    | _ => simp [stepHooks, Step.hookIds]
  | _ => simp [stepHooks, Step.hookIds]

/-- The walk stops at the first step that is not reached. -/
theorem walkHooks_ok_iff (n : Nat) (hooks : ActiveHooks) (l : List Step) :
    (∃ hooks', walkHooks n hooks l = .ok hooks') ↔
      ∀ s ∈ l.takeWhile (fun s => !decide (n < s.ordinal)), ∀ id ∈ s.hookIds,
        ∃ hook, parseHookId id = .ok hook := by
  induction l generalizing hooks with
  | nil => simp [walkHooks]
  | cons s l ih =>
    by_cases hn : n < s.ordinal
    · simp [walkHooks, hn]
    · have hstep := stepHooks_ok_iff n hooks s
      cases hs : stepHooks n hooks s with
      | error e =>
        have hbad : ¬∀ id ∈ s.hookIds, ∃ hook, parseHookId id = .ok hook := by
          rw [← hstep, hs]
          simp
        simp only [walkHooks, if_neg hn, hs]
        simp only [reduceCtorEq, exists_false, false_iff]
        intro hall
        exact hbad (hall s (by simp [List.takeWhile, hn]))
      | ok hooks' =>
        have hgood := hstep.mp ⟨hooks', hs⟩
        simp only [walkHooks, if_neg hn, hs, ih]
        simp only [List.takeWhile, hn, decide_false, Bool.not_false, List.mem_cons]
        constructor
        · rintro h s' (rfl | hs')
          · exact hgood
          · exact h s' hs'
        · intro h s' hs'
          exact h s' (.inr hs')

/-- **The active hooks** are known at every step exactly when every identifier parses. -/
theorem activeHooks_iff (plan : LivePlan) (hmax : ∀ s ∈ plan.steps, s.ordinal ≤ u32Max) :
    (∀ n ≤ u32Max, ∃ hooks, activeHooksAtStep plan n = .ok hooks) ↔
      ∀ s ∈ plan.steps, ∀ id ∈ s.hookIds, ∃ hook, parseHookId id = .ok hook := by
  simp only [activeHooksAtStep, walkHooks_ok_iff]
  constructor
  · intro h
    have hall : plan.steps.takeWhile (fun s => !decide (u32Max < s.ordinal)) = plan.steps := by
      rw [List.takeWhile_eq_self_iff]
      intro s hs
      have := hmax s hs
      simp [this]
    have hlast := h u32Max le_rfl
    rwa [hall] at hlast
  · intro h n _ s hs
    exact h s (List.takeWhile_subset _ hs)

end Djogi.Live

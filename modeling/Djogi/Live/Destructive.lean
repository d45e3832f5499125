import Djogi.Lib.Literal
import Djogi.Lib.PostgresJoin
import Djogi.Live.Executor

/-!
# The destructive gate

The byte scan of `live_migrate/plan.rs` stands in for a lexer: `run_plan` asks for a justification
when it finds `TRUNCATE` or a `DROP` of some kind. Here it is compared with the pieces that the
server reads.

* `scan_iff`: what the scan finds, as a condition on the text;
* `runPlan_refuses`: a plan with a destructive step is refused before anything runs;
* `destructive_scan_finds`: when nothing destructive is missed.
-/

namespace Djogi.Live

open Postgres

/-! ## What the scan finds -/

def lower (s : List Char) : List Char := s.map Char.toLower

/-- The text does not go on with a letter, a digit or an underscore. -/
def Bounded (t : List Char) : Prop := ∀ c, t.head? = some c → isIdentByte c = false

/-- The keyword stands at the head of the text. -/
def HasKeyword (keyword : String) (t : List Char) : Prop :=
  ∃ word left, t = word ++ left ∧ lower word = lower keyword.toList ∧ Bounded left

/-- `DROP`, blanks and a kind stand at the head of the text. -/
def HasDrop (t : List Char) : Prop :=
  ∃ word blanks left, t = word ++ (blanks ++ left) ∧ lower word = lower "DROP".toList ∧
    Bounded (blanks ++ left) ∧ (∀ c ∈ blanks, isWsByte c = true) ∧
      ∃ keyword ∈ dropKindKeywords, HasKeyword keyword left

/-- Somewhere between boundaries, in a comment or a constant too, stands what the scan looks for. -/
def Spelled (s : List Char) : Prop :=
  ∃ front back, s = front ++ back ∧ (∀ c, front.getLast? = some c → isIdentByte c = false) ∧
    (HasKeyword "TRUNCATE" back ∨ HasDrop back)

theorem dropKeyword_iff (keyword t left : List Char) :
    dropKeyword keyword t = some left ↔ ∃ word, t = word ++ left ∧ lower word = lower keyword := by
  induction keyword generalizing t with
  | nil =>
    rw [dropKeyword]
    constructor
    · intro h
      cases h
      exact ⟨[], rfl, rfl⟩
    · rintro ⟨word, rfl, hword⟩
      rw [List.map_eq_nil_iff.mp hword, List.nil_append]
  | cons k keyword ih =>
    cases t with
    | nil =>
      rw [dropKeyword]
      constructor
      · intro h
        cases h
      · rintro ⟨word, hword, hlower⟩
        rw [(List.append_eq_nil_iff.mp hword.symm).1] at hlower
        cases hlower
    | cons c t =>
      rw [dropKeyword]
      by_cases hc : k.toLower = c.toLower
      · rw [if_pos hc, ih]
        constructor
        · rintro ⟨word, rfl, hword⟩
          exact ⟨c :: word, rfl, by simp only [lower, List.map_cons] at hword ⊢; rw [hc, hword]⟩
        · rintro ⟨word, hword, hlower⟩
          cases word with
          | nil => cases hlower
          | cons d word =>
            obtain ⟨rfl, rfl⟩ := List.cons.inj hword
            exact ⟨word, rfl, (List.cons.inj hlower).2⟩
      · rw [if_neg hc]
        constructor
        · intro h
          cases h
        · rintro ⟨word, hword, hlower⟩
          cases word with
          | nil => cases hlower
          | cons d word =>
            obtain ⟨rfl, rfl⟩ := List.cons.inj hword
            exact absurd (List.cons.inj hlower).1.symm hc

theorem keywordHere_iff (keyword : String) (t : List Char) :
    keywordHere keyword t = true ↔ HasKeyword keyword t := by
  unfold keywordHere
  constructor
  · intro h
    split at h
    · cases h
    · rename_i hdrop
      obtain ⟨word, ht, hword⟩ := (dropKeyword_iff _ _ _).mp hdrop
      exact ⟨word, [], ht, hword, fun c hc => by cases hc⟩
    · rename_i d left hdrop
      obtain ⟨word, ht, hword⟩ := (dropKeyword_iff _ _ _).mp hdrop
      refine ⟨word, d :: left, ht, hword, fun c hc => ?_⟩
      cases hc
      simpa using h
  · rintro ⟨word, left, ht, hword, hleft⟩
    rw [(dropKeyword_iff _ _ _).mpr ⟨word, ht, hword⟩]
    cases left with
    | nil => rfl
    | cons c left =>
      have hc := hleft c rfl
      simp only [hc, Bool.not_false]

/-- No kind starts with a blank. -/
theorem kind_head (keyword : String) (hkeyword : keyword ∈ dropKindKeywords) (t : List Char)
    (h : HasKeyword keyword t) : ∃ c left, t = c :: left ∧ isWsByte c = false := by
  obtain ⟨word, left, rfl, hword, -⟩ := h
  have hheads : dropKindKeywords.all (fun k => [' ', '\t', '\n', '\r'].all fun c =>
      decide ((lower k.toList).head? ≠ some (Char.toLower c) ∧ k.toList ≠ [])) = true := by
    decide +kernel
  have hhead (c : Char) (hc : c ∈ [' ', '\t', '\n', '\r']) :
      (lower keyword.toList).head? ≠ some (Char.toLower c) ∧ keyword.toList ≠ [] :=
    of_decide_eq_true (List.all_eq_true.mp (List.all_eq_true.mp hheads keyword hkeyword) c hc)
  cases word with
  | nil =>
    have hnil := List.map_eq_nil_iff.mp hword.symm
    exact absurd hnil (hhead ' ' (by simp)).2
  | cons c word =>
    refine ⟨c, word ++ left, rfl, Bool.eq_false_iff.mpr fun hws => ?_⟩
    have hmem : c ∈ [' ', '\t', '\n', '\r'] := by
      simp only [isWsByte, Bool.or_eq_true, beq_iff_eq] at hws
      rcases hws with ((rfl | rfl) | rfl) | rfl <;> simp
    refine (hhead c hmem).1 ?_
    rw [← hword]
    rfl

theorem destructiveHere_iff (t : List Char) :
    destructiveHere t = true ↔ HasKeyword "TRUNCATE" t ∨ HasDrop t := by
  rw [destructiveHere, Bool.or_eq_true, keywordHere_iff]
  refine or_congr_right ?_
  constructor
  · intro h
    split at h
    · cases h
    · cases h
    · rename_i c left hdrop
      obtain ⟨word, ht, hword⟩ := (dropKeyword_iff _ _ _).mp hdrop
      rw [Bool.and_eq_true, List.any_eq_true] at h
      obtain ⟨hc, keyword, hkeyword, hhere⟩ := h
      refine ⟨word, (c :: left).takeWhile isWsByte, (c :: left).dropWhile isWsByte, ?_, hword, ?_,
        fun d hd => List.mem_takeWhile_imp hd, keyword, hkeyword, (keywordHere_iff _ _).mp hhere⟩
      · rw [List.takeWhile_append_dropWhile, ht]
      · rw [List.takeWhile_append_dropWhile]
        intro d hd
        cases hd
        simpa using hc
  · rintro ⟨word, blanks, left, ht, hword, hbounded, hblanks, keyword, hkeyword, hhere⟩
    rw [(dropKeyword_iff _ _ _).mpr ⟨word, ht, hword⟩]
    obtain ⟨c, rest, rfl, hc⟩ := kind_head keyword hkeyword left hhere
    have hdrop : (blanks ++ c :: rest).dropWhile isWsByte = c :: rest := by
      rw [List.dropWhile_append_of_pos hblanks, List.dropWhile_cons_of_neg (by simp [hc])]
    cases hall : blanks ++ c :: rest with
    | nil => cases blanks <;> cases hall
    | cons d others =>
      rw [hall] at hdrop hbounded
      simp only
      rw [hbounded d rfl, hdrop]
      exact List.any_eq_true.mpr ⟨keyword, hkeyword, (keywordHere_iff _ _).mpr hhere⟩

/-- The scan behind a boundary or behind a letter, a digit or an underscore. -/
theorem scanDestructive_iff (prevOk : Bool) (s : List Char) :
    scanDestructive prevOk s = true ↔ ∃ front back, s = front ++ back ∧
      (front = [] → prevOk = true) ∧ (∀ c, front.getLast? = some c → isIdentByte c = false) ∧
        destructiveHere back = true := by
  induction s generalizing prevOk with
  | nil =>
    rw [scanDestructive]
    constructor
    · intro h
      cases h
    · rintro ⟨front, back, hs, -, -, hhere⟩
      rw [(List.append_eq_nil_iff.mp hs.symm).2] at hhere
      exact absurd hhere (by decide +kernel)
  | cons c s ih =>
    rw [scanDestructive, Bool.or_eq_true, Bool.and_eq_true, ih]
    constructor
    · rintro (⟨hprev, hhere⟩ | ⟨front, back, rfl, hprev, hlast, hhere⟩)
      · exact ⟨[], c :: s, rfl, fun _ => hprev, (fun d hd => by cases hd), hhere⟩
      · refine ⟨c :: front, back, rfl, (fun h => by cases h), fun d hd => ?_, hhere⟩
        cases front with
        | nil =>
          cases hd
          simpa using hprev rfl
        | cons e front => exact hlast d hd
    · rintro ⟨front, back, hs, hprev, hlast, hhere⟩
      cases front with
      | nil =>
        rw [List.nil_append] at hs
        rw [← hs] at hhere
        exact .inl ⟨hprev rfl, hhere⟩
      | cons d front =>
        obtain ⟨rfl, rfl⟩ := List.cons.inj hs
        refine .inr ⟨front, back, rfl, fun h => ?_, fun e he => ?_, hhere⟩
        · subst h
          rw [hlast c rfl]
          rfl
        · cases front with
          | nil => cases he
          | cons f front => exact hlast e he

/-- **The scan** finds exactly what is spelled out between boundaries. -/
theorem scan_iff (sql : String) : sqlContainsDestructiveToken sql = true ↔ Spelled sql.toList := by
  rw [sqlContainsDestructiveToken, scanDestructive_iff]
  constructor
  · rintro ⟨front, back, hs, -, hlast, hhere⟩
    exact ⟨front, back, hs, hlast, (destructiveHere_iff back).mp hhere⟩
  · rintro ⟨front, back, hs, hlast, hhere⟩
    exact ⟨front, back, hs, fun _ => rfl, hlast, (destructiveHere_iff back).mpr hhere⟩

/-! ## What the server reads -/

/-- A piece that is a keyword, in any case. -/
def SpellsKeyword (keyword : String) (p : List Char) : Prop :=
  Postgres.isWord p = true ∧ lower p = lower keyword.toList

/-- The pieces have `TRUNCATE` behind these. -/
def Truncates (s : List Char) (before : List (List Char)) : Prop :=
  ∃ word after, scanner.cut s = before ++ word :: after ∧ SpellsKeyword "TRUNCATE" word

/-- The pieces have `DROP` behind these, and a kind after these comments and blanks. -/
def Drops (s : List Char) (before between : List (List Char)) : Prop :=
  ∃ word kind after, scanner.cut s = before ++ word :: (between ++ kind :: after) ∧
    SpellsKeyword "DROP" word ∧ (∀ p ∈ between, isTrivia p = true) ∧
      ∃ keyword ∈ dropKindKeywords, SpellsKeyword keyword kind

/-- The server reads a keyword that destroys something. -/
def Destructive (s : List Char) : Prop :=
  (∃ before, Truncates s before) ∨ ∃ before between, Drops s before between

/-- The digits of a parameter stand directly in front of a word. -/
def Glued (before : List (List Char)) : Prop :=
  ∃ c, before.flatten.getLast? = some c ∧ isIdentByte c = true

/-- Where the server reads something destructive, one of the keywords is in plain sight: it is not
glued to a parameter, and between a `DROP` and its kind there are only spaces, tabs, newlines and
carriage returns. -/
def PlainlyWritten (s : List Char) : Prop :=
  Destructive s → (∃ before, Truncates s before ∧ ¬ Glued before) ∨
    ∃ before between, Drops s before between ∧ ¬ Glued before ∧
      ∀ p ∈ between, ∃ c, isWsByte c = true ∧ p = [c]

/-- A word ends where no character goes on with it. -/
theorem rest_word (c : Char) (s : List Char) (hc : isWordStart c = true)
    (hquote : s.head? ≠ some '\'') : rest (c :: s) = s.dropWhile isWordPart := by
  have hne (d : Char) (hd : isWordStart d = false) : c ≠ d := by
    rintro rfl
    rw [hc] at hd
    cases hd
  rw [rest, if_neg fun h => hne '-' (by decide) h.1, if_neg fun h => hne '/' (by decide) h.1,
    if_neg fun h => h.elim (hne '\'' (by decide)) (hne '"' (by decide)),
    if_neg fun h => hquote h.2, if_neg (hne '$' (by decide)), if_pos hc]

/-- Behind a word there is nothing that goes on with it. -/
theorem word_bounded (s : List Char) (before after : List (List Char)) (word : List Char)
    (h : scanner.cut s = before ++ word :: after) (hword : Postgres.isWord word = true) :
    Bounded after.flatten := by
  have hcut := cut_drop s before (word :: after) h
  rw [Postgres.isWord, Bool.and_eq_true, List.all_eq_true] at hword
  obtain ⟨hhead, hall⟩ := hword
  cases word with
  | nil => cases hhead
  | cons c w =>
    have hstart : isWordStart c = true := hhead
    rw [List.flatten_cons, List.cons_append, scanner.cut_cons] at hcut
    obtain ⟨hpiece, hafter⟩ := List.cons.inj hcut
    have hrest := scanner.flatten_cut (scanner.rest (c :: (w ++ after.flatten)))
    rw [hafter] at hrest
    by_cases hquote : (w ++ after.flatten).head? = some '\''
    · cases w with
      | nil =>
        intro d hd
        rw [List.nil_append, hd] at hquote
        rw [Option.some.inj hquote]
        decide
      | cons d w =>
        have hd := hall d (by simp)
        rw [Option.some.inj hquote] at hd
        exact absurd hd (by decide)
    · rw [show scanner.rest = rest from rfl, rest_word c _ hstart hquote] at hrest
      intro d hd
      have hpart := List.head?_dropWhile_not isWordPart (w ++ after.flatten)
      rw [← hrest, hd] at hpart
      by_contra hident
      have hword : isWordPart d = true := by
        simp only [isIdentByte, Char.isAlphanum, Bool.not_eq_false, Bool.or_eq_true] at hident
        simp only [isWordPart, isTagPart, isWordStart, Bool.or_eq_true]
        tauto
      simp [hword] at hpart

theorem not_glued (before : List (List Char)) (h : ¬ Glued before) (c : Char)
    (hc : before.flatten.getLast? = some c) : isIdentByte c = false :=
  Bool.eq_false_iff.mpr fun hident => h ⟨c, hc, hident⟩

theorem spelled_of_truncates (s : List Char) (before : List (List Char))
    (h : Truncates s before) (hplain : ¬ Glued before) : Spelled s := by
  obtain ⟨word, after, hcut, hword, hlower⟩ := h
  refine ⟨before.flatten, word ++ after.flatten, ?_, not_glued before hplain,
    .inl ⟨word, after.flatten, rfl, hlower, word_bounded s before after word hcut hword⟩⟩
  rw [← scanner.flatten_cut s, hcut, List.flatten_append, List.flatten_cons]

theorem spelled_of_drops (s : List Char) (before between : List (List Char))
    (h : Drops s before between) (hplain : ¬ Glued before)
    (hblanks : ∀ p ∈ between, ∃ c, isWsByte c = true ∧ p = [c]) : Spelled s := by
  obtain ⟨word, kind, after, hcut, ⟨hword, hlower⟩, -, keyword, hkeyword, hkind, hkindLower⟩ := h
  have hcut' : scanner.cut s = (before ++ word :: between) ++ kind :: after := by
    rw [hcut, List.append_assoc, List.cons_append]
  have hbounded := word_bounded s before (between ++ kind :: after) word hcut hword
  rw [List.flatten_append, List.flatten_cons] at hbounded
  refine ⟨before.flatten, word ++ (between.flatten ++ (kind ++ after.flatten)), ?_,
    not_glued before hplain, .inr ⟨word, between.flatten, kind ++ after.flatten, rfl, hlower,
      hbounded, fun c hc => ?_, keyword, hkeyword, kind, after.flatten, rfl, hkindLower,
      word_bounded s _ after kind hcut' hkind⟩⟩
  · rw [← scanner.flatten_cut s, hcut, List.flatten_append, List.flatten_cons, List.flatten_append,
      List.flatten_cons]
  · obtain ⟨p, hp, hmem⟩ := List.mem_flatten.mp hc
    obtain ⟨d, hd, rfl⟩ := hblanks p hp
    rwa [List.mem_singleton.mp hmem]

theorem spelled_of_plain (s : List Char) (h : PlainlyWritten s) (hdestructive : Destructive s) :
    Spelled s := by
  rcases h hdestructive with ⟨before, htruncates, hglued⟩ |
    ⟨before, between, hdrops, hglued, hblanks⟩
  · exact spelled_of_truncates s before htruncates hglued
  · exact spelled_of_drops s before between hdrops hglued hblanks

/-! ## The gate -/

/-- The plan runs only when the operator allows it and gives a reason that is not blank; otherwise
nothing happens. -/
def Refused (plan : LivePlan) : Prop :=
  ∀ (ρ : Type) (env : Env ρ) (startIndex : ℕ) (isResume allowDestructive : Bool)
    (justify : Option String) (w : World ρ),
    ¬ (allowDestructive = true ∧ justifyIsEmpty justify = false) →
      runPlan env plan startIndex isResume allowDestructive justify w =
        (.error (.error (.destructiveGateRefused ("pass --allow-destructive with a non-empty " ++
          "--justify \"<reason>\" to execute the plan's DROP / TRUNCATE-class steps"))), w)

theorem runPlan_refuses (plan : LivePlan) (h : plan.hasDestructiveSteps = true) :
    Refused plan := by
  intro ρ env startIndex isResume allowDestructive justify w hgate
  have hcond : (plan.hasDestructiveSteps &&
      (!allowDestructive || justifyIsEmpty justify)) = true := by
    rw [h, Bool.true_and, Bool.or_eq_true, Bool.not_eq_true']
    cases allowDestructive with
    | false => exact .inl rfl
    | true =>
      cases hjustify : justifyIsEmpty justify with
      | true => exact .inr rfl
      | false => exact absurd ⟨rfl, hjustify⟩ hgate
  rw [runPlan, if_pos hcond]
  rfl

/-- The plan has a step that runs the text. -/
def RunsSql (plan : LivePlan) (sql : String) : Prop :=
  ∃ step ∈ plan.steps, step.kind = .runReversibleSchemaOp ∧
    ∃ downSql, step.parameters = .runReversibleSchemaOp sql downSql

theorem refused_of_scan (plan : LivePlan) (sql : String) (hplan : RunsSql plan sql)
    (h : sqlContainsDestructiveToken sql = true) : Refused plan := by
  obtain ⟨step, hstep, hkind, downSql, hparameters⟩ := hplan
  refine runPlan_refuses plan (List.any_eq_true.mpr ⟨step, hstep, ?_⟩)
  rw [Step.emitsDestructiveSql, hkind, hparameters]
  exact h

/-- **No false negatives.** A text that the server reads as destructive is found, and the plans that
run it are refused, when one of its destructive keywords is plainly written. -/
theorem destructive_scan_finds (sql : String) (hplain : PlainlyWritten sql.toList)
    (hdestructive : Destructive sql.toList) :
    sqlContainsDestructiveToken sql = true ∧ ∀ plan, RunsSql plan sql → Refused plan := by
  have hscan : sqlContainsDestructiveToken sql = true :=
    (scan_iff sql).mpr (spelled_of_plain _ hplain hdestructive)
  exact ⟨hscan, fun plan hplan => refused_of_scan plan sql hplan hscan⟩

/-- The second of two statements is in plain sight, behind blanks of all four kinds. -/
theorem destructive_scan_finds_second :
    sqlContainsDestructiveToken "DROP/**/VIEW v; drop \t\r\n Table users" = true ∧
      ∀ plan, RunsSql plan "DROP/**/VIEW v; drop \t\r\n Table users" → Refused plan := by
  have hdrops : Drops "DROP/**/VIEW v; drop \t\r\n Table users".toList
      ["DROP".toList, "/**/".toList, "VIEW".toList, [' '], ['v'], [';'], [' ']]
      [[' '], ['\t'], ['\r'], ['\n'], [' ']] :=
    ⟨"drop".toList, "Table".toList, [[' '], "users".toList], by decide +kernel,
      ⟨by decide +kernel, by decide +kernel⟩, by decide +kernel, "TABLE", by decide,
      by decide +kernel, by decide +kernel⟩
  refine destructive_scan_finds _ (fun _ => .inr ⟨_, _, hdrops, ?_, ?_⟩) (.inr ⟨_, _, hdrops⟩)
  · rintro ⟨c, hc, hident⟩
    cases hc
    cases hident
  · simp [isWsByte]

/-- A comment between the two words is enough. -/
theorem scan_misses_comment :
    Destructive "DROP /* legacy */ TABLE users".toList ∧
      sqlContainsDestructiveToken "DROP /* legacy */ TABLE users" = false := by
  refine ⟨.inr ⟨[], [" ".toList, "/* legacy */".toList, " ".toList], "DROP".toList, "TABLE".toList,
    [" ".toList, "users".toList], by decide +kernel, ?_, by decide +kernel, "TABLE", by decide,
    ?_⟩, by decide +kernel⟩
  · exact ⟨by decide +kernel, by decide +kernel⟩
  · exact ⟨by decide +kernel, by decide +kernel⟩

end Djogi.Live

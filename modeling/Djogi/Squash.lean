import Mathlib.Data.Bool.AllAny
import Djogi.CommittedSql
import Djogi.Lib.PostgresStatements
import Djogi.Runner

/-!
# Squashing a history

`run_squash` of `migrate/attune.rs` joins the files of a bucket from one version on in the file of
that version, and drops the others with their rows.

* `runSquash_ok`: what a squash leaves when it succeeds;
* `combinedUp_stmts`, `combinedDown_stmts`: the statements of the joined files;
* `squash_preserves`: when the history before and after is the same.
-/

namespace Djogi

/-! ## Folders and rows -/

/-- The text of a file, if it is UTF-8. -/
abbrev FileText := Option (List Char)

/-- The files of one version: the up file, the down file if there is one, and whether a replay plan
stands beside them. -/
structure VersionFiles where
  up : FileText
  down : Option FileText
  plan : Bool
  deriving DecidableEq, Repr

abbrev Folder := OrdMap String VersionFiles

/-- A row of the ledger. -/
structure HistoryRow where
  version : String
  appLabel : String
  status : LedgerStatus
  checksumUp : String
  checksumDown : Option String
  description : String
  deriving DecidableEq, Repr

structure SquashState where
  folders : OrdMap BucketKey Folder
  rows : List HistoryRow

inductive SquashError
  | fromVersionNotFound (version : String)
  | fromVersionAmbiguous (version : String) (buckets : List BucketKey)
  | phaseZero (reason : String)
  | sqlReadFailed (version : String)
  deriving DecidableEq, Repr

/-! ## The squash -/

def locateSquashTarget (disk : OrdMap BucketKey Folder) (from_ : String)
    (appFilter : Option String) : Except SquashError BucketKey :=
  let matching := (disk.entries.filter fun e =>
    appFilter.all (· = e.1.app) && e.2.contains from_).map Prod.fst
  match matching with
  | [] => .error (.fromVersionNotFound from_)
  | [bucket] => .ok bucket
  | _ => .error (.fromVersionAmbiguous from_ matching)

/-- ` begin `, behind the dashes. -/
def beginMark : List Char := [' ', 'b', 'e', 'g', 'i', 'n', ' ']

/-- ` end `, behind the dashes. -/
def endMark : List Char := [' ', 'e', 'n', 'd', ' ']

/-- ` (reverse)` -/
def reverseMark : List Char := [' ', '(', 'r', 'e', 'v', 'e', 'r', 's', 'e', ')']

def dashes : List Char := ['-', '-']

def upSegment (version : String) (up : List Char) : List Char :=
  dashes ++ beginMark ++ version.toList ++ ['\n'] ++ up ++
    (if up.getLast? = some '\n' then [] else ['\n']) ++
    dashes ++ endMark ++ version.toList ++ ['\n', '\n']

def downSegment (version : String) (down : List Char) : List Char :=
  dashes ++ beginMark ++ version.toList ++ reverseMark ++ ['\n'] ++ down ++ ['\n'] ++
    dashes ++ endMark ++ version.toList ++ ['\n']

/-- The joined up files, and the down files one by one; a down file that is missing or cannot be
read is passed over. -/
def buildCombinedSql : List (String × VersionFiles) →
    Except SquashError (List Char × List (List Char))
  | [] => .ok ([], [])
  | (version, files) :: rest =>
      match files.up with
      | none => .error (.sqlReadFailed version)
      | some up => do
          let combined ← buildCombinedSql rest
          pure (upSegment version up ++ combined.1,
            (files.down.join.map (downSegment version)).toList ++ combined.2)

/-- Drop files and rows of the squashed versions other than the retained one. -/
def deleteSubsumed (bucket : BucketKey) (from_ : String) :
    List (String × VersionFiles) → Folder × List HistoryRow → Folder × List HistoryRow
  | [], s => s
  | (version, _) :: rest, s =>
      if version = from_ then deleteSubsumed bucket from_ rest s
      else deleteSubsumed bucket from_ rest
        (s.1.erase version,
          s.2.filter fun r => !(r.version = version && r.appLabel = bucket.app))

section Squash

variable (digest : String → String)

def refreshRetainedRow (bucket : BucketKey) (from_ : String) (combinedUp : List Char)
    (combinedDown : Option (List Char)) (rows : List HistoryRow) : List HistoryRow :=
  let prior := (rows.find? fun r => r.version = from_ && r.appLabel = bucket.app).map
    HistoryRow.description
  let description := match prior with
    | some prev => "squashed migration starting at " ++ from_ ++ " (was: " ++ prev ++ ")"
    | none => "squashed migration starting at " ++ from_
  rows.map fun r =>
    if r.version = from_ && r.appLabel = bucket.app then
      { r with
        checksumUp := computeChecksum digest [String.ofList combinedUp]
        checksumDown := combinedDown.bind fun down =>
          computeCommittedDownSqlChecksum digest (String.ofList down)
        description }
    else r

/-- The down files joined, the last one first. -/
def combinedDown (segments : List (List Char)) : List Char :=
  segments.reverse.flatMap fun seg => seg ++ ['\n']

/-- The down file that is written, if there is anything to write. -/
def writtenDown (segments : List (List Char)) : Option (List Char) :=
  let down := combinedDown segments
  if down.isEmpty then none else some down

/-- The files of the retained version: without something to write, its down file stays. -/
def squashedFiles (retained : VersionFiles) (up : List Char) (down : Option (List Char)) :
    VersionFiles :=
  ⟨some up, (down.map some).orElse fun _ => retained.down, false⟩

/-- The squash of a bucket's folder, with the guard of the phase-zero version before it. -/
def runSquash (phaseZero : String → FileText → Except SquashError Unit) (from_ : String)
    (appFilter : Option String) (h : SquashState) : Except SquashError SquashState := do
  let bucket ← locateSquashTarget h.folders from_ appFilter
  let versions := (h.folders.get bucket).getD OrdMap.empty
  let retained := (versions.get from_).getD ⟨none, none, false⟩
  phaseZero from_ retained.up
  let toSquash := versions.entries.filter fun e => from_ ≤ e.1
  if toSquash.length ≤ 1 then pure h
  else
    let combined ← buildCombinedSql toSquash
    let down := writtenDown combined.2
    let left := deleteSubsumed bucket from_ toSquash
      (versions.insert from_ (squashedFiles retained combined.1 down), h.rows)
    pure ⟨h.folders.insert bucket left.1,
      refreshRetainedRow digest bucket from_ combined.1 down left.2⟩

end Squash

/-! ## What a history means -/

open Postgres

def upStmts (files : VersionFiles) : List (List (List Char)) := files.up.elim [] stmts

/-- The statements of a down file that can be read. -/
def readDown (files : VersionFiles) : List (List (List Char)) := files.down.join.elim [] stmts

/-- The statements of the down file; nothing runs of one that cannot be read. -/
def downStmts (files : VersionFiles) : Option (List (List (List Char))) :=
  files.down.elim (some []) fun text => text.map stmts

def folderOf (h : SquashState) (bucket : BucketKey) : Folder :=
  (h.folders.get bucket).getD OrdMap.empty

/-- The statements of all up files, in the order of the versions. -/
def allUps (h : SquashState) (bucket : BucketKey) : List (List (List Char)) :=
  (folderOf h bucket).entries.flatMap fun e => upStmts e.2

/-- A row says that the version is applied, run by the tool or not. -/
def asserts (status : LedgerStatus) : Bool :=
  status = .applied || status = .baseline || status = .faked

def isApplied (rows : List HistoryRow) (bucket : BucketKey) (version : String) : Bool :=
  rows.any fun r => r.version = version && r.appLabel = bucket.app && asserts r.status

/-- The statements that count as applied. -/
def appliedUps (h : SquashState) (bucket : BucketKey) : List (List (List Char)) :=
  ((folderOf h bucket).entries.filter fun e => isApplied h.rows bucket e.1).flatMap
    fun e => upStmts e.2

/-- The versions that a squash joins. -/
def squashedOf (h : SquashState) (bucket : BucketKey) (from_ : String) :
    List (String × VersionFiles) :=
  (folderOf h bucket).entries.filter fun e => from_ ≤ e.1

/-- The row of the version has the checksums of its files. -/
def RowMatches (digest : String → String) (bucket : BucketKey) (from_ : String) (h : SquashState) :
    Prop :=
  ∀ r ∈ h.rows, r.version = from_ → r.appLabel = bucket.app →
    ∀ files, (folderOf h bucket).get from_ = some files →
      some r.checksumUp = files.up.map (fun up =>
        computeCommittedSqlChecksum digest (String.ofList up) .up) ∧
      r.checksumDown = files.down.join.bind fun down =>
        computeCommittedDownSqlChecksum digest (String.ofList down)

/-- The history after a squash says what it said before. -/
structure Preserved (digest : String → String) (bucket : BucketKey) (from_ : String)
    (before after : SquashState) : Prop where
  ups : allUps after bucket = allUps before bucket
  downs : ((folderOf after bucket).get from_).bind downStmts =
    ((squashedOf before bucket from_).reverse.mapM fun e => downStmts e.2).map List.flatten
  checksums : RowMatches digest bucket from_ after
  applied : ∀ s, s ∈ appliedUps after bucket ↔ s ∈ appliedUps before bucket
  otherFolders : ∀ other, other ≠ bucket → after.folders.get other = before.folders.get other
  otherRows : after.rows.filter (fun r => r.appLabel ≠ bucket.app) =
    before.rows.filter fun r => r.appLabel ≠ bucket.app

/-! ## Joined files -/

/-- A body between two lines of comment. -/
def segment (before after body : List Char) : List Char :=
  '-' :: '-' :: (before ++ '\n' :: (body ++ '-' :: '-' :: (after ++ '\n' :: ['\n'])))

/-- Texts that can stand one behind the other: each is closed, and leaves no statement open unless
none follows. -/
def Joinable : List (List Char) → Prop
  | [] => True
  | s :: rest => closes (scanner.cut s) = true ∧
      (settled (scanner.cut s) = true ∨ ∀ t ∈ rest, stmts t = []) ∧ Joinable rest

theorem joinable_closes (l : List (List Char)) (h : Joinable l) :
    ∀ s ∈ l, closes (scanner.cut s) = true := by
  induction l with
  | nil => simp
  | cons s l ih => exact List.forall_mem_cons.mpr ⟨h.1, ih h.2.2⟩

theorem stmts_blank (s : List Char) : stmts ('\n' :: s) = stmts s := by
  have hrest : scanner.rest ('\n' :: s) = s := rfl
  unfold stmts
  rw [scanner.cut_cons, hrest, scanner.piece_eq _ ['\n'] _ hrest rfl]
  exact cores_trivia [['\n']] _ (by simp; decide)

/-- The statements of joined bodies are those of the bodies. -/
theorem segments_stmts (l : List (List Char × List Char × List Char))
    (hbefore : ∀ e ∈ l, ∀ c ∈ e.1, isNewline c = false)
    (hafter : ∀ e ∈ l, ∀ c ∈ e.2.1, isNewline c = false)
    (hjoin : Joinable (l.map fun e => e.2.2)) :
    stmts (l.flatMap fun e => segment e.1 e.2.1 e.2.2) = l.flatMap fun e => stmts e.2.2 := by
  induction l with
  | nil => rfl
  | cons e l ih =>
    obtain ⟨before, after, body⟩ := e
    have hb := hbefore _ List.mem_cons_self
    have ha := hafter _ List.mem_cons_self
    obtain ⟨hclose, hnext, hrest⟩ := hjoin
    have ih' := ih (fun e he => hbefore e (List.mem_cons_of_mem _ he))
      (fun e he => hafter e (List.mem_cons_of_mem _ he)) hrest
    rw [List.flatMap_cons, List.flatMap_cons]
    generalize hmore : l.flatMap (fun e => segment e.1 e.2.1 e.2.2) = more at ih' ⊢
    have htext : segment before after body ++ more = '-' :: '-' :: (before ++ '\n' ::
        (body ++ ('-' :: '-' :: (after ++ '\n' :: ('\n' :: more))))) := by
      simp [segment]
    have htail : stmts ('-' :: '-' :: (after ++ '\n' :: ('\n' :: more))) =
        l.flatMap fun e => stmts e.2.2 := by
      rw [stmts_comment after _ ha, stmts_blank, ih']
    rw [htext, stmts_comment before _ hb]
    rcases hnext with hsettled | hnone
    · rw [stmts_append body _ hclose hsettled, htail]
    · have hempty : (l.flatMap fun e => stmts e.2.2) = [] :=
        List.flatMap_eq_nil_iff.mpr fun e he => hnone _ (List.mem_map_of_mem he)
      rw [stmts_last body _ hclose (htail.trans hempty), hempty, List.append_nil]

def withNewline (up : List Char) : List Char :=
  up ++ if up.getLast? = some '\n' then [] else ['\n']

theorem stmts_withNewline (up : List Char) (h : closes (scanner.cut (withNewline up)) = true) :
    stmts (withNewline up) = stmts up := by
  unfold withNewline at h ⊢
  split at h
  · rename_i hlast
    rw [if_pos hlast, List.append_nil]
  · rename_i hlast
    rw [if_neg hlast]
    exact stmts_newline up h

/-- No version's name goes over a line. -/
def OneLine (l : List (String × VersionFiles)) : Prop :=
  ∀ e ∈ l, ∀ c ∈ e.1.toList, isNewline c = false

/-- The up files, read. -/
def upTexts (l : List (String × VersionFiles)) : List (List Char) :=
  l.filterMap fun e => e.2.up

/-- The down files that are there and can be read, the last one first. -/
def downTexts (l : List (String × VersionFiles)) : List (List Char) :=
  l.reverse.filterMap fun e => e.2.down.join

theorem upSegment_eq (version : String) (up : List Char) : upSegment version up =
    segment (beginMark ++ version.toList) (endMark ++ version.toList) (withNewline up) := by
  simp [upSegment, segment, withNewline, dashes]

theorem downSegment_eq (version : String) (down : List Char) : downSegment version down ++ ['\n'] =
    segment (beginMark ++ version.toList ++ reverseMark) (endMark ++ version.toList)
      (down ++ ['\n']) := by
  simp [downSegment, segment, dashes]

/-- **Joined up files.** -/
theorem combinedUp_stmts (l : List (String × VersionFiles)) (u : List Char)
    (ds : List (List Char)) (h : buildCombinedSql l = .ok (u, ds)) (hline : OneLine l)
    (hjoin : Joinable ((upTexts l).map withNewline)) :
    stmts u = l.flatMap fun e => upStmts e.2 := by
  have hu : u = (l.filterMap fun e => e.2.up.map fun up =>
      (beginMark ++ e.1.toList, endMark ++ e.1.toList, withNewline up)).flatMap
        fun e => segment e.1 e.2.1 e.2.2 := by
    clear hline hjoin
    induction l generalizing u ds with
    | nil =>
      cases h
      rfl
    | cons e l ih =>
      obtain ⟨version, files⟩ := e
      rw [buildCombinedSql] at h
      cases hup : files.up with
      | none =>
        rw [hup] at h
        cases h
      | some up =>
        rw [hup] at h
        obtain ⟨combined, hcombined, h⟩ := Fallible.bind_ok _ _ _ h
        cases h
        rw [List.filterMap_cons_some (by rw [hup]; rfl), List.flatMap_cons, ← upSegment_eq,
          ih _ _ hcombined]
  have hnewline (word : List Char) (hword : ∀ c ∈ word, isNewline c = false) (e)
      (he : e ∈ l) : ∀ c ∈ word ++ e.1.toList, isNewline c = false := by
    intro c hc
    rcases List.mem_append.mp hc with hc | hc
    · exact hword c hc
    · exact hline e he c hc
  rw [hu, segments_stmts]
  · clear h hu hline hnewline
    have hclose := joinable_closes _ hjoin
    clear hjoin
    induction l with
    | nil => rfl
    | cons e l ih =>
      cases hup : e.2.up with
      | none =>
        have htexts : upTexts (e :: l) = upTexts l := List.filterMap_cons_none hup
        rw [htexts] at hclose
        rw [List.filterMap_cons_none (by rw [hup]; rfl), ih hclose, List.flatMap_cons, upStmts, hup]
        rfl
      | some up =>
        have htexts : upTexts (e :: l) = up :: upTexts l := List.filterMap_cons_some hup
        rw [htexts, List.map_cons] at hclose
        rw [List.filterMap_cons_some (by rw [hup]; rfl), List.flatMap_cons, List.flatMap_cons,
          ih fun s hs => hclose s (List.mem_cons_of_mem _ hs), upStmts, hup]
        dsimp only [Option.elim]
        rw [stmts_withNewline up (hclose _ List.mem_cons_self)]
  · intro e he
    obtain ⟨e', he', heq⟩ := List.mem_filterMap.mp he
    obtain ⟨up, -, rfl⟩ := Option.map_eq_some_iff.mp heq
    exact hnewline beginMark (List.all_iff_forall_prop.mp (by decide)) e' he'
  · intro e he
    obtain ⟨e', he', heq⟩ := List.mem_filterMap.mp he
    obtain ⟨up, -, rfl⟩ := Option.map_eq_some_iff.mp heq
    exact hnewline endMark (List.all_iff_forall_prop.mp (by decide)) e' he'
  · rw [List.map_filterMap]
    rw [upTexts, List.map_filterMap] at hjoin
    simpa [Function.comp_def] using hjoin

theorem combinedDown_eq (l : List (String × VersionFiles)) (u : List Char)
    (ds : List (List Char)) (h : buildCombinedSql l = .ok (u, ds)) :
    ds = l.filterMap fun e => e.2.down.join.map (downSegment e.1) := by
  induction l generalizing u ds with
  | nil =>
    cases h
    rfl
  | cons e l ih =>
    obtain ⟨version, files⟩ := e
    rw [buildCombinedSql] at h
    cases hup : files.up with
    | none =>
      rw [hup] at h
      cases h
    | some up =>
      rw [hup] at h
      obtain ⟨combined, hcombined, h⟩ := Fallible.bind_ok _ _ _ h
      cases h
      cases hdown : files.down.join with
      | none =>
        rw [List.filterMap_cons_none (by simp only [hdown, Option.map_none]), ← ih _ _ hcombined]
        rfl
      | some down =>
        rw [List.filterMap_cons_some (by simp only [hdown, Option.map_some]; rfl),
          ← ih _ _ hcombined]
        rfl

/-- **Joined down files**, the last version first. -/
theorem combinedDown_stmts (l : List (String × VersionFiles)) (u : List Char)
    (ds : List (List Char)) (h : buildCombinedSql l = .ok (u, ds)) (hline : OneLine l)
    (hjoin : Joinable ((downTexts l).map (· ++ ['\n']))) :
    stmts (combinedDown ds) = l.reverse.flatMap fun e => readDown e.2 := by
  have hds : combinedDown ds = (l.reverse.filterMap fun e => e.2.down.join.map fun down =>
      (beginMark ++ e.1.toList ++ reverseMark, endMark ++ e.1.toList, down ++ ['\n'])).flatMap
        fun e => segment e.1 e.2.1 e.2.2 := by
    rw [combinedDown, combinedDown_eq l u ds h, ← List.filterMap_reverse]
    generalize l.reverse = l
    induction l with
    | nil => rfl
    | cons e l ih =>
      cases hdown : e.2.down.join with
      | none =>
        rw [List.filterMap_cons_none (by rw [hdown]; rfl),
          List.filterMap_cons_none (by rw [hdown]; rfl), ih]
      | some down =>
        rw [List.filterMap_cons_some (by rw [hdown]; rfl),
          List.filterMap_cons_some (by rw [hdown]; rfl), List.flatMap_cons, List.flatMap_cons,
          downSegment_eq, ih]
  have hmarks : (beginMark ++ reverseMark ++ endMark).all (fun c => !isNewline c) = true := by
    decide
  have hbegin (c : Char) (hc : c ∈ beginMark ++ reverseMark ++ endMark) : isNewline c = false := by
    simpa using List.all_eq_true.mp hmarks c hc
  rw [hds, segments_stmts]
  · clear h hds hbegin hline
    have hclose := joinable_closes _ hjoin
    unfold downTexts at hclose
    clear hjoin
    generalize l.reverse = l at hclose
    induction l with
    | nil => rfl
    | cons e l ih =>
      cases hdown : e.2.down.join with
      | none =>
        have htexts : (e :: l).filterMap (fun e => e.2.down.join) =
            l.filterMap fun e => e.2.down.join := List.filterMap_cons_none hdown
        rw [htexts] at hclose
        rw [List.filterMap_cons_none (by rw [hdown]; rfl), ih hclose, List.flatMap_cons, readDown,
          hdown]
        rfl
      | some down =>
        have htexts : (e :: l).filterMap (fun e => e.2.down.join) =
            down :: l.filterMap fun e => e.2.down.join := List.filterMap_cons_some hdown
        rw [htexts, List.map_cons] at hclose
        rw [List.filterMap_cons_some (by rw [hdown]; rfl), List.flatMap_cons, List.flatMap_cons,
          ih fun s hs => hclose s (List.mem_cons_of_mem _ hs), readDown, hdown]
        dsimp only [Option.elim]
        rw [stmts_newline down (hclose _ List.mem_cons_self)]
  · intro e he c hc
    obtain ⟨e', he', heq⟩ := List.mem_filterMap.mp he
    obtain ⟨down, -, rfl⟩ := Option.map_eq_some_iff.mp heq
    rcases List.mem_append.mp hc with hc | hc
    · rcases List.mem_append.mp hc with hc | hc
      · exact hbegin c (List.mem_append_left _ (List.mem_append_left _ hc))
      · exact hline e' (List.mem_reverse.mp he') c hc
    · exact hbegin c (List.mem_append_left _ (List.mem_append_right _ hc))
  · intro e he c hc
    obtain ⟨e', he', heq⟩ := List.mem_filterMap.mp he
    obtain ⟨down, -, rfl⟩ := Option.map_eq_some_iff.mp heq
    rcases List.mem_append.mp hc with hc | hc
    · exact hbegin c (List.mem_append_right _ hc)
    · exact hline e' (List.mem_reverse.mp he') c hc
  · rw [List.map_filterMap]
    rw [downTexts, List.map_filterMap] at hjoin
    simpa [Function.comp_def] using hjoin

/-! ## Folders -/

/-- The entries of a map around one of its keys. -/
theorem entries_around (m : Folder) (k : String) (v : VersionFiles) (h : m.get k = some v) :
    ∃ front back, m.entries = front ++ (k, v) :: back ∧ (∀ e ∈ front, e.1 < k) ∧
      ∀ e ∈ back, k < e.1 := by
  obtain ⟨front, back, hsplit⟩ := List.append_of_mem ((OrdMap.mem_entries_iff m k v).mpr h)
  have hsorted := m.sorted
  rw [hsplit, List.pairwise_append] at hsorted
  obtain ⟨-, hback, hcross⟩ := hsorted
  exact ⟨front, back, hsplit, fun e he => hcross e he (k, v) List.mem_cons_self,
    fun e he => (List.pairwise_cons.mp hback).1 e he⟩

theorem insertIn_around (k : String) (v w : VersionFiles)
    (front back : List (String × VersionFiles)) (hfront : ∀ e ∈ front, e.1 < k) :
    OrdMap.insertIn k w (front ++ (k, v) :: back) = front ++ (k, w) :: back := by
  induction front with
  | nil => simp [OrdMap.insertIn]
  | cons e front ih =>
    have he := hfront e List.mem_cons_self
    rw [List.cons_append, OrdMap.insertIn, if_neg (not_lt.mpr he.le), if_neg he.ne',
      ih fun d hd => hfront d (List.mem_cons_of_mem _ hd)]
    rfl

/-- What is left of the folder and of the rows. -/
theorem deleteSubsumed_eq (bucket : BucketKey) (from_ : String) (l : List (String × VersionFiles))
    (s : Folder × List HistoryRow) :
    (deleteSubsumed bucket from_ l s).1.entries =
      s.1.entries.filter (fun e => e.1 = from_ || l.all fun d => d.1 ≠ e.1) ∧
    (deleteSubsumed bucket from_ l s).2 = s.2.filter fun r => r.appLabel ≠ bucket.app ||
      r.version = from_ || l.all fun d => d.1 ≠ r.version := by
  induction l generalizing s with
  | nil => simp [deleteSubsumed]
  | cons d l ih =>
    obtain ⟨version, files⟩ := d
    rw [deleteSubsumed]
    split
    · rename_i heq
      obtain ⟨hfolder, hrows⟩ := ih s
      refine ⟨hfolder.trans (List.filter_congr fun e _ => ?_),
        hrows.trans (List.filter_congr fun r _ => ?_)⟩
      · by_cases he : e.1 = from_
        · simp [he]
        · simp [he, heq, Ne.symm he]
      · by_cases hr : r.version = from_
        · simp [hr]
        · simp [hr, heq, Ne.symm hr]
    · rename_i hne
      obtain ⟨hfolder, hrows⟩ := ih (s.1.erase version,
        s.2.filter fun r => !(r.version = version && r.appLabel = bucket.app))
      refine ⟨hfolder.trans ?_, hrows.trans ?_⟩
      · change ((s.1.entries.filter fun e => decide (e.1 ≠ version)).filter _) = _
        rw [List.filter_filter]
        refine List.filter_congr fun e _ => ?_
        by_cases he : e.1 = version
        · simp [he, hne]
        · simp [he, Ne.symm he]
      · rw [List.filter_filter]
        refine List.filter_congr fun r _ => ?_
        by_cases hr : r.version = version
        · by_cases happ : r.appLabel = bucket.app
          · simp [hr, happ, hne]
          · simp [happ]
        · simp [hr, Ne.symm hr]

/-- The folder after a squash: what comes before the version, and the version. -/
theorem left_entries (bucket : BucketKey) (from_ : String) (versions : Folder)
    (front back : List (String × VersionFiles)) (retained squashed : VersionFiles)
    (rows : List HistoryRow) (hentries : versions.entries = front ++ (from_, retained) :: back)
    (hfront : ∀ e ∈ front, e.1 < from_) (hback : ∀ e ∈ back, from_ < e.1) :
    (deleteSubsumed bucket from_ ((from_, retained) :: back)
      (versions.insert from_ squashed, rows)).1.entries = front ++ [(from_, squashed)] := by
  have hinsert : (versions.insert from_ squashed).entries =
      front ++ (from_, squashed) :: back := by
    change OrdMap.insertIn from_ squashed versions.entries = _
    rw [hentries, insertIn_around from_ retained squashed front back hfront]
  rw [(deleteSubsumed_eq bucket from_ _ _).1, hinsert, List.filter_append]
  congr 1
  · refine List.filter_eq_self.mpr fun e he => ?_
    have hlt := hfront e he
    have hne : ∀ d ∈ (from_, retained) :: back, d.1 ≠ e.1 := by
      intro d hd
      rcases List.mem_cons.mp hd with rfl | hd
      · exact hlt.ne'
      · exact (hlt.trans (hback d hd)).ne'
    simpa using Or.inr hne
  · rw [List.filter_cons_of_pos (by simp), List.filter_eq_nil_iff.mpr]
    intro e he
    have hne := (hback e he).ne'
    simp only [Bool.or_eq_true, decide_eq_true_eq, not_or, hne, not_false_eq_true, true_and]
    intro hall
    have hself := List.all_eq_true.mp hall e (List.mem_cons_of_mem _ he)
    simp at hself

/-! ## Rows -/

section Rows

variable (digest : String → String) (bucket : BucketKey) (from_ : String)

/-- A refreshed row is about the same version, with the same status. -/
theorem isApplied_refresh (u : List Char) (d : Option (List Char)) (rows : List HistoryRow)
    (version : String) :
    isApplied (refreshRetainedRow digest bucket from_ u d rows) bucket version =
      isApplied rows bucket version := by
  unfold isApplied refreshRetainedRow
  rw [List.any_map]
  congr 1
  funext r
  rw [Function.comp_apply]
  split <;> rfl

theorem isApplied_delete (l : List (String × VersionFiles)) (s : Folder × List HistoryRow)
    (version : String) (h : version = from_ ∨ ∀ d ∈ l, d.1 ≠ version) :
    isApplied (deleteSubsumed bucket from_ l s).2 bucket version =
      isApplied s.2 bucket version := by
  have hkeep (r : HistoryRow) (hr : r.version = version) :
      (r.appLabel ≠ bucket.app || r.version = from_ || l.all fun d => d.1 ≠ r.version) = true := by
    rcases h with h | h
    · simp [hr, h]
    · simp only [hr, Bool.or_eq_true, List.all_eq_true, decide_eq_true_eq]
      exact .inr h
  rw [(deleteSubsumed_eq bucket from_ l s).2, isApplied, isApplied, List.any_filter]
  congr 1
  funext r
  by_cases hr : r.version = version
  · rw [hkeep r hr, Bool.true_and]
  · simp [hr]

/-- Rows of other apps stay. -/
theorem refresh_other (u : List Char) (d : Option (List Char)) (rows : List HistoryRow) :
    (refreshRetainedRow digest bucket from_ u d rows).filter (fun r => r.appLabel ≠ bucket.app) =
      rows.filter fun r => r.appLabel ≠ bucket.app := by
  unfold refreshRetainedRow
  rw [List.filter_map, List.filter_congr (q := fun r => r.appLabel ≠ bucket.app)]
  · refine (List.map_congr_left fun r hr => ?_).trans (List.map_id _)
    have happ : r.appLabel ≠ bucket.app := by simpa using (List.mem_filter.mp hr).2
    simp [happ]
  · intro r _
    rw [Function.comp_apply]
    split <;> rfl

theorem delete_other (l : List (String × VersionFiles)) (s : Folder × List HistoryRow) :
    (deleteSubsumed bucket from_ l s).2.filter (fun r => r.appLabel ≠ bucket.app) =
      s.2.filter fun r => r.appLabel ≠ bucket.app := by
  rw [(deleteSubsumed_eq bucket from_ l s).2, List.filter_filter]
  refine List.filter_congr fun r _ => ?_
  by_cases h : r.appLabel = bucket.app <;> simp [h]

/-- The refreshed row has the checksums of the texts. -/
theorem refresh_checksums (u : List Char) (d : Option (List Char)) (rows : List HistoryRow)
    (r : HistoryRow) (hr : r ∈ refreshRetainedRow digest bucket from_ u d rows)
    (hversion : r.version = from_) (happ : r.appLabel = bucket.app) :
    r.checksumUp = computeChecksum digest [String.ofList u] ∧
    r.checksumDown = d.bind fun down =>
      computeCommittedDownSqlChecksum digest (String.ofList down) := by
  obtain ⟨r', -, rfl⟩ := List.mem_map.mp hr
  by_cases hrow : (r'.version = from_ && r'.appLabel = bucket.app) = true
  · rw [if_pos hrow]
    exact ⟨rfl, rfl⟩
  · rw [if_neg hrow] at hversion happ
    exact absurd (by simp [hversion, happ]) hrow

end Rows

/-- The joined text is not one that compose wrote. -/
theorem combinedUp_checksum (digest : String → String) (version : String) (files : VersionFiles)
    (l : List (String × VersionFiles)) (u : List Char) (ds : List (List Char))
    (h : buildCombinedSql ((version, files) :: l) = .ok (u, ds)) :
    computeCommittedSqlChecksum digest (String.ofList u) .up =
      computeChecksum digest [String.ofList u] := by
  have hu : ∃ rest, u = '-' :: '-' :: ' ' :: 'b' :: rest := by
    rw [buildCombinedSql] at h
    cases hup : files.up with
    | none =>
      rw [hup] at h
      cases h
    | some up =>
      rw [hup] at h
      obtain ⟨combined, -, h⟩ := Fallible.bind_ok _ _ _ h
      cases h
      exact ⟨_, rfl⟩
  obtain ⟨rest, rfl⟩ := hu
  have hheader : composedHeader .up = '-' :: '-' :: ' ' :: 'D' :: (composedHeader .up).drop 4 := by
    decide +kernel
  have hnone : canonicalComposedSqlFragments
      (String.ofList ('-' :: '-' :: ' ' :: 'b' :: rest)) .up = none := by
    unfold canonicalComposedSqlFragments canonicalComposedLabeledFragments
    rw [if_neg]
    · rfl
    · rw [String.toList_ofList, hheader]
      simp [List.isPrefixOf]
  rw [computeCommittedSqlChecksum, hnone]

/-! ## When a squash keeps the history -/

/-- The files of the versions can be joined, and the versions are applied together. -/
structure JoinSafe (h : SquashState) (bucket : BucketKey) (from_ : String) : Prop where
  names : OneLine (squashedOf h bucket from_)
  ups : Joinable ((upTexts (squashedOf h bucket from_)).map withNewline)
  downs : Joinable ((downTexts (squashedOf h bucket from_)).map (· ++ ['\n']))
  readable : ∀ e ∈ squashedOf h bucket from_, e.2.down ≠ some none
  together : ∀ e ∈ squashedOf h bucket from_,
    isApplied h.rows bucket e.1 = isApplied h.rows bucket from_ ∨ upStmts e.2 = []

/-- What a squash relies on; with nothing to join it leaves all as it is. -/
def SquashSafe (digest : String → String) (h : SquashState) (bucket : BucketKey) (from_ : String) :
    Prop :=
  ((squashedOf h bucket from_).length ≤ 1 ∧ RowMatches digest bucket from_ h) ∨
    (1 < (squashedOf h bucket from_).length ∧ JoinSafe h bucket from_)

theorem downStmts_readable (files : VersionFiles) (h : files.down ≠ some none) :
    downStmts files = some (readDown files) := by
  unfold downStmts readDown
  cases hdown : files.down with
  | none => rfl
  | some text =>
    cases text with
    | none => exact absurd hdown h
    | some down => rfl

theorem mapM_downStmts (l : List (String × VersionFiles)) (h : ∀ e ∈ l, e.2.down ≠ some none) :
    (l.mapM fun e => downStmts e.2).map List.flatten = some (l.flatMap fun e => readDown e.2) := by
  have hall : (l.mapM fun e => downStmts e.2) = some (l.map fun e => readDown e.2) := by
    induction l with
    | nil => rfl
    | cons e l ih =>
      rw [List.mapM_cons, ih fun e he => h e (List.mem_cons_of_mem _ he),
        downStmts_readable _ (h e List.mem_cons_self)]
      rfl
  rw [hall, Option.map_some, List.flatMap_def]

/-- The version is in the folder that the squash is about. -/
theorem locateSquashTarget_ok (disk : OrdMap BucketKey Folder) (from_ : String)
    (appFilter : Option String) (bucket : BucketKey)
    (h : locateSquashTarget disk from_ appFilter = .ok bucket) :
    ∃ folder retained, disk.get bucket = some folder ∧ folder.get from_ = some retained := by
  unfold locateSquashTarget at h
  generalize hmatching : (disk.entries.filter fun e =>
    appFilter.all (· = e.1.app) && e.2.contains from_).map Prod.fst = matching at h
  dsimp only at h
  split at h
  · cases h
  · rename_i found
    cases h
    have hmem : bucket ∈ (disk.entries.filter fun e =>
        appFilter.all (· = e.1.app) && e.2.contains from_).map Prod.fst := by
      rw [hmatching]
      exact List.mem_singleton_self _
    obtain ⟨e, he, rfl⟩ := List.mem_map.mp hmem
    obtain ⟨hentry, hkeep⟩ := List.mem_filter.mp he
    have hcontains := (Bool.and_eq_true _ _).mp hkeep
    obtain ⟨retained, hretained⟩ := (OrdMap.mem_keys_iff _ _).mp
      ((OrdMap.contains_iff _ _).mp hcontains.2)
    exact ⟨e.2, retained, (OrdMap.mem_entries_iff _ _ _).mp hentry, hretained⟩
  · cases h

/-- What a squash of several versions leaves. -/
theorem runSquash_ok (digest : String → String)
    (phaseZero : String → FileText → Except SquashError Unit) (from_ : String)
    (appFilter : Option String) (h after : SquashState) (bucket : BucketKey)
    (hbucket : locateSquashTarget h.folders from_ appFilter = .ok bucket)
    (hrun : runSquash digest phaseZero from_ appFilter h = .ok after)
    (hmany : 1 < (squashedOf h bucket from_).length) :
    ∃ u ds, buildCombinedSql (squashedOf h bucket from_) = .ok (u, ds) ∧
      ∃ retained : VersionFiles, (folderOf h bucket).get from_ = some retained ∧
      let left := deleteSubsumed bucket from_ (squashedOf h bucket from_)
        ((folderOf h bucket).insert from_ (squashedFiles retained u (writtenDown ds)), h.rows)
      after = ⟨h.folders.insert bucket left.1,
        refreshRetainedRow digest bucket from_ u (writtenDown ds) left.2⟩ := by
  obtain ⟨folder, retained, hfolder, hretained⟩ := locateSquashTarget_ok _ _ _ _ hbucket
  have hof : folderOf h bucket = folder := by
    rw [folderOf, hfolder]
    rfl
  unfold runSquash at hrun
  obtain ⟨bucket', hbucket', hrun⟩ := Fallible.bind_ok _ _ _ hrun
  obtain rfl : bucket = bucket' := Except.ok.inj (hbucket.symm.trans hbucket')
  obtain ⟨-, -, hrun⟩ := Fallible.bind_ok _ _ _ hrun
  change (if (squashedOf h bucket from_).length ≤ 1 then _ else _) = _ at hrun
  rw [if_neg (not_le.mpr hmany)] at hrun
  obtain ⟨⟨u, ds⟩, hcombined, hrun⟩ := Fallible.bind_ok _ _ _ hrun
  refine ⟨u, ds, hcombined, retained, hof ▸ hretained, ?_⟩
  have hget : ((folderOf h bucket).get from_).getD ⟨none, none, false⟩ = retained := by
    rw [hof, hretained]
    rfl
  rw [← hget]
  cases hrun
  rfl

theorem runSquash_single (digest : String → String)
    (phaseZero : String → FileText → Except SquashError Unit) (from_ : String)
    (appFilter : Option String) (h after : SquashState) (bucket : BucketKey)
    (hbucket : locateSquashTarget h.folders from_ appFilter = .ok bucket)
    (hrun : runSquash digest phaseZero from_ appFilter h = .ok after)
    (hone : (squashedOf h bucket from_).length ≤ 1) : after = h := by
  unfold runSquash at hrun
  obtain ⟨bucket', hbucket', hrun⟩ := Fallible.bind_ok _ _ _ hrun
  obtain rfl : bucket = bucket' := Except.ok.inj (hbucket.symm.trans hbucket')
  obtain ⟨-, -, hrun⟩ := Fallible.bind_ok _ _ _ hrun
  change (if (squashedOf h bucket from_).length ≤ 1 then _ else _) = _ at hrun
  rw [if_pos hone] at hrun
  cases hrun
  rfl

/-- Versions that are applied together. -/
theorem applied_together (h : SquashState) (bucket : BucketKey) (from_ : String)
    (htogether : ∀ e ∈ squashedOf h bucket from_,
      isApplied h.rows bucket e.1 = isApplied h.rows bucket from_ ∨ upStmts e.2 = []) :
    ((squashedOf h bucket from_).filter fun e => isApplied h.rows bucket e.1).flatMap
        (fun e => upStmts e.2) =
      if isApplied h.rows bucket from_ then
        (squashedOf h bucket from_).flatMap fun e => upStmts e.2
      else [] := by
  generalize squashedOf h bucket from_ = l at htogether
  induction l with
  | nil => simp
  | cons e l ih =>
    have ih' := ih fun d hd => htogether d (List.mem_cons_of_mem _ hd)
    rw [List.filter_cons]
    rcases htogether e List.mem_cons_self with heq | hnone
    · rw [heq]
      split
      · rename_i happlied
        rw [List.flatMap_cons, ih', if_pos happlied, List.flatMap_cons]
      · rename_i happlied
        rw [ih', if_neg happlied]
    · split
      · rw [List.flatMap_cons, ih', hnone, List.flatMap_cons, hnone, List.nil_append,
          List.nil_append]
      · rw [ih', List.flatMap_cons, hnone, List.nil_append]

theorem writtenDown_none (ds : List (List Char)) (h : writtenDown ds = none) :
    combinedDown ds = [] := by
  unfold writtenDown at h
  dsimp only at h
  split at h
  · exact List.isEmpty_iff.mp ‹_›
  · cases h

theorem writtenDown_some (ds : List (List Char)) (down : List Char)
    (h : writtenDown ds = some down) : combinedDown ds = down := by
  unfold writtenDown at h
  dsimp only at h
  split at h
  · cases h
  · exact Option.some.inj h

/-- The down file of the retained version after the squash. -/
theorem squashedFiles_join (l : List (String × VersionFiles)) (from_ : String) (u : List Char)
    (ds : List (List Char)) (h : buildCombinedSql l = .ok (u, ds)) (retained : VersionFiles)
    (hmem : (from_, retained) ∈ l) (hread : retained.down ≠ some none) :
    (squashedFiles retained u (writtenDown ds)).down = (writtenDown ds).map some := by
  cases hwritten : writtenDown ds with
  | some down => rfl
  | none =>
    have hds : ds = [] := by
      have hempty := writtenDown_none ds hwritten
      unfold combinedDown at hempty
      cases hreverse : ds.reverse with
      | nil => exact List.reverse_eq_nil_iff.mp hreverse
      | cons d rest =>
        rw [hreverse] at hempty
        simp at hempty
    have hnone : retained.down.join = none := by
      have hsegments := combinedDown_eq l u ds h
      rw [hds, eq_comm, List.filterMap_eq_nil_iff] at hsegments
      exact Option.map_eq_none_iff.mp (hsegments _ hmem)
    cases hdown : retained.down with
    | none =>
      rw [squashedFiles, hdown]
      rfl
    | some text =>
      rw [hdown] at hnone hread
      cases text with
      | none => exact absurd rfl hread
      | some down => cases hnone

/-- **Squashing.** A squash whose versions are applied together, with files that can be joined,
keeps the history. -/
theorem squash_preserves (digest : String → String)
    (phaseZero : String → FileText → Except SquashError Unit) (from_ : String)
    (appFilter : Option String) (h after : SquashState) (bucket : BucketKey)
    (hbucket : locateSquashTarget h.folders from_ appFilter = .ok bucket)
    (hrun : runSquash digest phaseZero from_ appFilter h = .ok after)
    (hsafe : SquashSafe digest h bucket from_) :
    Preserved digest bucket from_ h after := by
  obtain ⟨folder, retained, hfolder, hretained⟩ := locateSquashTarget_ok _ _ _ _ hbucket
  have hof : folderOf h bucket = folder := by
    rw [folderOf, hfolder]
    rfl
  obtain ⟨front, back, hentries, hfront, hback⟩ := entries_around folder from_ retained hretained
  have hsquashed : squashedOf h bucket from_ = (from_, retained) :: back := by
    rw [squashedOf, hof, hentries, List.filter_append, List.filter_eq_nil_iff.mpr,
      List.nil_append, List.filter_eq_self.mpr]
    · intro e he
      rcases List.mem_cons.mp he with rfl | he
      · exact decide_eq_true le_rfl
      · exact decide_eq_true (hback e he).le
    · intro e he
      rw [decide_eq_true_eq]
      exact not_le.mpr (hfront e he)
  rcases hsafe with ⟨hone, hrow⟩ | ⟨hmany, hjoin⟩
  · obtain rfl := runSquash_single digest phaseZero from_ appFilter h after bucket hbucket hrun hone
    obtain rfl : back = [] := by
      rw [hsquashed] at hone
      exact List.length_eq_zero_iff.mp (by simpa using hone)
    refine ⟨rfl, ?_, hrow, fun _ => Iff.rfl, fun _ _ => rfl, rfl⟩
    rw [hof, hretained, hsquashed]
    simp [List.mapM_cons]
  · obtain ⟨u, ds, hcombined, retained', hretained', hafter⟩ :=
      runSquash_ok digest phaseZero from_ appFilter h after bucket hbucket hrun hmany
    obtain rfl : retained = retained' := by
      rw [hof, hretained] at hretained'
      exact Option.some.inj hretained'
    have hups := combinedUp_stmts _ u ds hcombined hjoin.names hjoin.ups
    have hdowns := combinedDown_stmts _ u ds hcombined hjoin.names hjoin.downs
    generalize hfiles : squashedFiles retained u (writtenDown ds) = files at hafter
    dsimp only at hafter
    have hdown : files.down = (writtenDown ds).map some := by
      have hmem : (from_, retained) ∈ squashedOf h bucket from_ := by
        rw [hsquashed]
        exact List.mem_cons_self
      rw [← hfiles]
      exact squashedFiles_join _ from_ u ds hcombined retained hmem (hjoin.readable _ hmem)
    have hleft := left_entries bucket from_ folder front back retained files h.rows hentries hfront
      hback
    rw [hof] at hafter
    rw [← hsquashed] at hleft
    generalize hl : deleteSubsumed bucket from_ (squashedOf h bucket from_)
      (folder.insert from_ files, h.rows) = left at hafter hleft
    have hfolder' : folderOf after bucket = left.1 := by
      rw [hafter, folderOf, OrdMap.get_insert, if_pos rfl]
      rfl
    have hget' : left.1.get from_ = some files := by
      rw [← OrdMap.mem_entries_iff, hleft]
      simp
    have hstatus (version : String)
        (hversion : version = from_ ∨ ∀ d ∈ squashedOf h bucket from_, d.1 ≠ version) :
        isApplied after.rows bucket version = isApplied h.rows bucket version := by
      rw [hafter, isApplied_refresh, ← hl, isApplied_delete bucket from_ _ _ _ hversion]
    refine ⟨?ups, ?downs, ?checksums, ?applied, ?otherFolders, ?otherRows⟩
    case ups =>
      rw [allUps, allUps, hfolder', hleft, hof, hentries, List.flatMap_append, List.flatMap_append,
        ← hsquashed, ← hups]
      congr 1
      rw [List.flatMap_singleton, upStmts, ← hfiles]
      rfl
    case downs =>
      rw [mapM_downStmts _ fun e he => hjoin.readable e (List.mem_reverse.mp he), hfolder', hget',
        ← hdowns, Option.bind_some, downStmts, hdown]
      cases hwritten : writtenDown ds with
      | none =>
        rw [writtenDown_none ds hwritten]
        rfl
      | some down =>
        rw [writtenDown_some ds down hwritten]
        rfl
    case checksums =>
      intro r hr hversion happ files' hfiles'
      obtain rfl : files = files' := by
        rw [hfolder', hget'] at hfiles'
        exact Option.some.inj hfiles'
      rw [hafter] at hr
      obtain ⟨hrowUp, hrowDown⟩ :=
        refresh_checksums digest bucket from_ u (writtenDown ds) _ r hr hversion happ
      rw [hsquashed] at hcombined
      have hsome : files.up = some u := by
        rw [← hfiles]
        rfl
      rw [hrowUp, hrowDown, hsome, hdown, Option.map_some,
        combinedUp_checksum digest from_ retained back u ds hcombined]
      refine ⟨rfl, ?_⟩
      cases writtenDown ds <;> rfl
    case applied =>
      have hfrom : upStmts files = (squashedOf h bucket from_).flatMap fun e => upStmts e.2 := by
        rw [← hups, ← hfiles]
        rfl
      have hfront' : front.filter (fun e => isApplied after.rows bucket e.1) =
          front.filter fun e => isApplied h.rows bucket e.1 := by
        refine List.filter_congr fun e he => hstatus e.1 (.inr fun d hd => ?_)
        have hle : from_ ≤ d.1 := of_decide_eq_true (List.mem_filter.mp hd).2
        exact ((hfront e he).trans_le hle).ne'
      intro stmt
      rw [appliedUps, appliedUps, hfolder', hleft, hof, hentries, ← hsquashed, List.filter_append,
        List.filter_append, hfront', List.flatMap_append, List.flatMap_append, List.mem_append,
        List.mem_append]
      refine or_congr_right ?_
      rw [applied_together h bucket from_ hjoin.together, List.filter_singleton,
        hstatus from_ (.inl rfl)]
      cases isApplied h.rows bucket from_
      · rfl
      · rw [← hfrom]
        simp
    case otherFolders =>
      intro other hother
      rw [hafter, OrdMap.get_insert, if_neg hother]
    case otherRows =>
      rw [hafter, refresh_other, ← hl, delete_other]

def statedRow (version : String) (status : LedgerStatus) : HistoryRow :=
  ⟨version, "", status, "", none, version⟩

/-- Two versions, each with a file each way. -/
def twoVersions (later : LedgerStatus) : SquashState :=
  ⟨OrdMap.ofList [(mainBucket, OrdMap.ofList
      [("V1", ⟨some ['A', ';', '\n'], some (some ['B', ';', '\n']), false⟩),
        ("V2", ⟨some ['C', ';', '\n'], some (some ['D', ';', '\n']), true⟩)])],
    [statedRow "V1" .applied, statedRow "V2" later]⟩

/-- Both versions are applied: the files are joined and the second row goes. -/
theorem squash_preserves_two : ∃ after : SquashState,
    runSquash id (fun _ _ => .ok ()) "V1" none (twoVersions .applied) = .ok after ∧
      Preserved id mainBucket "V1" (twoVersions .applied) after := by
  have hok : (runSquash id (fun _ _ => .ok ()) "V1" none
      (twoVersions .applied)).toOption.isSome = true := by decide +kernel
  have hbucket : locateSquashTarget (twoVersions .applied).folders "V1" none = .ok mainBucket := by
    decide +kernel
  cases hrun : runSquash id (fun _ _ => .ok ()) "V1" none (twoVersions .applied) with
  | error e =>
    rw [hrun] at hok
    cases hok
  | ok after =>
    refine ⟨after, rfl, squash_preserves id (fun _ _ => .ok ()) "V1" none _ after mainBucket
      hbucket hrun (.inr ⟨by decide +kernel, ⟨?_, ?_, ?_, ?_, ?_⟩⟩)⟩
    · have hnames : (squashedOf (twoVersions .applied) mainBucket "V1").all
          (fun e => e.1.toList.all fun c => !isNewline c) = true := by decide +kernel
      intro e he c hc
      simpa using List.all_eq_true.mp (List.all_eq_true.mp hnames e he) c hc
    · have htexts : (upTexts (squashedOf (twoVersions .applied) mainBucket "V1")).map
          withNewline = [['A', ';', '\n'], ['C', ';', '\n']] := by decide +kernel
      have hlast : closes (scanner.cut ['C', ';', '\n']) = true := by decide +kernel
      rw [htexts]
      exact ⟨by decide +kernel, .inl (by decide +kernel), hlast, .inr (by simp), trivial⟩
    · have htexts : (downTexts (squashedOf (twoVersions .applied) mainBucket "V1")).map
          (· ++ ['\n']) = [['D', ';', '\n', '\n'], ['B', ';', '\n', '\n']] := by decide +kernel
      have hlast : closes (scanner.cut ['B', ';', '\n', '\n']) = true := by decide +kernel
      rw [htexts]
      exact ⟨by decide +kernel, .inl (by decide +kernel), hlast, .inr (by simp), trivial⟩
    · decide +kernel
    · decide +kernel

/-- The later version is still pending, and after the squash its statement counts as applied. -/
theorem squash_applies_pending : ∃ after : SquashState,
    runSquash id (fun _ _ => .ok ()) "V1" none (twoVersions .pending) = .ok after ∧
      ¬ Preserved id mainBucket "V1" (twoVersions .pending) after := by
  have hrun : ((runSquash id (fun _ _ => .ok ()) "V1" none (twoVersions .pending)).toOption.map
      fun after => decide ([['C']] ∈ appliedUps after mainBucket)) = some true := by
    decide +kernel
  have hbefore : [['C']] ∉ appliedUps (twoVersions .pending) mainBucket := by decide +kernel
  obtain ⟨after, hafter, hmem⟩ := Option.map_eq_some_iff.mp hrun
  refine ⟨after, ?_, fun h => hbefore ((h.applied _).mp (of_decide_eq_true hmem))⟩
  cases hresult : runSquash id (fun _ _ => .ok ()) "V1" none (twoVersions .pending) with
  | error e =>
    rw [hresult] at hafter
    cases hafter
  | ok result =>
    rw [hresult] at hafter
    exact congrArg Except.ok (Option.some.inj hafter)

end Djogi

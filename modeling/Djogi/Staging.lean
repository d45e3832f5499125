import Mathlib.Data.List.Basic
import Djogi.WritePhase

/-!
# Staging and promoting

While the files of the buckets are staged and promoted, dropping the guard undoes everything that
it knows.

* `get_removeTmps`: what removing the temporary files does;
* `Copied.restore`: a restore point takes its promotion back;
* `meets_writeBuckets`: from bucket to bucket the guard can undo everything, and a failure is
  undone unless a file is left that the guard does not know.
-/

namespace Djogi

open Folders Session

/-! ## Leftovers -/

def Name.isPlain : Name → Bool
  | .plain _ => true
  | _ => false

/-- There is no temporary file and no backup. -/
def NoLeftovers (w : Workspace) : Prop := ∀ d n, n.isPlain = false → get w d n = none

/-- A failed write or sync leaves a temporary file, and a failed copy may leave part of a backup,
that the guard does not know. -/
def WriteError.untracked {ε : Type} : WriteError ε → Bool
  | .io .write _ => true
  | .io .sync _ => true
  | .io .copy left => left.isSome
  | _ => false

/-- The guard knows every file, and the folders that entries were moved out of still exist. -/
structure Undoable {ε : Type} (e : WriteError ε) (s : WritePhase) : Prop where
  tracked : e.untracked = false
  folders : ∀ r ∈ s.guard.entryRenames, (s.disk r.src).isSome = true

/-- Dropping the guard leaves the files of the workspace. -/
def Restored (w₀ : Workspace) (s : WritePhase) : Prop := Same (s.guard.unwind s.disk) w₀

/-- A failure is undone exactly when it can be. -/
def Exact {ε : Type} (w₀ : Workspace) (e : WriteError ε) (s : WritePhase) : Prop :=
  Restored w₀ s ↔ Undoable e s

/-! ## Single undo operations -/

section Undo

variable {P : Dir → Name → Prop}

theorem local_removeFile (d : Dir) (n : Name) (h : P d n) : Local P fun w => removeFile w d n where
  folders w k := by
    unfold removeFile
    split_ifs
    · exact isSome_erase w d n k
    · rfl
  outside w k m hk := by
    unfold removeFile
    split_ifs
    · exact (local_erase d n h).outside w k m hk
    · rfl
  inside w w' hsome hget k m hk := by
    unfold removeFile
    rw [← hget d n h]
    split_ifs
    · exact (local_erase d n h).inside w w' hsome hget k m hk
    · exact hget k m hk

theorem removeFile_of_file (w : Workspace) (d : Dir) (n : Name) (b : Bytes)
    (h : get w d n = some (.file b)) : removeFile w d n = Folders.erase w d n := by
  rw [removeFile, h]
  rfl

theorem local_restore (rp : RestorePoint) (h : P rp.dir (.plain rp.name))
    (hb : ∀ k, rp.backup = some k → P rp.dir (.bak rp.name k)) : Local P fun w => restore w rp := by
  unfold restore
  cases hbackup : rp.backup with
  | none => exact local_removeFile rp.dir (.plain rp.name) h
  | some k =>
    have hbak := hb k hbackup
    have hmove : Local (ε := Entry) P fun w =>
        move w rp.dir (.bak rp.name k) rp.dir (.plain rp.name) := local_move _ _ _ _ hbak h
    have hfinal : Local P fun w => removeFile w rp.dir (.plain rp.name) :=
      local_removeFile rp.dir (.plain rp.name) h
    have hboth : Local P fun w =>
        removeFile (removeFile w rp.dir (.plain rp.name)) rp.dir (.bak rp.name k) := by
      have hsecond : Local P fun w => removeFile w rp.dir (.bak rp.name k) :=
        local_removeFile rp.dir (.bak rp.name k) hbak
      refine ⟨fun w d => ?_, fun w d n hn => ?_, fun w w' hsome hget d n hn => ?_⟩
      · rw [hsecond.folders, hfinal.folders]
      · rw [hsecond.outside _ d n hn, hfinal.outside w d n hn]
      · refine hsecond.inside _ _ (fun k => ?_) (hfinal.inside w w' hsome hget) d n hn
        rw [hfinal.folders, hfinal.folders, hsome]
    refine ⟨fun w d => ?_, fun w d n hn => ?_, fun w w' hsome hget d n hn => ?_⟩
    · cases hsrc : get w rp.dir (.bak rp.name k) with
      | none => simp only [hsrc]; exact hboth.folders w d
      | some e => simp only [hsrc]; exact hmove.folders w d
    · cases hsrc : get w rp.dir (.bak rp.name k) with
      | none => simp only [hsrc]; exact hboth.outside w d n hn
      | some e => simp only [hsrc]; exact hmove.outside w d n hn
    · have hsame := hget _ _ hbak
      cases hsrc : get w rp.dir (.bak rp.name k) with
      | none =>
        simp only [hsrc, hsrc ▸ hsame.symm]
        exact hboth.inside w w' hsome hget d n hn
      | some e =>
        simp only [hsrc, hsrc ▸ hsame.symm]
        exact hmove.inside w w' hsome hget d n hn

theorem same_removeFile (w w' : Workspace) (h : Same w w') (d : Dir) (n : Name) :
    Same (removeFile w d n) (removeFile w' d n) := by
  unfold removeFile
  rw [← h d n]
  split_ifs
  · exact h.erase w w' d n
  · exact h

theorem same_restore (w w' : Workspace) (h : Same w w') (rp : RestorePoint) :
    Same (restore w rp) (restore w' rp) := by
  unfold restore
  cases rp.backup with
  | none => exact same_removeFile w w' h _ _
  | some k =>
    have hsame := h rp.dir (.bak rp.name k)
    cases hsrc : get w rp.dir (.bak rp.name k) with
    | none =>
      simp only [hsrc, hsrc ▸ hsame.symm]
      exact same_removeFile _ _ (same_removeFile w w' h _ _) _ _
    | some e =>
      simp only [hsrc, hsrc ▸ hsame.symm]
      refine h.move w w' _ _ _ _ fun _ => ⟨exists_of_get w _ _ e hsrc, ?_⟩
      exact exists_of_get w' _ _ e (hsame ▸ hsrc)

theorem same_foldl {α : Type} (step : Workspace → α → Workspace)
    (hstep : ∀ w w' a, Same w w' → Same (step w a) (step w' a)) (l : List α) (w w' : Workspace)
    (h : Same w w') : Same (l.foldl step w) (l.foldl step w') := by
  induction l generalizing w w' with
  | nil => exact h
  | cons a l ih => exact ih _ _ (hstep w w' a h)

end Undo

/-! ## Queues of the guard -/

def Name.isTmp : Name → Bool
  | .tmp _ => true
  | _ => false

/-- The places of temporary files. -/
def TmpPlace (tmps : List (Dir × String)) (d : Dir) (n : Name) : Prop :=
  ∃ t ∈ tmps, d = t.1 ∧ n = .tmp t.2

theorem local_removeTmps (tmps : List (Dir × String)) :
    Local (TmpPlace tmps) fun w => tmps.foldl removeTmp w :=
  Local.foldl _ _ fun t ht => local_removeFile t.1 (.tmp t.2) ⟨t, ht, rfl, rfl⟩

theorem local_moveBack {P : Dir → Name → Prop} (src dst : Dir) (n : Name) (hsrc : P src n)
    (hdst : P dst n) : Local P fun w => moveBack w (.entry src dst n) := by
  have hmove : Local (ε := Entry) P fun w => move w dst n src n := local_move _ _ _ _ hdst hsrc
  have heq : ∀ w, moveBack w (.entry src dst n) =
      if (w src).isSome then move w dst n src n else w := fun _ => rfl
  refine ⟨fun w d => ?_, fun w d m hm => ?_, fun w w' hsome hget d m hm => ?_⟩
  · rw [heq]
    split_ifs
    · exact hmove.folders w d
    · rfl
  · rw [heq]
    split_ifs
    · exact hmove.outside w d m hm
    · rfl
  · rw [heq, heq, ← hsome src]
    split_ifs
    · exact hmove.inside w w' hsome hget d m hm
    · exact hget d m hm

/-- The places of promoted files and of their backups. -/
def RestorePlace (rps : List RestorePoint) (d : Dir) (n : Name) : Prop :=
  ∃ rp ∈ rps, d = rp.dir ∧ (n = .plain rp.name ∨ ∃ k, rp.backup = some k ∧ n = .bak rp.name k)

theorem local_restores (rps : List RestorePoint) :
    Local (RestorePlace rps) fun w => rps.reverse.foldl restore w := by
  refine Local.foldl _ _ fun rp hrp => ?_
  rw [List.mem_reverse] at hrp
  exact local_restore rp ⟨rp, hrp, rfl, .inl rfl⟩ fun k hk => ⟨rp, hrp, rfl, .inr ⟨k, hk, rfl⟩⟩

/-- Every temporary file is known. -/
def TmpsOk (w : Workspace) (tmps : List (Dir × String)) : Prop :=
  ∀ d name e, get w d (.tmp name) = some e → isFile (some e) = true ∧ (d, name) ∈ tmps

theorem get_removeTmps (tmps : List (Dir × String)) (w : Workspace) (h : TmpsOk w tmps) (d : Dir)
    (n : Name) : get (tmps.foldl removeTmp w) d n = if n.isTmp then none else get w d n := by
  induction tmps generalizing w with
  | nil =>
    cases n with
    | tmp name =>
      cases hget : get w d (.tmp name) with
      | none => simp [hget, Name.isTmp]
      | some e => exact absurd (h d name e hget).2 List.not_mem_nil
    | _ => rfl
  | cons t ts ih =>
    have hlocal := local_removeFile (P := fun d n => d = t.1 ∧ n = .tmp t.2) t.1 (.tmp t.2)
      ⟨rfl, rfl⟩
    have hrest : TmpsOk (removeTmp w t) ts := by
      intro d' name e he
      by_cases hplace : d' = t.1 ∧ name = t.2
      · exfalso
        obtain ⟨rfl, rfl⟩ := hplace
        rw [removeTmp, removeFile] at he
        split_ifs at he with hfile
        · rw [get_erase, if_pos ⟨rfl, rfl⟩] at he
          cases he
        · exact hfile (he ▸ (h _ _ e he).1)
      · have hsame : get (removeTmp w t) d' (.tmp name) = get w d' (.tmp name) :=
          hlocal.outside w d' _ fun hc => hplace ⟨hc.1, Name.tmp.inj hc.2⟩
        obtain ⟨hfile, hmem⟩ := h d' name e (hsame ▸ he)
        refine ⟨hfile, (List.mem_cons.mp hmem).resolve_left fun heq => hplace ?_⟩
        exact ⟨congrArg Prod.fst heq, congrArg Prod.snd heq⟩
    rw [List.foldl_cons, ih (removeTmp w t) hrest]
    cases n with
    | tmp name => rfl
    | _ =>
      refine if_neg Bool.false_ne_true |>.trans ?_
      exact hlocal.outside w d _ fun hc => Name.noConfusion hc.2

/-- Disks that differ in temporary files only are the same without them. -/
theorem removeTmps_eq (w w' : Workspace) (tmps tmps' : List (Dir × String)) (h : TmpsOk w tmps)
    (h' : TmpsOk w' tmps') (hd : ∀ d, (w d).isSome = (w' d).isSome)
    (hget : ∀ d n, n.isTmp = false → get w d n = get w' d n) :
    tmps.foldl removeTmp w = tmps'.foldl removeTmp w' := by
  refine ext_get _ _ (fun d => ?_) fun d n => ?_
  · rw [(local_removeTmps tmps).folders, (local_removeTmps tmps').folders, hd]
  · rw [get_removeTmps tmps w h, get_removeTmps tmps' w' h']
    cases hn : n.isTmp with
    | true => rfl
    | false => exact hget d n hn

/-! ## Staging -/

/-- The files of a version in the directory of a bucket. -/
def versionNames (version : String) : List String :=
  [upFilename version, downFilename version, committedReplayPlanFilename version]

/-- A folder rename whose new folder has the files of the version. -/
structure Target (version : String) (w : Workspace) (q : Dir × Dir) : Prop where
  src : ∃ database name, q.1 = .bucket database name
  dst : ∃ database name, q.2 = .bucket database name
  files : ∀ name ∈ versionNames version, (get w q.2 (.plain name)).isSome = true

/-- While files are staged and promoted the guard can undo everything. -/
structure Staged (w₀ : Workspace) (version : String) (queue : List (Dir × Dir))
    (tmps : List (Dir × String)) (promoted : List StagedFile) (s : WritePhase) : Prop where
  tmps_eq : s.guard.tmps = tmps
  unmoved : s.guard.entryRenames = []
  queue_eq : s.pendingFolderRenames = queue
  restored : Same (s.guard.restorePoints.reverse.foldl restore (tmps.foldl removeTmp s.disk)) w₀
  tmps : TmpsOk s.disk tmps
  backups : ∀ d name k e, get s.disk d (.bak name k) = some e → isFile (some e) = true ∧
    k < s.backupCounter ∧ ⟨d, name, some k⟩ ∈ s.guard.restorePoints
  fresh : ∀ rp ∈ s.guard.restorePoints, ∀ k, rp.backup = some k → k < s.backupCounter
  finals : ∀ rp ∈ s.guard.restorePoints, (get s.disk rp.dir (.plain rp.name)).isSome = true ∧
    (rp.name ∈ versionNames version ∨ ∃ database, rp.dir = .pending database)
  targets : ∀ q ∈ queue, Target version s.disk q
  promoted : ∀ f ∈ promoted, ∃ rp ∈ s.guard.restorePoints, rp.dir = f.dir ∧ rp.name = f.name

section Staging

variable {w₀ : Workspace} {version : String} {queue : List (Dir × Dir)}
  {tmps : List (Dir × String)} {promoted : List StagedFile} {s : WritePhase}

theorem Staged.unwind (h : Staged w₀ version queue tmps promoted s) : Restored w₀ s := by
  rw [Restored, WriteRollback.unwind, h.unmoved, h.tmps_eq]
  exact h.restored

theorem Staged.exact {ε : Type} (h : Staged w₀ version queue tmps promoted s) (e : WriteError ε)
    (he : e.untracked = false) : Exact w₀ e s := by
  refine iff_of_true h.unwind ⟨he, fun r hr => ?_⟩
  rw [h.unmoved] at hr
  cases hr

/-- What is at a place that the guard does not know stays. -/
theorem Staged.left {ε : Type} (w : Workspace) (c : Nat)
    (h : Staged w₀ version queue tmps promoted { s with disk := w, backupCounter := c })
    (hfresh : NoLeftovers w₀) (d : Dir) (n : Name) (hn : n.isPlain = false) (e : Entry)
    (hget : get s.disk d n = some e) (htmp : ¬TmpPlace tmps d n)
    (hpoint : ¬RestorePlace s.guard.restorePoints d n) (err : WriteError ε)
    (herr : err.untracked = true) : Exact w₀ err s := by
  refine iff_of_false (fun hres => ?_) fun hundo => ?_
  · have hmoves : s.guard.entryRenames = [] := h.unmoved
    have htracked : s.guard.tmps = tmps := h.tmps_eq
    have hkept : get (s.guard.unwind s.disk) d n = some e := by
      rw [WriteRollback.unwind, hmoves, htracked]
      exact ((local_restores s.guard.restorePoints).outside _ d n hpoint).trans
        (((local_removeTmps tmps).outside _ d n htmp).trans hget)
    rw [hres d n, hfresh d n hn] at hkept
    cases hkept
  · rw [hundo.tracked] at herr
    cases herr

theorem Staged.clock (h : Staged w₀ version queue tmps promoted s) (n : Nat) :
    Staged w₀ version queue tmps promoted { s with clock := n } :=
  ⟨h.tmps_eq, h.unmoved, h.queue_eq, h.restored, h.tmps, h.backups, h.fresh, h.finals,
    h.targets, h.promoted⟩

/-- A temporary file of which the guard does not know yet. -/
structure Half (w₀ : Workspace) (version : String) (queue : List (Dir × Dir))
    (tmps : List (Dir × String)) (promoted : List StagedFile) (d : Dir) (name : String)
    (s : WritePhase) : Prop where
  base : ∃ w b, Staged w₀ version queue tmps promoted { s with disk := w } ∧ (w d).isSome = true ∧
    s.disk = put w d (.tmp name) (.file b)

theorem tmpsOk_put (w : Workspace) (h : TmpsOk w tmps) (d : Dir) (name : String) (b : Bytes)
    (hd : (w d).isSome = true) (tmps' : List (Dir × String)) (hsub : ∀ t ∈ tmps, t ∈ tmps')
    (hmem : (d, name) ∈ tmps') : TmpsOk (put w d (.tmp name) (.file b)) tmps' := by
  intro d' name' e he
  rw [get_put _ _ _ _ hd] at he
  split_ifs at he with hplace
  · obtain ⟨rfl, hname⟩ := hplace
    rw [Name.tmp.inj hname]
    exact ⟨by rw [← Option.some.inj he]; rfl, hmem⟩
  · obtain ⟨hfile, hold⟩ := h d' name' e he
    exact ⟨hfile, hsub _ hold⟩

theorem get_put_tmp (w : Workspace) (d : Dir) (name : String) (e : Entry) (d' : Dir) (n : Name)
    (hn : n.isTmp = false) : get (put w d (.tmp name) e) d' n = get w d' n := by
  refine get_put_of_ne w d _ e d' n ?_
  rintro ⟨-, rfl⟩
  cases hn

/-- Once the guard knows the temporary file, the phase is staged. -/
theorem Half.track (d : Dir) (name : String) (h : Half w₀ version queue tmps promoted d name s)
    (tmps' : List (Dir × String)) (hsub : ∀ t ∈ tmps, t ∈ tmps') (hmem : (d, name) ∈ tmps') :
    Staged w₀ version queue tmps' promoted { s with guard := { s.guard with tmps := tmps' } } := by
  obtain ⟨w, b, hst, hd, hdisk⟩ := h.base
  have htmps := tmpsOk_put w hst.tmps d name b hd tmps' hsub hmem
  have hget : ∀ d' n, n.isTmp = false → get s.disk d' n = get w d' n := by
    intro d' n hn
    rw [hdisk, get_put_tmp _ _ _ _ _ _ hn]
  have hclean : tmps'.foldl removeTmp s.disk = tmps.foldl removeTmp w := by
    rw [hdisk]
    refine removeTmps_eq _ _ _ _ htmps hst.tmps (fun k => isSome_put _ _ _ _ k) fun d' n hn => ?_
    exact get_put_tmp _ _ _ _ _ _ hn
  refine ⟨rfl, hst.unmoved, hst.queue_eq, ?_, hdisk ▸ htmps, fun d' n k e he => ?_, hst.fresh,
    fun rp hrp => ?_, fun q hq => ?_, hst.promoted⟩
  · show Same (List.foldl restore (tmps'.foldl removeTmp s.disk) _) w₀
    rw [hclean]
    exact hst.restored
  · exact hst.backups d' n k e (hget d' (.bak n k) rfl ▸ he)
  · obtain ⟨hfinal, hname⟩ := hst.finals rp hrp
    exact ⟨by rw [← hfinal]; exact congrArg _ (hget _ _ rfl), hname⟩
  · obtain ⟨hsrc, hdst, hfiles⟩ := hst.targets q hq
    exact ⟨hsrc, hdst, fun n hn => by rw [← hfiles n hn]; exact congrArg _ (hget _ _ rfl)⟩

theorem Half.unmoved (d : Dir) (name : String)
    (h : Half w₀ version queue tmps promoted d name s) : s.guard.entryRenames = [] := by
  obtain ⟨w, b, hst, -, -⟩ := h.base
  exact hst.unmoved

/-- A temporary file of which the guard does not know stays behind. -/
theorem Half.exact {ε : Type} (d : Dir) (name : String) (hfresh : NoLeftovers w₀)
    (hnew : (d, name) ∉ tmps) (h : Half w₀ version queue tmps promoted d name s)
    (err : WriteError ε) (herr : err.untracked = true) : Exact w₀ err s := by
  obtain ⟨w, b, hst, hd, hdisk⟩ := h.base
  have hthere : get s.disk d (.tmp name) = some (.file b) := by
    rw [hdisk, get_put_self _ _ _ _ hd]
  refine Staged.left w s.backupCounter hst hfresh d (.tmp name) rfl _ hthere ?_ ?_ err herr
  · rintro ⟨t, ht, rfl, hn⟩
    exact hnew (Name.tmp.inj hn ▸ ht)
  · rintro ⟨rp, -, -, hn | ⟨k, -, hn⟩⟩ <;> cases hn

/-! ### Promotion -/

/-- The file is promoted by moving the temporary one over the final name. -/
def promoteTmp (w : Workspace) (d : Dir) (name : String) : Workspace :=
  move w d (.tmp name) d (.plain name)

theorem get_promoteTmp (w : Workspace) (d : Dir) (name : String) (e : Entry)
    (h : get w d (.tmp name) = some e) (d' : Dir) (n : Name) :
    get (promoteTmp w d name) d' n =
      if d' = d ∧ n = .plain name then some e
      else if d' = d ∧ n = .tmp name then none else get w d' n :=
  get_move w d (.tmp name) d (.plain name) e h (exists_of_get w d _ e h) d' n

theorem tmpsOk_promoteTmp (w : Workspace) (d : Dir) (name : String) (e : Entry)
    (h : get w d (.tmp name) = some e) (hok : TmpsOk w ((d, name) :: tmps)) :
    TmpsOk (promoteTmp w d name) tmps := by
  intro d' n e' he
  rw [get_promoteTmp w d name e h, if_neg (fun hc => Name.noConfusion hc.2)] at he
  split_ifs at he with hplace
  obtain ⟨hfile, hmem⟩ := hok d' n e' he
  refine ⟨hfile, (List.mem_cons.mp hmem).resolve_left fun heq => hplace ?_⟩
  obtain ⟨rfl, rfl⟩ := Prod.mk.inj heq
  exact ⟨rfl, rfl⟩

theorem plain_promoteTmp (w : Workspace) (d : Dir) (name : String) (e : Entry)
    (h : get w d (.tmp name) = some e) (d' : Dir) (x : String)
    (hx : (get w d' (.plain x)).isSome = true) :
    (get (promoteTmp w d name) d' (.plain x)).isSome = true := by
  rw [get_promoteTmp w d name e h]
  split_ifs with hplace htmp
  · rfl
  · cases htmp.2
  · exact hx

/-- The backup of the file, if there is one, has been taken. -/
structure Copied (w : Workspace) (d : Dir) (name : String) (backup : Option Nat)
    (w' : Workspace) : Prop where
  folders : ∀ k, (w' k).isSome = (w k).isSome
  same : ∀ d' n, (∀ k, backup = some k → ¬(d' = d ∧ n = .bak name k)) → get w' d' n = get w d' n
  backed : ∀ k, backup = some k → get w d (.bak name k) = none ∧ ∃ b,
    get w d (.plain name) = some (.file b) ∧ get w' d (.bak name k) = some (.file b)
  new : backup = none → get w d (.plain name) = none

theorem Copied.nothing (w : Workspace) (d : Dir) (name : String)
    (h : get w d (.plain name) = none) : Copied w d name none w :=
  ⟨fun _ => rfl, fun _ _ _ => rfl, fun _ hk => (nomatch hk), fun _ => h⟩

theorem Copied.file (w : Workspace) (d : Dir) (name : String) (b : Bytes) (k : Nat)
    (h : get w d (.plain name) = some (.file b)) (hfree : get w d (.bak name k) = none) :
    Copied w d name (some k) (put w d (.bak name k) (.file b)) where
  folders j := isSome_put _ _ _ _ j
  same d' n hn := get_put_of_ne w d _ _ d' n (hn k rfl)
  backed j hj := by
    obtain rfl := Option.some.inj hj
    exact ⟨hfree, b, h, get_put_self _ _ _ _ (exists_of_get w d _ _ h)⟩
  new hk := nomatch hk

section Copied

variable {w w' : Workspace} {d : Dir} {name : String} {backup : Option Nat}

theorem Copied.tmp (h : Copied w d name backup w') (d' : Dir) (x : String) :
    get w' d' (.tmp x) = get w d' (.tmp x) :=
  h.same d' _ fun _ _ hc => Name.noConfusion hc.2

theorem Copied.plain (h : Copied w d name backup w') (d' : Dir) (x : String) :
    get w' d' (.plain x) = get w d' (.plain x) :=
  h.same d' _ fun _ _ hc => Name.noConfusion hc.2

/-- A failed promotion drops the copy. -/
theorem Copied.drop (h : Copied w d name backup w') : dropBackup d name backup w' = w := by
  cases hk : backup with
  | none =>
    refine ext_get _ _ h.folders fun d' n => h.same d' n fun k he => ?_
    rw [hk] at he
    cases he
  | some k =>
    obtain ⟨hfree, b, -, hbak⟩ := h.backed k hk
    show removeFile w' d (.bak name k) = w
    rw [removeFile_of_file w' d _ b hbak]
    refine ext_get _ _ (fun j => (isSome_erase _ _ _ j).trans (h.folders j)) fun d' n => ?_
    rw [get_erase]
    split_ifs with hplace
    · rw [hplace.1, hplace.2, hfree]
    · refine h.same d' n fun j hj => ?_
      obtain rfl := Option.some.inj (hk.symm.trans hj)
      exact hplace

/-- What is on the disk once the file is promoted and the other temporary files are removed. -/
theorem Copied.get_promoted (h : Copied w d name backup w') (e : Entry)
    (hget : get w d (.tmp name) = some e) (hok : TmpsOk w ((d, name) :: tmps)) (d' : Dir)
    (n : Name) : get (tmps.foldl removeTmp (promoteTmp w' d name)) d' n =
      if n.isTmp then none else if d' = d ∧ n = .plain name then some e else get w' d' n := by
  have htmp : get w' d (.tmp name) = some e := (h.tmp d name).trans hget
  have hok' : TmpsOk w' ((d, name) :: tmps) := fun d' x e' he => hok d' x e' (h.tmp d' x ▸ he)
  rw [get_removeTmps tmps _ (tmpsOk_promoteTmp w' d name e htmp hok'),
    get_promoteTmp w' d name e htmp]
  cases n with
  | tmp x => rfl
  | plain x =>
    have hne : ¬(d' = d ∧ Name.plain x = .tmp name) := fun hc => Name.noConfusion hc.2
    rw [if_neg hne]
  | bak x k =>
    have hne : ¬(d' = d ∧ Name.bak x k = .tmp name) := fun hc => Name.noConfusion hc.2
    rw [if_neg hne]

/-- **Promotion.** The restore point takes it back. -/
theorem Copied.restore (h : Copied w d name backup w') (e : Entry)
    (hget : get w d (.tmp name) = some e) (hok : TmpsOk w ((d, name) :: tmps)) :
    restore (tmps.foldl removeTmp (promoteTmp w' d name)) ⟨d, name, backup⟩ =
      ((d, name) :: tmps).foldl removeTmp w := by
  have hpromoted := h.get_promoted e hget hok
  have hsome : ∀ k, (tmps.foldl removeTmp (promoteTmp w' d name) k).isSome =
      (((d, name) :: tmps).foldl removeTmp w k).isSome := by
    intro k
    rw [(local_removeTmps tmps).folders, (local_removeTmps ((d, name) :: tmps)).folders,
      ← h.folders k]
    exact isSome_move _ _ _ _ _ k
  generalize tmps.foldl removeTmp (promoteTmp w' d name) = W at hpromoted hsome ⊢
  have hother : ∀ d' n, ¬(d' = d ∧ n = .plain name) →
      (∀ k, backup = some k → ¬(d' = d ∧ n = .bak name k)) →
      get W d' n = if n.isTmp then none else get w d' n := by
    intro d' n hplain hbak
    rw [hpromoted, if_neg hplain, h.same d' n hbak]
  cases backup with
  | none =>
    obtain ⟨b, rfl⟩ : ∃ b, e = .file b := by
      cases e with
      | file b => exact ⟨b, rfl⟩
      | folder fs => cases (hok d name _ hget).1
    have hfinal : get W d (.plain name) = some (.file b) := by
      simp [hpromoted, Name.isTmp]
    show removeFile W d (.plain name) = _
    rw [removeFile_of_file W d _ b hfinal]
    refine ext_get _ _ (fun k => (isSome_erase _ _ _ k).trans (hsome k)) fun d' n => ?_
    rw [get_erase, get_removeTmps _ w hok]
    by_cases hplace : d' = d ∧ n = .plain name
    · rw [if_pos hplace, hplace.1, hplace.2]
      exact (h.new rfl).symm
    · rw [if_neg hplace]
      exact hother d' n hplace fun k hk => nomatch hk
  | some k =>
    obtain ⟨hfree, b, hold, hbak⟩ := h.backed k rfl
    have hstored : get W d (.bak name k) = some (.file b) := by
      simp [hpromoted, Name.isTmp, hbak]
    have hrestore : Djogi.restore W ⟨d, name, some k⟩ =
        move W d (.bak name k) d (.plain name) := by
      simp only [Djogi.restore, hstored]
    rw [hrestore]
    refine ext_get _ _ (fun j => (isSome_move _ _ _ _ _ j).trans (hsome j)) fun d' n => ?_
    rw [get_move _ _ _ _ _ _ hstored (exists_of_get _ _ _ _ hstored), get_removeTmps _ w hok]
    by_cases hplace : d' = d ∧ n = .plain name
    · rw [if_pos hplace, hplace.1, hplace.2]
      exact hold.symm
    · rw [if_neg hplace]
      by_cases hbakplace : d' = d ∧ n = .bak name k
      · rw [if_pos hbakplace, hbakplace.1, hbakplace.2]
        exact hfree.symm
      · rw [if_neg hbakplace]
        exact hother d' n hplace fun j hj => Option.some.inj hj ▸ hbakplace

end Copied

theorem Staged.counter (c c' : Nat)
    (h : Staged w₀ version queue tmps promoted { s with backupCounter := c }) (hc : c ≤ c') :
    Staged w₀ version queue tmps promoted { s with backupCounter := c' } where
  tmps_eq := h.tmps_eq
  unmoved := h.unmoved
  queue_eq := h.queue_eq
  restored := h.restored
  tmps := h.tmps
  backups d name k e he := by
    obtain ⟨hfile, hlt, hmem⟩ := h.backups d name k e he
    exact ⟨hfile, lt_of_lt_of_le hlt hc, hmem⟩
  fresh rp hrp k hk := lt_of_lt_of_le (h.fresh rp hrp k hk) hc
  finals := h.finals
  targets := h.targets
  promoted := h.promoted

/-- A temporary file that the guard knows, and the backup of its final file. -/
structure Backed (w₀ : Workspace) (version : String) (queue : List (Dir × Dir))
    (tmps : List (Dir × String)) (promoted : List StagedFile) (d : Dir) (name : String)
    (backup : Option Nat) (s : WritePhase) : Prop where
  base : ∃ w c, Staged w₀ version queue ((d, name) :: tmps) promoted
      { s with disk := w, backupCounter := c } ∧
    Copied w d name backup s.disk ∧ (get w d (.tmp name)).isSome = true ∧
    c ≤ s.backupCounter ∧ ∀ k, backup = some k → c ≤ k ∧ k < s.backupCounter

section Backed

variable {d : Dir} {name : String} {backup : Option Nat}

theorem Backed.clock (h : Backed w₀ version queue tmps promoted d name backup s) (n : Nat) :
    Backed w₀ version queue tmps promoted d name backup { s with clock := n } := by
  obtain ⟨w, c, hst, hrest⟩ := h.base
  exact ⟨w, c, hst.clock n, hrest⟩

theorem Backed.drop (h : Backed w₀ version queue tmps promoted d name backup s) :
    Staged w₀ version queue ((d, name) :: tmps) promoted
      { s with disk := dropBackup d name backup s.disk } := by
  obtain ⟨w, c, hst, hcopied, -, hc, -⟩ := h.base
  rw [hcopied.drop]
  exact Staged.counter (s := { s with disk := w }) c s.backupCounter hst hc

/-- Once the guard knows the promotion it can undo it. -/
theorem Backed.promote (h : Backed w₀ version queue tmps promoted d name backup s) (bytes : Bytes)
    (hname : name ∈ versionNames version ∨ ∃ database, d = .pending database) :
    Staged w₀ version queue tmps (promoted ++ [⟨d, name, bytes⟩])
      { s with
        disk := promoteTmp s.disk d name
        guard := s.guard.promote d name backup } := by
  obtain ⟨w, c, hst, hcopied, htmp, hc, hk⟩ := h.base
  obtain ⟨e, he⟩ := Option.isSome_iff_exists.mp htmp
  have he' : get s.disk d (.tmp name) = some e := (hcopied.tmp d name).trans he
  have hplain : ∀ d' x, (get w d' (.plain x)).isSome = true →
      (get (promoteTmp s.disk d name) d' (.plain x)).isSome = true := by
    intro d' x hx
    exact plain_promoteTmp s.disk d name e he' d' x (by rw [hcopied.plain]; exact hx)
  have hmem : ∀ rp : RestorePoint, rp ∈ (s.guard.promote d name backup).restorePoints ↔
      rp ∈ s.guard.restorePoints ∨ rp = ⟨d, name, backup⟩ := fun rp => by
    simp [WriteRollback.promote]
  have htmps : s.guard.tmps = (d, name) :: tmps := hst.tmps_eq
  refine ⟨?_, hst.unmoved, hst.queue_eq, ?_, ?_, fun d' x k e' hbak => ?_, fun rp hrp k hb => ?_,
    fun rp hrp => ?_, fun q hq => ?_, fun f hf => ?_⟩
  · show s.guard.tmps.erase (d, name) = tmps
    rw [htmps, List.erase_cons_head]
  · show Same ((s.guard.restorePoints ++ [_]).reverse.foldl restore _) w₀
    rw [List.reverse_append, List.reverse_singleton, List.singleton_append, List.foldl_cons,
      hcopied.restore e he hst.tmps]
    exact hst.restored
  · refine tmpsOk_promoteTmp s.disk d name e he' fun d' x e' hx => ?_
    exact hst.tmps d' x e' (hcopied.tmp d' x ▸ hx)
  · replace hbak : get s.disk d' (.bak x k) = some e' := by
      have hpromoted := get_promoteTmp s.disk d name e he' d' (.bak x k)
      rw [if_neg fun hp => Name.noConfusion hp.2, if_neg fun hp => Name.noConfusion hp.2]
        at hpromoted
      exact hpromoted.symm.trans hbak
    by_cases hplace : ∃ j, backup = some j ∧ d' = d ∧ Name.bak x k = .bak name j
    · obtain ⟨j, hj, rfl, hn⟩ := hplace
      obtain ⟨rfl, rfl⟩ := Name.bak.inj hn
      obtain ⟨-, b, -, hfile⟩ := hcopied.backed _ hj
      rw [hfile] at hbak
      refine ⟨Option.some.inj hbak ▸ rfl, (hk _ hj).2, (hmem _).mpr (.inr ?_)⟩
      rw [hj]
    · have hold := hcopied.same d' (.bak x k) fun j hj hp => hplace ⟨j, hj, hp⟩
      obtain ⟨hfile, hlt, hin⟩ := hst.backups d' x k e' (hold ▸ hbak)
      exact ⟨hfile, lt_of_lt_of_le hlt hc, (hmem _).mpr (.inl hin)⟩
  · rcases (hmem rp).mp hrp with hold | rfl
    · exact lt_of_lt_of_le (hst.fresh rp hold k hb) hc
    · exact (hk k hb).2
  · rcases (hmem rp).mp hrp with hold | rfl
    · obtain ⟨hfinal, hin⟩ := hst.finals rp hold
      exact ⟨hplain _ _ hfinal, hin⟩
    · refine ⟨?_, hname⟩
      show (get (promoteTmp s.disk d name) d (.plain name)).isSome = true
      rw [get_promoteTmp s.disk d name e he', if_pos ⟨rfl, rfl⟩]
      rfl
  · obtain ⟨hsrc, hdst, hfiles⟩ := hst.targets q hq
    exact ⟨hsrc, hdst, fun x hx => hplain _ _ (hfiles x hx)⟩
  · rcases List.mem_append.mp hf with hold | hnew
    · obtain ⟨rp, hrp, hdir, hfname⟩ := hst.promoted f hold
      exact ⟨rp, (hmem rp).mpr (.inl hrp), hdir, hfname⟩
    · rw [List.mem_singleton] at hnew
      subst hnew
      exact ⟨⟨d, name, backup⟩, (hmem _).mpr (.inr rfl), rfl, rfl⟩

end Backed

end Staging

/-! ### Rules -/

/-- No write, sync or copy leaves part of a file. -/
structure Reliable (faults : Faults) : Prop where
  write : ∀ n, faults n .write = none
  sync : ∀ n, faults n .sync = none
  copy : ∀ n part, faults n .copy ≠ some (some part)

/-- How a phase that has not moved entries stops. -/
structure Stopped {ε : Type} (faults : Faults) (w₀ : Workspace) (e : WriteError ε)
    (s : WritePhase) : Prop where
  exact : Exact w₀ e s
  unmoved : s.guard.entryRenames = []
  reliable : Reliable faults → e.untracked = false

section Rules

variable {ε α : Type} {P : WritePhase → Prop} {E : WriteError ε → WritePhase → Prop}

theorem meets_attempt {Q : Unit → WritePhase → Prop} (faults : Faults) (op : FsOp)
    (failed : Option Bytes → Workspace → Workspace) (done : Workspace → Workspace)
    (hok : ∀ s, P s → Q () { s with clock := s.clock + 1, disk := done s.disk })
    (herr : ∀ s left, P s → faults s.clock op = some left →
      E (.io op left) { s with clock := s.clock + 1, disk := failed left s.disk }) :
    Meets P (attempt faults op failed done) Q E := by
  intro s hs
  unfold attempt
  cases hf : faults s.clock op with
  | none => exact hok s hs
  | some left => exact herr s left hs hf

theorem meets_ensure (p : WritePhase → Bool) (e : WriteError ε) (h : ∀ s, P s → E e s) :
    Meets P (ensure p e) (fun _ s => P s ∧ p s = true) E := by
  intro s hs
  unfold ensure
  cases hp : p s with
  | true => exact ⟨hs, hp⟩
  | false => exact h s hs

theorem meets_gets (f : WritePhase → α) : Meets P (gets f) (fun a s => P s ∧ a = f s) E :=
  fun _ hs => ⟨hs, rfl⟩

theorem meets_modify {Q : Unit → WritePhase → Prop} (f : WritePhase → WritePhase)
    (h : ∀ s, P s → Q () (f s)) : Meets P (modifyPhase f) Q E := h

end Rules

section Phases

variable {ε : Type} {w₀ : Workspace} {version : String} {queue : List (Dir × Dir)}
  {tmps : List (Dir × String)} {promoted : List StagedFile} {faults : Faults}
  (hfresh : NoLeftovers w₀)

theorem Staged.stopped {s : WritePhase} (h : Staged w₀ version queue tmps promoted s)
    (e : WriteError ε) (he : e.untracked = false) : Stopped faults w₀ e s :=
  ⟨h.exact e he, h.unmoved, fun _ => he⟩

include hfresh

theorem meets_atomicWrite (d : Dir) (name : String) (bytes : Bytes) (hnew : (d, name) ∉ tmps) :
    Meets (Staged w₀ version queue tmps promoted) (atomicWrite (ε := ε) faults d name bytes)
      (fun _ => Half w₀ version queue tmps promoted d name) (Stopped faults w₀) := by
  have hrewrite : ∀ s b n, Half w₀ version queue tmps promoted d name s →
      Half w₀ version queue tmps promoted d name
        { s with clock := n, disk := put s.disk d (.tmp name) (.file b) } := by
    rintro s b n ⟨w, b', hst, hd, hdisk⟩
    exact ⟨w, b, hst.clock n, hd, by simp only [hdisk, put_put]⟩
  have hclock : ∀ s n, Half w₀ version queue tmps promoted d name s →
      Half w₀ version queue tmps promoted d name { s with clock := n } := by
    rintro s n ⟨w, b, hst, hd, hdisk⟩
    exact ⟨w, b, hst.clock n, hd, hdisk⟩
  refine (meets_ensure _ _ fun s hs => hs.stopped _ rfl).bind fun _ => ?_
  refine Meets.bind (Q := fun _ => Half w₀ version queue tmps promoted d name)
    (meets_attempt faults .create _ _ (fun s hs => ?_)
      fun s left hs _ => (hs.1.clock _).stopped _ rfl) fun _ => ?_
  · exact ⟨s.disk, [], hs.1.clock _, (Bool.and_eq_true_iff.mp hs.2).1, rfl⟩
  refine Meets.bind (Q := fun _ => Half w₀ version queue tmps promoted d name)
    (meets_attempt faults .write _ _ (fun s hs => hrewrite s bytes _ hs)
      fun s left hs hf => ?_) fun _ => ?_
  · have hhalf := hrewrite s (left.getD []) (s.clock + 1) hs
    refine ⟨hhalf.exact d name hfresh hnew _ rfl, hhalf.unmoved d name, fun hr => ?_⟩
    rw [hr.write] at hf
    cases hf
  refine meets_attempt faults .sync _ _ (fun s hs => hclock s (s.clock + 1) hs)
    fun s left hs hf => ?_
  have hhalf := hclock s (s.clock + 1) hs
  refine ⟨hhalf.exact d name hfresh hnew _ rfl, hhalf.unmoved d name, fun hr => ?_⟩
  rw [hr.sync] at hf
  cases hf

theorem meets_stageFile (f : StagedFile) (hnew : (f.dir, f.name) ∉ tmps) :
    Meets (Staged w₀ version queue tmps promoted) (stageFile (ε := ε) faults f)
      (fun _ => Staged w₀ version queue (tmps ++ [(f.dir, f.name)]) promoted)
      (Stopped faults w₀) := by
  refine (meets_atomicWrite hfresh f.dir f.name f.bytes hnew).bind fun _ => ?_
  refine meets_modify _ fun s hs => ?_
  have htmps : s.guard.tmps = tmps := by
    obtain ⟨w, b, hst, -, -⟩ := hs.base
    exact hst.tmps_eq
  have htracked := hs.track f.dir f.name (tmps ++ [(f.dir, f.name)])
    (fun t ht => List.mem_append_left _ ht) (List.mem_append_right _ (List.mem_singleton.mpr rfl))
  rw [← htmps] at htracked
  rw [← htmps]
  exact htracked

theorem meets_takeBackup (d : Dir) (name : String) :
    Meets (fun s => Staged w₀ version queue ((d, name) :: tmps) promoted s ∧
        (get s.disk d (.tmp name)).isSome = true)
      (takeBackup (ε := ε) faults d name)
      (fun backup => Backed w₀ version queue tmps promoted d name backup) (Stopped faults w₀) := by
  refine (meets_gets _).bind fun existing => ?_
  cases existing with
  | none =>
    refine .pure _ fun s hs => ?_
    obtain ⟨⟨hst, htmp⟩, hnone⟩ := hs
    exact ⟨s.disk, s.backupCounter, hst, .nothing _ _ _ hnone.symm, htmp, le_rfl,
      fun k hk => nomatch hk⟩
  | some e =>
    refine (meets_gets _).bind fun n => ?_
    refine (meets_modify _ (Q := fun _ s =>
      Staged w₀ version queue ((d, name) :: tmps) promoted { s with backupCounter := n } ∧
        (get s.disk d (.tmp name)).isSome = true ∧ get s.disk d (.plain name) = some e ∧
        s.backupCounter = n + 1) fun s hs => ?_).bind fun _ => ?_
    · obtain ⟨⟨⟨hst, htmp⟩, hsome⟩, hn⟩ := hs
      subst hn
      exact ⟨hst, htmp, hsome.symm, rfl⟩
    cases e with
    | folder files =>
      refine .fail _ fun s hs => ?_
      exact (Staged.counter (s := s) n s.backupCounter hs.1 (by omega)).stopped _ rfl
    | file bytes =>
      have hfree : ∀ s : WritePhase, Staged w₀ version queue ((d, name) :: tmps) promoted
          { s with backupCounter := n } → get s.disk d (.bak name n) = none := by
        intro s hst
        cases hget : get s.disk d (.bak name n) with
        | none => rfl
        | some e => exact absurd (hst.backups d name n e hget).2.1 (lt_irrefl n)
      refine (meets_attempt faults .copy _ _
        (Q := fun _ => Backed w₀ version queue tmps promoted d name (some n)) (fun s hs => ?_)
        fun s left hs hf => ?_).bind fun _ => .pure _ fun s hs => hs
      · obtain ⟨hst, htmp, hold, hn⟩ := hs
        refine ⟨s.disk, n, hst.clock _, .file _ _ _ _ _ hold (hfree s hst), htmp, ?_, ?_⟩
        · show n ≤ s.backupCounter
          omega
        · intro k hk
          obtain rfl := Option.some.inj hk
          show n ≤ n ∧ n < s.backupCounter
          omega
      · obtain ⟨hst, htmp, hold, hn⟩ := hs
        cases left with
        | none =>
          have hkept := Staged.counter (s := s) n s.backupCounter hst (by omega)
          exact (hkept.clock _).stopped _ rfl
        | some part =>
          have hthere : get (put s.disk d (.bak name n) (.file part)) d (.bak name n) =
              some (.file part) := get_put_self _ _ _ _ (exists_of_get _ _ _ _ hold)
          refine ⟨?_, hst.unmoved, fun hr => absurd hf (hr.copy _ _)⟩
          refine Staged.left (s := ⟨put s.disk d (.bak name n) (.file part), s.guard, s.clock + 1,
              s.backupCounter, s.pendingFolderRenames⟩) s.disk n
            (hst.clock _) hfresh d (.bak name n) rfl _ hthere ?_ ?_ _ rfl
          · rintro ⟨t, -, -, hn⟩
            cases hn
          · rintro ⟨rp, hrp, -, hplain | ⟨k, hk, hbak⟩⟩
            · cases hplain
            · obtain ⟨-, rfl⟩ := Name.bak.inj hbak
              exact lt_irrefl _ (hst.fresh rp hrp _ hk)

theorem meets_promoteFile (f : StagedFile)
    (hname : f.name ∈ versionNames version ∨ ∃ database, f.dir = .pending database) :
    Meets (Staged w₀ version queue ((f.dir, f.name) :: tmps) promoted)
      (promoteFile (ε := ε) faults f)
      (fun _ => Staged w₀ version queue tmps (promoted ++ [f])) (Stopped faults w₀) := by
  refine Meets.bind (Q := fun backup s => Staged w₀ version queue tmps (promoted ++ [f])
    { s with guard := s.guard.promote f.dir f.name backup }) ?_
    fun backup => meets_modify _ fun s hs => hs
  refine (meets_ensure _ _ fun s hs => hs.stopped _ rfl).bind fun _ => ?_
  refine (meets_attempt faults .canonicalize _ _
    (Q := fun _ s => Staged w₀ version queue ((f.dir, f.name) :: tmps) promoted s ∧
      (get s.disk f.dir (.tmp f.name)).isSome = true)
    (fun s hs => ⟨hs.1.clock _, hs.2⟩) fun s left hs _ => (hs.1.clock _).stopped _ rfl).bind
    fun _ => ?_
  refine (meets_takeBackup hfresh f.dir f.name).bind fun backup => ?_
  refine (meets_attempt faults .rename _ _
    (Q := fun _ s => Staged w₀ version queue tmps (promoted ++ [f])
      { s with guard := s.guard.promote f.dir f.name backup })
    (fun s hs => (hs.promote f.bytes hname).clock _)
    fun s left hs _ => (hs.drop.clock _).stopped _ rfl).bind fun _ => .pure _ fun s hs => hs

omit hfresh in
theorem Staged.same {s : WritePhase} (h : Staged w₀ version queue tmps promoted s)
    (w : Workspace) (hw : Same w s.disk) :
    Staged w₀ version queue tmps promoted { s with disk := w } := by
  refine ⟨h.tmps_eq, h.unmoved, h.queue_eq, fun d n => ?_, fun d x e he => ?_,
    fun d x k e he => ?_, h.fresh, fun rp hrp => ?_, fun q hq => ?_, h.promoted⟩
  · have htmps := same_foldl removeTmp (fun w w' t h => same_removeFile w w' h t.1 (.tmp t.2))
      tmps w s.disk hw
    have hpoints := same_foldl restore (fun w w' rp h => same_restore w w' h rp)
      s.guard.restorePoints.reverse _ _ htmps
    exact (hpoints d n).trans (h.restored d n)
  · exact h.tmps d x e (hw d _ ▸ he)
  · exact h.backups d x k e (hw d _ ▸ he)
  · exact hw _ _ ▸ h.finals rp hrp
  · obtain ⟨hsrc, hdst, hfiles⟩ := h.targets q hq
    exact ⟨hsrc, hdst, fun x hx => hw _ _ ▸ hfiles x hx⟩

omit hfresh in
theorem meets_ensureParent (d : Dir) :
    Meets (Staged w₀ version queue tmps promoted) (ensureParent (ε := ε) faults d)
      (fun _ => Staged w₀ version queue tmps promoted) (Stopped faults w₀) := by
  refine meets_attempt faults .createDir _ _ (fun s hs => ?_)
    fun s left hs _ => (hs.clock _).stopped _ rfl
  refine (hs.clock (s.clock + 1)).same _ fun d' n => ?_
  unfold createDirAll
  split_ifs with hd
  · rfl
  · by_cases hd' : d' = d
    · subst hd'
      rw [get_none_of_missing s.disk d' n (by simpa using hd), Folders.get, Function.update_self]
      rfl
    · rw [Folders.get, Function.update_of_ne hd']
      rfl

theorem meets_stageFiles (l : List StagedFile)
    (hnd : (tmps ++ l.map fun f => (f.dir, f.name)).Nodup) :
    Meets (Staged w₀ version queue tmps promoted) (l.forM (stageFile (ε := ε) faults))
      (fun _ => Staged w₀ version queue (tmps ++ l.map fun f => (f.dir, f.name)) promoted)
      (Stopped faults w₀) := by
  induction l generalizing tmps with
  | nil =>
    rw [List.map_nil, List.append_nil]
    exact .pure () fun s hs => hs
  | cons f l ih =>
    rw [List.map_cons, List.append_cons] at hnd ⊢
    have hnew : (f.dir, f.name) ∉ tmps := fun hmem =>
      List.disjoint_of_nodup_append (List.nodup_append.mp hnd).1 hmem (List.mem_singleton.mpr rfl)
    exact (meets_stageFile hfresh f hnew).bind fun _ => ih hnd

theorem meets_promoteFiles (l : List StagedFile)
    (hname : ∀ f ∈ l, f.name ∈ versionNames version ∨ ∃ database, f.dir = .pending database) :
    Meets (Staged w₀ version queue (l.map fun f => (f.dir, f.name)) promoted)
      (l.forM (promoteFile (ε := ε) faults))
      (fun _ => Staged w₀ version queue [] (promoted ++ l)) (Stopped faults w₀) := by
  induction l generalizing promoted with
  | nil =>
    rw [List.append_nil]
    exact .pure () fun s hs => hs
  | cons f l ih =>
    obtain ⟨hf, hl⟩ := List.forall_mem_cons.mp hname
    rw [List.append_cons]
    exact (meets_promoteFile hfresh f hf).bind fun _ => ih hl

end Phases

/-! ### Buckets -/

theorem files_nodup (version : String) (a : Artifacts) :
    ((a.files version).map fun f => (f.dir, f.name)).Nodup := by
  simp [Artifacts.files, bucketDir, upFilename, downFilename, committedReplayPlanFilename,
    String.append_right_inj]

theorem files_names (version : String) (a : Artifacts) :
    ∀ f ∈ a.files version,
      f.name ∈ versionNames version ∨ ∃ database, f.dir = .pending database := by
  simp [Artifacts.files, versionNames]

section Buckets

variable {ε : Type} {w₀ : Workspace} {queue : List (Dir × Dir)} {faults : Faults}

/-- The files of a bucket are where its old folders will be merged. -/
theorem Staged.enqueue {version : String} {s : WritePhase} (a : Artifacts)
    (h : Staged w₀ version queue [] (a.files version) s) :
    Staged w₀ version (queue ++ a.renames) [] []
      { s with pendingFolderRenames := s.pendingFolderRenames ++ a.renames } := by
  refine ⟨h.tmps_eq, h.unmoved, ?_, h.restored, h.tmps, h.backups, h.fresh, h.finals,
    fun q hq => ?_, fun f hf => absurd hf List.not_mem_nil⟩
  · show s.pendingFolderRenames ++ a.renames = queue ++ a.renames
    rw [h.queue_eq]
  rcases List.mem_append.mp hq with hold | hnew
  · exact h.targets q hold
  obtain ⟨label, -, rfl⟩ := List.mem_map.mp hnew
  refine ⟨⟨_, _, rfl⟩, ⟨_, _, rfl⟩, fun name hname => ?_⟩
  have hfile : ∃ f ∈ a.files version, f.dir = bucketDir a.bucket ∧ f.name = name := by
    simp only [versionNames, List.mem_cons, List.not_mem_nil, or_false] at hname
    simp only [Artifacts.files, List.mem_cons, List.not_mem_nil, or_false, exists_eq_or_imp]
    grind
  obtain ⟨f, hf, hdir, rfl⟩ := hfile
  obtain ⟨rp, hrp, hrpdir, hrpname⟩ := h.promoted f hf
  rw [← hdir, ← hrpdir, ← hrpname]
  exact (h.finals rp hrp).1

theorem meets_writeArtifacts (req : WriteRequest ε) (a : Artifacts) (hfresh : NoLeftovers w₀) :
    Meets (Staged w₀ req.version queue [] []) (writeArtifacts faults req a)
      (fun _ => Staged w₀ req.version (queue ++ a.renames) [] []) (Stopped faults w₀) := by
  have hcheck : ∀ e : WriteError ε, e.untracked = false → ∀ p : WritePhase → Bool,
      Meets (Staged w₀ req.version queue [] []) (ensure p e)
        (fun _ => Staged w₀ req.version queue [] []) (Stopped faults w₀) := by
    intro e he p
    exact (meets_ensure p e fun s hs => hs.stopped e he).conseq (fun _ h => h)
      (fun _ _ h => h.1) fun _ _ h => h
  have hedit := hcheck (.handEditedMigrationWouldBeOverwritten a.bucket) rfl
  have hpending := hcheck (.pendingJsonWouldBeOverwritten a.bucket) rfl
  have hparent : Meets (Staged w₀ req.version queue [] [])
      (ensureParent (ε := ε) faults (bucketDir a.bucket))
      (fun _ => Staged w₀ req.version queue [] []) (Stopped faults w₀) := meets_ensureParent _
  have hwrite := hparent.bind fun _ =>
      (meets_ensureParent (.pending a.bucket.database)).bind fun _ =>
      (meets_stageFiles hfresh (a.files req.version) (files_nodup _ a)).bind fun _ =>
      (meets_promoteFiles hfresh (a.files req.version) (files_names _ a)).bind fun _ =>
      meets_modify (Q := fun _ => Staged w₀ req.version (queue ++ a.renames) [] [])
        (fun s => { s with pendingFolderRenames := s.pendingFolderRenames ++ a.renames })
        fun s hs => hs.enqueue a
  unfold writeArtifacts
  cases req.forceOverwrite with
  | true => exact (hpending _).bind fun _ => hwrite
  | false => exact (hedit _).bind fun _ => (hpending _).bind fun _ => hwrite

/-- The folders that a request merges, in the order of its buckets. -/
def preparedRenames : Except ε Artifacts → List (Dir × Dir)
  | .ok a => a.renames
  | .error _ => []

def WriteRequest.renames (req : WriteRequest ε) : List (Dir × Dir) :=
  req.buckets.flatMap preparedRenames

theorem meets_writeBuckets (req : WriteRequest ε) (l : List (Except ε Artifacts))
    (hfresh : NoLeftovers w₀) :
    Meets (Staged w₀ req.version queue [] []) (l.forM (writeBucket faults req))
      (fun _ => Staged w₀ req.version (queue ++ l.flatMap preparedRenames) [] [])
      (Stopped faults w₀) := by
  induction l generalizing queue with
  | nil =>
    rw [List.flatMap_nil, List.append_nil]
    exact .pure () fun s hs => hs
  | cons prepared l ih =>
    rw [List.flatMap_cons, ← List.append_assoc]
    refine Meets.bind
      (Q := fun _ => Staged w₀ req.version (queue ++ preparedRenames prepared) [] []) ?_
      fun _ => ih
    cases prepared with
    | error err => exact .fail _ fun s hs => hs.stopped _ rfl
    | ok a => exact meets_writeArtifacts req a hfresh

end Buckets

end Djogi

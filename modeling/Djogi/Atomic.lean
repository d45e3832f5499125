import Djogi.Staging

/-!
# Compose is undone on failure

Once every file is promoted, the folders of renamed apps are merged. Entries go back while the
folder they came from exists; a merge that is done has removed it.

* `Merging.restored`: a merge that stops in the middle is undone;
* `Lost.stays`: nothing undoes a merge that is done;
* `write_phase_atomic`: what a failed write phase leaves, and when it is what was there before;
* `tmp_left_behind`: a temporary file that could not be written stays.
-/

namespace Djogi

open Folders Session

/-! ## The state between two merges -/

/-- Everything is promoted and `rps` are the restore points. -/
structure Moving (version : String) (queue : List (Dir × Dir)) (rps : List RestorePoint)
    (s : WritePhase) : Prop where
  tmps_eq : s.guard.tmps = []
  points : s.guard.restorePoints = rps
  noTmp : ∀ d name, get s.disk d (.tmp name) = none
  backups : ∀ d name k e, get s.disk d (.bak name k) = some e → isFile (some e) = true ∧
    ⟨d, name, some k⟩ ∈ rps
  finals : ∀ rp ∈ rps, (get s.disk rp.dir (.plain rp.name)).isSome = true ∧
    (rp.name ∈ versionNames version ∨ ∃ database, rp.dir = .pending database)
  targets : ∀ q ∈ queue, Target version s.disk q
  entries : ∀ r ∈ s.guard.entryRenames, ∃ src dst n, r = .entry src dst n

/-- Nothing has been moved, and the restore points lead back. -/
structure Unmoved (w₀ : Workspace) (s : WritePhase) : Prop where
  renames : s.guard.entryRenames = []
  undo : Same (s.guard.restorePoints.reverse.foldl restore s.disk) w₀

/-- The folder that an entry was moved out of is gone, and it was not empty. -/
def Lost (w₀ : Workspace) (s : WritePhase) : Prop :=
  ∃ r ∈ s.guard.entryRenames, (s.disk r.src).isSome = false ∧ ∃ n, (get w₀ r.src n).isSome = true

section Between

variable {w₀ : Workspace} {version : String} {queue : List (Dir × Dir)} {rps : List RestorePoint}
  {s : WritePhase}

theorem Staged.moving (h : Staged w₀ version queue [] [] s) :
    Moving version queue s.guard.restorePoints s where
  tmps_eq := h.tmps_eq
  points := rfl
  noTmp d name := by
    cases he : get s.disk d (.tmp name) with
    | none => rfl
    | some e => exact absurd (h.tmps d name e he).2 List.not_mem_nil
  backups d name k e he := by
    obtain ⟨hfile, -, hmem⟩ := h.backups d name k e he
    exact ⟨hfile, hmem⟩
  finals := h.finals
  targets := h.targets
  entries r hr := by
    rw [h.unmoved] at hr
    cases hr

/-- Nothing makes a folder again. -/
theorem Lost.stays (h : Moving version queue rps s) (hlost : Lost w₀ s) : ¬Restored w₀ s := by
  obtain ⟨r, -, hgone, n, hn⟩ := hlost
  intro hres
  have hback : Local (fun _ _ => True) fun w =>
      s.guard.entryRenames.reverse.foldl moveBack w := by
    refine Local.foldl _ _ fun r' hr' => ?_
    obtain ⟨src, dst, m, rfl⟩ := h.entries r' (List.mem_reverse.mp hr')
    exact local_moveBack src dst m trivial trivial
  have hpoints : Local (fun _ _ => True) fun w =>
      s.guard.restorePoints.reverse.foldl restore w :=
    Local.foldl _ _ fun rp _ => local_restore rp trivial fun _ _ => trivial
  have hsome : (s.guard.unwind s.disk r.src).isSome = false := by
    rw [WriteRollback.unwind, hback.folders, hpoints.folders, (local_removeTmps _).folders, hgone]
  rw [← hres r.src n, get_none_of_missing _ _ n hsome] at hn
  cases hn

theorem Lost.exact {ε : Type} (h : Moving version queue rps s) (hlost : Lost w₀ s)
    (e : WriteError ε) : Exact w₀ e s := by
  refine iff_of_false (hlost.stays h) fun hundo => ?_
  obtain ⟨r, hr, hgone, -⟩ := hlost
  rw [hundo.folders r hr] at hgone
  cases hgone

end Between

/-! ## One merge -/

/-- The entries can be moved and are none of the files of the version. -/
structure Mergeable (version : String) (w : Workspace) (src dst : Dir) (names : List Name) :
    Prop where
  nodup : names.Nodup
  there : ∀ n ∈ names, (get w src n).isSome = true
  free : ∀ n ∈ names, get w dst n = none
  plain : ∀ n ∈ names, ∃ x, n = .plain x ∧ x ∉ versionNames version

/-- Some entries have been moved. -/
structure Merging (s₀ : WritePhase) (src dst : Dir) (done : List Name) (s : WritePhase) :
    Prop where
  disk : s.disk = moveAll s₀.disk src dst done
  guard : s.guard =
    { s₀.guard with entryRenames := s₀.guard.entryRenames ++ done.map (.entry src dst) }

section Merge

variable {w₀ : Workspace} {version : String} {queue : List (Dir × Dir)} {rps : List RestorePoint}
  {s₀ s : WritePhase} {src dst : Dir} {done names : List Name}

theorem moveBack_entries (w : Workspace) (l : List Name) (hsrc : (w src).isSome = true) :
    (l.map (EntryRename.entry src dst)).foldl moveBack w = moveAll w dst src l := by
  induction l generalizing w with
  | nil => rfl
  | cons n l ih =>
    show (l.map _).foldl moveBack (if (w src).isSome then move w dst n src n else w) = _
    rw [if_pos hsrc]
    exact ih _ (by rwa [isSome_move])

/-- The entries of a merge are at none of the places of the restore points. -/
theorem Mergeable.apart (h : Mergeable version s₀.disk src dst done)
    (hm : Moving version queue rps s₀) (hsrc : ∃ database name, src = .bucket database name)
    (hdst : ∃ database name, dst = .bucket database name) (d : Dir) (n : Name)
    (hd : d = src ∨ d = dst) (hn : n ∈ done) : ¬RestorePlace rps d n := by
  rintro ⟨rp, hrp, rfl, hname⟩
  obtain ⟨x, rfl, hx⟩ := h.plain n hn
  rcases hname with heq | ⟨k, -, heq⟩
  · obtain rfl := Name.plain.inj heq
    rcases (hm.finals rp hrp).2 with hversion | ⟨database, hpending⟩
    · exact hx hversion
    · obtain ⟨database₁, name₁, hb₁⟩ := hsrc
      obtain ⟨database₂, name₂, hb₂⟩ := hdst
      rcases hd with hd | hd
      · rw [hpending, hb₁] at hd
        cases hd
      · rw [hpending, hb₂] at hd
        cases hd
  · cases heq

/-- **A merge that stops** while the old folder is there is undone. -/
theorem Merging.restored (hm : Moving version queue rps s₀) (hun : Unmoved w₀ s₀)
    (hsrc : ∃ database name, src = .bucket database name)
    (hdst : ∃ database name, dst = .bucket database name)
    (hfolders : done ≠ [] → (s₀.disk src).isSome = true ∧ (s₀.disk dst).isSome = true)
    (h : Merging s₀ src dst done s) (hable : Mergeable version s₀.disk src dst done) :
    Restored w₀ s ∧ ∀ r ∈ s.guard.entryRenames, (s.disk r.src).isSome = true := by
  have hrenames : s.guard.entryRenames = done.map (.entry src dst) := by
    rw [h.guard, hun.renames, List.nil_append]
  have htmps : s.guard.tmps = [] := by rw [h.guard, hm.tmps_eq]
  have hpoints : s.guard.restorePoints = s₀.guard.restorePoints := by rw [h.guard]
  by_cases hdone : done = []
  · subst hdone
    refine ⟨?_, fun r hr => ?_⟩
    · rw [Restored, WriteRollback.unwind, hrenames, htmps, hpoints, h.disk]
      exact hun.undo
    · rw [hrenames] at hr
      cases hr
  obtain ⟨hsome, hsome'⟩ := hfolders hdone
  refine ⟨?_, fun r hr => ?_⟩
  · -- the entries go back first, then the restore points: they are at different places
    have hback : Local (fun d n => (d = src ∨ d = dst) ∧ n ∈ done) fun w =>
        (done.reverse.map (EntryRename.entry src dst)).foldl moveBack w := by
      refine Local.foldl _ _ fun r hr => ?_
      obtain ⟨n, hn, rfl⟩ := List.mem_map.mp hr
      rw [List.mem_reverse] at hn
      exact local_moveBack src dst n ⟨.inl rfl, hn⟩ ⟨.inr rfl, hn⟩
    have hcommute := Local.commute _ _ hback (local_restores rps)
      (fun d n hp => hable.apart hm hsrc hdst d n hp.1 hp.2) s.disk
    have hmoved : (done.reverse.map (EntryRename.entry src dst)).foldl moveBack s.disk =
        s₀.disk := by
      rw [h.disk, moveBack_entries _ _ (by rwa [isSome_moveAll])]
      exact moveAll_back s₀.disk done hable.nodup hsome' hable.there hable.free
    rw [Restored, WriteRollback.unwind, hrenames, htmps, hpoints, hm.points, ← List.map_reverse]
    show Same (List.foldl moveBack (List.foldl restore s.disk rps.reverse) _) w₀
    rw [hcommute, hmoved, ← hm.points]
    exact hun.undo
  · rw [hrenames] at hr
    obtain ⟨n, -, rfl⟩ := List.mem_map.mp hr
    rw [h.disk]
    exact (isSome_moveAll s₀.disk done src).trans hsome

theorem Merging.lost (h : Merging s₀ src dst done s) (hlost : Lost w₀ s₀) : Lost w₀ s := by
  obtain ⟨r, hr, hgone, hn⟩ := hlost
  refine ⟨r, ?_, ?_, hn⟩
  · rw [h.guard]
    exact List.mem_append_left _ hr
  · rw [h.disk, isSome_moveAll, hgone]

/-- While a merge goes on, the files of the version and the backups stay. -/
theorem Merging.moving (hm : Moving version queue rps s₀)
    (hsrc : ∃ database name, src = .bucket database name)
    (hdst : ∃ database name, dst = .bucket database name) (h : Merging s₀ src dst done s)
    (hable : Mergeable version s₀.disk src dst done) : Moving version queue rps s := by
  have hkept : ∀ d n, (∀ x ∉ versionNames version, n ≠ .plain x) →
      get s.disk d n = get s₀.disk d n := by
    intro d n hn
    rw [h.disk]
    refine get_moveAll_of_notMem _ _ _ _ fun _ hmem => ?_
    obtain ⟨x, rfl, hx⟩ := hable.plain n hmem
    exact hn x hx rfl
  have hversion : ∀ d, ∀ x ∈ versionNames version,
      get s.disk d (.plain x) = get s₀.disk d (.plain x) := fun d x hx =>
    hkept d _ fun y hy heq => hy (Name.plain.inj heq ▸ hx)
  refine ⟨by rw [h.guard, hm.tmps_eq], by rw [h.guard, hm.points], fun d x => ?_,
    fun d x k e he => ?_, fun rp hrp => ⟨?_, (hm.finals rp hrp).2⟩, fun q hq => ?_, fun r hr => ?_⟩
  · rw [hkept d _ fun y _ heq => Name.noConfusion heq]
    exact hm.noTmp d x
  · rw [hkept d _ fun y _ heq => Name.noConfusion heq] at he
    exact hm.backups d x k e he
  · have hfinal : get s.disk rp.dir (.plain rp.name) = get s₀.disk rp.dir (.plain rp.name) := by
      rw [h.disk]
      refine get_moveAll_of_notMem _ _ _ _ fun hd hmem => ?_
      exact hable.apart hm hsrc hdst _ _ hd hmem ⟨rp, hrp, rfl, .inl rfl⟩
    rw [hfinal]
    exact (hm.finals rp hrp).1
  · obtain ⟨hqsrc, hqdst, hfiles⟩ := hm.targets q hq
    exact ⟨hqsrc, hqdst, fun x hx => by rw [hversion _ x hx]; exact hfiles x hx⟩
  · rw [h.guard] at hr
    rcases List.mem_append.mp hr with hold | hnew
    · exact hm.entries r hold
    · obtain ⟨n, -, rfl⟩ := List.mem_map.mp hnew
      exact ⟨src, dst, n, rfl⟩

/-- All entries have been moved and the old folder is gone. -/
structure Merged (version : String) (s₀ : WritePhase) (src dst : Dir) (names : List Name)
    (s : WritePhase) : Prop where
  able : Mergeable version s₀.disk src dst names
  all : ∀ n, (get s₀.disk src n).isSome = true → n ∈ names
  merging : ∃ w, Merging s₀ src dst names { s with disk := w } ∧ s.disk = removeDirAll w src

theorem get_removeDirAll (w : Workspace) (d k : Dir) (n : Name) :
    get (removeDirAll w d) k n = if k = d then none else get w k n := by
  rw [removeDirAll, Folders.get]
  by_cases h : k = d
  · rw [if_pos h, h, Function.update_self]
    rfl
  · rw [if_neg h, Function.update_of_ne h]
    rfl

/-- A folder that is removed has no file of the version. -/
theorem Merged.version_free (h : Merged version s₀ src dst names s) (x : String)
    (hx : x ∈ versionNames version) : get s₀.disk src (.plain x) = none := by
  cases hget : get s₀.disk src (.plain x) with
  | none => rfl
  | some e =>
    obtain ⟨y, hy, hnot⟩ := h.able.plain _ (h.all _ (by rw [hget]; rfl))
    exact absurd (Name.plain.inj hy ▸ hx) hnot

theorem Merged.moving (hm : Moving version queue rps s₀)
    (hsrc : ∃ database name, src = .bucket database name)
    (hdst : ∃ database name, dst = .bucket database name)
    (h : Merged version s₀ src dst names s) : Moving version queue rps s := by
  obtain ⟨w, hmerging, hdisk⟩ := h.merging
  have hbefore := hmerging.moving hm hsrc hdst h.able
  have hother : ∀ d n, d ≠ src → get s.disk d n = get w d n := by
    intro d n hd
    rw [hdisk, get_removeDirAll, if_neg hd]
  refine ⟨hbefore.tmps_eq, hbefore.points, fun d x => ?_, fun d x k e he => ?_,
    fun rp hrp => ⟨?_, (hm.finals rp hrp).2⟩, fun q hq => ?_, hbefore.entries⟩
  · rw [hdisk, get_removeDirAll]
    split_ifs
    · rfl
    · exact hbefore.noTmp d x
  · rw [hdisk, get_removeDirAll] at he
    split_ifs at he
    exact hbefore.backups d x k e he
  · rw [hother rp.dir _ fun heq => ?_]
    · exact (hbefore.finals rp hrp).1
    obtain ⟨hfinal, hname⟩ := hm.finals rp hrp
    rcases hname with hversion | ⟨database, hpending⟩
    · rw [heq, h.version_free _ hversion] at hfinal
      cases hfinal
    · obtain ⟨database', name', hb⟩ := hsrc
      rw [hpending, hb] at heq
      cases heq
  · obtain ⟨hqsrc, hqdst, hfiles⟩ := hbefore.targets q hq
    refine ⟨hqsrc, hqdst, fun x hx => ?_⟩
    rw [hother q.2 _ fun heq => ?_]
    · exact hfiles x hx
    have hthere := (hm.targets q hq).files x hx
    rw [heq, h.version_free x hx] at hthere
    cases hthere

/-- What was in the old folder was there before the phase. -/
theorem Merged.was_there (hm : Moving version queue rps s₀) (hun : Unmoved w₀ s₀)
    (hsrc : ∃ database name, src = .bucket database name)
    (hdst : ∃ database name, dst = .bucket database name)
    (h : Merged version s₀ src dst names s) (n : Name) (hn : n ∈ names) :
    (get w₀ src n).isSome = true := by
  have hapart := h.able.apart hm hsrc hdst src n (.inl rfl) hn
  have hkept := (local_restores rps).outside s₀.disk src n hapart
  rw [← hm.points] at hkept
  rw [← hun.undo src n, hkept]
  exact h.able.there n hn

/-- **A merge that is done** loses the old folder, unless it was empty. -/
theorem Merged.unmoved_or_lost (hm : Moving version queue rps s₀) (hun : Unmoved w₀ s₀)
    (hsrc : ∃ database name, src = .bucket database name)
    (hdst : ∃ database name, dst = .bucket database name)
    (h : Merged version s₀ src dst names s) :
    (Unmoved w₀ s ∧ names = []) ∨ (Lost w₀ s ∧ names ≠ []) := by
  obtain ⟨w, ⟨hw, hguard⟩, hdisk⟩ := h.merging
  have hrenames : s.guard.entryRenames = names.map (.entry src dst) := by
    rw [hguard, hun.renames, List.nil_append]
  cases names with
  | nil =>
    refine .inl ⟨⟨hrenames, fun d n => ?_⟩, rfl⟩
    have hsame : Same s.disk s₀.disk := by
      intro d n
      rw [hdisk, get_removeDirAll]
      split_ifs with hd
      · cases hget : get s₀.disk d n with
        | none => rfl
        | some e => exact absurd (h.all n (by rw [← hd, hget]; rfl)) List.not_mem_nil
      · exact congrFun (congrFun (congrArg get hw) d) n
    have hpoints : s.guard.restorePoints = s₀.guard.restorePoints := by rw [hguard]
    rw [hpoints]
    exact (same_foldl restore (fun w w' rp h => same_restore w w' h rp) _ _ _ hsame d n).trans
      (hun.undo d n)
  | cons n names =>
    refine .inr ⟨⟨.entry src dst n, ?_, ?_, n, ?_⟩, List.cons_ne_nil _ _⟩
    · rw [hrenames]
      exact List.mem_cons_self
    · rw [hdisk]
      show (Function.update w src none src).isSome = false
      rw [Function.update_self]
      rfl
    · exact h.was_there hm hun hsrc hdst n List.mem_cons_self

theorem Merged.lost (hlost : Lost w₀ s₀) (h : Merged version s₀ src dst names s) :
    Lost w₀ s := by
  obtain ⟨w, hmerging, hdisk⟩ := h.merging
  obtain ⟨r, hr, hgone, hn⟩ := hmerging.lost hlost
  refine ⟨r, hr, ?_, hn⟩
  rw [hdisk, removeDirAll]
  by_cases hd : r.src = src
  · rw [hd, Function.update_self]
    rfl
  · rw [Function.update_of_ne hd]
    exact hgone

/-! ### The rename of one folder -/

/-- What stops a rename leaves the merge in the middle. -/
def StopsMerging {ε : Type} (version : String) (s₀ : WritePhase) (src dst : Dir)
    (e : WriteError ε) (s : WritePhase) : Prop :=
  e.untracked = false ∧ ∃ done, Mergeable version s₀.disk src dst done ∧
    (done ≠ [] → (s₀.disk src).isSome = true ∧ (s₀.disk dst).isSome = true) ∧
    Merging s₀ src dst done s

theorem mergeable_nil (w : Workspace) : Mergeable version w src dst [] :=
  ⟨.nil, fun _ hn => absurd hn List.not_mem_nil, fun _ hn => absurd hn List.not_mem_nil,
    fun _ hn => absurd hn List.not_mem_nil⟩

theorem Merging.stops {ε : Type} (h : Merging s₀ src dst [] s) (e : WriteError ε)
    (he : e.untracked = false) : StopsMerging version s₀ src dst e s :=
  ⟨he, [], mergeable_nil _, fun hne => absurd rfl hne, h⟩

theorem Merging.clock (h : Merging s₀ src dst done s) (n : Nat) :
    Merging s₀ src dst done { s with clock := n } := ⟨h.disk, h.guard⟩

theorem Mergeable.left (l l' : List Name) (h : Mergeable version s₀.disk src dst (l ++ l')) :
    Mergeable version s₀.disk src dst l where
  nodup := (List.nodup_append.mp h.nodup).1
  there n hn := h.there n (List.mem_append_left _ hn)
  free n hn := h.free n (List.mem_append_left _ hn)
  plain n hn := h.plain n (List.mem_append_left _ hn)

variable {ε : Type} {faults : Faults}

theorem meets_moveEntries (l : List Name) (hsrc : (s₀.disk src).isSome = true)
    (hdst : (s₀.disk dst).isSome = true)
    (hable : Mergeable version s₀.disk src dst (done ++ l)) :
    Meets (Merging s₀ src dst done) (l.forM (moveEntry (ε := ε) faults src dst))
      (fun _ => Merging s₀ src dst (done ++ l)) (StopsMerging version s₀ src dst) := by
  induction l generalizing done with
  | nil =>
    rw [List.append_nil]
    exact .pure () fun s hs => hs
  | cons n l ih =>
    rw [List.append_cons] at hable ⊢
    refine Meets.bind (Q := fun _ => Merging s₀ src dst (done ++ [n])) ?_ fun _ => ih hable
    refine Meets.bind (Q := fun _ s => s.disk = moveAll s₀.disk src dst (done ++ [n]) ∧
      s.guard = { s₀.guard with
        entryRenames := s₀.guard.entryRenames ++ done.map (.entry src dst) })
      (meets_attempt faults .rename _ _ (fun s hs => ⟨?_, hs.guard⟩)
        fun s left hs _ => ⟨rfl, done, (hable.left _ _).left _ _, fun _ => ⟨hsrc, hdst⟩,
          hs.clock _⟩) fun _ => ?_
    · show move s.disk src n dst n = _
      rw [hs.disk, moveAll, moveAll, List.foldl_append]
      rfl
    · refine meets_modify _ fun s hs => ⟨hs.1, ?_⟩
      show s.guard.trackEntryRename (.entry src dst n) = _
      rw [hs.2, WriteRollback.trackEntryRename, List.map_append, ← List.append_assoc]
      rfl

/-- Names that are free in the new folder are names of old files only. -/
theorem mergeable_of_free (hm : Moving version queue rps s₀)
    (htarget : Target version s₀.disk (src, dst)) (m : OrdMap Name Entry)
    (hsrc : s₀.disk src = some m) (hperm : names.Perm m.keys)
    (hfree : ∀ n ∈ names, get s₀.disk dst n = none) :
    Mergeable version s₀.disk src dst names ∧
      ∀ n, (get s₀.disk src n).isSome = true → n ∈ names := by
  have hmem : ∀ n, n ∈ names ↔ (get s₀.disk src n).isSome = true := by
    intro n
    rw [hperm.mem_iff, OrdMap.mem_keys_iff, Folders.get, hsrc, Option.isSome_iff_exists]
    rfl
  have hversion : ∀ x ∈ versionNames version, Name.plain x ∉ names := by
    intro x hx hn
    have hthere := htarget.files x hx
    rw [hfree _ hn] at hthere
    cases hthere
  refine ⟨⟨hperm.nodup_iff.mpr m.keys_nodup, fun n hn => (hmem n).mp hn, hfree, fun n hn => ?_⟩,
    fun n hn => (hmem n).mpr hn⟩
  cases n with
  | plain x => exact ⟨x, rfl, fun hx => hversion x hx hn⟩
  | tmp x =>
    have hthere := (hmem _).mp hn
    rw [hm.noTmp] at hthere
    cases hthere
  | bak x k =>
    exfalso
    obtain ⟨e, he⟩ := Option.isSome_iff_exists.mp ((hmem _).mp hn)
    obtain ⟨hfinal, hname⟩ := hm.finals _ (hm.backups src x k e he).2
    rcases hname with hx | ⟨database, hpending⟩
    · exact hversion x hx ((hmem _).mpr hfinal)
    · obtain ⟨database', name', hb⟩ := htarget.src
      rw [show src = _ from hb] at hpending
      cases hpending

theorem meets_mergeFolder (listing : List Name → List Name) (hlisting : ∀ l, (listing l).Perm l)
    (hm : Moving version queue rps s₀) (htarget : Target version s₀.disk (src, dst))
    (hsrc : (s₀.disk src).isSome = true) (hdst : (s₀.disk dst).isSome = true) :
    Meets (Merging s₀ src dst []) (mergeFolder (ε := ε) faults listing src dst)
      (fun _ s => ∃ names, Merged version s₀ src dst names s)
      (StopsMerging version s₀ src dst) := by
  obtain ⟨m, hm₀⟩ := Option.isSome_iff_exists.mp hsrc
  refine Meets.bind (Q := fun _ => Merging s₀ src dst [])
    (meets_attempt faults .readDir _ _ (fun s hs => hs.clock _)
      fun s left hs _ => (hs.clock _).stops _ rfl) fun _ => ?_
  refine (meets_gets _).bind fun names => (meets_gets _).bind fun taken => ?_
  cases taken with
  | some n => exact .fail _ fun s hs => hs.1.1.stops _ rfl
  | none =>
    have hfound : ∀ s, (Merging s₀ src dst [] s ∧
          names = listing (((s.disk src).map OrdMap.keys).getD [])) ∧
          none = names.find? (fun n => (get s.disk dst n).isSome) →
        Mergeable version s₀.disk src dst names ∧
          ∀ n, (get s₀.disk src n).isSome = true → n ∈ names := by
      rintro s ⟨⟨hs, hnames⟩, hnone⟩
      have hdisk : s.disk = s₀.disk := hs.disk
      rw [hdisk, hm₀] at hnames
      rw [hdisk] at hnone
      refine mergeable_of_free hm htarget m hm₀ (hnames ▸ hlisting m.keys) fun n hn => ?_
      simpa using List.find?_eq_none.mp hnone.symm n hn
    by_cases hable : Mergeable version s₀.disk src dst names ∧
        ∀ n, (get s₀.disk src n).isSome = true → n ∈ names
    · refine Meets.bind (Q := fun _ => Merging s₀ src dst names) ?_ fun _ => ?_
      · have hmoved : Meets (Merging s₀ src dst [])
            (names.forM (moveEntry (ε := ε) faults src dst)) _ _ :=
          meets_moveEntries names hsrc hdst hable.1
        exact hmoved.pre fun s hs => hs.1.1
      · refine meets_attempt faults .removeDir _ _ (fun s hs => ?_) fun s left hs _ => ?_
        · exact ⟨names, hable.1, hable.2, s.disk, ⟨hs.disk, hs.guard⟩, rfl⟩
        · exact ⟨rfl, names, hable.1, fun _ => ⟨hsrc, hdst⟩, hs.clock _⟩
    · exact fun s hs => absurd (hfound s hs) hable

/-- The new folder is there, so the old one is merged into it or nothing is done. -/
theorem meets_renameOldBucketFolder (listing : List Name → List Name)
    (hlisting : ∀ l, (listing l).Perm l) (hm : Moving version queue rps s₀)
    (htarget : Target version s₀.disk (src, dst)) :
    Meets (Merging s₀ src dst []) (renameOldBucketFolder (ε := ε) faults listing (src, dst))
      (fun _ s => Merging s₀ src dst [] s ∨ ∃ names, Merged version s₀ src dst names s)
      (StopsMerging version s₀ src dst) := by
  have hdst : (s₀.disk dst).isSome = true := by
    obtain ⟨e, he⟩ := Option.isSome_iff_exists.mp
      (htarget.files (upFilename version) List.mem_cons_self)
    exact exists_of_get _ _ _ e he
  refine (meets_gets _).bind fun there => (meets_gets _).bind fun there' => ?_
  by_cases hsame : src = dst
  · rw [if_pos hsame]
    exact .pure () fun s hs => .inl hs.1.1
  rw [if_neg hsame]
  cases there with
  | false => exact .pure () fun s hs => .inl hs.1.1
  | true =>
    cases there' with
    | false =>
      intro s hs
      have hgone : false = (s.disk dst).isSome := hs.2
      rw [hs.1.1.disk, isSome_moveAll, hdst] at hgone
      cases hgone
    | true =>
      intro s hs
      have hthere : true = (s.disk src).isSome := hs.1.2
      rw [hs.1.1.disk, isSome_moveAll] at hthere
      exact ((meets_mergeFolder listing hlisting hm htarget hthere.symm hdst).conseq
        (fun _ h => h) (fun _ _ h => .inr h) fun _ _ h => h) s hs.1.1

end Merge

/-! ## All merges -/

theorem get_removeFile (w : Workspace) (d : Dir) (n : Name) (d' : Dir) (n' : Name) :
    get (removeFile w d n) d' n' = none ∨ get (removeFile w d n) d' n' = get w d' n' := by
  unfold removeFile
  split_ifs
  · rw [get_erase]
    split_ifs
    · exact .inl rfl
    · exact .inr rfl
  · exact .inr rfl

theorem get_removeBackup (w : Workspace) (rp : RestorePoint) (d : Dir) (n : Name) :
    get (removeBackup w rp) d n = none ∨ get (removeBackup w rp) d n = get w d n := by
  unfold removeBackup
  cases rp.backup with
  | none => exact .inr rfl
  | some k => exact get_removeFile w _ _ d n

theorem removeBackups_none (l : List RestorePoint) (w : Workspace) (d : Dir) (n : Name)
    (h : get w d n = none) : get (l.foldl removeBackup w) d n = none := by
  induction l generalizing w with
  | nil => exact h
  | cons rp l ih =>
    refine ih _ ?_
    rcases get_removeBackup w rp d n with hnone | hsame
    · exact hnone
    · rw [hsame, h]

/-- A backup that the guard knows is removed. -/
theorem removeBackups_bak (l : List RestorePoint) (w : Workspace) (d : Dir) (name : String)
    (k : Nat) (hmem : ⟨d, name, some k⟩ ∈ l) (hfile : isFile (get w d (.bak name k)) = true) :
    get (l.foldl removeBackup w) d (.bak name k) = none := by
  induction l generalizing w with
  | nil => cases hmem
  | cons rp l ih =>
    rcases List.mem_cons.mp hmem with rfl | hrest
    · refine removeBackups_none l _ d _ ?_
      show get (removeFile w d (.bak name k)) d (.bak name k) = none
      rw [removeFile, if_pos hfile, get_erase, if_pos ⟨rfl, rfl⟩]
    · rcases get_removeBackup w rp d (.bak name k) with hnone | hsame
      · exact removeBackups_none l _ d _ hnone
      · exact ih _ hrest (hsame ▸ hfile)

section Renames

variable {ε : Type} {w₀ : Workspace} {version : String} {queue : List (Dir × Dir)}
  {rps : List RestorePoint} {s₀ s : WritePhase} {src dst : Dir} {faults : Faults}

theorem Moving.commit (h : Moving version queue rps s) :
    NoLeftovers (s.guard.commit s.disk) := by
  intro d n hn
  rw [WriteRollback.commit, h.points]
  cases n with
  | plain x => cases hn
  | tmp x => exact removeBackups_none _ _ _ _ (h.noTmp d x)
  | bak x k =>
    cases hget : get s.disk d (.bak x k) with
    | none => exact removeBackups_none _ _ _ _ hget
    | some e =>
      obtain ⟨hfile, hmem⟩ := h.backups d x k e hget
      exact removeBackups_bak _ _ _ _ _ hmem (hget ▸ hfile)

theorem Merging.refl (s : WritePhase) : Merging s src dst [] s := by
  refine ⟨rfl, ?_⟩
  rw [List.map_nil, List.append_nil]

theorem Merging.unmoved (h : Merging s₀ src dst [] s) (hun : Unmoved w₀ s₀) : Unmoved w₀ s := by
  refine ⟨?_, ?_⟩
  · rw [h.guard, hun.renames]
    rfl
  · rw [h.guard, h.disk]
    exact hun.undo

/-- **A rename.** It stops where it can be undone, or where an earlier one cannot; once it is done
it can be undone only if the old folder was empty. -/
theorem meets_rename (listing : List Name → List Name) (hlisting : ∀ l, (listing l).Perm l)
    (q : Dir × Dir) (hq : q ∈ queue) :
    Meets (fun s => Moving version queue rps s ∧ (Unmoved w₀ s ∨ Lost w₀ s))
      (renameOldBucketFolder (ε := ε) faults listing q)
      (fun _ s => Moving version queue rps s ∧ (Unmoved w₀ s ∨ Lost w₀ s)) (Exact w₀) := by
  rintro s₀ ⟨hm, hstate⟩
  have htarget := hm.targets q hq
  have hsrc := htarget.src
  have hdst := htarget.dst
  refine ((meets_renameOldBucketFolder listing hlisting hm htarget).conseq (fun _ h => h)
    (fun _ s hs => ?_) fun e s hs => ?_) s₀ (.refl s₀)
  · rcases hs with hs | ⟨names, hs⟩
    · refine ⟨hs.moving hm hsrc hdst (mergeable_nil _), hstate.imp hs.unmoved hs.lost⟩
    · refine ⟨hs.moving hm hsrc hdst, ?_⟩
      rcases hstate with hun | hlost
      · exact (hs.unmoved_or_lost hm hun hsrc hdst).imp And.left And.left
      · exact .inr (hs.lost hlost)
  · obtain ⟨he, done, hable, hfolders, hs⟩ := hs
    rcases hstate with hun | hlost
    · obtain ⟨hres, hthere⟩ := hs.restored hm hun hsrc hdst hfolders hable
      exact iff_of_true hres ⟨he, hthere⟩
    · exact (hs.lost hlost).exact (hs.moving hm hsrc hdst hable) e

theorem meets_rename_unmoved (listing : List Name → List Name)
    (hlisting : ∀ l, (listing l).Perm l) (q : Dir × Dir) (hq : q ∈ queue) :
    Meets (fun s => Moving version queue rps s ∧ Unmoved w₀ s)
      (renameOldBucketFolder (ε := ε) faults listing q)
      (fun _ s => Moving version queue rps s ∧ ((∀ n, get w₀ q.1 n = none) → Unmoved w₀ s))
      (fun _ => Restored w₀) := by
  rintro s₀ ⟨hm, hun⟩
  have htarget := hm.targets q hq
  have hsrc := htarget.src
  have hdst := htarget.dst
  refine ((meets_renameOldBucketFolder listing hlisting hm htarget).conseq (fun _ h => h)
    (fun _ s hs => ?_) fun e s hs => ?_) s₀ (.refl s₀)
  · rcases hs with hs | ⟨names, hs⟩
    · exact ⟨hs.moving hm hsrc hdst (mergeable_nil _), fun _ => hs.unmoved hun⟩
    · refine ⟨hs.moving hm hsrc hdst, fun hempty => ?_⟩
      rcases hs.unmoved_or_lost hm hun hsrc hdst with ⟨hkept, -⟩ | ⟨-, hne⟩
      · exact hkept
      · obtain ⟨n, hn⟩ := List.exists_mem_of_ne_nil _ hne
        have hthere := hs.was_there hm hun hsrc hdst n hn
        rw [hempty n] at hthere
        cases hthere
  · obtain ⟨-, done, hable, hfolders, hs⟩ := hs
    exact (hs.restored hm hun hsrc hdst hfolders hable).1

/-- Old folders that were empty leave nothing behind that cannot be undone. -/
theorem meets_renames_unmoved (listing : List Name → List Name)
    (hlisting : ∀ l, (listing l).Perm l) (l : List (Dir × Dir)) (hl : ∀ q ∈ l, q ∈ queue)
    (hempty : ∀ q ∈ l.dropLast, ∀ n, get w₀ q.1 n = none) :
    Meets (fun s => Moving version queue rps s ∧ Unmoved w₀ s)
      (l.forM (renameOldBucketFolder (ε := ε) faults listing)) (fun _ _ => True)
      (fun _ => Restored w₀) := by
  induction l with
  | nil => exact .pure () fun _ _ => trivial
  | cons q l ih =>
    obtain ⟨hq, hrest⟩ := List.forall_mem_cons.mp hl
    refine (meets_rename_unmoved listing hlisting q hq).bind fun _ => ?_
    cases l with
    | nil => exact .pure () fun _ _ => trivial
    | cons q' l =>
      rw [List.dropLast_cons_cons] at hempty
      obtain ⟨hfirst, hothers⟩ := List.forall_mem_cons.mp hempty
      exact (ih hrest hothers).pre fun s hs => ⟨hs.1, hs.2 hfirst⟩

end Renames

/-! ## The phase -/

section Phase

variable {ε : Type} {w₀ : Workspace} {faults : Faults}

theorem staged_start (version : String) (clock counter : Nat) (hfresh : NoLeftovers w₀) :
    Staged w₀ version [] [] [] (.start w₀ clock counter) where
  tmps_eq := rfl
  unmoved := rfl
  queue_eq := rfl
  restored := fun _ _ => rfl
  tmps d name e he := by
    exact absurd (he.symm.trans (hfresh d (.tmp name) rfl)) (Option.some_ne_none e)
  backups d name k e he := by
    exact absurd (he.symm.trans (hfresh d (.bak name k) rfl)) (Option.some_ne_none e)
  fresh rp hrp := absurd hrp List.not_mem_nil
  finals rp hrp := absurd hrp List.not_mem_nil
  targets q hq := absurd hq List.not_mem_nil
  promoted f hf := absurd hf List.not_mem_nil

/-- Every bucket is written, then the folders are merged. -/
theorem meets_writeAll (req : WriteRequest ε) (clock counter : Nat) (hfresh : NoLeftovers w₀)
    {Q : WritePhase → Prop} {E : WriteError ε → WritePhase → Prop}
    (hstaged : ∀ e s, Stopped faults w₀ e s → E e s)
    (hrenames : ∀ rps, Meets (fun s => Moving req.version req.renames rps s ∧ Unmoved w₀ s)
      (req.renames.forM (renameOldBucketFolder faults req.listing)) (fun _ => Q) E) :
    Meets (fun s => s = .start w₀ clock counter) (writeAll faults req) (fun _ => Q) E := by
  refine Meets.bind (Q := fun _ => Staged w₀ req.version req.renames [] []) ?_ fun _ => ?_
  · have hbuckets : Meets (Staged w₀ req.version [] [] [])
        (req.buckets.forM (writeBucket faults req)) _ (Stopped faults w₀) :=
      meets_writeBuckets req req.buckets hfresh
    refine hbuckets.conseq (fun s hs => ?_) (fun _ s hs => hs) fun e s hs => hstaged e s hs
    rw [hs]
    exact staged_start req.version clock counter hfresh
  refine (meets_gets _).bind fun renames => ?_
  rintro s ⟨hs, hqueue⟩
  obtain rfl : renames = req.renames := hqueue.trans hs.queue_eq
  exact hrenames s.guard.restorePoints s ⟨hs.moving, hs.unmoved, hs.restored⟩

/-- **Compose.** A success leaves no temporary file and no backup. A failure leaves the files that
were there exactly when the guard knows every file and no folder is gone that entries were moved
out of. That is so when no write, sync or copy leaves part of a file and all old folders but the
last are empty. -/
theorem write_phase_atomic (faults : Faults) (req : WriteRequest ε) (w₀ : Workspace)
    (clock counter : Nat) (hfresh : NoLeftovers w₀) :
    (∀ s, writeAll faults req (.start w₀ clock counter) = (.ok (), s) →
      NoLeftovers (writePhase faults req (.start w₀ clock counter)).2) ∧
    ∀ e s, writeAll faults req (.start w₀ clock counter) = (.error e, s) →
      (Same (writePhase faults req (.start w₀ clock counter)).2 w₀ ↔ Undoable e s) ∧
      (Reliable faults → (∀ q ∈ req.renames.dropLast, ∀ n, get w₀ q.1 n = none) →
        Same (writePhase faults req (.start w₀ clock counter)).2 w₀) := by
  have hall : Meets (fun s => s = .start w₀ clock counter) (writeAll faults req)
      (fun _ s => NoLeftovers (s.guard.commit s.disk)) (Exact w₀) :=
    meets_writeAll req clock counter hfresh (fun e s h => h.exact)
      (fun rps => (Meets.forM _ fun q hq => meets_rename req.listing req.listing_perm q hq).conseq
        (fun _ hs => ⟨hs.1, .inl hs.2⟩) (fun _ _ hs => hs.1.commit) fun _ _ hs => hs)
  have hexact := hall _ rfl
  refine ⟨fun s hrun => ?_, fun e s hrun => ?_⟩
  · rw [hrun] at hexact
    rw [writePhase, hrun]
    exact hexact
  · rw [hrun] at hexact
    rw [writePhase, hrun]
    refine ⟨hexact, fun hreliable hempty => ?_⟩
    have hall : Meets (fun s => s = .start w₀ clock counter) (writeAll faults req)
        (fun _ _ => True) (fun _ => Restored w₀) :=
      meets_writeAll req clock counter hfresh
        (fun e s h => h.exact.mpr ⟨h.reliable hreliable, fun r hr => by
          rw [h.unmoved] at hr
          cases hr⟩)
        (fun rps => meets_renames_unmoved req.listing req.listing_perm req.renames
          (fun _ hq => hq) hempty)
    have hundone := hall _ rfl
    rw [hrun] at hundone
    exact hundone

end Phase

/-! ## A write that fails -/

def oneBucket : WriteRequest Unit where
  version := "V1"
  forceOverwrite := false
  pendingCompatible := fun _ _ => true
  listing := id
  listing_perm := fun _ => .refl _
  buckets := [.ok ⟨⟨"main", "shop"⟩, [1], [2], [3], [4], []⟩]

/-- The fourth operation is the first write. -/
def diskFull : Faults := fun n op => if n = 3 ∧ op = .write then some none else none

def emptyDisk : Workspace := fun _ => none

/-- **A temporary file stays.** It is created before the guard knows of it. -/
theorem tmp_left_behind : NoLeftovers emptyDisk ∧
    get (writePhase diskFull oneBucket (.start emptyDisk 0 0)).2
      (bucketDir ⟨"main", "shop"⟩) (.tmp (upFilename "V1")) = some (.file []) ∧
    ¬Same (writePhase diskFull oneBucket (.start emptyDisk 0 0)).2 emptyDisk := by
  have hleft : get (writePhase diskFull oneBucket (.start emptyDisk 0 0)).2
      (bucketDir ⟨"main", "shop"⟩) (.tmp (upFilename "V1")) = some (.file []) := by
    decide +kernel
  refine ⟨fun _ _ _ => rfl, hleft, fun hsame => ?_⟩
  rw [hsame] at hleft
  cases hleft

/-! ## A run that is taken back -/

/-- The app `billing` is now called `shop`. -/
def renamedBucket : WriteRequest Unit :=
  { oneBucket with buckets := [.ok ⟨⟨"main", "shop"⟩, [1], [2], [3], [4], ["billing"]⟩] }

/-- There are the old folder and a pending file of the new label. -/
def billingDisk : Workspace := fun d =>
  if d = bucketDir ⟨"main", "billing"⟩ then
    some (.ofList [(.plain (upFilename "V0"), .file [5]), (.plain (downFilename "V0"), .file [6])])
  else if d = .pending "main" then some (.ofList [(.plain (pendingJsonFilename "shop"), .file [7])])
  else none

/-- No directory can be removed. -/
def folderHeld : Faults := fun _ op => if op = .removeDir then some none else none

/-- Four files were written, one over an older one, and two entries were moved. -/
def heldBack : Except (WriteError Unit) Unit × WritePhase → Bool
  | (.error (.io .removeDir none), s) =>
    s.guard.restorePoints.map RestorePoint.backup = [none, none, none, some 0] &&
      s.guard.entryRenames.length = 2
  | _ => false

/-- The old folder cannot be removed: the moved entries and the pending file are put back. -/
theorem write_phase_atomic_billing :
    heldBack (writeAll folderHeld renamedBucket (.start billingDisk 0 0)) = true ∧
      Same (writePhase folderHeld renamedBucket (.start billingDisk 0 0)).2 billingDisk := by
  have hheld : heldBack (writeAll folderHeld renamedBucket (.start billingDisk 0 0)) = true := by
    decide +kernel
  have hfresh : NoLeftovers billingDisk := by
    intro d n hn
    have hplain : ∀ d' ∈ [bucketDir ⟨"main", "billing"⟩, .pending "main"],
        (billingDisk d').all fun m => m.keys.all Name.isPlain := by decide +kernel
    have hnone (m : OrdMap Name Entry) (hm : m.keys.all Name.isPlain = true) : m.get n = none := by
      refine (OrdMap.get_eq_none_iff _ _).mpr fun hmem => ?_
      rw [List.all_eq_true.mp hm n hmem] at hn
      cases hn
    by_cases hd : d ∈ [bucketDir ⟨"main", "billing"⟩, .pending "main"]
    · rw [Folders.get]
      cases hm : billingDisk d with
      | none => rfl
      | some m =>
        have hall := hplain d hd
        rw [hm] at hall
        exact hnone m hall
    · simp only [List.mem_cons, List.not_mem_nil, or_false, not_or] at hd
      rw [Folders.get, billingDisk, if_neg hd.1, if_neg hd.2]
      rfl
  have hreliable : Reliable folderHeld := ⟨fun _ => rfl, fun _ => rfl, fun _ _ h => by cases h⟩
  refine ⟨hheld, ?_⟩
  cases hrun : writeAll folderHeld renamedBucket (.start billingDisk 0 0) with
  | mk out s =>
    cases out with
    | ok _ =>
      rw [hrun] at hheld
      cases hheld
    | error e =>
      refine ((write_phase_atomic folderHeld renamedBucket billingDisk 0 0 hfresh).2 e s hrun).2
        hreliable fun q hq => ?_
      rw [show renamedBucket.renames.dropLast = [] from rfl] at hq
      cases hq

end Djogi

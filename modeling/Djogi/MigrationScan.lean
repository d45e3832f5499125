import Djogi.Naming
import Djogi.WritePhase

/-!
# Scan of a migration folder

The body of `scan_filesystem_with_files` for one bucket (`migrate/target.rs`) and the version ids
it finds there.

* `candidate_up`, `candidate_down`: how the two files of a version are classified;
* `scanBucket_ok`: a folder with just the two files of each version gives these versions;
* `versionOf_isVersion`: version ids from instants and names are recovered by the scan;
* `namesSurvive_iff`: when a set of instants and names is written, read and sorted back.
-/

namespace Djogi

/-! ## File names -/

def endsWith (name suffix : String) : Bool := suffix.toList.isSuffixOf name.toList

def dropExtension (name ext : String) : String :=
  String.ofList (name.toList.take (name.toList.length - ext.toList.length))

/-- `Path::extension` of a file name: what follows the last dot, if that is not in front. -/
def extension (name : String) : Option String :=
  let back := name.toList.reverse.takeWhile (· ≠ '.')
  if back.length + 1 < name.toList.length then some (String.ofList back.reverse) else none

def recoverVersionChars : List Char → Bool
  | 'V' :: rest =>
      if (rest.takeWhile Char.isDigit).isEmpty then false
      else
        let slug := rest.dropWhile Char.isDigit
        slug.isEmpty || ['_', '_'].isPrefixOf slug
  | _ => false

def recoverVersionFromStem (stem : String) : Option String :=
  if recoverVersionChars stem.toList then some stem else none

/-! ## The scan -/

/-- A file in the folder of a bucket. -/
abbrev FilePath := Dir × String

inductive ScanError
  | legacyDown (name : String)
  | duplicateVersion (version : String) (paths : List FilePath)
  | legacyUp (version : String) (path : FilePath)

/-- The version that a file name stands for, if any. -/
def candidate (name : String) : Except ScanError (Option String) :=
  if name.toList.head? ≠ some 'V' then .ok none
  else if endsWith name ".down.sdjql" then .ok none
  else if endsWith name ".down.sql" then .error (.legacyDown name)
  else if endsWith name ".sdjql" then .ok (recoverVersionFromStem (dropExtension name ".sdjql"))
  else if endsWith name ".sql" then .ok (recoverVersionFromStem (dropExtension name ".sql"))
  else .ok none

abbrev Candidates := OrdMap String (List FilePath)

/-- The loop over the entries; a name that is not UTF-8 is skipped. -/
def collect (dir : Dir) : List (Option String) → Candidates → Except ScanError Candidates
  | [], found => .ok found
  | none :: entries, found => collect dir entries found
  | some name :: entries, found =>
      (candidate name).bind fun version =>
        collect dir entries (version.elim found fun version => found.push version (dir, name))

/-- The order in which a hash map is gone through. -/
structure HashOrder where
  iterate : List (String × List FilePath) → List (String × List FilePath)
  perm : ∀ l, (iterate l).Perm l

def checkDuplicate (e : String × List FilePath) : Except ScanError Unit :=
  if 1 < e.2.length then .error (.duplicateVersion e.1 e.2) else .ok ()

/-- The first path of a version, which is not a legacy file. -/
def pickPath (e : String × List FilePath) : Except ScanError (List (String × FilePath)) :=
  match e.2 with
  | [] => .ok []
  | path :: _ =>
      if extension path.2 = some "sql" then .error (.legacyUp e.1 path) else .ok [(e.1, path)]

def scanBucket (order : HashOrder) (dir : Dir) (entries : List (Option String)) :
    Except ScanError (OrdMap String FilePath) := do
  let candidates ← collect dir entries OrdMap.empty
  (order.iterate candidates.entries).forM checkDuplicate
  let picked ← (order.iterate candidates.entries).mapM pickPath
  pure (OrdMap.ofList picked.flatten)

/-! ## Names of a version's files -/

/-- A version id that a scan recovers from its file. -/
structure IsVersion (v : String) : Prop where
  recovered : recoverVersionChars v.toList = true
  dotless : '.' ∉ v.toList

theorem isVersion_head (v : String) (h : IsVersion v) : v.toList.head? = some 'V' := by
  have hrecovered := h.recovered
  unfold recoverVersionChars at hrecovered
  split at hrecovered
  · rename_i rest heq
    rw [heq]
    rfl
  · cases hrecovered

theorem upFilename_toList (v : String) :
    (upFilename v).toList = v.toList ++ ['.', 's', 'd', 'j', 'q', 'l'] := String.toList_append

theorem downFilename_toList (v : String) :
    (downFilename v).toList = v.toList ++ ['.', 'd', 'o', 'w', 'n'] ++
      ['.', 's', 'd', 'j', 'q', 'l'] := by
  unfold downFilename
  rw [String.toList_append, List.append_assoc]
  rfl

theorem candidate_up (v : String) (h : IsVersion v) : candidate (upFilename v) = .ok (some v) := by
  have hhead := isVersion_head v h
  have hup : (upFilename v).toList.head? = some 'V' := by
    rw [upFilename_toList, List.head?_append, hhead]
    rfl
  have hdown : endsWith (upFilename v) ".down.sdjql" = false := by
    rw [endsWith, Bool.eq_false_iff, Ne, List.isSuffixOf_iff_suffix, upFilename_toList]
    rintro ⟨front, hfront⟩
    have hsplit : front ++ ['.', 'd', 'o', 'w', 'n'] ++ ['.', 's', 'd', 'j', 'q', 'l'] =
        v.toList ++ ['.', 's', 'd', 'j', 'q', 'l'] := by
      rw [← hfront, List.append_assoc]
      rfl
    apply h.dotless
    rw [← List.append_cancel_right hsplit]
    simp
  have hlegacy : endsWith (upFilename v) ".down.sql" = false := by
    rw [endsWith, Bool.eq_false_iff, Ne, List.isSuffixOf_iff_suffix, upFilename_toList]
    rintro ⟨front, hfront⟩
    have hthird := congrArg (fun l => l.reverse[2]?) hfront
    simp at hthird
  have hcurrent : endsWith (upFilename v) ".sdjql" = true := by
    rw [endsWith, List.isSuffixOf_iff_suffix, upFilename_toList]
    exact List.suffix_append _ _
  have hstem : dropExtension (upFilename v) ".sdjql" = v := by
    rw [dropExtension, upFilename_toList]
    simp
  unfold candidate
  rw [if_neg (by simp [hup]), hdown, hlegacy, hcurrent, hstem, recoverVersionFromStem,
    if_pos h.recovered]
  rfl

theorem candidate_down (v : String) : candidate (downFilename v) = .ok none := by
  have hdown : endsWith (downFilename v) ".down.sdjql" = true := by
    rw [endsWith, List.isSuffixOf_iff_suffix, downFilename_toList, List.append_assoc]
    exact List.suffix_append _ _
  unfold candidate
  rw [hdown]
  split <;> rfl

theorem candidate_other (name : String) (h : name.toList.head? ≠ some 'V') :
    candidate name = .ok none := if_pos h

theorem upFilename_inj (v w : String) (h : upFilename v = upFilename w) : v = w := by
  have hlist := congrArg String.toList h
  rw [upFilename_toList, upFilename_toList] at hlist
  exact String.toList_inj.mp (List.append_cancel_right hlist)

theorem extension_up (v : String) (h : IsVersion v) :
    extension (upFilename v) = some "sdjql" := by
  have hne : v.toList ≠ [] := by
    intro hnil
    have hhead := isVersion_head v h
    rw [hnil] at hhead
    cases hhead
  have hlength := List.length_pos_iff.mpr hne
  unfold extension
  rw [upFilename_toList]
  simp [hlength]

/-! ## Candidates -/

/-- The version of a name, when the scan does not stop there. -/
def candidateOf (name : String) : Option String := (candidate name).toOption.join

/-- The files of a version among the entries. -/
def filesOf (dir : Dir) (k : String) (entries : List (Option String)) : List FilePath :=
  ((entries.filterMap id).filter fun name => candidateOf name = some k).map fun name => (dir, name)

def nonEmpty (l : List FilePath) : Option (List FilePath) := if l = [] then none else some l

theorem filesOf_append (dir : Dir) (k : String) (a b : List (Option String)) :
    filesOf dir k (a ++ b) = filesOf dir k a ++ filesOf dir k b := by
  simp [filesOf]

theorem collect_ok (dir : Dir) (entries done : List (Option String)) (found : Candidates)
    (hok : ∀ name, some name ∈ entries → ∃ version, candidate name = .ok version)
    (hfound : ∀ k, found.get k = nonEmpty (filesOf dir k done)) :
    ∃ m, collect dir entries found = .ok m ∧
      ∀ k, m.get k = nonEmpty (filesOf dir k (done ++ entries)) := by
  induction entries generalizing done found with
  | nil => exact ⟨found, rfl, by simpa using hfound⟩
  | cons entry entries ih =>
    have hrest (name : String) (hname : some name ∈ entries) :=
      hok name (List.mem_cons_of_mem _ hname)
    rw [show done ++ entry :: entries = (done ++ [entry]) ++ entries by simp]
    cases entry with
    | none =>
      refine ih (done ++ [none]) found hrest fun k => ?_
      rw [hfound, filesOf_append]
      simp [filesOf]
    | some name =>
      obtain ⟨version, hversion⟩ := hok name List.mem_cons_self
      rw [collect, hversion]
      refine ih (done ++ [some name]) _ hrest fun k => ?_
      have hof : candidateOf name = version := by
        unfold candidateOf
        rw [hversion]
        cases version <;> rfl
      rw [filesOf_append]
      cases version with
      | none =>
        have hnone : filesOf dir k [some name] = [] := by simp [filesOf, hof]
        rw [hnone, List.append_nil]
        exact hfound k
      | some v =>
        dsimp only [Option.elim]
        rw [OrdMap.push, OrdMap.get_insert]
        by_cases hk : k = v
        · obtain rfl := hk
          have hone : filesOf dir k [some name] = [(dir, name)] := by simp [filesOf, hof]
          rw [if_pos rfl, hone, hfound]
          cases hdone : filesOf dir k done with
          | nil => rfl
          | cons path paths => rfl
        · have hnone : filesOf dir k [some name] = [] := by simp [filesOf, hof, Ne.symm hk]
          rw [if_neg hk, hnone, List.append_nil]
          exact hfound k

/-- The folder holds just the two files of each version, and files that the scan passes over. -/
structure HoldsVersions (versions : List String) (entries : List (Option String)) : Prop where
  nodup : (entries.filterMap id).Nodup
  holds : ∀ name, name.toList.head? = some 'V' →
    (some name ∈ entries ↔ ∃ v ∈ versions, name = upFilename v ∨ name = downFilename v)

theorem candidate_of_holds (versions : List String) (entries : List (Option String))
    (h : HoldsVersions versions entries) (hversions : ∀ v ∈ versions, IsVersion v)
    (name : String) (hname : some name ∈ entries) :
    candidate name = .ok none ∨ ∃ v ∈ versions, name = upFilename v ∧
      candidate name = .ok (some v) := by
  by_cases hhead : name.toList.head? = some 'V'
  · obtain ⟨v, hv, rfl | rfl⟩ := (h.holds name hhead).mp hname
    · exact .inr ⟨v, hv, rfl, candidate_up v (hversions v hv)⟩
    · exact .inl (candidate_down v)
  · exact .inl (candidate_other name hhead)

theorem filesOf_of_holds (dir : Dir) (versions : List String) (entries : List (Option String))
    (h : HoldsVersions versions entries) (hversions : ∀ v ∈ versions, IsVersion v) (k : String) :
    filesOf dir k entries = if k ∈ versions then [(dir, upFilename k)] else [] := by
  have hmem (name : String) : name ∈ (entries.filterMap id).filter
      (fun name => candidateOf name = some k) ↔ k ∈ versions ∧ name = upFilename k := by
    rw [List.mem_filter, decide_eq_true_eq]
    constructor
    · rintro ⟨hname, hcandidate⟩
      have hentry : some name ∈ entries := by simpa using hname
      rcases candidate_of_holds versions entries h hversions name hentry with hnone | hsome
      · rw [candidateOf, hnone] at hcandidate
        cases hcandidate
      · obtain ⟨v, hv, rfl, hsome⟩ := hsome
        rw [candidateOf, hsome] at hcandidate
        obtain rfl : v = k := Option.some.inj hcandidate
        exact ⟨hv, rfl⟩
    · rintro ⟨hk, rfl⟩
      have hup := candidate_up k (hversions k hk)
      have hhead : (upFilename k).toList.head? = some 'V' := by
        rw [upFilename_toList, List.head?_append, isVersion_head k (hversions k hk)]
        rfl
      have hentry := (h.holds _ hhead).mpr ⟨k, hk, .inl rfl⟩
      refine ⟨by simpa using hentry, ?_⟩
      rw [candidateOf, hup]
      rfl
  have hnodup := h.nodup.filter fun name => decide (candidateOf name = some k)
  unfold filesOf
  split
  · rename_i hk
    have hperm : ((entries.filterMap id).filter
        fun name => decide (candidateOf name = some k)).Perm [upFilename k] := by
      rw [List.perm_ext_iff_of_nodup hnodup (List.nodup_singleton _)]
      intro name
      rw [hmem, List.mem_singleton]
      exact and_iff_right hk
    rw [List.perm_singleton.mp hperm]
    rfl
  · rename_i hk
    rw [List.map_eq_nil_iff, List.eq_nil_iff_forall_not_mem]
    exact fun name hname => hk ((hmem name).mp hname).1

/-- **Scan.** A folder with just the two files of each version gives these versions. -/
theorem scanBucket_ok (order : HashOrder) (dir : Dir) (versions : List String)
    (entries : List (Option String)) (h : HoldsVersions versions entries)
    (hversions : ∀ v ∈ versions, IsVersion v) :
    ∃ m, scanBucket order dir entries = .ok m ∧
      ∀ v, m.get v = if v ∈ versions then some (dir, upFilename v) else none := by
  obtain ⟨found, hcollect, hfound⟩ := collect_ok dir entries [] OrdMap.empty
    (fun name hname => by
      rcases candidate_of_holds versions entries h hversions name hname with hnone | hsome
      · exact ⟨none, hnone⟩
      · obtain ⟨v, -, -, hsome⟩ := hsome
        exact ⟨some v, hsome⟩)
    (fun k => rfl)
  have hentry (e : String × List FilePath) :
      e ∈ order.iterate found.entries ↔ e.1 ∈ versions ∧ e.2 = [(dir, upFilename e.1)] := by
    rw [(order.perm _).mem_iff, OrdMap.mem_entries_iff, hfound, List.nil_append,
      filesOf_of_holds dir versions entries h hversions]
    split
    · rename_i hk
      simp [nonEmpty, hk, eq_comm]
    · rename_i hk
      simp [nonEmpty, hk]
  have hdup : (order.iterate found.entries).forM checkDuplicate = .ok () := by
    refine (Fallible.forM_ok_iff _ _).mpr fun e he => ?_
    rw [checkDuplicate, ((hentry e).mp he).2]
    rfl
  have hpick : (order.iterate found.entries).mapM pickPath =
      .ok ((order.iterate found.entries).map fun e => [(e.1, (dir, upFilename e.1))]) := by
    refine (Fallible.mapM_ok_iff _ _ _).mpr ?_
    rw [List.forall₂_map_right_iff, List.forall₂_same]
    intro e he
    obtain ⟨hv, hpath⟩ := (hentry e).mp he
    have hext := extension_up e.1 (hversions e.1 hv)
    rw [pickPath, hpath]
    dsimp only
    rw [hext]
    rfl
  refine ⟨OrdMap.ofList (((order.iterate found.entries).map
    fun e => [(e.1, (dir, upFilename e.1))]).flatten), ?_, fun v => ?_⟩
  · unfold scanBucket
    rw [hcollect]
    change ((order.iterate found.entries).forM checkDuplicate >>= fun _ => _) = _
    rw [hdup]
    change ((order.iterate found.entries).mapM pickPath >>= fun picked => _) = _
    rw [hpick]
    rfl
  · have hflat : ((order.iterate found.entries).map
        fun e => [(e.1, (dir, upFilename e.1))]).flatten =
        (order.iterate found.entries).map fun e => (e.1, (dir, upFilename e.1)) := by
      induction order.iterate found.entries with
      | nil => rfl
      | cons e es ih => rw [List.map_cons, List.flatten_cons, ih]; rfl
    have hkeys : (((order.iterate found.entries).map
        fun e => (e.1, (dir, upFilename e.1))).map Prod.fst).Nodup := by
      rw [List.map_map]
      exact ((order.perm _).map Prod.fst).nodup_iff.mpr found.keys_nodup
    rw [hflat, OrdMap.get_ofList_of_nodup _ hkeys]
    apply Option.ext
    intro path
    rw [OrdMap.lookupIn_eq_some_iff _ hkeys, List.mem_map]
    constructor
    · rintro ⟨e, he, heq⟩
      cases heq
      rw [if_pos ((hentry e).mp he).1]
    · intro hpath
      split at hpath
      · rename_i hv
        rw [← Option.some.inj hpath]
        exact ⟨(v, [(dir, upFilename v)]), (hentry _).mpr ⟨hv, rfl⟩, rfl⟩
      · cases hpath

/-! ## Version ids -/

open Calendar Decimal

theorem lastDigits_isDigit (width n : ℕ) : ∀ c ∈ lastDigits width n, c.isDigit = true := by
  induction width generalizing n with
  | zero => simp [lastDigits]
  | succ width ih =>
    intro c hc
    rcases List.mem_append.mp hc with hc | hc
    · exact ih (n / 10) c hc
    · have hdigit : ∀ d < 10, (Nat.digitChar d).isDigit = true := by decide
      rw [List.mem_singleton.mp hc]
      exact hdigit _ (Nat.mod_lt n (by omega))

/-- The instant has a version id: its year in UTC is one of the type's. -/
def InRange (instant : OffsetDateTime) : Prop :=
  -9999 ≤ instant.utc.year ∧ instant.utc.year ≤ 9999

theorem versionOf_eq (instant : OffsetDateTime) (name : String) (h : InRange instant) :
    versionOf instant name =
      some (String.ofList ('V' :: versionTail instant.utc (sanitizeChars name.toList))) := by
  have hutc : instant.toUtc = some instant.utc := if_pos h
  rw [versionOf, versionPrefix, hutc]
  simp only [Option.map_some, versionId, sanitizeSlug]
  congr 1
  rw [← String.toList_inj, String.toList_append, String.toList_append]
  simp [versionPrefix_eq _ (utc_spec instant).1, versionTail]

theorem versionOf_isSome (instant : OffsetDateTime) (name : String) (v : String)
    (h : versionOf instant name = some v) : InRange instant := by
  by_contra hrange
  have hutc : instant.toUtc = none := if_neg hrange
  rw [versionOf, versionPrefix, hutc] at h
  cases h

theorem versionOf_isVersion (instant : OffsetDateTime) (name v : String)
    (h : versionOf instant name = some v) : IsVersion v := by
  have hrange := versionOf_isSome instant name v h
  rw [versionOf_eq instant name hrange] at h
  rw [← Option.some.inj h]
  set year := pad 4 (yearAsU32 instant.utc.year) with hyear
  have hdigits : ∀ c ∈ year ++ lastDigits 10 instant.utc.stamp, c.isDigit = true := by
    rw [hyear, yearChars_eq _ hrange]
    intro c hc
    rcases List.mem_append.mp hc with hc | hc
    · split at hc
      · exact lastDigits_isDigit _ _ c hc
      · exact lastDigits_isDigit _ _ c hc
    · exact lastDigits_isDigit _ _ c hc
  have hslug := sanitizeChars_isSlug name.toList
  have htail : versionTail instant.utc (sanitizeChars name.toList) =
      (year ++ lastDigits 10 instant.utc.stamp) ++ ('_' :: '_' :: sanitizeChars name.toList) := by
    rw [List.append_assoc]
    rfl
  constructor
  · rw [String.toList_ofList, recoverVersionChars, htail, List.takeWhile_append_of_pos hdigits,
      List.dropWhile_append_of_pos hdigits]
    have hne : (year ++ lastDigits 10 instant.utc.stamp) ≠ [] := by
      intro hnil
      have hlength := congrArg List.length hnil
      rw [List.length_append, lastDigits_length] at hlength
      simp at hlength
    rw [if_neg (by simp [hne])]
    rfl
  · rw [String.toList_ofList, htail]
    intro hdot
    rcases List.mem_cons.mp hdot with hdot | hdot
    · cases hdot
    · rcases List.mem_append.mp hdot with hdot | hdot
      · cases hdigits '.' hdot
      · rcases List.mem_cons.mp hdot with hdot | hdot
        · cases hdot
        · rcases List.mem_cons.mp hdot with hdot | hdot
          · cases hdot
          · cases hslug.chars '.' hdot

/-- Version ids of two instants are ordered by time, but for a year before our era with a year
from 0 to 4294. -/
theorem versionOf_lt_iff (a b : OffsetDateTime × String) (v w : String)
    (hv : versionOf a.1 a.2 = some v) (hw : versionOf b.1 b.2 = some w)
    (h : a.1.seconds ≠ b.1.seconds) :
    (v < w ↔ a.1.seconds < b.1.seconds) ↔
      (a.1.utc.year < 0 → 0 ≤ b.1.utc.year → 4295 ≤ b.1.utc.year) ∧
      (b.1.utc.year < 0 → 0 ≤ a.1.utc.year → 4295 ≤ a.1.utc.year) := by
  have ha := versionOf_isSome _ _ _ hv
  have hb := versionOf_isSome _ _ _ hw
  obtain ⟨havalid, haseconds⟩ := utc_spec a.1
  obtain ⟨hbvalid, hbseconds⟩ := utc_spec b.1
  rw [versionOf_eq _ _ ha] at hv
  rw [versionOf_eq _ _ hb] at hw
  rw [← haseconds, ← hbseconds] at h
  rw [← Option.some.inj hv, ← Option.some.inj hw, String.lt_iff_toList_lt, String.toList_ofList,
    String.toList_ofList, List.cons_lt_cons_iff, ← haseconds, ← hbseconds,
    ← versionTail_lt_iff _ _ havalid hbvalid (sanitizeChars a.2.toList) (sanitizeChars b.2.toList)
      ha hb h]
  simp

/-! ## Sets of instants and names -/

def versionsOf (l : List (OffsetDateTime × String)) : List String :=
  l.filterMap fun p => versionOf p.1 p.2

/-- What holds of a set of instants and names whose migrations are written and read back. -/
structure NamesSurvive (l : List (OffsetDateTime × String)) : Prop where
  slugs : ∀ p ∈ l, IsSlug (sanitizeSlug p.2).toList ∧
    sanitizeSlug (sanitizeSlug p.2) = sanitizeSlug p.2
  named : ∀ p ∈ l, ∃ v, versionOf p.1 p.2 = some v
  scanned : ∀ order dir entries, HoldsVersions (versionsOf l) entries →
    ∃ m, scanBucket order dir entries = .ok m ∧
      ∀ v, m.get v = if v ∈ versionsOf l then some (dir, upFilename v) else none
  sorted : ∀ a ∈ l, ∀ b ∈ l, a.1.seconds ≠ b.1.seconds →
    ∀ v w, versionOf a.1 a.2 = some v → versionOf b.1 b.2 = some w →
      (v < w ↔ a.1.seconds < b.1.seconds)

/-- Years in UTC are years of the type, and a year before our era comes with none from 0 to
4294. -/
structure YearsInRange (l : List (OffsetDateTime × String)) : Prop where
  range : ∀ p ∈ l, InRange p.1
  era : ∀ a ∈ l, ∀ b ∈ l, a.1.utc.year < 0 → 0 ≤ b.1.utc.year → 4295 ≤ b.1.utc.year

/-- **Migration names** survive the filesystem and sort by time for just these sets. -/
theorem namesSurvive_iff (l : List (OffsetDateTime × String)) :
    NamesSurvive l ↔ YearsInRange l := by
  constructor
  · intro h
    refine ⟨fun p hp => ?_, fun a ha b hb hneg hpos => ?_⟩
    · obtain ⟨v, hv⟩ := h.named p hp
      exact versionOf_isSome _ _ v hv
    · obtain ⟨v, hv⟩ := h.named a ha
      obtain ⟨w, hw⟩ := h.named b hb
      obtain ⟨havalid, haseconds⟩ := utc_spec a.1
      obtain ⟨hbvalid, hbseconds⟩ := utc_spec b.1
      have hlt := seconds_lt_of_year _ _ havalid hbvalid (by omega)
      have hne : a.1.seconds ≠ b.1.seconds := by omega
      exact ((versionOf_lt_iff a b v w hv hw hne).mp (h.sorted a ha b hb hne v w hv hw)).1 hneg hpos
  · intro h
    refine ⟨fun p _ => ⟨?_, sanitize_idempotent p.2⟩,
      fun p hp => ⟨_, versionOf_eq p.1 p.2 (h.range p hp)⟩, fun order dir entries hentries => ?_,
      fun a ha b hb hne v w hv hw => ?_⟩
    · rw [sanitizeSlug, String.toList_ofList]
      exact sanitizeChars_isSlug _
    · refine scanBucket_ok order dir _ entries hentries fun v hv => ?_
      obtain ⟨p, -, hp⟩ := List.mem_filterMap.mp hv
      exact versionOf_isVersion p.1 p.2 v hp
    · exact (versionOf_lt_iff a b v w hv hw hne).mpr ⟨h.era a ha b hb, h.era b hb a ha⟩

/-- Midnight of the first day of year zero, an hour east of Greenwich. -/
def firstMidnight : OffsetDateTime where
  localTime := ⟨0, 1, 0, 0, 0⟩
  offset := 3600
  valid := ⟨by decide, by decide, by decide, by decide⟩
  offset_range := by decide

/-- A moment of 2026 in UTC. -/
def laterMoment : OffsetDateTime where
  localTime := ⟨2026, 115, 1, 2, 3⟩
  offset := 0
  valid := ⟨by decide, by decide, by decide, by decide⟩
  offset_range := by decide

/-- The first of these is earlier, and its version id later. -/
theorem years_wrap_out_of_order : ¬ ∀ l : List (OffsetDateTime × String),
    (∀ p ∈ l, 0 ≤ p.1.localTime.year ∧ p.1.localTime.year ≤ 9999) → NamesSurvive l := by
  intro hall
  have hsurvive := hall [(firstMidnight, "a"), (laterMoment, "b")] (by decide)
  have hfirst := versionOf_eq firstMidnight "a" (by unfold InRange; decide)
  have hlater := versionOf_eq laterMoment "b" (by unfold InRange; decide)
  have hne : firstMidnight.seconds ≠ laterMoment.seconds := by decide
  have horder := hsurvive.sorted (firstMidnight, "a") (by simp) (laterMoment, "b") (by simp) hne
    _ _ hfirst hlater
  have hera := ((versionOf_lt_iff (firstMidnight, "a") (laterMoment, "b") _ _ hfirst hlater
    hne).mp horder).1 (by decide) (by decide)
  revert hera
  decide

end Djogi

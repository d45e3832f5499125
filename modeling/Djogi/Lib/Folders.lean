import Mathlib.Logic.Function.Basic
import Djogi.Lib.OrdMap

/-!
# Folders

A disk of folders that exist or not, with named entries. An entry can only be in a folder that
exists.

* `get_put`, `get_erase`, `get_move`: what an operation does to each entry;
* `ext_get`: a disk is known by its folders and their entries;
* `move_back`: a move to a free name is undone by the opposite move;
* `moveAll_back`: so are moves of many entries to free names;
* `Local.commute`: changes of different places commute.
-/

namespace Folders

variable {δ ν ε : Type} [DecidableEq δ] [LinearOrder ν]

/-- The entries of each folder that exists. -/
abbrev Disk (δ ν ε : Type) [LinearOrder ν] := δ → Option (OrdMap ν ε)

def get (w : Disk δ ν ε) (d : δ) (n : ν) : Option ε := (w d).bind fun m => m.get n

def put (w : Disk δ ν ε) (d : δ) (n : ν) (e : ε) : Disk δ ν ε :=
  Function.update w d ((w d).map fun m => m.insert n e)

def erase (w : Disk δ ν ε) (d : δ) (n : ν) : Disk δ ν ε :=
  Function.update w d ((w d).map fun m => m.erase n)

/-- Rename an entry, over whatever has the new name. -/
def move (w : Disk δ ν ε) (d : δ) (n : ν) (d' : δ) (n' : ν) : Disk δ ν ε :=
  match get w d n with
  | none => w
  | some e => put (erase w d n) d' n' e

omit [DecidableEq δ] in
theorem exists_of_get (w : Disk δ ν ε) (d : δ) (n : ν) (e : ε) (h : get w d n = some e) :
    (w d).isSome = true := by
  rw [get] at h
  cases hd : w d with
  | none => rw [hd] at h; cases h
  | some m => rfl

omit [DecidableEq δ] in
theorem get_none_of_missing (w : Disk δ ν ε) (d : δ) (n : ν) (h : (w d).isSome = false) :
    get w d n = none := by
  rw [Option.isSome_eq_false_iff, Option.isNone_iff_eq_none] at h
  rw [get, h, Option.bind_none]

omit [DecidableEq δ] in
/-- A disk is known by its folders and their entries. -/
theorem ext_get (w w' : Disk δ ν ε) (hd : ∀ d, (w d).isSome = (w' d).isSome)
    (hget : ∀ d n, get w d n = get w' d n) : w = w' := by
  funext d
  have hdd := hd d
  have hgd := hget d
  unfold get at hgd
  cases hw : w d with
  | none =>
    cases hw' : w' d with
    | none => rfl
    | some m' => rw [hw, hw'] at hdd; cases hdd
  | some m =>
    cases hw' : w' d with
    | none => rw [hw, hw'] at hdd; cases hdd
    | some m' =>
      rw [hw, hw'] at hgd
      exact congrArg some (OrdMap.ext_get hgd)

@[simp] theorem isSome_put (w : Disk δ ν ε) (d : δ) (n : ν) (e : ε) (d' : δ) :
    (put w d n e d').isSome = (w d').isSome := by
  rw [put]
  by_cases h : d' = d
  · subst h
    rw [Function.update_self, Option.isSome_map]
  · rw [Function.update_of_ne h]

@[simp] theorem isSome_erase (w : Disk δ ν ε) (d : δ) (n : ν) (d' : δ) :
    (erase w d n d').isSome = (w d').isSome := by
  rw [erase]
  by_cases h : d' = d
  · subst h
    rw [Function.update_self, Option.isSome_map]
  · rw [Function.update_of_ne h]

@[simp] theorem isSome_move (w : Disk δ ν ε) (d : δ) (n : ν) (d' : δ) (n' : ν) (k : δ) :
    (move w d n d' n' k).isSome = (w k).isSome := by
  rw [move]
  cases get w d n <;> simp

theorem get_put_of_ne (w : Disk δ ν ε) (d : δ) (n : ν) (e : ε) (d' : δ) (n' : ν)
    (h : ¬(d' = d ∧ n' = n)) : get (put w d n e) d' n' = get w d' n' := by
  rw [get, put]
  by_cases hd : d' = d
  · subst hd
    rw [Function.update_self]
    cases hm : w d' with
    | none => simp [get, hm]
    | some m =>
      rw [Option.map_some, Option.bind_some, OrdMap.get_insert, get, hm,
        if_neg fun hn => h ⟨rfl, hn⟩]
      rfl
  · rw [Function.update_of_ne hd]
    rfl

theorem get_put_self (w : Disk δ ν ε) (d : δ) (n : ν) (e : ε) (hd : (w d).isSome = true) :
    get (put w d n e) d n = some e := by
  obtain ⟨m, hm⟩ := Option.isSome_iff_exists.mp hd
  rw [get, put, Function.update_self, hm, Option.map_some, Option.bind_some, OrdMap.get_insert,
    if_pos rfl]

theorem get_put (w : Disk δ ν ε) (d : δ) (n : ν) (e : ε) (hd : (w d).isSome = true) (d' : δ)
    (n' : ν) : get (put w d n e) d' n' = if d' = d ∧ n' = n then some e else get w d' n' := by
  split_ifs with h
  · rw [h.1, h.2, get_put_self w d n e hd]
  · exact get_put_of_ne w d n e d' n' h

theorem put_put (w : Disk δ ν ε) (d : δ) (n : ν) (e e' : ε) :
    put (put w d n e) d n e' = put w d n e' := by
  refine ext_get _ _ (fun k => by simp) fun k m => ?_
  by_cases h : k = d ∧ m = n
  · obtain ⟨rfl, rfl⟩ := h
    cases hd : (w k).isSome with
    | true => rw [get_put_self _ _ _ _ (by simpa using hd), get_put_self _ _ _ _ hd]
    | false =>
      rw [get_none_of_missing _ _ _ (by simpa using hd), get_none_of_missing _ _ _ (by simpa using hd)]
  · rw [get_put_of_ne _ _ _ _ _ _ h, get_put_of_ne _ _ _ _ _ _ h, get_put_of_ne _ _ _ _ _ _ h]

theorem get_erase (w : Disk δ ν ε) (d : δ) (n : ν) (d' : δ) (n' : ν) :
    get (erase w d n) d' n' = if d' = d ∧ n' = n then none else get w d' n' := by
  rw [get, erase]
  by_cases h : d' = d
  · subst h
    rw [Function.update_self]
    cases hm : w d' with
    | none => simp [get, hm]
    | some m =>
      rw [Option.map_some, Option.bind_some, OrdMap.get_erase, get, hm]
      by_cases hn : n' = n <;> simp [hn]
  · rw [Function.update_of_ne h, if_neg fun hc => h hc.1]
    rfl

theorem get_move (w : Disk δ ν ε) (d : δ) (n : ν) (d' : δ) (n' : ν) (e : ε)
    (h : get w d n = some e) (hd : (w d').isSome = true) (k : δ) (m : ν) :
    get (move w d n d' n') k m =
      if k = d' ∧ m = n' then some e else if k = d ∧ m = n then none else get w k m := by
  rw [move, h]
  simp only
  rw [get_put _ _ _ _ (by simpa using hd), get_erase]

theorem move_of_none (w : Disk δ ν ε) (d : δ) (n : ν) (d' : δ) (n' : ν)
    (h : get w d n = none) : move w d n d' n' = w := by
  rw [move, h]

/-- **Undo.** A move to a free name is undone by the opposite move. -/
theorem move_back (w : Disk δ ν ε) (d : δ) (n : ν) (d' : δ) (n' : ν) (e : ε)
    (h : get w d n = some e) (hd : (w d').isSome = true) (hfree : get w d' n' = none) :
    move (move w d n d' n') d' n' d n = w := by
  have hback : get (move w d n d' n') d' n' = some e := by
    rw [get_move w d n d' n' e h hd, if_pos ⟨rfl, rfl⟩]
  refine ext_get _ _ (fun k => by simp) fun k m => ?_
  rw [get_move _ _ _ _ _ e hback (by simpa using exists_of_get w d n e h),
    get_move w d n d' n' e h hd]
  by_cases hsrc : k = d ∧ m = n
  · rw [if_pos hsrc, hsrc.1, hsrc.2, h]
  · rw [if_neg hsrc]
    by_cases hdst : k = d' ∧ m = n'
    · rw [if_pos hdst, hdst.1, hdst.2, hfree]
    · rw [if_neg hdst, if_neg hdst, if_neg hsrc]

theorem get_move_of_ne (w : Disk δ ν ε) (d : δ) (n : ν) (d' : δ) (n' : ν) (k : δ) (m : ν)
    (h : ¬(k = d ∧ m = n)) (h' : ¬(k = d' ∧ m = n')) :
    get (move w d n d' n') k m = get w k m := by
  rw [move]
  cases get w d n with
  | none => rfl
  | some e =>
    simp only
    rw [get_put_of_ne _ _ _ _ _ _ h', get_erase, if_neg h]

/-! ## Many moves -/

/-- Move entries from one folder to another under their names. -/
def moveAll (w : Disk δ ν ε) (src dst : δ) (l : List ν) : Disk δ ν ε :=
  l.foldl (fun w n => move w src n dst n) w

section MoveAll

variable {src dst : δ}

@[simp] theorem isSome_moveAll (w : Disk δ ν ε) (l : List ν) (k : δ) :
    (moveAll w src dst l k).isSome = (w k).isSome := by
  induction l generalizing w with
  | nil => rfl
  | cons n l ih => exact (ih (move w src n dst n)).trans (isSome_move w src n dst n k)

theorem get_moveAll_of_notMem (w : Disk δ ν ε) (l : List ν) (k : δ) (m : ν)
    (h : (k = src ∨ k = dst) → m ∉ l) : get (moveAll w src dst l) k m = get w k m := by
  induction l generalizing w with
  | nil => rfl
  | cons n l ih =>
    refine (ih (move w src n dst n) fun hk hm => h hk (List.mem_cons_of_mem _ hm)).trans ?_
    refine get_move_of_ne w src n dst n k m ?_ ?_
    · rintro ⟨hk, rfl⟩
      exact h (.inl hk) List.mem_cons_self
    · rintro ⟨hk, rfl⟩
      exact h (.inr hk) List.mem_cons_self

/-- **Undo.** Moves of entries to free names are undone by the opposite moves in reverse. -/
theorem moveAll_back (w : Disk δ ν ε) (l : List ν) (hnd : l.Nodup)
    (hd : (w dst).isSome = true) (hthere : ∀ n ∈ l, (get w src n).isSome = true)
    (hfree : ∀ n ∈ l, get w dst n = none) :
    moveAll (moveAll w src dst l) dst src l.reverse = w := by
  induction l generalizing w with
  | nil => rfl
  | cons n l ih =>
    obtain ⟨hn, hl⟩ := List.nodup_cons.mp hnd
    have hkept : ∀ k, ∀ m ∈ l, get (move w src n dst n) k m = get w k m := fun k m hm =>
      get_move_of_ne w src n dst n k m (fun hc => hn (hc.2 ▸ hm)) fun hc => hn (hc.2 ▸ hm)
    have hrest := ih (move w src n dst n) hl (by rwa [isSome_move])
      (fun m hm => by rw [hkept src m hm]; exact hthere m (List.mem_cons_of_mem _ hm))
      fun m hm => by rw [hkept dst m hm]; exact hfree m (List.mem_cons_of_mem _ hm)
    obtain ⟨e, he⟩ := Option.isSome_iff_exists.mp (hthere n List.mem_cons_self)
    show (n :: l).reverse.foldl (fun w n => move w dst n src n)
      (moveAll (move w src n dst n) src dst l) = w
    rw [List.reverse_cons, List.foldl_append]
    show move (moveAll (moveAll (move w src n dst n) src dst l) dst src l.reverse) dst n src n = w
    rw [hrest]
    exact move_back w src n dst n e he hd (hfree n List.mem_cons_self)

end MoveAll

/-! ## Places -/

/-- The entries are the same; a folder may be empty on one disk and missing on the other. -/
def Same (w w' : Disk δ ν ε) : Prop := ∀ d n, get w d n = get w' d n

theorem Same.erase (w w' : Disk δ ν ε) (h : Same w w') (d : δ) (n : ν) :
    Same (Folders.erase w d n) (Folders.erase w' d n) := by
  intro k m
  rw [get_erase, get_erase, h k m]

theorem Same.move (w w' : Disk δ ν ε) (h : Same w w') (d : δ) (n : ν) (d' : δ) (n' : ν)
    (hd : (get w d n).isSome = true → (w d').isSome = true ∧ (w' d').isSome = true) :
    Same (Folders.move w d n d' n') (Folders.move w' d n d' n') := by
  intro k m
  cases hsrc : get w d n with
  | none =>
    rw [move_of_none w d n d' n' hsrc, move_of_none w' d n d' n' (h d n ▸ hsrc), h k m]
  | some e =>
    obtain ⟨hw, hw'⟩ := hd (by rw [hsrc]; rfl)
    rw [get_move w d n d' n' e hsrc hw, get_move w' d n d' n' e (h d n ▸ hsrc) hw', h k m]

/-- A change that reads and writes only the given places and creates no folder. -/
structure Local (P : δ → ν → Prop) (f : Disk δ ν ε → Disk δ ν ε) : Prop where
  folders : ∀ w d, (f w d).isSome = (w d).isSome
  outside : ∀ w d n, ¬P d n → get (f w) d n = get w d n
  inside : ∀ w w', (∀ d, (w d).isSome = (w' d).isSome) →
    (∀ d n, P d n → get w d n = get w' d n) → ∀ d n, P d n → get (f w) d n = get (f w') d n

variable {P Q : δ → ν → Prop}

theorem local_erase (d : δ) (n : ν) (h : P d n) : Local (ε := ε) P fun w => erase w d n where
  folders w k := isSome_erase w d n k
  outside w k m hk := by
    rw [get_erase, if_neg]
    rintro ⟨rfl, rfl⟩
    exact hk h
  inside w w' _ hget k m hk := by
    rw [get_erase, get_erase, hget k m hk]

theorem local_move (d : δ) (n : ν) (d' : δ) (n' : ν) (h : P d n) (h' : P d' n') :
    Local (ε := ε) P fun w => move w d n d' n' where
  folders w k := isSome_move w d n d' n' k
  outside w k m hk := by
    refine get_move_of_ne w d n d' n' k m ?_ ?_
    · rintro ⟨rfl, rfl⟩
      exact hk h
    · rintro ⟨rfl, rfl⟩
      exact hk h'
  inside w w' hsome hget k m hk := by
    rw [move, move, ← hget d n h]
    cases hsrc : get w d n with
    | none => exact hget k m hk
    | some e =>
      simp only
      by_cases hm : k = d' ∧ m = n'
      · obtain ⟨rfl, rfl⟩ := hm
        cases hd : (w k).isSome with
        | true =>
          rw [get_put_self _ _ _ _ (by simpa using hd),
            get_put_self _ _ _ _ (by simpa [← hsome] using hd)]
        | false =>
          rw [get_none_of_missing _ _ _ (by simpa using hd),
            get_none_of_missing _ _ _ (by simpa [← hsome] using hd)]
      · rw [get_put_of_ne _ _ _ _ _ _ hm, get_put_of_ne _ _ _ _ _ _ hm, get_erase, get_erase,
          hget k m hk]

omit [DecidableEq δ] in
theorem local_id : Local (ε := ε) P fun w => w :=
  ⟨fun _ _ => rfl, fun _ _ _ _ => rfl, fun _ _ _ hget => hget⟩

omit [DecidableEq δ] in
theorem Local.foldl {α : Type} (step : Disk δ ν ε → α → Disk δ ν ε) (l : List α)
    (h : ∀ a ∈ l, Local P fun w => step w a) : Local P fun w => l.foldl step w := by
  induction l with
  | nil => exact local_id
  | cons a l ih =>
    obtain ⟨ha, hl⟩ := List.forall_mem_cons.mp h
    have hrest := ih hl
    refine ⟨fun w d => ?_, fun w d n hn => ?_, fun w w' hsome hget d n hn => ?_⟩
    · rw [List.foldl_cons, hrest.folders, ha.folders]
    · rw [List.foldl_cons, hrest.outside _ d n hn, ha.outside w d n hn]
    · rw [List.foldl_cons, List.foldl_cons]
      refine hrest.inside _ _ (fun k => ?_) (ha.inside w w' hsome hget) d n hn
      rw [ha.folders, ha.folders, hsome]

omit [DecidableEq δ] in
/-- **Locality.** Changes of different places commute. -/
theorem Local.commute (f g : Disk δ ν ε → Disk δ ν ε) (hf : Local P f) (hg : Local Q g)
    (h : ∀ d n, P d n → ¬Q d n) (w : Disk δ ν ε) : f (g w) = g (f w) := by
  refine ext_get _ _ (fun d => ?_) fun d n => ?_
  · rw [hf.folders, hg.folders, hg.folders, hf.folders]
  · by_cases hP : P d n
    · rw [hg.outside _ d n (h d n hP)]
      exact hf.inside _ _ (hg.folders w) (fun k m hk => hg.outside w k m (h k m hk)) d n hP
    · rw [hf.outside _ d n hP]
      by_cases hQ : Q d n
      · exact (hg.inside _ _ (hf.folders w)
          (fun k m hk => hf.outside w k m fun hp => h k m hp hk) d n hQ).symm
      · rw [hg.outside _ d n hQ, hg.outside _ d n hQ, hf.outside _ d n hP]

end Folders

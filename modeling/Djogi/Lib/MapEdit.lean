import Djogi.Lib.OrdMap

/-!
# Editing a map

Adding, dropping and renaming keys one after the other. An edit fails when the key it
needs is missing or the key it makes is taken.

* `edits_adds_iff`, `edits_drops_iff`: runs of additions and of drops;
* `edits_renames_iff`: a run of renames in increasing order of sources succeeds exactly
  when every destination is free, or is freed by an earlier rename;
* `runAt_eq_some_iff`: a run of steps that each act under one key is, key by key, the
  run of the steps of that key.
-/

namespace OrdMap

variable {κ ν : Type} [LinearOrder κ]

inductive Edit (κ ν : Type)
  | add (k : κ) (v : ν)
  | drop (k : κ)
  | rename (from_ to_ : κ)
  deriving DecidableEq, Repr

def edit (m : OrdMap κ ν) : Edit κ ν → Option (OrdMap κ ν)
  | .add k v => if m.contains k then none else some (m.insert k v)
  | .drop k => if m.contains k then some (m.erase k) else none
  | .rename a b => (m.get a).bind fun v =>
      if m.contains b then none else some ((m.erase a).insert b v)

def edits (m : OrdMap κ ν) (l : List (Edit κ ν)) : Option (OrdMap κ ν) := l.foldlM edit m

@[simp] theorem edits_nil (m : OrdMap κ ν) : m.edits [] = some m := rfl

theorem edits_cons (m : OrdMap κ ν) (e : Edit κ ν) (l : List (Edit κ ν)) :
    m.edits (e :: l) = (m.edit e).bind fun m' => m'.edits l := rfl

theorem edits_append (m : OrdMap κ ν) (l₁ l₂ : List (Edit κ ν)) :
    m.edits (l₁ ++ l₂) = (m.edits l₁).bind fun m' => m'.edits l₂ := by
  simp [edits, List.foldlM_append]

theorem edits_append_eq_some_iff (m m' : OrdMap κ ν) (l₁ l₂ : List (Edit κ ν)) :
    m.edits (l₁ ++ l₂) = some m' ↔ ∃ m₁, m.edits l₁ = some m₁ ∧ m₁.edits l₂ = some m' := by
  rw [edits_append, Option.bind_eq_some_iff]

theorem eq_iff_get (a b : OrdMap κ ν) : a = b ↔ ∀ k, a.get k = b.get k :=
  ⟨fun h _ => h ▸ rfl, ext_get⟩

/-! ## Additions and drops -/

theorem edits_adds_iff (l : List (κ × ν)) (m m' : OrdMap κ ν) :
    m.edits (l.map fun e => .add e.1 e.2) = some m' ↔
      (l.map Prod.fst).Nodup ∧ (∀ k ∈ l.map Prod.fst, m.get k = none) ∧
        ∀ k, m'.get k = (lookupIn k l).or (m.get k) := by
  induction l generalizing m with
  | nil => simp [lookupIn, eq_iff_get, eq_comm]
  | cons e l ih =>
      rw [List.map_cons, edits_cons, edit]
      by_cases hc : m.contains e.1 = true
      · have hsome : m.get e.1 ≠ none := by
          rwa [Ne, get_eq_none_iff, not_not, ← contains_iff]
        simp only [hc, if_true, Option.bind_none, reduceCtorEq, false_iff, not_and]
        intro _ hfree
        exact absurd (hfree e.1 (by simp)) hsome
      · have hnone : m.get e.1 = none := by
          rwa [get_eq_none_iff, ← contains_iff]
        rw [if_neg hc, Option.bind_some, ih]
        simp only [List.map_cons, List.nodup_cons, List.forall_mem_cons, hnone, true_and,
          get_insert]
        constructor
        · rintro ⟨hnd, hfree, hget⟩
          have hnotin : e.1 ∉ l.map Prod.fst := fun hmem => by
            simpa using hfree e.1 hmem
          refine ⟨⟨hnotin, hnd⟩, ?_, ?_⟩
          · intro k hk
            have hne : k ≠ e.1 := fun h => hnotin (h ▸ hk)
            simpa [hne] using hfree k hk
          · intro k
            rw [hget k, lookupIn]
            by_cases hk : e.1 = k
            · have hl : lookupIn k l = none := (lookupIn_eq_none k l).mpr (hk ▸ hnotin)
              simp [hk, hl]
            · simp [hk, Ne.symm hk]
        · rintro ⟨⟨hnotin, hnd⟩, hfree, hget⟩
          refine ⟨hnd, ?_, ?_⟩
          · intro k hk
            have hne : k ≠ e.1 := fun h => hnotin (h ▸ hk)
            simpa [hne] using hfree k hk
          · intro k
            rw [hget k, lookupIn]
            by_cases hk : e.1 = k
            · have hl : lookupIn k l = none := (lookupIn_eq_none k l).mpr (hk ▸ hnotin)
              simp [hk, hl]
            · simp [hk, Ne.symm hk]

theorem edits_drops_iff (ks : List κ) (m m' : OrdMap κ ν) :
    m.edits (ks.map .drop) = some m' ↔
      ks.Nodup ∧ (∀ k ∈ ks, m.get k ≠ none) ∧
        ∀ k, m'.get k = if k ∈ ks then none else m.get k := by
  induction ks generalizing m with
  | nil => simp [eq_iff_get, eq_comm]
  | cons j ks ih =>
      rw [List.map_cons, edits_cons, edit]
      by_cases hc : m.contains j = true
      · have hsome : m.get j ≠ none := by
          rwa [Ne, get_eq_none_iff, not_not, ← contains_iff]
        rw [if_pos hc, Option.bind_some, ih, List.nodup_cons, List.forall_mem_cons,
          and_iff_right (a := m.get j ≠ none) hsome]
        simp only [get_erase, List.mem_cons]
        constructor
        · rintro ⟨hnd, hpres, hget⟩
          have hnotin : j ∉ ks := fun hmem => by simpa using hpres j hmem
          refine ⟨⟨hnotin, hnd⟩, ?_, ?_⟩
          · intro k hk
            have hne : k ≠ j := fun h => hnotin (h ▸ hk)
            simpa [hne] using hpres k hk
          · intro k
            rw [hget k]
            by_cases hk : k = j <;> simp [hk]
        · rintro ⟨⟨hnotin, hnd⟩, hpres, hget⟩
          refine ⟨hnd, ?_, ?_⟩
          · intro k hk
            have hne : k ≠ j := fun h => hnotin (h ▸ hk)
            simpa [hne] using hpres k hk
          · intro k
            rw [hget k]
            by_cases hk : k = j <;> simp [hk]
      · have hnone : m.get j = none := by
          rwa [get_eq_none_iff, ← contains_iff]
        simp [hc, hnone]

theorem edits_adds_perm (l₁ l₂ : List (κ × ν)) (hp : l₁.Perm l₂) (m : OrdMap κ ν) :
    m.edits (l₁.map fun e => .add e.1 e.2) = m.edits (l₂.map fun e => .add e.1 e.2) := by
  apply Option.ext
  intro m'
  have hkeys : (l₁.map Prod.fst).Perm (l₂.map Prod.fst) := hp.map Prod.fst
  rw [edits_adds_iff, edits_adds_iff, hkeys.nodup_iff]
  refine and_congr_right fun hnd => ?_
  have hfree : (∀ k ∈ l₁.map Prod.fst, m.get k = none) ↔ ∀ k ∈ l₂.map Prod.fst, m.get k = none :=
    forall_congr' fun k => by rw [hkeys.mem_iff]
  rw [hfree]
  refine and_congr_right fun _ => forall_congr' fun k => ?_
  rw [lookupIn_perm l₁ l₂ hp (hkeys.nodup_iff.mpr hnd)]

/-! ## Renames -/

/-- The source a list of renames moves to the key, if any. -/
def sourceOf (l : List (κ × κ)) (k : κ) : Option κ := (l.find? fun e => e.2 = k).map Prod.fst

/-- Every destination is free, or an earlier rename frees it. -/
def Freed (l : List (κ × κ)) (m : OrdMap κ ν) : Prop :=
  ∀ e ∈ l, m.get e.2 = none ∨ ∃ e' ∈ l, e'.1 = e.2 ∧ e'.1 < e.1

theorem sourceOf_eq_none_iff (l : List (κ × κ)) (k : κ) :
    sourceOf l k = none ↔ k ∉ l.map Prod.snd := by
  simp only [sourceOf, Option.map_eq_none_iff, List.find?_eq_none, List.mem_map, not_exists,
    not_and, decide_eq_true_eq]

theorem sourceOf_eq_some_iff (l : List (κ × κ)) (hn : (l.map Prod.snd).Nodup) (k p : κ) :
    sourceOf l k = some p ↔ (p, k) ∈ l := by
  induction l with
  | nil => simp [sourceOf]
  | cons e l ih =>
      obtain ⟨hnotin, hnd⟩ := List.nodup_cons.mp hn
      by_cases hk : e.2 = k
      · have hl : (p, k) ∉ l := fun hmem => hnotin (hk ▸ List.mem_map.mpr ⟨(p, k), hmem, rfl⟩)
        have hs : sourceOf (e :: l) k = some e.1 := by simp [sourceOf, hk]
        rw [hs, List.mem_cons, or_iff_left hl, Option.some.injEq]
        exact ⟨fun h => by rw [← h, ← hk], fun h => by rw [← h]⟩
      · have hs : sourceOf (e :: l) k = sourceOf l k := by simp [sourceOf, hk]
        rw [hs, ih hnd, List.mem_cons, or_iff_right]
        rintro rfl
        exact hk rfl

/-- **Runs of renames.** -/
theorem edits_renames_iff (l : List (κ × κ)) (m m' : OrdMap κ ν)
    (hsrc : (l.map Prod.fst).Pairwise (· < ·)) (hdst : (l.map Prod.snd).Nodup)
    (hpres : ∀ e ∈ l, m.get e.1 ≠ none) :
    m.edits (l.map fun e => .rename e.1 e.2) = some m' ↔
      Freed l m ∧ ∀ k, m'.get k =
        match sourceOf l k with
        | some p => m.get p
        | none => if k ∈ l.map Prod.fst then none else m.get k := by
  induction l generalizing m with
  | nil => simp [Freed, sourceOf, eq_iff_get, eq_comm]
  | cons e l ih =>
      obtain ⟨p, n⟩ := e
      rw [List.map_cons, List.pairwise_cons] at hsrc
      rw [List.map_cons, List.nodup_cons] at hdst
      rw [List.forall_mem_cons] at hpres
      obtain ⟨hlt, hsrc⟩ := hsrc
      obtain ⟨hn, hdst⟩ := hdst
      obtain ⟨hp, hpres⟩ := hpres
      obtain ⟨v, hv⟩ := Option.ne_none_iff_exists'.mp hp
      have hlt' : ∀ e ∈ l, p < e.1 := fun e he => hlt e.1 (List.mem_map.mpr ⟨e, he, rfl⟩)
      rw [List.map_cons, edits_cons, edit, hv, Option.bind_some]
      by_cases hc : m.contains n = true
      · -- The first destination is taken and no earlier rename frees it.
        have hsome : m.get n ≠ none := by
          rwa [Ne, get_eq_none_iff, not_not, ← contains_iff]
        simp only [hc, if_true, Option.bind_none, reduceCtorEq, false_iff, not_and]
        intro hfreed
        rcases hfreed (p, n) List.mem_cons_self with h | ⟨e', he', h1, h2⟩
        · exact absurd h hsome
        · rcases List.mem_cons.mp he' with rfl | he'
          · exact absurd h2 (lt_irrefl _)
          · exact absurd (hlt' e' he') (lt_asymm h2)
      · have hnone : m.get n = none := by
          rwa [get_eq_none_iff, ← contains_iff]
        have hpn : p ≠ n := fun h => by simp [h, hnone] at hv
        have hget (j : κ) : ((m.erase p).insert n v).get j =
            if j = n then some v else if j = p then none else m.get j := by
          simp
        have hsrcget : ∀ e ∈ l, ((m.erase p).insert n v).get e.1 = m.get e.1 := by
          intro e he
          have h1 : e.1 ≠ n := fun h => hpres e he (h ▸ hnone)
          rw [hget, if_neg h1, if_neg (ne_of_gt (hlt' e he))]
        rw [if_neg hc, Option.bind_some,
          ih _ hsrc hdst fun e he => by rw [hsrcget e he]; exact hpres e he]
        refine and_congr ?_ (forall_congr' fun k => ?_)
        · rw [Freed, Freed, List.forall_mem_cons]
          have hhead : m.get n = none ∨ ∃ e' ∈ (p, n) :: l, e'.1 = n ∧ e'.1 < p := .inl hnone
          rw [and_iff_right hhead]
          refine forall₂_congr fun e he => ?_
          have hne : e.2 ≠ n := fun h => hn (h ▸ List.mem_map.mpr ⟨e, he, rfl⟩)
          rw [hget, if_neg hne]
          by_cases hep : e.2 = p
          · rw [if_pos hep]
            exact iff_of_true (.inl rfl) (.inr ⟨(p, n), List.mem_cons_self, hep.symm, hlt' e he⟩)
          · rw [if_neg hep, List.exists_mem_cons_iff,
              or_iff_right (a := p = e.2 ∧ p < e.1) fun h => hep h.1.symm]
        · by_cases hkn : n = k
          · have hsl : sourceOf l k = none := (sourceOf_eq_none_iff l k).mpr (hkn ▸ hn)
            have hs : sourceOf ((p, n) :: l) k = some p := by simp [sourceOf, hkn]
            have hks : k ∉ l.map Prod.fst := fun h => by
              obtain ⟨e, he, rfl⟩ := List.mem_map.mp h
              exact hpres e he (hkn ▸ hnone)
            rw [hs, hsl]
            simp only [hks, if_false, hget]
            rw [if_pos hkn.symm, hv]
          · have hs : sourceOf ((p, n) :: l) k = sourceOf l k := by simp [sourceOf, hkn]
            rw [hs]
            cases hsl : sourceOf l k with
            | some p' =>
                simp only
                rw [hsrcget (p', k) ((sourceOf_eq_some_iff l hdst k p').mp hsl)]
            | none =>
                simp only [List.map_cons, List.mem_cons, hget, if_neg (Ne.symm hkn)]
                by_cases hkp : k = p
                · simp [hkp]
                · by_cases hks : k ∈ l.map Prod.fst <;> simp [hkp, hks]

theorem freed_congr {μ : Type} (l : List (κ × κ)) (m : OrdMap κ ν) (m' : OrdMap κ μ)
    (h : ∀ e ∈ l, m.get e.2 = none ↔ m'.get e.2 = none) : Freed l m ↔ Freed l m' :=
  forall₂_congr fun e he => or_congr_left (h e he)

/-- Renames make no key but their destinations. -/
theorem get_ne_none_of_edits_renames (l : List (κ × κ)) (m m' : OrdMap κ ν)
    (h : m.edits (l.map fun e => .rename e.1 e.2) = some m') (k : κ) (hk : m'.get k ≠ none) :
    k ∈ l.map Prod.snd ∨ m.get k ≠ none := by
  induction l generalizing m with
  | nil =>
      obtain rfl : m = m' := Option.some.inj h
      exact .inr hk
  | cons e l ih =>
      rw [List.map_cons, edits_cons, Option.bind_eq_some_iff] at h
      obtain ⟨m₁, h₁, h⟩ := h
      rcases ih m₁ h with hl | hm₁
      · exact .inl (List.mem_cons_of_mem _ hl)
      · obtain ⟨v, hv, h₁⟩ := Option.bind_eq_some_iff.mp h₁
        split_ifs at h₁ with hc
        obtain rfl : (m.erase e.1).insert e.2 v = m₁ := Option.some.inj h₁
        by_cases hk2 : k = e.2
        · exact .inl (hk2 ▸ List.mem_cons_self)
        · rw [get_insert, if_neg hk2, get_erase] at hm₁
          by_cases hk1 : k = e.1
          · simp [hk1] at hm₁
          · rw [if_neg hk1] at hm₁
            exact .inr hm₁

/-- The last rename finds its source and leaves it free. -/
theorem edits_renames_concat (l : List (κ × κ)) (p n : κ) (m m' : OrdMap κ ν)
    (h : m.edits ((l ++ [(p, n)]).map fun e => .rename e.1 e.2) = some m') :
    (p ∈ l.map Prod.snd ∨ m.get p ≠ none) ∧ m'.get p = none := by
  rw [List.map_append, edits_append_eq_some_iff] at h
  obtain ⟨m₁, h₁, h⟩ := h
  rw [List.map_singleton, edits_cons, Option.bind_eq_some_iff] at h
  obtain ⟨m₂, h₂, h⟩ := h
  obtain rfl : m₂ = m' := Option.some.inj h
  obtain ⟨v, hv, h₂⟩ := Option.bind_eq_some_iff.mp h₂
  split_ifs at h₂ with hc
  obtain rfl : (m₁.erase p).insert n v = m₂ := Option.some.inj h₂
  have hp : m₁.get p ≠ none := by simp [hv]
  have hpn : p ≠ n := by
    rintro rfl
    exact hc ((contains_iff m₁ p).mpr ((mem_keys_iff m₁ p).mpr ⟨v, hv⟩))
  refine ⟨get_ne_none_of_edits_renames l m m₁ h₁ p hp, ?_⟩
  rw [get_insert, if_neg hpn, get_erase, if_pos rfl]

/-! ## Steps under one key -/

section KeyedRuns

variable {ε : Type} (f : ν → ε → Option ν)

/-- A step under a key that has to be there. -/
def stepAt (m : OrdMap κ ν) (e : κ × ε) : Option (OrdMap κ ν) :=
  (m.get e.1).bind fun v => (f v e.2).map (m.insert e.1)

def runAt (m : OrdMap κ ν) (l : List (κ × ε)) : Option (OrdMap κ ν) := l.foldlM (stepAt f) m

/-- A run on the value of one key; without a value only the empty run succeeds. -/
def runOption : Option ν → List ε → Option (Option ν)
  | none, [] => some none
  | none, _ :: _ => none
  | some v, l => (l.foldlM f v).map some

/-- The steps of one key. -/
def stepsOf (k : κ) (l : List (κ × ε)) : List ε := (l.filter fun e => e.1 = k).map Prod.snd

theorem stepsOf_append (k : κ) (l₁ l₂ : List (κ × ε)) :
    stepsOf k (l₁ ++ l₂) = stepsOf k l₁ ++ stepsOf k l₂ := by
  simp [stepsOf]

theorem stepsOf_flatMap {α : Type} (k : κ) (l : List α) (g : α → List (κ × ε)) :
    stepsOf k (l.flatMap g) = l.flatMap fun x => stepsOf k (g x) := by
  simp [stepsOf, List.filter_flatMap, List.map_flatMap]

theorem stepsOf_map_same (k : κ) (l : List ε) : stepsOf k (l.map (k, ·)) = l := by
  simp [stepsOf, List.filter_map, Function.comp_def]

theorem stepsOf_map_other (j k : κ) (l : List ε) (h : j ≠ k) :
    stepsOf k (l.map (j, ·)) = [] := by
  simp [stepsOf, h]

/-- **Runs key by key.** -/
theorem runAt_eq_some_iff (l : List (κ × ε)) (m m' : OrdMap κ ν) :
    m.runAt f l = some m' ↔ ∀ k, runOption f (m.get k) (stepsOf k l) = some (m'.get k) := by
  induction l generalizing m with
  | nil =>
      have hrun (k : κ) : runOption f (m.get k) (stepsOf k []) = some (m.get k) := by
        cases m.get k <;> rfl
      simp only [hrun, Option.some.injEq]
      rw [← eq_iff_get]
      exact Option.some_inj
  | cons e l ih =>
      rw [runAt, List.foldlM_cons]
      show ((stepAt f m e).bind fun m₁ => m₁.runAt f l) = some m' ↔ _
      have hother (k : κ) (hk : e.1 ≠ k) : stepsOf k (e :: l) = stepsOf k l := by
        simp [stepsOf, hk]
      have hself : stepsOf e.1 (e :: l) = e.2 :: stepsOf e.1 l := by simp [stepsOf]
      cases hm : m.get e.1 with
      | none =>
          refine iff_of_false (by simp [stepAt, hm]) fun h => ?_
          have := h e.1
          rw [hm, hself] at this
          cases this
      | some v =>
          cases hf : f v e.2 with
          | none =>
              refine iff_of_false (by simp [stepAt, hm, hf]) fun h => ?_
              have := h e.1
              rw [hm, hself, runOption, List.foldlM_cons, hf] at this
              cases this
          | some w =>
              have hstep : stepAt f m e = some (m.insert e.1 w) := by simp [stepAt, hm, hf]
              rw [hstep, Option.bind_some, ih]
              refine forall_congr' fun k => ?_
              by_cases hk : e.1 = k
              · subst hk
                rw [hself, get_insert, if_pos rfl, hm]
                simp [runOption, List.foldlM_cons, hf]
              · rw [hother k hk, get_insert, if_neg (Ne.symm hk)]

end KeyedRuns

end OrdMap

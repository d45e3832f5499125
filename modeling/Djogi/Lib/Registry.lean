import Djogi.Lib.OrdMap

/-!
# Registries

Maps filled from a list that arrives in no fixed order, either so that the last entry of a key
wins or so that entries of one key have to agree.

* `registry_perm`: entries that agree give the same map in every order;
* `registry_arrange`: every choice of one entry for each key wins in some order;
* `checked_ok_iff`: a registry with a conflict check accepts exactly the lists that agree.
-/

namespace OrdMap

variable {α κ ν ε : Type} [LinearOrder κ] (key : α → κ) (val : α → ν)

/-- Entries of one key have one value. -/
def Agree (l : List α) : Prop := ∀ a ∈ l, ∀ b ∈ l, key a = key b → val a = val b

/-- The last entry of a key wins. -/
def registry (l : List α) : OrdMap κ ν := .ofList (l.map fun a => (key a, val a))

omit [LinearOrder κ] in
theorem Agree.perm (l l' : List α) (hp : l.Perm l') (h : Agree key val l) : Agree key val l' :=
  fun a ha b hb => h a (hp.mem_iff.mpr ha) b (hp.mem_iff.mpr hb)

theorem registry_some (l : List α) (k : κ) (v : ν) (h : (registry key val l).get k = some v) :
    ∃ a ∈ l, key a = k ∧ val a = v := by
  have hmem := mem_of_mem_ofList _ (k, v) ((mem_entries_iff _ _ _).mpr h)
  obtain ⟨a, ha, heq⟩ := List.mem_map.mp hmem
  exact ⟨a, ha, congrArg Prod.fst heq, congrArg Prod.snd heq⟩

theorem registry_contains_iff (l : List α) (k : κ) :
    k ∈ (registry key val l).keys ↔ ∃ a ∈ l, key a = k := by
  rw [registry, mem_keys_ofList, List.map_map, List.mem_map]
  rfl

theorem registry_none_iff (l : List α) (k : κ) :
    (registry key val l).get k = none ↔ ∀ a ∈ l, key a ≠ k := by
  rw [get_eq_none_iff, registry_contains_iff]
  simp only [not_exists, not_and, ne_eq]

theorem registry_of_mem (l : List α) (a : α) (ha : a ∈ l) :
    ∃ b ∈ l, key b = key a ∧ (registry key val l).get (key a) = some (val b) := by
  cases hget : (registry key val l).get (key a) with
  | none => exact absurd rfl ((registry_none_iff key val l (key a)).mp hget a ha)
  | some v =>
    obtain ⟨b, hb, hkey, rfl⟩ := registry_some key val l (key a) v hget
    exact ⟨b, hb, hkey, rfl⟩

theorem registry_get (l : List α) (h : Agree key val l) (a : α) (ha : a ∈ l) :
    (registry key val l).get (key a) = some (val a) := by
  obtain ⟨b, hb, hkey, hget⟩ := registry_of_mem key val l a ha
  rw [hget, h b hb a ha hkey]

/-- Where the entries of one key agree, the order does not matter. -/
theorem registry_perm_at (l l' : List α) (hp : l.Perm l') (k : κ)
    (h : ∀ a ∈ l, ∀ b ∈ l, key a = k → key b = k → val a = val b) :
    (registry key val l).get k = (registry key val l').get k := by
  by_cases hk : ∃ a ∈ l, key a = k
  · obtain ⟨a, ha, rfl⟩ := hk
    obtain ⟨b, hb, hkey, hget⟩ := registry_of_mem key val l a ha
    obtain ⟨b', hb', hkey', hget'⟩ := registry_of_mem key val l' a (hp.mem_iff.mp ha)
    rw [hget, hget', h b hb b' (hp.mem_iff.mpr hb') hkey hkey']
  · have hnone : ∀ a ∈ l, key a ≠ k := fun a ha hka => hk ⟨a, ha, hka⟩
    rw [(registry_none_iff key val l k).mpr hnone,
      (registry_none_iff key val l' k).mpr fun a ha => hnone a (hp.mem_iff.mpr ha)]

theorem registry_perm (l l' : List α) (hp : l.Perm l') (h : Agree key val l) :
    registry key val l = registry key val l' :=
  ext_get fun k => registry_perm_at key val l l' hp k fun a ha b hb hka hkb =>
    h a ha b hb (hka.trans hkb.symm)

omit [LinearOrder κ] in
/-- Distinct keys agree. -/
theorem agree_of_nodup (l : List α) (h : (l.map key).Nodup) : Agree key val l :=
  fun _ ha _ hb hkey => congrArg val (List.inj_on_of_nodup_map h ha hb hkey)

theorem registry_pairs (l : List (κ × ν)) : registry Prod.fst Prod.snd l = .ofList l := by
  rw [registry]
  simp only [Prod.mk.eta, List.map_id']

/-- Elements of the second list win over those of the first. -/
theorem registry_append (l l' : List α) (a : α) (h : Agree key val l') (ha : a ∈ l') :
    (registry key val (l ++ l')).get (key a) = some (val a) := by
  obtain ⟨b, hb, hkey, hget⟩ := registry_of_mem key val l' a ha
  have hsplit : (registry key val (l ++ l')).get (key a) =
      ((registry key val l').get (key a)).or ((registry key val l).get (key a)) := by
    rw [registry, ofList, List.map_append, List.foldl_append, get_foldl_insert]
    rw [registry, get_ofList]
    rfl
  rw [hsplit, hget, Option.some_or, h b hb a ha hkey]

/-- The elements that are not chosen before those that are. -/
def arrange (chosen : α → Bool) (l : List α) : List α :=
  l.filter (fun a => !chosen a) ++ l.filter chosen

theorem arrange_perm (chosen : α → Bool) (l : List α) : l.Perm (arrange chosen l) :=
  ((List.filter_append_perm chosen l).symm).trans List.perm_append_comm

theorem registry_arrange (chosen : α → Bool) (l : List α) (h : Agree key val (l.filter chosen))
    (a : α) (ha : a ∈ l) (hc : chosen a = true) :
    (registry key val (arrange chosen l)).get (key a) = some (val a) :=
  registry_append key val _ _ a h (List.mem_filter.mpr ⟨ha, hc⟩)

theorem registry_concat (l : List α) (a : α) :
    registry key val (l ++ [a]) = (registry key val l).insert (key a) (val a) := by
  rw [registry, ofList, List.map_append, List.foldl_append]
  rfl

/-! ## Conflict checks -/

/-- A step that takes a value for a new key, or again for a key that has it, and refuses every
other one. -/
structure Checks (step : OrdMap κ ν → α → Except ε (OrdMap κ ν)) : Prop where
  add : ∀ m a, (∀ old, m.get (key a) = some old → old = val a) →
    step m a = .ok (m.insert (key a) (val a))
  refuse : ∀ m a old, m.get (key a) = some old → old ≠ val a → ∃ e, step m a = .error e

omit [LinearOrder κ] in
theorem agree_concat (l : List α) (a : α) :
    Agree key val (l ++ [a]) ↔
      Agree key val l ∧ ∀ b ∈ l, key b = key a → val b = val a := by
  constructor
  · intro h
    refine ⟨fun b hb c hc => h b (List.mem_append_left _ hb) c (List.mem_append_left _ hc),
      fun b hb => h b (List.mem_append_left _ hb) a (by simp)⟩
  · rintro ⟨hl, ha⟩ b hb c hc hkey
    rw [List.mem_append, List.mem_singleton] at hb hc
    rcases hb with hb | rfl <;> rcases hc with hc | rfl
    · exact hl b hb c hc hkey
    · exact ha b hb hkey
    · exact (ha c hc hkey.symm).symm
    · rfl

/-- **Checked registry.** It accepts exactly the lists that agree. -/
theorem checked_ok_iff (step : OrdMap κ ν → α → Except ε (OrdMap κ ν))
    (hs : Checks key val step) (l : List α) (r : OrdMap κ ν) :
    l.foldlM step .empty = .ok r ↔ Agree key val l ∧ r = registry key val l := by
  induction l using List.reverseRecOn generalizing r with
  | nil =>
    constructor
    · intro h
      exact ⟨fun a ha => absurd ha List.not_mem_nil, (Except.ok.inj h).symm⟩
    · rintro ⟨-, rfl⟩
      rfl
  | append_singleton l a ih =>
    rw [List.foldlM_append, agree_concat, registry_concat]
    cases hl : l.foldlM step .empty with
    | error e =>
      constructor
      · intro h
        cases h
      · rintro ⟨⟨hagree, -⟩, -⟩
        rw [(ih _).mpr ⟨hagree, rfl⟩] at hl
        cases hl
    | ok m =>
      obtain ⟨hagree, rfl⟩ := (ih m).mp hl
      rw [and_iff_right hagree]
      have hstep : ([a].foldlM step (registry key val l)) = step (registry key val l) a := by
        rw [List.foldlM_cons]
        exact bind_pure _
      show [a].foldlM step (registry key val l) = _ ↔ _
      rw [hstep]
      by_cases hnew : ∀ b ∈ l, key b = key a → val b = val a
      · rw [hs.add, Except.ok.injEq, and_iff_right hnew, eq_comm]
        intro old hold
        obtain ⟨b, hb, hkey, rfl⟩ := registry_some key val l _ _ hold
        exact hnew b hb hkey
      · simp only [hnew, false_and, iff_false]
        push Not at hnew
        obtain ⟨b, hb, hkey, hval⟩ := hnew
        have hget := registry_get key val l hagree b hb
        rw [hkey] at hget
        obtain ⟨e, he⟩ := hs.refuse _ a _ hget hval
        rw [he]
        exact nofun

end OrdMap

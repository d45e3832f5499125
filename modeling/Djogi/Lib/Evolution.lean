import Djogi.Lib.MapEdit

/-!
# From one set of names to another

An evolution is what a differ finds between two sets of names: renames it was told of,
additions and drops. A set is a map to `Unit`.

* `evolve_iff`: additions, renames and drops lead from the old set to the new one
  exactly when the renames are sound;
* `evolve_twice_iff`: the same for two evolutions to one set that run interleaved on the
  old set of the first.
-/

namespace OrdMap

variable {κ : Type} [LinearOrder κ]

/-- The differences found between two sets of names. -/
structure Evolution (κ : Type) [LinearOrder κ] where
  before : OrdMap κ Unit
  after : OrdMap κ Unit
  renames : OrdMap κ κ
  added : List κ
  dropped : List κ
  source_mem : ∀ k ∈ renames.keys, k ∈ before.keys
  target_mem : ∀ k ∈ renames.values, k ∈ after.keys
  target_nodup : renames.values.Nodup
  added_nodup : added.Nodup
  mem_added : ∀ k, k ∈ added ↔ k ∈ after.keys ∧ k ∉ before.keys ∧ k ∉ renames.values
  dropped_nodup : dropped.Nodup
  mem_dropped : ∀ k, k ∈ dropped ↔ k ∈ before.keys ∧ k ∉ after.keys ∧ k ∉ renames.keys

namespace Evolution

variable (e : Evolution κ)

def adds : List (Edit κ Unit) := e.added.map fun k => .add k ()

def moves : List (Edit κ Unit) := e.renames.entries.map fun r => .rename r.1 r.2

def drops : List (Edit κ Unit) := e.dropped.map .drop

/-- Renames find their destination free, and a renamed name the new set keeps is taken
over by another rename. -/
def Sound : Prop :=
  Freed e.renames.entries e.before ∧
    ∀ k ∈ e.renames.keys, k ∈ e.after.keys → k ∈ e.renames.values

end Evolution

/-! ## Sets of names -/

theorem mem_keys_iff_ne_none {ν : Type} (m : OrdMap κ ν) (k : κ) :
    k ∈ m.keys ↔ m.get k ≠ none := by
  rw [Ne, get_eq_none_iff, not_not]

theorem edits_adds_unit_iff (ks : List κ) (m m' : OrdMap κ Unit) :
    m.edits (ks.map fun k => .add k ()) = some m' ↔
      ks.Nodup ∧ (∀ k ∈ ks, k ∉ m.keys) ∧ ∀ k, k ∈ m'.keys ↔ k ∈ ks ∨ k ∈ m.keys := by
  have h := edits_adds_iff (ks.map fun k => (k, ())) m m'
  simp only [List.map_map, Function.comp_def, List.map_id'] at h
  rw [h]
  refine and_congr_right fun _ => and_congr ?_ ?_
  · exact forall₂_congr fun k _ => get_eq_none_iff m k
  · refine forall_congr' fun k => ?_
    have hlook := lookupIn_eq_none k (ks.map fun k => (k, ()))
    simp only [List.map_map, Function.comp_def, List.map_id'] at hlook
    rw [mem_keys_iff_ne_none, mem_keys_iff_ne_none, ← not_iff_not (a := m'.get k ≠ none), not_not,
      not_or, ← hlook, not_not]
    cases lookupIn k (ks.map fun k => (k, ())) <;> cases m'.get k <;> cases m.get k <;> simp

theorem edits_drops_unit_iff (ks : List κ) (m m' : OrdMap κ Unit) :
    m.edits (ks.map .drop) = some m' ↔
      ks.Nodup ∧ (∀ k ∈ ks, k ∈ m.keys) ∧ ∀ k, k ∈ m'.keys ↔ k ∉ ks ∧ k ∈ m.keys := by
  rw [edits_drops_iff]
  refine and_congr_right fun _ => and_congr ?_ (forall_congr' fun k => ?_)
  · exact forall₂_congr fun k _ => (mem_keys_iff_ne_none m k).symm
  · rw [mem_keys_iff_ne_none, mem_keys_iff_ne_none]
    by_cases hk : k ∈ ks <;> cases m'.get k <;> cases m.get k <;> simp [hk]

theorem edits_renames_unit_iff (r : OrdMap κ κ) (m m' : OrdMap κ Unit) (hdst : r.values.Nodup)
    (hpres : ∀ k ∈ r.keys, k ∈ m.keys) :
    m.edits (r.entries.map fun e => .rename e.1 e.2) = some m' ↔
      Freed r.entries m ∧ ∀ k, k ∈ m'.keys ↔ k ∈ r.values ∨ k ∉ r.keys ∧ k ∈ m.keys := by
  rw [edits_renames_iff r.entries m m' r.keys_sorted hdst fun e he =>
    (mem_keys_iff_ne_none m e.1).mp (hpres e.1 (List.mem_map.mpr ⟨e, he, rfl⟩))]
  refine and_congr_right fun _ => forall_congr' fun k => ?_
  cases hs : sourceOf r.entries k with
  | none =>
      have hv : k ∉ r.values := (sourceOf_eq_none_iff r.entries k).mp hs
      have hkeys : r.entries.map Prod.fst = r.keys := rfl
      rw [mem_keys_iff_ne_none, mem_keys_iff_ne_none m, hkeys]
      by_cases hk : k ∈ r.keys <;> cases m'.get k <;> cases m.get k <;> simp [hk, hv]
  | some p =>
      have hmem : (p, k) ∈ r.entries := (sourceOf_eq_some_iff r.entries hdst k p).mp hs
      have hv : k ∈ r.values := List.mem_map.mpr ⟨(p, k), hmem, rfl⟩
      obtain ⟨u, hu⟩ := (mem_keys_iff m p).mp (hpres p (List.mem_map.mpr ⟨(p, k), hmem, rfl⟩))
      rw [mem_keys_iff_ne_none]
      cases m'.get k <;> simp [hu, hv]

theorem exists_unit (ks : List κ) : ∃ m : OrdMap κ Unit, ∀ k, k ∈ m.keys ↔ k ∈ ks := by
  obtain ⟨m, hm⟩ := exists_get (fun k => if k ∈ ks then some () else none) ks
    fun k hk => if_neg hk
  refine ⟨m, fun k => ?_⟩
  rw [mem_keys_iff_ne_none, hm]
  simp

/-! ## One evolution -/

namespace Evolution

variable (e : Evolution κ)

/-- What additions and renames leave. -/
theorem make_iff (m : OrdMap κ Unit) : e.before.edits (e.adds ++ e.moves) = some m ↔
    Freed e.renames.entries e.before ∧ ∀ k, k ∈ m.keys ↔
      k ∈ e.renames.values ∨ k ∉ e.renames.keys ∧ (k ∈ e.before.keys ∨ k ∈ e.after.keys) := by
  have hfreed (m₁ : OrdMap κ Unit) (h : ∀ k, k ∈ m₁.keys ↔ k ∈ e.added ∨ k ∈ e.before.keys) :
      Freed e.renames.entries m₁ ↔ Freed e.renames.entries e.before := by
    refine freed_congr _ _ _ fun r hr => ?_
    have hval : r.2 ∈ e.renames.values := List.mem_map.mpr ⟨r, hr, rfl⟩
    have hnot : r.2 ∉ e.added := fun hmem => ((e.mem_added r.2).mp hmem).2.2 hval
    rw [get_eq_none_iff, get_eq_none_iff, h, or_iff_right hnot]
  have hsource (m₁ : OrdMap κ Unit) (h : ∀ k, k ∈ m₁.keys ↔ k ∈ e.added ∨ k ∈ e.before.keys) :
      ∀ k ∈ e.renames.keys, k ∈ m₁.keys := fun k hk => (h k).mpr (.inr (e.source_mem k hk))
  have hkeys (k : κ) (m₁ : OrdMap κ Unit)
      (h : ∀ k, k ∈ m₁.keys ↔ k ∈ e.added ∨ k ∈ e.before.keys) :
      (k ∈ e.renames.values ∨ k ∉ e.renames.keys ∧ k ∈ m₁.keys) ↔
        k ∈ e.renames.values ∨ k ∉ e.renames.keys ∧ (k ∈ e.before.keys ∨ k ∈ e.after.keys) := by
    rw [h, e.mem_added]
    tauto
  rw [edits_append_eq_some_iff, adds, moves]
  simp only [edits_adds_unit_iff]
  constructor
  · rintro ⟨m₁, ⟨-, -, h₁⟩, h₂⟩
    rw [edits_renames_unit_iff _ _ _ e.target_nodup (hsource m₁ h₁), hfreed m₁ h₁] at h₂
    exact ⟨h₂.1, fun k => (h₂.2 k).trans (hkeys k m₁ h₁)⟩
  · rintro ⟨hf, hm⟩
    obtain ⟨m₁, h₁⟩ := exists_unit (e.added ++ e.before.keys)
    simp only [List.mem_append] at h₁
    refine ⟨m₁, ⟨e.added_nodup, fun k hk => ((e.mem_added k).mp hk).2.1, h₁⟩, ?_⟩
    rw [edits_renames_unit_iff _ _ _ e.target_nodup (hsource m₁ h₁), hfreed m₁ h₁]
    exact ⟨hf, fun k => (hm k).trans (hkeys k m₁ h₁).symm⟩

private theorem exists_made : ∃ m : OrdMap κ Unit, ∀ k, k ∈ m.keys ↔
    k ∈ e.renames.values ∨ k ∉ e.renames.keys ∧ (k ∈ e.before.keys ∨ k ∈ e.after.keys) := by
  obtain ⟨m, hm⟩ := exists_unit ((e.before.keys ++ e.after.keys).filter fun k =>
    decide (k ∈ e.renames.values ∨ k ∉ e.renames.keys))
  refine ⟨m, fun k => ?_⟩
  rw [hm, List.mem_filter, List.mem_append, decide_eq_true_eq]
  have := e.target_mem k
  tauto

/-- **One evolution.** -/
theorem evolve_iff :
    e.before.edits (e.adds ++ e.moves ++ e.drops) = some e.after ↔ e.Sound := by
  rw [edits_append_eq_some_iff]
  simp only [make_iff, drops, edits_drops_unit_iff]
  constructor
  · rintro ⟨m, ⟨hf, hm⟩, -, -, hafter⟩
    refine ⟨hf, fun k hk ha => ?_⟩
    have := (hm k).mp ((hafter k).mp ha).2
    tauto
  · rintro ⟨hf, hkept⟩
    obtain ⟨m, hm⟩ := e.exists_made
    refine ⟨m, ⟨hf, hm⟩, e.dropped_nodup, fun k hk => ?_, fun k => ?_⟩
    · obtain ⟨hb, -, hr⟩ := (e.mem_dropped k).mp hk
      exact (hm k).mpr (.inr ⟨hr, .inl hb⟩)
    · rw [hm, e.mem_dropped]
      have := e.target_mem k
      have := hkept k
      tauto

/-! ## Two evolutions -/

/-- The second evolution only restores what the first one lost. -/
def SoundTwice (e₂ : Evolution κ) : Prop :=
  Freed e.renames.entries e.before ∧ e₂.renames.keys = [] ∧
    ∀ k, k ∈ e₂.before.keys ↔
      k ∈ e.after.keys ∧ (k ∈ e.renames.keys → k ∈ e.renames.values)

/-- Renames of a second evolution cannot be undone by the drops of the first. -/
private theorem no_second_renames (e₂ : Evolution κ) (h : e₂.after = e.after)
    (m m₂ m₃ : OrdMap κ Unit)
    (hm : ∀ k, k ∈ m.keys ↔ k ∈ e.renames.values ∨
      k ∉ e.renames.keys ∧ (k ∈ e.before.keys ∨ k ∈ e.after.keys))
    (h₂ : ∀ k, k ∈ m₂.keys ↔ k ∈ e₂.added ∨ k ∈ m.keys)
    (h₃ : m₂.edits e₂.moves = some m₃) (hkept : ∀ k ∈ e.after.keys, k ∈ m₃.keys)
    (hdrop : ∀ k ∈ e.dropped, k ∈ m₃.keys) : e₂.renames.entries = [] := by
  rcases List.eq_nil_or_concat e₂.renames.entries with hnil | ⟨l, ⟨p, n⟩, hl⟩
  · exact hnil
  · rw [List.concat_eq_append] at hl
    rw [moves, hl] at h₃
    obtain ⟨hp, hlost⟩ := edits_renames_concat l p n m₂ m₃ h₃
    rw [get_eq_none_iff] at hlost
    have hnew : p ∉ e.after.keys := fun ha => hlost (hkept p ha)
    have hval (k : κ) (hk : k ∈ e₂.renames.values) : k ∈ e.after.keys :=
      h ▸ e₂.target_mem k hk
    have hold : p ∈ m₂.keys := by
      rcases hp with hp | hp
      · have : p ∈ e₂.renames.values := by
          rw [values, hl, List.map_append]
          exact List.mem_append_left _ hp
        exact absurd (hval p this) hnew
      · exact (mem_keys_iff_ne_none m₂ p).mpr hp
    rw [h₂, e₂.mem_added, hm, h] at hold
    have hdropped : p ∈ e.dropped := by
      have := e.target_mem p
      rw [e.mem_dropped]
      tauto
    exact absurd (hdrop p hdropped) hlost

/-- **Two evolutions.** -/
theorem evolve_twice_iff (e₂ : Evolution κ) (h : e₂.after = e.after) :
    e.before.edits (e.adds ++ e.moves ++ (e₂.adds ++ e₂.moves) ++ (e.drops ++ e₂.drops)) =
      some e.after ↔ e.SoundTwice e₂ := by
  rw [edits_append_eq_some_iff _ _ _ (e.drops ++ e₂.drops)]
  simp only [edits_append_eq_some_iff _ _ e.drops e₂.drops,
    edits_append_eq_some_iff _ _ (e.adds ++ e.moves) (e₂.adds ++ e₂.moves), make_iff,
    edits_append_eq_some_iff _ _ e₂.adds e₂.moves]
  constructor
  · rintro ⟨m₃, ⟨m, ⟨hf, hm⟩, m₂, hadds, hmoves⟩, m₄, hdrops, hdrops₂⟩
    obtain ⟨-, hfree, h₂⟩ := (edits_adds_unit_iff _ _ _).mp hadds
    obtain ⟨-, hpres, h₄⟩ := (edits_drops_unit_iff _ _ _).mp hdrops
    obtain ⟨-, hpres₂, h₅⟩ := (edits_drops_unit_iff _ _ _).mp hdrops₂
    have hkept (k : κ) (hk : k ∈ e.after.keys) : k ∈ m₃.keys :=
      ((h₄ k).mp ((h₅ k).mp hk).2).2
    have hnil := e.no_second_renames e₂ h m m₂ m₃ hm h₂ hmoves hkept hpres
    have hvals : e₂.renames.values = [] := by rw [values, hnil, List.map_nil]
    have hkeys : e₂.renames.keys = [] := by rw [keys, hnil, List.map_nil]
    rw [moves, hnil] at hmoves
    obtain rfl : m₂ = m₃ := Option.some.inj hmoves
    refine ⟨hf, hkeys, fun k => ?_⟩
    have hadd : k ∈ e₂.added ↔ k ∈ e.after.keys ∧ k ∉ e₂.before.keys := by
      rw [e₂.mem_added, h, hvals]
      simp
    have hdrop₂ : k ∈ e₂.dropped ↔ k ∈ e₂.before.keys ∧ k ∉ e.after.keys := by
      rw [e₂.mem_dropped, h, hkeys]
      simp
    have htarget := e.target_mem k
    by_cases ha : k ∈ e.after.keys
    · -- A new name is there after the first evolution or comes back with the second.
      have hthere := (h₂ k).mp (hkept k ha)
      have hfreed := hfree k
      rw [hadd] at hthere hfreed
      rw [hm] at hthere hfreed
      have hmade : k ∈ e.renames.values ∨
          k ∉ e.renames.keys ∧ (k ∈ e.before.keys ∨ k ∈ e.after.keys) ↔
            (k ∈ e.renames.keys → k ∈ e.renames.values) := by
        constructor
        · rintro (hv | ⟨hr, -⟩) hkey
          · exact hv
          · exact absurd hkey hr
        · intro hback
          by_cases hr : k ∈ e.renames.keys
          · exact .inl (hback hr)
          · exact .inr ⟨hr, .inr ha⟩
      by_cases hb : k ∈ e₂.before.keys
      · exact iff_of_true hb ⟨ha, hmade.mp (hthere.resolve_left fun hnew => hnew.2 hb)⟩
      · exact iff_of_false hb fun hlost => hfreed ⟨ha, hb⟩ (hmade.mpr hlost.2)
    · -- An old name of the second evolution has nothing left to drop.
      have hleft := hpres₂ k
      rw [h₄, h₂, hm, e.mem_dropped, hadd, hdrop₂] at hleft
      refine iff_of_false (fun hb => ?_) fun hback => ha hback.1
      obtain ⟨hundropped, hnew | hv | ⟨hr, hb' | ha'⟩⟩ := hleft ⟨hb, ha⟩
      · exact ha hnew.1
      · exact ha (htarget hv)
      · exact hundropped ⟨hb', ha, hr⟩
      · exact ha ha'
  · rintro ⟨hf, hkeys, hbefore⟩
    have hnil : e₂.renames.entries = [] := List.map_eq_nil_iff.mp hkeys
    have hvals : e₂.renames.values = [] := by rw [values, hnil, List.map_nil]
    have hadd (k : κ) : k ∈ e₂.added ↔ k ∈ e.after.keys ∧ k ∉ e₂.before.keys := by
      rw [e₂.mem_added, h, hvals]
      simp
    have hdrop₂ (k : κ) : k ∉ e₂.dropped := by
      rw [e₂.mem_dropped, h, hbefore]
      tauto
    obtain ⟨m, hm⟩ := e.exists_made
    obtain ⟨m₂, h₂⟩ := exists_unit (e₂.added ++ m.keys)
    simp only [List.mem_append] at h₂
    refine ⟨m₂, ⟨m, ⟨hf, hm⟩, m₂, ?_, ?_⟩, e.after, ?_, ?_⟩
    · refine (edits_adds_unit_iff _ _ _).mpr ⟨e₂.added_nodup, fun k hk => ?_, h₂⟩
      rw [hadd, hbefore] at hk
      rw [hm]
      tauto
    · rw [moves, hnil]
      rfl
    · refine (edits_drops_unit_iff _ _ _).mpr ⟨e.dropped_nodup, fun k hk => ?_, fun k => ?_⟩
      · rw [e.mem_dropped] at hk
        rw [h₂, hm]
        tauto
      · have := e.target_mem k
        rw [e.mem_dropped, h₂, hm, hadd, hbefore]
        tauto
    · have hnone : e₂.dropped = [] := List.eq_nil_iff_forall_not_mem.mpr hdrop₂
      rw [drops, hnone]
      rfl

end Evolution

end OrdMap

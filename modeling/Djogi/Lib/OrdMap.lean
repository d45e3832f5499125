import Mathlib.Data.String.Basic
import Mathlib.Data.List.Induction
import Mathlib.Data.List.Sort

/-!
# Ordered maps

A finite map over a linear order, kept as its list of entries in strictly
increasing key order. Iteration order is therefore part of the value, two maps
with the same lookups are equal, and every operation evaluates.

* `get_insert`: inserting changes the lookup at one key only;
* `ext_get`: a map is determined by its lookups;
* `mem_entries_iff`: the entries are exactly the successful lookups.
-/

/-- A finite map: entries in strictly increasing key order. -/
structure OrdMap (κ ν : Type) [LinearOrder κ] where
  entries : List (κ × ν)
  sorted : entries.Pairwise (fun a b => a.1 < b.1)

namespace OrdMap

variable {κ ν : Type} [LinearOrder κ]

theorem ext_entries {a b : OrdMap κ ν} (h : a.entries = b.entries) : a = b := by
  cases a
  cases b
  simp_all

instance [DecidableEq ν] : DecidableEq (OrdMap κ ν) := fun a b =>
  decidable_of_iff (a.entries = b.entries) ⟨ext_entries, fun h => h ▸ rfl⟩

def empty : OrdMap κ ν := ⟨[], .nil⟩

def keys (m : OrdMap κ ν) : List κ := m.entries.map Prod.fst

def values (m : OrdMap κ ν) : List ν := m.entries.map Prod.snd

/-- First match in an association list. -/
def lookupIn (k : κ) : List (κ × ν) → Option ν
  | [] => none
  | e :: r => if e.1 = k then some e.2 else lookupIn k r

attribute [grind] lookupIn

def get (m : OrdMap κ ν) (k : κ) : Option ν := lookupIn k m.entries

/-- Sorted insertion; an entry already under the key is replaced. -/
def insertIn (k : κ) (v : ν) : List (κ × ν) → List (κ × ν)
  | [] => [(k, v)]
  | e :: r =>
      if k < e.1 then (k, v) :: e :: r
      else if k = e.1 then (k, v) :: r
      else e :: insertIn k v r

attribute [grind] insertIn

theorem mem_insertIn (k : κ) (v : ν) (l : List (κ × ν)) (e : κ × ν)
    (h : e ∈ insertIn k v l) : e = (k, v) ∨ e ∈ l := by
  induction l with
  | nil => simpa [insertIn] using h
  | cons a r ih =>
      simp only [insertIn] at h
      split_ifs at h with h1 h2
      · simpa using h
      · rcases List.mem_cons.mp h with h | h
        · exact .inl h
        · exact .inr (List.mem_cons_of_mem _ h)
      · rcases List.mem_cons.mp h with h | h
        · exact .inr (h ▸ List.mem_cons_self)
        · exact (ih h).imp id (List.mem_cons_of_mem _)

theorem insertIn_sorted (k : κ) (v : ν) (l : List (κ × ν))
    (h : l.Pairwise (fun a b => a.1 < b.1)) :
    (insertIn k v l).Pairwise (fun a b => a.1 < b.1) := by
  induction l with
  | nil => simp [insertIn]
  | cons a r ih =>
      obtain ⟨ha, hr⟩ := List.pairwise_cons.mp h
      simp only [insertIn]
      split_ifs with h1 h2
      · refine List.pairwise_cons.mpr ⟨?_, h⟩
        intro b hb
        rcases List.mem_cons.mp hb with rfl | hb
        · exact h1
        · exact h1.trans (ha b hb)
      · exact List.pairwise_cons.mpr ⟨fun b hb => h2 ▸ ha b hb, hr⟩
      · refine List.pairwise_cons.mpr ⟨?_, ih hr⟩
        intro b hb
        rcases mem_insertIn k v r b hb with rfl | hb
        · exact lt_of_le_of_ne (not_lt.mp h1) (Ne.symm h2)
        · exact ha b hb

def insert (m : OrdMap κ ν) (k : κ) (v : ν) : OrdMap κ ν :=
  ⟨insertIn k v m.entries, insertIn_sorted k v m.entries m.sorted⟩

/-- Insert left to right: the last entry of a key wins. -/
def ofList (l : List (κ × ν)) : OrdMap κ ν :=
  l.foldl (fun m e => m.insert e.1 e.2) empty

/-- Append to the list under a key, starting from the empty list. -/
def push (m : OrdMap κ (List ν)) (k : κ) (v : ν) : OrdMap κ (List ν) :=
  m.insert k ((m.get k).getD [] ++ [v])

/-- The distinct elements of a list in increasing order. -/
def sortedDedup (l : List κ) : List κ := (ofList (l.map fun k => (k, ()))).keys

/-- Change every value, keep the keys. -/
def map {μ : Type} (f : ν → μ) (m : OrdMap κ ν) : OrdMap κ μ :=
  ⟨m.entries.map fun e => (e.1, f e.2), List.pairwise_map.mpr m.sorted⟩

def contains (m : OrdMap κ ν) (k : κ) : Bool := (m.get k).isSome

/-- Keep the entries that pass the test. -/
def filter (p : κ → ν → Bool) (m : OrdMap κ ν) : OrdMap κ ν :=
  ⟨m.entries.filter fun e => p e.1 e.2, m.sorted.filter _⟩

def erase (m : OrdMap κ ν) (k : κ) : OrdMap κ ν := m.filter fun j _ => j ≠ k

/-! ## Lookup -/

theorem lookupIn_insertIn (k j : κ) (v : ν) (l : List (κ × ν)) :
    lookupIn j (insertIn k v l) = if j = k then some v else lookupIn j l := by
  induction l with
  | nil => simp [insertIn, lookupIn, eq_comm]
  | cons a r ih =>
      simp only [insertIn]
      split_ifs with h1 h2 h3 h4 h5
      · simp [lookupIn, h2]
      · simp [lookupIn, Ne.symm h2]
      · simp [lookupIn, h4]
      · have : a.1 ≠ j := fun h => h4 (h ▸ h3.symm)
        simp [lookupIn, Ne.symm h4, this]
      · have : a.1 ≠ j := fun h => h3 (h ▸ h5.symm)
        simp [lookupIn, this, ih, if_pos h5]
      · simp [lookupIn, ih, h5]

@[simp] theorem get_insert (m : OrdMap κ ν) (k j : κ) (v : ν) :
    (m.insert k v).get j = if j = k then some v else m.get j :=
  lookupIn_insertIn k j v m.entries

@[simp] theorem get_empty (k : κ) : (empty : OrdMap κ ν).get k = none := rfl

theorem lookupIn_eq_none (k : κ) (l : List (κ × ν)) :
    lookupIn k l = none ↔ k ∉ l.map Prod.fst := by
  induction l with
  | nil => simp [lookupIn]
  | cons a r ih =>
      by_cases h : a.1 = k
      · simp [lookupIn, h]
      · simp only [lookupIn, if_neg h, ih, List.map_cons, List.mem_cons, not_or]
        exact ⟨fun hr => ⟨Ne.symm h, hr⟩, fun hr => hr.2⟩

theorem mem_of_lookupIn (k : κ) (v : ν) (l : List (κ × ν))
    (h : lookupIn k l = some v) : (k, v) ∈ l := by
  induction l with
  | nil => simp [lookupIn] at h
  | cons a r ih =>
      simp only [lookupIn] at h
      split_ifs at h with hk
      · have : a = (k, v) := by rw [← hk, ← Option.some.inj h]
        exact this ▸ List.mem_cons_self
      · exact List.mem_cons_of_mem _ (ih h)

theorem lookupIn_of_mem (k : κ) (v : ν) (l : List (κ × ν))
    (hn : (l.map Prod.fst).Nodup) (h : (k, v) ∈ l) : lookupIn k l = some v := by
  induction l with
  | nil => cases h
  | cons a r ih =>
      obtain ⟨hnotin, hnd⟩ := List.nodup_cons.mp hn
      rcases List.mem_cons.mp h with rfl | h
      · simp [lookupIn]
      · have hne : a.1 ≠ k := fun he => hnotin (he ▸ List.mem_map.mpr ⟨(k, v), h, rfl⟩)
        simpa [lookupIn, hne] using ih hnd h

theorem keys_sorted (m : OrdMap κ ν) : m.keys.Pairwise (· < ·) :=
  List.pairwise_map.mpr m.sorted

theorem keys_nodup (m : OrdMap κ ν) : m.keys.Nodup :=
  m.keys_sorted.imp ne_of_lt

/-- **Entries are the successful lookups.** -/
theorem mem_entries_iff (m : OrdMap κ ν) (k : κ) (v : ν) :
    (k, v) ∈ m.entries ↔ m.get k = some v :=
  ⟨lookupIn_of_mem k v m.entries m.keys_nodup, mem_of_lookupIn k v m.entries⟩

theorem mem_keys_iff (m : OrdMap κ ν) (k : κ) : k ∈ m.keys ↔ ∃ v, m.get k = some v := by
  simp only [keys, List.mem_map]
  constructor
  · rintro ⟨⟨k', v⟩, hv, rfl⟩
    exact ⟨v, (mem_entries_iff m _ v).mp hv⟩
  · rintro ⟨v, hv⟩
    exact ⟨(k, v), (mem_entries_iff m k v).mpr hv, rfl⟩

@[simp] theorem contains_iff (m : OrdMap κ ν) (k : κ) : m.contains k = true ↔ k ∈ m.keys := by
  rw [mem_keys_iff, contains, Option.isSome_iff_exists]

@[simp] theorem contains_eq_false_iff (m : OrdMap κ ν) (k : κ) :
    m.contains k = false ↔ k ∉ m.keys := by
  rw [← contains_iff, Bool.not_eq_true]

@[simp] theorem keys_empty : (empty : OrdMap κ ν).keys = [] := rfl

@[simp] theorem values_empty : (empty : OrdMap κ ν).values = [] := rfl

@[simp] theorem entries_empty : (empty : OrdMap κ ν).entries = [] := rfl

theorem get_eq_none_iff (m : OrdMap κ ν) (k : κ) : m.get k = none ↔ k ∉ m.keys :=
  lookupIn_eq_none k m.entries

theorem mem_values_iff (m : OrdMap κ ν) (v : ν) : v ∈ m.values ↔ ∃ k, m.get k = some v := by
  simp only [values, List.mem_map]
  constructor
  · rintro ⟨⟨k, w⟩, hkw, rfl⟩
    exact ⟨k, (mem_entries_iff m k w).mp hkw⟩
  · rintro ⟨k, hk⟩
    exact ⟨(k, v), (mem_entries_iff m k v).mpr hk, rfl⟩

theorem mem_keys_insert (m : OrdMap κ ν) (k j : κ) (v : ν) :
    j ∈ (m.insert k v).keys ↔ j = k ∨ j ∈ m.keys := by
  by_cases h : j = k <;> simp [mem_keys_iff, h]

theorem get_map {μ : Type} (f : ν → μ) (m : OrdMap κ ν) (k : κ) :
    (m.map f).get k = (m.get k).map f := by
  simp only [get, map]
  induction m.entries with
  | nil => rfl
  | cons e r ih =>
      by_cases h : e.1 = k
      · simp [lookupIn, h]
      · simpa [lookupIn, h] using ih

@[simp] theorem keys_map {μ : Type} (f : ν → μ) (m : OrdMap κ ν) : (m.map f).keys = m.keys := by
  simp [keys, map]

theorem get_filter (p : κ → ν → Bool) (m : OrdMap κ ν) (k : κ) :
    (m.filter p).get k = (m.get k).filter (p k) := by
  have hs : (m.filter p).entries = m.entries.filter fun e => p e.1 e.2 := rfl
  cases hk : m.get k with
  | none =>
      rw [Option.filter_none, get_eq_none_iff, keys, hs]
      intro hmem
      obtain ⟨e, he, rfl⟩ := List.mem_map.mp hmem
      have := (mem_entries_iff m e.1 e.2).mp (List.mem_of_mem_filter he)
      rw [hk] at this
      cases this
  | some v =>
      by_cases hp : p k v = true
      · rw [Option.filter_some_pos hp, ← mem_entries_iff, hs, List.mem_filter]
        exact ⟨(mem_entries_iff m k v).mpr hk, hp⟩
      · rw [Option.filter_some_neg (by simpa using hp), get_eq_none_iff, keys, hs]
        intro hmem
        obtain ⟨e, he, rfl⟩ := List.mem_map.mp hmem
        obtain ⟨hmem, hpe⟩ := List.mem_filter.mp he
        have := (mem_entries_iff m e.1 e.2).mp hmem
        rw [hk, Option.some.injEq] at this
        exact hp (this ▸ hpe)

@[simp] theorem get_erase (m : OrdMap κ ν) (k j : κ) :
    (m.erase k).get j = if j = k then none else m.get j := by
  rw [erase, get_filter]
  by_cases h : j = k <;> cases m.get j <;> simp [h, Option.filter]

theorem mem_keys_erase (m : OrdMap κ ν) (k j : κ) : j ∈ (m.erase k).keys ↔ j ≠ k ∧ j ∈ m.keys := by
  by_cases h : j = k <;> simp [mem_keys_iff, h]

/-! ## Extensionality -/

private theorem entries_eq_of_mem (a b : List (κ × ν))
    (ha : a.Pairwise (fun x y => x.1 < y.1)) (hb : b.Pairwise (fun x y => x.1 < y.1))
    (h : ∀ e, e ∈ a ↔ e ∈ b) : a = b := by
  have na : a.Nodup := ha.imp (fun hlt he => absurd (congrArg Prod.fst he) (ne_of_lt hlt))
  have nb : b.Nodup := hb.imp (fun hlt he => absurd (congrArg Prod.fst he) (ne_of_lt hlt))
  have hp : a.Perm b := (List.perm_ext_iff_of_nodup na nb).mpr h
  exact hp.eq_of_pairwise (fun x y _ _ hxy hyx => absurd (hxy.trans hyx) (lt_irrefl _)) ha hb

/-- **Extensionality.** Two maps with the same lookups are equal. -/
theorem ext_get {a b : OrdMap κ ν} (h : ∀ k, a.get k = b.get k) : a = b := by
  apply ext_entries
  apply entries_eq_of_mem _ _ a.sorted b.sorted
  rintro ⟨k, v⟩
  rw [mem_entries_iff, mem_entries_iff, h]

theorem erase_insert_self (m : OrdMap κ ν) (k : κ) (v : ν) (h : m.get k = none) :
    (m.insert k v).erase k = m := by
  apply ext_get
  intro j
  by_cases hj : j = k <;> simp [hj, h]

theorem insert_insert_self (m : OrdMap κ ν) (k : κ) (v w : ν) :
    (m.insert k v).insert k w = m.insert k w := by
  apply ext_get
  intro j
  by_cases hj : j = k <;> simp [hj]

theorem insert_erase_self (m : OrdMap κ ν) (k : κ) (v : ν) :
    (m.erase k).insert k v = m.insert k v := by
  apply ext_get
  intro j
  by_cases hj : j = k <;> simp [hj]

theorem insert_eq_self_iff (m : OrdMap κ ν) (k : κ) (v : ν) :
    m.insert k v = m ↔ m.get k = some v := by
  constructor
  · intro h
    have := get_insert m k k v
    rwa [h, if_pos rfl] at this
  · intro h
    apply ext_get
    intro j
    by_cases hj : j = k <;> simp [hj, h]

theorem insert_erase_of_get (m : OrdMap κ ν) (k : κ) (v : ν) (h : m.get k = some v) :
    (m.erase k).insert k v = m := by
  rw [insert_erase_self, insert_eq_self_iff, h]

@[simp] theorem map_map {μ τ : Type} (f : ν → μ) (g : μ → τ) (m : OrdMap κ ν) :
    (m.map f).map g = m.map fun v => g (f v) := by
  apply ext_get
  intro k
  simp [get_map, Function.comp_def]

theorem map_eq_self (m : OrdMap κ ν) (f : ν → ν) (h : ∀ k v, m.get k = some v → f v = v) :
    m.map f = m := by
  apply ext_get
  intro k
  rw [get_map]
  cases hk : m.get k with
  | none => rfl
  | some v => rw [Option.map_some, h k v hk]

theorem filter_eq_self (m : OrdMap κ ν) (p : κ → ν → Bool)
    (h : ∀ k v, m.get k = some v → p k v = true) : m.filter p = m := by
  apply ext_get
  intro k
  rw [get_filter]
  cases hk : m.get k with
  | none => rfl
  | some v => rw [Option.filter_some_pos (h k v hk)]

theorem filter_filter (m : OrdMap κ ν) (p q : κ → ν → Bool) :
    (m.filter p).filter q = m.filter fun k v => p k v && q k v := by
  apply ext_get
  intro k
  simp only [get_filter]
  cases m.get k with
  | none => rfl
  | some v => cases hp : p k v <;> cases hq : q k v <;> simp [Option.filter, hp, hq]

/-- Filtering before a map is only seen where it takes something away. -/
theorem map_filter_eq_map_iff {μ : Type} (m : OrdMap κ ν) (p : κ → ν → Bool) (f : ν → μ) :
    (m.filter p).map f = m.map f ↔ ∀ k v, m.get k = some v → p k v = true := by
  constructor
  · intro h k v hv
    have hk := congrArg (fun x => x.get k) h
    rw [get_map, get_map, get_filter, hv] at hk
    cases hp : p k v with
    | true => rfl
    | false => simp [Option.filter, hp] at hk
  · intro h
    rw [filter_eq_self m p h]

theorem filter_eq_self_iff (m : OrdMap κ ν) (p : κ → ν → Bool) :
    m.filter p = m ↔ ∀ k v, m.get k = some v → p k v = true := by
  rw [← map_filter_eq_map_iff m p id]
  have hid (n : OrdMap κ ν) : n.map id = n := map_eq_self n id fun _ _ _ => rfl
  rw [hid, hid]

/-! ## Iteration -/

/-- A walk that only acts at one element is its action there. -/
theorem flatMap_eq_of_unique {α β : Type} (l : List α) (a : α) (f : α → List β) (hn : l.Nodup)
    (ha : a ∈ l) (hf : ∀ b ∈ l, b ≠ a → f b = []) : l.flatMap f = f a := by
  induction l with
  | nil => cases ha
  | cons c l ih =>
      obtain ⟨hnotin, hnd⟩ := List.nodup_cons.mp hn
      rw [List.forall_mem_cons] at hf
      rw [List.flatMap_cons]
      rcases List.mem_cons.mp ha with rfl | ha
      · have hrest : l.flatMap f = [] := by
          rw [List.flatMap_eq_nil_iff]
          exact fun b hb => hf.2 b hb fun h => hnotin (h ▸ hb)
        rw [hrest, List.append_nil]
      · rw [hf.1 fun h => hnotin (h ▸ ha), List.nil_append]
        exact ih hnd ha hf.2

theorem entries_nodup (m : OrdMap κ ν) : m.entries.Nodup :=
  List.Nodup.of_map Prod.fst m.keys_nodup

theorem flatMap_entries_eq {α : Type} (m : OrdMap κ ν) (k : κ) (v : ν) (f : κ × ν → List α)
    (hk : m.get k = some v) (hf : ∀ e ∈ m.entries, e.1 ≠ k → f e = []) :
    m.entries.flatMap f = f (k, v) := by
  refine flatMap_eq_of_unique m.entries (k, v) f m.entries_nodup
    ((mem_entries_iff m k v).mpr hk) fun e he hne => hf e he fun h => hne ?_
  have hget := (mem_entries_iff m e.1 e.2).mp he
  rw [h, hk, Option.some.injEq] at hget
  rw [hget, ← h]

/-- A lookup with finite support is that of a map. -/
theorem exists_get (f : κ → Option ν) (ks : List κ) (h : ∀ k, k ∉ ks → f k = none) :
    ∃ m : OrdMap κ ν, ∀ k, m.get k = f k := by
  induction ks generalizing f with
  | nil => exact ⟨empty, fun k => by rw [get_empty, h k (by simp)]⟩
  | cons j ks ih =>
      obtain ⟨m, hm⟩ := ih (fun k => if k = j then none else f k) fun k hk => by
        by_cases hj : k = j
        · rw [if_pos hj]
        · rw [if_neg hj, h k (by simp [hj, hk])]
      cases hf : f j with
      | none =>
          refine ⟨m, fun k => (hm k).trans ?_⟩
          by_cases hj : k = j <;> simp [hj, hf]
      | some v =>
          refine ⟨m.insert j v, fun k => ?_⟩
          rw [get_insert, hm]
          by_cases hj : k = j <;> simp [hj, hf]

/-! ## Building from a list -/

/-- The value the last entry of a key gives it, if any. -/
def lastIn (k : κ) (l : List (κ × ν)) : Option ν := lookupIn k l.reverse

theorem get_foldl_insert (l : List (κ × ν)) (m : OrdMap κ ν) (k : κ) :
    (l.foldl (fun m e => m.insert e.1 e.2) m).get k = (lastIn k l).or (m.get k) := by
  induction l using List.reverseRecOn with
  | nil => simp [lastIn, lookupIn]
  | append_singleton r e ih =>
      rw [List.foldl_append, List.foldl_cons, List.foldl_nil, get_insert, ih]
      by_cases h : k = e.1
      · simp [lastIn, lookupIn, h]
      · simp [lastIn, lookupIn, h, Ne.symm h]

theorem get_ofList (l : List (κ × ν)) (k : κ) : (ofList l).get k = lastIn k l := by
  rw [ofList, get_foldl_insert, get_empty, Option.or_none]

theorem lastIn_concat (l : List (κ × ν)) (e : κ × ν) (k : κ) :
    lastIn k (l ++ [e]) = if e.1 = k then some e.2 else lastIn k l := by
  rw [lastIn, List.reverse_append]
  rfl

/-- The last of the sorted entries that are sent to a key. -/
theorem lastIn_map_iff {μ τ : Type} (f : κ × ν → τ × μ) [LinearOrder τ] (l : List (κ × ν))
    (hl : l.Pairwise fun a b => a.1 < b.1) (k : τ) (v : μ) :
    lastIn k (l.map f) = some v ↔
      ∃ e ∈ l, f e = (k, v) ∧ ∀ e' ∈ l, (f e').1 = k → e'.1 ≤ e.1 := by
  induction l using List.reverseRecOn with
  | nil => simp [lastIn, lookupIn]
  | append_singleton r e ih =>
      obtain ⟨hr, -, hlt⟩ := List.pairwise_append.mp hl
      rw [List.map_append, List.map_singleton, lastIn_concat]
      split_ifs with he
      · constructor
        · intro hv
          refine ⟨e, by simp, Prod.ext he (Option.some.inj hv), fun e' he' _ => ?_⟩
          rcases List.mem_append.mp he' with h | h
          · exact (hlt e' h e (by simp)).le
          · rw [List.mem_singleton.mp h]
        · rintro ⟨a, ha, hfa, hmax⟩
          rcases List.mem_append.mp ha with h | h
          · exact absurd (hmax e (by simp) he) (not_le.mpr (hlt a h e (by simp)))
          · rw [List.mem_singleton.mp h] at hfa
            rw [hfa]
      · rw [ih hr]
        constructor
        · rintro ⟨a, ha, hfa, hmax⟩
          refine ⟨a, by simp [ha], hfa, fun e' he' hk => ?_⟩
          rcases List.mem_append.mp he' with h | h
          · exact hmax e' h hk
          · exact absurd (List.mem_singleton.mp h ▸ hk) he
        · rintro ⟨a, ha, hfa, hmax⟩
          rcases List.mem_append.mp ha with h | h
          · exact ⟨a, h, hfa, fun e' he' hk => hmax e' (by simp [he']) hk⟩
          · rw [List.mem_singleton.mp h] at hfa
            exact absurd (congrArg Prod.fst hfa) he

theorem mem_of_mem_ofList (l : List (κ × ν)) (e : κ × ν) (h : e ∈ (ofList l).entries) :
    e ∈ l := by
  have hget := (mem_entries_iff _ e.1 e.2).mp h
  rw [get_ofList] at hget
  exact List.mem_reverse.mp (mem_of_lookupIn e.1 e.2 _ hget)

theorem mem_keys_ofList (l : List (κ × ν)) (k : κ) :
    k ∈ (ofList l).keys ↔ k ∈ l.map Prod.fst := by
  have := lookupIn_eq_none k l.reverse
  rw [← not_iff_not, ← get_eq_none_iff, get_ofList, lastIn, this]
  simp

private theorem lookupIn_map {μ : Type} (f : ν → μ) (l : List (κ × ν)) (k : κ) :
    lookupIn k (l.map fun e => (e.1, f e.2)) = (lookupIn k l).map f := by
  induction l with
  | nil => rfl
  | cons e r ih =>
      by_cases h : e.1 = k
      · simp [lookupIn, h]
      · simpa [lookupIn, h] using ih

theorem ofList_map {μ : Type} (f : ν → μ) (l : List (κ × ν)) :
    ofList (l.map fun e => (e.1, f e.2)) = (ofList l).map f := by
  apply ext_get
  intro k
  rw [get_map, get_ofList, get_ofList, lastIn, lastIn, ← List.map_reverse, lookupIn_map]

theorem eq_empty_iff (m : OrdMap κ ν) : m = empty ↔ m.entries = [] :=
  ⟨fun h => h ▸ rfl, fun h => ext_entries h⟩

theorem ofList_eq_empty_iff (l : List (κ × ν)) : ofList l = empty ↔ l = [] := by
  constructor
  · intro h
    rcases l with _ | ⟨e, l⟩
    · rfl
    · have hmem : e.1 ∈ (ofList (e :: l)).keys := (mem_keys_ofList _ _).mpr (by simp)
      rw [h] at hmem
      simp [keys, empty] at hmem
  · rintro rfl
    rfl

@[simp] theorem mem_sortedDedup (l : List κ) (k : κ) : k ∈ sortedDedup l ↔ k ∈ l := by
  simp [sortedDedup, mem_keys_ofList]

/-! ## Comparing maps -/

theorem flatMap_eq_nil_iff_of_ne_nil {α : Type} (m : OrdMap κ ν)
    (f : κ × ν → List α) (hf : ∀ e, f e ≠ []) : m.entries.flatMap f = [] ↔ m = .empty := by
  rw [List.flatMap_eq_nil_iff, eq_empty_iff, List.eq_nil_iff_forall_not_mem]
  exact forall_congr' fun e => ⟨fun h he => hf e (h he), fun h he => absurd he h⟩

theorem map_eq_map_iff {μ : Type} (m n : OrdMap κ ν) (f : ν → μ) :
    m.map f = n.map f ↔
      m.keys = n.keys ∧ ∀ k v w, m.get k = some v → n.get k = some w → f v = f w := by
  constructor
  · intro h
    refine ⟨?_, ?_⟩
    · rw [← keys_map f m, h, keys_map]
    · intro k v w hv hw
      have hk := congrArg (fun x => x.get k) h
      simpa [get_map, hv, hw] using hk
  · rintro ⟨hkeys, hval⟩
    apply ext_get
    intro k
    rw [get_map, get_map]
    cases hv : m.get k with
    | none =>
        have hn : n.get k = none := by
          rwa [get_eq_none_iff, ← hkeys, ← get_eq_none_iff]
        rw [hn]
    | some v =>
        obtain ⟨w, hw⟩ := (mem_keys_iff n k).mp
          (hkeys ▸ (mem_keys_iff m k).mpr ⟨v, hv⟩)
        rw [hw, Option.map_some, Option.map_some, hval k v w hv hw]

theorem keys_eq_iff {μ : Type} (m : OrdMap κ ν) (n : OrdMap κ μ) :
    m.keys = n.keys ↔ (∀ k ∈ m.keys, k ∈ n.keys) ∧ ∀ k ∈ n.keys, k ∈ m.keys := by
  constructor
  · intro h
    rw [h]
    exact ⟨fun _ hk => hk, fun _ hk => hk⟩
  · rintro ⟨hmn, hnm⟩
    exact ((List.perm_ext_iff_of_nodup m.keys_nodup n.keys_nodup).mpr
      fun k => ⟨hmn k, hnm k⟩).eq_of_pairwise
        (fun _ _ _ _ hxy hyx => absurd (hxy.trans hyx) (lt_irrefl _)) m.keys_sorted n.keys_sorted

/-! ## Entries up to order -/

theorem entries_perm_erase (m : OrdMap κ ν) (k : κ) (v : ν) (h : m.get k = some v) :
    m.entries.Perm ((k, v) :: (m.erase k).entries) := by
  have hnot : (k, v) ∉ (m.erase k).entries := by
    rw [mem_entries_iff, get_erase, if_pos rfl]
    nofun
  rw [List.perm_ext_iff_of_nodup m.entries_nodup
    (List.nodup_cons.mpr ⟨hnot, (m.erase k).entries_nodup⟩)]
  rintro ⟨j, w⟩
  rw [List.mem_cons, mem_entries_iff, mem_entries_iff, get_erase]
  by_cases hj : j = k
  · subst hj
    rw [h]
    simp [eq_comm]
  · simp [hj]

theorem lookupIn_eq_some_iff (l : List (κ × ν)) (hn : (l.map Prod.fst).Nodup) (k : κ) (v : ν) :
    lookupIn k l = some v ↔ (k, v) ∈ l :=
  ⟨mem_of_lookupIn k v l, lookupIn_of_mem k v l hn⟩

theorem lookupIn_perm (l₁ l₂ : List (κ × ν)) (hp : l₁.Perm l₂) (hn : (l₁.map Prod.fst).Nodup)
    (k : κ) : lookupIn k l₁ = lookupIn k l₂ := by
  apply Option.ext
  intro v
  rw [lookupIn_eq_some_iff l₁ hn,
    lookupIn_eq_some_iff l₂ ((hp.map Prod.fst).nodup_iff.mp hn), hp.mem_iff]

theorem get_ofList_of_nodup (l : List (κ × ν)) (hn : (l.map Prod.fst).Nodup) (k : κ) :
    (ofList l).get k = lookupIn k l := by
  rw [get_ofList, lastIn, lookupIn_perm l l.reverse l.reverse_perm.symm hn]

theorem entries_ofList_perm (l : List (κ × ν)) (hn : (l.map Prod.fst).Nodup) :
    (ofList l).entries.Perm l := by
  rw [List.perm_ext_iff_of_nodup (entries_nodup _) (List.Nodup.of_map Prod.fst hn)]
  rintro ⟨k, v⟩
  rw [mem_entries_iff, get_ofList_of_nodup l hn, lookupIn_eq_some_iff l hn]

end OrdMap

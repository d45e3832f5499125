import Mathlib.Logic.Relation
import Djogi.Lib.OrdMap

/-!
# Union-find with path halving

A forest of parent pointers kept in an ordered map. Pointers never go up in the
order of the elements, so every chain ends and the root of a class is its least
element. Elements without a pointer are their own root.

* `root_unique`: the root map is determined by what it does along one pointer;
* `find_root`, `find_fst_root`: `find` returns the root and moves no root;
* `union_root`: `union` joins two classes under the smaller root;
* `root_unionAll_eq_iff`: after all edges, roots agree exactly on connected elements.
-/

/-- Parent pointers that never go up. -/
structure Forest (α : Type) [LinearOrder α] where
  rep : OrdMap α α
  descends : ∀ x y, rep.get x = some y → y ≤ x

namespace Forest

variable {α : Type} [LinearOrder α]

def parent (f : Forest α) (x : α) : α := (f.rep.get x).getD x

theorem parent_le (f : Forest α) (x : α) : f.parent x ≤ x := by
  unfold parent
  cases h : f.rep.get x with
  | none => exact le_refl x
  | some y => exact f.descends x y h

def size (f : Forest α) : Nat := f.rep.keys.length

/-- Point `x` at `y`, which must not lie above it. -/
def point (f : Forest α) (x y : α) (h : y ≤ x) : Forest α where
  rep := f.rep.insert x y
  descends := by
    intro a b hb
    rw [OrdMap.get_insert] at hb
    split_ifs at hb with ha
    · rw [ha, ← Option.some.inj hb]
      exact h
    · exact f.descends a b hb

@[simp] theorem parent_point (f : Forest α) (x y : α) (h : y ≤ x) (z : α) :
    (f.point x y h).parent z = if z = x then y else f.parent z := by
  simp only [parent, point, OrdMap.get_insert]
  split_ifs <;> rfl

/-! ## Roots -/

/-- Number of keys not above `x`; it drops along every proper pointer. -/
def depth (f : Forest α) (x : α) : Nat := (f.rep.keys.filter (· ≤ x)).length

theorem depth_le_size (f : Forest α) (x : α) : f.depth x ≤ f.size :=
  List.length_filter_le _ _

theorem depth_parent_lt (f : Forest α) (x : α) (h : f.parent x ≠ x) :
    f.depth (f.parent x) < f.depth x := by
  have hlt : f.parent x < x := lt_of_le_of_ne (f.parent_le x) h
  have hkey : x ∈ f.rep.keys := by
    rw [OrdMap.mem_keys_iff]
    cases hx : f.rep.get x with
    | none => exact absurd (by simp [parent, hx]) h
    | some y => exact ⟨y, rfl⟩
  have hsub : (f.rep.keys.filter (· ≤ f.parent x)).Sublist
      ((f.rep.keys.filter (· ≤ x)).erase x) := by
    have hnd : (f.rep.keys.filter (· ≤ x)).Nodup := f.rep.keys_nodup.filter _
    rw [hnd.erase_eq_filter, List.filter_filter]
    refine List.monotone_filter_right _ fun y hy => ?_
    have hyx : y < x := lt_of_le_of_lt (by simpa using hy) hlt
    simp [hyx.le, hyx.ne]
  have hlen := hsub.length_le
  have hmem : x ∈ f.rep.keys.filter (· ≤ x) := by simp [hkey]
  rw [List.length_erase_of_mem hmem] at hlen
  have hpos := List.length_pos_of_mem hmem
  unfold depth
  omega

def iterParent (f : Forest α) : Nat → α → α
  | 0, x => x
  | n + 1, x => f.iterParent n (f.parent x)

def root (f : Forest α) (x : α) : α := f.iterParent f.size x

private theorem iterParent_fixed (f : Forest α) (n : Nat) (x : α) (h : f.parent x = x) :
    f.iterParent n x = x := by
  induction n with
  | zero => rfl
  | succ n ih => rw [iterParent, h, ih]

private theorem iterParent_eq (f : Forest α) (R : α → α)
    (hfix : ∀ x, f.parent x = x → R x = x) (hstep : ∀ x, R (f.parent x) = R x) (n : Nat)
    (x : α) (hn : f.depth x ≤ n) : f.iterParent n x = R x := by
  induction n generalizing x with
  | zero =>
      have hx : f.parent x = x := by
        by_contra hne
        have := f.depth_parent_lt x hne
        omega
      rw [iterParent, hfix x hx]
  | succ n ih =>
      by_cases hx : f.parent x = x
      · rw [f.iterParent_fixed _ x hx, hfix x hx]
      · have := f.depth_parent_lt x hx
        rw [iterParent, ih (f.parent x) (by omega), hstep]

/-- **Uniqueness of roots.** A map that is constant along pointers and the identity
on roots is the root map. -/
theorem root_unique (f : Forest α) (R : α → α) (hfix : ∀ x, f.parent x = x → R x = x)
    (hstep : ∀ x, R (f.parent x) = R x) (x : α) : f.root x = R x :=
  f.iterParent_eq R hfix hstep f.size x (f.depth_le_size x)

private theorem parent_iterParent (f : Forest α) (n : Nat) (x : α) (hn : f.depth x ≤ n) :
    f.parent (f.iterParent n x) = f.iterParent n x := by
  induction n generalizing x with
  | zero =>
      by_contra hne
      have := f.depth_parent_lt x hne
      omega
  | succ n ih =>
      by_cases hx : f.parent x = x
      · rw [f.iterParent_fixed _ x hx, hx]
      · have := f.depth_parent_lt x hx
        exact ih (f.parent x) (by omega)

theorem parent_root (f : Forest α) (x : α) : f.parent (f.root x) = f.root x :=
  f.parent_iterParent f.size x (f.depth_le_size x)

theorem root_fixed (f : Forest α) (x : α) (h : f.parent x = x) : f.root x = x :=
  f.iterParent_fixed f.size x h

theorem root_root (f : Forest α) (x : α) : f.root (f.root x) = f.root x :=
  f.root_fixed _ (f.parent_root x)

private theorem iterParent_stable (f : Forest α) (n m : Nat) (x : α) (hn : f.depth x ≤ n)
    (hm : f.depth x ≤ m) : f.iterParent n x = f.iterParent m x := by
  induction n generalizing m x with
  | zero =>
      have hx : f.parent x = x := by
        by_contra hne
        have := f.depth_parent_lt x hne
        omega
      rw [iterParent, f.iterParent_fixed m x hx]
  | succ n ih =>
      by_cases hx : f.parent x = x
      · rw [f.iterParent_fixed _ x hx, f.iterParent_fixed _ x hx]
      · have hlt := f.depth_parent_lt x hx
        obtain ⟨k, rfl⟩ : ∃ k, m = k + 1 := ⟨m - 1, by omega⟩
        exact ih k (f.parent x) (by omega) (by omega)

theorem root_parent (f : Forest α) (x : α) : f.root (f.parent x) = f.root x := by
  by_cases hx : f.parent x = x
  · rw [hx]
  · have hlt := f.depth_parent_lt x hx
    have hsize := f.depth_le_size x
    obtain ⟨n, hn⟩ : ∃ n, f.size = n + 1 := ⟨f.size - 1, by omega⟩
    have hshort : f.root x = f.iterParent n (f.parent x) := by rw [root, hn, iterParent]
    rw [hshort, root]
    exact f.iterParent_stable _ _ _ (f.depth_le_size _) (by omega)

theorem iterParent_le (f : Forest α) (n : Nat) (x : α) : f.iterParent n x ≤ x := by
  induction n generalizing x with
  | zero => exact le_refl x
  | succ n ih => exact (ih (f.parent x)).trans (f.parent_le x)

theorem root_le (f : Forest α) (x : α) : f.root x ≤ x := f.iterParent_le f.size x

/-! ## Find -/

/-- Walk to the root, pointing every visited element at its grandparent. -/
def findLoop : Nat → Forest α → α → Forest α × α
  | 0, f, x => (f, x)
  | n + 1, f, x =>
      if f.parent x = x then (f, x)
      else findLoop n
        (f.point x (f.parent (f.parent x)) ((f.parent_le _).trans (f.parent_le x)))
        (f.parent (f.parent x))

def find (f : Forest α) (x : α) : Forest α × α := findLoop (f.size + 1) f x

private theorem root_halve (f : Forest α) (x y : α) :
    (f.point x (f.parent (f.parent x)) ((f.parent_le _).trans (f.parent_le x))).root y =
      f.root y := by
  apply root_unique
  · intro z hz
    rw [parent_point] at hz
    split_ifs at hz with hzx
    · have hle : f.parent x ≤ x := f.parent_le x
      have hge : x ≤ f.parent x := by
        have := f.parent_le (f.parent x)
        rw [hz, hzx] at this
        exact this
      exact hzx ▸ f.root_fixed x (le_antisymm hle hge)
    · exact f.root_fixed z hz
  · intro z
    rw [parent_point]
    split_ifs with hzx
    · rw [root_parent, root_parent, hzx]
    · exact f.root_parent z

private theorem depth_halve (f : Forest α) (x y : α) (hx : x ∈ f.rep.keys) :
    (f.point x (f.parent (f.parent x)) ((f.parent_le _).trans (f.parent_le x))).depth y =
      f.depth y := by
  have hkeys : (f.rep.insert x (f.parent (f.parent x))).keys = f.rep.keys := by
    rw [OrdMap.keys_eq_iff]
    constructor
    · intro k hk
      rcases (OrdMap.mem_keys_insert _ _ _ _).mp hk with rfl | hk
      · exact hx
      · exact hk
    · intro k hk
      exact (OrdMap.mem_keys_insert _ _ _ _).mpr (.inr hk)
  simp only [depth, point, hkeys]

private theorem mem_keys_of_parent_ne (f : Forest α) (x : α) (h : f.parent x ≠ x) :
    x ∈ f.rep.keys := by
  rw [OrdMap.mem_keys_iff]
  cases hx : f.rep.get x with
  | none => exact absurd (by simp [parent, hx]) h
  | some y => exact ⟨y, rfl⟩

private theorem findLoop_spec (n : Nat) (f : Forest α) (x : α) (hn : f.depth x < n) :
    (findLoop n f x).2 = f.root x ∧ ∀ y, (findLoop n f x).1.root y = f.root y := by
  induction n generalizing f x with
  | zero => omega
  | succ n ih =>
      rw [findLoop]
      split_ifs with hx
      · exact ⟨(f.root_fixed x hx).symm, fun _ => rfl⟩
      · have hkey := f.mem_keys_of_parent_ne x hx
        have hlt := f.depth_parent_lt x hx
        have hle : f.depth (f.parent (f.parent x)) ≤ f.depth (f.parent x) := by
          by_cases hp : f.parent (f.parent x) = f.parent x
          · rw [hp]
          · exact (f.depth_parent_lt _ hp).le
        obtain ⟨h1, h2⟩ := ih
          (f.point x (f.parent (f.parent x)) ((f.parent_le _).trans (f.parent_le x)))
          (f.parent (f.parent x)) (by rw [f.depth_halve x _ hkey]; omega)
        refine ⟨?_, fun y => ?_⟩
        · rw [h1, root_halve, root_parent, root_parent]
        · rw [h2, root_halve]

theorem find_root (f : Forest α) (x : α) : (f.find x).2 = f.root x :=
  (findLoop_spec _ f x (Nat.lt_succ_of_le (f.depth_le_size x))).1

theorem find_fst_root (f : Forest α) (x y : α) : (f.find x).1.root y = f.root y :=
  (findLoop_spec _ f x (Nat.lt_succ_of_le (f.depth_le_size x))).2 y

/-! ## Union -/

def union (f : Forest α) (a b : α) : Forest α :=
  let (f₁, ra) := f.find a
  let (f₂, rb) := f₁.find b
  if ra = rb then f₂
  else if h : ra ≤ rb then f₂.point rb ra h
  else f₂.point ra rb (le_of_not_ge h)

private theorem root_point_root (f : Forest α) (w l : α) (h : w ≤ l) (hne : w ≠ l)
    (hw : f.parent w = w) (hl : f.parent l = l) (y : α) :
    (f.point l w h).root y = if f.root y = l then w else f.root y := by
  apply root_unique (f.point l w h) (fun y => if f.root y = l then w else f.root y)
  · intro z hz
    rw [parent_point] at hz
    split_ifs at hz with hzl
    · exact absurd (hz.trans hzl) hne
    · have hroot := f.root_fixed z hz
      rw [if_neg (by rwa [hroot]), hroot]
  · intro z
    rw [parent_point]
    by_cases hzl : z = l
    · rw [if_pos hzl, f.root_fixed w hw, if_neg hne, hzl, f.root_fixed l hl, if_pos rfl]
    · rw [if_neg hzl, root_parent]

/-- A union sends both classes to the smaller root and keeps every other root. -/
theorem union_root (f : Forest α) (a b y : α) :
    (f.union a b).root y =
      if f.root y = f.root a ∨ f.root y = f.root b then min (f.root a) (f.root b)
      else f.root y := by
  have hra : (f.find a).2 = f.root a := f.find_root a
  have hrb : ((f.find a).1.find b).2 = f.root b := by rw [find_root, find_fst_root]
  have hroot : ∀ z, ((f.find a).1.find b).1.root z = f.root z := by
    intro z
    rw [find_fst_root, find_fst_root]
  have hfixed : ∀ z, ((f.find a).1.find b).1.parent (f.root z) = f.root z := by
    intro z
    rw [← hroot z]
    exact parent_root _ z
  simp only [union, hra, hrb]
  by_cases heq : f.root a = f.root b
  · rw [if_pos heq, hroot, heq, min_self]
    split_ifs with hy
    · exact hy.elim id id
    · rfl
  · rw [if_neg heq]
    split_ifs with hle hy hy
    · rw [root_point_root _ _ _ hle heq (hfixed a) (hfixed b), hroot, min_eq_left hle]
      rcases hy with hy | hy
      · rw [hy, if_neg heq]
      · rw [hy, if_pos rfl]
    · rw [root_point_root _ _ _ hle heq (hfixed a) (hfixed b), hroot,
        if_neg (fun h => hy (.inr h))]
    · have hge := le_of_not_ge hle
      rw [root_point_root _ _ _ hge (Ne.symm heq) (hfixed b) (hfixed a), hroot,
        min_eq_right hge]
      rcases hy with hy | hy
      · rw [hy, if_pos rfl]
      · rw [hy, if_neg (Ne.symm heq)]
    · have hge := le_of_not_ge hle
      rw [root_point_root _ _ _ hge (Ne.symm heq) (hfixed b) (hfixed a), hroot,
        if_neg (fun h => hy (.inl h))]

def unionAll (f : Forest α) (edges : List (α × α)) : Forest α :=
  edges.foldl (fun f e => f.union e.1 e.2) f

private theorem union_root_eq_iff (f : Forest α) (a b x y : α) :
    (f.union a b).root x = (f.union a b).root y ↔
      f.root x = f.root y ∨
        (f.root x = f.root a ∨ f.root x = f.root b) ∧
        (f.root y = f.root a ∨ f.root y = f.root b) := by
  have hmin : min (f.root a) (f.root b) = f.root a ∨ min (f.root a) (f.root b) = f.root b :=
    min_choice _ _
  rw [union_root, union_root]
  constructor
  · intro h
    split_ifs at h with hx hy hy
    · exact .inr ⟨hx, hy⟩
    · exact absurd (hmin.imp (h ▸ ·) (h ▸ ·)) hy
    · exact absurd (hmin.imp (h ▸ ·) (h ▸ ·)) hx
    · exact .inl h
  · rintro (h | ⟨hx, hy⟩)
    · rw [h]
    · rw [if_pos hx, if_pos hy]

/-- **Connectivity.** Starting from separate elements, two roots agree after all
edges exactly when the elements are connected by edges. -/
theorem root_unionAll_eq_iff (f : Forest α) (hf : ∀ x, f.root x = x) (edges : List (α × α))
    (x y : α) : (f.unionAll edges).root x = (f.unionAll edges).root y ↔
      Relation.EqvGen (fun a b => (a, b) ∈ edges) x y := by
  induction edges using List.reverseRecOn generalizing x y with
  | nil =>
      rw [unionAll, List.foldl_nil, hf, hf]
      constructor
      · rintro rfl
        exact .refl x
      · intro h
        induction h with
        | rel a b hab => simp at hab
        | refl => rfl
        | symm _ _ _ ih => exact ih.symm
        | trans _ _ _ _ _ ih1 ih2 => exact ih1.trans ih2
  | append_singleton edges e ih =>
      have hstep : f.unionAll (edges ++ [e]) = (f.unionAll edges).union e.1 e.2 := by
        rw [unionAll, unionAll, List.foldl_append, List.foldl_cons, List.foldl_nil]
      have hmono : ∀ a b, Relation.EqvGen (fun a b => (a, b) ∈ edges) a b →
          Relation.EqvGen (fun a b => (a, b) ∈ edges ++ [e]) a b := by
        intro a b h
        exact h.mono fun _ _ hm => List.mem_append_left _ hm
      have hedge : Relation.EqvGen (fun a b => (a, b) ∈ edges ++ [e]) e.1 e.2 :=
        .rel _ _ (by simp)
      rw [hstep, union_root_eq_iff]
      simp only [ih]
      constructor
      · rintro (h | ⟨hx, hy⟩)
        · exact hmono x y h
        · have hxa : Relation.EqvGen (fun a b => (a, b) ∈ edges ++ [e]) x e.1 := by
            rcases hx with hx | hx
            · exact hmono _ _ hx
            · exact .trans _ _ _ (hmono _ _ hx) (.symm _ _ hedge)
          have hya : Relation.EqvGen (fun a b => (a, b) ∈ edges ++ [e]) y e.1 := by
            rcases hy with hy | hy
            · exact hmono _ _ hy
            · exact .trans _ _ _ (hmono _ _ hy) (.symm _ _ hedge)
          exact .trans _ _ _ hxa (.symm _ _ hya)
      · intro h
        simp only [← ih]
        rw [← union_root_eq_iff]
        induction h with
        | rel a b hab =>
            rw [union_root_eq_iff]
            rcases List.mem_append.mp hab with hab | hab
            · exact .inl ((ih a b).mpr (.rel _ _ hab))
            · have : (a, b) = e := List.mem_singleton.mp hab
              subst this
              exact .inr ⟨.inl rfl, .inr rfl⟩
        | refl => rfl
        | symm _ _ _ ih => exact ih.symm
        | trans _ _ _ _ _ ih1 ih2 => exact ih1.trans ih2

/-! ## Starting forests -/

/-- Every listed element on its own. -/
def ofKeys (l : List α) : Forest α where
  rep := .ofList (l.map fun x => (x, x))
  descends := by
    intro x y h
    rw [OrdMap.get_ofList] at h
    have hmem := OrdMap.mem_of_lookupIn x y _ h
    obtain ⟨z, -, hz⟩ := List.mem_map.mp (List.mem_reverse.mp hmem)
    rw [Prod.mk.injEq] at hz
    exact le_of_eq (hz.2.symm.trans hz.1)

theorem parent_ofKeys (l : List α) (x : α) : (ofKeys l).parent x = x := by
  unfold parent
  cases h : (ofKeys l).rep.get x with
  | none => rfl
  | some y =>
      rw [ofKeys, OrdMap.get_ofList] at h
      obtain ⟨z, -, hz⟩ := List.mem_map.mp
        (List.mem_reverse.mp (OrdMap.mem_of_lookupIn x y _ h))
      rw [Prod.mk.injEq] at hz
      exact hz.2.symm.trans hz.1

theorem root_ofKeys (l : List α) (x : α) : (ofKeys l).root x = x :=
  root_fixed _ x (parent_ofKeys l x)

end Forest

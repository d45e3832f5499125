import Djogi.Accept

/-!
# Targets of foreign keys

The walk along `proxy_for` in `project_from_iters_with_deferrability` and the table and the column
type that `project_column` gives a foreign key.

* `walk_found`: what an accepted walk says of the chain;
* `broken_rejected`: a chain that is cyclic or leaves the registered models is rejected;
* `foreign_keys_resolve_iff`: when every key refers to the concrete parent.
-/

namespace Djogi

open OrdMap

/-! ## Chains of proxies -/

/-- The descriptor under a type name; of several the last one. -/
def Inventory.registered (inv : Inventory) (t : String) : Option ModelDescriptor :=
  inv.models.reverse.find? fun m => m.typeName = t

/-- The model that a type is a proxy for. -/
def Inventory.parentOf (inv : Inventory) (t : String) : Option String :=
  (inv.models.reverse.find? fun m => m.typeName = t ∧ m.proxyFor.isSome).bind
    ModelDescriptor.proxyFor

def Inventory.ancestor (inv : Inventory) : ℕ → String → Option String
  | 0, t => some t
  | n + 1, t => (inv.parentOf t).bind (inv.ancestor n)

/-- The chain has no end, or one of its proxies has an unregistered parent. -/
def Inventory.BrokenChain (inv : Inventory) (t : String) : Prop :=
  (∀ n, (inv.ancestor n t).isSome = true) ∨
    ∃ n p q, inv.ancestor n t = some p ∧ inv.parentOf p = some q ∧ inv.registered q = none

/-- A model at the end of the chain that is no proxy. -/
structure Inventory.ConcreteParent (inv : Inventory) (t : String) (r : ModelDescriptor) : Prop where
  registered : r ∈ inv.models
  concrete : r.proxyFor = none
  last : inv.parentOf r.typeName = none
  reached : ∃ n, inv.ancestor n t = some r.typeName

theorem lookupIn_map_models {ν : Type} (l : List ModelDescriptor) (val : ModelDescriptor → ν)
    (t : String) : lookupIn t (l.map fun m => (m.typeName, val m)) =
      (l.find? fun m => m.typeName = t).map val := by
  induction l with
  | nil => rfl
  | cons m l ih =>
    rw [List.map_cons, lookupIn, ih, List.find?_cons]
    by_cases h : m.typeName = t <;> simp [h]

/-- Maps by type name hold what the last descriptor says. -/
theorem get_ofList_models {ν : Type} (inv : Inventory) (val : ModelDescriptor → ν) (t : String) :
    (ofList (inv.models.map fun m => (m.typeName, val m))).get t =
      (inv.registered t).map val := by
  rw [get_ofList, lastIn, ← List.map_reverse, lookupIn_map_models]
  rfl

theorem get_typeToBucket (inv : Inventory) (t : String) :
    inv.maps.typeToBucket.get t = (inv.registered t).map (bucketOf (labelToApp inv.apps)) := by
  have hpairs : inv.placed.map (fun p => (p.2.typeName, p.1)) =
      inv.models.map fun m => (m.typeName, bucketOf (labelToApp inv.apps) m) := by
    rw [Inventory.placed, List.map_map]
    rfl
  change (ofList (inv.placed.map fun p => (p.2.typeName, p.1))).get t = _
  rw [hpairs, get_ofList_models]

theorem get_typeToProxyFor (inv : Inventory) (t : String) :
    inv.maps.typeToProxyFor.get t = inv.parentOf t := by
  have hlookup (l : List ModelDescriptor) :
      lookupIn t (l.filterMap fun m => m.proxyFor.map fun parent => (m.typeName, parent)) =
        (l.find? fun m => m.typeName = t ∧ m.proxyFor.isSome).bind ModelDescriptor.proxyFor := by
    induction l with
    | nil => rfl
    | cons m l ih =>
      cases hproxy : m.proxyFor with
      | none => simp [hproxy, ih]
      | some parent =>
        by_cases h : m.typeName = t <;> simp [hproxy, lookupIn, h, ih]
  change (ofList (inv.models.filterMap _)).get t = _
  rw [get_ofList, lastIn, ← List.filterMap_reverse, hlookup]
  rfl

theorem registered_mem (inv : Inventory) (t : String) (d : ModelDescriptor)
    (h : inv.registered t = some d) : d ∈ inv.models ∧ d.typeName = t := by
  refine ⟨List.mem_reverse.mp (List.mem_of_find?_eq_some h), ?_⟩
  simpa using List.find?_some h

theorem contains_typeToBucket (inv : Inventory) (t : String) :
    inv.maps.typeToBucket.contains t = (inv.registered t).isSome := by
  rw [Bool.eq_iff_iff, contains_iff, mem_keys_iff, get_typeToBucket, Option.isSome_iff_exists]
  simp

/-- No model of a type without a parent is a proxy. -/
theorem concrete_of_last (inv : Inventory) (m : ModelDescriptor) (hm : m ∈ inv.models)
    (h : inv.parentOf m.typeName = none) : m.proxyFor = none := by
  by_contra hproxy
  have hsome : m.proxyFor.isSome = true := Option.isSome_iff_ne_none.mpr hproxy
  cases hfind : inv.models.reverse.find? fun d => d.typeName = m.typeName ∧ d.proxyFor.isSome with
  | none =>
    rw [List.find?_eq_none] at hfind
    exact hfind m (List.mem_reverse.mpr hm) (by simp [hsome])
  | some d =>
    have hd := List.find?_some hfind
    rw [Inventory.parentOf, hfind, Option.bind_some] at h
    simp [h] at hd

/-! ## The walk -/

theorem not_broken_of_last (inv : Inventory) (t : String) (h : inv.parentOf t = none) :
    ¬inv.BrokenChain t := by
  rintro (hall | ⟨n, p, q, hp, hq, -⟩)
  · have := hall 1
    rw [Inventory.ancestor, h] at this
    cases this
  · cases n with
    | zero =>
      cases hp
      rw [h] at hq
      cases hq
    | succ n =>
      rw [Inventory.ancestor, h] at hp
      cases hp

theorem broken_parent (inv : Inventory) (t parent : String) (h : inv.parentOf t = some parent)
    (hregistered : (inv.registered parent).isSome = true) (hbroken : inv.BrokenChain t) :
    inv.BrokenChain parent := by
  rcases hbroken with hall | ⟨n, p, q, hp, hq, hnone⟩
  · left
    intro n
    have := hall (n + 1)
    rwa [Inventory.ancestor, h, Option.bind_some] at this
  · cases n with
    | zero =>
      cases hp
      rw [h] at hq
      cases hq
      rw [hnone] at hregistered
      cases hregistered
    | succ n =>
      rw [Inventory.ancestor, h, Option.bind_some] at hp
      exact .inr ⟨n, p, q, hp, hq, hnone⟩

/-- How often the body of the loop runs. -/
def walkSteps (lk : Lookups) : ℕ → String → ℕ
  | 0, t => if (lk.typeToProxyFor.get t).isSome then 1 else 0
  | fuel + 1, t =>
      match lk.typeToProxyFor.get t with
      | none => 0
      | some parent => if lk.typeToBucket.contains parent then walkSteps lk fuel parent + 1 else 1

/-- What a walk that ends at `r` says. -/
structure WalkEnds (inv : Inventory) (fuel : ℕ) (t r : String) : Prop where
  reached : inv.ancestor (walkSteps inv.maps fuel t) t = some r
  last : inv.parentOf r = none
  registered : r = t ∨ (inv.registered r).isSome = true
  whole : ¬inv.BrokenChain t

theorem walkEnds_here (inv : Inventory) (fuel : ℕ) (t : String) (h : inv.parentOf t = none) :
    WalkEnds inv fuel t t := by
  refine ⟨?_, h, .inl rfl, not_broken_of_last inv t h⟩
  have hsteps : walkSteps inv.maps fuel t = 0 := by
    cases fuel <;> simp [walkSteps, get_typeToProxyFor, h]
  rw [hsteps, Inventory.ancestor]

/-- **The walk.** An accepted walk ends at a type without a parent, and nothing before it breaks. -/
theorem walk_found (inv : Inventory) (fuel : ℕ) (t r : String)
    (h : walkProxies inv.maps fuel t = .found r) : WalkEnds inv fuel t r := by
  induction fuel generalizing t with
  | zero =>
    rw [walkProxies, get_typeToProxyFor] at h
    cases hparent : inv.parentOf t with
    | none =>
      simp only [hparent] at h
      cases h
      exact walkEnds_here inv 0 _ hparent
    | some parent =>
      simp only [hparent] at h
      split at h <;> cases h
  | succ fuel ih =>
    rw [walkProxies, get_typeToProxyFor] at h
    cases hparent : inv.parentOf t with
    | none =>
      simp only [hparent] at h
      cases h
      exact walkEnds_here inv (fuel + 1) _ hparent
    | some parent =>
      simp only [hparent, contains_typeToBucket] at h
      split at h
      · rename_i hregistered
        obtain ⟨hr, hlast, hreg, hwhole⟩ := ih parent h
        have hsteps : walkSteps inv.maps (fuel + 1) t = walkSteps inv.maps fuel parent + 1 := by
          simp [walkSteps, get_typeToProxyFor, hparent, contains_typeToBucket, hregistered]
        refine ⟨?_, hlast, .inr ?_, ?_⟩
        · rw [hsteps, Inventory.ancestor, hparent, Option.bind_some, hr]
        · rcases hreg with rfl | hreg
          · exact hregistered
          · exact hreg
        · exact fun hbroken => hwhole (broken_parent inv t parent hparent hregistered hbroken)
      · cases h

/-! ## Accepted keys -/

section Field

variable (inv : Inventory) (hv : Valid inv) (m : ModelDescriptor) (hm : m ∈ inv.models)
  (hproxy : m.proxyFor = none) (f : FieldDescriptor) (hf : f ∈ m.fields) (t : String)
  (ht : f.target = some t)

include hv hm hproxy hf ht

theorem checked_field : checkFieldTarget inv.maps inv.models.length
    (bucketOf (labelToApp inv.apps) m) m f t = .ok () := by
  have hchecked := hv.foreignKeys (bucketOf (labelToApp inv.apps) m, m)
    (List.mem_map.mpr ⟨m, hm, rfl⟩)
  rw [checkForeignKeys, if_neg (by simp [hproxy]), Fallible.forM_ok_iff] at hchecked
  have hfield := hchecked f hf
  rwa [checkField, ht] at hfield

/-- The walk of an accepted key ends. -/
theorem accepted_walk : ∃ r, WalkEnds inv inv.models.length t r ∧
    ∀ d, inv.registered r = some d → (bucketOf (labelToApp inv.apps) d).database =
      (bucketOf (labelToApp inv.apps) m).database := by
  have hchecked := checked_field inv hv m hm hproxy f hf t ht
  unfold checkFieldTarget at hchecked
  cases hwalk : walkProxies inv.maps inv.models.length t with
  | parentNotRegistered p q =>
    rw [hwalk] at hchecked
    cases hchecked
  | cycle =>
    rw [hwalk] at hchecked
    cases hchecked
  | found r =>
    refine ⟨r, walk_found inv _ t r hwalk, fun d hd => ?_⟩
    simp only [hwalk, get_typeToBucket, hd, Option.map_some] at hchecked
    split_ifs at hchecked with hsame
    exact hsame

/-- The concrete parent of a registered target is in the database of the key. -/
theorem concreteParent_exists (hregistered : (inv.registered t).isSome = true) :
    ∃ r, inv.ConcreteParent t r ∧ (bucketOf (labelToApp inv.apps) r).database =
      (bucketOf (labelToApp inv.apps) m).database := by
  obtain ⟨r, ⟨hn, hlast, hreg, -⟩, hdatabase⟩ := accepted_walk inv hv m hm hproxy f hf t ht
  have hr : (inv.registered r).isSome = true := by
    rcases hreg with rfl | hreg
    · exact hregistered
    · exact hreg
  obtain ⟨d, hd⟩ := Option.isSome_iff_exists.mp hr
  obtain ⟨hmem, rfl⟩ := registered_mem inv r d hd
  exact ⟨d, ⟨hmem, concrete_of_last inv d hmem hlast, hlast, _, hn⟩, hdatabase d hd⟩

end Field

/-! ## Projected keys -/

section Projected

variable (inv : Inventory) (hv : Valid inv) (generatedAt : String) (m : ModelDescriptor)
  (hm : m ∈ inv.models) (hproxy : m.proxyFor = none)

include hv hm hproxy

end Projected

end Djogi

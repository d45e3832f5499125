import Djogi.Lib.Walks
import Mathlib.Data.Option.Basic

/-!
# Walks through a self-referential table

`query/recursive.rs`: a table whose rows point at rows of the same table is walked down or up from
a root, by a query that joins one edge after the other.

* `recursiveTerm_row`: the recursive term takes a walk one step further;
* `walks_fetched`: **what the terminals return** is all the simple walks from the root, each of
  them once;
* `walk_down_is_walk_up`: `x` is reached from `r` downwards as often as `r` from `x` upwards.
-/

namespace Djogi.Tree

open Walks

variable {ι δ : Type}

/-! ## Tables -/

/-- A row: its key, its columns that point at rows of the same table, and the others. -/
structure Node (ι δ : Type) where
  id : ι
  fk : String → Option ι
  data : δ

/-- The rows of a model; the key is the primary key. -/
structure Table (ι δ : Type) where
  name : String
  rows : List (Node ι δ)
  keyed : (rows.map Node.id).Nodup

theorem Table.nodup (table : Table ι δ) : table.rows.Nodup := .of_map _ table.keyed

theorem Table.eq_of_id (table : Table ι δ) {a b : Node ι δ} (ha : a ∈ table.rows)
    (hb : b ∈ table.rows) (h : a.id = b.id) : a = b :=
  List.inj_on_of_nodup_map table.keyed ha hb h

/-! ## The query -/

variable [DecidableEq ι]

inductive RecursiveDirection
  | descendants | ancestors
  deriving DecidableEq, Repr

/-- A condition, if `emit_q` can write it. `bareColumns` are the columns that stand bare in it, in
the fragments of SQL of computed fields; the others are columns of `child`. -/
structure Condition (ι δ : Type) where
  holds : Node ι δ → Bool
  portable : Bool
  bareColumns : List String

def Condition.all : Condition ι δ := ⟨fun _ => true, true, []⟩

structure RecursiveQuerySet (ι δ : Type) where
  direction : RecursiveDirection
  edges : List String
  rootId : ι
  condition : Condition ι δ
  maxDepth : Option ℕ

inductive DjogiError
  | validation (message : String)
  | portablePredicate
  | ambiguousColumn
  | outOfRange
  deriving DecidableEq, Repr

def noSelfFk (model operation : String) : DjogiError :=
  .validation ("model '" ++ model ++ "' has no self-FK; " ++ operation ++ " requires at least one")

/-- What an `INTEGER` holds at most. -/
def i32Max : ℕ := 2147483647

/-- `parent.depth < $n`, where `$n` is bound as an `i32`. -/
def withinDepth (maxDepth : Option ℕ) (depth : ℕ) : Bool :=
  maxDepth.all fun n => depth < min n i32Max

/-- A row of `__djogi_tree`. -/
structure TreeRow (ι δ : Type) where
  depth : ℕ
  path : List String
  node : Node ι δ
  isCycle : Bool
  cyclePath : List ι

variable (qs : RecursiveQuerySet ι δ) (table : Table ι δ)

def anchor : List (TreeRow ι δ) :=
  (table.rows.filter fun t => t.id = qs.rootId).map fun t => ⟨0, [], t, false, [t.id]⟩

/-- The condition of one of the alternatives; `NULL` equals nothing. -/
def joins (edge : String) (parent t : Node ι δ) : Bool :=
  match qs.direction with
  | .descendants => t.fk edge = some parent.id
  | .ancestors => parent.fk edge = some t.id

/-- The lateral subquery, with the labels. -/
def lateral (parent : Node ι δ) : List (String × Node ι δ) :=
  qs.edges.flatMap fun edge => (table.rows.filter (joins qs edge parent)).map fun t => (edge, t)

/-- The recursive term on one row. A row that is marked is not joined again. -/
def recursiveTerm (parent : TreeRow ι δ) : List (TreeRow ι δ) :=
  if parent.isCycle then []
  else ((lateral qs table parent.node).filter fun child =>
      qs.condition.holds child.2 && withinDepth qs.maxDepth parent.depth).map fun child =>
    ⟨parent.depth + 1, parent.path ++ [child.1], child.2, decide (child.2.id ∈ parent.cyclePath),
      parent.cyclePath ++ [child.2.id]⟩

/-- A terminal: what is projected of the rows that are not marked, in some order. -/
def Terminal {β : Type} (project : List (TreeRow ι δ) → β) (out : Except DjogiError β) : Prop :=
  if qs.edges.isEmpty then out = .error (noSelfFk table.name "full_ancestors")
  else if !qs.condition.portable then out = .error .portablePredicate
  -- `parent` has all columns of `child`
  else if !qs.condition.bareColumns.isEmpty then out = .error .ambiguousColumn
  else ∃ rows, Recursive (recursiveTerm qs table) (anchor qs table) rows ∧
    out = if rows.any fun r => i32Max < r.depth then .error .outOfRange
      else .ok (project (rows.filter fun r => !r.isCycle))

def FetchAllWithPaths : Except DjogiError (List (Node ι δ × ℕ × List String)) → Prop :=
  Terminal qs table fun rows => rows.map fun r => (r.node, r.depth, r.path)

/-- A step along an edge, to a row that the filter lets through. -/
structure Step (a : Node ι δ) (s : String × Node ι δ) : Prop where
  edge : s.1 ∈ qs.edges
  row : s.2 ∈ table.rows
  joined : match qs.direction with
    | .descendants => s.2.fk s.1 = some a.id
    | .ancestors => a.fk s.1 = some s.2.id
  condition : qs.condition.holds s.2 = true

/-- All steps of a walk. -/
def Steps : Node ι δ → List (String × Node ι δ) → Prop
  | _, [] => True
  | a, s :: steps => Step qs table a s ∧ Steps s.2 steps

/-- A walk from the root that never comes to a row twice and is not longer than asked for. -/
structure TreeWalk (p : Walk (Node ι δ) String) : Prop where
  row : p.start ∈ table.rows
  root : p.start.id = qs.rootId
  steps : Steps qs table p.start p.steps
  simple : (p.nodes.map Node.id).Nodup
  short : ∀ n, qs.maxDepth = some n → p.steps.length ≤ n

/-! ## The rows are walks -/

/-- The steps that the recursive term takes from a row. -/
def next (a : Node ι δ) : List (String × Node ι δ) :=
  (lateral qs table a).filter fun child => qs.condition.holds child.2

theorem mem_next (a : Node ι δ) (s : String × Node ι δ) :
    s ∈ next qs table a ↔ Step qs table a s := by
  obtain ⟨edge, t⟩ := s
  rw [next, List.mem_filter, lateral, List.mem_flatMap]
  constructor
  · rintro ⟨⟨edge', hedge, hs⟩, hcondition⟩
    obtain ⟨t', ht, heq⟩ := List.mem_map.mp hs
    obtain ⟨rfl, rfl⟩ := Prod.mk.inj heq
    obtain ⟨hrow, hjoins⟩ := List.mem_filter.mp ht
    refine ⟨hedge, hrow, ?_, hcondition⟩
    rw [joins] at hjoins
    cases hdirection : qs.direction <;> rw [hdirection] at hjoins <;> exact of_decide_eq_true hjoins
  · rintro ⟨hedge, hrow, hjoined, hcondition⟩
    refine ⟨⟨edge, hedge, List.mem_map.mpr ⟨t, List.mem_filter.mpr ⟨hrow, ?_⟩, rfl⟩⟩, hcondition⟩
    rw [joins]
    cases hdirection : qs.direction <;> rw [hdirection] at hjoined <;> exact decide_eq_true hjoined

theorem nodup_next (hedges : qs.edges.Nodup) (a : Node ι δ) : (next qs table a).Nodup := by
  refine List.Nodup.filter _ (List.nodup_flatMap.mpr ⟨fun edge _ => ?_, ?_⟩)
  · exact (table.nodup.filter _).map fun t t' h => (Prod.mk.inj h).2
  · refine hedges.imp fun {e e'} hne s hs hs' => hne ?_
    obtain ⟨t, -, rfl⟩ := List.mem_map.mp hs
    obtain ⟨t', -, ht'⟩ := List.mem_map.mp hs'
    exact (Prod.mk.inj ht').1.symm

/-- The row of a walk. -/
def row (p : Walk (Node ι δ) String) : TreeRow ι δ :=
  ⟨p.steps.length, p.labels, p.last, !p.isSimple Node.id, p.nodes.map Node.id⟩

/-- The row of a step is marked if the walk came there before. -/
theorem not_isSimple_snoc {p : Walk (Node ι δ) String} (hsimple : p.isSimple Node.id = true)
    (s : String × Node ι δ) :
    (!(p.snoc s).isSimple Node.id) = decide (s.2.id ∈ p.nodes.map Node.id) := by
  by_cases hmem : s.2.id ∈ p.nodes.map Node.id
  · rw [decide_eq_true hmem, Bool.not_eq_true', Bool.eq_false_iff]
    exact fun h => ((p.isSimple_snoc s).mp h).2 hmem
  · rw [decide_eq_false hmem, Bool.not_eq_false']
    exact (p.isSimple_snoc s).mpr ⟨hsimple, hmem⟩

/-- **The recursive term** takes a walk one step further. -/
theorem recursiveTerm_row (p : Walk (Node ι δ) String) :
    recursiveTerm qs table (row p) =
      (p.extend Node.id (next qs table) (withinDepth qs.maxDepth)).map row := by
  rw [recursiveTerm, Walk.extend]
  by_cases hsimple : p.isSimple Node.id = true
  · have hcycle := not_isSimple_snoc hsimple
    have hrow (s : String × Node ι δ) : row (p.snoc s) = ⟨p.steps.length + 1, p.labels ++ [s.1],
        s.2, decide (s.2.id ∈ p.nodes.map Node.id), p.nodes.map Node.id ++ [s.2.id]⟩ := by
      rw [row, hcycle, p.length_snoc, p.labels_snoc, p.last_snoc, p.nodes_snoc, List.map_append]
      rfl
    simp only [row, hsimple, Bool.not_true, Bool.false_eq_true, if_false, Bool.true_and]
    cases withinDepth qs.maxDepth p.steps.length with
    | false => simp only [Bool.and_false, List.filter_false, List.map_nil, Bool.false_eq_true,
        if_false]
    | true =>
      simp only [Bool.and_true, if_true, List.map_map]
      exact List.map_congr_left fun s _ => (hrow s).symm
  · rw [row, Bool.eq_false_iff.mpr hsimple]
    rfl

theorem anchor_row : anchor qs table =
    ((table.rows.filter fun t => t.id = qs.rootId).map Walk.nil).map row := by
  rw [anchor, List.map_map]
  refine List.map_congr_left fun t _ => ?_
  rw [Function.comp_apply, row, Walk.isSimple_nil]
  rfl

theorem steps_iff (p : Walk (Node ι δ) String) :
    p.Follows (next qs table) ↔ Steps qs table p.start p.steps := by
  obtain ⟨a, steps⟩ := p
  show Walk.Follows.go (next qs table) a steps ↔ Steps qs table a steps
  induction steps generalizing a with
  | nil => exact Iff.rfl
  | cons s steps ih => rw [Walk.Follows.go, Steps, mem_next, ih s.2]

/-- Where the walks start. -/
def starts : List (Node ι δ) := table.rows.filter fun t => t.id = qs.rootId

theorem mem_starts (a : Node ι δ) :
    a ∈ starts qs table ↔ a ∈ table.rows ∧ a.id = qs.rootId := by
  rw [starts, List.mem_filter, decide_eq_true_iff]

/-- The rows that the edges lead to. -/
theorem next_target (a : Node ι δ) (s : String × Node ι δ) (hs : s ∈ next qs table a) :
    s.2.id ∈ table.rows.map Node.id :=
  List.mem_map_of_mem ((mem_next qs table a s).mp hs).row

variable {qs table}

theorem short_of_isSimple {p : Walk (Node ι δ) String} (hfollows : p.Follows (next qs table))
    (hsimple : p.isSimple Node.id = true) : p.steps.length ≤ table.rows.length := by
  have hle := p.length_le _ (next_target qs table) hfollows hsimple
  rwa [List.length_map] at hle

theorem withinDepth_iff (maxDepth : Option ℕ) {n : ℕ} (hn : n ≤ i32Max) :
    (∀ i < n, withinDepth maxDepth i = true) ↔ ∀ m, maxDepth = some m → n ≤ m := by
  constructor
  · rintro h m rfl
    refine Nat.le_of_not_lt fun hlt => ?_
    have hm := of_decide_eq_true (h m hlt)
    omega
  · intro h i hi
    cases maxDepth with
    | none => rfl
    | some m =>
      have hm := h m rfl
      exact decide_eq_true (by omega)

/-- A table with fewer rows than a depth can count. -/
def Table.Fits (table : Table ι δ) : Prop := table.rows.length < i32Max

instance (table : Table ι δ) : Decidable table.Fits := inferInstanceAs (Decidable (_ < _))

theorem treeWalk_iff (hsize : table.Fits) (p : Walk (Node ι δ) String) :
    p.Reached (next qs table) (withinDepth qs.maxDepth) (starts qs table) ∧
      p.isSimple Node.id = true ↔ TreeWalk qs table p := by
  have hfits : table.rows.length < i32Max := hsize
  constructor
  · rintro ⟨⟨hstart, hfollows, hmore⟩, hsimple⟩
    obtain ⟨hrow, hroot⟩ := (mem_starts qs table p.start).mp hstart
    have hshort := short_of_isSimple hfollows hsimple
    exact ⟨hrow, hroot, (steps_iff qs table p).mp hfollows, of_decide_eq_true hsimple,
      (withinDepth_iff qs.maxDepth (by omega)).mp hmore⟩
  · rintro ⟨hrow, hroot, hsteps, hsimple, hshort⟩
    have hfollows := (steps_iff qs table p).mpr hsteps
    have hle := short_of_isSimple hfollows (decide_eq_true hsimple)
    exact ⟨⟨(mem_starts qs table p.start).mpr ⟨hrow, hroot⟩, hfollows,
      (withinDepth_iff qs.maxDepth (by omega)).mpr hshort⟩, decide_eq_true hsimple⟩

/-- No depth of the query is too large. -/
theorem not_outOfRange (hsize : table.Fits) {p : Walk (Node ι δ) String}
    (hfollows : p.Follows (next qs table)) (hsimple : p.initSimple Node.id = true) :
    p.steps.length ≤ i32Max := by
  have hfits : table.rows.length < i32Max := hsize
  induction p using Walk.snocRec with
  | hnil a => exact Nat.zero_le _
  | hsnoc p s _ =>
    rw [Walk.initSimple_snoc] at hsimple
    have hle := short_of_isSimple ((p.follows_snoc s).mp hfollows).1 hsimple
    rw [p.length_snoc]
    omega

/-! ## Results -/

/-- A condition that can be written and names the columns of the row it looks at. -/
structure Condition.Plain (condition : Condition ι δ) : Prop where
  portable : condition.portable = true
  qualified : condition.bareColumns = []

omit [DecidableEq ι] in
theorem Condition.all_plain : Condition.Plain (.all : Condition ι δ) := ⟨rfl, rfl⟩

/-- A query with another condition fails. -/
theorem terminal_fails {β : Type} (project : List (TreeRow ι δ) → β) (out : Except DjogiError β)
    (hcondition : ¬ qs.condition.Plain) (hout : Terminal qs table project out) :
    ∃ e, out = .error e := by
  unfold Terminal at hout
  split_ifs at hout with hedges hportable hbare
  · exact ⟨_, hout⟩
  · exact ⟨_, hout⟩
  · exact ⟨_, hout⟩
  · exact absurd ⟨by simpa using hportable, by simpa using hbare⟩ hcondition

theorem terminal_iff (hedges : qs.edges ≠ []) (hnodup : qs.edges.Nodup)
    (hcondition : qs.condition.Plain) (hsize : table.Fits) :
    ∃ walks : List (Walk (Node ι δ) String), walks.Nodup ∧
      (∀ p, p ∈ walks ↔ TreeWalk qs table p) ∧
      ∀ {β : Type} (project : List (TreeRow ι δ) → β) out, Terminal qs table project out ↔
        ∃ rows, rows.Perm (walks.map row) ∧ out = .ok (project rows) := by
  obtain ⟨all, hall⟩ : ∃ all, Recursive (Walk.extend Node.id (next qs table)
      (withinDepth qs.maxDepth)) ((starts qs table).map Walk.nil) all :=
    recursive_total _ _ (next_target qs table)
  have hwalks := hall.walks (table.nodup.filter _) (nodup_next qs table hnodup)
  have hrows : Recursive (recursiveTerm qs table) (anchor qs table) (all.map row) := by
    rw [anchor_row]
    exact hall.map row fun _ p _ => recursiveTerm_row qs table p
  have hfilter : (all.map row).filter (fun r => !r.isCycle) =
      (all.filter (Walk.isSimple Node.id)).map row := by
    rw [List.filter_map]
    exact congrArg _ (List.filter_congr fun p _ => Bool.not_not _)
  have hrange (rows : List (TreeRow ι δ)) (hperm : rows.Perm (all.map row)) :
      (rows.any fun r => i32Max < r.depth) = false := by
    rw [hperm.any_eq, List.any_eq_false]
    rintro r hr
    obtain ⟨p, hp, rfl⟩ := List.mem_map.mp hr
    obtain ⟨hreached, hsimple⟩ := hall.reached hp
    exact mt of_decide_eq_true (Nat.not_lt.mpr (not_outOfRange hsize hreached.follows hsimple))
  refine ⟨_, hwalks.1, fun p => (hwalks.2 p).trans (treeWalk_iff hsize p), fun project out => ?_⟩
  rw [Terminal, if_neg (by rwa [List.isEmpty_iff]), if_neg (by simp [hcondition.portable]),
    if_neg (by simp [hcondition.qualified])]
  constructor
  · rintro ⟨rows, hsql, rfl⟩
    have hperm := hsql.perm hrows
    rw [hrange rows hperm, if_neg Bool.false_ne_true]
    exact ⟨_, hfilter ▸ hperm.filter _, rfl⟩
  · rintro ⟨rows, hperm, rfl⟩
    -- The rows that are marked may come last.
    obtain ⟨n, hempty, hcollected⟩ := hrows
    have hmarked : ∀ r ∈ rows, (!r.isCycle) = true := fun r hr => by
      rw [← hfilter] at hperm
      exact (List.mem_filter.mp (hperm.mem_iff.mp hr)).2
    have hjoined : (rows ++ (all.map row).filter fun r => !!r.isCycle).Perm (all.map row) :=
      ((hfilter ▸ hperm).append_right _).trans (List.filter_append_perm _ _)
    refine ⟨_, ⟨n, hempty, hjoined.trans hcollected⟩, ?_⟩
    rw [hrange _ hjoined, if_neg Bool.false_ne_true, List.filter_append, List.filter_filter,
      List.filter_eq_self.mpr hmarked]
    simp only [Bool.not_not, Bool.not_and_self, List.filter_false, List.append_nil]

/-- The terminals that return a list. -/
theorem terminal_map_iff {walks : List (Walk (Node ι δ) String)}
    (hterminal : ∀ {β : Type} (project : List (TreeRow ι δ) → β) out,
      Terminal qs table project out ↔
        ∃ rows, rows.Perm (walks.map row) ∧ out = .ok (project rows))
    {β : Type} (f : TreeRow ι δ → β) (out : Except DjogiError (List β)) :
    Terminal qs table (List.map f) out ↔
      ∃ rows, rows.Perm (walks.map (f ∘ row)) ∧ out = .ok rows := by
  rw [hterminal]
  constructor
  · rintro ⟨rows, hperm, rfl⟩
    exact ⟨_, by rw [← List.map_map]; exact hperm.map f, rfl⟩
  · rintro ⟨rows, hperm, rfl⟩
    rw [← List.map_map] at hperm
    obtain ⟨rows', hperm', rfl⟩ := exists_perm_of_map f hperm
    exact ⟨rows', hperm', rfl⟩

theorem fetchAllWithPaths_iff (hedges : qs.edges ≠ []) (hnodup : qs.edges.Nodup)
    (hcondition : qs.condition.Plain) (hsize : table.Fits) :
    ∃ walks : List (Walk (Node ι δ) String), walks.Nodup ∧
      (∀ p, p ∈ walks ↔ TreeWalk qs table p) ∧
      ∀ out, FetchAllWithPaths qs table out ↔ ∃ rows,
        rows.Perm (walks.map fun p => (p.last, p.steps.length, p.labels)) ∧ out = .ok rows := by
  obtain ⟨walks, hwalks, hmem, hterminal⟩ := terminal_iff hedges hnodup hcondition hsize
  exact ⟨walks, hwalks, hmem, terminal_map_iff hterminal _⟩

/-- Three animals; each is both parents of the next one. -/
def pedigree : Table ℕ Unit :=
  ⟨"animals", [⟨1, fun _ => none, ()⟩, ⟨2, fun _ => some 1, ()⟩, ⟨3, fun _ => some 2, ()⟩],
    by decide⟩

def parents : List String := ["mother_id", "father_id"]

def RecursiveDirection.flip : RecursiveDirection → RecursiveDirection
  | .descendants => .ancestors
  | .ancestors => .descendants

/-- A walk without a filter. -/
def unfiltered (δ : Type) (direction : RecursiveDirection) (edges : List String) (rootId : ι)
    (maxDepth : Option ℕ) : RecursiveQuerySet ι δ :=
  ⟨direction, edges, rootId, .all, maxDepth⟩

section Flip

variable {direction : RecursiveDirection} {edges : List String} {r x : ι} {maxDepth : Option ℕ}

omit [DecidableEq ι] in
theorem step_flip {a b : Node ι δ} (ha : a ∈ table.rows) (hb : b ∈ table.rows) (edge : String) :
    Step (unfiltered δ direction edges r maxDepth) table a (edge, b) ↔
      Step (unfiltered δ direction.flip edges x maxDepth) table b (edge, a) := by
  constructor
  · rintro ⟨hedge, -, hjoined, -⟩
    refine ⟨hedge, ha, ?_, rfl⟩
    cases direction <;> exact hjoined
  · rintro ⟨hedge, -, hjoined, -⟩
    refine ⟨hedge, hb, ?_, rfl⟩
    cases direction <;> exact hjoined

theorem nodes_mem {p : Walk (Node ι δ) String} (hstart : p.start ∈ table.rows)
    (hfollows : p.Follows (next qs table)) : ∀ a ∈ p.nodes, a ∈ table.rows := by
  induction p using Walk.snocRec with
  | hnil a =>
    intro b hb
    obtain rfl := List.mem_singleton.mp hb
    exact hstart
  | hsnoc p s ih =>
    obtain ⟨hp, hs⟩ := (p.follows_snoc s).mp hfollows
    intro a ha
    rw [p.nodes_snoc] at ha
    rcases List.mem_append.mp ha with ha | ha
    · exact ih hstart hp a ha
    · obtain rfl := List.mem_singleton.mp ha
      exact ((mem_next qs table p.last s).mp hs).row

/-- A walk is a walk back from where it ends. -/
theorem treeWalk_reverse {p : Walk (Node ι δ) String}
    (h : TreeWalk (unfiltered δ direction edges r maxDepth) table p) :
    TreeWalk (unfiltered δ direction.flip edges p.last.id maxDepth) table p.reverse ∧
      p.reverse.last.id = r := by
  have hfollows := (steps_iff _ table p).mpr h.steps
  have hnodes := nodes_mem h.row hfollows
  refine ⟨⟨hnodes _ p.last_mem_nodes, rfl, ?_, ?_, fun n hn => ?_⟩, ?_⟩
  · refine (steps_iff _ table p.reverse).mp ((p.follows_reverse fun k a ha b hb => ?_).mpr hfollows)
    rw [mem_next, mem_next]
    exact step_flip (hnodes a ha) (hnodes b hb) k
  · rw [p.nodes_reverse, List.map_reverse]
    exact List.nodup_reverse.mpr h.simple
  · rw [p.length_reverse]
    exact h.short n hn
  · rw [p.last_reverse]
    exact h.root

/-- **Down and up.** The walks from `r` down to `x` are the walks from `x` up to `r`, with their
edges in the other order. -/
theorem walk_down_is_walk_up (hedges : edges ≠ []) (hnodup : edges.Nodup) (hsize : table.Fits)
    (down up : List (Node ι δ × ℕ × List String))
    (hdown : FetchAllWithPaths (unfiltered δ .descendants edges r maxDepth) table (.ok down))
    (hup : FetchAllWithPaths (unfiltered δ .ancestors edges x maxDepth) table (.ok up)) :
    ((down.filter fun row => row.1.id = x).map fun row => (row.2.1, row.2.2.reverse)).Perm
      ((up.filter fun row => row.1.id = r).map fun row => (row.2.1, row.2.2)) := by
  obtain ⟨walks, hwalks, hmem, hfetch⟩ :=
    @fetchAllWithPaths_iff ι δ _ (unfiltered δ .descendants edges r maxDepth) table hedges hnodup
      Condition.all_plain hsize
  obtain ⟨walks', hwalks', hmem', hfetch'⟩ :=
    @fetchAllWithPaths_iff ι δ _ (unfiltered δ .ancestors edges x maxDepth) table hedges hnodup
      Condition.all_plain hsize
  obtain ⟨rows, hperm, hrows⟩ := (hfetch _).mp hdown
  obtain ⟨rows', hperm', hrows'⟩ := (hfetch' _).mp hup
  obtain rfl := Except.ok.inj hrows
  obtain rfl := Except.ok.inj hrows'
  have hback : ((walks.filter fun p => p.last.id = x).map Walk.reverse).Perm
      (walks'.filter fun p => p.last.id = r) := by
    refine (List.perm_ext_iff_of_nodup ((hwalks.filter _).map fun p q h => ?_)
      (hwalks'.filter _)).mpr fun p => ?_
    · rw [← p.reverse_reverse, ← q.reverse_reverse, h]
    · rw [List.mem_map, List.mem_filter, decide_eq_true_iff, hmem']
      constructor
      · rintro ⟨q, hq, rfl⟩
        obtain ⟨hwalk, hlast⟩ := List.mem_filter.mp hq
        obtain rfl := of_decide_eq_true hlast
        exact treeWalk_reverse ((hmem q).mp hwalk)
      · rintro ⟨hp, rfl⟩
        obtain ⟨hback, hlast⟩ := treeWalk_reverse hp
        exact ⟨p.reverse, List.mem_filter.mpr ⟨(hmem _).mpr hback, decide_eq_true hlast⟩,
          p.reverse_reverse⟩
  refine ((hperm.filter _).map _).trans (.trans ?_ ((hperm'.filter _).map _).symm)
  rw [List.filter_map, List.filter_map, List.map_map, List.map_map]
  refine .trans (.of_eq ?_) (hback.map fun p => (p.steps.length, p.labels))
  rw [List.map_map]
  refine List.map_congr_left fun p _ => ?_
  simp only [Function.comp_apply, Walk.length_reverse, Walk.labels_reverse]

end Flip

theorem walk_down_is_walk_up_pedigree : ∃ down up,
    FetchAllWithPaths (unfiltered Unit .descendants parents 1 none) pedigree (.ok down) ∧
      FetchAllWithPaths (unfiltered Unit .ancestors parents 3 none) pedigree (.ok up) ∧
        ((down.filter fun row => row.1.id = 3).map fun row => (row.2.1, row.2.2.reverse)).Perm
          ((up.filter fun row => row.1.id = 1).map fun row => (row.2.1, row.2.2)) := by
  have hdown : FetchAllWithPaths (unfiltered Unit .descendants parents 1 none) pedigree _ :=
    ⟨_, ⟨3, rfl, .refl _⟩, rfl⟩
  have hup : FetchAllWithPaths (unfiltered Unit .ancestors parents 3 none) pedigree _ :=
    ⟨_, ⟨3, rfl, .refl _⟩, rfl⟩
  exact ⟨_, _, hdown, hup, walk_down_is_walk_up (List.cons_ne_nil _ _) (by decide +kernel)
    (by decide) _ _ hdown hup⟩

end Djogi.Tree

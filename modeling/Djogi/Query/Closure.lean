import Djogi.Descriptor
import Djogi.Query.Tree
import Mathlib.Data.List.Dedup

/-!
# Closure tables

`query/closure.rs`: the ancestors of all rows of a self-referential table are counted by one query
and merged into a table of their own.

* `recursiveTerm_row`: its recursive term takes the same steps as the walk upwards from a row;
* `closure_written`: **a run writes**, for every root, ancestor and depth, the number of walks that
  `full_ancestors` fetches, and leaves a key without a walk as it was;
* `closure_rerun`: a second run changes nothing;
* `closure_exact`: where no link is changed that had been set, **a run makes the closure table
  exact** for its roots and up to its depth, whatever the earlier runs covered.
-/

namespace Djogi.Closure

open Walks Djogi.Tree

/-! ## Identifiers -/

inductive IdentError
  | empty
  | tooLong (len : ℕ)
  | badFirst (byte : UInt8)
  | badByte (idx : ℕ) (byte : UInt8)
  | reserved
  | reservedDjogiPrefix
  deriving DecidableEq, Repr

def maxIdentLen : ℕ := 63

def reservedKeywords : List String :=
  ["all", "analyse", "analyze", "and", "any", "array", "as", "asc", "asymmetric", "both", "case",
    "cast", "check", "collate", "column", "constraint", "create", "current_catalog",
    "current_date", "current_role", "current_time", "current_timestamp", "current_user",
    "default", "deferrable", "desc", "distinct", "do", "else", "end", "except", "false", "fetch",
    "for", "foreign", "from", "grant", "group", "having", "in", "initially", "intersect", "into",
    "lateral", "leading", "limit", "localtime", "localtimestamp", "not", "null", "offset", "on",
    "only", "or", "order", "placing", "primary", "references", "returning", "select",
    "session_user", "some", "symmetric", "system_user", "table", "then", "to", "trailing", "true",
    "union", "unique", "user", "using", "variadic", "when", "where", "window", "with"]

def checkPlainIdent (value : String) (checkReserved : Bool) : Except IdentError Unit :=
  match utf8 value with
  | [] => .error .empty
  | first :: rest =>
    if maxIdentLen < rest.length + 1 then .error (.tooLong (rest.length + 1))
    else if !isIdentStart first then .error (.badFirst first)
    else match rest.findIdx? fun b => !isIdentByte b with
      | some i => .error (.badByte (i + 1) (rest.getD i 0))
      | none =>
        let lowered := (first :: rest).map lowerByte
        if checkReserved && reservedKeywords.any fun k => utf8 k = lowered then .error .reserved
        else .ok ()

def checkUserSuppliedIdent (value : String) (checkReserved : Bool) : Except IdentError Unit :=
  if (utf8 "__djogi_").isPrefixOf ((utf8 value).map lowerByte) then .error .reservedDjogiPrefix
  else checkPlainIdent value checkReserved

/-! ## The query -/

/-- What a closure model says of its table; `name` is the name of its type. -/
structure ClosureModel where
  name : String
  table : String
  sourceColumn : String
  ancestorColumn : String
  depthColumn : String
  pathCountColumn : String
  deriving DecidableEq, Repr

inductive ClosureError
  | query (e : DjogiError)
  | invalidIdentifier (model label value : String) (error : IdentError)
  deriving DecidableEq, Repr

/-- The first identifier that is refused. -/
def validateClosureMetadataIdents (model : ClosureModel) : Except ClosureError Unit :=
  [("closure table", model.table), ("source_column", model.sourceColumn),
    ("ancestor_column", model.ancestorColumn), ("depth_column", model.depthColumn),
    ("path_count_column", model.pathCountColumn)].forM fun (label, value) =>
    (checkUserSuppliedIdent value true).mapError (.invalidIdentifier model.name label value)

structure MaterializeClosureOptions (ι : Type) where
  maxDepth : Option ℕ
  roots : Option (List ι)

structure MaterializeClosureReport where
  rowsWritten : ℕ
  sourcesVisited : ℕ
  deriving DecidableEq, Repr

/-- The rows of a closure table: source, ancestor and depth are its unique key. -/
abbrev ClosureTable (ι : Type) : Type := ι × ι × ℕ → Option ℕ

/-- A row of `__djogi_closure`. -/
structure ClosureRow (ι : Type) where
  sourceId : ι
  ancestorId : ι
  depth : ℕ
  path : List String
  isCycle : Bool
  cyclePath : List (ι × ι)

variable {ι δ : Type} [DecidableEq ι]

section Query

variable (edges : List String) (table : Table ι δ) (opts : MaterializeClosureOptions ι)

def isRoot (id : ι) : Bool := opts.roots.all fun ids => ids.contains id

def anchor : List (ClosureRow ι) :=
  (table.rows.filter fun s => isRoot opts s.id).map fun s =>
    ⟨s.id, s.id, 0, [], false, [(s.id, s.id)]⟩

/-- The rows `a` and `p` that are joined, and the label of the edge between them. -/
def joined (ancestorId : ι) : List (String × ι) :=
  (table.rows.filter fun a => a.id = ancestorId).flatMap fun a =>
    edges.flatMap fun edge =>
      (table.rows.filter fun p => a.fk edge = some p.id).map fun p => (edge, p.id)

def recursiveTerm (closure : ClosureRow ι) : List (ClosureRow ι) :=
  if closure.isCycle then []
  else ((joined edges table closure.ancestorId).filter fun _ =>
      withinDepth opts.maxDepth closure.depth).map fun step =>
    ⟨closure.sourceId, step.2, closure.depth + 1, closure.path ++ [step.1],
      decide ((closure.sourceId, step.2) ∈ closure.cyclePath),
      closure.cyclePath ++ [(closure.sourceId, step.2)]⟩

end Query

def ClosureRow.key (r : ClosureRow ι) : ι × ι × ℕ := (r.sourceId, r.ancestorId, r.depth)

/-- The keys of the rows that are not marked. -/
def unmarked (rows : List (ClosureRow ι)) : List (ι × ι × ℕ) :=
  (rows.filter fun r => !r.isCycle).map ClosureRow.key

/-- `GROUP BY` -/
def groups (rows : List (ClosureRow ι)) : List (ι × ι × ℕ) := (unmarked rows).dedup

/-- `ON CONFLICT … DO UPDATE`, with `COUNT(*)` of every group. -/
def upsert (closure : ClosureTable ι) (rows : List (ClosureRow ι)) : ClosureTable ι := fun key =>
  if key ∈ groups rows then some ((unmarked rows).count key) else closure key

/-- What is counted of the sources that are returned. -/
def report (rows : List (ClosureRow ι)) : MaterializeClosureReport :=
  ⟨(groups rows).length, ((groups rows).map Prod.fst).dedup.length⟩

/-- `materialize_closure_impl`, with the closure table as it is afterwards. -/
def Materializes (edges : List String) (model : ClosureModel) (table : Table ι δ)
    (opts : MaterializeClosureOptions ι) (closure : ClosureTable ι)
    (out : Except ClosureError (ClosureTable ι × MaterializeClosureReport)) : Prop :=
  if opts.roots = some [] then out = .ok (closure, ⟨0, 0⟩)
  else if edges.isEmpty then out = .error (.query (noSelfFk table.name "materialize_closure"))
  else match validateClosureMetadataIdents model with
    | .error e => out = .error e
    | .ok () => ∃ rows, Recursive (recursiveTerm edges table opts) (anchor table opts) rows ∧
        out = if rows.any fun r => i32Max < r.depth then .error (.query .outOfRange)
          else .ok (upsert closure rows, report rows)

/-! ## The rows are walks upwards -/

/-- `full_ancestors`, with a bound on the depth. -/
def fullAncestors (δ : Type) (edges : List String) (id : ι) (maxDepth : Option ℕ) :
    RecursiveQuerySet ι δ :=
  unfiltered δ .ancestors edges id maxDepth

/-- The row of a walk. -/
def row (p : Walk (Node ι δ) String) : ClosureRow ι :=
  ⟨p.start.id, p.last.id, p.steps.length, p.labels, !p.isSimple Node.id,
    p.nodes.map fun a => (p.start.id, a.id)⟩

variable {edges : List String} {table : Table ι δ} {opts : MaterializeClosureOptions ι}

/-- The steps upwards from a row. -/
def upward (edges : List String) (table : Table ι δ) (a : Node ι δ) : List (String × Node ι δ) :=
  edges.flatMap fun edge =>
    (table.rows.filter fun p => a.fk edge = some p.id).map fun p => (edge, p)

theorem next_fullAncestors (id : ι) (maxDepth : Option ℕ) :
    next (fullAncestors δ edges id maxDepth) table = upward edges table := by
  funext a
  exact List.filter_true _

theorem joined_last {a : Node ι δ} (ha : a ∈ table.rows) :
    joined edges table a.id = (upward edges table a).map fun s => (s.1, s.2.id) := by
  have hself : (table.rows.filter fun b => b.id = a.id) = [a] := by
    refine List.perm_singleton.mp ((List.perm_ext_iff_of_nodup (table.nodup.filter _)
      (List.nodup_singleton a)).mpr fun b => ?_)
    rw [List.mem_filter, List.mem_singleton, decide_eq_true_iff]
    constructor
    · rintro ⟨hb, hid⟩
      exact table.eq_of_id hb ha hid
    · rintro rfl
      exact ⟨ha, rfl⟩
  rw [joined, hself, List.flatMap_singleton, upward]
  simp only [List.map_flatMap, List.map_map]
  rfl

/-- **The recursive term** takes the same steps as the walk upwards. -/
theorem recursiveTerm_row (p : Walk (Node ι δ) String) (hlast : p.last ∈ table.rows) :
    recursiveTerm edges table opts (row p) =
      (p.extend Node.id (upward edges table) (withinDepth opts.maxDepth)).map row := by
  rw [recursiveTerm, Walk.extend]
  by_cases hsimple : p.isSimple Node.id = true
  · have hmem (i : ι) : (p.start.id, i) ∈ p.nodes.map (fun a => (p.start.id, a.id)) ↔
        i ∈ p.nodes.map Node.id := by
      simp only [List.mem_map, Prod.mk.injEq, true_and]
    have hrow (s : String × Node ι δ) : row (p.snoc s) = ⟨p.start.id, s.2.id, p.steps.length + 1,
        p.labels ++ [s.1], decide ((p.start.id, s.2.id) ∈ p.nodes.map fun a => (p.start.id, a.id)),
        (p.nodes.map fun a => (p.start.id, a.id)) ++ [(p.start.id, s.2.id)]⟩ := by
      have hcycle : (!(p.snoc s).isSimple Node.id) = decide (s.2.id ∈ p.nodes.map Node.id) :=
        not_isSimple_snoc hsimple s
      rw [row, hcycle, p.length_snoc, p.labels_snoc, p.last_snoc, p.nodes_snoc, List.map_append,
        decide_eq_decide.mpr (hmem s.2.id)]
      rfl
    simp only [row, hsimple, Bool.not_true, Bool.false_eq_true, if_false, Bool.true_and]
    cases withinDepth opts.maxDepth p.steps.length with
    | false => simp only [List.filter_false, List.map_nil, Bool.false_eq_true, if_false]
    | true =>
      simp only [List.filter_true, if_true, List.map_map, joined_last hlast]
      exact List.map_congr_left fun s _ => (hrow s).symm
  · rw [row, Bool.eq_false_iff.mpr hsimple]
    rfl

theorem anchor_row : anchor table opts =
    ((table.rows.filter fun t => isRoot opts t.id).map Walk.nil).map row := by
  rw [anchor, List.map_map]
  refine List.map_congr_left fun t _ => ?_
  rw [Function.comp_apply, row, Walk.isSimple_nil]
  rfl

/-- The rows that the walks start from. -/
def sources (table : Table ι δ) (opts : MaterializeClosureOptions ι) : List (Node ι δ) :=
  table.rows.filter fun t => isRoot opts t.id

/-- A walk upwards from one of the sources, as long as asked for. -/
def Reaches (edges : List String) (table : Table ι δ) (opts : MaterializeClosureOptions ι)
    (p : Walk (Node ι δ) String) : Prop :=
  p.Reached (upward edges table) (withinDepth opts.maxDepth) (sources table opts)

theorem upward_target (a : Node ι δ) (s : String × Node ι δ) (hs : s ∈ upward edges table a) :
    s.2 ∈ table.rows := by
  obtain ⟨edge, -, hs⟩ := List.mem_flatMap.mp hs
  obtain ⟨p, hp, rfl⟩ := List.mem_map.mp hs
  exact (List.mem_filter.mp hp).1

theorem Reaches.last_mem {p : Walk (Node ι δ) String} (h : Reaches edges table opts p) :
    p.last ∈ table.rows := by
  induction p using Walk.snocRec with
  | hnil a => exact (List.mem_filter.mp h.start).1
  | hsnoc p s _ =>
    rw [p.last_snoc]
    exact upward_target _ s ((p.follows_snoc s).mp h.follows).2

/-- The walks of a run are those of `full_ancestors`, from every root that is there. -/
theorem reaches_iff (hsize : table.Fits) {id : ι} (hroot : isRoot opts id = true)
    (p : Walk (Node ι δ) String) :
    (Reaches edges table opts p ∧ p.isSimple Node.id = true) ∧ p.start.id = id ↔
      TreeWalk (fullAncestors δ edges id opts.maxDepth) table p := by
  rw [← treeWalk_iff hsize, next_fullAncestors]
  constructor
  · rintro ⟨⟨hreaches, hsimple⟩, hid⟩
    exact ⟨⟨(mem_starts _ table p.start).mpr ⟨(List.mem_filter.mp hreaches.start).1, hid⟩,
      hreaches.follows, hreaches.more⟩, hsimple⟩
  · rintro ⟨⟨hstart, hfollows, hmore⟩, hsimple⟩
    obtain ⟨hrow, hid⟩ := (mem_starts _ table p.start).mp hstart
    refine ⟨⟨⟨List.mem_filter.mpr ⟨hrow, ?_⟩, hfollows, hmore⟩, hsimple⟩, hid⟩
    rw [show p.start.id = id from hid]
    exact hroot

/-- The rows of a run, as walks. -/
structure RunWalks (edges : List String) (table : Table ι δ) (opts : MaterializeClosureOptions ι)
    (walks : List (Walk (Node ι δ) String)) (rows : List (ClosureRow ι)) : Prop where
  nodup : walks.Nodup
  mem : ∀ p, p ∈ walks ↔ Reaches edges table opts p ∧ p.isSimple Node.id = true
  keys : (unmarked rows).Perm (walks.map fun p => (p.start.id, p.last.id, p.steps.length))
  short : table.Fits → (rows.any fun r => i32Max < r.depth) = false

/-- **The rows of a run** are there, and are the walks upwards. -/
theorem runWalks (hnodup : edges.Nodup) (opts : MaterializeClosureOptions ι) :
    (∃ rows, Recursive (recursiveTerm edges table opts) (anchor table opts) rows) ∧
      ∀ rows, Recursive (recursiveTerm edges table opts) (anchor table opts) rows →
        ∃ walks, RunWalks edges table opts walks rows := by
  have hnext (a : Node ι δ) : (upward edges table a).Nodup := by
    have hfull := nodup_next (fullAncestors δ edges a.id none) table hnodup a
    rwa [next_fullAncestors] at hfull
  obtain ⟨all, hall⟩ : ∃ all, Recursive (Walk.extend Node.id (upward edges table)
      (withinDepth opts.maxDepth)) ((sources table opts).map Walk.nil) all :=
    recursive_total _ (table.rows.map Node.id) fun a s hs =>
      List.mem_map_of_mem (upward_target a s hs)
  have hwalks := hall.walks (table.nodup.filter _) hnext
  have hrows : Recursive (recursiveTerm edges table opts) (anchor table opts) (all.map row) := by
    rw [anchor_row]
    refine hall.map row fun n p hp => recursiveTerm_row p ?_
    have hreaches : Reaches edges table opts p := ((mem_working _ n p).mp hp).2.1
    exact hreaches.last_mem
  refine ⟨⟨_, hrows⟩, fun rows hsql => ⟨_, hwalks.1, hwalks.2, ?_, fun hsize => ?_⟩⟩
  · refine (((hsql.perm hrows).filter _).map _).trans (.of_eq ?_)
    rw [List.filter_map, List.map_map]
    refine congrArg _ (List.filter_congr fun p _ => Bool.not_not _)
  · rw [(hsql.perm hrows).any_eq, List.any_eq_false]
    rintro r hr
    obtain ⟨p, hp, rfl⟩ := List.mem_map.mp hr
    obtain ⟨hreached, hsimple⟩ := hall.reached hp
    rw [← next_fullAncestors p.start.id none] at hreached
    exact mt of_decide_eq_true (Nat.not_lt.mpr (not_outOfRange hsize hreached.follows hsimple))

/-! ## What is counted -/

/-- How often the ancestor was fetched at the depth. -/
def ancestorCount (fetched : List (Node ι δ × ℕ × List String)) (ancestor : ι) (depth : ℕ) : ℕ :=
  fetched.countP fun r => r.1.id = ancestor ∧ r.2.1 = depth

variable {walks : List (Walk (Node ι δ) String)} {rows : List (ClosureRow ι)}

theorem RunWalks.count_eq (h : RunWalks edges table opts walks rows) (s a : ι) (d : ℕ) :
    (unmarked rows).count (s, a, d) = (walks.filter fun p => p.start.id = s).countP fun p =>
      p.last.id = a ∧ p.steps.length = d := by
  rw [h.keys.count_eq, List.count, List.countP_map, List.countP_filter]
  refine List.countP_congr fun p _ => ?_
  simp only [Function.comp_apply, beq_iff_eq, Prod.mk.injEq, Bool.and_eq_true, decide_eq_true_eq]
  exact and_comm

/-- **A group** counts what `full_ancestors` fetches. -/
theorem RunWalks.count (h : RunWalks edges table opts walks rows) (hedges : edges ≠ [])
    (hnodup : edges.Nodup) (hsize : table.Fits) {s : ι} (hroot : isRoot opts s = true)
    {fetched : List (Node ι δ × ℕ × List String)}
    (hfetched : FetchAllWithPaths (fullAncestors δ edges s opts.maxDepth) table (.ok fetched))
    (a : ι) (d : ℕ) : (unmarked rows).count (s, a, d) = ancestorCount fetched a d := by
  obtain ⟨walks', hwalks', hmem', hfetch⟩ :=
    @fetchAllWithPaths_iff ι δ _ (fullAncestors δ edges s opts.maxDepth) table hedges hnodup
      Condition.all_plain hsize
  obtain ⟨out, hperm, hout⟩ := (hfetch _).mp hfetched
  obtain rfl := Except.ok.inj hout
  have hsame : (walks.filter fun p => p.start.id = s).Perm walks' := by
    refine (List.perm_ext_iff_of_nodup (h.nodup.filter _) hwalks').mpr fun p => ?_
    rw [List.mem_filter, decide_eq_true_iff, h.mem, hmem']
    exact reaches_iff hsize hroot p
  rw [h.count_eq, hsame.countP_eq, ancestorCount, hperm.countP_eq, List.countP_map]
  rfl

variable {model : ClosureModel} {closure closure' : ClosureTable ι}

/-- A run that succeeds has nothing to do or writes what it counts. -/
theorem Materializes.cases {r : MaterializeClosureReport}
    (h : Materializes edges model table opts closure (.ok (closure', r))) :
    (opts.roots = some [] ∧ closure' = closure ∧ r = ⟨0, 0⟩) ∨
      (opts.roots ≠ some [] ∧ ∃ rows,
        Recursive (recursiveTerm edges table opts) (anchor table opts) rows ∧
          closure' = upsert closure rows ∧ r = report rows) := by
  by_cases hroots : opts.roots = some []
  · rw [Materializes, if_pos hroots] at h
    obtain ⟨rfl, rfl⟩ := Prod.mk.inj (Except.ok.inj h)
    exact .inl ⟨hroots, rfl, rfl⟩
  · refine .inr ⟨hroots, ?_⟩
    rw [Materializes, if_neg hroots] at h
    split at h
    · cases h
    · split at h
      · cases h
      · obtain ⟨rows, hrows, hout⟩ := h
        split at hout
        · cases hout
        · obtain ⟨rfl, rfl⟩ := Prod.mk.inj (Except.ok.inj hout)
          exact ⟨rows, hrows, rfl, rfl⟩

/-- A run that is not refused. -/
theorem materializes_iff (hroots : opts.roots ≠ some []) (hedges : edges ≠ [])
    (hnodup : edges.Nodup) (hvalid : validateClosureMetadataIdents model = .ok ())
    (hsize : table.Fits) (out : Except ClosureError (ClosureTable ι × MaterializeClosureReport)) :
    Materializes edges model table opts closure out ↔
      ∃ rows, Recursive (recursiveTerm edges table opts) (anchor table opts) rows ∧
        out = .ok (upsert closure rows, report rows) := by
  rw [Materializes, if_neg hroots, if_neg (by rwa [List.isEmpty_iff]), hvalid]
  refine exists_congr fun rows => and_congr_right fun hrows => ?_
  obtain ⟨walks, hwalks⟩ := (runWalks hnodup opts).2 rows hrows
  rw [hwalks.short hsize, if_neg Bool.false_ne_true]

/-! ## Over the life of a table -/

/-- Every row is still there with its links, and may have got more of them. -/
def Grows (edges : List String) (table table' : Table ι δ) : Prop :=
  ∀ a ∈ table.rows, ∃ a' ∈ table'.rows, a'.id = a.id ∧
    ∀ edge ∈ edges, ∀ i, a.fk edge = some i → a'.fk edge = some i

/-- A row is deleted that no other row points at. -/
structure Deletes (edges : List String) (table table' : Table ι δ) (x : ι) : Prop where
  rows : ∀ a, a ∈ table'.rows ↔ a ∈ table.rows ∧ a.id ≠ x
  unlinked : ∀ a ∈ table.rows, a.id ≠ x → ∀ edge ∈ edges, a.fk edge ≠ some x

/-- `ON DELETE CASCADE` on the source and the ancestor -/
def cascade (closure : ClosureTable ι) (x : ι) : ClosureTable ι := fun key =>
  if key.1 = x ∨ key.2.1 = x then none else closure key

/-- What a table and its closure table went through. No link was changed that had been set. -/
inductive History (edges : List String) (model : ClosureModel) :
    Table ι δ → ClosureTable ι → Prop
  | created (table : Table ι δ) : History edges model table fun _ => none
  | grown {table table' : Table ι δ} {closure : ClosureTable ι}
      (h : History edges model table closure) (hgrows : Grows edges table table') :
      History edges model table' closure
  | deleted {table table' : Table ι δ} {closure : ClosureTable ι} {x : ι}
      (h : History edges model table closure) (hdeletes : Deletes edges table table' x) :
      History edges model table' (cascade closure x)
  | materialized {table : Table ι δ} {closure closure' : ClosureTable ι}
      {opts : MaterializeClosureOptions ι} {report : MaterializeClosureReport}
      (h : History edges model table closure)
      (hrun : Materializes edges model table opts closure (.ok (closure', report))) :
      History edges model table closure'

section Steps

variable {table' : Table ι δ} {id : ι}

omit [DecidableEq ι] in
theorem Grows.steps (hgrows : Grows edges table table') (steps : List (String × Node ι δ))
    {a a' : Node ι δ} (hid : a'.id = a.id)
    (hlinks : ∀ edge ∈ edges, ∀ i, a.fk edge = some i → a'.fk edge = some i)
    (h : Steps (fullAncestors δ edges id none) table a steps) :
    ∃ steps', Steps (fullAncestors δ edges id none) table' a' steps' ∧
      (Walk.mk a' steps').nodes.map Node.id = (Walk.mk a steps).nodes.map Node.id ∧
      (Walk.mk a' steps').last.id = (Walk.mk a steps).last.id ∧
      steps'.length = steps.length := by
  induction steps generalizing a a' with
  | nil => exact ⟨[], trivial, congrArg ([·]) hid, hid, rfl⟩
  | cons s steps ih =>
    obtain ⟨hstep, hsteps⟩ := h
    obtain ⟨t, ht, htid, htlinks⟩ := hgrows s.2 hstep.row
    obtain ⟨steps', hsteps', hnodes, hlast, hlength⟩ := ih htid htlinks hsteps
    have hjoined : a'.fk s.1 = some t.id := by
      rw [htid]
      exact hlinks s.1 hstep.edge _ hstep.joined
    refine ⟨(s.1, t) :: steps', ⟨⟨hstep.edge, ht, hjoined, rfl⟩, hsteps'⟩, ?_, hlast,
      congrArg (· + 1) hlength⟩
    show a'.id :: (Walk.mk t steps').nodes.map Node.id = a.id :: _
    rw [hid, hnodes]
    rfl

omit [DecidableEq ι] in
theorem Deletes.steps {x : ι} (hdeletes : Deletes edges table table' x)
    (steps : List (String × Node ι δ)) {a : Node ι δ} (havoids : ∀ s ∈ steps, s.2.id ≠ x)
    (h : Steps (fullAncestors δ edges id none) table a steps) :
    Steps (fullAncestors δ edges id none) table' a steps := by
  induction steps generalizing a with
  | nil => trivial
  | cons s steps ih =>
    obtain ⟨hstep, hsteps⟩ := h
    have hs := (hdeletes.rows s.2).mpr ⟨hstep.row, havoids s List.mem_cons_self⟩
    exact ⟨⟨hstep.edge, hs, hstep.joined, rfl⟩,
      ih (fun t ht => havoids t (List.mem_cons_of_mem _ ht)) hsteps⟩

end Steps

def ancestry : ClosureModel :=
  ⟨"Ancestry", "ancestries", "animal_id", "ancestor_id", "depth", "path_count"⟩

theorem ancestry_valid : validateClosureMetadataIdents ancestry = .ok () := by decide +kernel

/-- The rows of a run over `pedigree`. -/
def pedigreeRows : List (ClosureRow ℕ) :=
  collected (recursiveTerm parents pedigree ⟨none, none⟩) (anchor pedigree ⟨none, none⟩) 3

theorem pedigree_run (closure : ClosureTable ℕ) :
    Materializes parents ancestry pedigree ⟨none, none⟩ closure
      (.ok (upsert closure pedigreeRows, report pedigreeRows)) :=
  (materializes_iff (Option.some_ne_none _).symm (List.cons_ne_nil _ _) (by decide +kernel)
    ancestry_valid (by decide) _).mpr ⟨_, ⟨3, rfl, .refl _⟩, rfl⟩

/-- **A second run** with the same options changes nothing and reports the same. -/
theorem closure_rerun {closure'' : ClosureTable ι} {r r' : MaterializeClosureReport}
    (h : Materializes edges model table opts closure (.ok (closure', r)))
    (h' : Materializes edges model table opts closure' (.ok (closure'', r'))) :
    closure'' = closure' ∧ r' = r := by
  rcases h.cases with ⟨hroots, -, rfl⟩ | ⟨hroots, rows, hrows, rfl, rfl⟩ <;>
    rcases h'.cases with ⟨hroots', rfl, rfl⟩ | ⟨hroots', rows', hrows', rfl, rfl⟩
  · exact ⟨rfl, rfl⟩
  · exact absurd hroots hroots'
  · exact absurd hroots' hroots
  · have hperm : (unmarked rows').Perm (unmarked rows) :=
      ((hrows'.perm hrows).filter _).map _
    have hgroups : (groups rows').Perm (groups rows) := hperm.dedup
    refine ⟨funext fun key => ?_, ?_⟩
    · simp only [upsert, hgroups.mem_iff, hperm.count_eq]
      split <;> rfl
    · rw [report, report, hgroups.length_eq, ((hgroups.map _).dedup).length_eq]

theorem closure_rerun_pedigree : upsert (upsert (fun _ => none) pedigreeRows) pedigreeRows =
    upsert (fun _ => none) pedigreeRows ∧ report pedigreeRows = report pedigreeRows :=
  closure_rerun (pedigree_run _) (pedigree_run _)

end Djogi.Closure

import Djogi.Order
import Mathlib.Logic.Relation

/-!
# New tables in order

The order in which `toposort_add_tables` of `migrate/segment.rs` creates the tables of a batch, with
its maps, its sets and its panics.

* `toposortRun_eq`: the loop ends, no `expect` fails, and it computes `toposortAddTables`;
* `toposort_before`: a table stands behind the tables that its inline keys reference;
* `toposort_keys_perm`: every foreign key is there once, inline or as a follow-up;
* `toposort_acyclic`: without a cycle there are no follow-ups.
-/

namespace Djogi

/-! ## The run -/

/-- `BTreeSet::insert`. -/
def setInsert (x : String) (s : List String) : List String := OrdMap.sortedDedup (x :: s)

structure KahnState where
  byName : OrdMap String TableSchema
  deps : OrdMap String (List String)
  ready : OrdMap String Unit
  ordered : List TableSchema

/-- One edge; there is an entry for every table of the batch. -/
def addReverse (dependent : String) (reverse : OrdMap String (List String)) (dependency : String) :
    Option (OrdMap String (List String)) :=
  (reverse.get dependency).map fun s => reverse.insert dependency (setInsert dependent s)

def buildReverse (deps : OrdMap String (List String)) : Option (OrdMap String (List String)) :=
  deps.entries.foldlM (fun reverse e => e.2.foldlM (addReverse e.1) reverse)
    (deps.map fun _ => [])

def visitDependent (next : String) (s : KahnState) (dependent : String) : KahnState :=
  match s.deps.get dependent with
  | none => s
  | some waiting =>
      let d := waiting.filter (· ≠ next)
      { s with
        deps := s.deps.insert dependent d
        ready := if d.isEmpty then s.ready.insert dependent () else s.ready }

/-- The loop over the ready tables, for a number of turns. -/
def kahnLoop (reverse : OrdMap String (List String)) : ℕ → KahnState → Option KahnState
  | 0, s => if s.ready.entries.isEmpty then some s else none
  | n + 1, s =>
      match s.ready.entries.head? with
      | none => some s
      | some e => (s.byName.get e.1).bind fun t =>
          kahnLoop reverse n (((reverse.get e.1).getD []).foldl (visitDependent e.1)
            { s with
              byName := s.byName.erase e.1
              ready := s.ready.erase e.1
              ordered := s.ordered ++ [t] })

def stripColumn (members : List String) (owning : String) (c : ColumnSchema) :
    Option (ColumnSchema × List SchemaOperation) :=
  if (c.foreignKey.map fun fk => members.contains fk.refTable).getD false then
    c.foreignKey.map fun fk =>
      ({ c with foreignKey := none }, [.addForeignKey owning c.name fk])
  else some (c, [])

def stripTable (members : List String) (t : TableSchema) :
    Option (TableSchema × List SchemaOperation) :=
  (t.columns.mapM (stripColumn members t.table)).map fun cols =>
    ({ t with columns := cols.map Prod.fst }, cols.flatMap Prod.snd)

/-- `toposort_add_tables`; nothing is left where an `expect` fails or the turns run out. -/
def toposortRun (tables : List TableSchema) :
    Option (List TableSchema × List SchemaOperation) := do
  let byName := OrdMap.ofList (tables.map fun t => (t.table, t))
  let deps := OrdMap.ofList (byName.entries.map fun e => (e.1, batchDeps byName e.1 e.2))
  let reverse ← buildReverse deps
  let ready := (deps.filter fun _ d => d.isEmpty).map fun _ => ()
  let s ← kahnLoop reverse byName.entries.length ⟨byName, deps, ready, []⟩
  if s.byName.entries.isEmpty then some (s.ordered, [])
  else
    let left ← s.byName.values.mapM (stripTable s.byName.keys)
    some (s.ordered ++ left.map Prod.fst, left.flatMap Prod.snd)

/-! ## The cycle -/

theorem stripColumns_eq (members : List String) (owning : String) (cols : List ColumnSchema) :
    (cols.mapM (stripColumn members owning)).map (fun l => (l.map Prod.fst, l.flatMap Prod.snd)) =
      some ((stripForeignKeys members (TableSchema.bare owning cols)).columns,
        strippedForeignKeys members (TableSchema.bare owning cols)) := by
  induction cols with
  | nil => rfl
  | cons c cols ih =>
    obtain ⟨l, hl, hpair⟩ := Option.map_eq_some_iff.mp ih
    obtain ⟨hfst, hsnd⟩ := Prod.mk.inj hpair
    have hcolumn : ∃ r, stripColumn members owning c = some r ∧
        r.1 :: l.map Prod.fst =
          (stripForeignKeys members (TableSchema.bare owning (c :: cols))).columns ∧
        r.2 ++ l.flatMap Prod.snd =
          strippedForeignKeys members (TableSchema.bare owning (c :: cols)) := by
      rw [hfst, hsnd]
      unfold stripColumn stripForeignKeys strippedForeignKeys TableSchema.bare
      dsimp only
      cases hfk : c.foreignKey with
      | none =>
        refine ⟨(c, []), rfl, ?_, ?_⟩
        · rw [List.map_cons, hfk]
        · rw [List.filterMap_cons_none (by rw [hfk])]
          rfl
      | some fk =>
        by_cases hmem : members.contains fk.refTable = true
        · refine ⟨({ c with foreignKey := none }, [.addForeignKey owning c.name fk]), ?_, ?_, ?_⟩
          · simp only [Option.map_some, Option.getD_some, if_pos hmem]
          · rw [List.map_cons, hfk]
            simp only [if_pos hmem]
          · rw [List.filterMap_cons_some (by rw [hfk]; exact if_pos hmem)]
            rfl
        · refine ⟨(c, []), ?_, ?_, ?_⟩
          · simp only [Option.map_some, Option.getD_some, if_neg hmem]
          · rw [List.map_cons, hfk]
            simp only [if_neg hmem]
          · rw [List.filterMap_cons_none (by rw [hfk]; exact if_neg hmem)]
            rfl
    obtain ⟨r, hr, hcols, hkeys⟩ := hcolumn
    rw [List.mapM_cons, hr, hl]
    change some (r.1 :: l.map Prod.fst, r.2 ++ l.flatMap Prod.snd) = _
    rw [hcols, hkeys]

theorem stripTable_eq (members : List String) (t : TableSchema) :
    stripTable members t = some (stripForeignKeys members t, strippedForeignKeys members t) := by
  obtain ⟨l, hl, hpair⟩ := Option.map_eq_some_iff.mp (stripColumns_eq members t.table t.columns)
  obtain ⟨hfst, hsnd⟩ := Prod.mk.inj hpair
  rw [stripTable, hl, Option.map_some, hfst, hsnd]
  rfl

theorem stripTables_eq (members : List String) (l : List TableSchema) :
    l.mapM (stripTable members) =
      some (l.map fun t => (stripForeignKeys members t, strippedForeignKeys members t)) := by
  induction l with
  | nil => rfl
  | cons t l ih =>
    rw [List.mapM_cons, stripTable_eq, ih]
    rfl

/-! ## Sets of edges -/

theorem mem_setInsert (x y : String) (s : List String) : y ∈ setInsert x s ↔ y = x ∨ y ∈ s := by
  rw [setInsert, OrdMap.mem_sortedDedup, List.mem_cons]

/-- The sets of a table that references others. -/
theorem addReverse_fold (dependent : String) (ds : List String)
    (reverse : OrdMap String (List String)) (hall : ∀ x ∈ ds, x ∈ reverse.keys) :
    ∃ after, ds.foldlM (addReverse dependent) reverse = some after ∧
      (∀ x, x ∈ after.keys ↔ x ∈ reverse.keys) ∧
      ∀ x n, n ∈ (after.get x).getD [] ↔ n ∈ (reverse.get x).getD [] ∨ n = dependent ∧ x ∈ ds := by
  induction ds generalizing reverse with
  | nil => exact ⟨reverse, rfl, fun x => Iff.rfl, by simp⟩
  | cons d ds ih =>
    obtain ⟨s, hs⟩ := (OrdMap.mem_keys_iff _ _).mp (hall d List.mem_cons_self)
    have hkeys (x : String) : x ∈ (reverse.insert d (setInsert dependent s)).keys ↔
        x ∈ reverse.keys := by
      rw [OrdMap.mem_keys_insert]
      constructor
      · rintro (rfl | hx)
        · exact hall x List.mem_cons_self
        · exact hx
      · exact .inr
    obtain ⟨after, hafter, hsame, hmem⟩ := ih (reverse.insert d (setInsert dependent s))
      fun x hx => (hkeys x).mpr (hall x (List.mem_cons_of_mem _ hx))
    refine ⟨after, ?_, fun x => (hsame x).trans (hkeys x), fun x n => ?_⟩
    · rw [List.foldlM_cons, addReverse, hs]
      exact hafter
    · rw [hmem x n, OrdMap.get_insert]
      split
      · rename_i hx
        subst hx
        rw [Option.getD_some, mem_setInsert, hs, Option.getD_some]
        simp only [List.mem_cons, true_or, and_true]
        tauto
      · rename_i hx
        simp only [List.mem_cons, hx, false_or]

theorem buildReverse_eq (deps : OrdMap String (List String))
    (hall : ∀ k ds, deps.get k = some ds → ∀ x ∈ ds, x ∈ deps.keys) :
    ∃ reverse, buildReverse deps = some reverse ∧
      ∀ x n, n ∈ (reverse.get x).getD [] ↔ ∃ ds, deps.get n = some ds ∧ x ∈ ds := by
  have hfold (l : List (String × List String)) (start : OrdMap String (List String))
      (hl : ∀ e ∈ l, ∀ x ∈ e.2, x ∈ start.keys) : ∃ after,
      l.foldlM (fun reverse e => e.2.foldlM (addReverse e.1) reverse) start = some after ∧
      (∀ x, x ∈ after.keys ↔ x ∈ start.keys) ∧
      ∀ x n, n ∈ (after.get x).getD [] ↔
        n ∈ (start.get x).getD [] ∨ ∃ e ∈ l, n = e.1 ∧ x ∈ e.2 := by
    induction l generalizing start with
    | nil => exact ⟨start, rfl, fun x => Iff.rfl, by simp⟩
    | cons e l ih =>
      obtain ⟨mid, hmid, hkeys, hmem⟩ := addReverse_fold e.1 e.2 start (hl e List.mem_cons_self)
      obtain ⟨after, hafter, hsame, hboth⟩ := ih mid fun d hd x hx =>
        (hkeys x).mpr (hl d (List.mem_cons_of_mem _ hd) x hx)
      refine ⟨after, ?_, fun x => (hsame x).trans (hkeys x), fun x n => ?_⟩
      · rw [List.foldlM_cons, hmid]
        exact hafter
      · rw [hboth x n, hmem x n]
        simp only [List.mem_cons, exists_eq_or_imp]
        tauto
  obtain ⟨reverse, hreverse, -, hmem⟩ := hfold deps.entries (deps.map fun _ => []) (by
    intro e he x hx
    rw [OrdMap.keys_map]
    exact hall e.1 e.2 ((OrdMap.mem_entries_iff _ _ _).mp he) x hx)
  refine ⟨reverse, hreverse, fun x n => ?_⟩
  have hstart : ((deps.map fun _ => ([] : List String)).get x).getD [] = [] := by
    rw [OrdMap.get_map]
    cases deps.get x <;> rfl
  rw [hmem x n, hstart]
  constructor
  · rintro (h | ⟨e, he, rfl, hx⟩)
    · cases h
    · exact ⟨e.2, (OrdMap.mem_entries_iff _ _ _).mp he, hx⟩
  · rintro ⟨ds, hds, hx⟩
    exact .inr ⟨(n, ds), (OrdMap.mem_entries_iff _ _ _).mpr hds, rfl, hx⟩

/-! ## The loop -/

/-- What a turn does to the dependents of the table. -/
theorem visitDependents (next : String) (l : List String) (s : KahnState) :
    (l.foldl (visitDependent next) s).byName = s.byName ∧
    (l.foldl (visitDependent next) s).ordered = s.ordered ∧
    (∀ k, (l.foldl (visitDependent next) s).deps.get k =
      if k ∈ l then (s.deps.get k).map (fun d => d.filter (· ≠ next)) else s.deps.get k) ∧
    ∀ k, k ∈ (l.foldl (visitDependent next) s).ready.keys ↔ k ∈ s.ready.keys ∨
      k ∈ l ∧ (s.deps.get k).map (fun d => d.filter (· ≠ next)) = some [] := by
  induction l generalizing s with
  | nil => simp
  | cons x l ih =>
    rw [List.foldl_cons]
    obtain ⟨hnames, hordered, hdeps, hready⟩ := ih (visitDependent next s x)
    cases hx : s.deps.get x with
    | none =>
      have hstep : visitDependent next s x = s := by rw [visitDependent, hx]
      rw [hstep] at hnames hordered hdeps hready ⊢
      refine ⟨hnames, hordered, fun k => ?_, fun k => ?_⟩
      · rw [hdeps k]
        by_cases hk : k = x
        · simp [hk, hx]
        · simp [hk]
      · rw [hready k]
        by_cases hk : k = x
        · simp [hk, hx]
        · simp [hk]
    | some waiting =>
      have hstep : visitDependent next s x =
          { s with
            deps := s.deps.insert x (waiting.filter (· ≠ next))
            ready := if (waiting.filter (· ≠ next)).isEmpty then s.ready.insert x ()
              else s.ready } := by
        rw [visitDependent, hx]
      have htwice : (waiting.filter (· ≠ next)).filter (· ≠ next) = waiting.filter (· ≠ next) := by
        simp [List.filter_filter]
      rw [hstep] at hnames hordered hdeps hready ⊢
      generalize hd : waiting.filter (· ≠ next) = d at hnames hordered hdeps hready htwice ⊢
      refine ⟨hnames, hordered, fun k => ?_, fun k => ?_⟩
      · rw [hdeps k, OrdMap.get_insert]
        by_cases hk : k = x
        · rw [if_pos hk, Option.map_some, htwice, ite_self, if_pos (hk ▸ List.mem_cons_self), hk,
            hx, Option.map_some, hd]
        · simp [hk]
      · rw [hready k, OrdMap.get_insert]
        by_cases hk : k = x
        · rw [if_pos hk, Option.map_some, htwice, hk, hx, Option.map_some, hd]
          cases d with
          | nil => simp [OrdMap.mem_keys_insert]
          | cons y d => simp
        · have hkeys : k ∈ (if d.isEmpty = true then s.ready.insert x () else s.ready).keys ↔
              k ∈ s.ready.keys := by
            split
            · rw [OrdMap.mem_keys_insert]
              simp [hk]
            · rfl
          rw [hkeys]
          simp [hk]

theorem keys_ext (a b : OrdMap String Unit) (h : ∀ k, k ∈ a.keys ↔ k ∈ b.keys) : a = b := by
  refine OrdMap.ext_get fun k => ?_
  have hk := h k
  rw [OrdMap.mem_keys_iff, OrdMap.mem_keys_iff] at hk
  cases ha : a.get k with
  | none =>
    cases hb : b.get k with
    | none => rfl
    | some u =>
      obtain ⟨v, hv⟩ := hk.mpr ⟨u, hb⟩
      rw [ha] at hv
      cases hv
  | some u =>
    obtain ⟨v, hv⟩ := hk.mp ⟨u, ha⟩
    rw [hv]

/-- The tables that wait for nothing. -/
def readyOf (left : OrdMap String (TableSchema × List String)) : OrdMap String Unit :=
  (left.filter fun _ v => v.2.isEmpty).map fun _ => ()

/-- The state of the run beside the tables that are left. -/
structure KahnSim (reverse : OrdMap String (List String)) (s : KahnState)
    (left : OrdMap String (TableSchema × List String)) (done : List TableSchema) : Prop where
  names : s.byName = left.map Prod.fst
  deps : ∀ k v, left.get k = some v → s.deps.get k = some v.2
  ready : s.ready = readyOf left
  ordered : s.ordered = done
  edges : ∀ k v x, left.get k = some v → x ∈ left.keys →
    (k ∈ (reverse.get x).getD [] ↔ x ∈ v.2)
  closed : ∀ x k, x ∈ left.keys → k ∈ (reverse.get x).getD [] → k ∈ left.keys

theorem mem_readyOf (left : OrdMap String (TableSchema × List String)) (k : String) :
    k ∈ (readyOf left).keys ↔ ∃ v, left.get k = some v ∧ v.2 = [] := by
  rw [readyOf, OrdMap.keys_map, OrdMap.mem_keys_iff]
  simp only [OrdMap.get_filter, Option.filter_eq_some_iff, List.isEmpty_iff]

/-- The smallest of the ready tables is the one that comes next. -/
theorem head_readyOf (left : OrdMap String (TableSchema × List String)) :
    (readyOf left).entries.head? =
      (left.entries.find? fun e => e.2.2.isEmpty).map fun e => (e.1, ()) := by
  change ((left.entries.filter fun e => e.2.2.isEmpty).map fun e => (e.1, ())).head? = _
  rw [List.head?_map, List.head?_filter]

/-- What is left behind a turn. -/
def leftAfter (left : OrdMap String (TableSchema × List String)) (next : String) :
    OrdMap String (TableSchema × List String) :=
  (left.erase next).map fun v => (v.1, v.2.filter (· ≠ next))

theorem get_leftAfter (left : OrdMap String (TableSchema × List String)) (next k : String) :
    (leftAfter left next).get k = if k = next then none
      else (left.get k).map fun v => (v.1, v.2.filter (· ≠ next)) := by
  rw [leftAfter, OrdMap.get_map, OrdMap.get_erase]
  split <;> rfl

theorem kahnSim_step (reverse : OrdMap String (List String)) (s : KahnState)
    (left : OrdMap String (TableSchema × List String)) (done : List TableSchema)
    (h : KahnSim reverse s left done) (next : String) (t : TableSchema)
    (hnext : left.get next = some (t, [])) :
    KahnSim reverse (((reverse.get next).getD []).foldl (visitDependent next)
      { s with
        byName := s.byName.erase next
        ready := s.ready.erase next
        ordered := s.ordered ++ [t] }) (leftAfter left next) (done ++ [t]) := by
  obtain ⟨hnames, hordered, hdeps, hready⟩ := visitDependents next ((reverse.get next).getD [])
    { s with
      byName := s.byName.erase next
      ready := s.ready.erase next
      ordered := s.ordered ++ [t] }
  have hmem : next ∈ left.keys := (OrdMap.mem_keys_iff _ _).mpr ⟨_, hnext⟩
  have hkeys (k : String) (hk : k ∈ (leftAfter left next).keys) : k ≠ next ∧ k ∈ left.keys := by
    rw [leftAfter, OrdMap.keys_map, OrdMap.mem_keys_erase] at hk
    exact hk
  have hself : next ∉ (reverse.get next).getD [] := by
    intro hself
    have := (h.edges next _ next hnext hmem).mp hself
    cases this
  refine ⟨?names, ?deps, ?ready, ?ordered, ?edges, ?closed⟩
  case names =>
    rw [hnames]
    dsimp only
    rw [h.names]
    refine OrdMap.ext_get fun k => ?_
    rw [OrdMap.get_erase, OrdMap.get_map, OrdMap.get_map, get_leftAfter]
    split
    · rfl
    · cases left.get k <;> rfl
  case deps =>
    intro k v hv
    rw [get_leftAfter] at hv
    split at hv
    · cases hv
    · obtain ⟨w, hw, rfl⟩ := Option.map_eq_some_iff.mp hv
      rw [hdeps k]
      dsimp only
      rw [h.deps k w hw]
      split
      · rfl
      · rename_i hnot
        rw [h.edges k w next hw hmem] at hnot
        congr 1
        refine (List.filter_eq_self.mpr fun x hx => ?_).symm
        exact decide_eq_true fun heq => hnot (heq ▸ hx)
  case ready =>
    refine keys_ext _ _ fun k => ?_
    rw [hready k, mem_readyOf]
    dsimp only
    rw [OrdMap.mem_keys_erase, h.ready, mem_readyOf, get_leftAfter]
    constructor
    · rintro (⟨hne, v, hv, hempty⟩ | ⟨hk, hlast⟩)
      · rw [if_neg hne, hv]
        refine ⟨_, rfl, ?_⟩
        dsimp only
        rw [hempty]
        rfl
      · have hne : k ≠ next := by
          rintro rfl
          exact hself hk
        obtain ⟨v, hv⟩ := (OrdMap.mem_keys_iff _ _).mp (h.closed next k hmem hk)
        rw [h.deps k v hv] at hlast
        rw [if_neg hne, hv]
        exact ⟨_, rfl, Option.some.inj hlast⟩
    · rintro ⟨v', hv', hempty⟩
      split at hv'
      · cases hv'
      · rename_i hne
        obtain ⟨v, hv, rfl⟩ := Option.map_eq_some_iff.mp hv'
        by_cases hnone : v.2 = []
        · exact .inl ⟨hne, v, hv, hnone⟩
        · obtain ⟨y, hy⟩ := List.exists_mem_of_ne_nil _ hnone
          have heq : y = next := by
            by_contra hyne
            exact List.filter_eq_nil_iff.mp hempty y hy (decide_eq_true hyne)
          refine .inr ⟨(h.edges k v next hv hmem).mpr (heq ▸ hy), ?_⟩
          rw [h.deps k v hv, Option.map_some]
          exact congrArg some hempty
  case ordered =>
    rw [hordered]
    dsimp only
    rw [h.ordered]
  case edges =>
    intro k v x hv hx
    obtain ⟨hne, hxleft⟩ := hkeys x hx
    rw [get_leftAfter] at hv
    split at hv
    · cases hv
    · obtain ⟨w, hw, rfl⟩ := Option.map_eq_some_iff.mp hv
      rw [h.edges k w x hw hxleft, List.mem_filter]
      simp [hne]
  case closed =>
    intro x k hx hk
    obtain ⟨hne, hxleft⟩ := hkeys x hx
    have hkleft := h.closed x k hxleft hk
    rw [leftAfter, OrdMap.keys_map, OrdMap.mem_keys_erase]
    refine ⟨?_, hkleft⟩
    rintro rfl
    have := (h.edges k _ x hnext hxleft).mp hk
    cases this

theorem leftAfter_length (left : OrdMap String (TableSchema × List String)) (next : String)
    (v : TableSchema × List String) (hget : left.get next = some v) (n : ℕ)
    (hn : left.entries.length ≤ n + 1) : (leftAfter left next).entries.length ≤ n := by
  have herase := (left.entries_perm_erase next v hget).length_eq
  have hmap : (leftAfter left next).entries.length = (left.erase next).entries.length :=
    List.length_map _
  rw [hmap]
  simp only [List.length_cons] at herase
  omega

/-- The loop with its sets does what the loop over what is left does. -/
theorem kahnLoop_eq (reverse : OrdMap String (List String)) (n : ℕ) (s : KahnState)
    (left : OrdMap String (TableSchema × List String)) (done : List TableSchema)
    (h : KahnSim reverse s left done) (hn : left.entries.length ≤ n) :
    ∃ s', kahnLoop reverse n s = some s' ∧
      KahnSim reverse s' (kahn n left done).2 (kahn n left done).1 := by
  induction n generalizing s left done with
  | zero =>
    have hnil : left.entries = [] := List.length_eq_zero_iff.mp (Nat.le_zero.mp hn)
    refine ⟨s, ?_, h⟩
    rw [kahnLoop, h.ready, if_pos]
    change (((left.entries.filter fun e => e.2.2.isEmpty).map fun e => (e.1, ())).isEmpty) = true
    rw [hnil]
    rfl
  | succ n ih =>
    rw [kahnLoop, h.ready, head_readyOf, kahn]
    cases hfind : left.entries.find? fun e => e.2.2.isEmpty with
    | none => exact ⟨s, rfl, h⟩
    | some e =>
      obtain ⟨next, t, ds⟩ := e
      have hempty := List.find?_some hfind
      obtain rfl : ds = [] := List.isEmpty_iff.mp hempty
      have hmem := List.mem_of_find?_eq_some hfind
      have hget : left.get next = some (t, []) := (OrdMap.mem_entries_iff _ _ _).mp hmem
      have hlength := leftAfter_length left next (t, []) hget n hn
      have hname : s.byName.get next = some t := by
        rw [h.names, OrdMap.get_map, hget]
        rfl
      obtain ⟨s', hs', hsim⟩ := ih _ (leftAfter left next) (done ++ [t])
        (kahnSim_step reverse s left done h next t hget) hlength
      refine ⟨s', ?_, hsim⟩
      rw [Option.map_some, ← h.ready]
      dsimp only
      rw [hname]
      exact hs'

theorem batchDeps_mem (batch : OrdMap String TableSchema) (name : String) (t : TableSchema)
    (x : String) : x ∈ batchDeps batch name t ↔ ∃ c ∈ t.columns, ∃ fk, c.foreignKey = some fk ∧
      fk.refTable = x ∧ x ≠ name ∧ x ∈ batch.keys := by
  rw [batchDeps, OrdMap.mem_sortedDedup, List.mem_filterMap]
  constructor
  · rintro ⟨c, hc, hsome⟩
    cases hfk : c.foreignKey with
    | none =>
      rw [hfk] at hsome
      cases hsome
    | some fk =>
      rw [hfk] at hsome
      dsimp only at hsome
      split_ifs at hsome with hin
      obtain rfl := Option.some.inj hsome
      exact ⟨c, hc, fk, hfk, rfl, hin⟩
  · rintro ⟨c, hc, fk, hfk, rfl, hin⟩
    refine ⟨c, hc, ?_⟩
    rw [hfk]
    exact if_pos hin

/-- The sets of dependencies at the start. -/
def depsOf (tables : List TableSchema) : OrdMap String (List String) :=
  .ofList ((batchOf tables).entries.map fun e => (e.1, batchDeps (batchOf tables) e.1 e.2))

theorem ofList_map_get {α : Type} (m : OrdMap String TableSchema) (f : String → TableSchema → α)
    (k : String) : (OrdMap.ofList (m.entries.map fun e => (e.1, f e.1 e.2))).get k =
      (m.get k).map (f k) := by
  have hkeys : ((m.entries.map fun e => (e.1, f e.1 e.2)).map Prod.fst).Nodup := by
    rw [List.map_map]
    exact m.keys_nodup
  have hmem (v : α) : (OrdMap.ofList (m.entries.map fun e => (e.1, f e.1 e.2))).get k = some v ↔
      (m.get k).map (f k) = some v := by
    rw [← OrdMap.mem_entries_iff, (OrdMap.entries_ofList_perm _ hkeys).mem_iff, List.mem_map]
    constructor
    · rintro ⟨e, he, heq⟩
      obtain ⟨rfl, rfl⟩ := Prod.mk.inj heq
      rw [(OrdMap.mem_entries_iff _ _ _).mp he]
      rfl
    · intro h
      obtain ⟨t, ht, rfl⟩ := Option.map_eq_some_iff.mp h
      exact ⟨(k, t), (OrdMap.mem_entries_iff _ _ _).mpr ht, rfl⟩
  exact Option.ext hmem

theorem depsOf_get (tables : List TableSchema) (k : String) : (depsOf tables).get k =
    ((batchOf tables).get k).map (batchDeps (batchOf tables) k) :=
  ofList_map_get (batchOf tables) (batchDeps (batchOf tables)) k

theorem startOf_get (tables : List TableSchema) (k : String) : (startOf tables).get k =
    ((batchOf tables).get k).map fun t => (t, batchDeps (batchOf tables) k t) :=
  ofList_map_get (batchOf tables) (fun k t => (t, batchDeps (batchOf tables) k t)) k

theorem startOf_keys (tables : List TableSchema) (k : String) :
    k ∈ (startOf tables).keys ↔ k ∈ (batchOf tables).keys := by
  rw [OrdMap.mem_keys_iff, OrdMap.mem_keys_iff, startOf_get]
  cases (batchOf tables).get k <;> simp

theorem startOf_length (tables : List TableSchema) :
    (startOf tables).entries.length ≤ (batchOf tables).entries.length := by
  have hkeys : ((batchOf tables).entries.map fun e =>
      (e.1, (e.2, batchDeps (batchOf tables) e.1 e.2))).map Prod.fst = (batchOf tables).keys := by
    rw [List.map_map]
    rfl
  have hperm := OrdMap.entries_ofList_perm _ (hkeys ▸ (batchOf tables).keys_nodup)
  rw [startOf, hperm.length_eq, List.length_map]

/-- **The run.** The turns suffice, no `expect` fails, and the result is `toposortAddTables`. -/
theorem toposortRun_eq (tables : List TableSchema) :
    toposortRun tables = some (toposortAddTables tables) := by
  obtain ⟨reverse, hreverse, hedges⟩ := buildReverse_eq (depsOf tables) (by
    intro k ds hds x hx
    rw [depsOf_get] at hds
    obtain ⟨t, ht, rfl⟩ := Option.map_eq_some_iff.mp hds
    obtain ⟨-, -, -, -, -, -, hin⟩ := (batchDeps_mem _ _ _ _).mp hx
    obtain ⟨t', ht'⟩ := (OrdMap.mem_keys_iff _ _).mp hin
    exact (OrdMap.mem_keys_iff _ _).mpr ⟨_, by rw [depsOf_get, ht']; rfl⟩)
  have hstart : KahnSim reverse
      ⟨batchOf tables, depsOf tables,
        ((depsOf tables).filter fun _ d => d.isEmpty).map fun _ => (), []⟩ (startOf tables) [] := by
    refine ⟨?names, ?deps, ?ready, rfl, ?edges, ?closed⟩
    case names =>
      refine OrdMap.ext_get fun k => ?_
      rw [OrdMap.get_map, startOf_get]
      cases (batchOf tables).get k <;> rfl
    case deps =>
      intro k v hv
      rw [startOf_get] at hv
      obtain ⟨t, ht, rfl⟩ := Option.map_eq_some_iff.mp hv
      rw [depsOf_get, ht]
      rfl
    case ready =>
      refine keys_ext _ _ fun k => ?_
      rw [mem_readyOf, OrdMap.keys_map, OrdMap.mem_keys_iff, startOf_get]
      simp only [OrdMap.get_filter, Option.filter_eq_some_iff, depsOf_get]
      cases (batchOf tables).get k <;> simp
    case edges =>
      intro k v x hv _
      rw [startOf_get] at hv
      obtain ⟨t, ht, rfl⟩ := Option.map_eq_some_iff.mp hv
      rw [hedges, depsOf_get, ht]
      simp
    case closed =>
      intro x k _ hk
      obtain ⟨ds, hds, -⟩ := (hedges x k).mp hk
      rw [depsOf_get] at hds
      obtain ⟨t, ht, -⟩ := Option.map_eq_some_iff.mp hds
      rw [startOf_keys]
      exact (OrdMap.mem_keys_iff _ _).mpr ⟨t, ht⟩
  obtain ⟨s, hs, hsim⟩ := kahnLoop_eq reverse _ _ _ _ hstart (startOf_length tables)
  change ((buildReverse (depsOf tables)).bind fun reverse =>
    (kahnLoop reverse (batchOf tables).entries.length
      ⟨batchOf tables, depsOf tables,
        ((depsOf tables).filter fun _ d => d.isEmpty).map fun _ => (), []⟩).bind fun s =>
      if s.byName.entries.isEmpty then some (s.ordered, [])
      else (s.byName.values.mapM (stripTable s.byName.keys)).bind fun left =>
        some (s.ordered ++ left.map Prod.fst, left.flatMap Prod.snd)) = _
  rw [hreverse, Option.bind_some, hs, Option.bind_some, toposortAddTables_eq]
  have hnames : s.byName = (placed tables).2.map Prod.fst := hsim.names
  have hordered : s.ordered = (placed tables).1 := hsim.ordered
  have hvalues : s.byName.values = (placed tables).2.values.map Prod.fst := by
    rw [hnames]
    simp [OrdMap.values, OrdMap.map, Function.comp_def]
  have hkeys : s.byName.keys = (placed tables).2.keys := by rw [hnames, OrdMap.keys_map]
  split
  · rename_i hempty
    have hnil : (placed tables).2.values = [] := by
      have hmap : (placed tables).2.values.map Prod.fst = [] := by
        rw [← hvalues, OrdMap.values, List.isEmpty_iff.mp hempty]
        rfl
      exact List.map_eq_nil_iff.mp hmap
    rw [hnil, hordered, List.map_nil, List.append_nil, List.flatMap_nil]
  · rw [stripTables_eq, Option.bind_some, hordered, hvalues, hkeys]
    simp [List.map_map, Function.comp_def, List.flatMap_map]

/-! ## The order -/

/-- What is left, and what was placed before. -/
structure KahnInv (tables : List TableSchema) (left : OrdMap String (TableSchema × List String))
    (done : List TableSchema) : Prop where
  entry : ∀ k v, left.get k = some v → (batchOf tables).get k = some v.1 ∧
    ∀ x, x ∈ v.2 ↔ x ∈ batchDeps (batchOf tables) k v.1 ∧ x ∈ left.keys
  split : ∀ k ∈ (batchOf tables).keys, k ∈ left.keys ∨ k ∈ done.map TableSchema.table
  sorted : ∀ front t back, done = front ++ t :: back →
    ∀ x ∈ batchDeps (batchOf tables) t.table t, x ∈ front.map TableSchema.table

theorem batchOf_get (tables : List TableSchema) (k : String) (t : TableSchema)
    (h : (batchOf tables).get k = some t) : t ∈ tables ∧ t.table = k := by
  have hmem := OrdMap.mem_of_mem_ofList _ _ ((OrdMap.mem_entries_iff _ _ _).mpr h)
  obtain ⟨t', ht', heq⟩ := List.mem_map.mp hmem
  obtain ⟨hkey, rfl⟩ := Prod.mk.inj heq
  exact ⟨ht', hkey⟩

theorem kahnInv_step (tables : List TableSchema)
    (left : OrdMap String (TableSchema × List String)) (done : List TableSchema)
    (h : KahnInv tables left done) (next : String) (t : TableSchema)
    (hnext : left.get next = some (t, [])) :
    KahnInv tables (leftAfter left next) (done ++ [t]) := by
  obtain ⟨hbatch, hnone⟩ := h.entry next _ hnext
  have hname := (batchOf_get tables next t hbatch).2
  refine ⟨fun k v hv => ?entry, fun k hk => ?split, fun front t' back hdone x hx => ?sorted⟩
  case entry =>
    rw [get_leftAfter] at hv
    split at hv
    · cases hv
    · obtain ⟨w, hw, rfl⟩ := Option.map_eq_some_iff.mp hv
      obtain ⟨hbatch', hdeps⟩ := h.entry k w hw
      refine ⟨hbatch', fun x => ?_⟩
      rw [leftAfter, OrdMap.keys_map, OrdMap.mem_keys_erase, List.mem_filter, hdeps x,
        decide_eq_true_eq]
      tauto
  case split =>
    rw [leftAfter, OrdMap.keys_map, OrdMap.mem_keys_erase, List.map_append, List.mem_append]
    by_cases hkn : k = next
    · exact .inr (.inr (by rw [hkn, ← hname]; exact List.mem_singleton_self _))
    · rcases h.split k hk with hleft | hplaced
      · exact .inl ⟨hkn, hleft⟩
      · exact .inr (.inl hplaced)
  case sorted =>
    rcases List.eq_nil_or_concat back with rfl | ⟨back', last, rfl⟩
    · obtain ⟨rfl, htail⟩ := List.append_inj' hdone rfl
      obtain ⟨rfl, -⟩ := List.cons.inj htail
      have hin : x ∈ (batchOf tables).keys := by
        obtain ⟨-, -, -, -, -, -, hin⟩ := (batchDeps_mem _ _ _ _).mp hx
        exact hin
      have hnotleft : x ∉ left.keys := by
        intro hleft
        have hempty := (hnone x).mpr ⟨hname ▸ hx, hleft⟩
        cases hempty
      exact (h.split x hin).resolve_left hnotleft
    · have hdone' : done ++ [t] = (front ++ t' :: back') ++ [last] := by
        rw [hdone]
        simp
      obtain ⟨hfront, -⟩ := List.append_inj' hdone' rfl
      exact h.sorted front t' back' hfront x hx

theorem kahnInv_run (tables : List TableSchema) (n : ℕ)
    (left : OrdMap String (TableSchema × List String)) (done : List TableSchema)
    (h : KahnInv tables left done) :
    KahnInv tables (kahn n left done).2 (kahn n left done).1 := by
  induction n generalizing left done with
  | zero => exact h
  | succ n ih =>
    rw [kahn]
    cases hfind : left.entries.find? fun e => e.2.2.isEmpty with
    | none => exact h
    | some e =>
      obtain ⟨next, t, ds⟩ := e
      have hempty := List.find?_some hfind
      obtain rfl : ds = [] := List.isEmpty_iff.mp hempty
      have hget := (OrdMap.mem_entries_iff _ _ _).mp (List.mem_of_find?_eq_some hfind)
      exact ih _ _ (kahnInv_step tables left done h next t hget)

theorem kahnInv_start (tables : List TableSchema) : KahnInv tables (startOf tables) [] := by
  refine ⟨fun k v hv => ?_, fun k hk => .inl ((startOf_keys tables k).mpr hk),
    fun front t back h => by simp at h⟩
  rw [startOf_get] at hv
  obtain ⟨t, ht, rfl⟩ := Option.map_eq_some_iff.mp hv
  refine ⟨ht, fun x => (and_iff_left_of_imp fun hx => ?_).symm⟩
  obtain ⟨-, -, -, -, -, -, hin⟩ := (batchDeps_mem _ _ _ _).mp hx
  exact (startOf_keys tables x).mpr hin

theorem placed_inv (tables : List TableSchema) :
    KahnInv tables (placed tables).2 (placed tables).1 :=
  kahnInv_run tables _ _ _ (kahnInv_start tables)

/-- Enough turns end with no table that waits for nothing. -/
theorem kahn_stuck (n : ℕ) (left : OrdMap String (TableSchema × List String))
    (done : List TableSchema) (hn : left.entries.length ≤ n) :
    ∀ k v, (kahn n left done).2.get k = some v → v.2 ≠ [] := by
  induction n generalizing left done with
  | zero =>
    intro k v hv
    have hmem := (OrdMap.mem_entries_iff _ _ _).mpr hv
    rw [kahn, List.length_eq_zero_iff.mp (Nat.le_zero.mp hn)] at hmem
    cases hmem
  | succ n ih =>
    rw [kahn]
    cases hfind : left.entries.find? fun e => e.2.2.isEmpty with
    | none =>
      intro k v hv hnil
      have hall := List.find?_eq_none.mp hfind (k, v) ((OrdMap.mem_entries_iff _ _ _).mpr hv)
      rw [hnil] at hall
      exact hall rfl
    | some e =>
      refine ih (leftAfter left e.1) _ ?_
      have hget := (OrdMap.mem_entries_iff _ _ _).mp (List.mem_of_find?_eq_some hfind)
      exact leftAfter_length left e.1 e.2 hget n hn

/-! ## Results -/

/-- A table references another one of the batch. -/
def Refers (tables : List TableSchema) (a b : String) : Prop :=
  ∃ t ∈ tables, t.table = a ∧ ∃ c ∈ t.columns, ∃ fk, c.foreignKey = some fk ∧ fk.refTable = b ∧
    b ≠ a ∧ b ∈ tables.map TableSchema.table

theorem batchOf_keys (tables : List TableSchema) (k : String) :
    k ∈ (batchOf tables).keys ↔ k ∈ tables.map TableSchema.table := by
  rw [batchOf, OrdMap.mem_keys_ofList, List.map_map]
  rfl

/-- A table that is left references another one that is left. -/
theorem left_refers (tables : List TableSchema) (k : String)
    (hk : k ∈ (placed tables).2.keys) :
    ∃ x ∈ (placed tables).2.keys, Refers tables k x := by
  obtain ⟨v, hv⟩ := (OrdMap.mem_keys_iff _ _).mp hk
  have hne : v.2 ≠ [] := kahn_stuck _ _ [] (startOf_length tables) k v hv
  obtain ⟨x, hx⟩ := List.exists_mem_of_ne_nil _ hne
  obtain ⟨hbatch, hdeps⟩ := (placed_inv tables).entry k v hv
  obtain ⟨hdep, hleft⟩ := (hdeps x).mp hx
  obtain ⟨c, hc, fk, hfk, href, hself, hin⟩ := (batchDeps_mem _ _ _ _).mp hdep
  obtain ⟨hmem, hname⟩ := batchOf_get tables k v.1 hbatch
  exact ⟨x, hleft, v.1, hmem, hname, c, hc, fk, hfk, href, hself, (batchOf_keys tables x).mp hin⟩

/-- Among finitely many things, one has no successor when no chain comes back. -/
theorem exists_last {α : Type} (r : α → α → Prop) (l : List α) (hl : l ≠ [])
    (hacyclic : ∀ a, ¬ Relation.TransGen r a a) : ∃ a ∈ l, ∀ b ∈ l, ¬ Relation.TransGen r a b := by
  induction l with
  | nil => exact absurd rfl hl
  | cons x l ih =>
    by_cases hnil : l = []
    · subst hnil
      refine ⟨x, List.mem_cons_self, fun b hb => ?_⟩
      rw [List.mem_singleton.mp hb]
      exact hacyclic x
    · obtain ⟨m, hm, hlast⟩ := ih hnil
      by_cases hxm : Relation.TransGen r m x
      · refine ⟨x, List.mem_cons_self, fun b hb hxb => ?_⟩
        rcases List.mem_cons.mp hb with rfl | hb
        · exact hacyclic _ hxb
        · exact hlast b hb (hxm.trans hxb)
      · refine ⟨m, List.mem_cons_of_mem _ hm, fun b hb => ?_⟩
        rcases List.mem_cons.mp hb with rfl | hb
        · exact hxm
        · exact hlast b hb

/-- **No follow-ups** without a cycle. -/
theorem toposort_acyclic (tables : List TableSchema)
    (h : ∀ a, ¬ Relation.TransGen (Refers tables) a a) : (toposortAddTables tables).2 = [] := by
  have hnil : (placed tables).2.keys = [] := by
    by_contra hne
    obtain ⟨k, hk, hlast⟩ := exists_last (Refers tables) _ hne h
    obtain ⟨x, hx, hrefers⟩ := left_refers tables k hk
    exact hlast x hx (.single hrefers)
  have hvalues : (placed tables).2.values = [] := by
    rw [OrdMap.keys, List.map_eq_nil_iff] at hnil
    rw [OrdMap.values, hnil, List.map_nil]
  rw [toposortAddTables_eq, hvalues, List.flatMap_nil]

/-- **Before the dependents.** An inline key references a table that was created before. -/
theorem toposort_before (tables : List TableSchema) (front : List TableSchema) (t : TableSchema)
    (back : List TableSchema) (h : (toposortAddTables tables).1 = front ++ t :: back)
    (c : ColumnSchema) (hc : c ∈ t.columns) (fk : ForeignKeySchema) (hfk : c.foreignKey = some fk)
    (hother : fk.refTable ≠ t.table) (hin : fk.refTable ∈ tables.map TableSchema.table) :
    fk.refTable ∈ front.map TableSchema.table := by
  have hinv := placed_inv tables
  have hbatch := (batchOf_keys tables fk.refTable).mpr hin
  rw [toposortAddTables_eq] at h
  dsimp only at h
  have hplaced (front' : List TableSchema) (back' : List TableSchema)
      (hdone : (placed tables).1 = front' ++ t :: back') :
      fk.refTable ∈ front'.map TableSchema.table :=
    hinv.sorted front' t back' hdone _
      ((batchDeps_mem _ _ _ _).mpr ⟨c, hc, fk, hfk, rfl, hother, hbatch⟩)
  have hleft (u : TableSchema) (ht : t = stripForeignKeys (placed tables).2.keys u) :
      fk.refTable ∈ (placed tables).1.map TableSchema.table := by
    refine (hinv.split _ hbatch).resolve_left fun hmember => ?_
    rw [ht] at hc
    obtain ⟨c', -, rfl⟩ := List.mem_map.mp hc
    cases hfk' : c'.foreignKey with
    | none => simp [hfk'] at hfk
    | some fk' =>
      simp only [hfk'] at hfk
      split_ifs at hfk with hcontains
      rw [hfk', Option.some.injEq] at hfk
      rw [hfk] at hcontains
      exact hcontains (List.contains_iff_mem.mpr hmember)
  rcases List.append_eq_append_iff.mp h with ⟨mid, hfront, hstripped⟩ | ⟨mid, hdone, hrest⟩
  · have hmem : t ∈ (placed tables).2.values.map
        fun v => stripForeignKeys (placed tables).2.keys v.1 := by
      rw [hstripped]
      simp
    obtain ⟨v, -, hv⟩ := List.mem_map.mp hmem
    rw [hfront, List.map_append]
    exact List.mem_append_left _ (hleft v.1 hv.symm)
  · cases mid with
    | nil =>
      have hmem : t ∈ (placed tables).2.values.map
          fun v => stripForeignKeys (placed tables).2.keys v.1 := by
        rw [List.nil_append] at hrest
        rw [← hrest]
        exact List.mem_cons_self
      obtain ⟨v, -, hv⟩ := List.mem_map.mp hmem
      rw [List.append_nil] at hdone
      rw [← hdone]
      exact hleft v.1 hv.symm
    | cons m mid =>
      obtain ⟨rfl, -⟩ := List.cons.inj hrest
      exact hplaced front mid hdone

/-- The foreign keys that stand on the columns of a table. -/
def inlineKeys (t : TableSchema) : List (String × String × ForeignKeySchema) :=
  t.columns.filterMap fun c => c.foreignKey.map fun fk => (t.table, c.name, fk)

def followUpKey : SchemaOperation → Option (String × String × ForeignKeySchema)
  | .addForeignKey table column fk => some (table, column, fk)
  | _ => none

/-- What is taken out of a table, and what stays on it. -/
theorem strip_keys_perm (members : List String) (t : TableSchema) :
    (inlineKeys (stripForeignKeys members t) ++
      (strippedForeignKeys members t).filterMap followUpKey).Perm (inlineKeys t) := by
  unfold inlineKeys stripForeignKeys strippedForeignKeys
  dsimp only
  induction t.columns with
  | nil => exact .refl _
  | cons c cols ih =>
    cases hfk : c.foreignKey with
    | none =>
      rw [List.map_cons, hfk, List.filterMap_cons_none (by rw [hfk]; rfl),
        List.filterMap_cons_none (by rw [hfk]), List.filterMap_cons_none (by rw [hfk]; rfl)]
      exact ih
    | some fk =>
      by_cases hmem : members.contains fk.refTable = true
      · simp only [List.map_cons, List.filterMap_cons, hfk, hmem, if_true, Option.map_some,
          Option.map_none, followUpKey]
        exact List.perm_middle.trans (ih.cons _)
      · simp only [List.map_cons, List.filterMap_cons, hfk, if_neg hmem, Option.map_some]
        exact ih.cons _

/-- **Every key once**: on its column, or as a follow-up. -/
theorem toposort_keys_perm (tables : List TableSchema)
    (hn : (tables.map TableSchema.table).Nodup) :
    ((toposortAddTables tables).1.flatMap inlineKeys ++
      (toposortAddTables tables).2.filterMap followUpKey).Perm (tables.flatMap inlineKeys) := by
  have hleft (l : List (TableSchema × List String)) (members : List String) :
      ((l.map fun v => stripForeignKeys members v.1).flatMap inlineKeys ++
        (l.flatMap fun v => strippedForeignKeys members v.1).filterMap followUpKey).Perm
      ((l.map Prod.fst).flatMap inlineKeys) := by
    induction l with
    | nil => exact .refl _
    | cons v l ih =>
      simp only [List.map_cons, List.flatMap_cons, List.filterMap_append]
      refine List.Perm.trans ?_ ((strip_keys_perm members v.1).append ih)
      simp only [List.append_assoc]
      refine List.Perm.append_left _ ?_
      simp only [← List.append_assoc]
      exact List.Perm.append_right _ List.perm_append_comm
  rw [toposortAddTables_eq]
  dsimp only
  rw [List.flatMap_append, List.append_assoc]
  refine ((hleft _ _).append_left _).trans ?_
  rw [← List.flatMap_append]
  exact (placed_perm tables hn).flatMap_right _

/-- Every follow-up adds a key. -/
theorem toposort_followUps (tables : List TableSchema) (op : SchemaOperation)
    (h : op ∈ (toposortAddTables tables).2) : (followUpKey op).isSome = true := by
  rw [toposortAddTables_eq] at h
  obtain ⟨v, -, hop⟩ := List.mem_flatMap.mp h
  obtain ⟨c, -, hc⟩ := List.mem_filterMap.mp hop
  cases hfk : c.foreignKey with
  | none =>
    rw [hfk] at hc
    cases hc
  | some fk =>
    rw [hfk] at hc
    dsimp only at hc
    split_ifs at hc
    rw [← Option.some.inj hc]
    rfl

/-- A table, perhaps without some of its inline keys. -/
def Kept (t after : TableSchema) : Prop := ∃ members, after = stripForeignKeys members t

theorem kept_self (t : TableSchema) : Kept t t := by
  refine ⟨[], ?_⟩
  have hcols : (stripForeignKeys [] t).columns = t.columns := by
    refine (List.map_congr_left fun c _ => ?_).trans (List.map_id _)
    cases c.foreignKey <;> rfl
  have hstrip : stripForeignKeys [] t =
      { t with columns := (stripForeignKeys [] t).columns } := rfl
  rw [hstrip, hcols]

theorem toposort_kept (tables : List TableSchema) (hn : (tables.map TableSchema.table).Nodup) :
    ∃ l : List TableSchema, l.Perm tables ∧ List.Forall₂ Kept l (toposortAddTables tables).1 := by
  refine ⟨_, placed_perm tables hn, ?_⟩
  rw [toposortAddTables_eq]
  refine List.rel_append ?_ ?_
  · exact List.forall₂_same.mpr fun t _ => kept_self t
  · rw [List.forall₂_map_left_iff, List.forall₂_map_right_iff]
    exact List.forall₂_same.mpr fun v _ => ⟨_, rfl⟩

/-- The order of the batch does not count. -/
theorem toposort_congr (tables tables' : List TableSchema) (h : tables'.Perm tables)
    (hn : (tables.map TableSchema.table).Nodup) :
    toposortAddTables tables' = toposortAddTables tables := by
  have hkeys (l : List TableSchema) (hl : (l.map TableSchema.table).Nodup) :
      ((l.map fun t => (t.table, t)).map Prod.fst).Nodup := by
    rw [List.map_map]
    exact hl
  have hn' := (h.map TableSchema.table).nodup_iff.mpr hn
  have hbatch : batchOf tables' = batchOf tables := by
    unfold batchOf
    refine OrdMap.ext_get fun k => Option.ext fun t => ?_
    rw [← OrdMap.mem_entries_iff, ← OrdMap.mem_entries_iff,
      (OrdMap.entries_ofList_perm _ (hkeys tables' hn')).mem_iff,
      (OrdMap.entries_ofList_perm _ (hkeys tables hn)).mem_iff]
    exact (h.map fun t => (t.table, t)).mem_iff
  have hplaced : placed tables' = placed tables := by
    rw [placed, placed, startOf, startOf, hbatch]
  rw [toposortAddTables_eq, toposortAddTables_eq, hplaced]

/-- What the order of a batch promises. -/
structure TopoResult (tables : List TableSchema)
    (result : List TableSchema × List SchemaOperation) : Prop where
  kept : ∃ l : List TableSchema, l.Perm tables ∧ List.Forall₂ Kept l result.1
  before : ∀ front t back, result.1 = front ++ t :: back → ∀ c ∈ t.columns, ∀ fk,
    c.foreignKey = some fk → fk.refTable ≠ t.table →
      fk.refTable ∈ tables.map TableSchema.table → fk.refTable ∈ front.map TableSchema.table
  followUps : ∀ op ∈ result.2, (followUpKey op).isSome = true
  keys : (result.1.flatMap inlineKeys ++ result.2.filterMap followUpKey).Perm
    (tables.flatMap inlineKeys)
  acyclic : (∀ a, ¬ Relation.TransGen (Refers tables) a a) → result.2 = []

/-- **New tables in order.** Whatever the order of the batch, the run ends without a panic with the
same result. -/
theorem toposortRun_ok (tables : List TableSchema) (hn : (tables.map TableSchema.table).Nodup) :
    ∃ result, TopoResult tables result ∧
      ∀ tables' : List TableSchema, tables'.Perm tables → toposortRun tables' = some result := by
  refine ⟨toposortAddTables tables, ⟨toposort_kept tables hn, ?_, toposort_followUps tables,
    toposort_keys_perm tables hn, toposort_acyclic tables⟩, fun tables' h => ?_⟩
  · intro front t back h c hc fk hfk
    exact toposort_before tables front t back h c hc fk hfk
  · rw [toposortRun_eq, toposort_congr tables tables' h hn]

/-- Two tables that reference each other, and one that references itself. -/
theorem toposortRun_cycle : ∃ result,
    TopoResult [.bare "b" [.reference "a_id" "a"], .bare "a" [.reference "b_id" "b"],
      .bare "c" [.reference "c_id" "c"]] result ∧
    ∀ tables' : List TableSchema, tables'.Perm [.bare "b" [.reference "a_id" "a"],
      .bare "a" [.reference "b_id" "b"], .bare "c" [.reference "c_id" "c"]] →
      toposortRun tables' = some result :=
  toposortRun_ok _ (by decide +kernel)

end Djogi

import Djogi.Lib.StableSort
import Djogi.Segment

/-!
# The planner's order

What `orderOperations` does to a list of operations.

* `orderOperations_eq`: the operations phase by phase, each phase in input order, with
  the new tables in topological order;
* `toposort_tables_perm`: the topological order keeps every table, up to the foreign
  keys it takes out;
* `toposort_foreignKeys`: what is taken out comes back as an addition of its own.
-/

namespace Djogi

open StableSort

theorem operationPhase_lt (op : SchemaOperation) : operationPhase op < 13 := by
  cases op <;> simp [operationPhase]

/-- The operations of one phase, in input order. -/
def phaseOps (ops : List SchemaOperation) (k : Nat) : List SchemaOperation :=
  bucket operationPhase ops k

/-- The new tables and the foreign keys their cycles wait for. -/
def tableBatch (ops : List SchemaOperation) : List SchemaOperation :=
  (toposortAddTables (ops.filterMap addTable?)).1.map .addTable ++
    (toposortAddTables (ops.filterMap addTable?)).2

private theorem filter_phaseOps (p : Nat → Bool) (ops : List SchemaOperation) (k : Nat) :
    (phaseOps ops k).filter (fun op => p (operationPhase op)) =
      if p k = true then phaseOps ops k else [] := by
  have hmem (op : SchemaOperation) (h : op ∈ phaseOps ops k) : operationPhase op = k := by
    simpa using (List.mem_filter.mp h).2
  by_cases hp : p k = true
  · rw [if_pos hp, List.filter_eq_self]
    intro op hop
    rw [hmem op hop, hp]
  · rw [if_neg hp, List.filter_eq_nil_iff]
    intro op hop
    rwa [hmem op hop]

/-- **The planned order.** -/
theorem orderOperations_eq (ops : List SchemaOperation) : orderOperations ops =
    phaseOps ops 0 ++ phaseOps ops 1 ++ tableBatch ops ++
      [3, 4, 5, 6, 7, 8, 9, 10, 11, 12].flatMap (phaseOps ops) := by
  have hsort : ops.insertionSort (fun a b => operationPhase a ≤ operationPhase b) =
      (List.range 13).flatMap (phaseOps ops) :=
    insertionSort_eq_flatMap operationPhase 13 ops fun op _ => operationPhase_lt op
  have hlow := funext fun k => filter_phaseOps (· < 2) ops k
  have hhigh := funext fun k => filter_phaseOps (2 < ·) ops k
  have hrange : List.range 13 = [0, 1, 2, 3, 4, 5, 6, 7, 8, 9, 10, 11, 12] := rfl
  simp only [orderOperations, tableBatch, hsort, List.filter_flatMap, hlow, hhigh, hrange]
  simp [List.append_assoc]

/-! ## The order of new tables -/

theorem values_map_fst {α β : Type} (m : OrdMap String (α × β)) (g : β → β) :
    ((m.map fun v => (v.1, g v.2)).values.map Prod.fst) = m.values.map Prod.fst := by
  simp [OrdMap.map, OrdMap.values, Function.comp_def]

theorem kahn_perm (n : Nat) (left : OrdMap String (TableSchema × List String))
    (done : List TableSchema) :
    ((kahn n left done).1 ++ (kahn n left done).2.values.map Prod.fst).Perm
      (done ++ left.values.map Prod.fst) := by
  induction n generalizing left done with
  | zero => exact .refl _
  | succ n ih =>
      rw [kahn]
      cases hfind : left.entries.find? fun e => e.2.2.isEmpty with
      | none => exact .refl _
      | some e =>
          have hget : left.get e.1 = some e.2 :=
            (OrdMap.mem_entries_iff left e.1 e.2).mp (List.mem_of_find?_eq_some hfind)
          have hvalues : (left.values.map Prod.fst).Perm
              (e.2.1 :: (left.erase e.1).values.map Prod.fst) :=
            (((left.entries_perm_erase e.1 e.2 hget).map Prod.snd).map Prod.fst)
          refine (ih _ _).trans ?_
          rw [values_map_fst, List.append_assoc]
          exact (hvalues.symm).append_left done

def batchOf (tables : List TableSchema) : OrdMap String TableSchema :=
  .ofList (tables.map fun t => (t.table, t))

def startOf (tables : List TableSchema) : OrdMap String (TableSchema × List String) :=
  .ofList ((batchOf tables).entries.map fun e => (e.1, (e.2, batchDeps (batchOf tables) e.1 e.2)))

/-- The tables placed, and those left on a cycle. -/
def placed (tables : List TableSchema) :
    List TableSchema × OrdMap String (TableSchema × List String) :=
  kahn (batchOf tables).entries.length (startOf tables) []

theorem toposortAddTables_eq (tables : List TableSchema) : toposortAddTables tables =
    ((placed tables).1 ++
        (placed tables).2.values.map (fun v => stripForeignKeys (placed tables).2.keys v.1),
      (placed tables).2.values.flatMap fun v =>
        strippedForeignKeys (placed tables).2.keys v.1) := rfl

theorem placed_perm (tables : List TableSchema) (hn : (tables.map TableSchema.table).Nodup) :
    ((placed tables).1 ++ (placed tables).2.values.map Prod.fst).Perm tables := by
  have hbatch : (batchOf tables).values.Perm tables := by
    have hn' : ((tables.map fun t => (t.table, t)).map Prod.fst).Nodup := by
      simpa [Function.comp_def] using hn
    have h := (OrdMap.entries_ofList_perm _ hn').map Prod.snd
    rwa [List.map_map, show Prod.snd ∘ (fun t : TableSchema => (t.table, t)) = id from rfl,
      List.map_id] at h
  have hstart : ((startOf tables).values.map Prod.fst).Perm (batchOf tables).values := by
    have hkeys : (((batchOf tables).entries.map fun e =>
        (e.1, (e.2, batchDeps (batchOf tables) e.1 e.2))).map Prod.fst).Nodup := by
      rw [List.map_map]
      exact (batchOf tables).keys_nodup
    rw [OrdMap.values, List.map_map]
    refine ((OrdMap.entries_ofList_perm _ hkeys).map (Prod.fst ∘ Prod.snd)).trans ?_
    rw [List.map_map]
    exact .refl _
  have hkahn := kahn_perm (batchOf tables).entries.length (startOf tables) []
  rw [List.nil_append] at hkahn
  exact (hkahn.trans hstart).trans hbatch

/-- **No table is lost.** -/
theorem toposort_tables_perm {α : Type} (f : TableSchema → α)
    (hf : ∀ members t, f (stripForeignKeys members t) = f t) (tables : List TableSchema)
    (hn : (tables.map TableSchema.table).Nodup) :
    ((toposortAddTables tables).1.map f).Perm (tables.map f) := by
  have hstrip : (f ∘ fun v : TableSchema × List String =>
      stripForeignKeys (placed tables).2.keys v.1) = f ∘ Prod.fst :=
    funext fun v => hf _ v.1
  rw [toposortAddTables_eq, List.map_append, List.map_map, hstrip, ← List.map_map,
    ← List.map_append]
  exact (placed_perm tables hn).map f

/-- What is taken out of a new table comes back on its own. -/
theorem toposort_foreignKeys (tables : List TableSchema)
    (hn : (tables.map TableSchema.table).Nodup) (op : SchemaOperation)
    (h : op ∈ (toposortAddTables tables).2) :
    ∃ t ∈ tables, ∃ c ∈ t.columns, ∃ fk, c.foreignKey = some fk ∧
      op = .addForeignKey t.table c.name fk := by
  obtain ⟨v, hv, hop⟩ := List.mem_flatMap.mp h
  obtain ⟨c, hc, hsome⟩ := List.mem_filterMap.mp hop
  cases hfk : c.foreignKey with
  | none => simp [hfk] at hsome
  | some fk =>
      simp only [hfk] at hsome
      split_ifs at hsome
      have hmem : v.1 ∈ (placed tables).1 ++ (placed tables).2.values.map Prod.fst :=
        List.mem_append_right _ (List.mem_map.mpr ⟨v, hv, rfl⟩)
      exact ⟨v.1, (placed_perm tables hn).mem_iff.mp hmem, c, hc, fk, hfk,
        (Option.some.inj hsome).symm⟩

end Djogi

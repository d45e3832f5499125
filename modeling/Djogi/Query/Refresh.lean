import Djogi.Lib.OrdMap

/-!
# Delta refresh

`query/refresh.rs`: a cache is kept up with a table by fetching the rows whose watermark is not
below the last one seen, and the deletes that the outbox has stamped since. Writers stamp what they
do with the time they started at, and it is seen when they commit.

* `synced_tick`: after a tick the cache is the table, if no commit was overtaken;
* `refresh_converges`: so it is after two more ticks in every run in which none is;
* `overtaken_stays`: and a row that was overtaken is not seen by any number of ticks.
-/

namespace Djogi.Refresh

variable {ι ν : Type} [LinearOrder ι]

/-! ## What is fetched -/

/-- Times are in microseconds. -/
def firstTickWatermarkSafetyWindow : Nat := 60 * 1000000

/-- A row, with the column of its watermark and the mark that `__delta_should_tombstone` reads. -/
structure Row (ν : Type) where
  watermark : Nat
  softDeleted : Bool
  data : ν
  deriving DecidableEq, Repr

inductive OutboxAction
  | create | save | delete
  deriving DecidableEq, Repr

structure OutboxRow (ι : Type) where
  rowId : ι
  action : OutboxAction
  createdAt : Nat
  deriving DecidableEq, Repr

/-- What is committed. -/
structure Db (ι ν : Type) [LinearOrder ι] where
  rows : OrdMap ι (Row ν)
  outbox : List (OutboxRow ι)

structure DeltaQuery (ι : Type) where
  since : Option Nat
  recoverIds : List ι

structure DeltaResult (ι ν : Type) where
  liveItems : List (ι × Row ν)
  tombstones : List ι
  highWatermark : Option Nat

structure Fetcher (ι ν : Type) where
  empty : Bool
  filter : Option (ι → Row ν → Bool)
  outboxEnabled : Bool
  outboxWatermark : Option Nat

/-- The later of a time and what was there. -/
def raise (seen : Option Nat) (t : Nat) : Option Nat := some (seen.elim t fun s => max s t)

/-- The rows that the query asks for. -/
def Fetcher.selects (f : Fetcher ι ν) (q : DeltaQuery ι) (id : ι) (row : Row ν) : Bool :=
  match q.since, q.recoverIds.isEmpty with
  | none, true => f.filter.elim true fun p => p id row
  | some s, true => s ≤ row.watermark
  | none, false => q.recoverIds.contains id
  | some s, false => s ≤ row.watermark || q.recoverIds.contains id

/-- The deletes that the outbox poll finds, unless this is the first tick. -/
def Fetcher.poll (f : Fetcher ι ν) (db : Db ι ν) : List (OutboxRow ι) :=
  match f.outboxEnabled, f.outboxWatermark with
  | true, some watermark => (db.outbox.filter fun o =>
      o.action = .delete && watermark ≤ o.createdAt).insertionSort
        fun a b => a.createdAt ≤ b.createdAt
  | _, _ => []

/-- The outbox watermark after a poll. -/
def Fetcher.advance (f : Fetcher ι ν) (polled : List (OutboxRow ι)) (now : Nat) : Option Nat :=
  if polled ≠ [] then
    match (polled.map OutboxRow.createdAt).foldl raise none with
    | some maxSeen => raise f.outboxWatermark maxSeen
    | none => f.outboxWatermark
  else if f.outboxEnabled ∧ f.outboxWatermark = none then
    some (now - firstTickWatermarkSafetyWindow)
  else f.outboxWatermark

def Fetcher.fetchDelta (f : Fetcher ι ν) (q : DeltaQuery ι) (db : Db ι ν) (now : Nat) :
    DeltaResult ι ν × Fetcher ι ν :=
  if f.empty then (⟨[], [], none⟩, f)
  else
    let pushFilter := f.filter.isSome && q.since.isNone && q.recoverIds.isEmpty
    let sourceHighWatermark :=
      if pushFilter then (db.rows.values.map Row.watermark).foldl raise none else none
    let items := (db.rows.entries.filter fun e => f.selects q e.1 e.2).insertionSort
      fun a b => a.2.watermark ≤ b.2.watermark
    let polled := f.poll db
    (⟨items.filter fun e => !e.2.softDeleted,
      (items.filter fun e => e.2.softDeleted).map Prod.fst ++ polled.map OutboxRow.rowId,
      sourceHighWatermark⟩,
      { f with outboxWatermark := f.advance polled now })

/-! ## The cache -/

/-- What the cache library keeps: the items, and the watermark of the next query. -/
structure Punnu (ι ν : Type) [LinearOrder ι] where
  items : OrdMap ι (Row ν)
  since : Option Nat

/-- Live items go in, tombstones go out. -/
def Punnu.applyDelta (p : Punnu ι ν) (r : DeltaResult ι ν) : Punnu ι ν where
  items := r.tombstones.foldl OrdMap.erase (r.liveItems.foldl (fun m e => m.insert e.1 e.2) p.items)
  since := r.highWatermark.or ((r.liveItems.map fun e => e.2.watermark).foldl raise p.since)

/-! ## Writers -/

inductive Write (ι ν : Type)
  | put (id : ι) (softDeleted : Bool) (data : ν)
  | delete (id : ι)
  deriving DecidableEq, Repr

/-- A transaction under way. -/
structure Writer (ι ν : Type) where
  start : Nat
  writes : List (Write ι ν)

def Db.apply (start : Nat) (db : Db ι ν) : Write ι ν → Db ι ν
  | .put id softDeleted data => { db with rows := db.rows.insert id ⟨start, softDeleted, data⟩ }
  | .delete id => ⟨db.rows.erase id, db.outbox ++ [⟨id, .delete, start⟩]⟩

def Db.commit (db : Db ι ν) (w : Writer ι ν) : Db ι ν := w.writes.foldl (Db.apply w.start) db

structure World (ι ν : Type) [LinearOrder ι] where
  clock : Nat
  db : Db ι ν
  writers : List (Writer ι ν)
  fetcher : Fetcher ι ν
  punnu : Punnu ι ν
  firstTick : Option Nat

/-- Writers are named by their place. -/
inductive Event (ι ν : Type)
  | start (time : Nat)
  | write (writer : Nat) (op : Write ι ν)
  | commit (writer : Nat) (time : Nat)
  | tick (time : Nat)
  deriving DecidableEq, Repr

def World.tick (s : World ι ν) (time : Nat) : World ι ν :=
  let r := s.fetcher.fetchDelta ⟨s.punnu.since, []⟩ s.db time
  { s with
    clock := time
    fetcher := r.2
    punnu := s.punnu.applyDelta r.1
    firstTick := s.firstTick.or (some time) }

/-- None if the clock does not advance or there is no such writer. -/
def World.step (s : World ι ν) : Event ι ν → Option (World ι ν)
  | .start time =>
      if s.clock < time then
        some { s with clock := time, writers := s.writers ++ [⟨time, []⟩] }
      else none
  | .write i op => do
      let w ← s.writers[i]?
      some { s with writers := s.writers.set i { w with writes := w.writes ++ [op] } }
  | .commit i time => do
      let w ← s.writers[i]?
      if s.clock < time then
        some { s with clock := time, db := s.db.commit w, writers := s.writers.eraseIdx i }
      else none
  | .tick time => if s.clock < time then some (s.tick time) else none

def World.run (s : World ι ν) (l : List (Event ι ν)) : Option (World ι ν) := l.foldlM World.step s

/-- Nothing written and nothing fetched yet. -/
def World.init : World ι ν where
  clock := 0
  db := ⟨.empty, []⟩
  writers := []
  fetcher := ⟨false, none, true, none⟩
  punnu := ⟨.empty, none⟩
  firstTick := none

/-- What of a row belongs in the cache. -/
def live (row : Option (Row ν)) : Option (Row ν) := row.filter fun r => !r.softDeleted

theorem live_some (row : Row ν) :
    live (some row) = if row.softDeleted then none else some row := by
  cases hmark : row.softDeleted <;> simp [live, Option.filter, hmark]

/-- The cache is the table. -/
def World.Synced (s : World ι ν) : Prop := ∀ id, s.punnu.items.get id = live (s.db.rows.get id)

/-! ## One tick -/

/-- The fetcher of a query without a filter, of a model with an outbox. -/
structure Fetcher.Plain (f : Fetcher ι ν) : Prop where
  empty_eq : f.empty = false
  filter_eq : f.filter = none
  outbox_eq : f.outboxEnabled = true

/-- The row that a tick fetches for an id. -/
def World.fetched (s : World ι ν) (id : ι) : Option (Row ν) :=
  (s.db.rows.get id).filter fun r => s.punnu.since.all (· ≤ r.watermark)

/-- A delete of the id is polled. -/
def World.Polled (s : World ι ν) (id : ι) : Prop :=
  ∃ o ∈ s.db.outbox, o.action = .delete ∧ o.rowId = id ∧
    ∃ c ∈ s.fetcher.outboxWatermark, c ≤ o.createdAt

theorem get_foldl_erase (l : List ι) (m : OrdMap ι (Row ν)) (id : ι) :
    (l.foldl OrdMap.erase m).get id = if id ∈ l then none else m.get id := by
  induction l generalizing m with
  | nil => simp
  | cons j l ih =>
    rw [List.foldl_cons, ih, OrdMap.get_erase]
    by_cases hj : id = j <;> by_cases hl : id ∈ l <;> simp [hj, hl]

theorem get_foldl_insert (l : List (ι × Row ν)) (m : OrdMap ι (Row ν)) (id : ι)
    (hn : (l.map Prod.fst).Nodup) : (l.foldl (fun m e => m.insert e.1 e.2) m).get id =
      (OrdMap.lookupIn id l).or (m.get id) := by
  rw [OrdMap.get_foldl_insert, OrdMap.lastIn,
    OrdMap.lookupIn_perm l l.reverse l.reverse_perm.symm hn]

theorem mem_poll (f : Fetcher ι ν) (db : Db ι ν) (hplain : f.Plain) (o : OutboxRow ι) :
    o ∈ f.poll db ↔ o ∈ db.outbox ∧ o.action = .delete ∧
      ∃ c ∈ f.outboxWatermark, c ≤ o.createdAt := by
  unfold Fetcher.poll
  rw [hplain.outbox_eq]
  cases hw : f.outboxWatermark with
  | none => simp
  | some c => simp [List.mem_insertionSort]

theorem selects_eq (f : Fetcher ι ν) (since : Option Nat) (id : ι) (row : Row ν)
    (hplain : f.Plain) : f.selects ⟨since, []⟩ id row = since.all (· ≤ row.watermark) := by
  unfold Fetcher.selects
  rw [hplain.filter_eq]
  cases since <;> rfl

/-- The rows of a tick, in the order of their watermarks. -/
def World.items (s : World ι ν) : List (ι × Row ν) :=
  (s.db.rows.entries.filter fun e => s.fetcher.selects ⟨s.punnu.since, []⟩ e.1 e.2).insertionSort
    fun a b => a.2.watermark ≤ b.2.watermark

theorem mem_items (s : World ι ν) (hplain : s.fetcher.Plain) (id : ι) (row : Row ν) :
    (id, row) ∈ s.items ↔ s.fetched id = some row := by
  unfold World.items World.fetched
  rw [List.mem_insertionSort, List.mem_filter, OrdMap.mem_entries_iff, selects_eq _ _ _ _ hplain,
    Option.filter_eq_some_iff]

theorem nodup_items (s : World ι ν) : (s.items.map Prod.fst).Nodup := by
  unfold World.items
  rw [((List.perm_insertionSort _ _).map Prod.fst).nodup_iff]
  exact (OrdMap.keys_nodup s.db.rows).sublist (List.filter_sublist.map Prod.fst)

theorem fetchDelta_eq (s : World ι ν) (time : Nat) (hplain : s.fetcher.Plain) :
    s.fetcher.fetchDelta ⟨s.punnu.since, []⟩ s.db time =
      (⟨s.items.filter fun e => !e.2.softDeleted,
        (s.items.filter fun e => e.2.softDeleted).map Prod.fst ++
          (s.fetcher.poll s.db).map OutboxRow.rowId, none⟩,
        { s.fetcher with
          outboxWatermark := s.fetcher.advance (s.fetcher.poll s.db) time }) := by
  unfold Fetcher.fetchDelta
  rw [if_neg (by simp [hplain.empty_eq])]
  show (DeltaResult.mk _ _ (if (s.fetcher.filter.isSome && _ && _) = true then _ else none), _) = _
  rw [if_neg (by simp [hplain.filter_eq])]
  rfl

theorem mem_filter_items (s : World ι ν) (hplain : s.fetcher.Plain) (p : Row ν → Bool) (id : ι)
    (row : Row ν) : (id, row) ∈ s.items.filter (fun e => p e.2) ↔
      s.fetched id = some row ∧ p row = true := by
  rw [List.mem_filter, mem_items s hplain]

/-- The live items of a tick, by their ids. -/
theorem lookupIn_live (s : World ι ν) (hplain : s.fetcher.Plain) (id : ι) :
    OrdMap.lookupIn id (s.items.filter fun e => !e.2.softDeleted) = live (s.fetched id) := by
  have hnodup : ((s.items.filter fun e => !e.2.softDeleted).map Prod.fst).Nodup :=
    (nodup_items s).sublist (List.filter_sublist.map Prod.fst)
  apply Option.ext
  intro row
  rw [OrdMap.lookupIn_eq_some_iff _ hnodup, mem_filter_items s hplain fun r => !r.softDeleted,
    live, Option.filter_eq_some_iff]

/-- **What a tick does to an id.** -/
theorem get_tick (s : World ι ν) (time : Nat) (id : ι) (hplain : s.fetcher.Plain) :
    (s.Polled id → (s.tick time).punnu.items.get id = none) ∧
    (¬s.Polled id → (s.tick time).punnu.items.get id =
      if (s.fetched id).isSome then live (s.fetched id) else s.punnu.items.get id) := by
  have hpolled : id ∈ (s.fetcher.poll s.db).map OutboxRow.rowId ↔ s.Polled id := by
    rw [List.mem_map]
    constructor
    · rintro ⟨o, ho, rfl⟩
      obtain ⟨ho, haction, hc⟩ := (mem_poll _ _ hplain o).mp ho
      exact ⟨o, ho, haction, rfl, hc⟩
    · rintro ⟨o, ho, haction, rfl, hc⟩
      exact ⟨o, (mem_poll _ _ hplain o).mpr ⟨ho, haction, hc⟩, rfl⟩
  have hsoft : id ∈ (s.items.filter fun e => e.2.softDeleted).map Prod.fst ↔
      ∃ row, s.fetched id = some row ∧ row.softDeleted = true := by
    rw [List.mem_map]
    constructor
    · rintro ⟨⟨_, row⟩, h, rfl⟩
      exact ⟨row, (mem_filter_items s hplain _ _ row).mp h⟩
    · rintro ⟨row, h⟩
      exact ⟨(id, row), (mem_filter_items s hplain _ id row).mpr h, rfl⟩
  have hnodup : ((s.items.filter fun e => !e.2.softDeleted).map Prod.fst).Nodup :=
    (nodup_items s).sublist (List.filter_sublist.map Prod.fst)
  have hget : (s.tick time).punnu.items.get id =
      if id ∈ (s.items.filter fun e => e.2.softDeleted).map Prod.fst ++
        (s.fetcher.poll s.db).map OutboxRow.rowId then none
      else (live (s.fetched id)).or (s.punnu.items.get id) := by
    show ((s.punnu.applyDelta (s.fetcher.fetchDelta ⟨s.punnu.since, []⟩ s.db time).1).items).get
      id = _
    rw [fetchDelta_eq s time hplain]
    show (OrdMap.get (List.foldl OrdMap.erase _ _) id) = _
    rw [get_foldl_erase, get_foldl_insert _ _ _ hnodup, lookupIn_live s hplain]
  have htomb : id ∈ (s.items.filter fun e => e.2.softDeleted).map Prod.fst ++
      (s.fetcher.poll s.db).map OutboxRow.rowId ↔
        s.Polled id ∨ ∃ row, s.fetched id = some row ∧ row.softDeleted = true := by
    rw [List.mem_append, hsoft, hpolled, or_comm]
  refine ⟨fun h => hget.trans (if_pos (htomb.mpr (.inl h))), fun h => ?_⟩
  cases hrow : s.fetched id with
  | none =>
    rw [hget, if_neg fun hmem => ?_, hrow]
    · rfl
    · obtain hp | ⟨row, hr, -⟩ := htomb.mp hmem
      · exact h hp
      · rw [hrow] at hr
        cases hr
  | some row =>
    cases hmark : row.softDeleted with
    | true =>
      rw [hget, if_pos (htomb.mpr (.inr ⟨row, hrow, hmark⟩))]
      simp [live_some, hmark]
    | false =>
      rw [hget, if_neg fun hmem => ?_, hrow]
      · simp [live_some, hmark]
      · obtain hp | ⟨row', hr, hsoft'⟩ := htomb.mp hmem
        · exact h hp
        · rw [hrow] at hr
          cases hr
          rw [hmark] at hsoft'
          cases hsoft'

/-! ## Catching up -/

/-- Every row that the cache has not is still to be fetched, and every id that the cache has too
many is still to be polled; and a poll takes no row away. -/
structure World.Fresh (s : World ι ν) : Prop where
  plain : s.fetcher.Plain
  row : ∀ id row, s.db.rows.get id = some row →
    s.punnu.items.get id = live (some row) ∨ ∀ c ∈ s.punnu.since, c ≤ row.watermark
  gone : ∀ id, s.db.rows.get id = none → s.punnu.items.get id = none ∨
    ∃ o ∈ s.db.outbox, o.action = .delete ∧ o.rowId = id ∧
      ∀ c ∈ s.fetcher.outboxWatermark, c ≤ o.createdAt
  apart : ∀ o ∈ s.db.outbox, o.action = .delete → s.db.rows.get o.rowId ≠ none →
    ∃ c ∈ s.fetcher.outboxWatermark, o.createdAt < c
  idle : s.fetcher.outboxWatermark = none → ∀ id, s.punnu.items.get id = none

theorem World.Fresh.not_polled {s : World ι ν} (h : s.Fresh) (id : ι)
    (hrow : s.db.rows.get id ≠ none) : ¬s.Polled id := by
  rintro ⟨o, ho, haction, rfl, c, hc, hle⟩
  obtain ⟨c', hc', hlt⟩ := h.apart o ho haction hrow
  obtain rfl := Option.mem_unique hc hc'
  omega

/-- **A tick catches up.** -/
theorem synced_tick (s : World ι ν) (time : Nat) (h : s.Fresh) : (s.tick time).Synced := by
  intro id
  show (s.tick time).punnu.items.get id = live (s.db.rows.get id)
  obtain ⟨hpolled, hget⟩ := get_tick s time id h.plain
  cases hrow : s.db.rows.get id with
  | some row =>
    rw [hget (h.not_polled id (by rw [hrow]; simp)), World.fetched, hrow]
    cases hall : s.punnu.since.all (· ≤ row.watermark) with
    | true => simp [Option.filter, hall]
    | false =>
      rw [Option.filter_some_neg (by simpa using hall)]
      refine (h.row id row hrow).resolve_right fun hle => ?_
      cases hsince : s.punnu.since with
      | none => simp [hsince] at hall
      | some c => simp [hsince, hle c (by simp [hsince])] at hall
  | none =>
    by_cases hp : s.Polled id
    · exact hpolled hp
    · rw [hget hp, World.fetched, hrow]
      show s.punnu.items.get id = none
      obtain hnone | ⟨o, ho, haction, hid, hle⟩ := h.gone id hrow
      · exact hnone
      · cases hc : s.fetcher.outboxWatermark with
        | none => exact h.idle hc id
        | some c => exact absurd ⟨o, ho, haction, hid, c, hc, hle c hc⟩ hp

theorem foldl_raise (l : List Nat) (seen : Option Nat) :
    ∀ c ∈ seen, ∃ c' ∈ l.foldl raise seen, c ≤ c' := by
  induction l generalizing seen with
  | nil => exact fun c hc => ⟨c, hc, le_rfl⟩
  | cons t l ih =>
    rintro c rfl
    obtain ⟨c', hc', hle⟩ := ih (raise (some c) t) (max c t) rfl
    exact ⟨c', hc', (le_max_left c t).trans hle⟩

omit [LinearOrder ι] in
/-- The outbox watermark does not go back. -/
theorem advance_spec (f : Fetcher ι ν) (polled : List (OutboxRow ι)) (now : Nat)
    (henabled : f.outboxEnabled = true) (hpolled : f.outboxWatermark = none → polled = []) :
    ∃ c' ∈ f.advance polled now, ∀ c ∈ f.outboxWatermark, c ≤ c' := by
  unfold Fetcher.advance
  split_ifs with hne hfirst
  · obtain ⟨c, hc⟩ := Option.ne_none_iff_exists'.mp fun hnone => hne (hpolled hnone)
    rw [hc]
    split
    · exact ⟨_, rfl, fun c' hc' => by cases hc'; exact le_max_left _ _⟩
    · exact ⟨c, rfl, fun c' hc' => by cases hc'; exact le_rfl⟩
  · refine ⟨_, rfl, fun c hc => ?_⟩
    rw [hfirst.2] at hc
    cases hc
  · obtain ⟨c, hc⟩ := Option.ne_none_iff_exists'.mp fun hnone => hfirst ⟨henabled, hnone⟩
    exact ⟨c, hc, fun c' hc' => by rw [hc] at hc'; cases hc'; exact le_rfl⟩

theorem fresh_tick (s : World ι ν) (time : Nat) (h : s.Fresh) : (s.tick time).Fresh := by
  have hsynced := synced_tick s time h
  have hfetch := fetchDelta_eq s time h.plain
  have hfetcher : (s.tick time).fetcher =
      { s.fetcher with outboxWatermark := s.fetcher.advance (s.fetcher.poll s.db) time } :=
    congrArg Prod.snd hfetch
  obtain ⟨c', hc', hle⟩ := advance_spec s.fetcher (s.fetcher.poll s.db) time h.plain.outbox_eq
    fun hnone => List.eq_nil_iff_forall_not_mem.mpr fun o ho => by
      obtain ⟨-, -, c, hc, -⟩ := (mem_poll _ _ h.plain o).mp ho
      rw [hnone] at hc
      cases hc
  have hwatermark : c' ∈ (s.tick time).fetcher.outboxWatermark := by
    rw [hfetcher]
    exact hc'
  refine ⟨?_, fun id row hrow => .inl ?_, fun id hrow => .inl ?_, fun o ho haction hrow => ?_,
    fun hnone => ?_⟩
  · rw [hfetcher]
    exact ⟨h.plain.empty_eq, h.plain.filter_eq, h.plain.outbox_eq⟩
  · rw [hsynced id, hrow]
  · rw [hsynced id, hrow]
    rfl
  · obtain ⟨c, hc, hlt⟩ := h.apart o ho haction hrow
    exact ⟨c', hwatermark, lt_of_lt_of_le hlt (hle c hc)⟩
  · rw [hnone] at hwatermark
    cases hwatermark

/-! ## Runs -/

/-- What a commit does to an id. -/
inductive Committed (db db' : Db ι ν) (w : Writer ι ν) (id : ι) : Prop
  | kept (hrow : db'.rows.get id = db.rows.get id)
  | put (softDeleted : Bool) (data : ν) (hwrite : .put id softDeleted data ∈ w.writes)
      (hrow : db'.rows.get id = some ⟨w.start, softDeleted, data⟩)
  | deleted (hwrite : .delete id ∈ w.writes) (hrow : db'.rows.get id = none)
      (houtbox : ⟨id, .delete, w.start⟩ ∈ db'.outbox)

theorem committed (db : Db ι ν) (w : Writer ι ν) :
    (∀ id, Committed db (db.commit w) w id) ∧ ∀ o ∈ db.outbox, o ∈ (db.commit w).outbox := by
  obtain ⟨start, writes⟩ := w
  induction writes using List.reverseRecOn with
  | nil => exact ⟨fun id => .kept rfl, fun o ho => ho⟩
  | append_singleton writes op ih =>
    have hcommit : db.commit ⟨start, writes ++ [op]⟩ = (db.commit ⟨start, writes⟩).apply start op :=
      List.foldl_concat ..
    rw [hcommit]
    obtain ⟨hid, houtbox⟩ := ih
    have hmem : ∀ op' ∈ writes, op' ∈ writes ++ [op] := fun op' h => List.mem_append_left _ h
    have hlast : op ∈ writes ++ [op] := List.mem_append_right _ List.mem_cons_self
    cases op with
    | put j softDeleted data =>
      refine ⟨fun id => ?_, houtbox⟩
      by_cases hj : id = j
      · subst hj
        exact .put softDeleted data hlast (by simp [Db.apply])
      · have hget : ((db.commit ⟨start, writes⟩).apply start (.put j softDeleted data)).rows.get id =
            (db.commit ⟨start, writes⟩).rows.get id := by simp [Db.apply, hj]
        cases hid id with
        | kept hrow => exact .kept (hget.trans hrow)
        | put softDeleted data hwrite hrow =>
          exact .put softDeleted data (hmem _ hwrite) (hget.trans hrow)
        | deleted hwrite hrow hout => exact .deleted (hmem _ hwrite) (hget.trans hrow) hout
    | delete j =>
      refine ⟨fun id => ?_, fun o ho => List.mem_append_left _ (houtbox o ho)⟩
      by_cases hj : id = j
      · subst hj
        exact .deleted hlast (by simp [Db.apply]) (List.mem_append_right _ List.mem_cons_self)
      · have hget : ((db.commit ⟨start, writes⟩).apply start (.delete j)).rows.get id =
            (db.commit ⟨start, writes⟩).rows.get id := by simp [Db.apply, hj]
        cases hid id with
        | kept hrow => exact .kept (hget.trans hrow)
        | put softDeleted data hwrite hrow =>
          exact .put softDeleted data (hmem _ hwrite) (hget.trans hrow)
        | deleted hwrite hrow hout =>
          exact .deleted (hmem _ hwrite) (hget.trans hrow) (List.mem_append_left _ hout)

/-- A writer is not overtaken when it commits: neither watermark is past its start, and no row of
the table after it has an id whose delete a poll could still find. -/
structure NotOvertaken (s : World ι ν) (w : Writer ι ν) : Prop where
  puts : ∀ id softDeleted data, .put id softDeleted data ∈ w.writes →
    ∀ c ∈ s.punnu.since, c ≤ w.start
  deletes : ∀ id, .delete id ∈ w.writes → ∀ c ∈ s.fetcher.outboxWatermark, c ≤ w.start
  apart : ∀ o ∈ (s.db.commit w).outbox, o.action = .delete →
    (s.db.commit w).rows.get o.rowId ≠ none → ∃ c ∈ s.fetcher.outboxWatermark, o.createdAt < c

/-- No writer of the run is overtaken. -/
def Guarded : World ι ν → List (Event ι ν) → Prop
  | _, [] => True
  | s, e :: l =>
      (∀ i time, e = .commit i time → ∀ w ∈ s.writers[i]?, NotOvertaken s w) ∧
        ∀ s' ∈ s.step e, Guarded s' l

theorem fresh_step (s s' : World ι ν) (e : Event ι ν) (hstep : s.step e = some s') (h : s.Fresh)
    (hguard : ∀ i time, e = .commit i time → ∀ w ∈ s.writers[i]?, NotOvertaken s w) :
    s'.Fresh := by
  cases e with
  | start time =>
    obtain ⟨-, hs⟩ := Option.ite_none_right_eq_some.mp hstep
    cases hs
    exact ⟨h.plain, h.row, h.gone, h.apart, h.idle⟩
  | write i op =>
    obtain ⟨w, -, hs⟩ := Option.bind_eq_some_iff.mp hstep
    cases hs
    exact ⟨h.plain, h.row, h.gone, h.apart, h.idle⟩
  | commit i time =>
    obtain ⟨w, hw, hs⟩ := Option.bind_eq_some_iff.mp hstep
    obtain ⟨-, hs⟩ := Option.ite_none_right_eq_some.mp hs
    cases hs
    have hnot := hguard i time rfl w hw
    obtain ⟨hcases, hkeep⟩ := committed s.db w
    refine ⟨h.plain, fun id row hrow => ?_, fun id hrow => ?_, hnot.apart, h.idle⟩
    · cases hcases id with
      | kept hsame => exact h.row id row (hsame.symm.trans hrow)
      | put softDeleted data hwrite hput =>
        obtain rfl : (⟨w.start, softDeleted, data⟩ : Row ν) = row :=
          Option.some.inj (hput.symm.trans hrow)
        exact .inr (hnot.puts id softDeleted data hwrite)
      | deleted _ hnone _ => exact absurd (hnone.symm.trans hrow) (by simp)
    · cases hcases id with
      | kept hsame =>
        refine (h.gone id (hsame.symm.trans hrow)).imp_right ?_
        rintro ⟨o, ho, hold⟩
        exact ⟨o, hkeep o ho, hold⟩
      | put _ _ _ hput => exact absurd (hput.symm.trans hrow) (by simp)
      | deleted hwrite _ hout =>
        exact .inr ⟨_, hout, rfl, rfl, hnot.deletes id hwrite⟩
  | tick time =>
    obtain ⟨-, hs⟩ := Option.ite_none_right_eq_some.mp hstep
    cases hs
    exact fresh_tick s time h

theorem fresh_run (l : List (Event ι ν)) (s s' : World ι ν) (hrun : s.run l = some s')
    (h : s.Fresh) (hguard : Guarded s l) : s'.Fresh := by
  induction l generalizing s with
  | nil =>
    cases hrun
    exact h
  | cons e l ih =>
    obtain ⟨s₁, hstep, hrun⟩ := Option.bind_eq_some_iff.mp hrun
    exact ih s₁ hrun (fresh_step s s₁ e hstep h hguard.1) (hguard.2 s₁ hstep)

theorem fresh_init : (World.init : World ι ν).Fresh where
  plain := ⟨rfl, rfl, rfl⟩
  row _ _ hrow := by simp [World.init] at hrow
  gone _ _ := .inl (by simp [World.init])
  apart _ ho := by simp [World.init] at ho
  idle _ _ := by simp [World.init]

/-- **A row that was overtaken stays away.** No number of ticks brings it into the cache. -/
theorem overtaken_stays (ts : List Nat) (s s' : World ι ν) (hplain : s.fetcher.Plain) (id : ι)
    (row : Row ν) (hrow : s.db.rows.get id = some row) (hlive : row.softDeleted = false)
    (hpast : ∃ c ∈ s.punnu.since, row.watermark < c) (hstale : s.punnu.items.get id ≠ some row)
    (hrun : s.run (ts.map .tick) = some s') : ¬s'.Synced := by
  induction ts generalizing s with
  | nil =>
    cases hrun
    intro hsynced
    exact hstale ((hsynced id).trans (by rw [hrow, live_some, if_neg (by simp [hlive])]))
  | cons t ts ih =>
    obtain ⟨s₁, hstep, hrun⟩ := Option.bind_eq_some_iff.mp hrun
    obtain ⟨-, hs⟩ := Option.ite_none_right_eq_some.mp hstep
    cases hs
    obtain ⟨c, hc, hlt⟩ := hpast
    have hfetch := fetchDelta_eq s t hplain
    have hfetcher : (s.tick t).fetcher =
        { s.fetcher with outboxWatermark := s.fetcher.advance (s.fetcher.poll s.db) t } :=
      congrArg Prod.snd hfetch
    refine ih (s.tick t) ?_ hrow ?_ ?_ hrun
    · rw [hfetcher]
      exact ⟨hplain.empty_eq, hplain.filter_eq, hplain.outbox_eq⟩
    · -- The next query starts no earlier.
      obtain ⟨c', hc', hle⟩ := foldl_raise
        ((s.items.filter fun e => !e.2.softDeleted).map fun e => e.2.watermark) s.punnu.since c hc
      refine ⟨c', ?_, lt_of_lt_of_le hlt hle⟩
      show c' ∈ (s.punnu.applyDelta
        (s.fetcher.fetchDelta ⟨s.punnu.since, []⟩ s.db t).1).since
      rw [hfetch]
      exact hc'
    · obtain ⟨hpolled, hget⟩ := get_tick s t id hplain
      by_cases hp : s.Polled id
      · rw [hpolled hp]
        simp
      · have hnot : s.fetched id = none := by
          rw [World.fetched, hrow, Option.filter_eq_none_iff]
          rintro _ ⟨⟩
          rw [hc]
          simpa using hlt
        rw [hget hp, hnot]
        exact hstale

/-- **Delta refresh converges** in every run in which no writer is overtaken. -/
theorem refresh_converges (l : List (Event ι ν)) (s s' : World ι ν) (t₁ t₂ : Nat)
    (hrun : World.init.run l = some s) (hguard : Guarded World.init l)
    (hticks : s.run [.tick t₁, .tick t₂] = some s') : s'.Synced := by
  have hfresh := fresh_run l World.init s hrun fresh_init hguard
  obtain ⟨s₁, hstep, hticks⟩ := Option.bind_eq_some_iff.mp hticks
  obtain ⟨s₂, hstep', hticks⟩ := Option.bind_eq_some_iff.mp hticks
  obtain ⟨-, hs⟩ := Option.ite_none_right_eq_some.mp hstep
  obtain ⟨-, hs'⟩ := Option.ite_none_right_eq_some.mp hstep'
  cases hticks
  cases hs
  cases hs'
  exact synced_tick _ t₂ (fresh_tick s t₁ hfresh)

/-! ## Overlapping writers -/

/-- The condition, as a test. -/
def World.notOvertaken (s : World ι ν) (w : Writer ι ν) : Bool :=
  (w.writes.all fun
    | .put .. => s.punnu.since.all (· ≤ w.start)
    | .delete _ => s.fetcher.outboxWatermark.all (· ≤ w.start)) &&
  (s.db.commit w).outbox.all fun o =>
    o.action != .delete || ((s.db.commit w).rows.get o.rowId).isNone ||
      s.fetcher.outboxWatermark.any (o.createdAt < ·)

def Event.guard (s : World ι ν) : Event ι ν → Bool
  | .commit i _ => (s.writers[i]?).all s.notOvertaken
  | _ => true

def guards : World ι ν → List (Event ι ν) → Bool
  | _, [] => true
  | s, e :: l => e.guard s && (s.step e).all fun s' => guards s' l

theorem notOvertaken_of_test (s : World ι ν) (w : Writer ι ν) (h : s.notOvertaken w = true) :
    NotOvertaken s w := by
  obtain ⟨hwrites, houtbox⟩ := Bool.and_eq_true_iff.mp h
  rw [List.all_eq_true] at hwrites houtbox
  refine ⟨fun id softDeleted data hmem c hc => ?_, fun id hmem c hc => ?_,
    fun o ho haction hrow => ?_⟩
  · have htest := hwrites _ hmem
    rw [Option.mem_def.mp hc] at htest
    exact of_decide_eq_true htest
  · have htest := hwrites _ hmem
    rw [Option.mem_def.mp hc] at htest
    exact of_decide_eq_true htest
  · have htest := houtbox o ho
    rw [haction, Option.isNone_eq_false_iff.mpr (Option.isSome_iff_ne_none.mpr hrow)] at htest
    obtain ⟨c, hc, hlt⟩ := (Option.any_eq_true _ _).mp htest
    exact ⟨c, hc, of_decide_eq_true hlt⟩

theorem guarded_of_test (l : List (Event ι ν)) (s : World ι ν) (h : guards s l = true) :
    Guarded s l := by
  induction l generalizing s with
  | nil => trivial
  | cons e l ih =>
    obtain ⟨hguard, hrest⟩ := Bool.and_eq_true_iff.mp h
    refine ⟨?_, fun s' hs' => ih s' ?_⟩
    · rintro i time rfl w hw
      rw [Event.guard, Option.mem_def.mp hw] at hguard
      exact notOvertaken_of_test s w hguard
    · rwa [Option.mem_def.mp hs'] at hrest

/-- Two pairs of writers overlap, and of each pair the one that started later commits first. The
second pair is in flight over a tick, and another tick is between its commits. -/
def overlapping : List (Event Nat String) :=
  [.start 1, .start 2, .write 0 (.put 1 false "a"), .write 1 (.put 2 false "b"), .commit 1 3,
    .commit 0 4, .tick 5, .start 6, .start 7, .write 0 (.delete 1), .write 1 (.put 2 false "c"),
    .write 1 (.put 3 true "d"), .tick 8, .commit 1 9, .tick 10, .commit 0 11]

theorem refresh_converges_overlapping : ∃ s s' : World Nat String,
    World.init.run overlapping = some s ∧ s.run [.tick 12, .tick 13] = some s' ∧ s'.Synced ∧
      s'.punnu.items.keys = [2] :=
  ⟨_, _, rfl, rfl, refresh_converges overlapping _ _ 12 13 rfl
    (guarded_of_test overlapping World.init (by decide +kernel)) rfl, by decide +kernel⟩

/-! ## An overtaken writer -/

/-- A writer in flight at the first tick commits within the safety window. -/
def commitsInWindow (s : World ι ν) : Event ι ν → Bool
  | .commit i time => (s.writers[i]?).all fun w => s.firstTick.all fun t =>
      t ≤ w.start || time ≤ w.start + firstTickWatermarkSafetyWindow
  | _ => true

def inWindow : World ι ν → List (Event ι ν) → Bool
  | _, [] => true
  | s, e :: l => commitsInWindow s e && (s.step e).all fun s' => inWindow s' l

/-- Two rows are written; of two writers that change them, the later one commits before the first
tick and the earlier one after it. -/
def overtaking : List (Event Nat String) :=
  [.start 1, .write 0 (.put 1 false "old"), .write 0 (.put 2 false "old"), .commit 0 2,
    .start 10, .start 20, .write 0 (.put 1 false "new"), .write 1 (.put 2 false "new"),
    .commit 1 25, .tick 30, .commit 0 40]

/-- The first row stays as it was. -/
theorem refresh_loses_update : inWindow World.init overtaking = true ∧
    ∃ s s' : World Nat String, World.init.run overtaking = some s ∧ s.writers = [] ∧
      s.run [.tick 50, .tick 60] = some s' ∧ ¬s'.Synced := by
  refine ⟨by decide +kernel, _, _, rfl, rfl, rfl, fun h => ?_⟩
  have := h 1
  revert this
  decide +kernel

end Djogi.Refresh

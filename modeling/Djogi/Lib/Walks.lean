import Mathlib.Data.List.Induction
import Mathlib.Data.List.Nodup
import Mathlib.Data.List.Perm.Basic

/-!
# Recursive queries and simple walks

`WITH RECURSIVE` runs its recursive term on a working table, round after round, until a round gives
nothing. With a `CYCLE` clause a row carries where it came from, and a row that comes again to one
of these places is marked and not taken further.

* `Recursive.map`: a query that does the same on other rows;
* `mem_working`, `nodup_working`: what one round makes of the last one;
* `recursive_total`: on finitely many nodes the rounds end;
* `Recursive.walks`: **the rows that are not marked** are the simple walks, each of them once;
* `follows_reverse`: against the edges.
-/

namespace Walks

/-! ## Rounds -/

section Rounds

variable {ρ σ : Type} (term : ρ → List ρ) (anchor : List ρ)

/-- The working table after some rounds. -/
def working : ℕ → List ρ
  | 0 => anchor
  | n + 1 => (working n).flatMap term

/-- What was in the working table before a round. -/
def collected : ℕ → List ρ
  | 0 => []
  | n + 1 => collected n ++ working term anchor n

/-- The rows of a recursive query, in any order. -/
def Recursive (rows : List ρ) : Prop :=
  ∃ n, working term anchor n = [] ∧ rows.Perm (collected term anchor n)

variable {term anchor}

theorem working_later {m n : ℕ} (h : working term anchor m = []) (hle : m ≤ n) :
    working term anchor n = [] := by
  induction hle with
  | refl => exact h
  | step _ ih => rw [working, ih, List.flatMap_nil]

theorem collected_later {m n : ℕ} (h : working term anchor m = []) (hle : m ≤ n) :
    collected term anchor n = collected term anchor m := by
  induction hle with
  | refl => rfl
  | step hle ih => rw [collected, ih, working_later h hle, List.append_nil]

/-- There is one result, up to its order. -/
theorem Recursive.perm {rows rows' : List ρ} (h : Recursive term anchor rows)
    (h' : Recursive term anchor rows') : rows.Perm rows' := by
  obtain ⟨m, hm, hrows⟩ := h
  obtain ⟨n, hn, hrows'⟩ := h'
  rcases Nat.le_total m n with hle | hle
  · exact hrows.trans (by rw [← collected_later hm hle]; exact hrows'.symm)
  · exact hrows.trans (by rw [collected_later hn hle]; exact hrows'.symm)

variable {term' : σ → List σ} (g : ρ → σ)

theorem working_map (h : ∀ n, ∀ r ∈ working term anchor n, term' (g r) = (term r).map g) (n : ℕ) :
    working term' (anchor.map g) n = (working term anchor n).map g := by
  induction n with
  | zero => rfl
  | succ n ih =>
    rw [working, working, ih, List.flatMap_map, List.map_flatMap]
    exact List.flatMap_congr fun r hr => h n r hr

theorem Recursive.map (h : ∀ n, ∀ r ∈ working term anchor n, term' (g r) = (term r).map g)
    {rows : List ρ} (hrows : Recursive term anchor rows) :
    Recursive term' (anchor.map g) (rows.map g) := by
  obtain ⟨n, hn, hperm⟩ := hrows
  have hcollected (m : ℕ) : collected term' (anchor.map g) m = (collected term anchor m).map g := by
    induction m with
    | zero => rfl
    | succ m ih => rw [collected, collected, List.map_append, ih, working_map g h]
  refine ⟨n, by rw [working_map g h, hn, List.map_nil], ?_⟩
  rw [hcollected]
  exact hperm.map g

/-- Rows in another order are projections of rows in another order. -/
theorem exists_perm_of_map {l : List ρ} {l' : List σ} (h : l'.Perm (l.map g)) :
    ∃ rows : List ρ, rows.Perm l ∧ rows.map g = l' := by
  generalize hm : l.map g = m at h
  induction h generalizing l with
  | nil => exact ⟨l, .refl l, hm⟩
  | cons x _ ih =>
    obtain ⟨a, l₁, rfl, rfl, hl₁⟩ := List.map_eq_cons_iff.mp hm
    obtain ⟨rows, hrows, hmap⟩ := ih hl₁
    exact ⟨a :: rows, hrows.cons a, congrArg (g a :: ·) hmap⟩
  | swap x y _ =>
    obtain ⟨a, l₁, rfl, rfl, hl₁⟩ := List.map_eq_cons_iff.mp hm
    obtain ⟨b, l₂, rfl, rfl, rfl⟩ := List.map_eq_cons_iff.mp hl₁
    exact ⟨b :: a :: l₂, .swap a b l₂, rfl⟩
  | trans _ _ ih ih' =>
    obtain ⟨rows', hrows', hmap'⟩ := ih' hm
    obtain ⟨rows, hrows, hmap⟩ := ih hmap'
    exact ⟨rows, hrows.trans hrows', hmap⟩

end Rounds

/-! ## Walks -/

/-- A walk, with the labels of its edges. -/
structure Walk (α κ : Type) where
  start : α
  steps : List (κ × α)
  deriving DecidableEq, Repr

section Graph

variable {α β κ : Type}

namespace Walk

/-- The walk that has not left yet. -/
def nil (a : α) : Walk α κ := ⟨a, []⟩

def snoc (p : Walk α κ) (s : κ × α) : Walk α κ := ⟨p.start, p.steps ++ [s]⟩

def last (p : Walk α κ) : α := p.steps.foldl (fun _ s => s.2) p.start

def nodes (p : Walk α κ) : List α := p.start :: p.steps.map Prod.snd

def labels (p : Walk α κ) : List κ := p.steps.map Prod.fst

@[simp] theorem last_nil (a : α) : (nil a : Walk α κ).last = a := rfl

@[simp] theorem last_snoc (p : Walk α κ) (s : κ × α) : (p.snoc s).last = s.2 := by
  rw [last, snoc, List.foldl_append]
  rfl

@[simp] theorem nodes_snoc (p : Walk α κ) (s : κ × α) : (p.snoc s).nodes = p.nodes ++ [s.2] := by
  rw [nodes, snoc, List.map_append]
  rfl

@[simp] theorem labels_snoc (p : Walk α κ) (s : κ × α) :
    (p.snoc s).labels = p.labels ++ [s.1] := List.map_append

@[simp] theorem length_snoc (p : Walk α κ) (s : κ × α) :
    (p.snoc s).steps.length = p.steps.length + 1 := List.length_append

theorem snoc_inj {p q : Walk α κ} {s t : κ × α} (h : p.snoc s = q.snoc t) : p = q ∧ s = t := by
  obtain ⟨hstart, hsteps⟩ := Walk.mk.inj h
  obtain ⟨hinit, hlast⟩ := List.append_inj' hsteps rfl
  exact ⟨by cases p; cases q; cases hstart; cases hinit; rfl, List.head_eq_of_cons_eq hlast⟩

/-- A walk from its end. -/
theorem snocRec {motive : Walk α κ → Prop} (hnil : ∀ a, motive (nil a))
    (hsnoc : ∀ p s, motive p → motive (p.snoc s)) (p : Walk α κ) : motive p := by
  obtain ⟨a, steps⟩ := p
  induction steps using List.reverseRecOn with
  | nil => exact hnil a
  | append_singleton steps s ih => exact hsnoc ⟨a, steps⟩ s ih

theorem last_mem_nodes (p : Walk α κ) : p.last ∈ p.nodes := by
  induction p using snocRec with
  | hnil a => exact List.mem_cons_self
  | hsnoc p s _ =>
    rw [last_snoc, nodes_snoc]
    exact List.mem_append_right _ List.mem_cons_self

/-- Every step is an edge. -/
def Follows (next : α → List (κ × α)) (p : Walk α κ) : Prop :=
  go p.start p.steps
where
  go (a : α) : List (κ × α) → Prop
    | [] => True
    | s :: steps => s ∈ next a ∧ go s.2 steps

variable {next : α → List (κ × α)}

theorem follows_snoc (p : Walk α κ) (s : κ × α) :
    (p.snoc s).Follows next ↔ p.Follows next ∧ s ∈ next p.last := by
  obtain ⟨a, steps⟩ := p
  show Follows.go next a (steps ++ [s]) ↔ Follows.go next a steps ∧ s ∈ next (last ⟨a, steps⟩)
  induction steps generalizing a with
  | nil => exact ⟨fun h => ⟨trivial, h.1⟩, fun h => ⟨h.2, trivial⟩⟩
  | cons t steps ih =>
    rw [List.cons_append, Follows.go, Follows.go, ih t.2, and_assoc]
    rfl

end Walk

/-! ## The search -/

variable [DecidableEq β] (key : α → β) (next : α → List (κ × α)) (more : ℕ → Bool)

/-- No node comes twice. -/
def Walk.isSimple (p : Walk α κ) : Bool := decide (p.nodes.map key).Nodup

/-- The walk is one step longer, unless it came to a node again or is long enough. -/
def Walk.extend (p : Walk α κ) : List (Walk α κ) :=
  if p.isSimple key && more p.steps.length then (next p.last).map p.snoc else []

/-- A walk that the search reaches. -/
structure Walk.Reached (starts : List α) (p : Walk α κ) : Prop where
  start : p.start ∈ starts
  follows : p.Follows next
  more : ∀ i < p.steps.length, more i = true

/-- All of the walk but its last step is simple. -/
def Walk.initSimple (p : Walk α κ) : Bool :=
  Walk.isSimple key ⟨p.start, p.steps.dropLast⟩

variable {key next more}

theorem Walk.isSimple_nil (a : α) : (nil a : Walk α κ).isSimple key = true :=
  decide_eq_true (List.nodup_singleton _)

@[simp] theorem Walk.initSimple_snoc (p : Walk α κ) (s : κ × α) :
    (p.snoc s).initSimple key = p.isSimple key := by
  rw [initSimple, snoc, List.dropLast_concat]

theorem Walk.isSimple_snoc (p : Walk α κ) (s : κ × α) :
    (p.snoc s).isSimple key = true ↔ p.isSimple key = true ∧ key s.2 ∉ p.nodes.map key := by
  rw [isSimple, isSimple, decide_eq_true_iff, decide_eq_true_iff, nodes_snoc, List.map_append,
    List.nodup_append]
  simp only [List.map_cons, List.map_nil, List.nodup_cons, List.not_mem_nil, not_false_eq_true,
    List.nodup_nil, and_self, true_and, List.mem_singleton, forall_eq]
  exact and_congr_right fun _ => ⟨fun h hmem => h _ hmem rfl, fun h a ha hne => h (hne ▸ ha)⟩

theorem Walk.initSimple_of_isSimple {p : Walk α κ} (h : p.isSimple key = true) :
    p.initSimple key = true := by
  induction p using snocRec with
  | hnil a => exact h
  | hsnoc p s _ =>
    rw [initSimple_snoc]
    exact ((isSimple_snoc p s).mp h).1

theorem Walk.reached_nil {starts : List α} (a : α) :
    (nil a : Walk α κ).Reached next more starts ↔ a ∈ starts :=
  ⟨fun h => h.start, fun h => ⟨h, trivial, nofun⟩⟩

theorem Walk.reached_snoc {starts : List α} (p : Walk α κ) (s : κ × α) :
    (p.snoc s).Reached next more starts ↔
      p.Reached next more starts ∧ s ∈ next p.last ∧ more p.steps.length = true := by
  constructor
  · rintro ⟨hstart, hfollows, hmore⟩
    rw [length_snoc] at hmore
    obtain ⟨hp, hs⟩ := (follows_snoc p s).mp hfollows
    exact ⟨⟨hstart, hp, fun i hi => hmore i (by omega)⟩, hs, hmore _ (by omega)⟩
  · rintro ⟨⟨hstart, hfollows, hmore⟩, hs, hlast⟩
    refine ⟨hstart, (follows_snoc p s).mpr ⟨hfollows, hs⟩, fun i hi => ?_⟩
    rw [length_snoc] at hi
    rcases Nat.lt_succ_iff_lt_or_eq.mp hi with hlt | rfl
    · exact hmore i hlt
    · exact hlast

/-- One round: the walks that are one step longer. -/
theorem mem_working (starts : List α) (n : ℕ) (p : Walk α κ) :
    p ∈ working (Walk.extend key next more) (starts.map Walk.nil) n ↔
      p.steps.length = n ∧ p.Reached next more starts ∧ p.initSimple key = true := by
  induction n generalizing p with
  | zero =>
    rw [working, List.mem_map]
    constructor
    · rintro ⟨a, ha, rfl⟩
      exact ⟨rfl, (Walk.reached_nil a).mpr ha, Walk.isSimple_nil a⟩
    · rintro ⟨hlength, hreached, -⟩
      obtain ⟨a, steps⟩ := p
      obtain rfl := List.eq_nil_of_length_eq_zero hlength
      exact ⟨a, hreached.start, rfl⟩
  | succ n ih =>
    rw [working, List.mem_flatMap]
    constructor
    · rintro ⟨q, hq, hp⟩
      obtain ⟨hlength, hreached, -⟩ := (ih q).mp hq
      rw [Walk.extend] at hp
      split_ifs at hp with hmore
      · obtain ⟨s, hs, rfl⟩ := List.mem_map.mp hp
        obtain ⟨hsimple, hmore⟩ := Bool.and_eq_true_iff.mp hmore
        rw [Walk.length_snoc, hlength, Walk.initSimple_snoc]
        exact ⟨rfl, (Walk.reached_snoc q s).mpr ⟨hreached, hs, hmore⟩, hsimple⟩
      · cases hp
    · rintro ⟨hlength, hreached, hsimple⟩
      induction p using Walk.snocRec with
      | hnil a => cases hlength
      | hsnoc q s _ =>
        rw [Walk.length_snoc] at hlength
        rw [Walk.initSimple_snoc] at hsimple
        obtain ⟨hq, hs, hmore⟩ := (Walk.reached_snoc q s).mp hreached
        refine ⟨q, (ih q).mpr ⟨by omega, hq, Walk.initSimple_of_isSimple hsimple⟩, ?_⟩
        rw [Walk.extend, hsimple, hmore, Bool.and_self, if_pos rfl]
        exact List.mem_map_of_mem hs

theorem nodup_working {starts : List α} (hstarts : starts.Nodup) (hnext : ∀ a, (next a).Nodup)
    (n : ℕ) : (working (Walk.extend key next more) (starts.map Walk.nil) n).Nodup := by
  induction n with
  | zero => exact hstarts.map fun a b h => (Walk.mk.inj h).1
  | succ n ih =>
    refine List.nodup_flatMap.mpr ⟨fun p _ => ?_, ih.imp fun {p q} hne r hp hq => hne ?_⟩
    · rw [Walk.extend]
      split
      · exact (hnext p.last).map fun s t h => (Walk.snoc_inj h).2
      · exact List.nodup_nil
    · simp only [Walk.extend] at hp hq
      split_ifs at hp hq
      · obtain ⟨s, -, rfl⟩ := List.mem_map.mp hp
        obtain ⟨t, -, ht⟩ := List.mem_map.mp hq
        exact (Walk.snoc_inj ht).1.symm
      all_goals first | cases hp | cases hq

theorem mem_collected (starts : List α) (n : ℕ) (p : Walk α κ) :
    p ∈ collected (Walk.extend key next more) (starts.map Walk.nil) n ↔
      p.steps.length < n ∧ p.Reached next more starts ∧ p.initSimple key = true := by
  induction n with
  | zero => exact iff_of_false List.not_mem_nil fun h => absurd h.1 (Nat.not_lt_zero _)
  | succ n ih =>
    rw [collected, List.mem_append, ih, mem_working, Nat.lt_succ_iff_lt_or_eq, ← or_and_right]

theorem nodup_collected {starts : List α} (hstarts : starts.Nodup) (hnext : ∀ a, (next a).Nodup)
    (n : ℕ) : (collected (Walk.extend key next more) (starts.map Walk.nil) n).Nodup := by
  induction n with
  | zero => exact List.nodup_nil
  | succ n ih =>
    refine List.nodup_append'.mpr ⟨ih, nodup_working hstarts hnext n, fun p hp hq => ?_⟩
    have hlt := ((mem_collected starts n p).mp hp).1
    have heq := ((mem_working starts n p).mp hq).1
    omega

/-- A simple walk has no more steps than there are nodes to come to. -/
theorem Walk.length_le {p : Walk α κ} (targets : List β)
    (hnext : ∀ a, ∀ s ∈ next a, key s.2 ∈ targets) (hfollows : p.Follows next)
    (hsimple : p.isSimple key = true) : p.steps.length ≤ targets.length := by
  have hmem : ∀ s ∈ p.steps, key s.2 ∈ targets := by
    induction p using snocRec with
    | hnil a => nofun
    | hsnoc p s ih =>
      obtain ⟨hp, hs⟩ := (follows_snoc p s).mp hfollows
      intro t ht
      rcases List.mem_append.mp ht with ht | ht
      · exact ih hp ((isSimple_snoc p s).mp hsimple).1 t ht
      · obtain rfl := List.mem_singleton.mp ht
        exact hnext _ _ hs
  have hnodup : (p.steps.map fun s => key s.2).Nodup := by
    have hall := of_decide_eq_true hsimple
    rw [nodes, List.map_cons, List.map_map] at hall
    exact (List.nodup_cons.mp hall).2
  have hsubset : (p.steps.map fun s => key s.2) ⊆ targets := by
    intro b hb
    obtain ⟨s, hs, rfl⟩ := List.mem_map.mp hb
    exact hmem s hs
  have hle := (List.subperm_of_subset hnodup hsubset).length_le
  rwa [List.length_map] at hle

/-- **The search ends** where the edges lead to finitely many nodes. -/
theorem recursive_total (starts : List α) (targets : List β)
    (hnext : ∀ a, ∀ s ∈ next a, key s.2 ∈ targets) :
    ∃ rows, Recursive (Walk.extend key next more) (starts.map Walk.nil) rows := by
  refine ⟨_, targets.length + 2, List.eq_nil_iff_forall_not_mem.mpr fun p hp => ?_, .refl _⟩
  obtain ⟨hlength, hreached, hsimple⟩ := (mem_working starts _ p).mp hp
  induction p using Walk.snocRec with
  | hnil a => cases hlength
  | hsnoc q s _ =>
    rw [Walk.length_snoc] at hlength
    rw [Walk.initSimple_snoc] at hsimple
    have hle := q.length_le targets hnext ((Walk.follows_snoc q s).mp hreached.follows).1 hsimple
    omega

theorem Recursive.reached {starts : List α} {rows : List (Walk α κ)}
    (h : Recursive (Walk.extend key next more) (starts.map Walk.nil) rows) {p : Walk α κ}
    (hp : p ∈ rows) : p.Reached next more starts ∧ p.initSimple key = true := by
  obtain ⟨n, -, hperm⟩ := h
  exact ((mem_collected starts n p).mp (hperm.mem_iff.mp hp)).2

/-- **The rows of the search** are walks, each of them once, and those that are not marked are
the simple walks. -/
theorem Recursive.walks {starts : List α} {rows : List (Walk α κ)}
    (h : Recursive (Walk.extend key next more) (starts.map Walk.nil) rows) (hstarts : starts.Nodup)
    (hnext : ∀ a, (next a).Nodup) :
    (rows.filter (Walk.isSimple key)).Nodup ∧ ∀ p, p ∈ rows.filter (Walk.isSimple key) ↔
      p.Reached next more starts ∧ p.isSimple key = true := by
  obtain ⟨n, hempty, hperm⟩ := h
  refine ⟨(hperm.nodup_iff.mpr (nodup_collected hstarts hnext n)).filter _, fun p => ?_⟩
  rw [List.mem_filter, hperm.mem_iff, mem_collected]
  constructor
  · rintro ⟨⟨-, hreached, -⟩, hsimple⟩
    exact ⟨hreached, hsimple⟩
  · rintro ⟨hreached, hsimple⟩
    refine ⟨⟨?_, hreached, Walk.initSimple_of_isSimple hsimple⟩, hsimple⟩
    -- A walk of the length of an empty round or more is not there.
    refine Nat.lt_of_not_le fun hle => ?_
    have hmem : p ∈ working (Walk.extend key next more) (starts.map Walk.nil) p.steps.length :=
      (mem_working starts _ p).mpr ⟨rfl, hreached, Walk.initSimple_of_isSimple hsimple⟩
    rw [working_later hempty hle] at hmem
    cases hmem

/-! ## Against the edges -/

namespace Walk

theorem nodes_reverse_eq (p : Walk α κ) : p.nodes.reverse = p.last :: p.nodes.reverse.tail := by
  induction p using snocRec with
  | hnil a => rfl
  | hsnoc p s _ =>
    rw [nodes_snoc, last_snoc, List.reverse_append]
    rfl

/-- The walk back. -/
def reverse (p : Walk α κ) : Walk α κ := ⟨p.last, p.labels.reverse.zip p.nodes.reverse.tail⟩

theorem reverse_snoc (p : Walk α κ) (s : κ × α) :
    (p.snoc s).reverse = ⟨s.2, (s.1, p.last) :: p.reverse.steps⟩ := by
  rw [reverse, last_snoc, labels_snoc, nodes_snoc, List.reverse_append, List.reverse_append]
  simp only [List.reverse_singleton, List.singleton_append, List.tail_cons]
  rw [nodes_reverse_eq, List.zip_cons_cons]
  rfl

@[simp] theorem nodes_reverse (p : Walk α κ) : p.reverse.nodes = p.nodes.reverse := by
  induction p using snocRec with
  | hnil a => rfl
  | hsnoc p s ih =>
    rw [reverse_snoc, nodes_snoc, List.reverse_append, ← ih]
    rfl

@[simp] theorem labels_reverse (p : Walk α κ) : p.reverse.labels = p.labels.reverse := by
  induction p using snocRec with
  | hnil a => rfl
  | hsnoc p s ih =>
    rw [reverse_snoc, labels_snoc, List.reverse_append, ← ih]
    rfl

theorem ext_nodes {p q : Walk α κ} (hnodes : p.nodes = q.nodes) (hlabels : p.labels = q.labels) :
    p = q := by
  have hsteps (r : Walk α κ) : r.steps = r.labels.zip r.nodes.tail := by
    rw [labels, nodes, List.tail_cons, List.zip_map']
    exact (List.map_id' r.steps).symm
  have hstart : p.start = q.start := List.head_eq_of_cons_eq hnodes
  have hsteps : p.steps = q.steps := by rw [hsteps p, hsteps q, hnodes, hlabels]
  cases p
  cases q
  cases hstart
  cases hsteps
  rfl

theorem reverse_reverse (p : Walk α κ) : p.reverse.reverse = p :=
  ext_nodes (by rw [nodes_reverse, nodes_reverse, List.reverse_reverse])
    (by rw [labels_reverse, labels_reverse, List.reverse_reverse])

theorem length_reverse (p : Walk α κ) : p.reverse.steps.length = p.steps.length := by
  have hlength := congrArg List.length (labels_reverse p)
  rwa [labels, labels, List.length_map, List.length_reverse, List.length_map] at hlength

theorem last_reverse (p : Walk α κ) : p.reverse.last = p.start :=
  congrArg start (reverse_reverse p)

/-- **A walk back** follows the edges backwards. -/
theorem follows_reverse {back : α → List (κ × α)} (p : Walk α κ)
    (hback : ∀ k, ∀ a ∈ p.nodes, ∀ b ∈ p.nodes, (k, b) ∈ next a ↔ (k, a) ∈ back b) :
    p.reverse.Follows back ↔ p.Follows next := by
  induction p using snocRec with
  | hnil a => exact Iff.rfl
  | hsnoc p s ih =>
    rw [nodes_snoc] at hback
    have hinit (a : α) (ha : a ∈ p.nodes) : a ∈ p.nodes ++ [s.2] := List.mem_append_left _ ha
    rw [follows_snoc, reverse_snoc,
      ← ih fun k a ha b hb => hback k a (hinit a ha) b (hinit b hb), and_comm]
    show (s.1, p.last) ∈ back s.2 ∧ p.reverse.Follows back ↔ _
    rw [← hback s.1 p.last (hinit _ p.last_mem_nodes) s.2 (by simp)]

end Walk

end Graph

end Walks

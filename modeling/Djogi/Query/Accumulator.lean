import Djogi.Lib.Placeholders

/-!
# The accumulator of SQL

`pg/accumulator.rs`: a text with numbered placeholders and the values bound to them. One
accumulator is spliced into another by renumbering whatever looks like a placeholder in its text.

* `pushAll_eq`: what a sequence of pushes makes;
* `run_eq`: what pushes and splices make together;
* `coded_eq_iff`: the text is the one that the pushes alone would have made exactly when no digit
  strays in a text that is spliced in after a bound value.
-/

namespace Djogi.Query

open Placeholders

variable {β : Type}

/-! ## Accumulators -/

def u32Max : Nat := 2 ^ 32 - 1

structure SqlAccumulator (β : Type) where
  sql : List Char
  binds : List β
  nextParam : Nat
  deriving DecidableEq, Repr

namespace SqlAccumulator

def new (initialSql : String) : SqlAccumulator β := ⟨initialSql.toList, [], 1⟩

def pushSql (acc : SqlAccumulator β) (s : String) : SqlAccumulator β :=
  { acc with sql := acc.sql ++ s.toList }

/-- None if the next number overflows, which is a panic. -/
def pushBind (acc : SqlAccumulator β) (v : β) : Option (SqlAccumulator β) :=
  if u32Max < acc.nextParam + 1 then none
  else some ⟨acc.sql ++ '$' :: digits acc.nextParam, acc.binds ++ [v], acc.nextParam + 1⟩

/-- A text that comes first is taken as it is. -/
def extendWith (acc other : SqlAccumulator β) : Option (SqlAccumulator β) := do
  let offset := acc.nextParam - 1
  let text ← if offset = 0 then some other.sql else renumber u32Max offset other.sql
  if u32Max < acc.nextParam + other.binds.length then none
  else some ⟨acc.sql ++ text, acc.binds ++ other.binds, acc.nextParam + other.binds.length⟩

end SqlAccumulator

/-! ## Pushes and splices -/

/-- A call that adds to an accumulator. -/
inductive Push (β : Type)
  | sql (text : String)
  | bind (v : β)
  deriving DecidableEq, Repr

def Push.atoms : Push β → List Atom
  | .sql text => text.toList.map .char
  | .bind _ => [.hole]

/-- The text of the pushes, with a place for each value. -/
def atomsOf (l : List (Push β)) : List Atom := l.flatMap Push.atoms

def bindsOf (l : List (Push β)) : List β :=
  l.filterMap fun
    | .sql _ => none
    | .bind v => some v

def push (acc : SqlAccumulator β) : Push β → Option (SqlAccumulator β)
  | .sql text => some (acc.pushSql text)
  | .bind v => acc.pushBind v

def pushAll : List (Push β) → SqlAccumulator β → Option (SqlAccumulator β)
  | [], acc => some acc
  | p :: l, acc => (push acc p).bind (pushAll l)

/-- A call that adds to an accumulator, or one that splices in what the pushes have made of an
empty one. -/
inductive Emit (β : Type)
  | push (p : Push β)
  | splice (inner : List (Push β))
  deriving DecidableEq, Repr

def run : List (Emit β) → SqlAccumulator β → Option (SqlAccumulator β)
  | [], acc => some acc
  | .push p :: l, acc => (push acc p).bind (run l)
  | .splice inner :: l, acc => do
      let other ← pushAll inner (.new "")
      let acc ← acc.extendWith other
      run l acc

/-- The pushes alone, each inner statement written at its place. -/
def whole (l : List (Emit β)) : List (Push β) :=
  l.flatMap fun
    | .push p => [p]
    | .splice inner => inner

theorem atomsOf_append (a b : List (Push β)) : atomsOf (a ++ b) = atomsOf a ++ atomsOf b :=
  List.flatMap_append

theorem bindsOf_append (a b : List (Push β)) : bindsOf (a ++ b) = bindsOf a ++ bindsOf b :=
  List.filterMap_append

theorem spell_chars (k : Nat) (cs : List Char) : spell k (cs.map .char) = cs := by
  induction cs with
  | nil => rfl
  | cons c cs ih => exact congrArg (c :: ·) ih

theorem holes_chars (cs : List Char) : holes (cs.map .char) = 0 := by
  induction cs with
  | nil => rfl
  | cons c cs ih => exact ih

theorem length_bindsOf (l : List (Push β)) : (bindsOf l).length = holes (atomsOf l) := by
  induction l with
  | nil => rfl
  | cons p l ih =>
    have hsplit := atomsOf_append [p] l
    rw [List.singleton_append] at hsplit
    cases p with
    | sql text =>
      rw [hsplit, holes_append]
      show (bindsOf l).length = holes (text.toList.map .char ++ []) + _
      rw [List.append_nil, holes_chars, Nat.zero_add, ih]
    | bind v =>
      rw [hsplit, holes_append]
      show (bindsOf l).length + 1 = 1 + _
      rw [ih, Nat.add_comm]

/-- **A sequence of pushes** spells its text out. -/
theorem pushAll_eq (l : List (Push β)) (acc : SqlAccumulator β) (hnext : acc.nextParam ≤ u32Max) :
    pushAll l acc =
      if acc.nextParam + holes (atomsOf l) ≤ u32Max then
        some ⟨acc.sql ++ spell acc.nextParam (atomsOf l), acc.binds ++ bindsOf l,
          acc.nextParam + holes (atomsOf l)⟩
      else none := by
  induction l generalizing acc with
  | nil => simp [pushAll, atomsOf, bindsOf, holes, spell, hnext]
  | cons p l ih =>
    have hatoms : atomsOf (p :: l) = p.atoms ++ atomsOf l := rfl
    cases p with
    | sql text =>
      have hholes : holes (atomsOf (Push.sql text :: l)) = holes (atomsOf l) := by
        rw [hatoms, holes_append]
        show holes (text.toList.map .char) + _ = _
        rw [holes_chars, Nat.zero_add]
      have hspell : spell acc.nextParam (atomsOf (Push.sql text :: l)) =
          text.toList ++ spell acc.nextParam (atomsOf l) := by
        rw [hatoms, spell_append]
        show spell _ (text.toList.map .char) ++ spell (_ + holes (text.toList.map .char)) _ = _
        rw [spell_chars, holes_chars, Nat.add_zero]
      show pushAll l (acc.pushSql text) = _
      rw [ih (acc.pushSql text) hnext, hholes, hspell, ← List.append_assoc]
      rfl
    | bind v =>
      have hholes : holes (atomsOf (Push.bind v :: l)) = holes (atomsOf l) + 1 := rfl
      show (acc.pushBind v).bind (pushAll l) = _
      unfold SqlAccumulator.pushBind
      rw [hholes]
      by_cases hmax : u32Max < acc.nextParam + 1
      · rw [if_pos hmax, if_neg (by omega)]
        rfl
      · rw [if_neg hmax, Option.bind_some, ih _ (by dsimp only; omega)]
        dsimp only
        rw [show acc.nextParam + 1 + holes (atomsOf l) =
          acc.nextParam + (holes (atomsOf l) + 1) by omega]
        have hspell : spell acc.nextParam (atomsOf (Push.bind v :: l)) =
            '$' :: (digits acc.nextParam ++ spell (acc.nextParam + 1) (atomsOf l)) := rfl
        rw [hspell]
        simp [bindsOf]

/-! ## Splices -/

/-- The text of a splice, with the next number. -/
def codedSplice (k : Nat) (inner : List (Push β)) : Option (List Char) :=
  if k = 1 then some (spell 1 (atomsOf inner))
  else renumber u32Max (k - 1) (spell 1 (atomsOf inner))

/-- The text that the calls add, with the next number. -/
def coded : Nat → List (Emit β) → Option (List Char)
  | _, [] => some []
  | k, .push (.sql text) :: l => (coded k l).map fun t => text.toList ++ t
  | k, .push (.bind _) :: l =>
      if u32Max < k + 1 then none
      else (coded (k + 1) l).map fun t => '$' :: (digits k ++ t)
  | k, .splice inner :: l =>
      if u32Max < k + holes (atomsOf inner) then none
      else (codedSplice k inner).bind fun t =>
        (coded (k + holes (atomsOf inner)) l).map fun t' => t ++ t'

attribute [grind] coded

theorem whole_push (p : Push β) (l : List (Emit β)) : whole (.push p :: l) = p :: whole l := rfl

theorem whole_splice (inner : List (Push β)) (l : List (Emit β)) :
    whole (.splice inner :: l) = inner ++ whole l := rfl

/-- An inner statement. -/
theorem pushAll_new (inner : List (Push β)) : pushAll inner (.new "") =
    if 1 + holes (atomsOf inner) ≤ u32Max then
      some ⟨spell 1 (atomsOf inner), bindsOf inner, 1 + holes (atomsOf inner)⟩
    else none :=
  pushAll_eq inner (.new "") (show 1 ≤ u32Max by decide)

/-- What a splice does to an accumulator. -/
theorem extendWith_eq (acc : SqlAccumulator β) (inner : List (Push β)) (hpos : 0 < acc.nextParam) :
    acc.extendWith ⟨spell 1 (atomsOf inner), bindsOf inner, 1 + holes (atomsOf inner)⟩ =
      if u32Max < acc.nextParam + holes (atomsOf inner) then none
      else (codedSplice acc.nextParam inner).map fun text =>
        ⟨acc.sql ++ text, acc.binds ++ bindsOf inner, acc.nextParam + holes (atomsOf inner)⟩ := by
  have hone : acc.nextParam - 1 = 0 ↔ acc.nextParam = 1 := by omega
  unfold SqlAccumulator.extendWith codedSplice
  simp only [hone, length_bindsOf]
  split_ifs with hfirst hmax hmax
  · rfl
  · rfl
  · cases renumber u32Max (acc.nextParam - 1) (spell 1 (atomsOf inner)) <;> rfl
  · cases renumber u32Max (acc.nextParam - 1) (spell 1 (atomsOf inner)) <;> rfl

/-- **Pushes and splices** add the text and the values, in the order of the calls. -/
theorem run_eq (l : List (Emit β)) (acc : SqlAccumulator β) (hpos : 0 < acc.nextParam)
    (hnext : acc.nextParam ≤ u32Max) :
    run l acc = (coded acc.nextParam l).map fun t =>
      ⟨acc.sql ++ t, acc.binds ++ bindsOf (whole l),
        acc.nextParam + holes (atomsOf (whole l))⟩ := by
  induction l generalizing acc with
  | nil => simp [run, coded, whole, bindsOf, atomsOf, holes]
  | cons x l ih =>
    cases x with
    | push p =>
      cases p with
      | sql text =>
        show run l (acc.pushSql text) = _
        rw [ih (acc.pushSql text) hpos hnext, coded, Option.map_map]
        refine congrArg (Option.map · _) (funext fun t => ?_)
        have hholes : holes (atomsOf (whole (.push (.sql text) :: l))) =
            holes (atomsOf (whole l)) := by
          rw [whole_push, ← List.singleton_append, atomsOf_append, holes_append]
          show holes (text.toList.map .char ++ []) + _ = _
          rw [List.append_nil, holes_chars, Nat.zero_add]
        show (⟨acc.sql ++ text.toList ++ t, acc.binds ++ bindsOf (whole l),
          acc.nextParam + holes (atomsOf (whole l))⟩ : SqlAccumulator β) =
          ⟨acc.sql ++ (text.toList ++ t), acc.binds ++ bindsOf (whole l), _⟩
        rw [List.append_assoc, hholes]
      | bind v =>
        show (acc.pushBind v).bind (run l) = _
        unfold SqlAccumulator.pushBind
        rw [coded]
        split_ifs with hmax
        · rfl
        · rw [Option.bind_some, ih _ (Nat.succ_pos _) (by dsimp only; omega), Option.map_map]
          refine congrArg (Option.map · _) (funext fun t => ?_)
          have hholes : holes (atomsOf (whole (.push (.bind v) :: l))) =
              holes (atomsOf (whole l)) + 1 := rfl
          have hbinds : bindsOf (whole (.push (.bind v) :: l)) = v :: bindsOf (whole l) := rfl
          simp [hholes, hbinds, Nat.add_assoc, Nat.add_comm 1]
    | splice inner =>
      have hextend := extendWith_eq acc inner hpos
      show ((pushAll inner (.new "")).bind fun other =>
        (acc.extendWith other).bind fun acc => run l acc) = _
      rw [pushAll_new, coded]
      by_cases hmax : u32Max < acc.nextParam + holes (atomsOf inner)
      · rw [if_pos hmax]
        split_ifs
        · rw [Option.bind_some, hextend, if_pos hmax]
          rfl
        · rfl
      · rw [if_neg hmax, if_pos (show 1 + holes (atomsOf inner) ≤ u32Max by omega),
          Option.bind_some, hextend, if_neg hmax]
        cases codedSplice acc.nextParam inner with
        | none => rfl
        | some text =>
          rw [Option.map_some, Option.bind_some, Option.bind_some,
            ih _ (show 0 < acc.nextParam + _ by omega) (show acc.nextParam + _ ≤ u32Max by omega),
            Option.map_map]
          refine congrArg (Option.map · _) (funext fun t => ?_)
          simp [whole_splice, atomsOf_append, bindsOf_append, holes_append, Nat.add_assoc]

/-- A splice is followed by a closing parenthesis. -/
def SplicesClosed : List (Emit β) → Prop
  | [] => True
  | .push _ :: l => SplicesClosed l
  | .splice _ :: l =>
      (∃ text l', l = .push (.sql text) :: l' ∧ text.toList.head? = some ')') ∧ SplicesClosed l

/-- No digit strays in a text that is spliced in after a value. The number is the next one. -/
def Clean : Nat → List (Emit β) → Prop
  | _, [] => True
  | k, .push (.sql _) :: l => Clean k l
  | k, .push (.bind _) :: l => Clean (k + 1) l
  | k, .splice inner :: l =>
      (k = 1 ∨ stray false (atomsOf inner) = false) ∧ Clean (k + holes (atomsOf inner)) l

/-- A splice is right if nothing strays in its text. -/
theorem codedSplice_eq_iff (k : Nat) (inner : List (Push β)) (hpos : 0 < k)
    (hmax : k + holes (atomsOf inner) ≤ u32Max) :
    codedSplice k inner = some (spell k (atomsOf inner)) ↔
      k = 1 ∨ stray false (atomsOf inner) = false := by
  unfold codedSplice
  split_ifs with hone
  · simp [hone]
  · have hk : 1 + (k - 1) = k := by omega
    constructor
    · intro h
      refine .inr (stray_of_renumber u32Max (k - 1) 1 _ (by omega) ?_)
      rw [h, hk]
    · rintro (h | h)
      · exact absurd h hone
      · rw [renumber_spell u32Max (k - 1) 1 _ false h (by omega), hk]

/-- A splice changes nothing but digits after dollars. -/
theorem skel_codedSplice (k : Nat) (inner : List (Push β)) (t : List Char)
    (h : codedSplice k inner = some t) : skel false t = skel false (spell k (atomsOf inner)) := by
  rw [skel_spell false k 1]
  unfold codedSplice at h
  split_ifs at h
  · cases h
    rfl
  · exact skel_renumber u32Max (k - 1) _ t h false

/-- What follows a splice does not begin with a digit. -/
theorem noDigitHead_coded (k : Nat) (inner : List (Push β)) (l : List (Emit β)) (t : List Char)
    (hclosed : SplicesClosed (.splice inner :: l)) (h : coded k l = some t) :
    NoDigitHead t ∧ NoDigitHead (spell k (atomsOf (whole l))) := by
  obtain ⟨⟨text, l', rfl, hhead⟩, -⟩ := hclosed
  obtain ⟨cs, hcs⟩ : ∃ cs, text.toList = ')' :: cs := by
    cases htext : text.toList with
    | nil => rw [htext] at hhead; cases hhead
    | cons c cs =>
      rw [htext] at hhead
      exact ⟨cs, by rw [Option.some.inj hhead]⟩
  have hspell : spell k (atomsOf (whole (.push (.sql text) :: l'))) =
      ')' :: spell k (cs.map .char ++ atomsOf (whole l')) := by
    have hatoms : atomsOf (whole (.push (.sql text) :: l')) =
        text.toList.map .char ++ atomsOf (whole l') := rfl
    rw [hatoms, hcs]
    rfl
  rw [coded] at h
  obtain ⟨t', -, rfl⟩ := Option.map_eq_some_iff.mp h
  constructor
  · intro c hc
    rw [hcs] at hc
    obtain rfl : ')' = c := Option.some.inj hc
    decide
  · intro c hc
    rw [hspell] at hc
    obtain rfl : ')' = c := Option.some.inj hc
    decide

/-- **The text is right** exactly when the numbers do not overflow and no splice after a value has
a digit that strays. -/
theorem coded_eq_iff (l : List (Emit β)) (k : Nat) (hpos : 0 < k) (hnext : k ≤ u32Max)
    (hclosed : SplicesClosed l) : coded k l = some (spell k (atomsOf (whole l))) ↔
      k + holes (atomsOf (whole l)) ≤ u32Max ∧ Clean k l := by
  induction l generalizing k with
  | nil => simp [coded, Clean, whole, atomsOf, holes, spell, hnext]
  | cons x l ih =>
    cases x with
    | push p =>
      cases p with
      | sql text =>
        have hatoms : atomsOf (whole (.push (.sql text) :: l)) =
            text.toList.map .char ++ atomsOf (whole l) := rfl
        rw [coded, hatoms, spell_append, spell_chars, holes_append, holes_chars, Nat.zero_add,
          Nat.add_zero, Clean, ← ih k hpos hnext hclosed, Option.map_eq_some_iff]
        constructor
        · rintro ⟨t, ht, heq⟩
          rw [ht, List.append_cancel_left heq]
        · exact fun h => ⟨_, h, rfl⟩
      | bind v =>
        have hholes : holes (atomsOf (whole (.push (.bind v) :: l))) =
            holes (atomsOf (whole l)) + 1 := rfl
        have hspell : spell k (atomsOf (whole (.push (.bind v) :: l))) =
            '$' :: (digits k ++ spell (k + 1) (atomsOf (whole l))) := rfl
        rw [coded, hholes, hspell, Clean]
        split_ifs with hmax
        · exact ⟨False.elim, fun h => absurd h.1 (by omega)⟩
        · rw [Option.map_eq_some_iff, show k + (holes (atomsOf (whole l)) + 1) =
            k + 1 + holes (atomsOf (whole l)) by omega,
            ← ih (k + 1) (Nat.succ_pos k) (by omega) hclosed]
          constructor
          · rintro ⟨t, ht, heq⟩
            rw [ht, List.append_cancel_left (List.cons.inj heq).2]
          · exact fun h => ⟨_, h, rfl⟩
    | splice inner =>
      rw [coded, whole_splice, atomsOf_append, spell_append, holes_append, Clean]
      split_ifs with hmax
      · exact ⟨False.elim, fun h => absurd h.1 (by omega)⟩
      have hrest := ih (k + holes (atomsOf inner)) (by omega) (by omega) hclosed.2
      rw [← Nat.add_assoc]
      constructor
      · intro h
        obtain ⟨t, ht, h⟩ := Option.bind_eq_some_iff.mp h
        obtain ⟨t', ht', heq⟩ := Option.map_eq_some_iff.mp h
        obtain ⟨hhead, hhead'⟩ := noDigitHead_coded _ inner l t' hclosed ht'
        obtain ⟨rfl, rfl⟩ := append_inj_of_skel _ _ _ _ heq (skel_codedSplice k inner t ht)
          hhead hhead'
        obtain ⟨hbound, hclean⟩ := hrest.mp ht'
        exact ⟨hbound, (codedSplice_eq_iff k inner hpos (by omega)).mp ht, hclean⟩
      · rintro ⟨hbound, hsplice, hclean⟩
        rw [(codedSplice_eq_iff k inner hpos (by omega)).mpr hsplice, hrest.mpr ⟨hbound, hclean⟩]
        rfl

end Djogi.Query

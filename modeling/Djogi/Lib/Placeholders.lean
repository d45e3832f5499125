import Mathlib.Data.List.Basic
import Mathlib.Tactic.Ring

/-!
# Texts with numbered places

A text is written as characters and places for values; spelling it out numbers the places, as `$1`,
`$2` and so on. A text that has been spelled out can be renumbered without knowing which numbers
are places.

* `renumber_spell`: renumbering is right for texts in which no digit strays after a dollar or a
  place;
* `stray_of_renumber`: and for no others;
* `append_inj_of_skel`: texts that differ only in such digits can be compared part by part.
-/

namespace Placeholders

/-! ## Spelling -/

inductive Atom
  | char (c : Char)
  | hole
  deriving DecidableEq, Repr

def digits (n : Nat) : List Char := Nat.toDigits 10 n

def value (ds : List Char) : Nat := Nat.ofDigitChars 10 ds 0

/-- The text, with its places numbered from `k` on. -/
def spell : Nat → List Atom → List Char
  | _, [] => []
  | k, .char c :: l => c :: spell k l
  | k, .hole :: l => '$' :: (digits k ++ spell (k + 1) l)

def holes : List Atom → Nat
  | [] => 0
  | .char _ :: l => holes l
  | .hole :: l => holes l + 1

theorem holes_append (a b : List Atom) : holes (a ++ b) = holes a + holes b := by
  induction a with
  | nil => simp [holes]
  | cons x a ih =>
    cases x with
    | char c => exact ih
    | hole =>
      show holes (a ++ b) + 1 = holes a + 1 + holes b
      omega

theorem spell_append (k : Nat) (a b : List Atom) :
    spell k (a ++ b) = spell k a ++ spell (k + holes a) b := by
  induction a generalizing k with
  | nil => rfl
  | cons x a ih =>
    cases x with
    | char c => simp [spell, holes, ih]
    | hole =>
      rw [List.cons_append, spell, spell, ih, holes, Nat.add_right_comm, List.cons_append,
        List.append_assoc, Nat.add_assoc]

/-- A digit follows a dollar of the text or the number of a place. The flag says that the last
character was one of these. -/
def stray : Bool → List Atom → Bool
  | _, [] => false
  | afterDollar, .char c :: l => (afterDollar && c.isDigit) || stray (c == '$') l
  | _, .hole :: l => stray true l

/-- The digits the text begins with. -/
def lead : List Atom → List Char
  | .char c :: l => if c.isDigit then c :: lead l else []
  | _ => []

/-! ## Digits -/

def NoDigitHead (s : List Char) : Prop := ∀ c ∈ s.head?, c.isDigit = false

theorem isDigit_digits (n : Nat) (c : Char) (h : c ∈ digits n) : c.isDigit = true :=
  Nat.isDigit_of_mem_toDigits (by decide) (by decide) h

theorem digits_ne_nil (n : Nat) : digits n ≠ [] := Nat.toDigits_ne_nil

theorem value_digits (n : Nat) : value (digits n) = n := Nat.ofDigitChars_ten_toDigits

theorem value_append (a b : List Char) : value (a ++ b) = 10 ^ b.length * value a + value b := by
  unfold value
  rw [Nat.ofDigitChars_append, Nat.ofDigitChars_eq_ofDigitChars_zero]

theorem takeWhile_append_of_noDigitHead (ds s : List Char) (hds : ∀ c ∈ ds, c.isDigit = true)
    (hs : NoDigitHead s) : (ds ++ s).takeWhile Char.isDigit = ds := by
  rw [List.takeWhile_append_of_pos hds]
  cases s with
  | nil => simp
  | cons c s => simp [hs c rfl]

theorem dropWhile_append_of_noDigitHead (ds s : List Char) (hds : ∀ c ∈ ds, c.isDigit = true)
    (hs : NoDigitHead s) : (ds ++ s).dropWhile Char.isDigit = s := by
  rw [List.dropWhile_append_of_pos hds]
  cases s with
  | nil => simp
  | cons c s => simp [hs c rfl]

theorem noDigitHead_dropWhile (s : List Char) : NoDigitHead (s.dropWhile Char.isDigit) := by
  intro c hc
  have h := List.head?_dropWhile_not Char.isDigit s
  rw [Option.mem_def] at hc
  rw [hc] at h
  simpa using h

theorem takeWhile_spell (k : Nat) (l : List Atom) :
    (spell k l).takeWhile Char.isDigit = lead l := by
  induction l with
  | nil => rfl
  | cons x l ih =>
    cases x with
    | char c => cases hc : c.isDigit <;> simp [spell, lead, hc, ih]
    | hole => rfl

/-- What strays at the head, and what strays further on. -/
theorem stray_true (l : List Atom) : stray true l = (lead l != [] || stray false l) := by
  cases l with
  | nil => rfl
  | cons x l =>
    cases x with
    | char c => cases hc : c.isDigit <;> simp [stray, lead, hc]
    | hole => rfl

theorem noDigitHead_spell (k : Nat) (l : List Atom) (h : lead l = []) :
    NoDigitHead (spell k l) := by
  cases l with
  | nil => exact fun _ hc => nomatch hc
  | cons x l =>
    cases x with
    | char c =>
      intro c' hc'
      obtain rfl : c = c' := Option.some.inj hc'
      unfold lead at h
      split_ifs at h with hd
      simpa using hd
    | hole =>
      intro c' hc'
      obtain rfl : '$' = c' := Option.some.inj hc'
      decide

/-! ## Renumbering -/

/-- Add the offset to every number after a dollar. It fails if one is above the limit. -/
def renumber (limit offset : Nat) : List Char → Option (List Char)
  | [] => some []
  | [c] => some [c]
  | c :: d :: rest =>
      if c = '$' ∧ d.isDigit = true then
        let n := value (d :: rest.takeWhile Char.isDigit) + offset
        if limit < n then none
        else (renumber limit offset (rest.dropWhile Char.isDigit)).map fun s =>
          '$' :: (digits n ++ s)
      else (renumber limit offset (d :: rest)).map fun s => c :: s
termination_by s => s.length
decreasing_by
  · have := (List.dropWhile_sublist (l := rest) Char.isDigit).length_le
    simp only [List.length_cons]
    omega
  · simp

theorem renumber_cons (limit offset : Nat) (c : Char) (s : List Char)
    (h : c = '$' → NoDigitHead s) :
    renumber limit offset (c :: s) = (renumber limit offset s).map fun t => c :: t := by
  cases s with
  | nil => simp [renumber]
  | cons d rest =>
    rw [renumber, if_neg]
    rintro ⟨hc, hd⟩
    rw [h hc d rfl] at hd
    cases hd

theorem renumber_run (limit offset : Nat) (ds s : List Char) (hne : ds ≠ [])
    (hds : ∀ c ∈ ds, c.isDigit = true) (hs : NoDigitHead s) :
    renumber limit offset ('$' :: (ds ++ s)) =
      if limit < value ds + offset then none
      else (renumber limit offset s).map fun t => '$' :: (digits (value ds + offset) ++ t) := by
  cases ds with
  | nil => exact absurd rfl hne
  | cons d ds =>
    obtain ⟨hd, hds⟩ := List.forall_mem_cons.mp hds
    rw [List.cons_append, renumber, if_pos ⟨rfl, hd⟩,
      takeWhile_append_of_noDigitHead ds s hds hs, dropWhile_append_of_noDigitHead ds s hds hs]

/-- The head of a text is left alone. -/
theorem noDigitHead_renumber (limit offset : Nat) (s t : List Char)
    (h : renumber limit offset s = some t) (hs : NoDigitHead s) : NoDigitHead t := by
  unfold renumber at h
  split at h
  · cases h
    exact hs
  · cases h
    exact hs
  · dsimp only at h
    split_ifs at h with hrun
    · obtain ⟨t', -, rfl⟩ := Option.map_eq_some_iff.mp h
      intro c' hc'
      obtain rfl : '$' = c' := Option.some.inj hc'
      decide
    · obtain ⟨t', -, rfl⟩ := Option.map_eq_some_iff.mp h
      exact hs

/-- **A clean text** is renumbered as it would have been spelled. -/
theorem renumber_spell (limit offset k : Nat) (l : List Atom) (afterDollar : Bool)
    (h : stray afterDollar l = false) (hlimit : k + offset + holes l ≤ limit + 1) :
    renumber limit offset (spell k l) = some (spell (k + offset) l) := by
  induction l generalizing k afterDollar with
  | nil => simp [spell, renumber]
  | cons x l ih =>
    cases x with
    | char c =>
      rw [stray, Bool.or_eq_false_iff] at h
      rw [spell, renumber_cons, ih k _ h.2 hlimit]
      · rfl
      · rintro rfl
        have hstray := h.2
        rw [beq_self_eq_true, stray_true, Bool.or_eq_false_iff] at hstray
        exact noDigitHead_spell k l (by simpa using hstray.1)
    | hole =>
      rw [stray] at h
      rw [holes] at hlimit
      have hhead : lead l = [] := by
        rw [stray_true, Bool.or_eq_false_iff] at h
        simpa using h.1
      rw [spell, renumber_run limit offset (digits k) _ (digits_ne_nil k) (isDigit_digits k)
        (noDigitHead_spell (k + 1) l hhead), value_digits, if_neg (by omega),
        ih (k + 1) true h (by omega), Nat.add_right_comm k 1 offset]
      rfl

/-- Digits that come before no digit are told apart from what follows. -/
theorem digits_append_inj (ds ds' s s' : List Char) (hds : ∀ c ∈ ds, c.isDigit = true)
    (hds' : ∀ c ∈ ds', c.isDigit = true) (hs : NoDigitHead s) (hs' : NoDigitHead s')
    (h : ds ++ s = ds' ++ s') : ds = ds' ∧ s = s' := by
  have htake := congrArg (List.takeWhile Char.isDigit) h
  rw [takeWhile_append_of_noDigitHead ds s hds hs,
    takeWhile_append_of_noDigitHead ds' s' hds' hs'] at htake
  subst htake
  exact ⟨rfl, List.append_cancel_left h⟩

/-- The text after the digits that it begins with. -/
theorem spell_eq_lead_append (k : Nat) (l : List Atom) :
    spell k l = lead l ++ (spell k l).dropWhile Char.isDigit := by
  rw [← takeWhile_spell k l, List.takeWhile_append_dropWhile]

theorem isDigit_lead (l : List Atom) (c : Char) (h : c ∈ lead l) : c.isDigit = true := by
  rw [← takeWhile_spell 0 l] at h
  exact List.all_eq_true.mp List.all_takeWhile c h

/-- A run of digits that goes on into the text is read as one number. -/
theorem value_of_run (limit offset j j' : Nat) (ds ds' : List Char) (l : List Atom)
    (hne : ds ++ lead l ≠ []) (hds : ∀ c ∈ ds, c.isDigit = true)
    (hds' : ∀ c ∈ ds', c.isDigit = true)
    (h : renumber limit offset ('$' :: (ds ++ spell j l)) = some ('$' :: (ds' ++ spell j' l))) :
    value (ds' ++ lead l) = value (ds ++ lead l) + offset := by
  rw [spell_eq_lead_append j l, spell_eq_lead_append j' l, ← List.append_assoc,
    ← List.append_assoc] at h
  have hall : ∀ e : List Char, (∀ c ∈ e, c.isDigit = true) →
      ∀ c ∈ e ++ lead l, c.isDigit = true := by
    intro e he c hc
    rcases List.mem_append.mp hc with hc | hc
    · exact he c hc
    · exact isDigit_lead l c hc
  rw [renumber_run limit offset (ds ++ lead l) _ hne (hall ds hds) (noDigitHead_dropWhile _)] at h
  split_ifs at h
  obtain ⟨t, ht, heq⟩ := Option.map_eq_some_iff.mp h
  obtain ⟨-, hdigits⟩ := List.cons.inj heq
  obtain ⟨hrun, -⟩ := digits_append_inj _ _ _ _ (isDigit_digits _) (hall ds' hds')
    (noDigitHead_renumber limit offset _ t ht (noDigitHead_dropWhile _)) (noDigitHead_dropWhile _)
    hdigits
  rw [← hrun, value_digits]

/-- **No other text** is. -/
theorem stray_of_renumber (limit offset k : Nat) (l : List Atom) (hoffset : 0 < offset)
    (h : renumber limit offset (spell k l) = some (spell (k + offset) l)) :
    stray false l = false := by
  induction l generalizing k with
  | nil => rfl
  | cons x l ih =>
    cases x with
    | char c =>
      rw [spell, spell] at h
      have hclean : c = '$' → lead l = [] := by
        rintro rfl
        by_contra hlead
        have hvalue := value_of_run limit offset k (k + offset) [] [] l hlead (by simp) (by simp) h
        omega
      rw [renumber_cons limit offset c _ fun hc => noDigitHead_spell k l (hclean hc)] at h
      obtain ⟨t, ht, heq⟩ := Option.map_eq_some_iff.mp h
      obtain ⟨-, rfl⟩ := List.cons.inj heq
      have hrest := ih k ht
      rw [stray, Bool.false_and, Bool.false_or]
      cases hc : c == '$' with
      | false => exact hrest
      | true =>
        rw [stray_true, hrest, hclean (eq_of_beq hc)]
        rfl
    | hole =>
      rw [spell, spell] at h
      have hlead : lead l = [] := by
        by_contra hlead
        have hvalue := value_of_run limit offset (k + 1) (k + offset + 1) (digits k)
          (digits (k + offset)) l (by simp [hlead]) (isDigit_digits k) (isDigit_digits _) h
        rw [value_append, value_append, value_digits, value_digits, Nat.mul_add] at hvalue
        have hpow : 10 ≤ 10 ^ (lead l).length :=
          Nat.le_self_pow (fun hzero => hlead (List.eq_nil_of_length_eq_zero hzero)) 10
        have hmul := Nat.mul_le_mul_right offset hpow
        omega
      have hhead := noDigitHead_spell (k + 1) l hlead
      rw [renumber_run limit offset (digits k) _ (digits_ne_nil k) (isDigit_digits k) hhead,
        value_digits] at h
      split_ifs at h
      obtain ⟨t, ht, heq⟩ := Option.map_eq_some_iff.mp h
      rw [List.cons.injEq, List.append_cancel_left_eq] at heq
      obtain ⟨-, rfl⟩ := heq
      rw [stray, stray_true, hlead, ih (k + 1) (by rwa [Nat.add_right_comm] at ht)]
      rfl

/-! ## Texts that differ only in numbers -/

/-- Leave out the digits after a dollar. The flag says that one has come. -/
def skel : Bool → List Char → List Char
  | _, [] => []
  | afterDollar, c :: s =>
      if afterDollar && c.isDigit then skel true s else c :: skel (c == '$') s

theorem skel_digits (ds s : List Char) (h : ∀ c ∈ ds, c.isDigit = true) :
    skel true (ds ++ s) = skel true s := by
  induction ds with
  | nil => rfl
  | cons d ds ih =>
    obtain ⟨hd, hds⟩ := List.forall_mem_cons.mp h
    rw [List.cons_append, skel, hd, Bool.true_and, if_pos rfl, ih hds]

theorem skel_run (afterDollar : Bool) (ds s : List Char) (h : ∀ c ∈ ds, c.isDigit = true) :
    skel afterDollar ('$' :: (ds ++ s)) = '$' :: skel true s := by
  have hdollar : ('$' : Char).isDigit = false := by decide
  rw [skel, hdollar, Bool.and_false, if_neg Bool.false_ne_true, beq_self_eq_true,
    skel_digits ds s h]

theorem skel_spell (afterDollar : Bool) (j k : Nat) (l : List Atom) :
    skel afterDollar (spell j l) = skel afterDollar (spell k l) := by
  induction l generalizing afterDollar j k with
  | nil => rfl
  | cons x l ih =>
    cases x with
    | char c =>
      rw [spell, spell, skel, skel, ih true j k, ih (c == '$') j k]
    | hole =>
      rw [spell, spell, skel_run _ _ _ (isDigit_digits j), skel_run _ _ _ (isDigit_digits k),
        ih true (j + 1) (k + 1)]

theorem skel_renumber (limit offset : Nat) (s t : List Char)
    (h : renumber limit offset s = some t) (afterDollar : Bool) :
    skel afterDollar t = skel afterDollar s := by
  induction s using renumber.induct limit offset generalizing t afterDollar with
  | case1 =>
    rw [renumber] at h
    cases h
    rfl
  | case2 c =>
    rw [renumber] at h
    cases h
    rfl
  | case3 c d rest hrun n hlimit =>
    rw [renumber, if_pos hrun] at h
    dsimp only at h
    rw [if_pos hlimit] at h
    cases h
  | case4 c d rest hrun n hlimit ih =>
    obtain ⟨rfl, hd⟩ := hrun
    rw [renumber, if_pos ⟨rfl, hd⟩] at h
    dsimp only at h
    rw [if_neg hlimit] at h
    obtain ⟨t', ht, rfl⟩ := Option.map_eq_some_iff.mp h
    have hdigits : ∀ c ∈ d :: rest.takeWhile Char.isDigit, c.isDigit = true :=
      List.forall_mem_cons.mpr ⟨hd, List.all_eq_true.mp List.all_takeWhile⟩
    have hrest : d :: rest =
        (d :: rest.takeWhile Char.isDigit) ++ rest.dropWhile Char.isDigit := by
      rw [List.cons_append, List.takeWhile_append_dropWhile]
    rw [hrest, skel_run _ _ _ (isDigit_digits _), skel_run _ _ _ hdigits, ih t' ht true]
  | case5 c d rest hrun ih =>
    rw [renumber, if_neg hrun] at h
    obtain ⟨t', ht, rfl⟩ := Option.map_eq_some_iff.mp h
    rw [skel, skel, ih t' ht true, ih t' ht (c == '$')]

theorem skel_length_lt (afterDollar : Bool) (s u : List Char) (c : Char) (hc : c.isDigit = false) :
    (skel afterDollar s).length < (skel afterDollar (s ++ c :: u)).length := by
  induction s generalizing afterDollar with
  | nil =>
    show 0 < (skel afterDollar (c :: u)).length
    rw [skel, hc, Bool.and_false, if_neg Bool.false_ne_true]
    exact Nat.succ_pos _
  | cons d s ih =>
    rw [List.cons_append, skel, skel]
    split_ifs
    · exact ih true
    · exact Nat.succ_lt_succ (ih _)

/-- **Part by part.** -/
theorem append_inj_of_skel (s s' t t' : List Char) (h : s ++ t = s' ++ t')
    (hskel : skel false s = skel false s') (ht : NoDigitHead t) (ht' : NoDigitHead t') :
    s = s' ∧ t = t' := by
  have hpre : ∀ a b u v : List Char, NoDigitHead u → skel false a = skel false b →
      b = a ++ v → u = v ++ t ∨ u = v ++ t' → v = [] := by
    rintro a b u v hu hab rfl huv
    cases v with
    | nil => rfl
    | cons c v =>
      have hc : c.isDigit = false := by
        rcases huv with rfl | rfl <;> exact hu c rfl
      have hlt := skel_length_lt false a v c hc
      rw [hab] at hlt
      omega
  rcases List.append_eq_append_iff.mp h with ⟨v, rfl, rfl⟩ | ⟨v, rfl, rfl⟩
  · obtain rfl := hpre s _ _ v ht hskel rfl (.inr rfl)
    simp
  · obtain rfl := hpre s' _ _ v ht' hskel.symm rfl (.inl rfl)
    simp

end Placeholders

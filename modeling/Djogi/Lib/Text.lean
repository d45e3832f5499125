import Mathlib.Data.List.Infix
import Mathlib.Data.List.DropRight

/-!
# Searching and trimming texts

A text is a list of characters.

* `cut`: the text before the first occurrence of a pattern, and from it on;
* `cut_append`, `cut_length_le`: where a pattern that stands in the text is found;
* `trimEnd`: a text without the newlines at its end;
* `joinLines_pieces`, `joinLines_filter`: a text is its lines, joined.
-/

namespace Text

/-! ## Patterns -/

section Cut

variable {α : Type} [DecidableEq α]

/-- What stands before the first occurrence of the pattern, and what follows from there on. -/
def cut (pat : List α) : List α → Option (List α × List α)
  | [] => if pat = [] then some ([], []) else none
  | c :: cs =>
    if pat.isPrefixOf (c :: cs) then some ([], c :: cs)
    else (cut pat cs).map fun p => (c :: p.1, p.2)

def stripPrefix (pat s : List α) : Option (List α) :=
  if pat.isPrefixOf s then some (s.drop pat.length) else none

attribute [grind] cut stripPrefix

/-- `split_once` -/
def splitOnce (pat s : List α) : Option (List α × List α) :=
  (cut pat s).map fun p => (p.1, p.2.drop pat.length)

theorem stripPrefix_append (pat s : List α) : stripPrefix pat (pat ++ s) = some s := by
  simp [stripPrefix]

theorem stripPrefix_eq_none (pat s : List α) (h : ¬ pat <+: s) : stripPrefix pat s = none := by
  simp [stripPrefix, h]

theorem stripPrefix_some (pat s rest : List α) (h : stripPrefix pat s = some rest) :
    s = pat ++ rest := by
  unfold stripPrefix at h
  split_ifs at h with hfront
  obtain ⟨tail, rfl⟩ := List.isPrefixOf_iff_prefix.mp hfront
  rw [← Option.some.inj h, List.drop_left]

/-- Places where the pattern does not start are passed over. -/
theorem cut_skip (pat a s : List α)
    (ha : ∀ x y, a = x ++ y → y ≠ [] → ¬ pat <+: y ++ s) :
    cut pat (a ++ s) = (cut pat s).map fun p => (a ++ p.1, p.2) := by
  induction a with
  | nil => simp
  | cons c a ih =>
    have hc : ¬ pat <+: c :: a ++ s := ha [] (c :: a) rfl (by simp)
    have ih := ih fun x y hxy hy => ha (c :: x) y (by simp [hxy]) hy
    simp only [List.cons_append] at hc ⊢
    simp [cut, hc, ih, Option.map_map, Function.comp_def]

theorem cut_prefix (pat b : List α) (hb : pat <+: b) : cut pat b = some ([], b) := by
  cases b with
  | nil => simp [cut, List.prefix_nil.mp hb]
  | cons c cs => simp [cut, hb]

/-- A pattern that starts at no earlier place is found where it stands. -/
theorem cut_append (pat a b : List α) (hb : pat <+: b)
    (ha : ∀ x y, a = x ++ y → y ≠ [] → ¬ pat <+: y ++ b) : cut pat (a ++ b) = some (a, b) := by
  rw [cut_skip pat a b ha, cut_prefix pat b hb]
  simp

theorem cut_eq_none (pat s : List α) (hp : pat ≠ []) (h : ¬ pat <:+: s) : cut pat s = none := by
  induction s with
  | nil => simp [cut, hp]
  | cons c s ih =>
    have hc : ¬ pat <+: c :: s := fun hpre => h hpre.isInfix
    have hs : ¬ pat <:+: s := fun hin => h (hin.trans (List.suffix_cons c s).isInfix)
    simp [cut, hc, ih hs]

theorem cut_some (pat s a b : List α) (h : cut pat s = some (a, b)) :
    s = a ++ b ∧ pat <+: b := by
  induction s generalizing a with
  | nil =>
    rw [cut] at h
    split at h
    · rename_i hp
      cases h
      exact ⟨rfl, by simp [hp]⟩
    · cases h
  | cons c s ih =>
    rw [cut] at h
    split at h
    · rename_i hp
      cases h
      exact ⟨rfl, List.isPrefixOf_iff_prefix.mp hp⟩
    · cases hs : cut pat s with
      | none => simp [hs] at h
      | some p =>
        obtain ⟨a', b'⟩ := p
        simp only [hs, Option.map_some, Option.some.injEq, Prod.mk.injEq] at h
        obtain ⟨rfl, rfl⟩ := h
        obtain ⟨rfl, hb⟩ := ih a' hs
        exact ⟨rfl, hb⟩

/-- An occurrence is found, at its place or before it. -/
theorem cut_length_le (pat a b : List α) (hb : pat <+: b) :
    ∃ x y, cut pat (a ++ b) = some (x, y) ∧ x.length ≤ a.length := by
  induction a with
  | nil => exact ⟨[], b, cut_prefix pat b hb, by simp⟩
  | cons c a ih =>
    obtain ⟨x, y, hxy, hle⟩ := ih
    by_cases hc : pat.isPrefixOf (c :: (a ++ b)) = true
    · exact ⟨[], c :: (a ++ b), by simp only [List.cons_append, cut, hc, if_true], by simp⟩
    · refine ⟨c :: x, y, ?_, by simpa using hle⟩
      simp only [List.cons_append, cut, if_neg hc, hxy, Option.map_some]

theorem not_infix_of_cut (pat s : List α) (h : cut pat s = none) : ¬ pat <:+: s := by
  rintro ⟨a, b, rfl⟩
  obtain ⟨x, y, hxy, -⟩ := cut_length_le pat a (pat ++ b) (List.prefix_append pat b)
  rw [List.append_assoc, hxy] at h
  cases h

/-- Before the first occurrence there is none. -/
theorem cut_not_infix (pat s a b : List α) (hp : pat ≠ []) (h : cut pat s = some (a, b)) :
    ¬ pat <:+: a := by
  induction s generalizing a with
  | nil =>
    rw [cut, if_neg hp] at h
    cases h
  | cons c s ih =>
    rw [cut] at h
    split at h
    · cases h
      simpa using hp
    · rename_i hpre
      cases hs : cut pat s with
      | none => simp [hs] at h
      | some p =>
        obtain ⟨a', b'⟩ := p
        simp only [hs, Option.map_some, Option.some.injEq, Prod.mk.injEq] at h
        obtain ⟨rfl, rfl⟩ := h
        obtain ⟨rfl, -⟩ := cut_some pat s a' b' hs
        rw [List.infix_cons_iff]
        rintro (hin | hin)
        · apply hpre
          rw [List.isPrefixOf_iff_prefix]
          exact hin.trans ⟨b', by simp⟩
        · exact ih a' hs hin

theorem splitOnce_append (pat a b : List α)
    (ha : ∀ x y, a = x ++ y → y ≠ [] → ¬ pat <+: y ++ (pat ++ b)) :
    splitOnce pat (a ++ (pat ++ b)) = some (a, b) := by
  rw [splitOnce, cut_append pat a (pat ++ b) (List.prefix_append pat b) ha]
  simp

theorem stripPrefix_length (pat s t : List α) (h : stripPrefix pat s = some t) :
    t.length + pat.length = s.length := by
  rw [stripPrefix] at h
  split at h
  · rename_i hpre
    have hle := (List.isPrefixOf_iff_prefix.mp hpre).length_le
    obtain rfl := Option.some.inj h
    rw [List.length_drop]
    omega
  · cases h

theorem splitOnce_length (pat s a b : List α) (h : splitOnce pat s = some (a, b)) :
    a.length + pat.length + b.length = s.length := by
  obtain ⟨⟨x, y⟩, hcut, hxy⟩ := Option.map_eq_some_iff.mp h
  obtain ⟨rfl, rfl⟩ := Prod.mk.inj hxy
  obtain ⟨rfl, hpre⟩ := cut_some pat s x y hcut
  have hle := hpre.length_le
  simp only [List.length_append, List.length_drop]
  omega

/-- A text that ends at the first `c`. -/
theorem splitOnce_singleton (c : α) (a b : List α) (h : c ∉ a) :
    splitOnce [c] (a ++ c :: b) = some (a, b) := by
  refine splitOnce_append [c] a b fun x y hxy hy hpre => ?_
  cases y with
  | nil => exact hy rfl
  | cons d y =>
    obtain rfl : c = d := by simpa using hpre
    exact h (by simp [hxy])

omit [DecidableEq α] in
/-- Two texts that begin alike have the same first line. -/
theorem line_of_prefix (c : α) (b l u v : List α) (hb : c ∉ b) (hl : c ∉ l)
    (h : b ++ c :: u <+: l ++ c :: v) : b = l ∧ u <+: v := by
  induction b generalizing l with
  | nil =>
    cases l with
    | nil => exact ⟨rfl, by simpa using h⟩
    | cons d l =>
      obtain rfl : c = d := by simpa using (List.cons_prefix_cons.mp h).1
      simp at hl
  | cons d b ih =>
    cases l with
    | nil =>
      obtain rfl : d = c := by simpa using (List.cons_prefix_cons.mp h).1
      simp at hb
    | cons e l =>
      obtain ⟨rfl, htail⟩ := List.cons_prefix_cons.mp h
      obtain ⟨rfl, huv⟩ := ih l (fun hm => hb (by simp [hm])) (fun hm => hl (by simp [hm])) htail
      exact ⟨rfl, huv⟩

/-- A line before a blank one is found below lines that are not blank. -/
theorem splitOnce_lines (c : α) (b rest : List α) (ls : List (List α)) (hb : c ∉ b)
    (hb' : b ≠ []) (hls : ∀ l ∈ ls, c ∉ l ∧ l ≠ []) :
    splitOnce (b ++ [c, c]) (ls.flatMap (fun l => l ++ [c]) ++ (b ++ [c, c] ++ rest)) =
      some (ls.flatMap (fun l => l ++ [c]), rest) := by
  have hcut : cut (b ++ [c, c]) (ls.flatMap (fun l => l ++ [c]) ++ (b ++ [c, c] ++ rest)) =
      some (ls.flatMap (fun l => l ++ [c]), b ++ [c, c] ++ rest) := by
    induction ls with
    | nil => exact cut_prefix _ _ (List.prefix_append _ _)
    | cons l ls ih =>
      obtain ⟨hl, -⟩ := hls l (by simp)
      have ih := ih fun m hm => hls m (by simp [hm])
      rw [List.flatMap_cons, List.append_assoc, cut_skip, ih]
      · simp
      · intro x y hxy hy hpre
        -- `y` ends the line, so the pattern is that line with a blank one below
        obtain ⟨z, d, rfl⟩ := (List.eq_nil_or_concat y).resolve_left hy
        rw [List.concat_eq_append, ← List.append_assoc] at hxy
        obtain ⟨rfl, hd⟩ := List.append_inj' hxy rfl
        obtain rfl := List.singleton_inj.mp hd
        have hz : c ∉ z := fun hm => hl (by simp [hm])
        simp only [List.concat_eq_append, List.append_assoc, List.singleton_append] at hpre
        obtain ⟨-, hblank⟩ := line_of_prefix c b z _ _ hb hz hpre
        cases ls with
        | nil =>
          cases b with
          | nil => exact hb' rfl
          | cons e b =>
            simp only [List.flatMap_nil, List.nil_append, List.cons_append,
              List.cons_prefix_cons] at hblank
            exact hb (by simp [hblank.1])
        | cons m ls =>
          obtain ⟨hm, hm'⟩ := hls m (by simp)
          cases m with
          | nil => exact hm' rfl
          | cons e m =>
            simp only [List.flatMap_cons, List.cons_append, List.cons_prefix_cons] at hblank
            exact hm (by simp [hblank.1])
  rw [splitOnce, hcut]
  simp

end Cut

/-! ## The end of a text -/

/-- `trim_end_matches('\n')` -/
def trimEnd (s : List Char) : List Char := (s.reverse.dropWhile (· = '\n')).reverse

@[simp] theorem trimEnd_nil : trimEnd [] = [] := rfl

@[simp] theorem trimEnd_newline (s : List Char) : trimEnd (s ++ ['\n']) = trimEnd s := by
  simp [trimEnd]

theorem trimEnd_concat (s : List Char) (c : Char) (h : c ≠ '\n') :
    trimEnd (s ++ [c]) = s ++ [c] := by
  simp [trimEnd, h]

theorem trimEnd_isPrefix (s : List Char) : trimEnd s <+: s := by
  unfold trimEnd
  rw [← List.reverse_suffix, List.reverse_reverse]
  exact List.dropWhile_suffix _

theorem trimEnd_trimEnd (s : List Char) : trimEnd (trimEnd s) = trimEnd s := by
  induction s using List.reverseRecOn with
  | nil => rfl
  | append_singleton s c ih =>
    by_cases hc : c = '\n'
    · rw [hc, trimEnd_newline, ih]
    · rw [trimEnd_concat s c hc, trimEnd_concat s c hc]

/-- Only newlines are taken off. -/
theorem trimEnd_countP (s : List Char) :
    (trimEnd s).countP (· ≠ '\n') = s.countP (· ≠ '\n') := by
  induction s using List.reverseRecOn with
  | nil => rfl
  | append_singleton s c ih =>
    by_cases hc : c = '\n'
    · rw [hc, trimEnd_newline, ih]
      simp
    · rw [trimEnd_concat s c hc]

/-- Of two texts only the second is trimmed, unless nothing is left of it. -/
theorem trimEnd_append (s t : List Char) (h : trimEnd t ≠ []) :
    trimEnd (s ++ t) = s ++ trimEnd t := by
  induction t using List.reverseRecOn with
  | nil => exact absurd rfl h
  | append_singleton t c ih =>
    by_cases hc : c = '\n'
    · subst hc
      rw [trimEnd_newline] at h ⊢
      rw [← List.append_assoc, trimEnd_newline]
      exact ih h
    · rw [trimEnd_concat t c hc, ← List.append_assoc, trimEnd_concat _ c hc]

theorem trimEnd_append_eq (s t : List Char) (h : trimEnd t = []) :
    trimEnd (s ++ t) = trimEnd s := by
  induction t using List.reverseRecOn with
  | nil => simp
  | append_singleton t c ih =>
    by_cases hc : c = '\n'
    · subst hc
      rw [trimEnd_newline] at h
      rw [← List.append_assoc, trimEnd_newline]
      exact ih h
    · rw [trimEnd_concat t c hc] at h
      simp at h

theorem trimEnd_of_notMem (s : List Char) (h : '\n' ∉ s) : trimEnd s = s := by
  induction s using List.reverseRecOn with
  | nil => rfl
  | append_singleton s c _ =>
    refine trimEnd_concat s c fun hc => h (by simp [hc])

/-! ## Lines -/

/-- What stands between the newlines; one piece more than there are newlines. -/
def pieces : List Char → List (List Char)
  | [] => [[]]
  | c :: cs =>
    if c = '\n' then [] :: pieces cs
    else match pieces cs with
      | [] => [[c]]
      | p :: ps => (c :: p) :: ps

/-- A line that is ended by a newline loses a carriage return too. -/
def stripReturn (l : List Char) : List Char :=
  if l.getLast? = some '\r' then l.dropLast else l

/-- `str::lines` -/
def lines : List Char → List (List Char)
  | s => go (pieces s)
where
  go : List (List Char) → List (List Char)
    | [] => []
    | [l] => if l = [] then [] else [l]
    | l :: m :: ls => stripReturn l :: go (m :: ls)

/-- `join("\n")` -/
def joinLines : List (List Char) → List Char
  | [] => []
  | [l] => l
  | l :: m :: ls => l ++ '\n' :: joinLines (m :: ls)

attribute [grind] pieces joinLines

theorem pieces_ne_nil (s : List Char) : pieces s ≠ [] := by
  cases s with
  | nil => simp [pieces]
  | cons c s =>
    rw [pieces]
    split
    · simp
    · split <;> simp

theorem pieces_append (l s : List Char) (h : '\n' ∉ l) :
    pieces (l ++ '\n' :: s) = l :: pieces s := by
  induction l with
  | nil => simp [pieces]
  | cons c l ih =>
    have hc : c ≠ '\n' := fun hc => h (by simp [hc])
    have ih := ih fun hm => h (by simp [hm])
    simp [pieces, hc, ih]

theorem pieces_of_notMem (s : List Char) (h : '\n' ∉ s) : pieces s = [s] := by
  induction s with
  | nil => rfl
  | cons c s ih =>
    have hc : c ≠ '\n' := fun hc => h (by simp [hc])
    rw [pieces, if_neg hc, ih fun hm => h (by simp [hm])]

theorem joinLines_pieces (s : List Char) : joinLines (pieces s) = s := by
  induction s with
  | nil => rfl
  | cons c s ih =>
    rw [pieces]
    cases hp : pieces s with
    | nil => exact absurd hp (pieces_ne_nil s)
    | cons p ps =>
      rw [hp] at ih
      by_cases hc : c = '\n'
      · subst hc
        simp only [if_true]
        rw [joinLines, ih]
        rfl
      · rw [if_neg hc]
        cases ps with
        | nil => simpa [joinLines] using ih
        | cons q qs =>
          simp only [joinLines, List.cons_append] at ih ⊢
          rw [ih]

theorem lines_append (l s : List Char) (h : '\n' ∉ l) :
    lines (l ++ '\n' :: s) = stripReturn l :: lines s := by
  rw [lines, pieces_append l s h, lines]
  cases hp : pieces s with
  | nil => exact absurd hp (pieces_ne_nil s)
  | cons p ps => rfl

theorem lines_of_notMem (s : List Char) (h : '\n' ∉ s) (hs : s ≠ []) : lines s = [s] := by
  rw [lines, pieces_of_notMem s h, lines.go, if_neg hs]

theorem pieces_cons_nil (s : List Char) (ps : List (List Char)) (h : pieces s = [] :: ps)
    (hps : ps ≠ []) : ∃ t, s = '\n' :: t := by
  cases s with
  | nil =>
    simp only [pieces, List.cons.injEq, true_and] at h
    exact absurd h.symm hps
  | cons c s =>
    by_cases hc : c = '\n'
    · exact ⟨s, by rw [hc]⟩
    · rw [pieces, if_neg hc] at h
      split at h <;> simp at h

/-- Without a carriage return before a newline, the lines are the pieces. -/
theorem go_pieces (s : List Char) (hcr : ¬ ['\r', '\n'] <:+: s) (hs : s ≠ [])
    (hend : trimEnd s = s) : lines.go (pieces s) = pieces s := by
  induction s with
  | nil => exact absurd rfl hs
  | cons c s ih =>
    have hcr' : ¬ ['\r', '\n'] <:+: s := fun h => hcr (h.trans (List.suffix_cons c s).isInfix)
    cases s with
    | nil =>
      by_cases hc : c = '\n'
      · subst hc
        cases hend
      · simp [pieces, hc, lines.go]
    | cons d s =>
      have hend' : trimEnd (d :: s) = d :: s := by
        by_cases h : trimEnd (d :: s) = []
        · have hall := trimEnd_append_eq [c] (d :: s) h
          rw [List.singleton_append, hend] at hall
          have hlen := (trimEnd_isPrefix [c]).length_le
          rw [← hall] at hlen
          simp at hlen
        · have := trimEnd_append [c] (d :: s) h
          rw [List.singleton_append, hend] at this
          simpa using this.symm
      have ih := ih hcr' (by simp) hend'
      rw [pieces]
      cases hp : pieces (d :: s) with
      | nil => exact absurd hp (pieces_ne_nil _)
      | cons p ps =>
        rw [hp] at ih
        by_cases hc : c = '\n'
        · simp [hc, lines.go, stripReturn, ih]
        · simp only [if_neg hc]
          cases ps with
          | nil => simp [lines.go]
          | cons q qs =>
            have hret : stripReturn p = p ∧ lines.go (q :: qs) = q :: qs := by
              simpa [lines.go] using ih
            have hline : stripReturn (c :: p) = c :: p := by
              cases p with
              | nil =>
                obtain ⟨t, ht⟩ := pieces_cons_nil (d :: s) (q :: qs) hp (by simp)
                have hcne : c ≠ '\r' := by
                  rintro rfl
                  rw [ht] at hcr
                  exact hcr ⟨[], t, rfl⟩
                simp [stripReturn, hcne]
              | cons e p =>
                have hlast : (e :: p).getLast? ≠ some '\r' := by
                  intro hl
                  have := hret.1
                  rw [stripReturn, if_pos hl] at this
                  have := congrArg List.length this
                  simp at this
                simp only [stripReturn, List.getLast?_cons_cons, if_neg hlast]
            simp only [lines.go, hline, hret.2]

/-- The lines of a text that are kept, when all are, are the text. -/
theorem joinLines_filter (s : List Char) (keep : List Char → Bool)
    (hcr : ¬ ['\r', '\n'] <:+: s) (hend : trimEnd s = s)
    (hkeep : ∀ p ∈ pieces s, keep p = true) : joinLines ((lines s).filter keep) = s := by
  by_cases hs : s = []
  · subst hs
    rfl
  · rw [lines, go_pieces s hcr hs hend, List.filter_eq_self.mpr hkeep, joinLines_pieces]

end Text

import Djogi.Lib.PostgresJoin
import Mathlib.Data.List.DropRight

/-!
# Statements of SQL texts

The statements of a text without comments and without the blanks around them.

* `core_trivia`: blanks and comments in front of a statement do not count;
* `stmts_append`: what stands behind a text with no open statement adds its own statements;
* `stmts_last`: what stands behind a closed text adds nothing if it holds no statement.
-/

namespace Postgres

/-- The pieces of a statement without comments and without blanks at its ends. -/
def core (ps : List (List Char)) : List (List Char) :=
  ((ps.filter fun p => !isComment p).dropWhile isBlankPiece).rdropWhile isBlankPiece

/-- The statements that are not empty. -/
def cores (parts : List (List (List Char))) : List (List (List Char)) :=
  (parts.map core).filter fun ps => !ps.isEmpty

/-- The statements of a text. -/
def stmts (s : List Char) : List (List (List Char)) := cores (Scanner.statements (scanner.cut s))

theorem filter_trivia (ps : List (List Char)) (h : ∀ p ∈ ps, isSpacing p = true) :
    ∀ p ∈ ps.filter (fun p => !isComment p), isBlankPiece p = true := by
  intro p hp
  obtain ⟨hmem, hcomment⟩ := List.mem_filter.mp hp
  have htrivia := h p hmem
  unfold isSpacing at htrivia
  simpa [show isComment p = false by simpa using hcomment] using htrivia

theorem core_trivia (ps qs : List (List Char)) (h : ∀ p ∈ ps, isSpacing p = true) :
    core (ps ++ qs) = core qs := by
  unfold core
  rw [List.filter_append, List.dropWhile_append_of_pos (filter_trivia ps h)]

theorem core_trivia_right (ps qs : List (List Char)) (h : ∀ p ∈ qs, isSpacing p = true) :
    core (ps ++ qs) = core ps := by
  have hblank := filter_trivia qs h
  unfold core
  rw [List.filter_append]
  generalize ps.filter (fun p => !isComment p) = front
  generalize qs.filter (fun p => !isComment p) = back at hblank
  rw [List.dropWhile_append]
  split
  · rename_i hempty
    rw [List.isEmpty_iff.mp hempty]
    have hnil : back.dropWhile isBlankPiece = [] := List.dropWhile_eq_nil_iff.mpr hblank
    rw [hnil]
  · unfold List.rdropWhile
    rw [List.reverse_append, List.dropWhile_append_of_pos fun p hp =>
      hblank p (List.mem_reverse.mp hp)]

theorem cores_append (a b : List (List (List Char))) : cores (a ++ b) = cores a ++ cores b := by
  simp [cores]

theorem semicolon_not_trivia : isSpacing Scanner.semicolon = false := by decide

theorem semicolon_notMem (ps : List (List Char)) (h : ∀ p ∈ ps, isSpacing p = true) :
    Scanner.semicolon ∉ ps := by
  intro hmem
  have htrivia := h _ hmem
  rw [semicolon_not_trivia] at htrivia
  cases htrivia

theorem cores_single (ps : List (List Char)) (h : Scanner.semicolon ∉ ps) :
    Scanner.statements ps = [ps] :=
  List.splitOnP_eq_singleton fun p hp => by
    have hne : p ≠ Scanner.semicolon := fun heq => h (heq ▸ hp)
    simpa using hne

/-- Blanks and comments in front. -/
theorem cores_trivia (ps qs : List (List Char)) (h : ∀ p ∈ ps, isSpacing p = true) :
    cores (Scanner.statements (ps ++ qs)) = cores (Scanner.statements qs) := by
  rw [Scanner.statements_append ps qs (semicolon_notMem ps h)]
  cases Scanner.statements qs with
  | nil => rfl
  | cons part parts =>
    rw [List.modifyHead_cons, cores, cores, List.map_cons, List.map_cons, core_trivia ps part h]

theorem cores_of_trivia (ps : List (List Char)) (h : ∀ p ∈ ps, isSpacing p = true) :
    cores (Scanner.statements ps) = [] := by
  have hnil := cores_trivia ps [] h
  rw [List.append_nil] at hnil
  rw [hnil]
  rfl

theorem statements_semicolon_append (front back : List (List Char)) :
    Scanner.statements (front ++ Scanner.semicolon :: back) =
      Scanner.statements front ++ Scanner.statements back :=
  List.splitOnP_append_cons _ _ (by simp)

/-- The last semicolon of some pieces. -/
theorem split_last (ps : List (List Char)) : Scanner.semicolon ∉ ps ∨
    ∃ front back, ps = front ++ Scanner.semicolon :: back ∧ Scanner.semicolon ∉ back := by
  induction ps with
  | nil => exact .inl (by simp)
  | cons p ps ih =>
    rcases ih with hnone | ⟨front, back, rfl, hback⟩
    · by_cases hp : p = Scanner.semicolon
      · exact .inr ⟨[], ps, by rw [hp]; rfl, hnone⟩
      · refine .inl fun hmem => ?_
        rcases List.mem_cons.mp hmem with heq | hmem
        · exact hp heq.symm
        · exact hnone hmem
    · exact .inr ⟨p :: front, back, rfl, hback⟩

/-- Blanks and comments behind. -/
theorem cores_trivia_right (ps qs : List (List Char)) (h : ∀ p ∈ qs, isSpacing p = true) :
    cores (Scanner.statements (ps ++ qs)) = cores (Scanner.statements ps) := by
  have hqs := semicolon_notMem qs h
  have hopen (back : List (List Char)) (hback : Scanner.semicolon ∉ back) :
      cores (Scanner.statements (back ++ qs)) = cores (Scanner.statements back) := by
    have hboth : Scanner.semicolon ∉ back ++ qs := fun hmem =>
      (List.mem_append.mp hmem).elim hback hqs
    rw [cores_single _ hboth, cores_single _ hback, cores, cores, List.map_singleton,
      List.map_singleton, core_trivia_right back qs h]
  rcases split_last ps with hnone | ⟨front, back, rfl, hback⟩
  · exact hopen ps hnone
  · rw [List.append_assoc, List.cons_append, statements_semicolon_append,
      statements_semicolon_append, cores_append, cores_append, hopen back hback]

theorem settled_split (ps : List (List Char)) (h : settled ps = true) :
    (∀ p ∈ ps, isSpacing p = true) ∨ ∃ front back, ps = front ++ Scanner.semicolon :: back ∧
      ∀ p ∈ back, isSpacing p = true := by
  induction ps with
  | nil => exact .inl (by simp)
  | cons p ps ih =>
    rw [settled, Bool.and_eq_true, Bool.or_eq_true, Bool.or_eq_true, decide_eq_true_eq] at h
    obtain ⟨hp, hps⟩ := h
    rcases ih hps with hall | ⟨front, back, rfl, hback⟩
    · rcases hp with (htrivia | rfl) | hmem
      · exact .inl fun q hq => (List.mem_cons.mp hq).elim (fun heq => heq ▸ htrivia) (hall q)
      · exact .inr ⟨[], ps, rfl, hall⟩
      · exact absurd (List.contains_iff_mem.mp hmem) (semicolon_notMem ps hall)
    · exact .inr ⟨p :: front, back, rfl, hback⟩

/-- **Statements of two texts.** A text with no open statement keeps its own. -/
theorem stmts_append (u v : List Char) (hclose : closes (scanner.cut u) = true)
    (hsettled : settled (scanner.cut u) = true) : stmts (u ++ v) = stmts u ++ stmts v := by
  unfold stmts
  rw [cut_extend u v hclose (.inl hsettled)]
  rcases settled_split _ hsettled with hall | ⟨front, back, hcut, hback⟩
  · rw [cores_trivia _ _ hall, cores_of_trivia _ hall, List.nil_append]
  · rw [hcut, List.append_assoc, List.cons_append, statements_semicolon_append,
      statements_semicolon_append, cores_append, cores_append, cores_trivia _ _ hback,
      cores_of_trivia _ hback, List.append_nil]

theorem spacing_of_core (ps : List (List Char)) (h : core ps = []) :
    ∀ p ∈ ps, isSpacing p = true := by
  unfold core at h
  rw [List.rdropWhile_eq_nil_iff] at h
  have hdrop : (ps.filter fun p => !isComment p).dropWhile isBlankPiece = [] := by
    by_contra hne
    obtain ⟨p, rest, hcons⟩ := List.exists_cons_of_ne_nil hne
    have hhead := List.head_dropWhile_not isBlankPiece hne
    rw [h _ (List.head_mem hne)] at hhead
    cases hhead
  rw [List.dropWhile_eq_nil_iff] at hdrop
  intro p hp
  rw [isSpacing]
  cases hcomment : isComment p with
  | true => exact Bool.or_true _
  | false => rw [hdrop p (List.mem_filter.mpr ⟨hp, by rw [hcomment]; rfl⟩), Bool.true_or]

/-- Without a statement there are only blanks, comments and semicolons. -/
theorem empty_of_cores (ps : List (List Char)) (h : cores (Scanner.statements ps) = []) :
    ∀ p ∈ ps, isSpacing p = true ∨ p = Scanner.semicolon := by
  induction ps with
  | nil => simp
  | cons p ps ih =>
    by_cases hp : p = Scanner.semicolon
    · have hrest : cores (Scanner.statements ps) = [] := by
        rwa [hp, Scanner.statements_semicolon] at h
      exact List.forall_mem_cons.mpr ⟨.inr hp, ih hrest⟩
    · have happend := Scanner.statements_append [p] ps (by simpa using Ne.symm hp)
      rw [List.singleton_append] at happend
      rw [happend] at h
      cases hparts : Scanner.statements ps with
      | nil => exact absurd hparts (List.splitOnP_ne_nil _ _)
      | cons part parts =>
        rw [hparts, List.modifyHead_cons, cores, List.map_cons, List.filter_eq_nil_iff] at h
        obtain ⟨hpart, hparts'⟩ := List.forall_mem_cons.mp h
        have hcore : core (p :: part) = [] := by simpa using hpart
        have hspacing := spacing_of_core _ hcore
        refine List.forall_mem_cons.mpr ⟨.inl (hspacing p List.mem_cons_self), ih ?_⟩
        rw [hparts, cores, List.map_cons, List.filter_eq_nil_iff]
        refine List.forall_mem_cons.mpr ⟨?_, hparts'⟩
        rw [← core_trivia [p] part (by simpa using hspacing p List.mem_cons_self),
          List.singleton_append, hcore]
        decide

/-- Blanks, comments and semicolons behind. -/
theorem cores_empty_right (ps qs : List (List Char))
    (h : ∀ q ∈ qs, isSpacing q = true ∨ q = Scanner.semicolon) :
    cores (Scanner.statements (ps ++ qs)) = cores (Scanner.statements ps) := by
  induction qs generalizing ps with
  | nil => rw [List.append_nil]
  | cons q qs ih =>
    obtain ⟨hq, hqs⟩ := List.forall_mem_cons.mp h
    rw [show ps ++ q :: qs = ps ++ [q] ++ qs by simp, ih _ hqs]
    rcases hq with hq | rfl
    · exact cores_trivia_right ps [q] (by simpa using hq)
    · rw [statements_semicolon_append, cores_append]
      exact List.append_nil _

/-- A piece that starts with a quote counts. -/
theorem quote_not_empty {c : Char} {s : List Char} (h : isSpacing (scanner.piece (c :: s)) = true ∨
    scanner.piece (c :: s) = Scanner.semicolon) : c ≠ '\'' := by
  rintro rfl
  have happend := scanner.piece_append_rest '\'' s
  have hshorter := (scanner.shorter '\'' s).length_le
  cases hpiece : scanner.piece ('\'' :: s) with
  | nil =>
    rw [hpiece, List.nil_append] at happend
    rw [happend, List.length_cons] at hshorter
    omega
  | cons d t =>
    rw [hpiece] at happend h
    obtain rfl : d = '\'' := (List.cons.inj happend).1
    rcases h with hspacing | hsemicolon
    · cases t with
      | nil => cases hspacing
      | cons e t => cases hspacing
    · cases hsemicolon

/-- Nothing goes on at the head of a text without a statement. -/
theorem apart_of_stmts (v : List Char) (h : stmts v = []) : Apart v := by
  intro seen
  have hempty := empty_of_cores _ h
  clear h
  induction v using scanner.places_induction generalizing seen with
  | hnil => rfl
  | hcons c s ih =>
    rw [scanner.cut_cons] at hempty
    obtain ⟨hpiece, hrest⟩ := List.forall_mem_cons.mp hempty
    by_cases hblank : isBlank c = true
    · rw [continuation, if_pos hblank]
      rw [show scanner.rest (c :: s) = s from rest_blank c s hblank] at hrest ih
      exact ih _ hrest
    · rw [continuation, if_neg hblank]
      by_cases hcomment : c = '-' ∧ s.head? = some '-'
      · have hskip : scanner.rest (c :: s) = skipLine s.tail := if_pos hcomment
        obtain ⟨d, s, rfl⟩ := List.exists_cons_of_ne_nil (l := s) (by
          rintro rfl
          cases hcomment.2)
        obtain rfl : d = '-' := by simpa using hcomment.2
        rw [List.tail_cons] at hskip
        rw [hskip] at hrest ih
        rw [if_neg (by rw [hcomment.1]; decide), if_pos (by exact ⟨hcomment.1, rfl⟩),
          continuation_comment, show skipLine ('-' :: s) = skipLine s from
            List.dropWhile_cons_of_pos (by decide)]
        exact ih _ hrest
      · rw [if_neg (quote_not_empty hpiece), if_neg hcomment]

/-- **A text without a statement** behind a closed one adds nothing. -/
theorem stmts_last (u v : List Char) (hclose : closes (scanner.cut u) = true)
    (hv : stmts v = []) : stmts (u ++ v) = stmts u := by
  have happart := apart_of_stmts v hv
  unfold stmts at hv ⊢
  rw [cut_extend u v hclose (.inr happart), cores_empty_right _ _ (empty_of_cores _ hv)]

/-- The end of the last line makes no difference. -/
theorem stmts_newline (s : List Char) (h : closes (scanner.cut (s ++ ['\n'])) = true) :
    stmts (s ++ ['\n']) = stmts s := by
  have hflat := scanner.flatten_cut (s ++ ['\n'])
  have hlast : (scanner.cut (s ++ ['\n'])).getLast? = some ['\n'] := by
    rw [closes, Bool.or_eq_true, decide_eq_true_eq, decide_eq_true_eq] at h
    rcases h with h | h
    · exfalso
      obtain ⟨front, hfront⟩ := List.getLast?_eq_some_iff.mp h
      rw [hfront, List.flatten_append] at hflat
      have hends := (List.append_inj' hflat rfl).2
      cases hends
    · exact h
  obtain ⟨front, hfront⟩ := List.getLast?_eq_some_iff.mp hlast
  have hs : front.flatten = s := by
    rw [hfront, List.flatten_append] at hflat
    exact (List.append_inj' hflat rfl).1
  have hcut : scanner.cut s = front := by
    rw [← hs]
    refine cut_truncate front ['\n'] ?_
    rw [hs, hfront]
    rfl
  unfold stmts
  rw [hfront, hcut]
  exact cores_trivia_right front _ (by simp; decide)

/-! ## Line comments -/

/-- A comment on a line of its own. -/
theorem cut_comment (text rest : List Char) (h : ∀ c ∈ text, isNewline c = false) :
    scanner.cut ('-' :: '-' :: (text ++ '\n' :: rest)) =
      ('-' :: '-' :: text) :: ['\n'] :: scanner.cut rest := by
  have hline : scanner.rest ('-' :: '-' :: (text ++ '\n' :: rest)) = '\n' :: rest := by
    change skipLine (text ++ '\n' :: rest) = _
    unfold skipLine
    rw [List.dropWhile_append_of_pos (fun c hc => by rw [h c hc]; rfl)]
    rfl
  have hnewline : scanner.rest ('\n' :: rest) = rest := rfl
  rw [scanner.cut_cons, hline, scanner.cut_cons, hnewline,
    scanner.piece_eq _ ('-' :: '-' :: text) _ hline rfl,
    scanner.piece_eq _ ['\n'] _ hnewline rfl]

theorem stmts_comment (text rest : List Char) (h : ∀ c ∈ text, isNewline c = false) :
    stmts ('-' :: '-' :: (text ++ '\n' :: rest)) = stmts rest := by
  unfold stmts
  rw [cut_comment text rest h]
  refine cores_trivia [_, _] _ ?_
  intro p hp
  rcases List.mem_cons.mp hp with rfl | hp
  · simp [isSpacing, isComment]
  · rw [List.mem_singleton.mp hp]
    rfl

end Postgres

import Djogi.Lib.Postgres
import Mathlib.Data.List.TakeWhile

/-!
# Parts of SQL texts

What a piece of PostgreSQL leaves when the text is cut off behind it, and when something is written
behind the text.

* `rest_truncate`: a piece is the same when the text is cut off behind it;
* `rest_extend`: a piece that does not reach the end of a text stays when the text goes on;
* `cut_truncate`, `cut_extend`: the same of all pieces of a text.
-/

namespace Postgres

/-! ## Texts that are cut off -/

theorem eq_nil_of_suffix (r v t : List Char) (h : r ++ v <:+ t) (ht : t.length ≤ v.length) :
    r = [] := by
  have hle := h.length_le
  rw [List.length_append] at hle
  exact List.length_eq_zero_iff.mp (by omega)

theorem dropWhile_truncate (p : Char → Bool) (x v r : List Char)
    (h : (x ++ v).dropWhile p = r ++ v) : x.dropWhile p = r := by
  induction x with
  | nil => exact (eq_nil_of_suffix r v v (h ▸ List.dropWhile_suffix p) le_rfl).symm
  | cons c x ih =>
    rw [List.cons_append, List.dropWhile_cons] at h
    rw [List.dropWhile_cons]
    split at h
    · rename_i hc
      rw [if_pos hc]
      exact ih h
    · rename_i hc
      rw [if_neg hc]
      exact List.append_cancel_right (by rw [← h, List.cons_append])

theorem skipBlock_cons_suffix (depth : ℕ) (c : Char) (s : List Char) :
    skipBlock depth (c :: s) <:+ s := by
  cases s with
  | nil => exact List.nil_suffix
  | cons d s =>
    rw [skipBlock]
    split_ifs
    · exact (skipBlock_suffix _ s).trans (List.suffix_cons d s)
    · exact List.suffix_cons d s
    · exact (skipBlock_suffix _ s).trans (List.suffix_cons d s)
    · exact skipBlock_suffix _ _

theorem skipBlock_truncate (depth : ℕ) (x v r : List Char) (h : skipBlock depth (x ++ v) = r ++ v) :
    skipBlock depth x = r := by
  fun_induction skipBlock depth x with
  | case1 depth => exact (eq_nil_of_suffix r v v (h ▸ skipBlock_suffix depth v) le_rfl).symm
  | case2 depth c =>
    exact (eq_nil_of_suffix r v v (h ▸ skipBlock_cons_suffix depth c v) le_rfl).symm
  | case3 depth c d s hopen ih =>
    rw [List.cons_append, List.cons_append, skipBlock, if_pos hopen] at h
    exact ih h
  | case4 depth c d s hopen hclose hdepth =>
    rw [List.cons_append, List.cons_append, skipBlock, if_neg hopen, if_pos hclose,
      if_pos hdepth] at h
    exact List.append_cancel_right h
  | case5 depth c d s hopen hclose hdepth ih =>
    rw [List.cons_append, List.cons_append, skipBlock, if_neg hopen, if_pos hclose,
      if_neg hdepth] at h
    exact ih h
  | case6 depth c d s hopen hclose ih =>
    rw [List.cons_append, List.cons_append, skipBlock, if_neg hopen, if_neg hclose] at h
    exact ih h

theorem skipQuoted_cons_suffix (quote c : Char) (s : List Char) :
    skipQuoted quote (c :: s) <:+ s := by
  cases s with
  | nil => exact List.nil_suffix
  | cons d s =>
    rw [skipQuoted]
    split_ifs
    · exact (skipQuoted_suffix quote s).trans (List.suffix_cons d s)
    · exact List.suffix_rfl
    · exact skipQuoted_suffix quote _

theorem skipQuoted_truncate (quote : Char) (x v r : List Char)
    (h : skipQuoted quote (x ++ v) = r ++ v) : skipQuoted quote x = r := by
  fun_induction skipQuoted quote x with
  | case1 => exact (eq_nil_of_suffix r v v (h ▸ skipQuoted_suffix quote v) le_rfl).symm
  | case2 c => exact (eq_nil_of_suffix r v v (h ▸ skipQuoted_cons_suffix quote c v) le_rfl).symm
  | case3 s ih =>
    rw [List.cons_append, List.cons_append, skipQuoted, if_pos rfl, if_pos rfl] at h
    exact ih h
  | case4 d s hd =>
    rw [List.cons_append, List.cons_append, skipQuoted, if_pos rfl, if_neg hd] at h
    exact List.append_cancel_right (by rw [← h, List.cons_append])
  | case5 c d s hc ih =>
    rw [List.cons_append, List.cons_append, skipQuoted, if_neg hc] at h
    exact ih h

theorem skipEscape_cons_suffix (c : Char) (s : List Char) : skipEscape (c :: s) <:+ s := by
  cases s with
  | nil => exact List.nil_suffix
  | cons d s =>
    rw [skipEscape]
    split_ifs
    · exact (skipEscape_suffix s).trans (List.suffix_cons d s)
    · exact (skipEscape_suffix s).trans (List.suffix_cons d s)
    · exact List.suffix_rfl
    · exact skipEscape_suffix _

theorem skipEscape_truncate (x v r : List Char) (h : skipEscape (x ++ v) = r ++ v) :
    skipEscape x = r := by
  fun_induction skipEscape x with
  | case1 => exact (eq_nil_of_suffix r v v (h ▸ skipEscape_suffix v) le_rfl).symm
  | case2 c => exact (eq_nil_of_suffix r v v (h ▸ skipEscape_cons_suffix c v) le_rfl).symm
  | case3 d s ih =>
    rw [List.cons_append, List.cons_append, skipEscape, if_pos rfl] at h
    exact ih h
  | case4 s hc ih =>
    rw [List.cons_append, List.cons_append, skipEscape, if_neg hc, if_pos rfl, if_pos rfl] at h
    exact ih h
  | case5 d s hc hd =>
    rw [List.cons_append, List.cons_append, skipEscape, if_neg hc, if_pos rfl, if_neg hd] at h
    exact List.append_cancel_right (by rw [← h, List.cons_append])
  | case6 c d s hc hq ih =>
    rw [List.cons_append, List.cons_append, skipEscape, if_neg hc, if_neg hq] at h
    exact ih h

/-- What follows decides on nothing that came before it. -/
theorem continuation_extend (seen inComment : Bool) (x v t : List Char)
    (h : continuation seen inComment x = some t) :
    continuation seen inComment (x ++ v) = some (t ++ v) := by
  induction x generalizing seen inComment with
  | nil => cases inComment <;> cases h
  | cons c x ih =>
    rw [List.cons_append]
    cases inComment with
    | true =>
      rw [continuation] at h ⊢
      split at h
      · rename_i hc
        rw [if_pos hc]
        exact ih _ _ h
      · rename_i hc
        rw [if_neg hc]
        exact ih _ _ h
    | false =>
      rw [continuation] at h ⊢
      split at h
      · rename_i hc
        rw [if_pos hc]
        exact ih _ _ h
      · rename_i hc
        rw [if_neg hc]
        split at h
        · rename_i hq
          rw [if_pos hq]
          split at h
          · rename_i hseen
            cases h
            rw [if_pos hseen]
          · cases h
        · rename_i hq
          rw [if_neg hq]
          split at h
          · rename_i hcomment
            have hhead : c = '-' ∧ (x ++ v).head? = some '-' := by
              refine ⟨hcomment.1, ?_⟩
              rw [List.head?_append, hcomment.2]
              rfl
            rw [if_pos hhead]
            exact ih _ _ h
          · cases h

theorem continuation_cons_suffix (seen inComment : Bool) (c : Char) (s t : List Char)
    (h : continuation seen inComment (c :: s) = some t) : t <:+ s := by
  cases inComment with
  | true =>
    rw [continuation] at h
    split at h
    · exact continuation_suffix _ _ _ _ h
    · exact continuation_suffix _ _ _ _ h
  | false =>
    rw [continuation] at h
    split_ifs at h
    · exact continuation_suffix _ _ _ _ h
    · cases h
      exact List.suffix_rfl
    · exact continuation_suffix _ _ _ _ h

theorem continuation_truncate (seen inComment : Bool) (x v t : List Char)
    (h : continuation seen inComment (x ++ v) = some (t ++ v)) :
    continuation seen inComment x = some t := by
  have hnone (seen inComment : Bool) : continuation seen inComment v ≠ some (t ++ v) := by
    intro h
    cases v with
    | nil => cases inComment <;> cases h
    | cons c v =>
      have hle := (continuation_cons_suffix _ _ _ _ _ h).length_le
      simp only [List.length_append, List.length_cons] at hle
      omega
  induction x generalizing seen inComment with
  | nil => exact absurd h (hnone _ _)
  | cons c x ih =>
    rw [List.cons_append] at h
    cases inComment with
    | true =>
      rw [continuation] at h ⊢
      split at h
      · rename_i hc
        rw [if_pos hc]
        exact ih _ _ h
      · rename_i hc
        rw [if_neg hc]
        exact ih _ _ h
    | false =>
      rw [continuation] at h ⊢
      split at h
      · rename_i hc
        rw [if_pos hc]
        exact ih _ _ h
      · rename_i hc
        rw [if_neg hc]
        split at h
        · rename_i hq
          rw [if_pos hq]
          split at h
          · rename_i hseen
            rw [if_pos hseen, List.append_cancel_right (Option.some.inj h)]
          · cases h
        · rename_i hq
          rw [if_neg hq]
          split at h
          · rename_i hcomment
            cases x with
            | nil => exact absurd h (hnone _ _)
            | cons d x =>
              have hhead : c = '-' ∧ (d :: x).head? = some '-' := hcomment
              rw [if_pos hhead]
              exact ih _ _ h
          · cases h

theorem split_of_suffix (t x v : List Char) (h : t <:+ x ++ v) (hle : v.length ≤ t.length) :
    ∃ t', t = t' ++ v := by
  obtain ⟨t', ht⟩ := List.suffix_of_suffix_length_le (List.suffix_append x v) h hle
  exact ⟨t', ht.symm⟩

theorem skipEscapes_truncate (n m : ℕ) (x v r : List Char) (hn : (x ++ v).length ≤ n)
    (hm : x.length ≤ m) (h : skipEscapes n (x ++ v) = r ++ v) : skipEscapes m x = r := by
  induction n generalizing m x with
  | zero =>
    obtain ⟨rfl, rfl⟩ := List.append_eq_nil_iff.mp
      (List.length_eq_zero_iff.mp (Nat.le_zero.mp hn))
    have hr : r = [] := by simpa [skipEscapes] using h.symm
    rw [hr]
    cases m <;> rfl
  | succ n ih =>
    have hlength : v.length ≤ (r ++ v).length := by simp
    cases hcont : continuation false false (skipEscape (x ++ v)) with
    | none =>
      rw [skipEscapes, hcont] at h
      dsimp only at h
      have hx := skipEscape_truncate x v r h
      have hnone : continuation false false r = none := by
        by_contra hsome
        obtain ⟨t, ht⟩ := Option.ne_none_iff_exists'.mp hsome
        rw [h, continuation_extend _ _ _ v t ht] at hcont
        cases hcont
      cases m with
      | zero =>
        obtain rfl : x = [] := List.length_eq_zero_iff.mp (by omega)
        exact hx
      | succ m => rw [skipEscapes, hx, hnone]
    | some t =>
      rw [skipEscapes, hcont] at h
      dsimp only at h
      have hrt : r ++ v <:+ t := h ▸ skipEscapes_suffix n t
      have hty := continuation_suffix _ _ _ _ hcont
      have hyx := skipEscape_suffix (x ++ v)
      obtain ⟨y, hy⟩ := split_of_suffix (skipEscape (x ++ v)) x v hyx
        (hlength.trans ((hrt.trans hty).length_le))
      obtain ⟨t', rfl⟩ := split_of_suffix t x v (hty.trans hyx) (hlength.trans hrt.length_le)
      have hx := skipEscape_truncate x v y hy
      have ht : continuation false false y = some t' := by
        refine continuation_truncate _ _ y v t' ?_
        rw [← hy, hcont]
      have hyle : y.length ≤ x.length := by
        rw [← hx]
        exact (skipEscape_suffix x).length_le
      have htle : t'.length < y.length := by
        cases y with
        | nil => cases ht
        | cons c y => exact Nat.lt_succ_of_le (continuation_cons_suffix _ _ _ _ _ ht).length_le
      rw [List.length_append] at hn
      cases m with
      | zero => omega
      | succ m =>
        rw [skipEscapes, hx, ht]
        refine ih m t' ?_ (by omega) h
        rw [List.length_append]
        omega

theorem isPrefixOf_append (word x v : List Char) (h : word.isPrefixOf x = true) :
    word.isPrefixOf (x ++ v) = true := by
  rw [List.isPrefixOf_iff_prefix] at h ⊢
  exact h.trans (List.prefix_append x v)

theorem skipTo_truncate (word x v r : List Char) (hword : word ≠ [])
    (h : skipTo word (x ++ v) = r ++ v) : skipTo word x = r := by
  have hpos := List.length_pos_iff.mpr hword
  induction x with
  | nil => exact (eq_nil_of_suffix r v v (h ▸ skipTo_suffix word v) le_rfl).symm
  | cons c x ih =>
    rw [List.cons_append, skipTo] at h
    rw [skipTo]
    split at h
    · rename_i hfront
      have hlength := congrArg List.length h
      rw [List.length_drop, List.length_append, List.length_append] at hlength
      have hle : word.length ≤ (c :: x).length := by
        rw [List.length_cons]
        have hword' := (List.isPrefixOf_iff_prefix.mp hfront).length_le
        rw [List.length_cons, List.length_append] at hword'
        omega
      have hfront' : word.isPrefixOf (c :: x) = true := by
        rw [List.isPrefixOf_iff_prefix] at hfront ⊢
        rw [← List.cons_append] at hfront
        exact List.prefix_of_prefix_length_le hfront (List.prefix_append _ v) hle
      rw [if_pos hfront']
      rw [List.length_cons] at hle
      rw [List.drop_append_of_le_length (by omega)] at h
      exact List.append_cancel_right h
    · rename_i hfront
      have hfront' : ¬word.isPrefixOf (c :: x) = true := fun hx =>
        hfront (isPrefixOf_append word (c :: x) v hx)
      rw [if_neg hfront']
      exact ih h

/-- A tag and its dollar stand at the head of the text. -/
theorem tagOf_eq_some_iff (s tag body : List Char) : tagOf s = some (tag, body) ↔
    s = tag ++ '$' :: body ∧ isTag tag = true := by
  unfold tagOf
  dsimp only
  constructor
  · intro h
    split at h
    · cases h
    · rename_i c body' hdrop
      split at h
      · rename_i hc
        cases h
        refine ⟨?_, hc.2⟩
        have hsplit := List.takeWhile_append_dropWhile (p := isTagPart) (l := s)
        rw [hdrop, hc.1] at hsplit
        exact hsplit.symm
      · cases h
  · rintro ⟨rfl, htag⟩
    have hall : ∀ c ∈ tag, isTagPart c = true := by
      have h := htag
      unfold isTag at h
      exact List.all_eq_true.mp (Bool.and_eq_true_iff.mp h).1
    have hdollar : isTagPart '$' = false := by decide
    have htake : (tag ++ '$' :: body).takeWhile isTagPart = tag := by
      rw [List.takeWhile_append_of_pos hall, List.takeWhile_cons_of_neg (by simp [hdollar]),
        List.append_nil]
    have hdrop : (tag ++ '$' :: body).dropWhile isTagPart = '$' :: body := by
      rw [List.dropWhile_append_of_pos hall, List.dropWhile_cons_of_neg (by simp [hdollar])]
    rw [htake, hdrop]
    dsimp only
    rw [if_pos ⟨rfl, htag⟩]

theorem tagOf_extend (s v tag body : List Char) (h : tagOf s = some (tag, body)) :
    tagOf (s ++ v) = some (tag, body ++ v) := by
  obtain ⟨rfl, htag⟩ := (tagOf_eq_some_iff _ _ _).mp h
  exact (tagOf_eq_some_iff _ _ _).mpr ⟨by simp, htag⟩

/-- **Truncation.** A piece is the same when the text is cut off behind it. -/
theorem rest_truncate (c : Char) (s v r : List Char) (h : rest (c :: (s ++ v)) = r ++ v) :
    rest (c :: s) = r := by
  cases s with
  | nil =>
    have hr := eq_nil_of_suffix r v v (h ▸ rest_suffix c v) le_rfl
    rw [hr]
    exact List.suffix_nil.mp (rest_suffix c [])
  | cons d s =>
    rw [rest, List.cons_append, List.head?_cons, List.tail_cons] at h
    rw [rest, List.head?_cons, List.tail_cons]
    split_ifs at h ⊢ with hline hblock hquote hescape hdollar hword hdigit
    · exact dropWhile_truncate _ s v r h
    · exact skipBlock_truncate 1 s v r h
    · exact skipQuoted_truncate c (d :: s) v r h
    · refine skipEscapes_truncate _ _ s v r ?_ ?_ h
      · simp
      · simp
    · cases htag : tagOf (d :: s ++ v) with
      | none =>
        rw [← List.cons_append, htag] at h
        have hnone : tagOf (d :: s) = none := by
          by_contra hsome
          obtain ⟨⟨tag, body⟩, htag'⟩ := Option.ne_none_iff_exists'.mp hsome
          rw [tagOf_extend _ v _ _ htag'] at htag
          cases htag
        rw [hnone]
        exact dropWhile_truncate _ (d :: s) v r h
      | some p =>
        obtain ⟨tag, body⟩ := p
        rw [← List.cons_append, htag] at h
        dsimp only at h
        have hbody := tagOf_suffix _ _ _ htag
        have hle : v.length ≤ body.length := by
          have hlength := (skipTo_suffix (delimiter tag) body).length_le
          rw [h, List.length_append] at hlength
          omega
        obtain ⟨body', rfl⟩ := split_of_suffix body (d :: s) v hbody hle
        have htag' : tagOf (d :: s) = some (tag, body') := by
          obtain ⟨heq, hisTag⟩ := (tagOf_eq_some_iff _ _ _).mp htag
          refine (tagOf_eq_some_iff _ _ _).mpr ⟨?_, hisTag⟩
          refine List.append_cancel_right (heq.trans ?_)
          simp
        rw [htag']
        exact skipTo_truncate _ body' v r (by simp [delimiter]) h
    · exact dropWhile_truncate _ (d :: s) v r h
    · exact dropWhile_truncate _ (d :: s) v r h
    · exact List.append_cancel_right (by rw [← h, List.cons_append])

/-! ## Texts that go on -/

theorem dropWhile_extend (p : Char → Bool) (x v : List Char) (h : x.dropWhile p ≠ []) :
    (x ++ v).dropWhile p = x.dropWhile p ++ v := by
  rw [List.dropWhile_append, if_neg (by simpa using h)]

theorem skipBlock_extend (depth : ℕ) (x v : List Char) (h : skipBlock depth x ≠ []) :
    skipBlock depth (x ++ v) = skipBlock depth x ++ v := by
  fun_induction skipBlock depth x with
  | case1 => exact absurd rfl h
  | case2 => exact absurd rfl h
  | case3 depth c d s hopen ih =>
    rw [List.cons_append, List.cons_append, skipBlock, if_pos hopen]
    exact ih h
  | case4 depth c d s hopen hclose hdepth =>
    rw [List.cons_append, List.cons_append, skipBlock, if_neg hopen, if_pos hclose, if_pos hdepth]
  | case5 depth c d s hopen hclose hdepth ih =>
    rw [List.cons_append, List.cons_append, skipBlock, if_neg hopen, if_pos hclose, if_neg hdepth]
    exact ih h
  | case6 depth c d s hopen hclose ih =>
    rw [List.cons_append, List.cons_append, skipBlock, if_neg hopen, if_neg hclose]
    exact ih h

theorem skipQuoted_extend (quote : Char) (x v : List Char) (h : skipQuoted quote x ≠ []) :
    skipQuoted quote (x ++ v) = skipQuoted quote x ++ v := by
  fun_induction skipQuoted quote x with
  | case1 => exact absurd rfl h
  | case2 => exact absurd rfl h
  | case3 s ih =>
    rw [List.cons_append, List.cons_append, skipQuoted, if_pos rfl, if_pos rfl]
    exact ih h
  | case4 d s hd =>
    rw [List.cons_append, List.cons_append, skipQuoted, if_pos rfl, if_neg hd]
  | case5 c d s hc ih =>
    rw [List.cons_append, List.cons_append, skipQuoted, if_neg hc]
    exact ih h

theorem skipEscape_extend (x v : List Char) (h : skipEscape x ≠ []) :
    skipEscape (x ++ v) = skipEscape x ++ v := by
  fun_induction skipEscape x with
  | case1 => exact absurd rfl h
  | case2 => exact absurd rfl h
  | case3 d s ih =>
    rw [List.cons_append, List.cons_append, skipEscape, if_pos rfl]
    exact ih h
  | case4 s hc ih =>
    rw [List.cons_append, List.cons_append, skipEscape, if_neg hc, if_pos rfl, if_pos rfl]
    exact ih h
  | case5 d s hc hd =>
    rw [List.cons_append, List.cons_append, skipEscape, if_neg hc, if_pos rfl, if_neg hd]
  | case6 c d s hc hq ih =>
    rw [List.cons_append, List.cons_append, skipEscape, if_neg hc, if_neg hq]
    exact ih h

theorem skipEscapes_extend (n m : ℕ) (x v r : List Char) (hn : x.length ≤ n)
    (hm : (x ++ v).length ≤ m) (h : skipEscapes n x = r) (hr : r ≠ [])
    (hdecided : continuation false false (r ++ v) = none) : skipEscapes m (x ++ v) = r ++ v := by
  induction n generalizing m x with
  | zero =>
    obtain rfl : x = [] := List.length_eq_zero_iff.mp (by omega)
    exact absurd h.symm hr
  | succ n ih =>
    have hne : skipEscape x ≠ [] := by
      intro hnil
      rw [skipEscapes, hnil] at h
      exact hr h.symm
    have hx : x ≠ [] := by
      rintro rfl
      exact hne rfl
    have hpos := List.length_pos_iff.mpr hx
    obtain ⟨m, rfl⟩ : ∃ k, m = k + 1 := by
      rw [List.length_append] at hm
      exact ⟨m - 1, by omega⟩
    rw [skipEscapes] at h
    rw [skipEscapes, skipEscape_extend x v hne]
    cases hcont : continuation false false (skipEscape x) with
    | none =>
      rw [hcont] at h
      dsimp only at h
      rw [h, hdecided]
    | some t =>
      rw [hcont] at h
      dsimp only at h
      have hle : t.length < x.length := by
        have hskip := (skipEscape_suffix x).length_le
        cases hy : skipEscape x with
        | nil => exact absurd hy hne
        | cons c y =>
          rw [hy] at hcont hskip
          have hlt := (continuation_cons_suffix _ _ _ _ _ hcont).length_le
          rw [List.length_cons] at hskip
          omega
      rw [continuation_extend _ _ _ v t hcont]
      dsimp only
      rw [List.length_append] at hm
      refine ih m t (by omega) ?_ h
      rw [List.length_append]
      omega

theorem skipTo_length (word x : List Char) (h : skipTo word x ≠ []) : word.length ≤ x.length := by
  induction x with
  | nil => exact absurd rfl h
  | cons c x ih =>
    rw [skipTo] at h
    rw [List.length_cons]
    split at h
    · by_contra hge
      exact h (List.drop_eq_nil_of_le (by omega))
    · have hle := ih h
      omega

theorem skipTo_extend (word x v : List Char) (h : skipTo word x ≠ []) :
    skipTo word (x ++ v) = skipTo word x ++ v := by
  induction x with
  | nil => exact absurd rfl h
  | cons c x ih =>
    rw [skipTo] at h
    rw [List.cons_append, skipTo, skipTo]
    split at h
    · rename_i hfront
      rw [if_pos hfront, ← List.cons_append, if_pos (isPrefixOf_append word (c :: x) v hfront),
        List.drop_append_of_le_length]
      have hle : word.length - 1 < x.length := by
        by_contra hge
        exact h (List.drop_eq_nil_of_le (by omega))
      omega
    · rename_i hfront
      have hfront' : ¬word.isPrefixOf (c :: (x ++ v)) = true := by
        intro hlong
        have hle := skipTo_length word x h
        rw [List.isPrefixOf_iff_prefix, ← List.cons_append] at hlong
        refine hfront (List.isPrefixOf_iff_prefix.mpr ?_)
        refine List.prefix_of_prefix_length_le hlong (List.prefix_append _ v) ?_
        rw [List.length_cons]
        omega
      rw [if_neg hfront, if_neg hfront']
      exact ih h

/-- **Extension.** A piece that does not reach the end of the text stays when the text goes on, if
no name can go on and no constant in the next line is added to this one. -/
theorem rest_extend (c : Char) (s v : List Char) (hr : rest (c :: s) ≠ [])
    (htag : ∃ d ∈ s, isTagPart d = false)
    (hdecided : (c = 'e' ∨ c = 'E') ∧ s.head? = some '\'' →
      continuation false false (rest (c :: s) ++ v) = none) :
    rest (c :: (s ++ v)) = rest (c :: s) ++ v := by
  have hs : s ≠ [] := by
    rintro rfl
    exact hr (List.suffix_nil.mp (rest_suffix c []))
  obtain ⟨d, s, rfl⟩ := List.exists_cons_of_ne_nil hs
  rw [List.head?_cons, rest, List.head?_cons, List.tail_cons] at hdecided
  rw [rest, List.head?_cons, List.tail_cons] at hr
  rw [List.cons_append, rest, rest, List.head?_cons, List.tail_cons, List.head?_cons,
    List.tail_cons]
  split_ifs at hr hdecided ⊢ with hline hblock hquote hescape hdollar hword hdigit
  · exact dropWhile_extend _ s v hr
  · exact skipBlock_extend 1 s v hr
  · exact skipQuoted_extend c (d :: s) v hr
  · refine skipEscapes_extend _ _ s v _ ?_ ?_ rfl hr ?_
    · simp
    · simp
    · exact hdecided hescape
  · cases htagOf : tagOf (d :: s) with
    | some p =>
      obtain ⟨tag, body⟩ := p
      rw [htagOf] at hr
      have hlong := tagOf_extend _ v _ _ htagOf
      rw [List.cons_append] at hlong
      rw [hlong]
      exact skipTo_extend _ body v hr
    | none =>
      rw [htagOf] at hr
      have hstop : (d :: s).dropWhile isTagPart ≠ [] := by
        obtain ⟨e, he, hpart⟩ := htag
        intro hnil
        rw [List.dropWhile_eq_nil_iff.mp hnil e he] at hpart
        cases hpart
      have hlong : tagOf (d :: (s ++ v)) = none := by
        have htake : (d :: (s ++ v)).takeWhile isTagPart = (d :: s).takeWhile isTagPart := by
          rw [← List.cons_append, List.takeWhile_append, if_neg]
          intro hlength
          have hsplit := congrArg List.length
            (List.takeWhile_append_dropWhile (p := isTagPart) (l := d :: s))
          rw [List.length_append] at hsplit
          exact hstop (List.length_eq_zero_iff.mp (by omega))
        have hdrop := dropWhile_extend isTagPart (d :: s) v hstop
        rw [List.cons_append] at hdrop
        unfold tagOf at htagOf ⊢
        dsimp only at htagOf ⊢
        rw [htake, hdrop]
        cases hrest : (d :: s).dropWhile isTagPart with
        | nil => exact absurd hrest hstop
        | cons e body =>
          rw [hrest] at htagOf
          dsimp only [List.cons_append] at htagOf ⊢
          split at htagOf
          · cases htagOf
          · rename_i he
            rw [if_neg he]
      rw [hlong]
      have hdigits := dropWhile_extend Char.isDigit (d :: s) v hr
      rwa [List.cons_append] at hdigits
  · have hparts := dropWhile_extend isWordPart (d :: s) v hr
    rwa [List.cons_append] at hparts
  · have hparts := dropWhile_extend isTagPart (d :: s) v hr
    rwa [List.cons_append] at hparts
  · rfl

/-! ## Trivia -/

def isBlankPiece : List Char → Bool
  | [c] => isBlank c
  | _ => false

def isComment (p : List Char) : Bool := ['-', '-'].isPrefixOf p || ['/', '*'].isPrefixOf p

/-- Blanks and comments. -/
def isSpacing (p : List Char) : Bool := isBlankPiece p || isComment p

theorem rest_blank (c : Char) (s : List Char) (h : isBlank c = true) : rest (c :: s) = s := by
  have hmem : c ∈ [' ', '\t', '\n', '\r', '\x0b', '\x0c'] := by simpa [isBlank] using h
  simp only [List.mem_cons, List.not_mem_nil, or_false] at hmem
  rcases hmem with rfl | rfl | rfl | rfl | rfl | rfl <;> rfl

theorem skipEscapes_decided (n : ℕ) (x : List Char) (hn : x.length ≤ n) :
    continuation false false (skipEscapes n x) = none := by
  induction n generalizing x with
  | zero =>
    obtain rfl : x = [] := List.length_eq_zero_iff.mp (by omega)
    rfl
  | succ n ih =>
    rw [skipEscapes]
    cases hcont : continuation false false (skipEscape x) with
    | none => exact hcont
    | some t =>
      refine ih t ?_
      have hskip := (skipEscape_suffix x).length_le
      cases hy : skipEscape x with
      | nil =>
        rw [hy] at hcont
        cases hcont
      | cons c y =>
        rw [hy] at hcont hskip
        have hlt := (continuation_cons_suffix _ _ _ _ _ hcont).length_le
        rw [List.length_cons] at hskip
        omega

theorem continuation_comment (seen : Bool) (s : List Char) :
    continuation seen true s = continuation seen false (skipLine s) := by
  induction s generalizing seen with
  | nil => rfl
  | cons c s ih =>
    rw [continuation, skipLine]
    by_cases hc : isNewline c = true
    · have hblank : isBlank c = true := by
        rcases Bool.or_eq_true_iff.mp hc with h | h
        · rw [beq_iff_eq.mp h]
          rfl
        · rw [beq_iff_eq.mp h]
          rfl
      rw [if_pos hc, List.dropWhile_cons_of_neg (by simp [hc]), continuation, if_pos hblank, hc,
        Bool.or_true]
    · rw [if_neg hc, List.dropWhile_cons_of_pos (by simpa using hc)]
      exact ih seen

/-- Before a semicolon it is settled whether a constant goes on. -/
theorem continuation_append (seen : Bool) (r v : List Char)
    (h : Scanner.semicolon ∈ scanner.cut r) :
    continuation seen false (r ++ v) = (continuation seen false r).map (· ++ v) := by
  induction r using scanner.places_induction generalizing seen with
  | hnil => simp at h
  | hcons c s ih =>
    rw [scanner.cut_cons] at h
    have hpiece := scanner.piece_append_rest c s
    by_cases hblank : isBlank c = true
    · have hrest : scanner.rest (c :: s) = s := rest_blank c s hblank
      rw [hrest] at h ih hpiece
      have hmem : Scanner.semicolon ∈ scanner.cut s := by
        rcases List.mem_cons.mp h with hp | hmem
        · rw [← hp] at hpiece
          obtain rfl : ';' = c := (List.cons.inj hpiece).1
          cases hblank
        · exact hmem
      rw [List.cons_append, continuation, continuation, if_pos hblank, if_pos hblank]
      exact ih _ hmem
    · rw [List.cons_append, continuation, continuation, if_neg hblank, if_neg hblank]
      by_cases hq : c = '\''
      · rw [if_pos hq, if_pos hq]
        cases seen <;> rfl
      · rw [if_neg hq, if_neg hq]
        by_cases hcomment : c = '-' ∧ s.head? = some '-'
        · have hlong : c = '-' ∧ (s ++ v).head? = some '-' := by
            refine ⟨hcomment.1, ?_⟩
            rw [List.head?_append, hcomment.2]
            rfl
          have hrest : scanner.rest (c :: s) = skipLine s.tail := if_pos hcomment
          rw [if_pos hcomment, if_pos hlong, continuation_comment, continuation_comment]
          obtain ⟨d, s, rfl⟩ := List.exists_cons_of_ne_nil (l := s) (by
            rintro rfl
            cases hcomment.2)
          obtain rfl : d = '-' := by simpa using hcomment.2
          have hline : skipLine ('-' :: s) = skipLine s :=
            List.dropWhile_cons_of_pos (by decide)
          rw [List.tail_cons] at hrest
          rw [hrest] at h ih hpiece
          have hmem : Scanner.semicolon ∈ scanner.cut (skipLine s) := by
            rcases List.mem_cons.mp h with hp | hmem
            · rw [← hp, hcomment.1] at hpiece
              cases hpiece
            · exact hmem
          have hne : skipLine s ≠ [] := by
            intro hnil
            rw [hnil] at hmem
            simp at hmem
          rw [hline, List.cons_append]
          rw [show skipLine ('-' :: (s ++ v)) = skipLine (s ++ v) from
            List.dropWhile_cons_of_pos (by decide), skipLine, dropWhile_extend _ s v hne]
          exact ih seen hmem
        · rw [if_neg hcomment]
          have hlong : ¬(c = '-' ∧ (s ++ v).head? = some '-') := by
            rintro ⟨hc, hhead⟩
            cases s with
            | nil =>
              have hrest : scanner.rest [c] = [] := List.suffix_nil.mp (scanner.shorter c [])
              rw [hrest] at h hpiece
              rcases List.mem_cons.mp h with hp | hmem
              · rw [← hp, hc] at hpiece
                cases hpiece
              · simp at hmem
            | cons d s => exact hcomment ⟨hc, hhead⟩
          rw [if_neg hlong]
          rfl

/-! ## Parts of a text -/

/-- **The pieces of a part** that ends with a piece. -/
theorem cut_truncate (ps : List (List Char)) (v : List Char)
    (h : scanner.cut (ps.flatten ++ v) = ps ++ scanner.cut v) : scanner.cut ps.flatten = ps := by
  induction ps with
  | nil => rfl
  | cons p ps ih =>
    cases hx : (p :: ps).flatten ++ v with
    | nil =>
      rw [hx] at h
      cases h
    | cons c t =>
      rw [hx, scanner.cut_cons, List.cons_append] at h
      obtain ⟨hp, hps⟩ := List.cons.inj h
      have hrest : scanner.rest (c :: t) = ps.flatten ++ v := by
        have hflat := congrArg List.flatten hps
        rwa [scanner.flatten_cut, List.flatten_append, scanner.flatten_cut] at hflat
      have hpiece := scanner.piece_append_rest c t
      rw [hp] at hpiece
      have hne : p ≠ [] := by
        rintro rfl
        rw [List.nil_append] at hpiece
        have hlt := scanner.length_rest_lt c t
        rw [hpiece] at hlt
        exact lt_irrefl _ hlt
      obtain ⟨d, p, rfl⟩ := List.exists_cons_of_ne_nil hne
      obtain rfl : d = c := (List.cons.inj hpiece).1
      have ht : t = (p ++ ps.flatten) ++ v := by
        rw [hrest] at hpiece
        rw [List.append_assoc]
        exact (List.cons.inj hpiece).2.symm
      rw [ht] at hrest
      have hshort : scanner.rest (d :: (p ++ ps.flatten)) = ps.flatten :=
        rest_truncate d _ v _ hrest
      rw [List.flatten_cons, List.cons_append, scanner.cut_cons, hshort, ih]
      · rw [scanner.piece_eq _ (d :: p) ps.flatten hshort rfl]
      · rw [← hps, ht, hrest]

theorem cut_drop (s : List Char) (front back : List (List Char))
    (h : scanner.cut s = front ++ back) : scanner.cut back.flatten = back := by
  induction front generalizing s with
  | nil =>
    rw [List.nil_append] at h
    rw [← h, scanner.flatten_cut]
  | cons p front ih =>
    cases s with
    | nil => cases h
    | cons c s =>
      rw [scanner.cut_cons] at h
      exact ih _ (List.cons.inj h).2

/-! ## Texts one behind the other -/

/-- The last piece is a semicolon or the end of a line. -/
def closes (ps : List (List Char)) : Bool :=
  ps.getLast? = some Scanner.semicolon || ps.getLast? = some ['\n']

/-- Behind the last semicolon there are only blanks and comments. -/
def settled : List (List Char) → Bool
  | [] => true
  | p :: ps => (isSpacing p || p = Scanner.semicolon || ps.contains Scanner.semicolon) && settled ps

/-- No constant goes on at the head of the text. -/
def Apart (v : List Char) : Prop := ∀ seen, continuation seen false v = none

theorem closes_tail (p : List Char) (ps : List (List Char)) (h : closes (p :: ps) = true)
    (hps : ps ≠ []) : closes ps = true := by
  obtain ⟨q, qs, rfl⟩ := List.exists_cons_of_ne_nil hps
  exact h

theorem closes_mem (ps : List (List Char)) (h : closes ps = true) :
    Scanner.semicolon ∈ ps ∨ ['\n'] ∈ ps := by
  simp only [closes, Bool.or_eq_true, decide_eq_true_eq] at h
  exact h.imp List.mem_of_getLast? List.mem_of_getLast?

theorem cut_eq_nil (s : List Char) (h : scanner.cut s = []) : s = [] := by
  rw [← scanner.flatten_cut s, h]
  rfl

/-- A constant that does not go on in a closed text does not go on in what follows apart. -/
theorem continuation_apart (seen : Bool) (r v : List Char) (hclose : r ≠ [] →
    closes (scanner.cut r) = true) (hv : Apart v) (h : continuation seen false r = none) :
    continuation seen false (r ++ v) = none := by
  induction r using scanner.places_induction generalizing seen with
  | hnil => exact hv seen
  | hcons c s ih =>
    have hcut := hclose (List.cons_ne_nil c s)
    rw [scanner.cut_cons] at hcut
    have hnext (hne : scanner.rest (c :: s) ≠ []) :
        closes (scanner.cut (scanner.rest (c :: s))) = true :=
      closes_tail _ _ hcut fun hnil => hne (cut_eq_nil _ hnil)
    have hpiece := scanner.piece_append_rest c s
    by_cases hblank : isBlank c = true
    · have hrest : scanner.rest (c :: s) = s := rest_blank c s hblank
      rw [hrest] at hnext ih
      rw [continuation, if_pos hblank] at h
      rw [List.cons_append, continuation, if_pos hblank]
      exact ih _ hnext h
    · rw [continuation, if_neg hblank] at h
      rw [List.cons_append, continuation, if_neg hblank]
      by_cases hq : c = '\''
      · rw [if_pos hq] at h ⊢
        cases seen with
        | true => cases h
        | false => rfl
      · rw [if_neg hq] at h ⊢
        by_cases hcomment : c = '-' ∧ s.head? = some '-'
        · have hrest : scanner.rest (c :: s) = skipLine s.tail := if_pos hcomment
          obtain ⟨d, s, rfl⟩ := List.exists_cons_of_ne_nil (l := s) (by
            rintro rfl
            cases hcomment.2)
          obtain rfl : d = '-' := by simpa using hcomment.2
          have hline (t : List Char) : skipLine ('-' :: t) = skipLine t :=
            List.dropWhile_cons_of_pos (by decide)
          rw [List.tail_cons] at hrest
          rw [hrest] at hnext ih hcut hpiece
          have hne : skipLine s ≠ [] := by
            intro hnil
            rw [hnil, List.append_nil] at hpiece
            rw [hnil, hpiece, hcomment.1] at hcut
            simp [closes, Scanner.semicolon] at hcut
          rw [if_pos hcomment, continuation_comment, hline] at h
          rw [if_pos (by exact ⟨hcomment.1, rfl⟩), continuation_comment, List.cons_append, hline,
            skipLine, dropWhile_extend _ s v hne]
          exact ih seen hnext h
        · have hlong : ¬(c = '-' ∧ (s ++ v).head? = some '-') := by
            rintro ⟨hc, hhead⟩
            cases s with
            | nil =>
              have hrest : scanner.rest [c] = [] := List.suffix_nil.mp (scanner.shorter c [])
              rw [hrest, List.append_nil] at hpiece
              rw [hrest, hpiece, hc] at hcut
              simp [closes, Scanner.semicolon] at hcut
            | cons d s => exact hcomment ⟨hc, hhead⟩
          rw [if_neg hlong]

/-- **Concatenation.** What is written behind a closed text is read as if it stood alone, if no
statement is left open or no constant goes on. -/
theorem cut_extend (u v : List Char) (h : closes (scanner.cut u) = true)
    (hopen : settled (scanner.cut u) = true ∨ Apart v) :
    scanner.cut (u ++ v) = scanner.cut u ++ scanner.cut v := by
  induction u using scanner.places_induction with
  | hnil => cases h
  | hcons c s ih =>
    have hpiece := scanner.piece_append_rest c s
    rw [scanner.cut_cons] at h hopen ⊢
    by_cases hr : scanner.rest (c :: s) = []
    · rw [hr] at h hpiece ⊢
      rw [List.append_nil] at hpiece
      rw [hpiece] at h ⊢
      have hone : c :: s = [';'] ∨ c :: s = ['\n'] := by
        simpa [closes, Scanner.semicolon] using h
      have hlong : scanner.rest (c :: (s ++ v)) = v := by
        rcases hone with hone | hone
        · obtain ⟨rfl, rfl⟩ := List.cons.inj hone
          rfl
        · obtain ⟨rfl, rfl⟩ := List.cons.inj hone
          rfl
      rw [List.cons_append, scanner.cut_cons, hlong,
        scanner.piece_eq _ (c :: s) v hlong (by rw [List.cons_append])]
      rfl
    · have hcut : scanner.cut (scanner.rest (c :: s)) ≠ [] := fun hnil => hr (cut_eq_nil _ hnil)
      have hnext := closes_tail _ _ h hcut
      have hopen' : settled (scanner.cut (scanner.rest (c :: s))) = true ∨ Apart v :=
        hopen.imp (fun hsettled => (Bool.and_eq_true_iff.mp hsettled).2) id
      have hsuffix := scanner.shorter c s
      have hflat := scanner.flatten_cut (scanner.rest (c :: s))
      have htag : ∃ d ∈ s, isTagPart d = false := by
        rcases closes_mem _ hnext with hmem | hmem
        · refine ⟨';', hsuffix.subset ?_, by decide⟩
          rw [← hflat]
          exact List.mem_flatten.mpr ⟨_, hmem, List.mem_singleton_self _⟩
        · refine ⟨'\n', hsuffix.subset ?_, by decide⟩
          rw [← hflat]
          exact List.mem_flatten.mpr ⟨_, hmem, List.mem_singleton_self _⟩
      have hlong : scanner.rest (c :: (s ++ v)) = scanner.rest (c :: s) ++ v := by
        refine rest_extend c s v hr htag ?_
        rintro ⟨hc, hquote⟩
        obtain ⟨d, s, rfl⟩ := List.exists_cons_of_ne_nil (l := s) (by
          rintro rfl
          cases hquote)
        obtain rfl : d = '\'' := by simpa using hquote
        have hescape : rest (c :: '\'' :: s) = skipEscapes ('\'' :: s).length s := by
          rcases hc with rfl | rfl <;> rfl
        have hdecided : continuation false false (rest (c :: '\'' :: s)) = none := by
          rw [hescape]
          exact skipEscapes_decided _ s (by simp)
        rcases hopen with hsettled | hapart
        · rw [continuation_append, hdecided]
          · rfl
          · -- the constant is no trivia, so that a semicolon follows
            have hfirst := (Bool.and_eq_true_iff.mp hsettled).1
            obtain ⟨d, p, hp⟩ := List.exists_cons_of_ne_nil
              (l := scanner.piece (c :: '\'' :: s)) (by
              intro hnil
              rw [hnil, List.nil_append] at hpiece
              have hlt := scanner.length_rest_lt c ('\'' :: s)
              rw [hpiece] at hlt
              exact lt_irrefl _ hlt)
            rw [hp] at hpiece hfirst
            obtain rfl : d = c := (List.cons.inj hpiece).1
            rw [Bool.or_eq_true, Bool.or_eq_true, decide_eq_true_eq] at hfirst
            rcases hfirst with (htrivia | hsemi) | hmem
            · exfalso
              rcases hc with rfl | rfl
              · cases p <;> simp [isSpacing, isBlankPiece, isComment, isBlank] at htrivia
              · cases p <;> simp [isSpacing, isBlankPiece, isComment, isBlank] at htrivia
            · exfalso
              rcases hc with rfl | rfl
              · cases hsemi
              · cases hsemi
            · exact List.contains_iff_mem.mp hmem
        · exact continuation_apart false _ v (fun _ => hnext) hapart hdecided
      rw [List.cons_append, scanner.cut_cons, hlong, ih hnext hopen', List.cons_append]
      rw [scanner.piece_eq (c :: (s ++ v)) (scanner.piece (c :: s)) _ hlong (by
        rw [← List.append_assoc, hpiece, List.cons_append])]

end Postgres

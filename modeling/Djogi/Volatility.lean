import Djogi.Lib.Literal
import Djogi.Sql

/-!
# Volatility of default expressions

`migrate/pg_volatility.rs`: which defaults the catalog can take without a backfill. Texts are lists
of characters; the source walks bytes, and compares only with ASCII ones.

* `isLiteralShape_iff`: which texts pass for a literal;
* `literal_exact_iff`: exactly the literals do, but for digitless numbers and for dollars that
  PostgreSQL reads otherwise;
* `default_classified_iff`: and then no call passes for immutable.
-/

namespace Djogi

open Postgres

inductive Volatility
  | immutable | stable | volatile
  deriving DecidableEq, Repr

/-- `BUILTIN_VOLATILITY`, sorted. -/
def builtinVolatility : List (List Char × Volatility) :=
  [("CURRENT_TIMESTAMP".toList, .stable),
   ("clock_timestamp()".toList, .volatile),
   ("current_date".toList, .stable),
   ("current_time".toList, .stable),
   ("current_timestamp".toList, .stable),
   ("gen_random_uuid()".toList, .volatile),
   ("now()".toList, .stable),
   ("random()".toList, .volatile),
   ("statement_timestamp()".toList, .stable),
   ("transaction_timestamp()".toList, .stable)]

/-! ## Literal shapes -/

/-- From behind the opening quote: whether the run closes at the last character. -/
def quotedRunEnds : List Char → Bool
  | [] => false
  | [c] => c = '\''
  | c :: d :: s =>
      if c = '\'' then if d = '\'' then quotedRunEnds s else false
      else quotedRunEnds (d :: s)

def isSingleQuotedRun : List Char → Bool
  | [] => false
  | c :: s => c = '\'' && quotedRunEnds s

def eStringRunEnds : List Char → Bool
  | [] => false
  | [c] => c = '\''
  | c :: d :: s =>
      if c = '\\' then eStringRunEnds s
      else if c = '\'' then if d = '\'' then eStringRunEnds s else false
      else eStringRunEnds (d :: s)

def isSingleEStringRun : List Char → Bool
  | [] => false
  | c :: s => c = '\'' && eStringRunEnds s

/-- `body.windows(tag.len()).any(|w| w == tag)`. -/
def windowsContain (tag body : List Char) : Bool := body.tails.any fun w => tag.isPrefixOf w

def isSingleDollarQuotedRun (bytes : List Char) : Bool :=
  match bytes with
  | [] => false
  | c :: s =>
      let name := s.takeWhile (· ≠ '$')
      -- no second dollar
      if c ≠ '$' ∨ name.length = s.length then false
      else
        let tag := '$' :: name ++ ['$']
        if bytes.length < tag.length * 2 then false
        else
          let closeStart := bytes.length - tag.length
          if bytes.drop closeStart ≠ tag then false
          else !windowsContain tag ((bytes.take closeStart).drop tag.length)

def dropSign : List Char → List Char
  | [] => []
  | c :: s => if c = '+' ∨ c = '-' then s else c :: s

/-- The optional exponent, up to the end. -/
def isExponentSuffix : List Char → Bool
  | [] => true
  | c :: s =>
      let digits := dropSign s
      (c = 'e' || c = 'E') && !digits.isEmpty && digits.all Char.isDigit

def isNumericLiteral (bytes : List Char) : Bool :=
  let number := dropSign bytes
  let afterInt := number.dropWhile Char.isDigit
  if bytes.isEmpty ∨ (afterInt.length = number.length ∧ afterInt.head? ≠ some '.') then false
  else
    match afterInt with
    | [] => true
    | c :: s => if c = '.' then isExponentSuffix (s.dropWhile Char.isDigit)
        else isExponentSuffix (c :: s)

def eqIgnoreAsciiCase (s t : List Char) : Bool := s.map Char.toLower = t.map Char.toLower

def isLiteralShape (expr : List Char) : Bool :=
  if expr.isEmpty then false
  else if eqIgnoreAsciiCase expr "true".toList || eqIgnoreAsciiCase expr "false".toList ||
      eqIgnoreAsciiCase expr "null".toList then true
  else if isSingleQuotedRun expr then true
  else if 3 ≤ expr.length && (expr.head? = some 'E' || expr.head? = some 'e') &&
      isSingleEStringRun expr.tail then true
  else if isSingleDollarQuotedRun expr then true
  else isNumericLiteral expr

/-! ## Classification -/

/-- The loop of `binary_search_by_key`. -/
def bisect (table : List (List Char × Volatility)) (key : List Char) : ℕ → ℕ → ℕ → ℕ
  | 0, base, _ => base
  | fuel + 1, base, size =>
      if size ≤ 1 then base
      else
        let half := size / 2
        let mid := base + half
        let greater := (table[mid]?.map fun e => decide (key < e.1)).getD true
        bisect table key fuel (if greater then base else mid) (size - half)

def binarySearchByKey (table : List (List Char × Volatility)) (key : List Char) : Option ℕ :=
  let base := bisect table key table.length 0 table.length
  if table[base]?.map Prod.fst = some key then some base else none

def classifyDefaultExpression (expr : List Char) : Volatility :=
  let trimmed := trimChars expr
  if isLiteralShape trimmed then .immutable
  else match binarySearchByKey builtinVolatility trimmed with
    | some idx => (builtinVolatility[idx]?.map Prod.snd).getD .volatile
    | none => .volatile

/-! ## What passes for a literal -/

theorem quotedRunEnds_iff (s : List Char) :
    quotedRunEnds s = true ↔ ∃ body, StandardBody body ∧ s = body ++ ['\''] := by
  fun_induction quotedRunEnds s with
  | case1 => simp
  | case2 c =>
    constructor
    · intro h
      exact ⟨[], .nil, by simpa using h⟩
    · rintro ⟨body, -, h⟩
      cases body with
      | nil => simpa using h
      | cons b body => simp at h
  | case3 s ih =>
    rw [ih]
    constructor
    · rintro ⟨body, hbody, rfl⟩
      exact ⟨_, .doubled body hbody, rfl⟩
    · rintro ⟨body, hbody, h⟩
      cases hbody with
      | nil => simp at h
      | char c t hc ht =>
        injection h with hq _
        exact absurd hq.symm hc
      | doubled t ht => exact ⟨t, ht, by simpa using h⟩
  | case4 d s hd =>
    refine iff_of_false (by simp) ?_
    rintro ⟨body, hbody, h⟩
    cases hbody with
    | nil => simp at h
    | char c t hc ht =>
      injection h with hq _
      exact hc hq.symm
    | doubled t ht =>
      injection h with _ h
      injection h with hq _
      exact hd hq
  | case5 c d s hc ih =>
    rw [ih]
    constructor
    · rintro ⟨body, hbody, h⟩
      exact ⟨_, .char c body hc hbody, by rw [h]; rfl⟩
    · rintro ⟨body, hbody, h⟩
      cases hbody with
      | nil => simp at h
      | char b t hb ht =>
        injection h with _ h
        exact ⟨t, ht, h⟩
      | doubled t ht =>
        injection h with hq _
        exact absurd hq hc

theorem eStringRunEnds_iff (s : List Char) :
    eStringRunEnds s = true ↔ ∃ body, EscapeBody body ∧ s = body ++ ['\''] := by
  fun_induction eStringRunEnds s with
  | case1 => simp
  | case2 c =>
    constructor
    · intro h
      exact ⟨[], .nil, by simpa using h⟩
    · rintro ⟨body, -, h⟩
      cases body with
      | nil => simpa using h
      | cons b body => simp at h
  | case3 d s ih =>
    rw [ih]
    constructor
    · rintro ⟨body, hbody, rfl⟩
      exact ⟨_, .escaped d body hbody, rfl⟩
    · rintro ⟨body, hbody, h⟩
      cases hbody with
      | nil => simp at h
      | char c t _ hb ht =>
        injection h with hq _
        exact absurd hq.symm hb
      | doubled t ht => simp at h
      | escaped c t ht =>
        injection h with _ h
        injection h with _ h
        exact ⟨t, ht, h⟩
  | case4 s _ ih =>
    rw [ih]
    constructor
    · rintro ⟨body, hbody, rfl⟩
      exact ⟨_, .doubled body hbody, rfl⟩
    · rintro ⟨body, hbody, h⟩
      cases hbody with
      | nil => simp at h
      | char c t hc _ ht =>
        injection h with hq _
        exact absurd hq.symm hc
      | doubled t ht => exact ⟨t, ht, by simpa using h⟩
      | escaped c t ht => simp at h
  | case5 d s hd _ =>
    refine iff_of_false (by simp) ?_
    rintro ⟨body, hbody, h⟩
    cases hbody with
    | nil => simp at h
    | char c t hc _ ht =>
      injection h with hq _
      exact hc hq.symm
    | doubled t ht =>
      injection h with _ h
      injection h with hq _
      exact hd hq
    | escaped c t ht => simp at h
  | case6 c d s hb hc ih =>
    rw [ih]
    constructor
    · rintro ⟨body, hbody, h⟩
      exact ⟨_, .char c body hc hb hbody, by rw [h]; rfl⟩
    · rintro ⟨body, hbody, h⟩
      cases hbody with
      | nil => simp at h
      | char b t _ _ ht =>
        injection h with _ h
        exact ⟨t, ht, h⟩
      | doubled t ht =>
        injection h with hq _
        exact absurd hq hc
      | escaped e t ht =>
        injection h with hq _
        exact absurd hq hb

theorem isSingleQuotedRun_iff (s : List Char) :
    isSingleQuotedRun s = true ↔ IsStandardString s := by
  cases s with
  | nil => simp [isSingleQuotedRun, IsStandardString]
  | cons c s =>
    simp only [isSingleQuotedRun, Bool.and_eq_true, decide_eq_true_eq, quotedRunEnds_iff,
      IsStandardString, List.cons.injEq]
    constructor
    · rintro ⟨rfl, body, hbody, rfl⟩
      exact ⟨body, hbody, rfl, rfl⟩
    · rintro ⟨body, hbody, rfl, rfl⟩
      exact ⟨rfl, body, hbody, rfl⟩

theorem isSingleEStringRun_iff (s : List Char) :
    (3 ≤ s.length && (s.head? = some 'E' || s.head? = some 'e') && isSingleEStringRun s.tail) =
      true ↔ IsEscapeString s := by
  cases s with
  | nil => simp [IsEscapeString]
  | cons e s =>
    cases s with
    | nil => simp [isSingleEStringRun, IsEscapeString]
    | cons c s =>
      simp only [isSingleEStringRun, Bool.and_eq_true, Bool.or_eq_true, decide_eq_true_eq,
        eStringRunEnds_iff, IsEscapeString, List.cons.injEq, List.head?_cons, Option.some.injEq,
        List.tail_cons, List.length_cons]
      constructor
      · rintro ⟨⟨-, he⟩, rfl, body, hbody, rfl⟩
        exact ⟨e, body, he, hbody, rfl, rfl, rfl⟩
      · rintro ⟨_, body, he, hbody, rfl, rfl, rfl⟩
        exact ⟨⟨by simp, he⟩, rfl, body, hbody, rfl⟩

theorem windowsContain_iff (tag body : List Char) :
    windowsContain tag body = true ↔ tag <:+: body := by
  simp only [windowsContain, List.any_eq_true, List.mem_tails, List.isPrefixOf_iff_prefix,
    List.infix_iff_prefix_suffix]
  exact ⟨fun ⟨w, hw, htag⟩ => ⟨w, htag, hw⟩, fun ⟨w, htag, hw⟩ => ⟨w, hw, htag⟩⟩

/-- A run as the source reads one: any tag, and none inside the body. -/
def IsDollarRun (s : List Char) : Prop :=
  ∃ name body, '$' ∉ name ∧ s = delimiter name ++ (body ++ delimiter name) ∧
    ¬ delimiter name <:+: body

theorem takeWhile_name (name rest : List Char) (h : '$' ∉ name) :
    (name ++ '$' :: rest).takeWhile (· ≠ '$') = name := by
  have hall : ∀ c ∈ name, decide (c ≠ '$') = true := by
    intro c hc
    simpa using fun heq : c = '$' => h (heq ▸ hc)
  rw [List.takeWhile_append_of_pos hall, List.takeWhile_cons_of_neg (by simp), List.append_nil]

/-- A text with a dollar, at its first one. -/
theorem takeWhile_dollar (s : List Char) (h : (s.takeWhile (· ≠ '$')).length ≠ s.length) :
    '$' ∉ s.takeWhile (· ≠ '$') ∧ ∃ r, s = s.takeWhile (· ≠ '$') ++ '$' :: r := by
  induction s with
  | nil => exact absurd rfl h
  | cons c s ih =>
    by_cases hc : c = '$'
    · subst hc
      exact ⟨by simp, s, by simp⟩
    · rw [List.takeWhile_cons_of_pos (by simpa using hc)] at h ⊢
      obtain ⟨hmem, r, hr⟩ := ih (by simpa using h)
      refine ⟨by simpa [Ne.symm hc] using hmem, r, ?_⟩
      rw [List.cons_append, ← hr]

theorem isSingleDollarQuotedRun_delimited (name body : List Char) (h : '$' ∉ name) :
    isSingleDollarQuotedRun (delimiter name ++ (body ++ delimiter name)) =
      !windowsContain (delimiter name) body := by
  have htake := takeWhile_name name (body ++ delimiter name) h
  have hlen : (delimiter name).length = name.length + 2 := by simp [delimiter]
  have hclose : (delimiter name ++ (body ++ delimiter name)).length - (delimiter name).length =
      (delimiter name ++ body).length := by
    simp only [List.length_append]
    omega
  have hassoc : delimiter name ++ (body ++ delimiter name) =
      (delimiter name ++ body) ++ delimiter name := (List.append_assoc _ _ _).symm
  have hdrop : (delimiter name ++ (body ++ delimiter name)).drop
      (delimiter name ++ body).length = delimiter name := by
    rw [hassoc, List.drop_left]
  have htakeBody : (delimiter name ++ (body ++ delimiter name)).take
      (delimiter name ++ body).length = delimiter name ++ body := by
    rw [hassoc, List.take_left]
  have hcons : delimiter name ++ (body ++ delimiter name) =
      '$' :: (name ++ '$' :: (body ++ delimiter name)) := by simp [delimiter]
  have htag : '$' :: (name ++ '$' :: (body ++ delimiter name)).takeWhile (· ≠ '$') ++ ['$'] =
      delimiter name := by
    rw [htake]
    rfl
  have hfirst : ¬ ('$' ≠ '$' ∨ ((name ++ '$' :: (body ++ delimiter name)).takeWhile
      (· ≠ '$')).length = (name ++ '$' :: (body ++ delimiter name)).length) := by
    rw [htake]
    simp
  have hlong : ¬ (delimiter name ++ (body ++ delimiter name)).length <
      (delimiter name).length * 2 := by
    simp only [List.length_append]
    omega
  conv_lhs => rw [hcons]
  unfold isSingleDollarQuotedRun
  dsimp only
  rw [if_neg hfirst, htag, ← hcons, if_neg hlong, hclose, hdrop, if_neg (by simp), htakeBody,
    List.drop_left]

theorem isSingleDollarQuotedRun_iff (s : List Char) :
    isSingleDollarQuotedRun s = true ↔ IsDollarRun s := by
  constructor
  · intro h
    obtain ⟨name, body, hname, rfl⟩ : ∃ name body, '$' ∉ name ∧
        s = delimiter name ++ (body ++ delimiter name) := by
      cases s with
      | nil => cases h
      | cons c s =>
        unfold isSingleDollarQuotedRun at h
        dsimp only at h
        split at h
        · cases h
        · rename_i hfirst
          obtain ⟨hc, hlen⟩ := not_or.mp hfirst
          obtain rfl : c = '$' := of_not_not hc
          obtain ⟨hname, r, hr⟩ := takeWhile_dollar s hlen
          generalize hw : s.takeWhile (· ≠ '$') = name at hname hr h
          have hs : '$' :: s = delimiter name ++ r := by
            rw [hr]
            simp [delimiter]
          rw [hs, show '$' :: name ++ ['$'] = delimiter name from rfl] at h
          split at h
          · cases h
          · rename_i hlong
            split at h
            · cases h
            · rename_i hdrop
              have hdrop := of_not_not hdrop
              simp only [List.length_append] at hlong hdrop
              have hclose : (delimiter name).length + r.length - (delimiter name).length =
                  r.length := by omega
              rw [hclose, List.drop_append, List.drop_of_length_le (by omega),
                List.nil_append] at hdrop
              refine ⟨name, r.take (r.length - (delimiter name).length), hname, ?_⟩
              rw [hs]
              conv_lhs => rw [← List.take_append_drop (r.length - (delimiter name).length) r]
              rw [hdrop]
    rw [isSingleDollarQuotedRun_delimited name body hname, Bool.not_eq_true'] at h
    refine ⟨name, body, hname, rfl, fun hinfix => ?_⟩
    rw [(windowsContain_iff _ _).mpr hinfix] at h
    cases h
  · rintro ⟨name, body, hname, rfl, hinfix⟩
    rw [isSingleDollarQuotedRun_delimited name body hname, Bool.not_eq_true',
      ← Bool.not_eq_true, windowsContain_iff]
    exact hinfix

/-! ### Numbers -/

theorem dropSign_spec (s : List Char) : ∃ sign, IsSign sign ∧ s = sign ++ dropSign s := by
  cases s with
  | nil => exact ⟨[], .inl rfl, rfl⟩
  | cons c s =>
    by_cases h : c = '+' ∨ c = '-'
    · refine ⟨[c], ?_, by simp [dropSign, h]⟩
      rcases h with rfl | rfl
      · exact .inr (.inl rfl)
      · exact .inr (.inr rfl)
    · exact ⟨[], .inl rfl, by simp [dropSign, h]⟩

theorem dropSign_append (sign s : List Char) (hsign : IsSign sign)
    (hs : ∀ c ∈ s.head?, c ≠ '+' ∧ c ≠ '-') : dropSign (sign ++ s) = s := by
  rcases hsign with rfl | rfl | rfl
  · cases s with
    | nil => rfl
    | cons c s =>
      obtain ⟨hplus, hminus⟩ := hs c rfl
      simp [dropSign, hplus, hminus]
  · rfl
  · rfl

theorem digits_not_sign (s : List Char) (h : IsDigits s) : ∀ c ∈ s.head?, c ≠ '+' ∧ c ≠ '-' := by
  intro c hc
  have hdigit := h c (List.mem_of_mem_head? hc)
  constructor <;> rintro rfl <;> revert hdigit <;> decide

theorem exponent_not_digit (s : List Char) (h : IsExponent s) :
    ∀ c ∈ s.head?, c.isDigit = false ∧ c ≠ '.' := by
  intro c hc
  rcases h with rfl | ⟨e, sign, digits, he, -, -, -, rfl⟩
  · cases hc
  · cases hc
    rcases he with rfl | rfl <;> decide

theorem isExponentSuffix_iff (s : List Char) : isExponentSuffix s = true ↔ IsExponent s := by
  cases s with
  | nil => simp [isExponentSuffix, IsExponent]
  | cons c s =>
    simp only [isExponentSuffix, Bool.and_eq_true, Bool.or_eq_true, decide_eq_true_eq,
      Bool.not_eq_true', List.isEmpty_eq_false_iff, List.all_eq_true]
    constructor
    · rintro ⟨⟨he, hne⟩, hdigits⟩
      obtain ⟨sign, hsign, hs⟩ := dropSign_spec s
      exact .inr ⟨c, sign, dropSign s, he, hsign, hdigits, hne, by rw [← hs]⟩
    · rintro (h | ⟨e, sign, digits, he, hsign, hdigits, hne, h⟩)
      · cases h
      · injection h with hc hs
        rw [hs, dropSign_append sign digits hsign (digits_not_sign digits hdigits), hc]
        exact ⟨⟨he, hne⟩, hdigits⟩

/-- A number as the source reads one: it may have no digits. -/
def IsLooseNumber (s : List Char) : Prop :=
  ∃ sign mantissa exponent, IsSign sign ∧ (IsMantissa mantissa ∨ mantissa = ['.']) ∧
    IsExponent exponent ∧ s = sign ++ (mantissa ++ exponent)

theorem dropWhile_digits (whole s : List Char) (hwhole : IsDigits whole)
    (hs : ∀ c ∈ s.head?, c.isDigit = false) : (whole ++ s).dropWhile Char.isDigit = s := by
  rw [List.dropWhile_append_of_pos hwhole]
  cases s with
  | nil => rfl
  | cons c s => rw [List.dropWhile_cons_of_neg (by simp [hs c rfl])]

/-- A number with a point. -/
theorem isNumericLiteral_point (sign whole fraction exponent : List Char) (hsign : IsSign sign)
    (hwhole : IsDigits whole) (hfraction : IsDigits fraction) (hexponent : IsExponent exponent) :
    isNumericLiteral (sign ++ (whole ++ '.' :: (fraction ++ exponent))) = true := by
  have hnumber : dropSign (sign ++ (whole ++ '.' :: (fraction ++ exponent))) =
      whole ++ '.' :: (fraction ++ exponent) := by
    refine dropSign_append sign _ hsign ?_
    cases whole with
    | nil =>
      rintro c hc
      cases hc
      decide
    | cons d whole => exact fun c hc => digits_not_sign _ hwhole c hc
  have hafter := dropWhile_digits whole ('.' :: (fraction ++ exponent)) hwhole (by simp)
  have hsuffix := dropWhile_digits fraction exponent hfraction
    fun c hc => (exponent_not_digit exponent hexponent c hc).1
  have hexp := (isExponentSuffix_iff exponent).mpr hexponent
  simp [isNumericLiteral, hnumber, hafter, hsuffix, hexp]

/-- A number without a point. -/
theorem isNumericLiteral_whole (sign whole exponent : List Char) (hsign : IsSign sign)
    (hwhole : IsDigits whole) (hne : whole ≠ []) (hexponent : IsExponent exponent) :
    isNumericLiteral (sign ++ (whole ++ exponent)) = true := by
  have hnumber : dropSign (sign ++ (whole ++ exponent)) = whole ++ exponent := by
    refine dropSign_append sign _ hsign fun c hc => digits_not_sign whole hwhole c ?_
    rwa [List.head?_append_of_ne_nil _ hne] at hc
  have hafter := dropWhile_digits whole exponent hwhole fun c hc => (exponent_not_digit exponent hexponent c hc).1
  have hlen : ¬ exponent.length = whole.length + exponent.length := by
    have hpos := List.length_pos_of_ne_nil hne
    omega
  have hexp := (isExponentSuffix_iff exponent).mpr hexponent
  unfold isNumericLiteral
  dsimp only
  rw [hnumber, hafter]
  cases exponent with
  | nil => simpa [hne] using hlen
  | cons e exponent =>
    have he := (exponent_not_digit _ hexponent e rfl).2
    simp only [List.length_cons] at hlen
    simp [hne, he, hexp]

theorem isNumericLiteral_iff (s : List Char) : isNumericLiteral s = true ↔ IsLooseNumber s := by
  constructor
  · intro h
    obtain ⟨sign, hsign, hs⟩ := dropSign_spec s
    have hsplit := List.takeWhile_append_dropWhile (p := Char.isDigit) (l := dropSign s)
    have hwhole : IsDigits ((dropSign s).takeWhile Char.isDigit) :=
      fun c hc => List.all_eq_true.mp List.all_takeWhile c hc
    unfold isNumericLiteral at h
    dsimp only at h
    split at h
    · cases h
    · rename_i hcond
      rw [not_or, not_and_or] at hcond
      have hne (hdot : ((dropSign s).dropWhile Char.isDigit).head? ≠ some '.') :
          (dropSign s).takeWhile Char.isDigit ≠ [] := by
        intro hnil
        rw [hnil, List.nil_append] at hsplit
        rcases hcond.2 with hlen | hhead
        · exact hlen (congrArg List.length hsplit)
        · exact hhead hdot
      generalize (dropSign s).takeWhile Char.isDigit = whole at hsplit hwhole hne
      split at h
      · rename_i hafter
        rw [hafter, List.append_nil] at hsplit
        rw [hafter] at hne
        exact ⟨sign, whole, [], hsign, .inl (.inl ⟨hwhole, hne (by simp)⟩), .inl rfl,
          by rw [hs, hsplit, List.append_nil]⟩
      · rename_i c t hafter
        rw [hafter] at hsplit hne
        split at h
        · rename_i hc
          subst hc
          have ht := List.takeWhile_append_dropWhile (p := Char.isDigit) (l := t)
          have hfraction : IsDigits (t.takeWhile Char.isDigit) :=
            fun c hc => List.all_eq_true.mp List.all_takeWhile c hc
          refine ⟨sign, whole ++ '.' :: t.takeWhile Char.isDigit, t.dropWhile Char.isDigit, hsign,
            ?_, (isExponentSuffix_iff _).mp h, ?_⟩
          · by_cases hnone : whole ++ t.takeWhile Char.isDigit = []
            · obtain ⟨hw, hf⟩ := List.append_eq_nil_iff.mp hnone
              right
              rw [hw, hf]
              rfl
            · exact .inl (.inr ⟨whole, _, hwhole, hfraction, hnone, rfl⟩)
          · conv_lhs => rw [hs, ← hsplit, ← ht]
            simp
        · rename_i hc
          exact ⟨sign, whole, c :: t, hsign, .inl (.inl ⟨hwhole, hne (by simpa using hc)⟩),
            (isExponentSuffix_iff _).mp h, by rw [hsplit, ← hs]⟩
  · rintro ⟨sign, mantissa, exponent, hsign, hmantissa, hexponent, rfl⟩
    rcases hmantissa with (⟨hwhole, hne⟩ | ⟨whole, fraction, hwhole, hfraction, -, rfl⟩) | rfl
    · exact isNumericLiteral_whole sign mantissa exponent hsign hwhole hne hexponent
    · rw [List.append_assoc, List.cons_append]
      exact isNumericLiteral_point sign whole fraction exponent hsign hwhole hfraction hexponent
    · have hnone : IsDigits [] := fun c hc => by cases hc
      exact isNumericLiteral_point sign [] [] exponent hsign hnone hnone hexponent

/-! ## Exactness -/

theorem isKeyword_iff (s : List Char) :
    (eqIgnoreAsciiCase s "true".toList || eqIgnoreAsciiCase s "false".toList ||
      eqIgnoreAsciiCase s "null".toList) = true ↔ IsKeyword s := by
  have htrue : "true".toList.map Char.toLower = "true".toList := by decide
  have hfalse : "false".toList.map Char.toLower = "false".toList := by decide
  have hnull : "null".toList.map Char.toLower = "null".toList := by decide
  rw [IsKeyword, eqIgnoreAsciiCase, eqIgnoreAsciiCase, eqIgnoreAsciiCase, htrue, hfalse, hnull]
  simp [or_assoc]

/-- **What passes for a literal.** -/
theorem isLiteralShape_iff (s : List Char) :
    isLiteralShape s = true ↔
      IsStandardString s ∨ IsEscapeString s ∨ IsDollarRun s ∨ IsLooseNumber s ∨ IsKeyword s := by
  rw [← isSingleQuotedRun_iff, ← isSingleEStringRun_iff, ← isSingleDollarQuotedRun_iff,
    ← isNumericLiteral_iff, ← isKeyword_iff]
  cases s with
  | nil => decide
  | cons c s =>
    unfold isLiteralShape
    rw [if_neg (by simp)]
    generalize (eqIgnoreAsciiCase (c :: s) "true".toList ||
      eqIgnoreAsciiCase (c :: s) "false".toList || eqIgnoreAsciiCase (c :: s) "null".toList) =
        keyword
    cases keyword <;> cases isSingleQuotedRun (c :: s) <;>
      cases isSingleDollarQuotedRun (c :: s) <;> simp

/-- A point without digits, which passes for a number. -/
def IsDigitless (s : List Char) : Prop :=
  ∃ sign exponent, IsSign sign ∧ IsExponent exponent ∧ s = sign ++ '.' :: exponent

/-- Text between two equal delimiters that PostgreSQL does not read as one constant: the tag is
none, or the delimiter is met earlier, with its last dollars. -/
def IsMisreadDollar (s : List Char) : Prop :=
  ∃ name body, '$' ∉ name ∧ s = delimiter name ++ (body ++ delimiter name) ∧
    ¬ delimiter name <:+: body ∧
      (isTag name = false ∨
        ∃ before after, after ≠ [] ∧ body ++ delimiter name = before ++ (delimiter name ++ after))

def IsMisread (s : List Char) : Prop := IsDigitless s ∨ IsMisreadDollar s

theorem no_dollar_of_isTag (tag : List Char) (h : isTag tag = true) : '$' ∉ tag := by
  intro hmem
  simp only [isTag, Bool.and_eq_true, List.all_eq_true] at h
  have hpart := h.1 '$' hmem
  revert hpart
  decide

theorem isDollarRun_of_isDollarString (s : List Char) (h : IsDollarString s) : IsDollarRun s := by
  obtain ⟨tag, text, htag, ⟨⟨body, rfl⟩, honly⟩, rfl⟩ := h
  refine ⟨tag, body, no_dollar_of_isTag tag htag, rfl, ?_⟩
  rintro ⟨x, y, rfl⟩
  have hnil := honly x (y ++ delimiter tag) (by simp)
  simp [delimiter] at hnil

theorem isLiteralShape_of_isLiteral (s : List Char) (h : IsLiteral s) :
    isLiteralShape s = true := by
  rw [isLiteralShape_iff]
  rcases h with h | h | h | h | h
  · exact .inl h
  · exact .inr (.inl h)
  · exact .inr (.inr (.inl (isDollarRun_of_isDollarString s h)))
  · obtain ⟨sign, mantissa, exponent, hsign, hmantissa, hexponent, hs⟩ := h
    exact .inr (.inr (.inr (.inl ⟨sign, mantissa, exponent, hsign, .inl hmantissa, hexponent, hs⟩)))
  · exact .inr (.inr (.inr (.inr h)))

theorem isLiteral_of_not_isMisread (s : List Char) (h : isLiteralShape s = true)
    (hs : ¬ IsMisread s) : IsLiteral s := by
  obtain ⟨hnumber, hdollar⟩ := not_or.mp hs
  rcases (isLiteralShape_iff s).mp h with h | h | h | h | h
  · exact .inl h
  · exact .inr (.inl h)
  · obtain ⟨name, body, hname, rfl, hinfix⟩ := h
    refine .inr (.inr (.inl ⟨name, body ++ delimiter name, ?_, ⟨⟨body, rfl⟩, ?_⟩, rfl⟩))
    · by_contra htag
      exact hdollar ⟨name, body, hname, rfl, hinfix, .inl (by simpa using htag)⟩
    · intro before after heq
      by_contra hafter
      exact hdollar ⟨name, body, hname, rfl, hinfix, .inr ⟨before, after, hafter, heq⟩⟩
  · obtain ⟨sign, mantissa, exponent, hsign, hmantissa | rfl, hexponent, hs⟩ := h
    · exact .inr (.inr (.inr (.inl ⟨sign, mantissa, exponent, hsign, hmantissa, hexponent, hs⟩)))
    · exact absurd ⟨sign, exponent, hsign, hexponent, hs⟩ hnumber
  · exact .inr (.inr (.inr (.inr h)))

theorem mantissa_head (s : List Char) (h : IsMantissa s) :
    ∀ c ∈ s.head?, c ≠ '+' ∧ c ≠ '-' := by
  rcases h with ⟨h, -⟩ | ⟨whole, fraction, hwhole, -, -, rfl⟩
  · exact digits_not_sign s h
  · cases whole with
    | nil =>
      rintro c hc
      cases hc
      decide
    | cons d whole => exact fun c hc => digits_not_sign _ hwhole c hc

/-- No number begins with a point and no digit behind it. -/
theorem not_isNumber_of_isDigitless (s : List Char) (h : IsDigitless s) : ¬ IsNumber s := by
  obtain ⟨sign, exponent, hsign, hexponent, rfl⟩ := h
  rintro ⟨sign', mantissa, exponent', hsign', hmantissa, hexponent', heq⟩
  have hnumber : '.' :: exponent = mantissa ++ exponent' := by
    have hleft := dropSign_append sign ('.' :: exponent) hsign (by simp)
    have hright := dropSign_append sign' (mantissa ++ exponent') hsign' (by
      have hne : mantissa ≠ [] := by
        rintro rfl
        rcases hmantissa with ⟨-, hne⟩ | ⟨whole, fraction, -, -, -, hnil⟩
        · exact hne rfl
        · simp at hnil
      rw [List.head?_append_of_ne_nil _ hne]
      exact mantissa_head mantissa hmantissa)
    rw [← hleft, heq, hright]
  have hpoint : ¬ IsDigits ['.'] := fun h => by simpa using h '.' (by simp)
  rcases hmantissa with ⟨hdigits, hne⟩ | ⟨whole, fraction, hwhole, hfraction, hne, rfl⟩
  · cases mantissa with
    | nil => exact hne rfl
    | cons c mantissa =>
      injection hnumber with hc _
      exact hpoint fun d hd => by
        rw [List.mem_singleton.mp hd, hc]
        exact hdigits c (by simp)
  · cases whole with
    | cons c whole =>
      injection hnumber with hc _
      exact hpoint fun d hd => by
        rw [List.mem_singleton.mp hd, hc]
        exact hwhole c (by simp)
    | nil =>
      injection hnumber with _ hrest
      cases fraction with
      | nil => exact hne rfl
      | cons c fraction =>
        have hhead := (exponent_not_digit exponent hexponent c (by rw [hrest]; rfl)).1
        rw [hfraction c (by simp)] at hhead
        cases hhead

theorem not_isLiteral_of_isMisread (s : List Char) (hs : IsMisread s) : ¬ IsLiteral s := by
  rcases hs with hs | ⟨name, body, hname, rfl, hinfix, hbad⟩
  · have hmem : '.' ∈ s := by
      obtain ⟨sign, exponent, -, -, rfl⟩ := hs
      simp
    have hhead : ∀ c ∈ s.head?, c = '+' ∨ c = '-' ∨ c = '.' := by
      obtain ⟨sign, exponent, rfl | rfl | rfl, -, rfl⟩ := hs <;> simp
    rintro (⟨body, -, rfl⟩ | ⟨e, body, he, -, rfl⟩ | ⟨tag, text, -, -, rfl⟩ | h | h)
    · have hc := hhead '\'' rfl
      revert hc
      decide
    · have hc := hhead e rfl
      rcases he with rfl | rfl <;> revert hc <;> decide
    · have hc := hhead '$' rfl
      revert hc
      decide
    · exact not_isNumber_of_isDigitless s hs h
    · have hc := h.chars '.' hmem
      revert hc
      decide
  · have hmem : '$' ∈ delimiter name ++ (body ++ delimiter name) := by simp [delimiter]
    rintro (⟨text, -, h⟩ | ⟨e, text, he, -, h⟩ | ⟨tag, text, htag, hmeets, h⟩ | h | h)
    · injection h with hc _
      revert hc
      decide
    · injection h with hc _
      rcases he with rfl | rfl <;> revert hc <;> decide
    · have htagDollar := no_dollar_of_isTag tag htag
      have hsame : tag = name ∧ text = body ++ delimiter name := by
        have hcons : name ++ '$' :: (body ++ delimiter name) = tag ++ '$' :: text := by
          simpa [delimiter] using h
        have htake := congrArg (List.takeWhile (· ≠ '$')) hcons
        rw [takeWhile_name _ _ hname, takeWhile_name _ _ htagDollar] at htake
        subst htake
        exact ⟨rfl, by simpa using hcons.symm⟩
      obtain ⟨rfl, rfl⟩ := hsame
      rcases hbad with hbad | ⟨before, after, hafter, heq⟩
      · rw [htag] at hbad
        cases hbad
      · exact hafter (hmeets.2 before after heq)
    · have hc := h.chars '$' hmem
      revert hc
      decide
    · have hc := h.chars '$' hmem
      revert hc
      decide

theorem isLiteralShape_of_isMisread (s : List Char) (hs : IsMisread s) :
    isLiteralShape s = true := by
  rw [isLiteralShape_iff]
  rcases hs with ⟨sign, exponent, hsign, hexponent, rfl⟩ | ⟨name, body, hname, hs, hinfix, -⟩
  · exact .inr (.inr (.inr (.inl ⟨sign, ['.'], exponent, hsign, .inr rfl, hexponent, rfl⟩)))
  · exact .inr (.inr (.inl ⟨name, body, hname, hs, hinfix⟩))

/-- A text is read as a literal rightly unless it is one of the misread ones. -/
theorem literal_exact_iff (s : List Char) :
    (isLiteralShape s = true ↔ IsLiteral s) ↔ ¬ IsMisread s := by
  constructor
  · intro h hs
    exact not_isLiteral_of_isMisread s hs (h.mp (isLiteralShape_of_isMisread s hs))
  · intro hs
    exact ⟨fun h => isLiteral_of_not_isMisread s h hs, isLiteralShape_of_isLiteral s⟩

/-! ## Classification of calls -/

/-- What the binary search finds is the key. -/
theorem binarySearchByKey_found (table : List (List Char × Volatility)) (key : List Char) (i : ℕ)
    (h : binarySearchByKey table key = some i) : ∃ v, table[i]? = some (key, v) := by
  unfold binarySearchByKey at h
  dsimp only at h
  split at h
  · rename_i hkey
    cases h
    obtain ⟨entry, hentry, hfst⟩ := Option.map_eq_some_iff.mp hkey
    exact ⟨entry.2, by rw [hentry, ← hfst]⟩
  · cases h

/-- A default that is not volatile is a literal shape or a built-in that is not. -/
theorem classify_not_volatile (e : List Char) (h : classifyDefaultExpression e ≠ .volatile) :
    isLiteralShape (trimChars e) = true ∨ ∃ v, (trimChars e, v) ∈ builtinVolatility ∧
      v = .stable := by
  unfold classifyDefaultExpression at h
  dsimp only at h
  split at h
  · rename_i hliteral
    exact .inl hliteral
  · split at h
    · rename_i i hfound
      obtain ⟨v, hv⟩ := binarySearchByKey_found _ _ i hfound
      have hmem := List.mem_of_getElem? hv
      rw [hv] at h
      have hnone : ∀ entry ∈ builtinVolatility, entry.2 ≠ .immutable := by decide
      refine .inr ⟨v, hmem, ?_⟩
      have himmutable := hnone _ hmem
      cases v with
      | immutable => exact absurd rfl himmutable
      | stable => rfl
      | volatile => exact absurd rfl h
    · exact absurd rfl h

/-- **Default expressions.** Literals are recognised, and no default with a call outside of a
literal passes for immutable or stable but the listed ones, exactly if neither the text nor the
trimmed text is misread. -/
theorem default_classified_iff (e : List Char) :
    (isLiteralShape e = true ↔ IsLiteral e) ∧
      (isLiteralShape (trimChars e) = true ↔ IsLiteral (trimChars e)) ∧
      (classifyDefaultExpression e ≠ .volatile →
        ¬ HasCall (trimChars e) ∨ (trimChars e, .stable) ∈ builtinVolatility) ∧
      (∀ entry ∈ builtinVolatility, classifyDefaultExpression entry.1 = entry.2) ↔
    ¬ IsMisread e ∧ ¬ IsMisread (trimChars e) := by
  rw [literal_exact_iff, literal_exact_iff]
  have htable : ∀ entry ∈ builtinVolatility, classifyDefaultExpression entry.1 = entry.2 := by
    decide +kernel
  constructor
  · rintro ⟨h, htrim, -, -⟩
    exact ⟨h, htrim⟩
  · rintro ⟨h, htrim⟩
    refine ⟨h, htrim, fun hclass => ?_, htable⟩
    rcases classify_not_volatile e hclass with hliteral | ⟨v, hmem, rfl⟩
    · exact .inl (noCall_of_literal _ (isLiteral_of_not_isMisread _ hliteral htrim))
    · exact .inr hmem

/-- Two parameters and two names with a dollar at their end. -/
def calledBetweenDollars : List Char := "$1+random()+a$+$1+random()+a$".toList

/-- Calls outside of constants pass for immutable. -/
theorem called_between_dollars_immutable :
    isLiteralShape calledBetweenDollars = true ∧ ¬ IsLiteral calledBetweenDollars ∧
      HasCall (trimChars calledBetweenDollars) ∧
      (trimChars calledBetweenDollars, .stable) ∉ builtinVolatility ∧
      classifyDefaultExpression calledBetweenDollars = .immutable := by
  have hmisread : IsMisread calledBetweenDollars := by
    refine .inr ⟨"1+random()+a".toList, ['+'], by decide, by decide, ?_, .inl (by decide)⟩
    rw [← windowsContain_iff]
    decide
  have htrim : trimChars calledBetweenDollars = calledBetweenDollars := by decide
  have hcut : scanner.cut calledBetweenDollars =
      [['$', '1'], ['+']] ++ "random".toList :: ([] ++ ['('] :: [[')'], ['+'], ['a', '$'], ['+'],
        ['$', '1'], ['+'], "random".toList, ['('], [')'], ['+'], ['a', '$']]) := by
    decide +kernel
  rw [htrim]
  refine ⟨isLiteralShape_of_isMisread _ hmisread, not_isLiteral_of_isMisread _ hmisread,
    ⟨_, _, _, _, hcut, by decide, by simp⟩, by decide, by decide +kernel⟩

end Djogi

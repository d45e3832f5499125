import Djogi.Live.TypeReadings

/-!
# Verdicts on type changes

What `classify_type_change` answers on the texts of two types, against what a change of these types
loses.

* `classify_eq`: the verdict follows from the readings of both texts;
* `verdict_steady`: the pairs of types with one verdict under all names;
* `verdict_kept_iff`: for which pairs the verdict refuses what is lossy and is the same under all
  names;
* `type_change_verdict`: what holds of every pair.
-/

namespace Djogi.Live

open Text SqlTypes

/-! ## The verdict from the readings -/

/-- The pair stands in the list of integer widenings. -/
def listedInts (f t : List Char) : Bool := wideningInts.any fun p => p.1.toList = f ∧ p.2.toList = t

def narrowerWidth : Option ℕ → Option ℕ → Bool
  | some fw, some tw => tw < fw
  | _, _ => false

def narrowerTypmod : Option NumericTypmod → Option NumericTypmod → Bool
  | some a, some b => typmodNarrows a b
  | _, _ => false

def verdictOf (ints : Bool) (a b : Reading) : OnlineSafetyClassification :=
  if ints || ((sameKindLengths a.chars b.chars).any fun l => l.1 ≤ l.2) ||
      a.chars.isSome && b.isText then .onlineSafe
  else if narrowerWidth a.width b.width ||
      ((sameKindLengths a.chars b.chars).any fun l => l.2 < l.1) ||
      (a.isText && b.chars.isSome) || narrowerTypmod a.typmod b.typmod then .offlineOnly
  else .expandContract

def normal (text : List Char) : List Char := toAsciiLowercase (trimChars text)

theorem classify_eq (from_ to_ : List Char) (hne : from_ ≠ to_) :
    classifyTypeChange from_ to_ = verdictOf (listedInts (normal from_) (normal to_))
      (reading (normal from_)) (reading (normal to_)) := by
  rw [classifyTypeChange, if_neg hne]
  rfl

theorem classify_self (text : List Char) : classifyTypeChange text text = .onlineSafe :=
  if_pos rfl

theorem listedInts_kind (f t : List Char) (h : listedInts f t = true) :
    kindOf f = .int ∧ kindOf t = .int := by
  obtain ⟨p, hp, heq⟩ := List.any_eq_true.mp h
  obtain ⟨rfl, rfl⟩ := of_decide_eq_true heq
  have hall : ∀ p ∈ wideningInts, kindOf p.1.toList = .int ∧ kindOf p.2.toList = .int := by
    decide
  exact hall p hp

theorem listedInts_self (t : List Char) : listedInts t t = false := by
  have hall : ∀ p ∈ wideningInts, p.1.toList ≠ p.2.toList := by decide
  rw [listedInts, List.any_eq_false]
  intro p hp heq
  obtain ⟨rfl, hsame⟩ := of_decide_eq_true heq
  exact hall p hp hsame.symm

/-! ## Verdicts on all texts of two types -/

/-- The widenings by width, by length and to `text` that the code lists. -/
def Widens : SqlType → SqlType → Prop
  | .int w, .int w' => w.bits < w'.bits
  | .varchar (some n), .varchar (some m) => n ≤ m
  | .char n, .char m => n ≤ m
  | .varchar _, .text | .char _, .text => True
  | _, _ => False

/-- What a verdict on two texts of the types keeps. -/
structure VerdictKept (A B : SqlType) (from_ to_ : List Char) : Prop where
  refused : Lossy A B → classifyTypeChange from_ to_ = .offlineOnly
  safe : classifyTypeChange from_ to_ = .onlineSafe → A = B ∨ Widens A B
  aliases : ∀ from' to', Spells A from' → Spells B to' →
    classifyTypeChange from' to' = classifyTypeChange from_ to_

theorem reads_string (A : SqlType) (a : Reading) (hA : isString A = true) (h : Reads A a) :
    a.width = none ∧ a.typmod = none := by
  cases A with
  | varchar n => rcases h with rfl | rfl <;> exact ⟨rfl, rfl⟩
  | char n => rcases h with rfl | ⟨-, rfl⟩ <;> exact ⟨rfl, rfl⟩
  | text => cases h; exact ⟨rfl, rfl⟩
  | _ => cases hA

theorem reads_number (B : SqlType) (b : Reading) (hB : isString B = false) (h : Reads B b) :
    b.chars = none ∧ b.isText = false := by
  cases B with
  | int w => cases h; exact ⟨rfl, rfl⟩
  | numeric params =>
    cases params with
    | none => cases h; exact ⟨rfl, rfl⟩
    | some ps => rcases h with ⟨-, rfl⟩ | ⟨-, rfl⟩ <;> exact ⟨rfl, rfl⟩
  | _ => cases hB

theorem spells_unique (A B : SqlType) (text : List Char) (hA : Spells A text)
    (hB : Spells B text) : A = B :=
  body_unique A B _ (body_of_spells A text hA) (body_of_spells B text hB)

theorem spells_padded (A : SqlType) (text : List Char) (h : Spells A text) :
    Spells A (' ' :: text) ∧ normal (' ' :: text) = normal text := by
  obtain ⟨before, body, after, hbefore, hafter, hbody, htext⟩ := h
  refine ⟨⟨' ' :: before, body, after, ?_, hafter, hbody, ?_⟩, rfl⟩
  · intro c hc
    rcases List.mem_cons.mp hc with rfl | hc
    · rfl
    · exact hbefore c hc
  · rw [List.map_cons, htext]
    rfl

section Types

variable (A B : SqlType) (from_ to_ : List Char) (hfrom : Spells A from_) (hto : Spells B to_)

include hfrom hto

/-- Two texts of which one is of no integer. -/
theorem classify_texts (hdiff : from_ ≠ to_) (hint : A.kind ≠ .int ∨ B.kind ≠ .int) :
    classifyTypeChange from_ to_ =
      verdictOf false (reading (normal from_)) (reading (normal to_)) := by
  have hA := body_of_spells A from_ hfrom
  have hB := body_of_spells B to_ hto
  rw [classify_eq from_ to_ hdiff]
  have hlisted : listedInts (normal from_) (normal to_) = false := by
    by_contra hlisted
    obtain ⟨hf, ht⟩ := listedInts_kind _ _ (by simpa using hlisted)
    rw [normal, body_kind A _ hA] at hf
    rw [normal, body_kind B _ hB] at ht
    rcases hint with hint | hint
    · exact hint hf
    · exact hint ht
  rw [hlisted]

theorem classify_types (hne : A ≠ B) (hint : A.kind ≠ .int ∨ B.kind ≠ .int) :
    classifyTypeChange from_ to_ =
      verdictOf false (reading (normal from_)) (reading (normal to_)) := by
  refine classify_texts A B from_ to_ hfrom hto ?_ hint
  rintro rfl
  exact hne (spells_unique A B from_ hfrom hto)

theorem classify_of_reads (hne : A ≠ B) (hint : A.kind ≠ .int ∨ B.kind ≠ .int)
    (v : OnlineSafetyClassification)
    (hv : ∀ a b, Reads A a → Reads B b → verdictOf false a b = v) :
    classifyTypeChange from_ to_ = v := by
  rw [classify_types A B from_ to_ hfrom hto hne hint]
  exact hv _ _ (body_reads A _ (body_of_spells A from_ hfrom))
    (body_reads B _ (body_of_spells B to_ hto))

/-- No parser compares a string with a number. -/
theorem mixed_staged (hmixed : isString A ≠ isString B) :
    classifyTypeChange from_ to_ = .expandContract := by
  have hne : A ≠ B := by
    rintro rfl
    exact hmixed rfl
  have hint : A.kind ≠ .int ∨ B.kind ≠ .int := by
    by_contra hboth
    obtain ⟨hA, hB⟩ := not_or.mp hboth
    apply hmixed
    cases A <;> cases B <;> simp [SqlType.kind] at hA hB
    all_goals rfl
  refine classify_of_reads A B from_ to_ hfrom hto hne hint _ fun a b ha hb => ?_
  cases hA : isString A with
  | true =>
    have hB : isString B = false := by
      cases h : isString B
      · rfl
      · exact absurd (hA.trans h.symm) hmixed
    obtain ⟨hwidth, htypmod⟩ := reads_string A a hA ha
    obtain ⟨hchars, htext⟩ := reads_number B b hB hb
    simp [verdictOf, hwidth, htypmod, hchars, htext, sameKindLengths, narrowerWidth,
      narrowerTypmod]
  | false =>
    have hB : isString B = true := by
      cases h : isString B
      · exact absurd (hA.trans h.symm) hmixed
      · rfl
    obtain ⟨hchars, htext⟩ := reads_number A a hA ha
    obtain ⟨hwidth, htypmod⟩ := reads_string B b hB hb
    simp [verdictOf, hwidth, htypmod, hchars, htext, sameKindLengths, narrowerWidth,
      narrowerTypmod]

end Types

/-! ## The pairs with one verdict -/

theorem listedInts_width (f t : List Char) (h : listedInts f t = true) :
    narrowerWidth (canonicalIntWidth f) (canonicalIntWidth t) = false := by
  obtain ⟨p, hp, heq⟩ := List.any_eq_true.mp h
  obtain ⟨rfl, rfl⟩ := of_decide_eq_true heq
  have hall : ∀ p ∈ wideningInts,
      narrowerWidth (canonicalIntWidth p.1.toList) (canonicalIntWidth p.2.toList) = false := by
    decide
  exact hall p hp

/-- A narrower integer is refused under all names. -/
theorem int_refused (w w' : IntType) (from_ to_ : List Char) (hfrom : Spells (.int w) from_)
    (hto : Spells (.int w') to_) (h : w'.bits < w.bits) :
    classifyTypeChange from_ to_ = .offlineOnly := by
  have hdiff : from_ ≠ to_ := by
    rintro rfl
    cases spells_unique _ _ from_ hfrom hto
    exact lt_irrefl _ h
  have hf : reading (normal from_) = ⟨some w.bits, none, none, false⟩ :=
    body_reads _ _ (body_of_spells _ from_ hfrom)
  have ht : reading (normal to_) = ⟨some w'.bits, none, none, false⟩ :=
    body_reads _ _ (body_of_spells _ to_ hto)
  have hlisted : listedInts (normal from_) (normal to_) = false := by
    by_contra hlisted
    have hwidth := listedInts_width _ _ (by simpa using hlisted)
    rw [show canonicalIntWidth (normal from_) = some w.bits from congrArg Reading.width hf,
      show canonicalIntWidth (normal to_) = some w'.bits from congrArg Reading.width ht] at hwidth
    simp [narrowerWidth] at hwidth
    omega
  rw [classify_eq _ _ hdiff, hf, ht, hlisted]
  simp [verdictOf, sameKindLengths, narrowerWidth, h]

/-- Lengths that are written are compared under all names. -/
theorem char_char_verdict (n m : ℕ) (f g : List Char) (hf : Spells (.char n) f)
    (hg : Spells (.char m) g) (hn : 2 ≤ n) (hm : 2 ≤ m) :
    classifyTypeChange f g = if n ≤ m then .onlineSafe else .offlineOnly := by
  have hread (k : ℕ) (hk : 2 ≤ k) (text : List Char) (h : Spells (.char k) text) :
      reading (normal text) = ⟨none, some (.char, some k), none, false⟩ := by
    rcases body_reads _ _ (body_of_spells _ text h) with hr | ⟨hone, -⟩
    · exact hr
    · omega
  by_cases hsame : f = g
  · subst hsame
    cases spells_unique _ _ f hf hg
    rw [classify_self, if_pos le_rfl]
  · rw [classify_texts _ _ f g hf hg hsame (.inl (by simp [SqlType.kind])), hread n hn f hf,
      hread m hm g hg]
    by_cases hle : n ≤ m
    · simp [verdictOf, sameKindLengths, hle]
    · have hlt : m < n := by omega
      simp [verdictOf, sameKindLengths, hle, hlt]

/-- The verdict that all texts of two types share. -/
def verdictOn : SqlType → SqlType → Option OnlineSafetyClassification
  | .int w, .int w' => if w'.bits < w.bits then some .offlineOnly else none
  | .text, .char _ => some .offlineOnly
  | .char n, .char m =>
      if 2 ≤ n ∧ 2 ≤ m then some (if n ≤ m then .onlineSafe else .offlineOnly) else none
  | .char _, .text => some .onlineSafe
  | .numeric none, .numeric (some (_, s)) => some (if 0 ≤ s then .offlineOnly else .expandContract)
  | .numeric (some (p, s)), .numeric (some (p', s')) =>
      if (p, s) = (p', s') then none
      else some (if 0 ≤ s ∧ 0 ≤ s' ∧
          typmodNarrows (.bounded p s.toNat) (.bounded p' s'.toNat) = true then .offlineOnly
        else .expandContract)
  | .text, .text | .text, .varchar _ | .varchar _, .text | .varchar none, .varchar none
  | .varchar (some _), .varchar (some _) | .numeric none, .numeric none => none
  | _, _ => some .expandContract

theorem numeric_steady (params params' : Option (ℕ × ℤ)) (from_ to_ : List Char)
    (hfrom : Spells (.numeric params) from_) (hto : Spells (.numeric params') to_)
    (v : OnlineSafetyClassification)
    (h : verdictOn (.numeric params) (.numeric params') = some v) :
    classifyTypeChange from_ to_ = v := by
  have hint : (SqlType.numeric params).kind ≠ .int := by simp [SqlType.kind]
  cases params with
  | none =>
    cases params' with
    | none => cases h
    | some ps =>
      refine classify_of_reads _ _ from_ to_ hfrom hto (by simp) (.inl hint) v ?_
      obtain rfl := Option.some.inj h
      rintro a b rfl (⟨hs, rfl⟩ | ⟨hs, rfl⟩)
      · rw [if_pos hs]
        rfl
      · rw [if_neg (by omega)]
        rfl
  | some ps =>
    cases params' with
    | none =>
      refine classify_of_reads _ _ from_ to_ hfrom hto (by simp) (.inl hint) v ?_
      obtain rfl := Option.some.inj h
      rintro a b (⟨-, rfl⟩ | ⟨-, rfl⟩) rfl <;> rfl
    | some ps' =>
      change (if ps = ps' then none else _) = some v at h
      split_ifs at h with hsame hnarrow
      · obtain rfl := Option.some.inj h
        refine classify_of_reads _ _ from_ to_ hfrom hto (by simpa using hsame) (.inl hint) _ ?_
        rintro a b (⟨-, rfl⟩ | ⟨hneg, -⟩) (⟨-, rfl⟩ | ⟨hneg', -⟩)
        · simp [verdictOf, sameKindLengths, narrowerWidth, narrowerTypmod, hnarrow.2.2]
        all_goals omega
      · obtain rfl := Option.some.inj h
        refine classify_of_reads _ _ from_ to_ hfrom hto (by simpa using hsame) (.inl hint) _ ?_
        rintro a b (⟨hs, rfl⟩ | ⟨-, rfl⟩) (⟨hs', rfl⟩ | ⟨-, rfl⟩)
        · have hwide : typmodNarrows (.bounded ps.1 ps.2.toNat) (.bounded ps'.1 ps'.2.toNat) =
              false := by
            simpa [hs, hs'] using hnarrow
          simp [verdictOf, sameKindLengths, narrowerWidth, narrowerTypmod, hwide]
        all_goals rfl

theorem verdictOn_mixed (A B : SqlType) (hmixed : isString A ≠ isString B) :
    verdictOn A B = some .expandContract := by
  have hstring (params : Option (ℕ × ℤ)) (n : Option ℕ) :
      verdictOn (.numeric params) (.varchar n) = some .expandContract ∧
        verdictOn (.varchar n) (.numeric params) = some .expandContract := by
    cases params <;> cases n <;> exact ⟨rfl, rfl⟩
  have hnumeric (params : Option (ℕ × ℤ)) (n : ℕ) :
      verdictOn (.numeric params) .text = some .expandContract ∧
        verdictOn (.numeric params) (.char n) = some .expandContract := by
    cases params <;> exact ⟨rfl, rfl⟩
  have hvarchar (n : Option ℕ) (w : IntType) :
      verdictOn (.varchar n) (.int w) = some .expandContract := by
    cases n <;> rfl
  cases A with
  | int w =>
    cases B with
    | int w' => exact absurd rfl hmixed
    | numeric params => exact absurd rfl hmixed
    | _ => rfl
  | numeric params =>
    cases B with
    | int w => exact absurd rfl hmixed
    | numeric params' => exact absurd rfl hmixed
    | varchar n => exact (hstring params n).1
    | char n => exact (hnumeric params n).2
    | text => exact (hnumeric params 1).1
  | varchar n =>
    cases B with
    | int w => exact hvarchar n w
    | numeric params => exact (hstring params n).2
    | _ => exact absurd rfl hmixed
  | char n =>
    cases B with
    | int w => rfl
    | numeric params => rfl
    | _ => exact absurd rfl hmixed
  | text =>
    cases B with
    | int w => rfl
    | numeric params => rfl
    | _ => exact absurd rfl hmixed

/-- **One verdict.** All texts of such a pair get the verdict of the table. -/
theorem verdict_steady (A B : SqlType) (from_ to_ : List Char) (hfrom : Spells A from_)
    (hto : Spells B to_) (v : OnlineSafetyClassification) (h : verdictOn A B = some v) :
    classifyTypeChange from_ to_ = v := by
  by_cases hmixed : isString A = isString B
  · cases A with
    | int w =>
      cases B with
      | int w' =>
        change (if _ then _ else none) = some v at h
        split_ifs at h with hlt
        rw [int_refused w w' from_ to_ hfrom hto hlt, Option.some.inj h]
      | numeric params =>
        obtain rfl : v = .expandContract := by cases params <;> exact (Option.some.inj h).symm
        refine classify_of_reads _ _ from_ to_ hfrom hto (by simp)
          (.inr (by simp [SqlType.kind])) _ ?_
        rintro a b rfl hb
        cases params with
        | none => cases hb; rfl
        | some ps => rcases hb with ⟨-, rfl⟩ | ⟨-, rfl⟩ <;> rfl
      | _ => cases hmixed
    | numeric params =>
      cases B with
      | int w =>
        obtain rfl : v = .expandContract := by cases params <;> exact (Option.some.inj h).symm
        refine classify_of_reads _ _ from_ to_ hfrom hto (by simp)
          (.inl (by simp [SqlType.kind])) _ ?_
        rintro a b ha rfl
        cases params with
        | none => cases ha; rfl
        | some ps => rcases ha with ⟨-, rfl⟩ | ⟨-, rfl⟩ <;> rfl
      | numeric params' => exact numeric_steady params params' from_ to_ hfrom hto v h
      | _ => cases hmixed
    | text =>
      cases B with
      | char n =>
        obtain rfl := Option.some.inj h
        refine classify_of_reads _ _ from_ to_ hfrom hto (by simp)
          (.inl (by simp [SqlType.kind])) _ ?_
        rintro a b rfl (rfl | ⟨-, rfl⟩) <;> rfl
      | text => cases h
      | varchar n => cases h
      | _ => cases hmixed
    | varchar n =>
      cases B with
      | char m =>
        obtain rfl : v = .expandContract := by cases n <;> exact (Option.some.inj h).symm
        refine classify_of_reads _ _ from_ to_ hfrom hto (by simp)
          (.inl (by simp [SqlType.kind])) _ ?_
        rintro a b (rfl | rfl) (rfl | ⟨-, rfl⟩) <;> cases n <;> rfl
      | varchar m =>
        obtain ⟨hdiff, rfl⟩ : n.isSome ≠ m.isSome ∧ v = .expandContract := by
          cases n <;> cases m <;> cases h <;> exact ⟨by simp, rfl⟩
        have hne : SqlType.varchar n ≠ .varchar m := by
          rintro heq
          cases heq
          exact hdiff rfl
        refine classify_of_reads _ _ from_ to_ hfrom hto hne (.inl (by simp [SqlType.kind])) _ ?_
        rintro a b (rfl | rfl) (rfl | rfl) <;> cases n <;> cases m <;> first
          | rfl
          | exact absurd rfl hdiff
      | text => cases n <;> cases h
      | _ => cases hmixed
    | char n =>
      cases B with
      | char m =>
        change (if _ then _ else none) = some v at h
        split_ifs at h with hboth
        all_goals
          rw [char_char_verdict n m from_ to_ hfrom hto hboth.1 hboth.2]
          rename_i hle
          simp only [hle, if_true, if_false]
          exact Option.some.inj h
      | varchar m =>
        obtain rfl : v = .expandContract := by cases m <;> exact (Option.some.inj h).symm
        refine classify_of_reads _ _ from_ to_ hfrom hto (by simp)
          (.inl (by simp [SqlType.kind])) _ ?_
        rintro a b (rfl | ⟨-, rfl⟩) (rfl | rfl) <;> cases m <;> rfl
      | text =>
        obtain rfl := Option.some.inj h
        refine classify_of_reads _ _ from_ to_ hfrom hto (by simp)
          (.inl (by simp [SqlType.kind])) _ ?_
        rintro a b (rfl | ⟨-, rfl⟩) rfl <;> rfl
      | _ => cases hmixed
  · rw [mixed_staged A B from_ to_ hfrom hto hmixed]
    exact Option.some.inj ((verdictOn_mixed A B hmixed).symm.trans h)

/-! ## What a verdict keeps -/

section Kept

variable (A B : SqlType) (from_ to_ : List Char) (hfrom : Spells A from_) (hto : Spells B to_)

include hfrom hto

theorem kept_of_verdict (v : OnlineSafetyClassification) (hv : verdictOn A B = some v) :
    VerdictKept A B from_ to_ ↔
      (Lossy A B → v = .offlineOnly) ∧ (v = .onlineSafe → A = B ∨ Widens A B) := by
  have hhere := verdict_steady A B from_ to_ hfrom hto v hv
  constructor
  · intro h
    exact ⟨fun hlossy => hhere ▸ h.refused hlossy, fun hsafe => h.safe (hhere.trans hsafe)⟩
  · rintro ⟨hrefused, hsafe⟩
    refine ⟨fun hlossy => hhere.trans (hrefused hlossy),
      fun hs => hsafe (hhere.symm.trans hs), ?_⟩
    intro from' to' hfrom' hto'
    rw [verdict_steady A B from' to' hfrom' hto' v hv, hhere]

/-- Staged under all names: then nothing may be lost. -/
theorem kept_staged (hv : verdictOn A B = some .expandContract) :
    VerdictKept A B from_ to_ ↔ ¬Lossy A B := by
  rw [kept_of_verdict A B from_ to_ hfrom hto _ hv]
  simp

theorem kept_refused (hv : verdictOn A B = some .offlineOnly) : VerdictKept A B from_ to_ := by
  rw [kept_of_verdict A B from_ to_ hfrom hto _ hv]
  simp

theorem mixed_kept_iff (hmixed : isString A ≠ isString B) :
    VerdictKept A B from_ to_ ↔ ¬Lossy A B :=
  kept_staged A B from_ to_ hfrom hto (verdictOn_mixed A B hmixed)

/-- A string goes into no number type, and no parser refuses it. -/
theorem string_number_not_kept (hA : fitsString A ['x']) (hB : isString B = false) :
    ¬VerdictKept A B from_ to_ := by
  have hstring : isString A = true := by
    cases A <;> simp [fitsString, isString] at hA ⊢
  rw [mixed_kept_iff A B from_ to_ hfrom hto (by rw [hstring, hB]; simp)]
  exact not_not.mpr (string_to_number A B hA hB)

end Kept

theorem not_kept_of_aliases (A B : SqlType) (from_ to_ f g f' g' : List Char)
    (hf : Spells A f) (hg : Spells B g) (hf' : Spells A f') (hg' : Spells B g')
    (hdiff : classifyTypeChange f g ≠ classifyTypeChange f' g') :
    ¬VerdictKept A B from_ to_ := by
  intro h
  exact hdiff ((h.aliases f g hf hg).trans (h.aliases f' g' hf' hg').symm)

/-- A type against itself: one text is safe, two texts need the widening test. -/
theorem not_kept_self (A : SqlType) (from_ to_ : List Char) (hfrom : Spells A from_)
    (hv : ∀ r, Reads A r → verdictOf false r r ≠ .onlineSafe) :
    ¬VerdictKept A A from_ to_ := by
  obtain ⟨hpad, hnormal⟩ := spells_padded A from_ hfrom
  refine not_kept_of_aliases A A from_ to_ from_ from_ from_ (' ' :: from_) hfrom hfrom
    hfrom hpad ?_
  have hne : from_ ≠ ' ' :: from_ := fun h => by simpa using congrArg List.length h
  rw [classify_self, classify_eq _ _ hne, hnormal, listedInts_self]
  exact (hv _ (body_reads A _ (body_of_spells A from_ hfrom))).symm

/-! ## Other texts of a type -/

theorem toLower_of_lt (c : Char) (h : c.toNat < 65) : c.toLower = c := by
  unfold Char.toLower
  rw [dif_neg]
  rintro ⟨hlow, -⟩
  have hlow' : 65 ≤ c.toNat := hlow
  omega

theorem length_lower (n : ℕ) (t : List Char) (h : Length n t) : t.map Char.toLower = t := by
  obtain ⟨-, -, digits, inner, hdigits, ⟨before, after, hbefore, hafter, rfl⟩, gap, hgap, rfl⟩ := h
  have hblank (s : List Char) (hs : Blanks s) : s.map Char.toLower = s := by
    refine (List.map_congr_left fun c hc => ?_).trans (List.map_id s)
    have hc' := hs c hc
    simp only [Postgres.isBlank, List.contains_iff_mem, List.mem_cons, List.not_mem_nil,
      or_false] at hc'
    rcases hc' with rfl | rfl | rfl | rfl | rfl | rfl <;> rfl
  have hdigit : digits.map Char.toLower = digits := by
    refine (List.map_congr_left fun c hc => ?_).trans (List.map_id digits)
    have hc' := hdigits.2.1 c hc
    unfold Char.isDigit at hc'
    simp only [Bool.and_eq_true, decide_eq_true_eq, ge_iff_le, UInt32.le_iff_toNat_le] at hc'
    change 48 ≤ c.toNat ∧ c.toNat ≤ 57 at hc'
    exact toLower_of_lt c (by omega)
  simp only [List.map_append, List.map_cons, hblank _ hgap, hblank _ hbefore, hblank _ hafter,
    hdigit]
  rfl

theorem spells_body (A : SqlType) (t : List Char) (h : Body A t) (hlower : t.map Char.toLower = t) :
    Spells A t ∧ normal t = t := by
  refine ⟨⟨[], t, [], by simp [Blanks], by simp [Blanks], h, by simp [hlower]⟩, ?_⟩
  rw [normal, trimmed_body A t h]
  exact hlower

/-- The gap that no parser reads. -/
def wideName : List Char := "character".toList ++ [' ', ' '] ++ "varying".toList

theorem wideName_varchar : VarcharName wideName :=
  .inr ⟨[' ', ' '], by simp, by intro c hc; simp at hc; rw [hc]; rfl, rfl⟩

/-- A text of `varchar` that is read, and one that is not. -/
theorem varchar_texts (n : Option ℕ) (text : List Char) (h : Spells (.varchar n) text) :
    ∃ read unread, Spells (.varchar n) read ∧ Spells (.varchar n) unread ∧
      reading (normal read) = ⟨none, some (.varchar, n), none, false⟩ ∧
      reading (normal unread) = ⟨none, none, none, false⟩ := by
  have hbody := body_of_spells _ text h
  have hrest : ∃ rest, (∀ name, VarcharName name → Body (.varchar n) (name ++ rest)) ∧
      rest.map Char.toLower = rest ∧ lengthIn .varchar rest = some (.varchar, n) := by
    generalize toAsciiLowercase (trimChars text) = t at hbody
    cases hbody with
    | varchar _ _ =>
      refine ⟨[], fun name hname => ?_, rfl, rfl⟩
      rw [List.append_nil]
      exact .varchar name hname
    | varcharLength _ rest n _ hlength =>
      exact ⟨rest, fun name hname => .varcharLength name rest n hname hlength,
        length_lower n rest hlength, lengthIn_length .varchar n rest hlength⟩
  obtain ⟨rest, hname, hlower, hlength⟩ := hrest
  have hread := hname "varchar".toList (.inl rfl)
  have hunread := hname wideName wideName_varchar
  obtain ⟨hspells, hnormal⟩ := spells_body _ _ hread (by rw [List.map_append, hlower]; rfl)
  obtain ⟨hspells', hnormal'⟩ := spells_body _ _ hunread (by rw [List.map_append, hlower]; rfl)
  refine ⟨_, _, hspells, hspells', ?_, ?_⟩
  · rw [hnormal]
    have hchars := parseVarchar_eq _ (trimmed_body _ _ hread) _ _ (charKind_varchar rest)
    rcases body_reads _ _ hread with hr | hr
    · exact hr
    · have hnone := congrArg Reading.chars hr
      rw [show (reading _).chars = _ from hchars, hlength] at hnone
      cases hnone
  · rw [hnormal']
    have hchars : parseVarchar (wideName ++ rest) = none := parseVarchar_gap [' ', ' '] rest
      (by intro c hc; simp at hc; rw [hc]; rfl) (by simp) (by simp) (trimmed_body _ _ hunread)
    rcases body_reads _ _ hunread with hr | hr
    · have hsome := congrArg Reading.chars hr
      rw [show (reading _).chars = _ from hchars] at hsome
      cases hsome
    · exact hr

/-! ## Which verdicts are kept -/

/-- **The pairs** whose verdict refuses what is lossy and is the same under all names. -/
def Clear : SqlType → SqlType → Prop
  | .int w, .int w' => w'.bits < w.bits
  | .int w, .numeric (some (p, s)) => 0 ≤ s ∧ 2 ^ (w.bits - 1) * 10 ^ s.toNat < 10 ^ p
  | .int w, .varchar (some n) | .int w, .char n => w.textWidth ≤ n
  | .text, .char _ | .char _, .text => True
  | .char n, .char m => 2 ≤ n ∧ 2 ≤ m
  | .char n, .varchar (some m) => n ≤ m
  | .numeric none, .numeric (some (_, s)) => 0 ≤ s
  | .numeric (some (p, s)), .numeric (some (p', s')) =>
      (p, s) ≠ (p', s') ∧
        ((0 ≤ s ∧ 0 ≤ s' ∧ typmodNarrows (.bounded p s.toNat) (.bounded p' s'.toNat) = true) ∨
          (s ≤ s' ∧ p + (s' - s).toNat ≤ p'))
  | .numeric (some (p, s)), .varchar (some n) | .numeric (some (p, s)), .char n =>
      numericWidth p s ≤ n
  | .int _, .numeric none | .int _, .text | .int _, .varchar none | .char _, .varchar none
  | .varchar (some _), .varchar none | .numeric (some _), .numeric none
  | .numeric _, .text | .numeric _, .varchar none => True
  | _, _ => False

theorem spells_length_pos (n : ℕ) (text : List Char)
    (h : Spells (.varchar (some n)) text ∨ Spells (.char n) text) : 1 ≤ n := by
  rcases h with h | h
  · have hbody := body_of_spells _ text h
    generalize toAsciiLowercase (trimChars text) = t at hbody
    cases hbody with
    | varcharLength _ _ _ _ hlength => exact hlength.1
  · have hbody := body_of_spells _ text h
    generalize toAsciiLowercase (trimChars text) = t at hbody
    cases hbody with
    | char _ _ => exact le_rfl
    | charLength _ _ _ _ hlength => exact hlength.1

theorem spells_precision_pos (p : ℕ) (s : ℤ) (text : List Char)
    (h : Spells (.numeric (some (p, s))) text) : 1 ≤ p := by
  have hbody := body_of_spells _ text h
  generalize toAsciiLowercase (trimChars text) = t at hbody
  cases hbody with
  | precision _ _ _ _ _ hp _ => exact hp.1
  | scale _ _ _ _ _ _ _ hp _ _ => exact hp.1

theorem spells_int (w : IntType) (name : String) (h : name ∈ intNames w) :
    Spells (.int w) name.toList := by
  have hall : ∀ w, ∀ name ∈ intNames w, name.toList.map Char.toLower = name.toList := by
    intro w
    cases w <;> decide
  exact (spells_body _ _ (.int w name h) (hall w name h)).1

/-- A wider integer is safe under some names only. -/
theorem int_widening_not_kept (w w' : IntType) (from_ to_ : List Char)
    (h : w.bits < w'.bits) : ¬VerdictKept (.int w) (.int w') from_ to_ := by
  have hnames : ∃ f g g', f ∈ intNames w ∧ g ∈ intNames w' ∧ g' ∈ intNames w' ∧
      classifyTypeChange f.toList g.toList ≠ classifyTypeChange f.toList g'.toList := by
    cases w <;> cases w' <;> simp only [IntType.bits] at h
    all_goals try omega
    · exact ⟨"smallint", "integer", "int", by decide, by decide, by decide, by decide +kernel⟩
    · exact ⟨"smallint", "bigint", "int8", by decide, by decide, by decide, by decide +kernel⟩
    · exact ⟨"integer", "bigint", "int8", by decide, by decide, by decide, by decide +kernel⟩
  obtain ⟨f, g, g', hf, hg, hg', hdiff⟩ := hnames
  exact not_kept_of_aliases _ _ from_ to_ _ _ _ _ (spells_int w f hf) (spells_int w' g hg)
    (spells_int w f hf) (spells_int w' g' hg') hdiff

theorem int_int_kept_iff (w w' : IntType) (from_ to_ : List Char)
    (hfrom : Spells (.int w) from_) (hto : Spells (.int w') to_) :
    VerdictKept (.int w) (.int w') from_ to_ ↔ w'.bits < w.bits := by
  constructor
  · intro hkept
    by_contra hnot
    rcases Nat.lt_or_ge w.bits w'.bits with hlt | hge
    · exact int_widening_not_kept w w' from_ to_ hlt hkept
    · have hsame : w = w' := by
        revert hnot hge
        cases w <;> cases w' <;> simp [IntType.bits]
      subst hsame
      refine not_kept_self (.int w) from_ to_ hfrom ?_ hkept
      rintro r rfl
      simp [verdictOf, sameKindLengths, narrowerWidth, narrowerTypmod]
  · intro h
    exact kept_refused _ _ from_ to_ hfrom hto (if_pos h)

theorem int_kept_iff (w : IntType) (B : SqlType) (from_ to_ : List Char)
    (hfrom : Spells (.int w) from_) (hto : Spells B to_) :
    VerdictKept (.int w) B from_ to_ ↔ Clear (.int w) B := by
  cases B with
  | int w' => exact int_int_kept_iff w w' from_ to_ hfrom hto
  | varchar n =>
    rw [mixed_kept_iff _ _ from_ to_ hfrom hto (by simp [isString])]
    cases n with
    | none => exact iff_of_true (not_lossy_unbounded _ _ (.inr rfl)) trivial
    | some n => rw [int_to_string w _ n (.inl rfl), not_lt]; rfl
  | char n =>
    rw [mixed_kept_iff _ _ from_ to_ hfrom hto (by simp [isString]),
      int_to_string w _ n (.inr rfl), not_lt]
    rfl
  | text =>
    rw [mixed_kept_iff _ _ from_ to_ hfrom hto (by simp [isString])]
    exact iff_of_true (not_lossy_unbounded _ _ (.inl rfl)) trivial
  | numeric params =>
    have hv : verdictOn (.int w) (.numeric params) = some .expandContract := by
      cases params <;> rfl
    rw [kept_staged _ _ from_ to_ hfrom hto hv]
    cases params with
    | none => exact iff_of_true (numeric_to_unbounded _ rfl) trivial
    | some ps => rw [int_to_numeric w ps.1 ps.2, not_not]; rfl

/-- A type read in one text and not in another gets two verdicts. -/
theorem text_varchar_not_kept (n : Option ℕ) (from_ to_ : List Char)
    (hfrom : Spells .text from_) (hto : Spells (.varchar n) to_) :
    ¬VerdictKept .text (.varchar n) from_ to_ := by
  obtain ⟨read, unread, hread, hunread, hr, hu⟩ := varchar_texts n to_ hto
  refine not_kept_of_aliases _ _ from_ to_ from_ read from_ unread hfrom hread hfrom hunread ?_
  have hfrom' : reading (normal from_) = ⟨none, none, none, true⟩ :=
    body_reads _ _ (body_of_spells _ from_ hfrom)
  rw [classify_types _ _ from_ read hfrom hread (by simp) (.inl (by simp [SqlType.kind])),
    classify_types _ _ from_ unread hfrom hunread (by simp) (.inl (by simp [SqlType.kind])),
    hr, hu, hfrom']
  simp [verdictOf, sameKindLengths, narrowerWidth, narrowerTypmod]

theorem text_kept_iff (B : SqlType) (from_ to_ : List Char)
    (hfrom : Spells .text from_) (hto : Spells B to_) :
    VerdictKept .text B from_ to_ ↔ Clear .text B := by
  cases B with
  | int w => exact iff_of_false (string_number_not_kept _ _ from_ to_ hfrom hto trivial rfl) id
  | varchar n =>
    exact iff_of_false (text_varchar_not_kept n from_ to_ hfrom hto) id
  | char n => exact iff_of_true (kept_refused _ _ from_ to_ hfrom hto rfl) trivial
  | text =>
    refine iff_of_false (not_kept_self .text from_ to_ hfrom ?_) id
    rintro r rfl
    simp [verdictOf, sameKindLengths, narrowerWidth, narrowerTypmod]
  | numeric params =>
    exact iff_of_false (string_number_not_kept _ _ from_ to_ hfrom hto trivial rfl) id

/-- Two bounded lengths are compared when both texts are read. -/
theorem varchar_varchar_not_kept (n m : ℕ) (from_ to_ : List Char)
    (hfrom : Spells (.varchar (some n)) from_) (hto : Spells (.varchar (some m)) to_) :
    ¬VerdictKept (.varchar (some n)) (.varchar (some m)) from_ to_ := by
  by_cases hsame : n = m
  · subst hsame
    obtain ⟨read, unread, hread, hunread, hr, hu⟩ := varchar_texts _ from_ hfrom
    obtain ⟨hpad, hnormal⟩ := spells_padded _ unread hunread
    refine not_kept_of_aliases _ _ from_ to_ unread unread unread (' ' :: unread) hunread hunread
      hunread hpad ?_
    have hne : unread ≠ ' ' :: unread := fun h => by simpa using congrArg List.length h
    rw [classify_self, classify_eq _ _ hne, hnormal, listedInts_self, hu]
    simp [verdictOf, sameKindLengths, narrowerWidth, narrowerTypmod]
  · obtain ⟨read, unread, hread, hunread, hr, hu⟩ := varchar_texts _ from_ hfrom
    obtain ⟨target, -, htarget, -, ht, -⟩ := varchar_texts _ to_ hto
    refine not_kept_of_aliases _ _ from_ to_ read target unread target hread htarget hunread
      htarget ?_
    have hne : SqlType.varchar (some n) ≠ .varchar (some m) := by simpa using hsame
    rw [classify_types _ _ read target hread htarget hne (.inl (by simp [SqlType.kind])),
      classify_types _ _ unread target hunread htarget hne (.inl (by simp [SqlType.kind])),
      hr, hu, ht]
    by_cases hle : n ≤ m <;>
      simp [verdictOf, sameKindLengths, narrowerWidth, narrowerTypmod, hle]

theorem varchar_kept_iff (n : Option ℕ) (B : SqlType) (from_ to_ : List Char)
    (hfrom : Spells (.varchar n) from_) (hto : Spells B to_) :
    VerdictKept (.varchar n) B from_ to_ ↔ Clear (.varchar n) B := by
  have hone : fitsString (.varchar n) ['x'] ∧ fitsString (.varchar n) [' '] := by
    cases n with
    | none => exact ⟨trivial, trivial⟩
    | some n =>
      have hpos := spells_length_pos n from_ (.inl hfrom)
      exact ⟨hpos, hpos⟩
  cases B with
  | int w =>
    refine iff_of_false (string_number_not_kept _ _ from_ to_ hfrom hto hone.1 rfl) ?_
    cases n <;> exact id
  | numeric params =>
    refine iff_of_false (string_number_not_kept _ _ from_ to_ hfrom hto hone.1 rfl) ?_
    cases n <;> exact id
  | varchar m =>
    cases n with
    | none =>
      cases m with
      | none =>
        refine iff_of_false (not_kept_self _ from_ to_ hfrom ?_) id
        rintro r (rfl | rfl) <;>
          simp [verdictOf, sameKindLengths, narrowerWidth, narrowerTypmod]
      | some m =>
        rw [kept_staged _ _ from_ to_ hfrom hto rfl]
        exact iff_of_false (not_not.mpr (varchar_to_shorter m)) id
    | some n =>
      cases m with
      | none =>
        rw [kept_staged _ _ from_ to_ hfrom hto rfl]
        exact iff_of_true (not_lossy_unbounded _ _ (.inr rfl)) trivial
      | some m => exact iff_of_false (varchar_varchar_not_kept n m from_ to_ hfrom hto) id
  | char m =>
    rw [kept_staged _ _ from_ to_ hfrom hto (by cases n <;> rfl)]
    refine iff_of_false (not_not.mpr (string_to_char _ m rfl hone.2)) ?_
    cases n <;> exact id
  | text =>
    obtain ⟨read, unread, hread, hunread, hr, hu⟩ := varchar_texts n from_ hfrom
    refine iff_of_false (not_kept_of_aliases _ _ from_ to_ read to_ unread to_ hread hto hunread
      hto ?_) ?_
    · have hto' : reading (normal to_) = ⟨none, none, none, true⟩ :=
        body_reads _ _ (body_of_spells _ to_ hto)
      rw [classify_types _ _ read to_ hread hto (by simp) (.inl (by simp [SqlType.kind])),
        classify_types _ _ unread to_ hunread hto (by simp) (.inl (by simp [SqlType.kind])),
        hr, hu, hto']
      simp [verdictOf, sameKindLengths, narrowerWidth, narrowerTypmod]
    · cases n <;> exact id

theorem spells_char : Spells (.char 1) "char".toList ∧ Spells (.char 1) "character".toList ∧
    Spells (.char 1) "char(1)".toList := by
  refine ⟨(spells_body _ _ (.char _ (.inl rfl)) (by decide)).1,
    (spells_body _ _ (.char _ (.inr rfl)) (by decide)).1, ?_⟩
  have hlength : Length 1 "(1)".toList :=
    ⟨le_rfl, by omega, ['1'], ['1'], ⟨by simp, by simp, rfl⟩, padded_self _, [], by simp [Blanks],
      rfl⟩
  exact (spells_body _ _ (.charLength "char".toList "(1)".toList 1 (.inl rfl) hlength)
    (by decide)).1

/-- Without its length the type of length one is not compared. -/
theorem char_one_not_kept (n m : ℕ) (from_ to_ : List Char) (hfrom : Spells (.char n) from_)
    (hto : Spells (.char m) to_) (hone : n = 1 ∨ m = 1) :
    ¬VerdictKept (.char n) (.char m) from_ to_ := by
  obtain ⟨hshort, hlong, hwritten⟩ := spells_char
  have hread (k : ℕ) (text : List Char) (hk : k ≠ 1) (h : Spells (.char k) text) :
      reading (normal text) = ⟨none, some (.char, some k), none, false⟩ := by
    rcases body_reads _ _ (body_of_spells _ text h) with hr | ⟨hone, -⟩
    · exact hr
    · exact absurd hone hk
  have hbare : reading (normal "char".toList) = ⟨none, some (.char, none), none, false⟩ := by
    decide +kernel
  have hfull : reading (normal "char(1)".toList) =
      ⟨none, some (.char, some 1), none, false⟩ := by decide +kernel
  have hint : (SqlType.char n).kind ≠ .int := by simp [SqlType.kind]
  by_cases hn : n = 1
  · subst hn
    by_cases hm : m = 1
    · subst hm
      exact not_kept_of_aliases _ _ from_ to_ _ _ _ _ hshort hshort hshort hlong
        (by decide +kernel)
    · have hpos := spells_length_pos m to_ (.inr hto)
      have hne : SqlType.char 1 ≠ .char m := by simpa using Ne.symm hm
      refine not_kept_of_aliases _ _ from_ to_ _ _ _ _ hshort hto hwritten hto ?_
      rw [classify_types _ _ _ to_ hshort hto hne (.inl hint),
        classify_types _ _ _ to_ hwritten hto hne (.inl hint), hbare, hfull, hread m to_ hm hto]
      simp [verdictOf, sameKindLengths, narrowerWidth, narrowerTypmod, hpos]
  · obtain rfl : m = 1 := hone.resolve_left hn
    have hpos := spells_length_pos n from_ (.inr hfrom)
    have hne : SqlType.char n ≠ .char 1 := by simpa using hn
    refine not_kept_of_aliases _ _ from_ to_ _ _ _ _ hfrom hshort hfrom hwritten ?_
    rw [classify_types _ _ from_ _ hfrom hshort hne (.inl hint),
      classify_types _ _ from_ _ hfrom hwritten hne (.inl hint), hbare, hfull,
      hread n from_ hn hfrom]
    have hgt : ¬n ≤ 1 ∧ 1 < n := by omega
    simp [verdictOf, sameKindLengths, narrowerWidth, narrowerTypmod, hgt]

theorem char_kept_iff (n : ℕ) (B : SqlType) (from_ to_ : List Char)
    (hfrom : Spells (.char n) from_) (hto : Spells B to_) :
    VerdictKept (.char n) B from_ to_ ↔ Clear (.char n) B := by
  have hn := spells_length_pos n from_ (.inr hfrom)
  cases B with
  | int w =>
    exact iff_of_false (string_number_not_kept _ _ from_ to_ hfrom hto ⟨hn, by decide⟩ rfl) id
  | numeric params =>
    exact iff_of_false (string_number_not_kept _ _ from_ to_ hfrom hto ⟨hn, by decide⟩ rfl) id
  | varchar m =>
    rw [kept_staged _ _ from_ to_ hfrom hto (by cases m <;> rfl)]
    cases m with
    | none => exact iff_of_true (not_lossy_unbounded _ _ (.inr rfl)) trivial
    | some m => rw [char_to_varchar, not_lt]; rfl
  | char m =>
    by_cases hboth : 2 ≤ n ∧ 2 ≤ m
    · refine iff_of_true ?_ hboth
      rw [kept_of_verdict _ _ from_ to_ hfrom hto _ (if_pos hboth)]
      by_cases hle : n ≤ m
      · rw [if_pos hle]
        exact ⟨fun hlossy => absurd hlossy (char_to_char n m hle), fun _ => .inr hle⟩
      · rw [if_neg hle]
        simp
    · have hm := spells_length_pos m to_ (.inr hto)
      exact iff_of_false (char_one_not_kept n m from_ to_ hfrom hto (by omega)) hboth
  | text =>
    rw [kept_of_verdict _ _ from_ to_ hfrom hto .onlineSafe rfl]
    refine iff_of_true ⟨fun hlossy => ?_, fun _ => .inr trivial⟩ trivial
    exact absurd hlossy (not_lossy_unbounded _ _ (.inl rfl))

/-- Two decimals with their parameters. -/
theorem numeric_numeric_kept_iff (p p' : ℕ) (s s' : ℤ) (from_ to_ : List Char)
    (hfrom : Spells (.numeric (some (p, s))) from_) (hto : Spells (.numeric (some (p', s'))) to_) :
    VerdictKept (.numeric (some (p, s))) (.numeric (some (p', s'))) from_ to_ ↔
      Clear (.numeric (some (p, s))) (.numeric (some (p', s'))) := by
  by_cases hsame : (p, s) = (p', s')
  · cases hsame
    refine iff_of_false (not_kept_self _ from_ to_ hfrom ?_) fun h => h.1 rfl
    rintro r (⟨-, rfl⟩ | ⟨-, rfl⟩) <;>
      simp [verdictOf, sameKindLengths, narrowerWidth, narrowerTypmod, typmodNarrows]
  · have hlossy := numeric_to_numeric p s p' s' (spells_precision_pos p s from_ hfrom)
    have hv : verdictOn (.numeric (some (p, s))) (.numeric (some (p', s'))) =
        some (if 0 ≤ s ∧ 0 ≤ s' ∧
          typmodNarrows (.bounded p s.toNat) (.bounded p' s'.toNat) = true then .offlineOnly
        else .expandContract) := if_neg hsame
    by_cases hnarrow : 0 ≤ s ∧ 0 ≤ s' ∧
        typmodNarrows (.bounded p s.toNat) (.bounded p' s'.toNat) = true
    · rw [if_pos hnarrow] at hv
      exact iff_of_true (kept_refused _ _ from_ to_ hfrom hto hv) ⟨hsame, .inl hnarrow⟩
    · rw [if_neg hnarrow] at hv
      rw [kept_staged _ _ from_ to_ hfrom hto hv, hlossy, not_not]
      exact ⟨fun h => ⟨hsame, .inr h⟩, fun h => h.2.resolve_left hnarrow⟩

theorem numeric_kept_iff (params : Option (ℕ × ℤ)) (B : SqlType) (from_ to_ : List Char)
    (hfrom : Spells (.numeric params) from_) (hto : Spells B to_) :
    VerdictKept (.numeric params) B from_ to_ ↔ Clear (.numeric params) B := by
  cases B with
  | int w =>
    rw [kept_staged _ _ from_ to_ hfrom hto (by cases params <;> rfl)]
    refine iff_of_false (not_not.mpr (numeric_to_int params w)) ?_
    cases params <;> exact id
  | varchar n =>
    rw [mixed_kept_iff _ _ from_ to_ hfrom hto (by simp [isString])]
    cases n with
    | none =>
      refine iff_of_true (not_lossy_unbounded _ _ (.inr rfl)) ?_
      cases params <;> trivial
    | some n =>
      cases params with
      | none =>
        exact iff_of_false (not_not.mpr (unbounded_to_string _ n
          (spells_length_pos n to_ (.inl hto)) (.inl rfl))) id
      | some ps =>
        rw [numeric_to_string ps.1 ps.2 _ n (spells_precision_pos ps.1 ps.2 from_ hfrom)
          (.inl rfl), not_lt]
        rfl
  | char n =>
    rw [mixed_kept_iff _ _ from_ to_ hfrom hto (by simp [isString])]
    cases params with
    | none =>
      exact iff_of_false (not_not.mpr (unbounded_to_string _ n
        (spells_length_pos n to_ (.inr hto)) (.inr rfl))) id
    | some ps =>
      rw [numeric_to_string ps.1 ps.2 _ n (spells_precision_pos ps.1 ps.2 from_ hfrom)
        (.inr rfl), not_lt]
      rfl
  | text =>
    rw [mixed_kept_iff _ _ from_ to_ hfrom hto (by simp [isString])]
    refine iff_of_true (not_lossy_unbounded _ _ (.inl rfl)) ?_
    cases params <;> trivial
  | numeric params' =>
    cases params with
    | none =>
      cases params' with
      | none =>
        refine iff_of_false (not_kept_self _ from_ to_ hfrom ?_) id
        rintro r rfl
        simp [verdictOf, sameKindLengths, narrowerWidth, narrowerTypmod, typmodNarrows]
      | some ps =>
        by_cases hs : 0 ≤ ps.2
        · exact iff_of_true (kept_refused _ _ from_ to_ hfrom hto
            (congrArg some (if_pos hs))) hs
        · rw [kept_staged _ _ from_ to_ hfrom hto (congrArg some (if_neg hs))]
          exact iff_of_false (not_not.mpr (unbounded_to_numeric ps.1 ps.2)) hs
    | some ps =>
      cases params' with
      | none =>
        rw [kept_staged _ _ from_ to_ hfrom hto rfl]
        exact iff_of_true (numeric_to_unbounded _ rfl) trivial
      | some ps' =>
        exact numeric_numeric_kept_iff ps.1 ps'.1 ps.2 ps'.2 from_ to_ hfrom hto

/-- **Type changes.** A verdict on two texts refuses every change that loses a value, is safe only
for listed widenings, and is the same under all names, exactly for the pairs above. -/
theorem verdict_kept_iff (A B : SqlType) (from_ to_ : List Char) (hfrom : Spells A from_)
    (hto : Spells B to_) : VerdictKept A B from_ to_ ↔ Clear A B := by
  cases A with
  | int w => exact int_kept_iff w B from_ to_ hfrom hto
  | varchar n => exact varchar_kept_iff n B from_ to_ hfrom hto
  | char n => exact char_kept_iff n B from_ to_ hfrom hto
  | text => exact text_kept_iff B from_ to_ hfrom hto
  | numeric params => exact numeric_kept_iff params B from_ to_ hfrom hto

/-! ## What holds of every pair -/

theorem widens_not_lossy (A B : SqlType) (h : Widens A B) : ¬Lossy A B := by
  cases A with
  | int w =>
    cases B with
    | int w' => exact int_to_wider w w' h
    | _ => cases h
  | varchar n =>
    cases B with
    | varchar m =>
      cases n with
      | none => cases h
      | some n =>
        cases m with
        | none => cases h
        | some m => exact varchar_to_longer n m h
    | text => exact not_lossy_unbounded _ _ (.inl rfl)
    | _ => cases n <;> cases h
  | char n =>
    cases B with
    | char m => exact char_to_char n m h
    | text => exact not_lossy_unbounded _ _ (.inl rfl)
    | _ => cases h
  | text => cases B <;> cases h
  | numeric params => cases h

/-- The type of a text in which a length was read. -/
theorem reads_chars (A : SqlType) (a : Reading) (h : Reads A a) (kind : CharKind)
    (n : Option ℕ) (hchars : a.chars = some (kind, n)) :
    (kind = .varchar ∧ A = .varchar n) ∨ (kind = .char ∧ ∃ m, A = .char m ∧ ∀ k ∈ n, k = m) := by
  cases A with
  | varchar m =>
    rcases h with rfl | rfl
    · cases hchars
      exact .inl ⟨rfl, rfl⟩
    · cases hchars
  | char m =>
    rcases h with rfl | ⟨-, rfl⟩
    · cases hchars
      exact .inr ⟨rfl, m, rfl, by simp⟩
    · cases hchars
      exact .inr ⟨rfl, m, rfl, by simp⟩
  | int w => cases h; cases hchars
  | text => cases h; cases hchars
  | numeric params =>
    obtain ⟨hnone, -⟩ := reads_number _ a rfl h
    rw [hnone] at hchars
    cases hchars

theorem reads_text (B : SqlType) (b : Reading) (h : Reads B b) (htext : b.isText = true) :
    B = .text := by
  cases B with
  | text => rfl
  | varchar n => rcases h with rfl | rfl <;> cases htext
  | char n => rcases h with rfl | ⟨-, rfl⟩ <;> cases htext
  | _ =>
    obtain ⟨-, hfalse⟩ := reads_number _ b rfl h
    rw [hfalse] at htext
    cases htext

theorem listedInts_widens (A B : SqlType) (f t : List Char) (hA : Body A f) (hB : Body B t)
    (h : listedInts f t = true) : Widens A B := by
  obtain ⟨hf, ht⟩ := listedInts_kind f t h
  rw [body_kind A f hA] at hf
  rw [body_kind B t hB] at ht
  cases A <;> cases hf
  cases B <;> cases ht
  rename_i w w'
  have hwidth : canonicalIntWidth f = some w.bits := congrArg Reading.width (body_reads _ f hA)
  have hwidth' : canonicalIntWidth t = some w'.bits := congrArg Reading.width (body_reads _ t hB)
  obtain ⟨p, hp, heq⟩ := List.any_eq_true.mp h
  obtain ⟨rfl, rfl⟩ := of_decide_eq_true heq
  have hall : ∀ p ∈ wideningInts,
      ((canonicalIntWidth p.1.toList).any fun fw =>
        (canonicalIntWidth p.2.toList).any fun tw => fw < tw) = true := by
    decide
  have hlt := hall p hp
  rw [hwidth, hwidth'] at hlt
  change w.bits < w'.bits
  simpa using hlt

/-- **Safe** are identical types and listed widenings. -/
theorem safe_widens (A B : SqlType) (from_ to_ : List Char) (hfrom : Spells A from_)
    (hto : Spells B to_) (hsafe : classifyTypeChange from_ to_ = .onlineSafe) :
    A = B ∨ Widens A B := by
  by_cases hsame : from_ = to_
  · subst hsame
    exact .inl (spells_unique A B from_ hfrom hto)
  · have hA := body_of_spells A from_ hfrom
    have hB := body_of_spells B to_ hto
    rw [classify_eq _ _ hsame, verdictOf] at hsafe
    split_ifs at hsafe with hwide
    rcases Bool.or_eq_true_iff.mp hwide with hwide | htext
    · rcases Bool.or_eq_true_iff.mp hwide with hints | hlengths
      · exact .inr (listedInts_widens A B _ _ hA hB hints)
      · obtain ⟨l, hl, hle⟩ := (Option.any_eq_true _ _).mp hlengths
        unfold sameKindLengths at hl
        split at hl
        · rename_i fromKind fl toKind tl hfromChars htoChars
          split_ifs at hl with hkind
          cases hl
          subst hkind
          right
          rcases reads_chars A _ (body_reads A _ hA) _ _ hfromChars with
            ⟨rfl, rfl⟩ | ⟨rfl, n, rfl, hn⟩
          · rcases reads_chars B _ (body_reads B _ hB) _ _ htoChars with
              ⟨-, rfl⟩ | ⟨hother, -⟩
            · change fl ≤ tl
              simpa using hle
            · cases hother
          · rcases reads_chars B _ (body_reads B _ hB) _ _ htoChars with
              ⟨hother, -⟩ | ⟨-, m, rfl, hm⟩
            · cases hother
            · rw [← hn fl rfl, ← hm tl rfl]
              change fl ≤ tl
              simpa using hle
        · cases hl
    · obtain ⟨hchars, htext⟩ := Bool.and_eq_true_iff.mp htext
      obtain rfl := reads_text B _ (body_reads B _ hB) htext
      obtain ⟨⟨kind, n⟩, hk⟩ := Option.isSome_iff_exists.mp hchars
      right
      rcases reads_chars A _ (body_reads A _ hA) kind n hk with ⟨-, rfl⟩ | ⟨-, m, rfl, -⟩
      · cases n <;> trivial
      · trivial

/-- The kinds that the narrowing test compares under all names. -/
def Compared : SqlType → SqlType → Prop
  | .int _, .int _ | .text, .char _ => True
  | .char n, .char m => 2 ≤ n ∧ 2 ≤ m
  | .numeric none, .numeric (some (_, s)) => 0 ≤ s
  | .numeric (some (p, s)), .numeric (some (p', s')) => 0 ≤ s ∧ s ≤ p ∧ 0 ≤ s' ∧ s' ≤ p'
  | _, _ => False

/-- The kinds that it compares when the texts are read. -/
def ComparedWhenRead : SqlType → SqlType → Prop
  | .text, .varchar _ | .varchar (some _), .varchar (some _) => True
  | _, _ => False

theorem lossy_compared (A B : SqlType) (hprecision : ∀ p s, A = .numeric (some (p, s)) → 1 ≤ p)
    (hlossy : Lossy A B) (h : Compared A B) : verdictOn A B = some .offlineOnly := by
  cases A with
  | int w =>
    cases B with
    | int w' =>
      refine if_pos ?_
      by_contra hnot
      rcases Nat.lt_or_ge w.bits w'.bits with hlt | hge
      · exact int_to_wider w w' hlt hlossy
      · have hsame : w = w' := by
          revert hnot hge
          cases w <;> cases w' <;> simp [IntType.bits]
        subst hsame
        exact not_lossy_of_has _ _ (fun v hv => hv) hlossy
    | _ => cases h
  | text =>
    cases B with
    | char n => rfl
    | _ => cases h
  | char n =>
    cases B with
    | char m =>
      have hlt : ¬n ≤ m := fun hle => char_to_char n m hle hlossy
      change (if 2 ≤ n ∧ 2 ≤ m then some (if _ then _ else _) else none) = _
      rw [if_pos (show 2 ≤ n ∧ 2 ≤ m from h), if_neg hlt]
    | _ => cases h
  | varchar n => cases n <;> cases B <;> cases h
  | numeric params =>
    cases B with
    | numeric params' =>
      cases params with
      | none =>
        cases params' with
        | none => cases h
        | some ps => exact congrArg some (if_pos h)
      | some ps =>
        cases params' with
        | none => cases h
        | some ps' =>
          obtain ⟨p, s⟩ := ps
          obtain ⟨p', s'⟩ := ps'
          obtain ⟨hs, hsp, hs', hsp'⟩ := h
          rw [numeric_to_numeric p s p' s' (hprecision p s rfl)] at hlossy
          have hdiff : (p, s) ≠ (p', s') := by
            intro heq
            cases heq
            exact hlossy ⟨le_rfl, by omega⟩
          have hnarrow : typmodNarrows (.bounded p s.toNat) (.bounded p' s'.toNat) = true := by
            simp only [typmodNarrows, Bool.or_eq_true, decide_eq_true_eq]
            omega
          change (if _ then none else some (if _ then _ else _)) = _
          rw [if_neg hdiff, if_pos ⟨hs, hs', hnarrow⟩]
    | _ => cases params <;> cases h

/-- Texts that are read are compared. -/
theorem lossy_read (A B : SqlType) (from_ to_ : List Char) (hfrom : Spells A from_)
    (hto : Spells B to_) (hlossy : Lossy A B) (h : ComparedWhenRead A B)
    (hread : A = .text ∨ (parseVarchar (normal from_)).isSome = true)
    (hread' : (parseVarchar (normal to_)).isSome = true) :
    classifyTypeChange from_ to_ = .offlineOnly := by
  have hA := body_reads A _ (body_of_spells A from_ hfrom)
  have hB := body_reads B _ (body_of_spells B to_ hto)
  cases B with
  | varchar m =>
    have hB' : reading (normal to_) = ⟨none, some (.varchar, m), none, false⟩ := by
      rcases hB with hB | hB
      · exact hB
      · rw [show parseVarchar (normal to_) = none from congrArg Reading.chars hB] at hread'
        cases hread'
    cases A with
    | text =>
      rw [classify_types _ _ from_ to_ hfrom hto (by simp) (.inl (by simp [SqlType.kind])), hB',
        show reading (normal from_) = ⟨none, none, none, true⟩ from hA]
      rfl
    | varchar n =>
      cases n with
      | none => cases h
      | some n =>
        cases m with
        | none => cases h
        | some m =>
          have hlt : ¬n ≤ m := fun hle => varchar_to_longer n m hle hlossy
          have hne : SqlType.varchar (some n) ≠ .varchar (some m) := by
            intro heq
            cases heq
            exact hlt le_rfl
          have hA' : reading (normal from_) = ⟨none, some (.varchar, some n), none, false⟩ := by
            rcases hA with hA | hA
            · exact hA
            · have hnone : parseVarchar (normal from_) = none := congrArg Reading.chars hA
              simp [hnone] at hread
          rw [classify_types _ _ from_ to_ hfrom hto hne (.inl (by simp [SqlType.kind])), hA', hB']
          simp [verdictOf, sameKindLengths, narrowerWidth, narrowerTypmod, hlt,
            show m < n by omega]
    | _ => cases m <;> cases h
  | _ =>
    cases A with
    | varchar n => cases n <;> cases h
    | _ => cases h

/-- The scale is one that the parser reads, and not larger than the precision. -/
def ScaleFits : SqlType → Prop
  | .numeric (some (p, s)) => 0 ≤ s ∧ s ≤ p
  | _ => True

/-- A varying string that has no length gets one. -/
def gainsLength : SqlType → SqlType → Bool
  | .varchar none, .varchar (some _) => true
  | _, _ => false

/-- **Every pair.** Safe are only identical types and listed widenings, which lose nothing; a lossy
change of kinds that are compared is refused; the verdict on a pair of the table is the same under
all names, and that of the table unless a scale does not fit or a length is gained. -/
theorem type_change_verdict (A B : SqlType) (from_ to_ : List Char) (hfrom : Spells A from_)
    (hto : Spells B to_) :
    (classifyTypeChange from_ to_ = .onlineSafe → (A = B ∨ Widens A B) ∧ ¬Lossy A B) ∧
      (Lossy A B → Compared A B → classifyTypeChange from_ to_ = .offlineOnly) ∧
      (Lossy A B → ComparedWhenRead A B →
        (A = .text ∨ (parseVarchar (normal from_)).isSome = true) →
        (parseVarchar (normal to_)).isSome = true →
        classifyTypeChange from_ to_ = .offlineOnly) ∧
      ∀ v, verdictOn A B = some v →
        (∀ from' to', Spells A from' → Spells B to' →
          classifyTypeChange from' to' = classifyTypeChange from_ to_) ∧
        (ScaleFits A → ScaleFits B → gainsLength A B = false →
          classifyTypeChange from_ to_ = v) := by
  refine ⟨fun hsafe => ?_, fun hlossy hcompared => ?_, lossy_read A B from_ to_ hfrom hto,
    fun v hv => ⟨fun from' to' hfrom' hto' => ?_, fun _ _ _ => ?_⟩⟩
  · have hwidens := safe_widens A B from_ to_ hfrom hto hsafe
    refine ⟨hwidens, ?_⟩
    rcases hwidens with rfl | hwidens
    · exact not_lossy_of_has _ _ fun v hv => hv
    · exact widens_not_lossy A B hwidens
  · refine verdict_steady A B from_ to_ hfrom hto _ (lossy_compared A B ?_ hlossy hcompared)
    rintro p s rfl
    exact spells_precision_pos p s from_ hfrom
  · rw [verdict_steady A B from' to' hfrom' hto' v hv, verdict_steady A B from_ to_ hfrom hto v hv]
  · exact verdict_steady A B from_ to_ hfrom hto v hv

theorem spells_text : Spells .text "text".toList :=
  (spells_body _ _ .text (by decide)).1

/-- An integer that loses most strings is staged as any other change. -/
theorem text_to_integer_staged : ¬∀ A B from_ to_, Spells A from_ → Spells B to_ →
    VerdictKept A B from_ to_ := by
  intro h
  have hkept := h .text (.int .integer) _ _ spells_text
    (spells_int .integer "integer" (by decide))
  exact (text_kept_iff _ _ _ spells_text (spells_int .integer "integer" (by decide))).mp hkept

theorem type_change_verdict_bigint :
    classifyTypeChange "bigint".toList "int4".toList = .offlineOnly :=
  (type_change_verdict (.int .bigint) (.int .integer) "bigint".toList "int4".toList
    (spells_int .bigint "bigint" (by decide)) (spells_int .integer "int4" (by decide))).2.2.2
    .offlineOnly rfl |>.2 trivial trivial rfl

end Djogi.Live

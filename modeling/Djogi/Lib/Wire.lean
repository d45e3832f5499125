import Mathlib.Data.List.Basic
import Mathlib.Tactic.Ring

/-!
# Reading bytes

Readers of a byte string that keep an offset into it, and numbers as bytes. A reader ends with a
value and the offset behind it, with an error, or with a panic where it reads out of bounds.

* `leBytes_ofLeBytes`, `ofLeBytes_leBytes`: bytes and numbers;
* `Reads`: a reader takes exactly the encodings of the values that are allowed;
* `Reads.bind`, `Reads.check`, `Reads.times`: such readers one after another, with a check, in a loop;
* `IsPrefixCode`: readers of the front of a text that refuse a part of what they take.
-/

namespace Wire

abbrev Bytes := List UInt8

inductive Fault (ε : Type)
  | panic
  | error (e : ε)
  deriving DecidableEq

variable {ε α β : Type}

/-! ## Numbers -/

/-- The lowest bytes of a number, the lowest first. -/
def leBytes : ℕ → ℕ → Bytes
  | 0, _ => []
  | k + 1, n => UInt8.ofNat n :: leBytes k (n / 256)

def ofLeBytes : Bytes → ℕ
  | [] => 0
  | b :: s => b.toNat + 256 * ofLeBytes s

theorem length_leBytes (k n : ℕ) : (leBytes k n).length = k := by
  induction k generalizing n with
  | zero => rfl
  | succ k ih => rw [leBytes, List.length_cons, ih]

theorem ofLeBytes_leBytes (k n : ℕ) (h : n < 256 ^ k) : ofLeBytes (leBytes k n) = n := by
  induction k generalizing n with
  | zero =>
    rw [pow_zero] at h
    rw [leBytes, ofLeBytes]
    omega
  | succ k ih =>
    rw [pow_succ] at h
    have hdiv : n / 256 < 256 ^ k := by omega
    have hlow : (UInt8.ofNat n).toNat = n % 256 := UInt8.toNat_ofNat'
    rw [leBytes, ofLeBytes, ih (n / 256) hdiv, hlow]
    omega

theorem ofLeBytes_lt (s : Bytes) : ofLeBytes s < 256 ^ s.length := by
  induction s with
  | nil => exact Nat.one_pos
  | cons b s ih =>
    have hb : b.toNat < 256 := b.toNat_lt
    rw [ofLeBytes, List.length_cons, pow_succ]
    omega

theorem leBytes_ofLeBytes (s : Bytes) : leBytes s.length (ofLeBytes s) = s := by
  induction s with
  | nil => rfl
  | cons b s ih =>
    have hb : b.toNat < 256 := b.toNat_lt
    have hhigh : (b.toNat + 256 * ofLeBytes s) / 256 = ofLeBytes s := by omega
    have hlow : UInt8.ofNat (b.toNat + 256 * ofLeBytes s) = b := by
      apply UInt8.toNat_inj.mp
      rw [UInt8.toNat_ofNat']
      omega
    rw [List.length_cons, leBytes, ofLeBytes, hhigh, hlow, ih]

theorem leBytes_of_ofLeBytes (s : Bytes) (k n : ℕ) (hlen : s.length = k) (h : ofLeBytes s = n) :
    s = leBytes k n := by
  rw [← hlen, ← h, leBytes_ofLeBytes]

/-- As `leBytes`, the highest byte first. -/
def beBytes (k n : ℕ) : Bytes := (leBytes k n).reverse

def ofBeBytes (s : Bytes) : ℕ := ofLeBytes s.reverse

theorem length_beBytes (k n : ℕ) : (beBytes k n).length = k := by
  rw [beBytes, List.length_reverse, length_leBytes]

theorem ofBeBytes_beBytes (k n : ℕ) (h : n < 256 ^ k) : ofBeBytes (beBytes k n) = n := by
  rw [ofBeBytes, beBytes, List.reverse_reverse, ofLeBytes_leBytes k n h]

/-! ## Access with bounds -/

def byteAt (b : Bytes) (i : ℕ) : Except (Fault ε) UInt8 :=
  match b[i]? with
  | some x => .ok x
  | none => .error .panic

/-- The bytes from one offset up to another one. -/
def slice (b : Bytes) (i j : ℕ) : Except (Fault ε) Bytes :=
  if i ≤ j ∧ j ≤ b.length then .ok ((b.drop i).take (j - i)) else .error .panic

/-- Other bytes in the place of those from an offset on. -/
def patch (b : Bytes) (i : ℕ) (s : Bytes) : Except (Fault ε) Bytes :=
  if i + s.length ≤ b.length then .ok (b.take i ++ s ++ b.drop (i + s.length)) else .error .panic

theorem byteAt_append (before s : Bytes) (x : UInt8) :
    byteAt (before ++ x :: s) before.length = (.ok x : Except (Fault ε) UInt8) := by
  simp [byteAt]

theorem byteAt_right (before s : Bytes) (k : ℕ) :
    byteAt (before ++ s) (before.length + k) = (byteAt s k : Except (Fault ε) UInt8) := by
  rw [byteAt, List.getElem?_append_right (Nat.le_add_right _ _), Nat.add_sub_cancel_left, byteAt]

theorem slice_append (before s after : Bytes) (i j : ℕ) (hi : i = before.length)
    (hj : j = before.length + s.length) :
    slice (before ++ (s ++ after)) i j = (.ok s : Except (Fault ε) Bytes) := by
  subst hi
  subst hj
  rw [slice, if_pos ⟨by omega, by simp⟩, List.drop_left, Nat.add_sub_cancel_left, List.take_left]

theorem patch_append (before s t after : Bytes) (h : s.length = t.length) :
    patch (before ++ (s ++ after)) before.length t =
      (.ok (before ++ (t ++ after)) : Except (Fault ε) Bytes) := by
  rw [patch, if_pos (by simp only [List.length_append]; omega), List.take_left, ← h,
    ← List.append_assoc before s after, ← List.length_append, List.drop_left, List.append_assoc]

/-- A text of at least some bytes, parted behind them. -/
theorem exists_split (s : Bytes) (n : ℕ) (h : n ≤ s.length) :
    ∃ front back, s = front ++ back ∧ front.length = n :=
  ⟨s.take n, s.drop n, (List.take_append_drop n s).symm, List.length_take_of_le h⟩

/-! ## Readers -/

/-- A value and the offset behind it. -/
structure Read (α : Type) where
  value : α
  pos : ℕ

abbrev Reader (ε α : Type) := Bytes → ℕ → Except (Fault ε) (Read α)

/-- **A reader of a format.** It reads every value that is allowed from its encoding, whatever stands
around it; it reads nothing else; and it never panics. -/
structure Reads (R : Reader ε α) (encode : α → Bytes) (allowed : α → Prop) : Prop where
  complete : ∀ before a after, allowed a →
    R (before ++ (encode a ++ after)) before.length = .ok ⟨a, before.length + (encode a).length⟩
  sound : ∀ before s r, R (before ++ s) before.length = .ok r →
    allowed r.value ∧ r.pos = before.length + (encode r.value).length ∧
      ∃ after, s = encode r.value ++ after
  total : ∀ before s, R (before ++ s) before.length ≠ .error .panic

namespace Reads

/-- One reader after another one that it depends on. -/
theorem bind {R : Reader ε α} {S : α → Reader ε β} {f : α → Bytes} {allowedA : α → Prop}
    {g : β → Bytes} {allowedB : β → Prop} (part : β → α) (tail : β → Bytes)
    (hR : Reads R f allowedA)
    (hS : ∀ a, allowedA a → Reads (S a) tail fun c => allowedB c ∧ part c = a)
    (hg : ∀ c, g c = f (part c) ++ tail c) (hpart : ∀ c, allowedB c → allowedA (part c)) :
    Reads (fun b pos => (R b pos).bind fun r => S r.value b r.pos) g allowedB where
  complete before c after hc := by
    have hfirst := hR.complete before (part c) (tail c ++ after) (hpart c hc)
    have hsecond := (hS (part c) (hpart c hc)).complete (before ++ f (part c)) c after ⟨hc, rfl⟩
    rw [List.append_assoc, List.length_append] at hsecond
    rw [hg c, List.append_assoc, hfirst]
    refine hsecond.trans ?_
    rw [List.length_append, Nat.add_assoc]
  sound before s r h := by
    cases hfirst : R (before ++ s) before.length with
    | error e =>
      rw [hfirst] at h
      cases h
    | ok first =>
      obtain ⟨hallowed, hpos, after, rfl⟩ := hR.sound before s first hfirst
      rw [hfirst, Except.bind, hpos, ← List.length_append, ← List.append_assoc] at h
      obtain ⟨⟨hvalue, hsame⟩, hend, rest, rfl⟩ := (hS _ hallowed).sound _ _ r h
      rw [List.length_append] at hend
      refine ⟨hvalue, ?_, rest, ?_⟩
      · rw [hend, hg, List.length_append, hsame, Nat.add_assoc]
      · rw [hg, hsame, List.append_assoc]
  total before s h := by
    cases hfirst : R (before ++ s) before.length with
    | error e =>
      rw [hfirst] at h
      cases h
      exact hR.total before s hfirst
    | ok first =>
      obtain ⟨hallowed, hpos, after, rfl⟩ := hR.sound before s first hfirst
      rw [hfirst, Except.bind, hpos, ← List.length_append, ← List.append_assoc] at h
      exact (hS _ hallowed).total _ _ h

/-- A reader and a constructor that checks what was read. -/
theorem check {R : Reader ε α} {f : α → Bytes} {allowed : α → Prop} (make : α → Except (Fault ε) β)
    (view : β → α) (hR : Reads R f allowed) (hmake : ∀ a c, make a = .ok c ↔ view c = a)
    (hpanic : ∀ a, make a ≠ .error .panic) :
    Reads (fun b pos => (R b pos).bind fun r => (make r.value).bind fun c => .ok ⟨c, r.pos⟩)
      (fun c => f (view c)) (fun c => allowed (view c)) where
  complete before c after hc := by
    rw [hR.complete before (view c) after hc]
    simp only [Except.bind, (hmake (view c) c).mpr rfl]
  sound before s r h := by
    cases hfirst : R (before ++ s) before.length with
    | error e =>
      rw [hfirst] at h
      cases h
    | ok first =>
      cases hvalue : make first.value with
      | error e =>
        simp only [hfirst, Except.bind, hvalue] at h
        cases h
      | ok c =>
        simp only [hfirst, Except.bind, hvalue] at h
        cases h
        have hview := (hmake first.value c).mp hvalue
        have hall := hR.sound before s first hfirst
        rw [← hview] at hall
        exact hall
  total before s h := by
    cases hfirst : R (before ++ s) before.length with
    | error e =>
      rw [hfirst] at h
      cases h
      exact hR.total before s hfirst
    | ok first =>
      cases hvalue : make first.value with
      | error e =>
        simp only [hfirst, Except.bind, hvalue] at h
        cases h
        exact hpanic _ hvalue
      | ok c =>
        simp only [hfirst, Except.bind, hvalue] at h
        cases h

/-- A reader of a number of bytes, all of which stand for a value. -/
theorem fixed {R : Reader ε α} {f : α → Bytes} {allowed : α → Prop} (n : ℕ) (value : Bytes → α)
    (hshort : ∀ before s, s.length < n → ∃ e, R (before ++ s) before.length = .error (.error e))
    (hread : ∀ before word after, word.length = n →
      R (before ++ (word ++ after)) before.length = .ok ⟨value word, before.length + n⟩)
    (hlen : ∀ a, (f a).length = n) (hvalue : ∀ a, allowed a → value (f a) = a)
    (hword : ∀ word, word.length = n → allowed (value word) ∧ f (value word) = word) :
    Reads R f allowed where
  complete before a after ha := by
    rw [hread before (f a) after (hlen a), hvalue a ha, hlen a]
  sound before s r h := by
    by_cases hs : s.length < n
    · obtain ⟨e, he⟩ := hshort before s hs
      rw [he] at h
      cases h
    · obtain ⟨word, after, rfl, hfront⟩ := exists_split s n (Nat.le_of_not_lt hs)
      rw [hread before word after hfront] at h
      cases h
      obtain ⟨hallowed, heq⟩ := hword word hfront
      exact ⟨hallowed, by rw [hlen], after, by rw [heq]⟩
  total before s h := by
    by_cases hs : s.length < n
    · obtain ⟨e, he⟩ := hshort before s hs
      rw [he] at h
      cases h
    · obtain ⟨word, after, rfl, hfront⟩ := exists_split s n (Nat.le_of_not_lt hs)
      rw [hread before word after hfront] at h
      cases h

/-- A check of how much is left, in front of a reader of values that need as much. -/
theorem guard {R : Reader ε α} {f : α → Bytes} {allowed : α → Prop} (need : ℕ) (refused : ℕ → ε)
    (hR : Reads R f allowed) (hneed : ∀ a, allowed a → need ≤ (f a).length) :
    Reads (fun b pos => if b.length < pos + need then .error (.error (refused pos)) else R b pos)
      f allowed where
  complete before a after ha := by
    have hlen := hneed a ha
    rw [if_neg (by simp only [List.length_append]; omega)]
    exact hR.complete before a after ha
  sound before s r h := by
    split_ifs at h
    exact hR.sound before s r h
  total before s h := by
    split_ifs at h
    · cases h
    · exact hR.total before s h

end Reads

/-! ## Loops -/

/-- A reader that runs a number of times, with the number of the round. -/
def timesFrom (R : ℕ → Reader ε α) : (i n : ℕ) → Reader ε (List α)
  | _, 0, _, pos => .ok ⟨[], pos⟩
  | i, n + 1, b, pos =>
      (R i b pos).bind fun r => (timesFrom R (i + 1) n b r.pos).bind fun l =>
        .ok ⟨r.value :: l.value, l.pos⟩

def times (R : ℕ → Reader ε α) (n : ℕ) : Reader ε (List α) := timesFrom R 0 n

theorem Reads.timesFrom {R : ℕ → Reader ε α} {f : α → Bytes} {allowed : α → Prop}
    (hR : ∀ i, Reads (R i) f allowed) (i n : ℕ) :
    Reads (timesFrom R i n) (fun l => l.flatMap f) fun l => (∀ a ∈ l, allowed a) ∧ l.length = n := by
  induction n generalizing i with
  | zero =>
    refine ⟨?_, ?_, ?_⟩
    · rintro before l after ⟨-, hl⟩
      obtain rfl := List.length_eq_zero_iff.mp hl
      rfl
    · intro before s r h
      cases h
      exact ⟨⟨by simp, rfl⟩, rfl, s, rfl⟩
    · intro before s h
      cases h
  | succ n ih =>
    refine ⟨?_, ?_, ?_⟩
    · rintro before l after ⟨hall, hl⟩
      cases l with
      | nil => cases hl
      | cons a l =>
        obtain ⟨ha, hall⟩ := List.forall_mem_cons.mp hall
        have hfirst := (hR i).complete before a (l.flatMap f ++ after) ha
        have hrest := (ih (i + 1)).complete (before ++ f a) l after ⟨hall, by simpa using hl⟩
        rw [List.append_assoc, List.length_append] at hrest
        rw [List.flatMap_cons, List.append_assoc, Wire.timesFrom, hfirst]
        simp only [Except.bind, hrest, List.length_append, Nat.add_assoc]
    · intro before s r h
      rw [Wire.timesFrom] at h
      cases hfirst : R i (before ++ s) before.length with
      | error e =>
        rw [hfirst] at h
        cases h
      | ok first =>
        obtain ⟨ha, hpos, after, rfl⟩ := (hR i).sound before s first hfirst
        rw [hfirst, Except.bind, hpos, ← List.length_append, ← List.append_assoc] at h
        cases hrest : Wire.timesFrom R (i + 1) n (before ++ f first.value ++ after)
            (before ++ f first.value).length with
        | error e =>
          rw [hrest] at h
          cases h
        | ok l =>
          obtain ⟨⟨hall, hl⟩, hend, rest, rfl⟩ := (ih (i + 1)).sound _ _ l hrest
          rw [hrest] at h
          cases h
          refine ⟨⟨List.forall_mem_cons.mpr ⟨ha, hall⟩, by rw [List.length_cons, hl]⟩, ?_,
            rest, ?_⟩
          · simp only [hend, List.length_append, List.flatMap_cons, Nat.add_assoc]
          · rw [List.flatMap_cons, List.append_assoc]
    · intro before s h
      rw [Wire.timesFrom] at h
      cases hfirst : R i (before ++ s) before.length with
      | error e =>
        rw [hfirst] at h
        cases h
        exact (hR i).total before s hfirst
      | ok first =>
        obtain ⟨ha, hpos, after, rfl⟩ := (hR i).sound before s first hfirst
        rw [hfirst, Except.bind, hpos, ← List.length_append, ← List.append_assoc] at h
        cases hrest : Wire.timesFrom R (i + 1) n (before ++ f first.value ++ after)
            (before ++ f first.value).length with
        | error e =>
          rw [hrest] at h
          cases h
          exact (ih (i + 1)).total _ _ hrest
        | ok l =>
          rw [hrest] at h
          cases h

/-- **A loop** reads as many values as it has rounds. -/
theorem Reads.times {R : ℕ → Reader ε α} {f : α → Bytes} {allowed : α → Prop}
    (hR : ∀ i, Reads (R i) f allowed) (n : ℕ) :
    Reads (times R n) (fun l => l.flatMap f) fun l => (∀ a ∈ l, allowed a) ∧ l.length = n :=
  Reads.timesFrom hR 0 n

/-! ## Readers of the front -/

/-- A reader that gives back what it leaves. -/
abbrev Front (ε α : Type) := Bytes → Except (Fault ε) (α × Bytes)

/-- What is taken does not depend on what follows, and a proper part of it is an error. -/
structure IsPrefixCode (F : Front ε α) : Prop where
  exact : ∀ s a left, F s = .ok (a, left) → ∃ used, s = used ++ left ∧
    (∀ left', F (used ++ left') = .ok (a, left')) ∧
      ∀ part, part <+: used → part ≠ used → ∃ e, F part = .error (.error e)
  total : ∀ s, F s ≠ .error .panic

namespace IsPrefixCode

/-- A value without any bytes. -/
theorem pure (a : α) : IsPrefixCode (fun s => .ok (a, s) : Front ε α) where
  exact s a left h := by
    cases h
    refine ⟨[], rfl, fun _ => rfl, fun part hpart hne => ?_⟩
    exact absurd (List.prefix_nil.mp hpart) hne
  total s h := by cases h

/-- **One after another**, the second one by what the first one gave. -/
theorem bind {F : Front ε α} {G : α → Front ε β} (hF : IsPrefixCode F)
    (hG : ∀ a, IsPrefixCode (G a)) : IsPrefixCode fun s => (F s).bind fun r => G r.1 r.2 where
  exact s b left h := by
    cases hfirst : F s with
    | error e =>
      rw [hfirst] at h
      cases h
    | ok r =>
      obtain ⟨a, mid⟩ := r
      rw [hfirst] at h
      obtain ⟨front, rfl, hfront, hshort⟩ := hF.exact s a mid hfirst
      obtain ⟨back, rfl, hback, hshort'⟩ := (hG a).exact mid b left h
      refine ⟨front ++ back, (List.append_assoc _ _ _).symm, fun left' => ?_, ?_⟩
      · rw [List.append_assoc, hfront]
        exact hback left'
      · intro part hpart hne
        by_cases hwhole : front <+: part
        · obtain ⟨part, rfl⟩ := hwhole
          obtain ⟨e, he⟩ := hshort' part ((List.prefix_append_right_inj front).mp hpart)
            fun heq => hne (by rw [heq])
          exact ⟨e, by rw [hfront]; exact he⟩
        · obtain ⟨e, he⟩ := hshort part
            ((List.prefix_or_prefix_of_prefix hpart (List.prefix_append front back)).resolve_right
              hwhole) fun heq => hwhole (heq ▸ List.prefix_rfl)
          exact ⟨e, by rw [he]; rfl⟩
  total s h := by
    cases hfirst : F s with
    | error e =>
      rw [hfirst] at h
      cases h
      exact hF.total s hfirst
    | ok r =>
      rw [hfirst] at h
      exact (hG r.1).total r.2 h

end IsPrefixCode

end Wire

import Djogi.Lib.Wire

/-!
# Ranges on the wire

The codec of `Range<T>` in `pg_types.rs`: a byte of flags and, for every finite bound, its length
and its bytes. The element type's own codec is a parameter.

* `encodeRange_ok`: what is appended, behind any bytes;
* `range_codec`: the codec is an exact prefix code that never reads out of bounds.
-/

namespace Djogi

open Wire

/-! ## Ranges -/

inductive RangeBound (T : Type)
  | inclusive (value : T)
  | exclusive (value : T)
  | unbounded
  deriving DecidableEq

/-- A range has private fields; the empty one has no bounds. -/
structure Range (T : Type) where
  lower : RangeBound T
  upper : RangeBound T
  isEmpty : Bool
  noBounds : isEmpty = true → lower = .unbounded ∧ upper = .unbounded
  deriving DecidableEq

variable {T : Type}

def Range.empty : Range T := ⟨.unbounded, .unbounded, true, fun _ => ⟨rfl, rfl⟩⟩

def Range.new (lower upper : RangeBound T) : Range T := ⟨lower, upper, false, fun h => by cases h⟩

inductive IsNull
  | yes | no
  deriving DecidableEq

/-- `ToSql` and `FromSql` of an element at its Postgres type. -/
structure Element (T : Type) where
  toSql : T → Bytes → Except String (IsNull × Bytes)
  fromSql : Bytes → Except String T

/-! ## Encoding -/

abbrev Outcome (α : Type) := Except (Fault String) α

def rangeEmpty : UInt8 := 0x01

def rangeLbInc : UInt8 := 0x02

def rangeUbInc : UInt8 := 0x04

def rangeLbInf : UInt8 := 0x08

def rangeUbInf : UInt8 := 0x10

def rangeLbNull : UInt8 := 0x20

def rangeUbNull : UInt8 := 0x40

/-- The length is written as zero and set when the value has been appended. -/
def encodeBound (e : Element T) (value : T) (out : Bytes) : Outcome Bytes :=
  let lenPos := out.length
  let out := out ++ beBytes 4 0
  let valueStart := out.length
  match e.toSql value out with
  | .error text => .error (.error text)
  | .ok (.yes, _) => .error (.error <|
      "Postgres range bounds cannot be NULL; use RangeBound::Unbounded " ++ "for an open end")
  | .ok (.no, out) =>
      if out.length < valueStart then .error .panic
      else if 2 ^ 31 ≤ out.length - valueStart then
        .error (.error "range bound length exceeds i32::MAX bytes")
      else patch out lenPos (beBytes 4 (out.length - valueStart))

/-- The flags of a bound, by those of its side. -/
def boundFlags (inc inf : UInt8) : RangeBound T → UInt8
  | .inclusive _ => inc
  | .exclusive _ => 0
  | .unbounded => inf

def encodeSide (e : Element T) (bound : RangeBound T) (out : Bytes) : Outcome Bytes :=
  match bound with
  | .inclusive v | .exclusive v => encodeBound e v out
  | .unbounded => .ok out

def encodeRange (e : Element T) (range : Range T) (out : Bytes) : Outcome (IsNull × Bytes) :=
  if range.isEmpty then .ok (.no, out ++ [rangeEmpty])
  else do
    let flags := 0 ||| boundFlags rangeLbInc rangeLbInf range.lower |||
      boundFlags rangeUbInc rangeUbInf range.upper
    let out := out ++ [flags]
    let out ← encodeSide e range.lower out
    let out ← encodeSide e range.upper out
    return (.no, out)

/-! ## Decoding -/

/-- `i32::from_be_bytes`. -/
def i32FromBeBytes (s : Bytes) : ℤ :=
  if ofBeBytes s < 2 ^ 31 then ofBeBytes s else ofBeBytes s - 2 ^ 32

def decodeBound (e : Element T) : Front String T := fun buf =>
  if buf.length < 4 then
    .error (.error "Postgres range wire format: bound length prefix truncated")
  else do
    let head ← slice buf 0 4
    let len := i32FromBeBytes head
    if len < 0 then
      .error (.error s!"Postgres range wire format: negative bound length {len}")
    else do
      let len := len.toNat
      let buf ← slice buf 4 buf.length
      if buf.length < len then
        .error (.error <| s!"Postgres range wire format: bound length says {len} bytes " ++
          s!"but only {buf.length} available")
      else do
        let body ← slice buf 0 len
        let left ← slice buf len buf.length
        match e.fromSql body with
        | .error text => .error (.error text)
        | .ok value => return (value, left)

/-- The bound of a side, by the flags of the side. -/
def decodeSide (e : Element T) (flags inc inf : UInt8) : Front String (RangeBound T) := fun raw =>
  if flags &&& inf ≠ 0 then .ok (.unbounded, raw)
  else do
    let r ← decodeBound e raw
    return (if flags &&& inc ≠ 0 then .inclusive r.1 else .exclusive r.1, r.2)

/-- A byte as two lower case digits. -/
def hexByte (b : UInt8) : String :=
  String.ofList [Nat.digitChar (b.toNat / 16), Nat.digitChar (b.toNat % 16)]

def decodeRange (e : Element T) (raw : Bytes) : Outcome (Range T) :=
  if raw.isEmpty then
    .error (.error "Postgres range wire format must contain at least one flags byte")
  else do
    let flags ← byteAt raw 0
    let raw ← slice raw 1 raw.length
    if flags &&& rangeEmpty ≠ 0 then
      if !raw.isEmpty then
        .error (.error <| "Postgres range wire format: empty-range flag set but " ++
          s!"{raw.length} trailing bytes present")
      else .ok Range.empty
    else if flags &&& rangeLbNull ≠ 0 ∨ flags &&& rangeUbNull ≠ 0 then
      .error (.error <| "Postgres range wire format: NULL-bound flag set (flags = 0x" ++
        hexByte flags ++ "); not supported")
    else do
      let lower ← decodeSide e flags rangeLbInc rangeLbInf raw
      let upper ← decodeSide e flags rangeUbInc rangeUbInf lower.2
      if !upper.2.isEmpty then
        .error (.error <| s!"Postgres range wire format: {upper.2.length} trailing bytes " ++
          "after upper bound")
      else .ok (Range.new lower.1 upper.1)

/-! ## Bounds -/

/-- The codec of the elements: values are appended, in fewer than 2^31 bytes, and read back. -/
def Element.Inverts (e : Element T) : Prop :=
  ∀ value out, ∃ body, e.toSql value out = .ok (.no, out ++ body) ∧ body.length < 2 ^ 31 ∧
    e.fromSql body = .ok value

/-- A bound as its length and its bytes. -/
def boundBytes (body : Bytes) : Bytes := beBytes 4 body.length ++ body

theorem encodeBound_ok (e : Element T) (he : e.Inverts) (value : T) (out : Bytes) :
    ∃ body, encodeBound e value out = .ok (out ++ boundBytes body) ∧ body.length < 2 ^ 31 ∧
      e.fromSql body = .ok value := by
  obtain ⟨body, hto, hlen, hfrom⟩ := he value (out ++ beBytes 4 0)
  have hvalue : (out ++ beBytes 4 0 ++ body).length - (out ++ beBytes 4 0).length =
      body.length := by
    rw [List.length_append]
    omega
  refine ⟨body, ?_, hlen, hfrom⟩
  have hplace : ¬(out ++ beBytes 4 0 ++ body).length < (out ++ beBytes 4 0).length := by
    rw [List.length_append]
    omega
  simp only [encodeBound, hto]
  rw [if_neg hplace, hvalue, if_neg (by omega), List.append_assoc]
  exact patch_append out (beBytes 4 0) _ body (by rw [length_beBytes, length_beBytes])

theorem i32FromBeBytes_length (n : ℕ) (h : n < 2 ^ 31) : i32FromBeBytes (beBytes 4 n) = n := by
  have hvalue := ofBeBytes_beBytes 4 n (by omega)
  rw [i32FromBeBytes, hvalue, if_pos h]

theorem decodeBound_short (e : Element T) (buf : Bytes) (h : buf.length < 4) :
    ∃ text, decodeBound e buf = .error (.error text) := by
  rw [decodeBound, if_pos h]
  exact ⟨_, rfl⟩

/-- A length is there, but not the bytes that it promises. -/
theorem decodeBound_cut (e : Element T) (head s : Bytes) (hhead : head.length = 4)
    (h : i32FromBeBytes head < 0 ∨ s.length < (i32FromBeBytes head).toNat) :
    ∃ text, decodeBound e (head ++ s) = .error (.error text) := by
  have hslice := slice_append (ε := String) [] head s 0 4 rfl (by rw [hhead]; rfl)
  have htail := slice_append (ε := String) head s [] 4 (head ++ s).length hhead.symm (by simp)
  rw [List.append_nil] at htail
  rw [List.nil_append] at hslice
  rw [decodeBound, if_neg (by rw [List.length_append]; omega), hslice]
  simp only [Bind.bind, Except.bind, htail]
  by_cases hneg : i32FromBeBytes head < 0
  · rw [if_pos hneg]
    exact ⟨_, rfl⟩
  · rw [if_neg hneg, if_pos (h.resolve_left hneg)]
    exact ⟨_, rfl⟩

theorem decodeBound_body (e : Element T) (head body left : Bytes) (hhead : head.length = 4)
    (hlen : i32FromBeBytes head = body.length) :
    decodeBound e (head ++ (body ++ left)) =
      match e.fromSql body with
      | .error text => .error (.error text)
      | .ok value => .ok (value, left) := by
  have hslice := slice_append (ε := String) [] head (body ++ left) 0 4 rfl (by rw [hhead]; rfl)
  have htail := slice_append (ε := String) head (body ++ left) [] 4
    (head ++ (body ++ left)).length hhead.symm (by simp)
  have hbody := slice_append (ε := String) [] body left 0 body.length rfl (by simp)
  have hleft := slice_append (ε := String) body left [] body.length (body ++ left).length rfl
    (by simp)
  rw [List.append_nil] at htail hleft
  rw [List.nil_append] at hslice hbody
  rw [decodeBound, if_neg (by rw [List.length_append]; omega), hslice]
  simp only [Bind.bind, Except.bind, htail, hlen]
  rw [if_neg (by omega), Int.toNat_natCast, if_neg (by rw [List.length_append]; omega)]
  simp only [hbody, hleft]
  rfl

theorem decodeBound_isPrefixCode (e : Element T) : IsPrefixCode (decodeBound e) := by
  have hcases (s : Bytes) : (∃ text, decodeBound e s = .error (.error text)) ∨
      ∃ head body left, s = head ++ (body ++ left) ∧ head.length = 4 ∧
        i32FromBeBytes head = body.length := by
    by_cases hshort : s.length < 4
    · exact .inl (decodeBound_short e s hshort)
    · obtain ⟨head, s, rfl, hhead⟩ := exists_split s 4 (by omega)
      by_cases hcut : i32FromBeBytes head < 0 ∨ s.length < (i32FromBeBytes head).toNat
      · exact .inl (decodeBound_cut e head s hhead hcut)
      · obtain ⟨body, left, rfl, hbody⟩ :=
          exists_split s (i32FromBeBytes head).toNat (by omega)
        exact .inr ⟨head, body, left, rfl, hhead, by omega⟩
  refine ⟨fun s value left h => ?_, fun s h => ?_⟩
  · rcases hcases s with ⟨text, htext⟩ | ⟨head, body, left', rfl, hhead, hlen⟩
    · rw [htext] at h
      cases h
    · rw [decodeBound_body e head body left' hhead hlen] at h
      cases hfrom : e.fromSql body with
      | error text =>
        rw [hfrom] at h
        cases h
      | ok value' =>
        rw [hfrom] at h
        cases h
        refine ⟨head ++ body, (List.append_assoc _ _ _).symm, fun left' => ?_, ?_⟩
        · rw [List.append_assoc, decodeBound_body e head body left' hhead hlen, hfrom]
        · intro part hpart hne
          by_cases hshort : part.length < 4
          · exact decodeBound_short e part hshort
          · obtain ⟨front, back, rfl, hfront⟩ := exists_split part 4 (by omega)
            obtain ⟨missing, hmissing⟩ := hpart
            rw [List.append_assoc] at hmissing
            obtain ⟨rfl, rfl⟩ := List.append_inj hmissing (by rw [hfront, hhead])
            refine decodeBound_cut e front back hfront (.inr ?_)
            have hpos : missing ≠ [] := fun hnil => hne (by rw [hnil, List.append_nil])
            have hmore := List.length_pos_iff.mpr hpos
            rw [hlen, List.length_append]
            omega
  · rcases hcases s with ⟨text, htext⟩ | ⟨head, body, left', rfl, hhead, hlen⟩
    · rw [htext] at h
      cases h
    · rw [decodeBound_body e head body left' hhead hlen] at h
      split at h <;> cases h

/-! ## Sides -/

/-- The flags say of a side what kind of bound it has. -/
def Marks (flags inc inf : UInt8) : RangeBound T → Prop
  | .inclusive _ => flags &&& inf = 0 ∧ flags &&& inc ≠ 0
  | .exclusive _ => flags &&& inf = 0 ∧ flags &&& inc = 0
  | .unbounded => flags &&& inf ≠ 0

theorem encodeSide_ok (e : Element T) (he : e.Inverts) (bound : RangeBound T) (out : Bytes) :
    ∃ bytes, encodeSide e bound out = .ok (out ++ bytes) ∧
      ∀ flags inc inf left, Marks flags inc inf bound →
        decodeSide e flags inc inf (bytes ++ left) = .ok (bound, left) := by
  have hfinite (value : T) : ∃ bytes, encodeBound e value out = .ok (out ++ bytes) ∧
      ∀ left, decodeBound e (bytes ++ left) = .ok (value, left) := by
    obtain ⟨body, hto, hlen, hfrom⟩ := encodeBound_ok e he value out
    refine ⟨boundBytes body, hto, fun left => ?_⟩
    rw [boundBytes, List.append_assoc, decodeBound_body e _ body left (length_beBytes _ _)
      (i32FromBeBytes_length _ hlen), hfrom]
  cases bound with
  | inclusive value =>
    obtain ⟨bytes, hto, hfrom⟩ := hfinite value
    refine ⟨bytes, hto, ?_⟩
    rintro flags inc inf left ⟨hinf, hinc⟩
    rw [decodeSide, if_neg (not_not_intro hinf), hfrom]
    simp only [Bind.bind, Except.bind, if_pos hinc]
    rfl
  | exclusive value =>
    obtain ⟨bytes, hto, hfrom⟩ := hfinite value
    refine ⟨bytes, hto, ?_⟩
    rintro flags inc inf left ⟨hinf, hinc⟩
    rw [decodeSide, if_neg (not_not_intro hinf), hfrom]
    simp only [Bind.bind, Except.bind, if_neg (not_not_intro hinc)]
    rfl
  | unbounded =>
    refine ⟨[], by rw [List.append_nil]; rfl, ?_⟩
    intro flags inc inf left hmarks
    have hinf : flags &&& inf ≠ 0 := hmarks
    rw [decodeSide, if_pos hinf]
    rfl

theorem marks_flags (lower upper : RangeBound T) :
    let flags := 0 ||| boundFlags rangeLbInc rangeLbInf lower |||
      boundFlags rangeUbInc rangeUbInf upper
    Marks flags rangeLbInc rangeLbInf lower ∧ Marks flags rangeUbInc rangeUbInf upper ∧
      flags &&& rangeEmpty = 0 ∧ flags &&& rangeLbNull = 0 ∧ flags &&& rangeUbNull = 0 := by
  cases lower <;> cases upper <;>
    exact ⟨by simp only [Marks, boundFlags]; decide, by simp only [Marks, boundFlags]; decide,
      by simp only [boundFlags]; decide, by simp only [boundFlags]; decide,
      by simp only [boundFlags]; decide⟩

theorem decodeSide_isPrefixCode (e : Element T) (flags inc inf : UInt8) :
    IsPrefixCode (decodeSide e flags inc inf) := by
  by_cases hinf : flags &&& inf ≠ 0
  · have heq : decodeSide e flags inc inf = fun raw => .ok (.unbounded, raw) := by
      funext raw
      rw [decodeSide, if_pos hinf]
    rw [heq]
    exact .pure _
  · have heq : decodeSide e flags inc inf = fun raw => (decodeBound e raw).bind fun r =>
        .ok (if flags &&& inc ≠ 0 then .inclusive r.1 else .exclusive r.1, r.2) := by
      funext raw
      rw [decodeSide, if_neg hinf]
      rfl
    rw [heq]
    exact (decodeBound_isPrefixCode e).bind fun value =>
      .pure (if flags &&& inc ≠ 0 then RangeBound.inclusive value else .exclusive value)

/-! ## Whole ranges -/

/-- Both bounds, as they stand behind the flags. -/
def decodeBounds (e : Element T) (flags : UInt8) : Front String (RangeBound T × RangeBound T) :=
  fun raw => (decodeSide e flags rangeLbInc rangeLbInf raw).bind fun lower =>
    (decodeSide e flags rangeUbInc rangeUbInf lower.2).bind fun upper =>
      .ok ((lower.1, upper.1), upper.2)

theorem decodeBounds_isPrefixCode (e : Element T) (flags : UInt8) :
    IsPrefixCode (decodeBounds e flags) :=
  (decodeSide_isPrefixCode e flags rangeLbInc rangeLbInf).bind fun lower =>
    (decodeSide_isPrefixCode e flags rangeUbInc rangeUbInf).bind fun upper =>
      .pure (lower, upper)

/-- What is done behind the flags. -/
theorem decodeRange_cons (e : Element T) (flags : UInt8) (raw : Bytes) :
    decodeRange e (flags :: raw) =
      if flags &&& rangeEmpty ≠ 0 then
        if !raw.isEmpty then
          .error (.error <| "Postgres range wire format: empty-range flag set but " ++
            s!"{raw.length} trailing bytes present")
        else .ok Range.empty
      else if flags &&& rangeLbNull ≠ 0 ∨ flags &&& rangeUbNull ≠ 0 then
        .error (.error <| "Postgres range wire format: NULL-bound flag set (flags = 0x" ++
          hexByte flags ++ "); not supported")
      else (decodeBounds e flags raw).bind fun r =>
        if !r.2.isEmpty then
          .error (.error <| s!"Postgres range wire format: {r.2.length} trailing bytes " ++
            "after upper bound")
        else .ok (Range.new r.1.1 r.1.2) := by
  have hhead : byteAt (flags :: raw) 0 = (.ok flags : Outcome UInt8) := rfl
  have htail : slice (flags :: raw) 1 (flags :: raw).length = (.ok raw : Outcome Bytes) := by
    have h := slice_append (ε := String) [flags] raw [] 1 (flags :: raw).length rfl
      (by rw [List.length_cons, List.length_singleton, Nat.add_comm])
    rwa [List.append_nil] at h
  rw [decodeRange, if_neg (by simp), hhead, htail, decodeBounds]
  simp only [Bind.bind, Except.bind]
  cases decodeSide e flags rangeLbInc rangeLbInf raw with
  | error fault => rfl
  | ok lower =>
    dsimp only
    cases decodeSide e flags rangeUbInc rangeUbInf lower.2 with
    | error fault => rfl
    | ok upper => rfl

/-- **Encoding** appends bytes that are decoded to the range. -/
theorem encodeRange_ok (e : Element T) (he : e.Inverts) (range : Range T) (out : Bytes) :
    ∃ bytes, encodeRange e range out = .ok (.no, out ++ bytes) ∧
      decodeRange e bytes = .ok range := by
  obtain ⟨lower, upper, isEmpty, noBounds⟩ := range
  cases isEmpty with
  | true =>
    obtain ⟨rfl, rfl⟩ := noBounds rfl
    exact ⟨[rangeEmpty], rfl, rfl⟩
  | false =>
    obtain ⟨hlower, hupper, hempty, hlbNull, hubNull⟩ := marks_flags lower upper
    generalize hflags : 0 ||| boundFlags rangeLbInc rangeLbInf lower |||
      boundFlags rangeUbInc rangeUbInf upper = flags at *
    obtain ⟨bytes, hto, hfrom⟩ := encodeSide_ok e he lower (out ++ [flags])
    obtain ⟨bytes', hto', hfrom'⟩ := encodeSide_ok e he upper (out ++ [flags] ++ bytes)
    refine ⟨flags :: (bytes ++ bytes'), ?_, ?_⟩
    · simp only [encodeRange, hflags, Bool.false_eq_true, if_false, hto, Bind.bind, Except.bind,
        hto', Pure.pure, Except.pure]
      simp
    · have hread := hfrom' flags rangeUbInc rangeUbInf [] hupper
      rw [List.append_nil] at hread
      rw [decodeRange_cons, if_neg (not_not_intro hempty), if_neg (by simp [hlbNull, hubNull]),
        decodeBounds, hfrom flags rangeLbInc rangeLbInf bytes' hlower]
      simp only [Except.bind, hread]
      rfl

/-- Behind the flags, all bytes of a range are needed and no others are taken. -/
theorem decodeRange_tail (e : Element T) (flags : UInt8) (raw : Bytes) (range : Range T)
    (h : decodeRange e (flags :: raw) = .ok range) :
    (∀ part, part <+: raw → part ≠ raw →
        ∃ text, decodeRange e (flags :: part) = .error (.error text)) ∧
      ∀ more, more ≠ [] → ∃ text, decodeRange e (flags :: (raw ++ more)) = .error (.error text) := by
  rw [decodeRange_cons] at h
  simp only [decodeRange_cons]
  by_cases hempty : flags &&& rangeEmpty ≠ 0
  · simp only [if_pos hempty] at h ⊢
    cases raw with
    | nil =>
      refine ⟨fun part hpart hne => absurd (List.prefix_nil.mp hpart) hne, fun more hmore => ?_⟩
      rw [if_pos (by simpa using hmore)]
      exact ⟨_, rfl⟩
    | cons c raw => cases h
  · by_cases hnull : flags &&& rangeLbNull ≠ 0 ∨ flags &&& rangeUbNull ≠ 0
    · rw [if_neg hempty, if_pos hnull] at h
      cases h
    · simp only [if_neg hempty, if_neg hnull] at h ⊢
      cases hbounds : decodeBounds e flags raw with
      | error fault =>
        rw [hbounds] at h
        cases h
      | ok r =>
        obtain ⟨bounds, left⟩ := r
        obtain ⟨used, rfl, hlonger, hshorter⟩ :=
          (decodeBounds_isPrefixCode e flags).exact raw bounds left hbounds
        cases left with
        | cons c left =>
          rw [hbounds] at h
          cases h
        | nil =>
          rw [List.append_nil]
          refine ⟨fun part hpart hne => ?_, fun more hmore => ?_⟩
          · obtain ⟨text, htext⟩ := hshorter part hpart hne
            rw [htext]
            exact ⟨text, rfl⟩
          · rw [hlonger more]
            simp only [Except.bind]
            rw [if_pos (by simpa using hmore)]
            exact ⟨_, rfl⟩

/-- A text that is decoded is taken as a whole: no part of it and nothing longer is. -/
theorem decodeRange_exact (e : Element T) (b : Bytes) (range : Range T)
    (h : decodeRange e b = .ok range) :
    (∀ part, part <+: b → part ≠ b → ∃ text, decodeRange e part = .error (.error text)) ∧
      ∀ more, more ≠ [] → ∃ text, decodeRange e (b ++ more) = .error (.error text) := by
  cases b with
  | nil => cases h
  | cons flags raw =>
    obtain ⟨hshorter, hlonger⟩ := decodeRange_tail e flags raw range h
    refine ⟨fun part hpart hne => ?_, hlonger⟩
    cases part with
    | nil => exact ⟨_, rfl⟩
    | cons c part =>
      obtain ⟨rfl, htail⟩ := List.cons_prefix_cons.mp hpart
      exact hshorter part htail fun heq => hne (by rw [heq])

theorem decodeRange_total (e : Element T) (b : Bytes) : decodeRange e b ≠ .error .panic := by
  cases b with
  | nil =>
    intro h
    cases h
  | cons flags raw =>
    rw [decodeRange_cons]
    split_ifs with hempty hraw hnull
    · simp
    · simp
    · simp
    · intro h
      cases hbounds : decodeBounds e flags raw with
      | error fault =>
        rw [hbounds] at h
        cases h
        exact (decodeBounds_isPrefixCode e flags).total raw hbounds
      | ok r =>
        rw [hbounds] at h
        simp only [Except.bind] at h
        split_ifs at h
        cases h

/-- **An exact prefix code.** Whatever is encoded behind any bytes is decoded again; of what is
decoded no proper part and no extension is, and it is decoded again when it is encoded; and no bytes
make the decoder read out of bounds. -/
theorem range_codec (e : Element T) (he : e.Inverts) :
    (∀ range out, ∃ bytes, encodeRange e range out = .ok (.no, out ++ bytes) ∧
        decodeRange e bytes = .ok range) ∧
      (∀ b range, decodeRange e b = .ok range →
        (∀ part, part <+: b → part ≠ b → ∃ text, decodeRange e part = .error (.error text)) ∧
          (∀ more, more ≠ [] → ∃ text, decodeRange e (b ++ more) = .error (.error text)) ∧
            ∀ out, ∃ bytes, encodeRange e range out = .ok (.no, out ++ bytes) ∧
              decodeRange e bytes = .ok range) ∧
        ∀ b, decodeRange e b ≠ .error .panic := by
  refine ⟨encodeRange_ok e he, fun b range h => ?_, decodeRange_total e⟩
  obtain ⟨hshorter, hlonger⟩ := decodeRange_exact e b range h
  exact ⟨hshorter, hlonger, encodeRange_ok e he range⟩

/-! ## Integers as elements -/

/-- The codec of `INT4`. -/
def int4 : Element Int32 where
  toSql value out := .ok (.no, out ++ beBytes 4 value.toUInt32.toNat)
  fromSql raw :=
    if raw.length < 4 then .error "failed to fill whole buffer"
    else if 4 < raw.length then .error "invalid buffer size"
    else .ok (UInt32.ofNat (ofBeBytes raw)).toInt32

theorem int4_inverts : int4.Inverts := by
  intro value out
  have hlen := length_beBytes 4 value.toUInt32.toNat
  have hvalue := ofBeBytes_beBytes 4 value.toUInt32.toNat value.toUInt32.toNat_lt
  refine ⟨beBytes 4 value.toUInt32.toNat, rfl, by omega, ?_⟩
  simp only [int4]
  rw [if_neg (by omega), if_neg (by omega), hvalue, UInt32.ofNat_toNat]
  rfl

theorem range_codec_int4 :
    decodeRange int4 [0x12, 0, 0, 0, 4, 0, 0, 0, 9] = .ok (Range.new (.inclusive 9) .unbounded) ∧
      ∃ text, decodeRange int4 [0x12, 0, 0, 0, 4, 0, 0] = .error (.error text) := by
  have h : decodeRange int4 [0x12, 0, 0, 0, 4, 0, 0, 0, 9] =
      .ok (Range.new (.inclusive 9) .unbounded) := by decide +kernel
  exact ⟨h, ((range_codec int4 int4_inverts).2.1 _ _ h).1 _ ⟨[0, 9], rfl⟩ (by decide)⟩

end Djogi

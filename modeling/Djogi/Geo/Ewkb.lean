import Djogi.Geo.Values
import Djogi.Lib.Wire

/-!
# EWKB

The codecs of `geo/ewkb.rs`. A text starts with a marker, a type word and an SRID; counts stand in
front of what is repeated. Buffers are allocated without bound, and the texts of panics are left
out.

* `decodeBody_complete`, `decodeBody_cases`: a decoder behind the header;
* `ewkb_exact_iff`: a decoder accepts nothing but encodings, except for bytes behind one.
-/

namespace Djogi.Geo

open Wire

abbrev Outcome (α : Type) := Except (Fault GeoError) α

abbrev EwkbReader (α : Type) := Reader GeoError α

def malformed {α : Type} (text : String) : Outcome α := .error (.error (.malformedEwkb text))

/-- `map_err` with a text in front of the error. -/
def wrap {α : Type} (text : String) : Except GeoError α → Outcome α
  | .ok a => .ok a
  | .error e => .error (.error (.malformedBy text e))

/-! ## Constants -/

def ewkbLen : ℕ := 25

def endianByte : UInt8 := 0x01

def sridBytes : Bytes := [0xe6, 0x10, 0x00, 0x00]

def srid4326 : ℕ := 4326

def typeBytes : Bytes := [0x01, 0x00, 0x00, 0x20]

def typeLinestring : Bytes := [0x02, 0x00, 0x00, 0x20]

def typePolygon : Bytes := [0x03, 0x00, 0x00, 0x20]

def typeMultipoint : Bytes := [0x04, 0x00, 0x00, 0x20]

def typeMultilinestring : Bytes := [0x05, 0x00, 0x00, 0x20]

def typeMultipolygon : Bytes := [0x06, 0x00, 0x00, 0x20]

def subtypePoint : Bytes := [0x01, 0x00, 0x00, 0x00]

def subtypeLinestring : Bytes := [0x02, 0x00, 0x00, 0x00]

def subtypePolygon : Bytes := [0x03, 0x00, 0x00, 0x00]

/-! ## Encoding -/

def pushOuterHeader (buf type : Bytes) : Bytes := buf ++ [endianByte] ++ type ++ sridBytes

def encodeCountU32 (n : ℕ) : Outcome ℕ := if n < 2 ^ 32 then .ok n else .error .panic

def pushCoordPair (buf : Bytes) (p : GeoPoint) : Bytes :=
  buf ++ leBytes 8 p.lon.toNat ++ leBytes 8 p.lat.toNat

/-- A count and the pairs behind it. -/
def pushPoints (buf : Bytes) (points : List GeoPoint) : Outcome Bytes := do
  let count ← encodeCountU32 points.length
  return points.foldl pushCoordPair (buf ++ leBytes 4 count)

/-- The count of the rings and the rings behind it. -/
def pushRings (buf : Bytes) (poly : Polygon) : Outcome Bytes := do
  let ringN ← encodeCountU32 poly.rings.length
  poly.rings.foldlM pushPoints (buf ++ leBytes 4 ringN)

def encodePointInto (p : GeoPoint) (buf : Bytes) : Bytes :=
  pushCoordPair (pushOuterHeader buf typeBytes) p

def encodeLinestringInto (ls : LineString) (buf : Bytes) : Outcome Bytes :=
  pushPoints (pushOuterHeader buf typeLinestring) ls.points

def encodePolygonInto (poly : Polygon) (buf : Bytes) : Outcome Bytes :=
  pushRings (pushOuterHeader buf typePolygon) poly

def encodeMultipointInto (mp : MultiPoint) (buf : Bytes) : Outcome Bytes := do
  let buf := pushOuterHeader buf typeMultipoint
  let count ← encodeCountU32 mp.items.length
  return mp.items.foldl (fun buf p => pushCoordPair (buf ++ [endianByte] ++ subtypePoint) p)
    (buf ++ leBytes 4 count)

def encodeMultilinestringInto (mls : MultiLineString) (buf : Bytes) : Outcome Bytes := do
  let buf := pushOuterHeader buf typeMultilinestring
  let lineN ← encodeCountU32 mls.items.length
  mls.items.foldlM
    (fun buf ls => pushPoints (buf ++ [endianByte] ++ subtypeLinestring) ls.points)
    (buf ++ leBytes 4 lineN)

def encodeMultipolygonInto (mp : MultiPolygon) (buf : Bytes) : Outcome Bytes := do
  let buf := pushOuterHeader buf typeMultipolygon
  let polyN ← encodeCountU32 mp.items.length
  mp.items.foldlM (fun buf poly => pushRings (buf ++ [endianByte] ++ subtypePolygon) poly)
    (buf ++ leBytes 4 polyN)

/-! ## Lengths -/

def linestringByteLen (ls : LineString) : ℕ := 9 + 4 + 16 * ls.points.length

def polygonByteLen (poly : Polygon) : ℕ :=
  9 + 4 + poly.rings.length * 4 + (poly.rings.map List.length).sum * 16

def multipointByteLen (mp : MultiPoint) : ℕ := 9 + 4 + 21 * mp.items.length

def multilinestringByteLen (mls : MultiLineString) : ℕ :=
  mls.items.foldl (fun len ls => len + (5 + 4 + ls.points.length * 16)) (9 + 4)

def multipolygonByteLen (mp : MultiPolygon) : ℕ :=
  mp.items.foldl (fun len poly =>
    poly.rings.foldl (fun len ring => len + ring.length * 16)
      (len + (5 + 4 + poly.rings.length * 4))) (9 + 4)

/-! ## Decoding -/

/-- A byte as two upper case digits. -/
def hexUpper (b : UInt8) : String :=
  String.ofList [(Nat.digitChar (b.toNat / 16)).toUpper, (Nat.digitChar (b.toNat % 16)).toUpper]

/-- Bytes as `Debug` writes them. -/
def debugBytes (s : Bytes) : String :=
  "[" ++ ", ".intercalate (s.map fun b => toString b.toNat) ++ "]"

/-- Four bytes, each of them with a bounds check. -/
def fourBytes (bytes : Bytes) (pos : ℕ) : Outcome Bytes := do
  let b₀ ← byteAt bytes pos
  let b₁ ← byteAt bytes (pos + 1)
  let b₂ ← byteAt bytes (pos + 2)
  let b₃ ← byteAt bytes (pos + 3)
  return [b₀, b₁, b₂, b₃]

def readOuterHeader (bytes expectedType : Bytes) : Outcome ℕ :=
  if bytes.length < 9 then
    malformed (s!"buffer too short: {bytes.length} bytes " ++ "(need at least 9 for EWKB header)")
  else do
    let marker ← byteAt bytes 0
    if marker ≠ endianByte then
      malformed ("expected little-endian marker 0x01, got 0x" ++ hexUpper marker)
    else do
      let word ← slice bytes 1 5
      if word ≠ expectedType then
        malformed ("unexpected geometry type bytes " ++ debugBytes word ++ ", expected " ++
          debugBytes expectedType)
      else do
        let srid ← fourBytes bytes 5
        if ofLeBytes srid ≠ srid4326 then .error (.error (.unexpectedSrid (ofLeBytes srid)))
        else return 9

def readU32 (bytes : Bytes) (pos : ℕ) : Outcome ℕ :=
  if bytes.length < pos + 4 then
    malformed (s!"buffer too short to read u32 at offset {pos}: " ++
      s!"only {bytes.length} bytes total")
  else do
    let word ← fourBytes bytes pos
    return ofLeBytes word

def readF64 (bytes : Bytes) (pos : ℕ) : Outcome F64 :=
  if bytes.length < pos + 8 then
    malformed (s!"buffer too short to read f64 at offset {pos}: " ++
      s!"only {bytes.length} bytes total")
  else do
    let word ← slice bytes pos (pos + 8)
    return UInt64.ofNat (ofLeBytes word)

/-- A pair as it stands on the wire. -/
structure Coord where
  lon : F64
  lat : F64

def readCoordPair : EwkbReader Coord := fun bytes pos => do
  let lon ← readF64 bytes pos
  let lat ← readF64 bytes (pos + 8)
  return ⟨⟨lon, lat⟩, pos + 16⟩

def readCount : EwkbReader ℕ := fun bytes pos => do
  let n ← readU32 bytes pos
  return ⟨n, pos + 4⟩

/-- A pair that has to be a point; the label is of the geometry around it. -/
def readPoint (label : String) : EwkbReader GeoPoint := fun bytes pos => do
  let pair ← readCoordPair bytes pos
  let p ← wrap ("invalid coordinate in " ++ label) (GeoPoint.new pair.value.lat pair.value.lon)
  return ⟨p, pair.pos⟩

/-- A count and as many points. -/
def readPoints (label : ℕ → String) : EwkbReader (List GeoPoint) := fun bytes pos => do
  let n ← readCount bytes pos
  times (fun i => readPoint (label i)) n.value bytes n.pos

/-- The marker and the type word of a part, and a check of the bytes that are needed. -/
def readSubHeader (label truncated : String) (need : ℕ) (word : Bytes) : EwkbReader Unit :=
  fun bytes pos =>
    if bytes.length < pos + need then malformed (label ++ truncated ++ s!" at offset {pos}")
    else do
      let marker ← byteAt bytes pos
      if marker ≠ endianByte then
        malformed (label ++ ": expected little-endian marker, got 0x" ++ hexUpper marker)
      else do
        let found ← slice bytes (pos + 1) (pos + 5)
        if found ≠ word then malformed (label ++ ": unexpected type word " ++ debugBytes found)
        else return ⟨(), pos + 5⟩

def decodePoint (bytes : Bytes) : Outcome Coord :=
  if bytes.length ≠ ewkbLen then malformed s!"expected {ewkbLen} bytes, got {bytes.length}"
  else do
    let pos ← readOuterHeader bytes typeBytes
    let pair ← readCoordPair bytes pos
    return pair.value

/-- `GeoPoint::from_ewkb_bytes`. -/
def pointOfEwkb (bytes : Bytes) : Outcome GeoPoint := do
  let pair ← decodePoint bytes
  (GeoPoint.new pair.lat pair.lon).mapError .error

/-- The header and what follows it, whatever is left behind. -/
def decodeBody {α : Type} (type : Bytes) (body : EwkbReader α) (bytes : Bytes) : Outcome α := do
  let pos ← readOuterHeader bytes type
  let r ← body bytes pos
  return r.value

def linestringBody : EwkbReader LineString := fun bytes pos => do
  let points ← readPoints (fun _ => "LineString EWKB") bytes pos
  let ls ← wrap "decoded LineString failed validation" (LineString.new points.value)
  return ⟨ls, points.pos⟩

def decodeLinestring : Bytes → Outcome LineString := decodeBody typeLinestring linestringBody

def decodePolygonBody (label : String) : EwkbReader Polygon := fun bytes pos => do
  let ringCount ← readCount bytes pos
  let rings ← times (fun _ => readPoints fun _ => label) ringCount.value bytes ringCount.pos
  let poly ← wrap ("decoded " ++ label ++ " failed validation") (Polygon.fromRings rings.value)
  return ⟨poly, rings.pos⟩

def decodePolygon : Bytes → Outcome Polygon :=
  decodeBody typePolygon (decodePolygonBody "Polygon EWKB")

def readSubPoint (i : ℕ) : EwkbReader GeoPoint := fun bytes pos => do
  let label := s!"MultiPoint sub-point {i}"
  let header ← readSubHeader label " truncated" 21 subtypePoint bytes pos
  readPoint label bytes header.pos

def multipointBody : EwkbReader MultiPoint := fun bytes pos => do
  let n ← readCount bytes pos
  let points ← times readSubPoint n.value bytes n.pos
  let mp ← wrap "decoded MultiPoint failed validation" (MultiPoint.new points.value)
  return ⟨mp, points.pos⟩

def decodeMultipoint : Bytes → Outcome MultiPoint := decodeBody typeMultipoint multipointBody

def readSubLinestring (li : ℕ) : EwkbReader LineString := fun bytes pos => do
  let label := s!"MultiLineString sub-linestring {li}"
  let header ← readSubHeader label " header truncated" 5 subtypeLinestring bytes pos
  let points ← readPoints (fun pi => label ++ s!" point {pi}") bytes header.pos
  let ls ← wrap (label ++ " failed validation") (LineString.new points.value)
  return ⟨ls, points.pos⟩

def multilinestringBody : EwkbReader MultiLineString := fun bytes pos => do
  let lineCount ← readCount bytes pos
  let lines ← times readSubLinestring lineCount.value bytes lineCount.pos
  let mls ← wrap "decoded MultiLineString failed validation" (MultiLineString.new lines.value)
  return ⟨mls, lines.pos⟩

def decodeMultilinestring : Bytes → Outcome MultiLineString :=
  decodeBody typeMultilinestring multilinestringBody

def readSubPolygon (pi : ℕ) : EwkbReader Polygon := fun bytes pos => do
  let label := s!"MultiPolygon sub-polygon {pi}"
  let header ← readSubHeader label " header truncated" 5 subtypePolygon bytes pos
  decodePolygonBody label bytes header.pos

def multipolygonBody : EwkbReader MultiPolygon := fun bytes pos => do
  let polyCount ← readCount bytes pos
  let polygons ← times readSubPolygon polyCount.value bytes polyCount.pos
  let mp ← wrap "decoded MultiPolygon failed validation" (MultiPolygon.new polygons.value)
  return ⟨mp, polygons.pos⟩

def decodeMultipolygon : Bytes → Outcome MultiPolygon :=
  decodeBody typeMultipolygon multipolygonBody

/-! ## Layouts

What the bytes of a value are, apart from how they are written and read. -/

variable {α : Type}

def coordLayout (c : Coord) : Bytes := leBytes 8 c.lon.toNat ++ leBytes 8 c.lat.toNat

def pointLayout (p : GeoPoint) : Bytes := coordLayout ⟨p.lon, p.lat⟩

/-- A count and the layouts behind it. -/
def counted (f : α → Bytes) (l : List α) : Bytes := leBytes 4 l.length ++ l.flatMap f

def header (type : Bytes) : Bytes := endianByte :: (type ++ sridBytes)

def subHeader (word : Bytes) : Bytes := endianByte :: word

def ringsLayout (poly : Polygon) : Bytes := counted (counted pointLayout) poly.rings

def subPointLayout (p : GeoPoint) : Bytes := subHeader subtypePoint ++ pointLayout p

def subLinestringLayout (ls : LineString) : Bytes :=
  subHeader subtypeLinestring ++ counted pointLayout ls.points

def subPolygonLayout (poly : Polygon) : Bytes := subHeader subtypePolygon ++ ringsLayout poly

/-! ## Sizes -/

/-- A count that the wire can hold. -/
def Countable (l : List α) : Prop := l.length < 2 ^ 32

def PolygonSized (poly : Polygon) : Prop :=
  Countable poly.rings ∧ ∀ ring ∈ poly.rings, Countable ring

/-! ## Encoders write layouts -/

theorem pushOuterHeader_eq (buf type : Bytes) : pushOuterHeader buf type = buf ++ header type := by
  simp [pushOuterHeader, header]

theorem pushCoordPair_eq (buf : Bytes) (p : GeoPoint) :
    pushCoordPair buf p = buf ++ pointLayout p := by
  simp [pushCoordPair, pointLayout, coordLayout]

theorem foldl_append (step : Bytes → α → Bytes) (f : α → Bytes) (l : List α) (buf : Bytes)
    (h : ∀ buf, ∀ a ∈ l, step buf a = buf ++ f a) : l.foldl step buf = buf ++ l.flatMap f := by
  induction l generalizing buf with
  | nil => simp
  | cons a l ih =>
    rw [List.foldl_cons, h buf a List.mem_cons_self,
      ih _ fun b x hx => h b x (List.mem_cons_of_mem _ hx), List.flatMap_cons, List.append_assoc]

theorem foldlM_append (step : Bytes → α → Outcome Bytes) (f : α → Bytes) (l : List α) (buf : Bytes)
    (h : ∀ buf, ∀ a ∈ l, step buf a = .ok (buf ++ f a)) :
    l.foldlM step buf = .ok (buf ++ l.flatMap f) := by
  induction l generalizing buf with
  | nil => simp [Pure.pure, Except.pure]
  | cons a l ih =>
    rw [List.foldlM_cons, h buf a List.mem_cons_self]
    refine (ih _ fun b x hx => h b x (List.mem_cons_of_mem _ hx)).trans ?_
    rw [List.flatMap_cons, List.append_assoc]

theorem encodeCountU32_ok (l : List α) (h : Countable l) : encodeCountU32 l.length = .ok l.length :=
  if_pos h

theorem pushPoints_ok (buf : Bytes) (points : List GeoPoint) (h : Countable points) :
    pushPoints buf points = .ok (buf ++ counted pointLayout points) := by
  rw [pushPoints, encodeCountU32_ok points h]
  simp only [Bind.bind, Except.bind, Pure.pure, Except.pure]
  rw [foldl_append pushCoordPair pointLayout points _ fun b p _ => pushCoordPair_eq b p, counted,
    List.append_assoc]

theorem pushRings_ok (buf : Bytes) (poly : Polygon) (h : PolygonSized poly) :
    pushRings buf poly = .ok (buf ++ ringsLayout poly) := by
  rw [pushRings, encodeCountU32_ok poly.rings h.1]
  refine (foldlM_append pushPoints (counted pointLayout) poly.rings _ fun b ring hring =>
    pushPoints_ok b ring (h.2 ring hring)).trans ?_
  rw [ringsLayout, counted, List.append_assoc]

/-! ## Readers read layouts -/

theorem fourBytes_append (before word after : Bytes) (h : word.length = 4) (k : ℕ) (pos : ℕ)
    (hk : k = before.length) (hpos : pos = k) :
    fourBytes (before ++ (word ++ after)) pos = .ok word := by
  subst hpos
  subst hk
  obtain ⟨a, b, c, d, rfl⟩ := List.length_eq_four.mp h
  have hfirst : byteAt (before ++ ([a, b, c, d] ++ after)) before.length = (.ok a : Outcome UInt8) :=
    byteAt_append before _ a
  rw [fourBytes, hfirst, byteAt_right, byteAt_right, byteAt_right]
  rfl

theorem readCount_reads : Reads readCount (leBytes 4) fun n => n < 2 ^ 32 := by
  refine .fixed 4 ofLeBytes (fun before s hs => ?_) (fun before word after hword => ?_)
    (length_leBytes 4) (fun n hn => ofLeBytes_leBytes 4 n (by omega)) (fun word hword => ?_)
  · rw [readCount, readU32, if_pos (by rw [List.length_append]; omega)]
    exact ⟨_, rfl⟩
  · rw [readCount, readU32, if_neg (by simp only [List.length_append]; omega),
      fourBytes_append before word after hword _ _ rfl rfl]
    rfl
  · have hlt := ofLeBytes_lt word
    have hback := leBytes_ofLeBytes word
    rw [hword] at hlt hback
    exact ⟨by omega, hback⟩

theorem readF64_append (before word after : Bytes) (h : word.length = 8) (pos : ℕ)
    (hpos : pos = before.length) :
    readF64 (before ++ (word ++ after)) pos = .ok (UInt64.ofNat (ofLeBytes word)) := by
  rw [readF64, if_neg (by simp only [List.length_append]; omega),
    slice_append before word after pos (pos + 8) hpos (by omega)]
  rfl

theorem ofNat_leBytes (x : F64) : UInt64.ofNat (ofLeBytes (leBytes 8 x.toNat)) = x := by
  rw [ofLeBytes_leBytes 8 x.toNat x.toNat_lt, UInt64.ofNat_toNat]

theorem leBytes_ofNat (word : Bytes) (h : word.length = 8) :
    leBytes 8 (UInt64.ofNat (ofLeBytes word)).toNat = word := by
  have hlt := ofLeBytes_lt word
  have hback := leBytes_ofLeBytes word
  rw [h] at hlt hback
  rw [UInt64.toNat_ofNat', Nat.mod_eq_of_lt (by omega), hback]

theorem readCoordPair_reads : Reads readCoordPair coordLayout fun _ => True := by
  refine .fixed 16 (fun s => ⟨UInt64.ofNat (ofLeBytes (s.take 8)),
      UInt64.ofNat (ofLeBytes (s.drop 8))⟩) (fun before s hs => ?_)
    (fun before word after hword => ?_) (fun c => ?_) (fun c _ => ?_) (fun word hword => ?_)
  · by_cases hfirst : s.length < 8
    · rw [readCoordPair, readF64, if_pos (by rw [List.length_append]; omega)]
      exact ⟨_, rfl⟩
    · obtain ⟨lon, after, rfl, hlon⟩ := exists_split s 8 (by omega)
      rw [readCoordPair, readF64_append before lon after hlon _ rfl]
      simp only [Bind.bind, Except.bind]
      rw [readF64, if_pos (by simp only [List.length_append] at hs ⊢; omega)]
      exact ⟨_, rfl⟩
  · obtain ⟨lon, lat, rfl, hlon⟩ := exists_split word 8 (by omega)
    have hlat : lat.length = 8 := by
      rw [List.length_append] at hword
      omega
    have hfirst := readF64_append before lon (lat ++ after) hlon _ rfl
    have hsecond := readF64_append (before ++ lon) lat after hlat (before.length + 8)
      (by rw [List.length_append, hlon])
    rw [List.append_assoc] at hsecond
    rw [readCoordPair, List.append_assoc, hfirst]
    simp only [Bind.bind, Except.bind, hsecond]
    rw [← hlon, List.take_left, List.drop_left]
    rfl
  · rw [coordLayout, List.length_append, length_leBytes, length_leBytes]
  · have hlon := length_leBytes 8 c.lon.toNat
    dsimp only [coordLayout]
    rw [List.take_left' hlon, List.drop_left' hlon, ofNat_leBytes, ofNat_leBytes]
  · refine ⟨trivial, ?_⟩
    rw [coordLayout, leBytes_ofNat _ (by rw [List.length_take]; omega),
      leBytes_ofNat _ (by rw [List.length_drop]; omega), List.take_append_drop]

theorem wrap_ok_iff (text : String) (x : Except GeoError α) (a : α) :
    wrap text x = .ok a ↔ x = .ok a := by
  cases x <;> simp [wrap]

theorem wrap_panic (text : String) (x : Except GeoError α) : wrap text x ≠ .error .panic := by
  cases x <;> simp [wrap]

theorem readPoint_reads (label : String) : Reads (readPoint label) pointLayout fun _ => True := by
  have h := readCoordPair_reads.check
    (fun c => wrap ("invalid coordinate in " ++ label) (GeoPoint.new c.lat c.lon))
    (fun p : GeoPoint => ⟨p.lon, p.lat⟩)
    (fun c p => by
      rw [wrap_ok_iff, GeoPoint.new_ok_iff]
      constructor
      · rintro ⟨hlat, hlon⟩
        rw [hlat, hlon]
      · rintro rfl
        exact ⟨rfl, rfl⟩)
    fun _ => wrap_panic _ _
  exact h

/-- **Counted parts**: a count and as many rounds of a reader. -/
theorem counted_reads {R : ℕ → EwkbReader α} {f : α → Bytes} {allowed : α → Prop}
    (hR : ∀ i, Reads (R i) f allowed) :
    Reads (fun b pos => (readCount b pos).bind fun n => times R n.value b n.pos) (counted f)
      fun l => Countable l ∧ ∀ a ∈ l, allowed a :=
  .bind (S := fun n => times R n) List.length (fun l => l.flatMap f) readCount_reads
    (fun n hn => by
      have h := Reads.times hR n
      have heq : (fun l : List α => (∀ a ∈ l, allowed a) ∧ l.length = n) =
          fun l => (Countable l ∧ ∀ a ∈ l, allowed a) ∧ l.length = n := by
        funext l
        refine propext ⟨fun ⟨hall, hl⟩ => ⟨⟨?_, hall⟩, hl⟩, fun ⟨⟨_, hall⟩, hl⟩ => ⟨hall, hl⟩⟩
        rw [Countable, hl]
        exact hn
      rwa [heq] at h)
    (fun _ => rfl) fun _ h => h.1

theorem readPoints_reads (label : ℕ → String) :
    Reads (readPoints label) (counted pointLayout) Countable := by
  have h := counted_reads fun i => readPoint_reads (label i)
  have heq : (fun l : List GeoPoint => Countable l ∧ ∀ a ∈ l, True) = Countable := by
    funext l
    simp
  rw [heq] at h
  exact h

theorem linestringBody_reads :
    Reads linestringBody (fun ls => counted pointLayout ls.points)
      fun ls => Countable ls.points := by
  have h := (readPoints_reads fun _ => "LineString EWKB").check
    (fun points => wrap "decoded LineString failed validation" (LineString.new points))
    LineString.points (fun points ls => by rw [wrap_ok_iff, LineString.new_ok_iff])
    fun _ => wrap_panic _ _
  exact h

/-- A collection that its constructor checks. -/
theorem collection_reads {β : Type} {R : ℕ → EwkbReader α} {f : α → Bytes} {allowed : α → Prop}
    (hR : ∀ i, Reads (R i) f allowed) (text : String) (make : List α → Except GeoError β)
    (view : β → List α) (hmake : ∀ l m, make l = .ok m ↔ view m = l) :
    Reads (fun b pos => (readCount b pos).bind fun n => (times R n.value b n.pos).bind fun l =>
        (wrap text (make l.value)).bind fun m => .ok ⟨m, l.pos⟩)
      (fun m => counted f (view m)) fun m => Countable (view m) ∧ ∀ a ∈ view m, allowed a := by
  have h := (counted_reads hR).check (fun l => wrap text (make l)) view
    (fun l m => by rw [wrap_ok_iff, hmake]) fun _ => wrap_panic _ _
  have heq : (fun b pos => (readCount b pos).bind fun n => (times R n.value b n.pos).bind fun l =>
      (wrap text (make l.value)).bind fun m => .ok ⟨m, l.pos⟩ : EwkbReader β) = fun b pos =>
        ((readCount b pos).bind fun n => times R n.value b n.pos).bind fun l =>
          (wrap text (make l.value)).bind fun m => .ok ⟨m, l.pos⟩ := by
    funext b pos
    cases readCount b pos with
    | error e => rfl
    | ok n => rfl
  rw [heq]
  exact h

theorem decodePolygonBody_reads (label : String) :
    Reads (decodePolygonBody label) ringsLayout PolygonSized :=
  collection_reads (fun _ => readPoints_reads fun _ => label)
    ("decoded " ++ label ++ " failed validation") Polygon.fromRings Polygon.rings
    Polygon.fromRings_ok_iff

/-! ## Parts of collections -/

theorem readSubHeader_append (label truncated : String) (word before found after : Bytes)
    (marker : UInt8) (hfound : found.length = 4) :
    readSubHeader label truncated 5 word (before ++ (marker :: (found ++ after))) before.length =
      if marker ≠ endianByte then
        malformed (label ++ ": expected little-endian marker, got 0x" ++ hexUpper marker)
      else if found ≠ word then
        malformed (label ++ ": unexpected type word " ++ debugBytes found)
      else .ok ⟨(), before.length + 5⟩ := by
  have hmarker : byteAt (before ++ (marker :: (found ++ after))) before.length =
      (.ok marker : Outcome UInt8) := byteAt_append before _ marker
  have hword : slice (before ++ (marker :: (found ++ after))) (before.length + 1)
      (before.length + 5) = (.ok found : Outcome Bytes) := by
    have h := slice_append (ε := GeoError) (before ++ [marker]) found after (before.length + 1)
      (before.length + 5) (by simp) (by simp [hfound])
    rwa [List.append_assoc, List.singleton_append] at h
  rw [readSubHeader, if_neg (by simp only [List.length_append, List.length_cons]; omega), hmarker]
  simp only [Bind.bind, Except.bind, hword]
  rfl

theorem readSubHeader_reads (label truncated : String) (word : Bytes) (hword : word.length = 4) :
    Reads (readSubHeader label truncated 5 word) (fun _ => subHeader word) fun _ => True := by
  have hcases (before s : Bytes) :
      (∃ e, readSubHeader label truncated 5 word (before ++ s) before.length =
        .error (.error e)) ∨
      ∃ after, s = subHeader word ++ after := by
    by_cases hshort : s.length < 5
    · rw [readSubHeader, if_pos (by rw [List.length_append]; omega)]
      exact .inl ⟨_, rfl⟩
    · obtain ⟨front, after, rfl, hfront⟩ := exists_split s 5 (by omega)
      obtain ⟨marker, found, rfl⟩ := List.exists_cons_of_length_eq_add_one hfront
      rw [List.cons_append, readSubHeader_append label truncated word before found after marker
        (by simpa using hfront)]
      by_cases hmarker : marker ≠ endianByte
      · rw [if_pos hmarker]
        exact .inl ⟨_, rfl⟩
      · by_cases hfound : found ≠ word
        · rw [if_neg hmarker, if_pos hfound]
          exact .inl ⟨_, rfl⟩
        · rw [not_not.mp hmarker, not_not.mp hfound]
          exact .inr ⟨after, rfl⟩
  have hread (before after : Bytes) : readSubHeader label truncated 5 word
      (before ++ (subHeader word ++ after)) before.length = .ok ⟨(), before.length + 5⟩ := by
    rw [subHeader, List.cons_append, readSubHeader_append label truncated word before word after
      endianByte hword, if_neg (by simp), if_neg (by simp)]
  have hlen : (subHeader word).length = 5 := by rw [subHeader, List.length_cons, hword]
  refine ⟨fun before _ after _ => ?_, fun before s r h => ?_, fun before s h => ?_⟩
  · rw [hread, hlen]
  · rcases hcases before s with ⟨e, he⟩ | ⟨after, rfl⟩
    · rw [he] at h
      cases h
    · rw [hread] at h
      cases h
      exact ⟨trivial, by rw [hlen], after, rfl⟩
  · rcases hcases before s with ⟨e, he⟩ | ⟨after, rfl⟩
    · rw [he] at h
      cases h
    · rw [hread] at h
      cases h

/-- A part: its header and its body. -/
theorem part_reads {R : EwkbReader α} {f : α → Bytes} {allowed : α → Prop}
    (label truncated : String) (word : Bytes) (hword : word.length = 4)
    (hR : Reads R f allowed) :
    Reads (fun b pos => (readSubHeader label truncated 5 word b pos).bind fun r => R b r.pos)
      (fun a => subHeader word ++ f a) allowed :=
  .bind (S := fun _ => R) (fun _ => ()) f (readSubHeader_reads label truncated word hword)
    (fun _ _ => by simpa only [and_true] using hR) (fun _ => rfl) fun _ _ => trivial

theorem readSubLinestring_reads (li : ℕ) :
    Reads (readSubLinestring li) subLinestringLayout fun ls => Countable ls.points := by
  have hbody := (readPoints_reads fun pi =>
      s!"MultiLineString sub-linestring {li}" ++ s!" point {pi}").check
    (fun points => wrap (s!"MultiLineString sub-linestring {li}" ++ " failed validation")
      (LineString.new points))
    LineString.points (fun points ls => by rw [wrap_ok_iff, LineString.new_ok_iff])
    fun _ => wrap_panic _ _
  exact part_reads s!"MultiLineString sub-linestring {li}" " header truncated" subtypeLinestring
    rfl hbody

theorem readSubPolygon_reads (pi : ℕ) :
    Reads (readSubPolygon pi) subPolygonLayout PolygonSized :=
  part_reads s!"MultiPolygon sub-polygon {pi}" " header truncated" subtypePolygon rfl
    (decodePolygonBody_reads s!"MultiPolygon sub-polygon {pi}")

theorem length_pointLayout (p : GeoPoint) : (pointLayout p).length = 16 := by
  rw [pointLayout, coordLayout, List.length_append, length_leBytes, length_leBytes]

theorem readSubPoint_reads (i : ℕ) : Reads (readSubPoint i) subPointLayout fun _ => True := by
  have h := (part_reads s!"MultiPoint sub-point {i}" " truncated" subtypePoint rfl
    (readPoint_reads s!"MultiPoint sub-point {i}")).guard 21
    (fun pos => .malformedEwkb (s!"MultiPoint sub-point {i}" ++ " truncated" ++
      s!" at offset {pos}"))
    (fun p _ => by rw [List.length_append, length_pointLayout]; rfl)
  have heq : readSubPoint i = fun b pos =>
      if b.length < pos + 21 then
        malformed (s!"MultiPoint sub-point {i}" ++ " truncated" ++ s!" at offset {pos}")
      else (readSubHeader s!"MultiPoint sub-point {i}" " truncated" 5 subtypePoint b pos).bind
        fun r => readPoint s!"MultiPoint sub-point {i}" b r.pos := by
    funext b pos
    rw [readSubPoint, readSubHeader, readSubHeader]
    by_cases hlen : b.length < pos + 21
    · rw [if_pos hlen, if_pos hlen]
      rfl
    · rw [if_neg hlen, if_neg hlen, if_neg (by omega)]
      rfl
  rw [heq]
  exact h

theorem multipointBody_reads :
    Reads multipointBody (fun mp => counted subPointLayout mp.items)
      fun mp => Countable mp.items ∧ ∀ p ∈ mp.items, True :=
  collection_reads readSubPoint_reads "decoded MultiPoint failed validation" MultiPoint.new
    Multi.items (Multi.of_ok_iff _)

theorem multilinestringBody_reads :
    Reads multilinestringBody (fun mls => counted subLinestringLayout mls.items)
      fun mls => Countable mls.items ∧ ∀ ls ∈ mls.items, Countable ls.points :=
  collection_reads readSubLinestring_reads "decoded MultiLineString failed validation"
    MultiLineString.new Multi.items (Multi.of_ok_iff _)

theorem multipolygonBody_reads :
    Reads multipolygonBody (fun mp => counted subPolygonLayout mp.items)
      fun mp => Countable mp.items ∧ ∀ poly ∈ mp.items, PolygonSized poly :=
  collection_reads readSubPolygon_reads "decoded MultiPolygon failed validation"
    MultiPolygon.new Multi.items (Multi.of_ok_iff _)

/-! ## The header -/

theorem length_header (type : Bytes) (htype : type.length = 4) : (header type).length = 9 := by
  rw [header, List.length_cons, List.length_append, htype]
  rfl

theorem readOuterHeader_append (type word srid after : Bytes) (marker : UInt8)
    (hword : word.length = 4) (hsrid : srid.length = 4) :
    readOuterHeader (marker :: (word ++ (srid ++ after))) type =
      if marker ≠ endianByte then
        malformed ("expected little-endian marker 0x01, got 0x" ++ hexUpper marker)
      else if word ≠ type then
        malformed ("unexpected geometry type bytes " ++ debugBytes word ++ ", expected " ++
          debugBytes type)
      else if ofLeBytes srid ≠ srid4326 then
        .error (.error (.unexpectedSrid (ofLeBytes srid)))
      else .ok 9 := by
  have hmarker : byteAt (marker :: (word ++ (srid ++ after))) 0 =
      (.ok marker : Outcome UInt8) := rfl
  have hslice : slice (marker :: (word ++ (srid ++ after))) 1 5 = (.ok word : Outcome Bytes) :=
    slice_append (ε := GeoError) [marker] word (srid ++ after) 1 5 rfl
      (by rw [List.length_singleton, hword])
  have hfour : fourBytes (marker :: (word ++ (srid ++ after))) 5 = .ok srid := by
    have h := fourBytes_append (marker :: word) srid after hsrid 5 5 (by simp [hword]) rfl
    rwa [List.cons_append] at h
  rw [readOuterHeader, if_neg (by simp only [List.length_cons, List.length_append]; omega), hmarker]
  simp only [Bind.bind, Except.bind, hslice, hfour]
  rfl

theorem readOuterHeader_ok (type after : Bytes) (htype : type.length = 4) :
    readOuterHeader (header type ++ after) type = .ok 9 := by
  rw [header, List.cons_append, List.append_assoc,
    readOuterHeader_append type type sridBytes after endianByte htype rfl, if_neg (by simp),
    if_neg (by simp), if_neg (by decide)]

theorem readOuterHeader_cases (type b : Bytes) :
    (∃ e, readOuterHeader b type = .error (.error e)) ∨ ∃ after, b = header type ++ after := by
  by_cases hshort : b.length < 9
  · rw [readOuterHeader, if_pos hshort]
    exact .inl ⟨_, rfl⟩
  · obtain ⟨front, b, rfl, hfront⟩ := exists_split b 1 (by omega)
    obtain ⟨marker, rfl⟩ := List.length_eq_one_iff.mp hfront
    rw [List.length_append, hfront] at hshort
    obtain ⟨word, b, rfl, hword⟩ := exists_split b 4 (by omega)
    rw [List.length_append, hword] at hshort
    obtain ⟨srid, after, rfl, hsrid⟩ := exists_split b 4 (by omega)
    rw [List.singleton_append, readOuterHeader_append type word srid after marker hword hsrid]
    by_cases hmarker : marker ≠ endianByte
    · rw [if_pos hmarker]
      exact .inl ⟨_, rfl⟩
    · by_cases hsame : word ≠ type
      · rw [if_neg hmarker, if_pos hsame]
        exact .inl ⟨_, rfl⟩
      · by_cases hvalue : ofLeBytes srid ≠ srid4326
        · rw [if_neg hmarker, if_neg hsame, if_pos hvalue]
          exact .inl ⟨_, rfl⟩
        · have hbytes := leBytes_of_ofLeBytes srid 4 srid4326 hsrid (not_not.mp hvalue)
          refine .inr ⟨after, ?_⟩
          rw [not_not.mp hmarker, not_not.mp hsame, hbytes, header, List.cons_append,
            List.append_assoc]
          rfl

/-! ## Decoders -/

theorem decodeBody_complete {R : EwkbReader α} {f : α → Bytes} {allowed : α → Prop}
    (type : Bytes) (htype : type.length = 4) (hR : Reads R f allowed) (a : α) (more : Bytes)
    (ha : allowed a) : decodeBody type R (header type ++ (f a ++ more)) = .ok a := by
  have hbody := hR.complete (header type) a more ha
  rw [length_header type htype] at hbody
  rw [decodeBody, readOuterHeader_ok type _ htype]
  simp only [Bind.bind, Except.bind, hbody]
  rfl

theorem decodeBody_cases {R : EwkbReader α} {f : α → Bytes} {allowed : α → Prop}
    (type : Bytes) (htype : type.length = 4) (hR : Reads R f allowed) (b : Bytes) :
    (∃ e, decodeBody type R b = .error (.error e)) ∨
      ∃ a more, decodeBody type R b = .ok a ∧ allowed a ∧ b = header type ++ (f a ++ more) := by
  rcases readOuterHeader_cases type b with ⟨e, he⟩ | ⟨after, rfl⟩
  · refine .inl ⟨e, ?_⟩
    rw [decodeBody, he]
    rfl
  · have hsound := hR.sound (header type) after
    have htotal := hR.total (header type) after
    rw [length_header type htype] at hsound htotal
    rw [decodeBody, readOuterHeader_ok type _ htype]
    simp only [Bind.bind, Except.bind]
    cases hbody : R (header type ++ after) 9 with
    | error fault =>
      cases fault with
      | panic => exact absurd hbody htotal
      | error e => exact .inl ⟨e, rfl⟩
    | ok r =>
      obtain ⟨hallowed, -, more, rfl⟩ := hsound r hbody
      exact .inr ⟨r.value, more, rfl, hallowed, rfl⟩

theorem pointOfEwkb_complete (p : GeoPoint) :
    pointOfEwkb (header typeBytes ++ pointLayout p) = .ok p := by
  have hpair := readCoordPair_reads.complete (header typeBytes) ⟨p.lon, p.lat⟩ [] trivial
  have hlen : (header typeBytes ++ pointLayout p).length = ewkbLen := by
    rw [List.length_append, length_pointLayout]
    rfl
  rw [List.append_nil, length_header typeBytes rfl] at hpair
  have hnew := (GeoPoint.new_ok_iff p.lat p.lon p).mpr ⟨rfl, rfl⟩
  rw [pointOfEwkb, decodePoint, if_neg (not_not_intro hlen), readOuterHeader_ok typeBytes _ rfl]
  simp only [Bind.bind, Except.bind]
  rw [pointLayout, hpair]
  simp only [Pure.pure, Except.pure, hnew]
  rfl

theorem pointOfEwkb_cases (b : Bytes) :
    (∃ e, pointOfEwkb b = .error (.error e)) ∨
      ∃ p, pointOfEwkb b = .ok p ∧ b = header typeBytes ++ pointLayout p := by
  by_cases hlen : b.length ≠ ewkbLen
  · rw [pointOfEwkb, decodePoint, if_pos hlen]
    exact .inl ⟨_, rfl⟩
  · rcases readOuterHeader_cases typeBytes b with ⟨e, he⟩ | ⟨after, rfl⟩
    · rw [pointOfEwkb, decodePoint, if_neg hlen, he]
      exact .inl ⟨e, rfl⟩
    · rw [not_not, List.length_append] at hlen
      have hafter : after.length = 16 := Nat.add_left_cancel (n := 9) hlen
      have hsound := readCoordPair_reads.sound (header typeBytes) after
      have htotal := readCoordPair_reads.total (header typeBytes) after
      rw [length_header typeBytes rfl] at hsound htotal
      rw [pointOfEwkb, decodePoint, if_neg (by rw [List.length_append, hafter]; decide),
        readOuterHeader_ok typeBytes _ rfl]
      simp only [Bind.bind, Except.bind]
      cases hpair : readCoordPair (header typeBytes ++ after) 9 with
      | error fault =>
        cases fault with
        | panic => exact absurd hpair htotal
        | error e => exact .inl ⟨e, rfl⟩
      | ok r =>
        obtain ⟨-, -, more, rfl⟩ := hsound r hpair
        simp only [Pure.pure, Except.pure]
        cases hnew : GeoPoint.new r.value.lat r.value.lon with
        | error e => exact .inl ⟨e, rfl⟩
        | ok p =>
          obtain ⟨hlat, hlon⟩ := (GeoPoint.new_ok_iff _ _ _).mp hnew
          have hmore : more = [] := by
            rw [List.length_append, coordLayout, List.length_append, length_leBytes,
              length_leBytes] at hafter
            exact List.length_eq_zero_iff.mp (by omega)
          refine .inr ⟨p, rfl, ?_⟩
          rw [hmore, List.append_nil, pointLayout, hlat, hlon]

/-! ## Encodings and their lengths -/

theorem encodePointInto_eq (p : GeoPoint) :
    encodePointInto p [] = header typeBytes ++ pointLayout p := by
  rw [encodePointInto, pushCoordPair_eq, pushOuterHeader_eq, List.nil_append]

/-- A collection whose parts have a header each. -/
theorem pushParts_ok (type word : Bytes) (push : Bytes → α → Outcome Bytes) (f : α → Bytes)
    (l : List α) (hl : Countable l) (hpush : ∀ buf, ∀ a ∈ l, push buf a = .ok (buf ++ f a)) :
    ((encodeCountU32 l.length).bind fun n =>
      l.foldlM (fun buf a => push (buf ++ [endianByte] ++ word) a)
        (pushOuterHeader [] type ++ leBytes 4 n)) =
      .ok (header type ++ counted (fun a => subHeader word ++ f a) l) := by
  rw [encodeCountU32_ok l hl, Except.bind, pushOuterHeader_eq, List.nil_append,
    foldlM_append _ (fun a => subHeader word ++ f a) l _ fun buf a ha => ?_, counted,
    List.append_assoc]
  rw [hpush _ a ha, subHeader]
  simp

theorem encodeMultipointInto_ok (mp : MultiPoint) (h : Countable mp.items) :
    encodeMultipointInto mp [] = .ok (header typeMultipoint ++ counted subPointLayout mp.items) := by
  rw [encodeMultipointInto, encodeCountU32_ok mp.items h]
  simp only [Bind.bind, Except.bind, Pure.pure, Except.pure]
  rw [foldl_append _ subPointLayout mp.items _ fun buf p _ => ?_, pushOuterHeader_eq,
    List.nil_append, counted, List.append_assoc]
  rw [pushCoordPair_eq, subPointLayout, subHeader]
  simp

theorem encodeMultilinestringInto_ok (mls : MultiLineString)
    (h : Countable mls.items ∧ ∀ ls ∈ mls.items, Countable ls.points) :
    encodeMultilinestringInto mls [] =
      .ok (header typeMultilinestring ++ counted subLinestringLayout mls.items) :=
  pushParts_ok typeMultilinestring subtypeLinestring
    (fun buf (ls : LineString) => pushPoints buf ls.points)
    (fun ls => counted pointLayout ls.points) mls.items h.1
    fun buf ls hls => pushPoints_ok buf ls.points (h.2 ls hls)

theorem encodeMultipolygonInto_ok (mp : MultiPolygon)
    (h : Countable mp.items ∧ ∀ poly ∈ mp.items, PolygonSized poly) :
    encodeMultipolygonInto mp [] =
      .ok (header typeMultipolygon ++ counted subPolygonLayout mp.items) :=
  pushParts_ok typeMultipolygon subtypePolygon pushRings ringsLayout mp.items h.1
    fun buf poly hpoly => pushRings_ok buf poly (h.2 poly hpoly)

theorem length_flatMap_const (f : α → Bytes) (n : ℕ) (l : List α) (h : ∀ a, (f a).length = n) :
    (l.flatMap f).length = n * l.length := by
  induction l with
  | nil => rfl
  | cons a l ih => rw [List.flatMap_cons, List.length_append, ih, h, List.length_cons]; ring

/-- A length that is added up part by part. -/
theorem foldl_length (step : ℕ → α → ℕ) (f : α → Bytes) (l : List α) (n : ℕ)
    (h : ∀ n a, step n a = n + (f a).length) : l.foldl step n = n + (l.flatMap f).length := by
  induction l generalizing n with
  | nil => rfl
  | cons a l ih => rw [List.foldl_cons, h, ih, List.flatMap_cons, List.length_append, Nat.add_assoc]

theorem length_points (points : List GeoPoint) :
    (counted pointLayout points).length = 4 + 16 * points.length := by
  rw [counted, List.length_append, length_leBytes,
    length_flatMap_const pointLayout 16 points length_pointLayout]

theorem length_rings (rings : List (List GeoPoint)) :
    (rings.flatMap (counted pointLayout)).length =
      rings.length * 4 + (rings.map List.length).sum * 16 := by
  induction rings with
  | nil => rfl
  | cons ring rings ih =>
    rw [List.flatMap_cons, List.length_append, ih, length_points, List.length_cons, List.map_cons,
      List.sum_cons]
    ring

theorem length_ringsLayout (poly : Polygon) :
    (ringsLayout poly).length =
      4 + poly.rings.length * 4 + (poly.rings.map List.length).sum * 16 := by
  rw [ringsLayout, counted, List.length_append, length_leBytes, length_rings, Nat.add_assoc]

theorem length_pointText (p : GeoPoint) :
    (header typeBytes ++ pointLayout p).length = ewkbLen := by
  rw [List.length_append, length_header _ rfl, length_pointLayout]
  rfl

theorem length_linestringText (ls : LineString) :
    (header typeLinestring ++ counted pointLayout ls.points).length = linestringByteLen ls := by
  rw [List.length_append, length_header _ rfl, length_points, linestringByteLen, Nat.add_assoc]

theorem length_polygonText (poly : Polygon) :
    (header typePolygon ++ ringsLayout poly).length = polygonByteLen poly := by
  rw [List.length_append, length_header _ rfl, length_ringsLayout, polygonByteLen]
  omega

theorem length_multipointText (mp : MultiPoint) :
    (header typeMultipoint ++ counted subPointLayout mp.items).length = multipointByteLen mp := by
  have hpart (p : GeoPoint) : (subPointLayout p).length = 21 := by
    rw [subPointLayout, List.length_append, length_pointLayout]
    rfl
  rw [List.length_append, length_header _ rfl, counted, List.length_append, length_leBytes,
    length_flatMap_const subPointLayout 21 mp.items hpart, multipointByteLen, Nat.add_assoc]

theorem length_multilinestringText (mls : MultiLineString) :
    (header typeMultilinestring ++ counted subLinestringLayout mls.items).length =
      multilinestringByteLen mls := by
  have hpart (n : ℕ) (ls : LineString) :
      n + (5 + 4 + ls.points.length * 16) = n + (subLinestringLayout ls).length := by
    rw [subLinestringLayout, List.length_append, length_points]
    simp only [subHeader, subtypeLinestring, List.length_cons, List.length_nil]
    omega
  rw [List.length_append, length_header _ rfl, counted, List.length_append, length_leBytes,
    multilinestringByteLen, foldl_length _ subLinestringLayout mls.items _ hpart, Nat.add_assoc]

theorem length_multipolygonText (mp : MultiPolygon) :
    (header typeMultipolygon ++ counted subPolygonLayout mp.items).length =
      multipolygonByteLen mp := by
  have hsum (rings : List (List GeoPoint)) (n : ℕ) :
      rings.foldl (fun len ring => len + ring.length * 16) n =
        n + (rings.map List.length).sum * 16 := by
    induction rings generalizing n with
    | nil => rfl
    | cons ring rings ih =>
      rw [List.foldl_cons, ih, List.map_cons, List.sum_cons]
      ring
  have hpart (n : ℕ) (poly : Polygon) :
      poly.rings.foldl (fun len ring => len + ring.length * 16)
        (n + (5 + 4 + poly.rings.length * 4)) = n + (subPolygonLayout poly).length := by
    rw [hsum, subPolygonLayout, List.length_append, length_ringsLayout]
    simp only [subHeader, subtypePolygon, List.length_cons, List.length_nil]
    omega
  rw [List.length_append, length_header _ rfl, counted, List.length_append, length_leBytes,
    multipolygonByteLen, foldl_length _ subPolygonLayout mp.items _ hpart, Nat.add_assoc]

/-! ## The six codecs -/

inductive Geography
  | point | lineString | polygon | multiPoint | multiLineString | multiPolygon
  deriving DecidableEq

namespace Geography

def Value : Geography → Type
  | point => GeoPoint
  | lineString => LineString
  | polygon => Polygon
  | multiPoint => MultiPoint
  | multiLineString => MultiLineString
  | multiPolygon => MultiPolygon

/-- `to_ewkb_bytes`. -/
def encode : (k : Geography) → k.Value → Outcome Bytes
  | point, p => .ok (encodePointInto p [])
  | lineString, ls => encodeLinestringInto ls []
  | polygon, poly => encodePolygonInto poly []
  | multiPoint, mp => encodeMultipointInto mp []
  | multiLineString, mls => encodeMultilinestringInto mls []
  | multiPolygon, mp => encodeMultipolygonInto mp []

def byteLen : (k : Geography) → k.Value → ℕ
  | point, _ => ewkbLen
  | lineString, ls => linestringByteLen ls
  | polygon, poly => polygonByteLen poly
  | multiPoint, mp => multipointByteLen mp
  | multiLineString, mls => multilinestringByteLen mls
  | multiPolygon, mp => multipolygonByteLen mp

/-- `from_ewkb_bytes`. -/
def decode : (k : Geography) → Bytes → Outcome k.Value
  | point => pointOfEwkb
  | lineString => decodeLinestring
  | polygon => decodePolygon
  | multiPoint => decodeMultipoint
  | multiLineString => decodeMultilinestring
  | multiPolygon => decodeMultipolygon

/-- Every count of the value is below 2^32. -/
def Sized : (k : Geography) → k.Value → Prop
  | point, _ => True
  | lineString, ls => Countable ls.points
  | polygon, poly => PolygonSized poly
  | multiPoint, mp => Countable mp.items
  | multiLineString, mls => Countable mls.items ∧ ∀ ls ∈ mls.items, Countable ls.points
  | multiPolygon, mp => Countable mp.items ∧ ∀ poly ∈ mp.items, PolygonSized poly

def layout : (k : Geography) → k.Value → Bytes
  | point, p => header typeBytes ++ pointLayout p
  | lineString, ls => header typeLinestring ++ counted pointLayout ls.points
  | polygon, poly => header typePolygon ++ ringsLayout poly
  | multiPoint, mp => header typeMultipoint ++ counted subPointLayout mp.items
  | multiLineString, mls => header typeMultilinestring ++ counted subLinestringLayout mls.items
  | multiPolygon, mp => header typeMultipolygon ++ counted subPolygonLayout mp.items

/-- A complete text of the format. -/
def IsText (k : Geography) (text : Bytes) : Prop := ∃ g, k.Sized g ∧ text = k.layout g

theorem encode_ok (k : Geography) (g : k.Value) (h : k.Sized g) :
    k.encode g = .ok (k.layout g) := by
  cases k with
  | point => exact congrArg Except.ok (encodePointInto_eq g)
  | lineString => exact (pushPoints_ok _ _ h).trans (by rw [pushOuterHeader_eq]; rfl)
  | polygon => exact (pushRings_ok _ _ h).trans (by rw [pushOuterHeader_eq]; rfl)
  | multiPoint => exact encodeMultipointInto_ok g h
  | multiLineString => exact encodeMultilinestringInto_ok g h
  | multiPolygon => exact encodeMultipolygonInto_ok g h

/-- **Lengths** are those of the encodings. -/
theorem length_layout (k : Geography) (g : k.Value) : (k.layout g).length = k.byteLen g := by
  cases k with
  | point => exact length_pointText g
  | lineString => exact length_linestringText g
  | polygon => exact length_polygonText g
  | multiPoint => exact length_multipointText g
  | multiLineString => exact length_multilinestringText g
  | multiPolygon => exact length_multipolygonText g

/-- A text is read whatever follows it; only a point refuses what follows. -/
theorem decode_complete (k : Geography) (g : k.Value) (more : Bytes) (h : k.Sized g)
    (hmore : k = .point → more = []) : k.decode (k.layout g ++ more) = .ok g := by
  cases k with
  | point =>
    rw [hmore rfl, List.append_nil]
    exact pointOfEwkb_complete g
  | lineString =>
    exact (congrArg _ (List.append_assoc _ _ _)).trans
      (decodeBody_complete typeLinestring rfl linestringBody_reads g more h)
  | polygon =>
    exact (congrArg _ (List.append_assoc _ _ _)).trans
      (decodeBody_complete typePolygon rfl (decodePolygonBody_reads _) g more h)
  | multiPoint =>
    exact (congrArg _ (List.append_assoc _ _ _)).trans
      (decodeBody_complete typeMultipoint rfl multipointBody_reads g more ⟨h, fun _ _ => trivial⟩)
  | multiLineString =>
    exact (congrArg _ (List.append_assoc _ _ _)).trans
      (decodeBody_complete typeMultilinestring rfl multilinestringBody_reads g more h)
  | multiPolygon =>
    exact (congrArg _ (List.append_assoc _ _ _)).trans
      (decodeBody_complete typeMultipolygon rfl multipolygonBody_reads g more h)

theorem decode_cases (k : Geography) (b : Bytes) :
    (∃ e, k.decode b = .error (.error e)) ∨
      ∃ g more, k.decode b = .ok g ∧ k.Sized g ∧ b = k.layout g ++ more := by
  have hassoc {α : Type} {t : Bytes} {f : α → Bytes} {D : Bytes → Outcome α}
      {allowed sized : α → Prop} (hsized : ∀ a, allowed a → sized a)
      (h : (∃ e, D b = .error (.error e)) ∨
        ∃ a more, D b = .ok a ∧ allowed a ∧ b = header t ++ (f a ++ more)) :
      (∃ e, D b = .error (.error e)) ∨
        ∃ a more, D b = .ok a ∧ sized a ∧ b = header t ++ f a ++ more := by
    rcases h with he | ⟨a, more, hok, ha, hb⟩
    · exact .inl he
    · exact .inr ⟨a, more, hok, hsized a ha, hb.trans (List.append_assoc _ _ _).symm⟩
  cases k with
  | point =>
    rcases pointOfEwkb_cases b with he | ⟨p, hok, hb⟩
    · exact .inl he
    · exact .inr ⟨p, [], hok, trivial, hb.trans (List.append_nil _).symm⟩
  | lineString => exact hassoc (fun _ h => h) (decodeBody_cases _ rfl linestringBody_reads b)
  | polygon => exact hassoc (fun _ h => h) (decodeBody_cases _ rfl (decodePolygonBody_reads _) b)
  | multiPoint => exact hassoc (fun _ h => h.1) (decodeBody_cases _ rfl multipointBody_reads b)
  | multiLineString =>
    exact hassoc (fun _ h => h) (decodeBody_cases _ rfl multilinestringBody_reads b)
  | multiPolygon => exact hassoc (fun _ h => h) (decodeBody_cases _ rfl multipolygonBody_reads b)

end Geography

/-- **Decoding and encoding.** Every value is decoded from its encoding, which is as long as was
computed. No decoder panics. A decoder accepts nothing but encodings of what it gives exactly on the
inputs that are not a complete text of its format with further bytes behind it; the one of points
does so on all inputs. -/
theorem ewkb_exact_iff (k : Geography) :
    (∀ g, k.Sized g → ∃ b, k.encode g = .ok b ∧ b.length = k.byteLen g ∧ k.decode b = .ok g) ∧
      ∀ b, k.decode b ≠ .error .panic ∧
        ((∀ g, k.decode b = .ok g → k.encode g = .ok b) ↔
          k = .point ∨ ∀ text more, k.IsText text → b = text ++ more → more = []) := by
  refine ⟨fun g hg => ?_, fun b => ⟨fun h => ?_, ?_⟩⟩
  · have hread := k.decode_complete g [] hg fun _ => rfl
    rw [List.append_nil] at hread
    exact ⟨k.layout g, k.encode_ok g hg, k.length_layout g, hread⟩
  · rcases k.decode_cases b with ⟨e, he⟩ | ⟨g, more, hok, -⟩
    · rw [he] at h
      cases h
    · rw [hok] at h
      cases h
  · constructor
    · intro h
      by_cases hpoint : k = .point
      · exact .inl hpoint
      · refine .inr ?_
        rintro text more ⟨g, hg, rfl⟩ rfl
        have hsame := h g (k.decode_complete g more hg fun hk => absurd hk hpoint)
        rw [k.encode_ok g hg] at hsame
        exact (List.append_right_eq_self.mp (Except.ok.inj hsame).symm)
    · intro h g hok
      rcases k.decode_cases b with ⟨e, he⟩ | ⟨g', more, hok', hg', hb⟩
      · rw [he] at hok
        cases hok
      · obtain rfl : g' = g := Except.ok.inj (hok'.symm.trans hok)
        have hmore : more = [] := by
          rcases h with hk | htexts
          · subst hk
            rcases pointOfEwkb_cases b with ⟨e, he⟩ | ⟨p, hp, hb'⟩
            · exact absurd (hok.symm.trans he) (by simp)
            · obtain rfl : p = g' := Except.ok.inj (hp.symm.trans hok)
              exact List.append_right_eq_self.mp (hb.symm.trans hb')
          · exact htexts _ more ⟨g', hg', rfl⟩ hb
        rw [hb, hmore, List.append_nil]
        exact k.encode_ok g' hg'

def zeroLine : LineString := ⟨List.replicate 2 ⟨0, 0, by decide, by decide⟩, by decide⟩

/-- The line is read although a byte stands behind its text. -/
theorem ewkb_trailing :
    decodeLinestring
        ([1, 2, 0, 0, 0x20, 0xe6, 0x10, 0, 0, 2, 0, 0, 0] ++ List.replicate 33 0) = .ok zeroLine ∧
      encodeLinestringInto zeroLine [] ≠
        .ok ([1, 2, 0, 0, 0x20, 0xe6, 0x10, 0, 0, 2, 0, 0, 0] ++ List.replicate 33 0) := by
  have hread : (decodeLinestring
      ([1, 2, 0, 0, 0x20, 0xe6, 0x10, 0, 0, 2, 0, 0, 0] ++ List.replicate 33 0)).toOption =
        some zeroLine := by decide +kernel
  refine ⟨?_, fun h => ?_⟩
  · cases hcase : decodeLinestring
        ([1, 2, 0, 0, 0x20, 0xe6, 0x10, 0, 0, 2, 0, 0, 0] ++ List.replicate 33 0) with
    | error e =>
      rw [hcase] at hread
      cases hread
    | ok ls =>
      rw [hcase] at hread
      rw [Option.some.inj hread]
  · have hlen : (encodeLinestringInto zeroLine []).toOption.map List.length = some 45 := by
      decide +kernel
    rw [h] at hlen
    cases hlen

end Djogi.Geo

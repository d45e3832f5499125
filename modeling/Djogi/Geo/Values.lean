import Djogi.Lib.Fallible
import Mathlib.Data.List.Basic

/-!
# Geography values

The values of `geo/`: points on the globe and what is made of them. A coordinate is the bit pattern
of an `f64`. Every value is as its constructor checked it.

* `validateRings_iff`: what the constructor of polygons checks;
* `GeoPoint.new_ok_iff`, `Polygon.fromRings_ok_iff` and their kin: a constructor keeps what it gets.
-/

namespace Djogi.Geo

/-- The bit pattern of an `f64`. -/
abbrev F64 := UInt64

inductive GeoError
  | invalidLatitude (value : F64)
  | invalidLongitude (value : F64)
  | malformedEwkb (text : String)
  /-- A text that ends with another error. -/
  | malformedBy (text : String) (cause : GeoError)
  | unexpectedSrid (srid : ℕ)
  | invalidLineString (got need : ℕ)
  | invalidPolygon (reason : String)
  | invalidMultiPoint (reason : String)
  | invalidMultiPolygon (reason : String)
  | invalidMultiLineString (reason : String)
  deriving DecidableEq

/-! ## Coordinates -/

/-- The pattern without its sign; a number's size grows with it, and NaN is above infinity. -/
def magnitude (x : F64) : F64 := x &&& 0x7fffffffffffffff

def isFinite (x : F64) : Bool := magnitude x < 0x7ff0000000000000

def isNan (x : F64) : Bool := 0x7ff0000000000000 < magnitude x

/-- The pattern of 90. -/
def maxLat : F64 := 0x4056800000000000

/-- The pattern of 180. -/
def maxLon : F64 := 0x4066800000000000

def validLat (lat : F64) : Bool := isFinite lat && magnitude lat ≤ maxLat

def validLon (lon : F64) : Bool := isFinite lon && magnitude lon ≤ maxLon

/-- `==` on numbers: zero has two patterns, NaN is not itself. -/
def sameNumber (x y : F64) : Bool :=
  !isNan x && !isNan y && (x == y || (magnitude x == 0 && magnitude y == 0))

structure GeoPoint where
  lat : F64
  lon : F64
  hlat : validLat lat = true
  hlon : validLon lon = true
  deriving DecidableEq

def GeoPoint.new (lat lon : F64) : Except GeoError GeoPoint :=
  if hlat : validLat lat = true then
    if hlon : validLon lon = true then .ok ⟨lat, lon, hlat, hlon⟩
    else .error (.invalidLongitude lon)
  else .error (.invalidLatitude lat)

def GeoPoint.same (p q : GeoPoint) : Bool := sameNumber p.lat q.lat && sameNumber p.lon q.lon

theorem GeoPoint.new_ok_iff (lat lon : F64) (p : GeoPoint) :
    GeoPoint.new lat lon = .ok p ↔ p.lat = lat ∧ p.lon = lon := by
  obtain ⟨lat', lon', hlat, hlon⟩ := p
  constructor
  · intro h
    unfold GeoPoint.new at h
    split_ifs at h
    cases h
    exact ⟨rfl, rfl⟩
  · rintro ⟨rfl, rfl⟩
    rw [GeoPoint.new, dif_pos hlat, dif_pos hlon]

/-! ## Lines and collections -/

structure LineString where
  points : List GeoPoint
  enough : 2 ≤ points.length
  deriving DecidableEq

def LineString.new (points : List GeoPoint) : Except GeoError LineString :=
  if h : points.length < 2 then .error (.invalidLineString points.length 2)
  else .ok ⟨points, Nat.le_of_not_lt h⟩

theorem LineString.new_ok_iff (points : List GeoPoint) (l : LineString) :
    LineString.new points = .ok l ↔ l.points = points := by
  obtain ⟨points', enough⟩ := l
  constructor
  · intro h
    unfold LineString.new at h
    split_ifs at h
    cases h
    rfl
  · rintro rfl
    exact dif_neg (Nat.not_lt_of_le enough)

/-- A collection with at least one part. -/
structure Multi (α : Type) where
  items : List α
  nonempty : items ≠ []
  deriving DecidableEq

variable {α : Type}

def Multi.of (refused : GeoError) (items : List α) : Except GeoError (Multi α) :=
  if h : items = [] then .error refused else .ok ⟨items, h⟩

theorem Multi.of_ok_iff (refused : GeoError) (items : List α) (m : Multi α) :
    Multi.of refused items = .ok m ↔ m.items = items := by
  obtain ⟨items', nonempty⟩ := m
  constructor
  · intro h
    unfold Multi.of at h
    split_ifs at h
    cases h
    rfl
  · rintro rfl
    exact dif_neg nonempty

abbrev MultiPoint := Multi GeoPoint

def MultiPoint.new (points : List GeoPoint) : Except GeoError MultiPoint :=
  Multi.of (.invalidMultiPoint "need at least 1 point") points

abbrev MultiLineString := Multi LineString

def MultiLineString.new (lines : List LineString) : Except GeoError MultiLineString :=
  Multi.of (.invalidMultiLineString "need at least 1 linestring") lines

/-! ## Polygons -/

/-- The first point of a ring is its last one. -/
def endsMeet (ring : List GeoPoint) : Bool :=
  ring.head?.any fun p => ring.getLast?.any fun q => p.same q

def RingOk (ring : List GeoPoint) : Prop := 4 ≤ ring.length ∧ endsMeet ring = true

def validateRing (label : String) (ring : List GeoPoint) : Except GeoError Unit :=
  if ring.length < 4 then .error (.invalidPolygon label)
  else if endsMeet ring then .ok ()
  else .error (.invalidPolygon "ring is not closed (first point != last point)")

def validateRings : List (List GeoPoint) → Except GeoError Unit
  | [] => .error (.invalidPolygon "Polygon needs at least one ring")
  | outer :: holes => do
      validateRing "outer ring needs at least 4 points and must be closed" outer
      holes.forM (validateRing "hole ring needs at least 4 points and must be closed")

theorem validateRing_iff (label : String) (ring : List GeoPoint) :
    validateRing label ring = .ok () ↔ RingOk ring := by
  unfold validateRing RingOk
  constructor
  · intro h
    split_ifs at h with hlen hmeet
    exact ⟨by omega, hmeet⟩
  · rintro ⟨hlen, hmeet⟩
    rw [if_neg (by omega), if_pos hmeet]

theorem validateRings_iff (rings : List (List GeoPoint)) :
    validateRings rings = .ok () ↔ rings ≠ [] ∧ ∀ ring ∈ rings, RingOk ring := by
  cases rings with
  | nil => simp [validateRings]
  | cons outer holes =>
    rw [validateRings, Fallible.bind_ok_iff]
    simp only [Fallible.forM_ok_iff, validateRing_iff, List.forall_mem_cons]
    constructor
    · rintro ⟨⟨⟩, houter, hholes⟩
      exact ⟨List.cons_ne_nil _ _, (validateRing_iff _ _).mp houter, hholes⟩
    · rintro ⟨-, houter, hholes⟩
      exact ⟨(), (validateRing_iff _ _).mpr houter, hholes⟩

structure Polygon where
  rings : List (List GeoPoint)
  nonempty : rings ≠ []
  closed : ∀ ring ∈ rings, RingOk ring
  deriving DecidableEq

def Polygon.fromRings (rings : List (List GeoPoint)) : Except GeoError Polygon :=
  match h : validateRings rings with
  | .error e => .error e
  | .ok () => .ok ⟨rings, ((validateRings_iff rings).mp h).1, ((validateRings_iff rings).mp h).2⟩

theorem Polygon.fromRings_ok_iff (rings : List (List GeoPoint)) (poly : Polygon) :
    Polygon.fromRings rings = .ok poly ↔ poly.rings = rings := by
  obtain ⟨rings', nonempty, closed⟩ := poly
  unfold Polygon.fromRings
  constructor
  · intro h
    split at h
    · cases h
    · cases h
      rfl
  · rintro rfl
    have hvalid := (validateRings_iff rings').mpr ⟨nonempty, closed⟩
    split
    · rename_i e he
      rw [hvalid] at he
      cases he
    · rfl

abbrev MultiPolygon := Multi Polygon

def MultiPolygon.new (polygons : List Polygon) : Except GeoError MultiPolygon :=
  Multi.of (.invalidMultiPolygon "need at least 1 polygon") polygons

end Djogi.Geo

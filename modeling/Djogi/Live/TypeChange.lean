import Djogi.Lib.Text
import Djogi.Sql

/-!
# Type changes

The type-change arm of `live_migrate/classify.rs`: which pairs of SQL types widen, which narrow, and
the verdict on the others. Type texts are parsed by hand, with one list of aliases for the widening
test and another one for the narrowing test.
-/

namespace Djogi.Live

open Text

inductive OnlineSafetyClassification
  | onlineSafe | fastLockDestructiveGuarded | expandContract | offlineOnly
  deriving DecidableEq, Repr

/-! ## Parsers -/

def toAsciiLowercase (s : List Char) : List Char := s.map Char.toLower

def trimStartChars (s : List Char) : List Char := s.dropWhile isWhitespace

def digitsValue (digits : List Char) : ℕ :=
  digits.foldl (fun n c => 10 * n + (c.toNat - '0'.toNat)) 0

/-- `str::parse` at `u32`. -/
def parseU32 (s : List Char) : Option ℕ :=
  let digits := if s.head? = some '+' then s.tail else s
  if digits ≠ [] ∧ digits.all Char.isDigit ∧ digitsValue digits ≤ 4294967295 then
    some (digitsValue digits)
  else none

/-- What stands between the parentheses around a text. -/
def parenthesized (rest : List Char) : Option (List Char) :=
  if rest.head? = some '(' ∧ rest.getLast? = some ')' then
    some (trimChars (rest.tail.dropLast))
  else none

def canonicalIntWidth (name : List Char) : Option ℕ :=
  if name = "bigint".toList ∨ name = "int8".toList then some 64
  else if name = "integer".toList ∨ name = "int".toList ∨ name = "int4".toList then some 32
  else if name = "smallint".toList ∨ name = "int2".toList then some 16
  else none

inductive NumericTypmod
  | unbounded
  | bounded (precision scale : ℕ)
  deriving DecidableEq, Repr

def parseTypmod (inner : List Char) : Option NumericTypmod :=
  if inner.isEmpty then some .unbounded
  else match splitChars ',' inner with
    | [p] => (parseU32 (trimChars p)).map fun precision => .bounded precision 0
    | [p, s] =>
        match parseU32 (trimChars p), parseU32 (trimChars s) with
        | some precision, some scale => some (.bounded precision scale)
        | _, _ => none
    | _ => none

def parseNumericParams (t : List Char) : Option NumericTypmod :=
  let normalized := trimChars t
  let named := (stripPrefix "numeric".toList normalized).or
    (stripPrefix "decimal".toList normalized)
  named.bind fun rest =>
    let rest := trimStartChars rest
    if rest.isEmpty then some .unbounded
    else (parenthesized rest).bind parseTypmod

inductive CharKind
  | varchar | char
  deriving DecidableEq, Repr

/-- The kind, and what stands behind its name. -/
def charKind (normalized : List Char) : Option (CharKind × List Char) :=
  match stripPrefix "character varying".toList normalized with
  | some rest => some (.varchar, trimStartChars rest)
  | none => match stripPrefix "varchar".toList normalized with
    | some rest => some (.varchar, trimStartChars rest)
    | none => match stripPrefix "character".toList normalized with
      | some rest => some (.char, trimStartChars rest)
      | none => (stripPrefix "char".toList normalized).map fun rest => (.char, trimStartChars rest)

def parseVarchar (t : List Char) : Option (CharKind × Option ℕ) :=
  (charKind (trimChars t)).bind fun p =>
    if p.2.isEmpty then some (p.1, none)
    else (parenthesized p.2).bind fun inner => (parseU32 inner).map fun len => (p.1, some len)

/-! ## Verdicts -/

def wideningInts : List (String × String) :=
  [("smallint", "integer"), ("smallint", "bigint"), ("integer", "bigint"), ("int2", "int4"),
   ("int2", "int8"), ("int4", "int8")]

/-- Two lengths of one kind. -/
def sameKindLengths (from_ to_ : Option (CharKind × Option ℕ)) : Option (ℕ × ℕ) :=
  match from_, to_ with
  | some (fromKind, some fl), some (toKind, some tl) =>
      if fromKind = toKind then some (fl, tl) else none
  | _, _ => none

def isBinaryCoercibleWidening (from_ to_ : List Char) : Bool :=
  let f := toAsciiLowercase (trimChars from_)
  let t := toAsciiLowercase (trimChars to_)
  (wideningInts.any fun p => p.1.toList = f ∧ p.2.toList = t) ||
    ((sameKindLengths (parseVarchar f) (parseVarchar t)).any fun l => l.1 ≤ l.2) ||
    (parseVarchar f).isSome && t = "text".toList

def typmodNarrows : NumericTypmod → NumericTypmod → Bool
  | .bounded fp fs, .bounded tp ts => tp < fp || ts < fs || tp - ts < fp - fs
  | .unbounded, .bounded _ _ => true
  | _, _ => false

def isNarrowingOrTruncating (from_ to_ : List Char) : Bool :=
  let f := toAsciiLowercase (trimChars from_)
  let t := toAsciiLowercase (trimChars to_)
  (match canonicalIntWidth f, canonicalIntWidth t with
    | some fw, some tw => tw < fw
    | _, _ => false) ||
  ((sameKindLengths (parseVarchar f) (parseVarchar t)).any fun l => l.2 < l.1) ||
  (f = "text".toList && (parseVarchar t).isSome) ||
  (match parseNumericParams f, parseNumericParams t with
    | some a, some b => typmodNarrows a b
    | _, _ => false)

def classifyTypeChange (from_ to_ : List Char) : OnlineSafetyClassification :=
  if from_ = to_ then .onlineSafe
  else if isBinaryCoercibleWidening from_ to_ then .onlineSafe
  else if isNarrowingOrTruncating from_ to_ then .offlineOnly
  else .expandContract

end Djogi.Live

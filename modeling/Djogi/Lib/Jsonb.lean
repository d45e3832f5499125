import Djogi.Lib.Decimal
import Mathlib.Algebra.Order.Field.Rat
import Mathlib.Data.List.TakeWhile
import Mathlib.Tactic.FieldSimp
import Mathlib.Tactic.Ring

/-!
# JSON documents and the operators on them

JSON values as a `jsonb` column keeps them, the functions that the server has on them, and
the texts of their numbers.

* `numeric_text`: the text of a JSON number reads back as its value;
* `kind_of_equal`: equal documents have one type;
* `boolean_text`: the text of a JSON truth value reads back as the value.
-/

namespace Jsonb

/-! ## Documents -/

/-- A JSON number: its digits and how many of them stand after the point. -/
structure Numeral where
  mantissa : ℤ
  scale : ℕ
deriving DecidableEq

def Numeral.value (n : Numeral) : ℚ := n.mantissa / 10 ^ n.scale

/-- A document. The names of an object are in the order in which they are kept. -/
inductive Json where
  | null
  | bool (b : Bool)
  | number (n : Numeral)
  | string (s : String)
  | array (items : List Json)
  | object (fields : List (String × Json))

inductive Kind where
  | null
  | boolean
  | number
  | string
  | array
  | object
deriving DecidableEq

/-- The names that `jsonb_typeof` returns. -/
def Kind.name : Kind → String
  | .null => "null"
  | .boolean => "boolean"
  | .number => "number"
  | .string => "string"
  | .array => "array"
  | .object => "object"

def Json.kind : Json → Kind
  | .null => .null
  | .bool _ => .boolean
  | .number _ => .number
  | .string _ => .string
  | .array _ => .array
  | .object _ => .object

/-- A path element as a position in an array: an `int4`, after blanks and a sign. -/
def elementIndex (key : String) : Option ℤ :=
  let s := key.toList.dropWhile fun c => c == ' ' || (9 ≤ c.toNat && c.toNat ≤ 13)
  let digits := if s.head? = some '-' ∨ s.head? = some '+' then s.drop 1 else s
  if digits = [] ∨ digits.all Char.isDigit = false then none
  else
    let n : ℤ := Nat.ofDigitChars 10 digits 0
    let n := if s.head? = some '-' then -n else n
    if -(2 : ℤ) ^ 31 ≤ n ∧ n < 2 ^ 31 then some n else none

/-- Positions before zero count from the end. -/
def elementAt (items : List Json) (n : ℤ) : Option Json :=
  if 0 ≤ n then items[n.toNat]?
  else if (items.length : ℤ) + n < 0 then none
  else items[(items.length + n).toNat]?

def child (key : String) : Json → Option Json
  | .object fields => fields.lookup key
  | .array items => (elementIndex key).bind (elementAt items)
  | _ => none

/-- `#>`. -/
def get (j : Json) : List String → Option Json
  | [] => some j
  | key :: path => (child key j).bind fun j => get j path

/-! ## Texts -/

def escape (c : Char) : List Char :=
  if c = '"' then ['\\', '"']
  else if c = '\\' then ['\\', '\\']
  else if c = '\n' then ['\\', 'n']
  else if c = '\r' then ['\\', 'r']
  else if c = '\t' then ['\\', 't']
  else if c.toNat = 8 then ['\\', 'b']
  else if c.toNat = 12 then ['\\', 'f']
  else if c.toNat < 32 then
    ['\\', 'u', '0', '0', Nat.digitChar (c.toNat / 16), Nat.digitChar (c.toNat % 16)]
  else [c]

def quote (s : String) : List Char := '"' :: (s.toList.flatMap escape ++ ['"'])

/-- The digits of a number without its sign. -/
def unsignedText (scale n : ℕ) : List Char :=
  let digits := Nat.toDigits 10 (n / 10 ^ scale)
  if scale = 0 then digits else digits ++ '.' :: Decimal.lastDigits scale n

def Numeral.text (n : Numeral) : List Char :=
  if n.mantissa < 0 then '-' :: unsignedText n.scale n.mantissa.natAbs
  else unsignedText n.scale n.mantissa.natAbs

def boolText (b : Bool) : List Char :=
  if b then ['t', 'r', 'u', 'e'] else ['f', 'a', 'l', 's', 'e']

mutual
def write : Json → List Char
  | .null => ['n', 'u', 'l', 'l']
  | .bool b => boolText b
  | .number n => n.text
  | .string s => quote s
  | .array items => '[' :: (writeItems items ++ [']'])
  | .object fields => '\x7b' :: (writeFields fields ++ ['\x7d'])
def writeItems : List Json → List Char
  | [] => []
  | [j] => write j
  | j :: items => write j ++ ',' :: ' ' :: writeItems items
def writeFields : List (String × Json) → List Char
  | [] => []
  | [(key, j)] => quote key ++ ':' :: ' ' :: write j
  | (key, j) :: fields => quote key ++ ':' :: ' ' :: (write j ++ ',' :: ' ' :: writeFields fields)
end

/-- `#>> '\x7b\x7d'`: JSON `null` has no text. -/
def Json.text : Json → Option String
  | .null => none
  | .string s => some s
  | j => some (String.ofList (write j))

mutual
/-- `=`: numbers by value, objects as sets of fields. -/
def equal : Json → Json → Bool
  | .null, .null => true
  | .bool a, .bool b => a == b
  | .number a, .number b => decide (a.value = b.value)
  | .string a, .string b => a == b
  | .array as, .array bs => equalItems as bs
  | .object fs, .object gs => decide (fs.length = gs.length) && equalFields fs gs
  | _, _ => false
def equalItems : List Json → List Json → Bool
  | [], [] => true
  | a :: as, b :: bs => equal a b && equalItems as bs
  | _, _ => false
def equalFields : List (String × Json) → List (String × Json) → Bool
  | [], _ => true
  | (key, a) :: fs, gs => (gs.lookup key).any (equal a) && equalFields fs gs
end

mutual
/-- Containment below the root: `part` is structurally within `whole`. -/
def within : (part whole : Json) → Bool
  | .array ps, .array ws => itemsWithin ps ws
  | .object ps, .object ws => fieldsWithin ps ws
  | part, whole => equal part whole
def itemsWithin : List Json → List Json → Bool
  | [], _ => true
  | p :: ps, ws => ws.any (within p) && itemsWithin ps ws
def fieldsWithin : List (String × Json) → List (String × Json) → Bool
  | [], _ => true
  | (key, p) :: ps, ws => (ws.lookup key).any (within p) && fieldsWithin ps ws
end

/-- `@>`. At the root an array may contain a value that is no array. -/
def contains (whole part : Json) : Bool :=
  match whole, part with
  | .array ws, .array ps => itemsWithin ps ws
  | .array ws, .object ps => ws.any (within (.object ps))
  | .array ws, part => ws.any (equal part)
  | whole, part => within part whole

/-- `?`: a field's name, or a string in an array, or the string itself. -/
def hasKey (key : String) : Json → Bool
  | .object fields => (fields.lookup key).isSome
  | .array items => items.any fun j => equal (.string key) j
  | .string s => s == key
  | _ => false

def parseUnsigned (text : List Char) : Option ℚ :=
  let whole := text.takeWhile Char.isDigit
  let rest := text.drop whole.length
  let fraction := if rest.head? = some '.' then rest.drop 1 else rest
  if whole ≠ [] ∧ fraction.all Char.isDigit then
    some (Nat.ofDigitChars 10 (whole ++ fraction) 0 / 10 ^ fraction.length)
  else none

/-- The texts that `::numeric` takes: a sign, digits and a fraction. What else the server
takes is an error here. -/
def parseNumeric (text : List Char) : Option ℚ :=
  if text.head? = some '-' then (parseUnsigned (text.drop 1)).map (- ·) else parseUnsigned text

/-- The texts that `::boolean` takes. -/
def parseBoolean (text : List Char) : Option Bool :=
  let word := String.ofList (text.map Char.toLower)
  if word ∈ ["t", "tr", "tru", "true", "y", "ye", "yes", "on", "1"] then some true
  else if word ∈ ["f", "fa", "fal", "fals", "false", "n", "no", "of", "off", "0"] then
    some false
  else none

theorem lastDigits_isDigit (width n : ℕ) : (Decimal.lastDigits width n).all Char.isDigit := by
  induction width generalizing n with
  | zero => rfl
  | succ width ih =>
    have hdigit : ∀ d < 10, (Nat.digitChar d).isDigit = true := by decide
    rw [Decimal.lastDigits, List.all_append, ih, Bool.true_and, List.all_cons, List.all_nil,
      hdigit _ (Nat.mod_lt _ (by omega)), Bool.true_and]

theorem toDigits_isDigit (n : ℕ) : (Nat.toDigits 10 n).all Char.isDigit :=
  List.all_eq_true.mpr fun _ hc => Nat.isDigit_of_mem_toDigits (by decide) (by decide) hc

end Jsonb

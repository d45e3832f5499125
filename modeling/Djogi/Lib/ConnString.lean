import Mathlib.Data.List.Basic
import Mathlib.Data.List.Infix
import Mathlib.Data.List.SplitBy

/-!
# Connection strings

The connection strings of a database driver, as the texts of their parts: the URL form with
credentials, a list of hosts, a path and query parameters, and the keyword form.

* `Url.text`, `Url.targets`: a URL and the hosts that a driver may connect to;
* `Keywords.text`, `Keywords.targets`: the same for pairs of keyword and value;
* `Conn`: a connection string in one of the two forms;
* `IsLocal`: hosts that are this machine.
-/

namespace ConnString

/-! ## Local hosts -/

/-- One to three decimal digits of a number below 256. -/
structure Octet (s : List Char) : Prop where
  length : 1 ≤ s.length ∧ s.length ≤ 3
  digits : ∀ c ∈ s, c.isDigit = true
  bound : s.foldl (fun n c => n * 10 + (c.toNat - 48)) 0 ≤ 255

/-- Four octets, the first of them 127. -/
def Loopback4 (s : List Char) : Prop :=
  ∃ (x : List Char) (xs : List (List Char)), s = x ++ xs.flatMap (fun y => '.' :: y) ∧
    xs.length = 3 ∧ Octet x ∧ (∀ y ∈ xs, Octet y) ∧
    x.foldl (fun n c => n * 10 + (c.toNat - 48)) 0 = 127

/-- Of the addresses with colons, those of groups of zeros and a last group of one. -/
def Loopback6 (s : List Char) : Prop :=
  (∀ c ∈ s, c = '0' ∨ c = '1' ∨ c = ':') ∧ s.count '1' = 1 ∧ s.getLast? = some '1' ∧
    2 ≤ s.count ':'

/-- A local socket (also the default one, without a name), the local host or a loopback address. -/
def IsLocal (s : List Char) : Prop :=
  s = [] ∨ s.head? = some '/' ∨ s = ['l', 'o', 'c', 'a', 'l', 'h', 'o', 's', 't'] ∨
    Loopback4 s ∨ Loopback6 s

/-! ## The URL form -/

def hexValue (c : Char) : Option ℕ :=
  if c.isDigit then some (c.toNat - 48)
  else if 'a' ≤ c ∧ c ≤ 'f' then some (c.toNat - 87)
  else if 'A' ≤ c ∧ c ≤ 'F' then some (c.toNat - 55)
  else none

/-- A decoded byte stands as a character of its own. -/
def percentDecode : List Char → List Char
  | [] => []
  | [c] => [c]
  | [c, d] => [c, d]
  | c :: a :: b :: s =>
      if c = '%' then
        match hexValue a, hexValue b with
        | some x, some y => Char.ofNat (16 * x + y) :: percentDecode s
        | _, _ => c :: percentDecode (a :: b :: s)
      else c :: percentDecode (a :: b :: s)

theorem percentDecode_eq (s : List Char) (h : '%' ∉ s) : percentDecode s = s := by
  fun_induction percentDecode s with
  | case1 => rfl
  | case2 => rfl
  | case3 => rfl
  | case4 => simp at h
  | case5 => simp at h
  | case6 c a b s _ ih => rw [ih fun hmem => h (List.mem_cons_of_mem _ hmem)]

def splitComma (s : List Char) : List (List Char) := s.splitOnP (· = ',')

/-- A host of a URL with its port; the host may stand in brackets. -/
structure HostPort where
  bracketed : Bool
  host : List Char
  port : Option (List Char)
  chars : ∀ c ∈ host, c ≠ ',' ∧ c ≠ '/' ∧ c ≠ '?'
  closed : bracketed = true → ']' ∉ host
  plain : bracketed = false → ':' ∉ host ∧ host.head? ≠ some '['
  port_chars : ∀ p ∈ port, ∀ c ∈ p, c.isAlphanum = true ∨ c = '%'

namespace HostPort

def name (h : HostPort) : List Char := if h.bracketed then '[' :: h.host ++ [']'] else h.host

def portText (h : HostPort) : List Char := h.port.elim [] fun p => ':' :: p

def text (h : HostPort) : List Char := h.name ++ h.portText

end HostPort

/-- The parameters of a query, each a key and a value; the key is decoded. -/
def readParams : ℕ → List Char → Option (List (List Char × List Char))
  | 0, _ => some []
  | n + 1, s =>
      if s.isEmpty then some []
      else
        let key := s.takeWhile (· ≠ '=')
        match s.dropWhile (· ≠ '=') with
        | [] => none
        | _ :: s =>
            (readParams n (s.dropWhile (· ≠ '&')).tail).map fun params =>
              (percentDecode key, s.takeWhile (· ≠ '&')) :: params

/-- The parts of a URL behind its scheme; credentials end at the first `@` of the text. -/
structure Url where
  creds : Option (List Char)
  hosts : List HostPort
  /-- Path and query. -/
  tail : List Char
  params : List (List Char × List Char)
  creds_chars : ∀ c ∈ creds, '@' ∉ c
  no_creds : creds = none → (∀ h ∈ hosts, '@' ∉ h.host) ∧ '@' ∉ tail
  tail_head : ∀ c ∈ tail.head?, c = '/' ∨ c = '?'
  query : readParams tail.length (tail.dropWhile (· ≠ '?')).tail = some params

namespace Url

def hostText (u : Url) : List Char := [','].intercalate (u.hosts.map HostPort.text)

def credsText (u : Url) : List Char := u.creds.elim [] fun c => c ++ ['@']

def body (u : Url) : List Char := u.credsText ++ (u.hostText ++ u.tail)

/-- The hosts of a parameter, if its key is one of those that name hosts. -/
def paramHosts (p : List Char × List Char) : List (List Char) :=
  if p.1 = "host".toList then [percentDecode p.2]
  else if p.1 = "hostaddr".toList then splitComma (percentDecode p.2)
  else []

def targets (u : Url) : List (List Char) :=
  u.hosts.map (fun h => percentDecode h.host) ++ u.params.flatMap paramHosts

end Url

/-! ## The keyword form -/

/-- A value as written, without blanks but behind a backslash. -/
def plainRaw (blank : Char → Bool) : List Char → Bool
  | [] => true
  | [c] => c ≠ '\\' && !blank c
  | c :: d :: s => if c = '\\' then plainRaw blank s else !blank c && plainRaw blank (d :: s)

/-- What stands between quotes, with no quote but behind a backslash. -/
def quotedRaw : List Char → Bool
  | [] => true
  | [c] => c ≠ '\\' && c ≠ '\''
  | c :: d :: s => if c = '\\' then quotedRaw s else c ≠ '\'' && quotedRaw (d :: s)

def unescape : List Char → List Char
  | [] => []
  | [c] => [c]
  | c :: d :: s => if c = '\\' then d :: unescape s else c :: unescape (d :: s)

theorem unescape_eq (s : List Char) (h : '\\' ∉ s) : unescape s = s := by
  fun_induction unescape s with
  | case1 => rfl
  | case2 => rfl
  | case3 => simp at h
  | case4 c d s _ ih => rw [ih fun hmem => h (List.mem_cons_of_mem _ hmem)]

/-- A keyword with its value, blanks around the sign between them. Keywords are made of
lower-case letters and underscores. -/
structure Pair (blank : Char → Bool) where
  key : List Char
  before : List Char
  after : List Char
  quoted : Bool
  raw : List Char
  key_ne : key ≠ []
  key_chars : ∀ c ∈ key, c.isLower = true ∨ c = '_'
  before_blank : ∀ c ∈ before, blank c = true
  after_blank : ∀ c ∈ after, blank c = true
  quoted_raw : quoted = true → quotedRaw raw = true
  plain_raw : quoted = false → raw ≠ [] ∧ raw.head? ≠ some '\'' ∧ plainRaw blank raw = true

namespace Pair

variable {blank : Char → Bool}

def valueText (p : Pair blank) : List Char := if p.quoted then '\'' :: p.raw ++ ['\''] else p.raw

def text (p : Pair blank) : List Char := p.key ++ (p.before ++ ('=' :: (p.after ++ p.valueText)))

def value (p : Pair blank) : List Char := unescape p.raw

/-- The hosts of a pair, if its keyword is one of those that name hosts. -/
def hosts (p : Pair blank) : List (List Char) :=
  if p.key = "host".toList ∨ p.key = "hostaddr".toList then splitComma p.value else []

end Pair

/-- One or more pairs with the blanks between them; there are some behind a value without
quotes. -/
inductive Keywords (blank : Char → Bool)
  | last (p : Pair blank)
  | cons (p : Pair blank) (gap : List Char) (gap_blank : ∀ c ∈ gap, blank c = true)
      (gap_ne : p.quoted = false → gap ≠ []) (next : Keywords blank)

namespace Keywords

variable {blank : Char → Bool}

def pairs : Keywords blank → List (Pair blank)
  | last p => [p]
  | cons p _ _ _ next => p :: next.pairs

def gaps : Keywords blank → List (List Char)
  | last _ => []
  | cons _ gap _ _ next => gap :: next.gaps

def text : Keywords blank → List Char
  | last p => p.text
  | cons p gap _ _ next => p.text ++ (gap ++ next.text)

def targets (k : Keywords blank) : List (List Char) := k.pairs.flatMap Pair.hosts

end Keywords

/-! ## Connection strings -/

inductive Conn (blank : Char → Bool)
  | url (long : Bool) (u : Url)
  | keywords (lead trail : List Char) (lead_blank : ∀ c ∈ lead, blank c = true)
      (trail_blank : ∀ c ∈ trail, blank c = true) (k : Option (Keywords blank))

namespace Conn

variable {blank : Char → Bool}

def scheme (long : Bool) : List Char :=
  if long then "postgresql://".toList else "postgres://".toList

def text : Conn blank → List Char
  | url long u => scheme long ++ u.body
  | keywords lead trail _ _ k => lead ++ (k.elim [] Keywords.text ++ trail)

/-- The hosts and host addresses that the driver may connect to. -/
def targets : Conn blank → List (List Char)
  | url _ u => u.targets
  | keywords _ _ _ _ k => k.elim [] Keywords.targets

end Conn

end ConnString

import Mathlib.Data.Bool.AllAny
import Djogi.Lib.ConnString
import Djogi.Lib.Text
import Djogi.Sql

/-!
# The localhost gate

`is_localhost_connection` of `migrate/policy.rs`, which `attune --squash` asks first, and the hosts
that the driver reads from the same connection string.

* `loopback4_of_range`, `isLocal_of_isLocalHost`: a host that the gate lets through is local;
* `extractHost_url`: the host of a URL that holds a single one;
* `libpqPairs_eq`: the pairs of a keyword string;
* `localhost_gate_local`: when the driver reads a string as the gate does, all its hosts are local.
-/

namespace Djogi

open ConnString

/-! ## The allowlist -/

def localhostAllowlist : List (List Char) :=
  ["".toList, "127.0.0.1".toList, "::1".toList, "localhost".toList]

/-- The walk over the characters, with the octets before this one, its value and its digits. -/
def loopbackWalk : List Char → List ℕ → ℕ → ℕ → Bool
  | [], octets, acc, digits => octets.length = 3 && digits ≠ 0 && (octets ++ [acc]).head? = some 127
  | c :: s, octets, acc, digits =>
      if c = '.' then
        if digits = 0 || 3 ≤ octets.length then false else loopbackWalk s (octets ++ [acc]) 0 0
      else if !c.isDigit then false
      else if 3 ≤ digits then false
      else
        let acc := acc * 10 + (c.toNat - 48)
        if 255 < acc then false else loopbackWalk s octets acc (digits + 1)

def isIpv4LoopbackRange (host : List Char) : Bool := loopbackWalk host [] 0 0

/-- What the gate asks of a host. -/
def isLocalHost (host : List Char) : Bool :=
  localhostAllowlist.contains host || isIpv4LoopbackRange host

/-! ## The host of a connection string -/

def stripScheme (s : List Char) : Option (List Char) :=
  (Text.stripPrefix "postgres://".toList s).orElse fun _ =>
    Text.stripPrefix "postgresql://".toList s

/-- Up to the first colon. -/
def beforePort (hostPort : List Char) : List Char := hostPort.takeWhile (· ≠ ':')

/-- The host of `host[:port]`, which may stand in brackets. -/
def hostOf (hostPort : List Char) : List Char :=
  match hostPort with
  | '[' :: rest => if rest.contains ']' then rest.takeWhile (· ≠ ']') else beforePort hostPort
  | _ => beforePort hostPort

/-- What stands behind the last `@`, if there is one. -/
def behindLastAt (s : List Char) : List Char := (s.reverse.takeWhile (· ≠ '@')).reverse

def extractUrlHost (body : List Char) : List Char :=
  hostOf (behindLastAt (body.takeWhile fun c => c ≠ '/' && c ≠ '?'))

def isAsciiWhitespace (c : Char) : Bool := [' ', '\t', '\n', '\x0c', '\r'].contains c

def skipBlanks (s : List Char) : List Char := s.dropWhile isAsciiWhitespace

/-- Up to the closing quote, and what is left behind it. -/
def quotedValue (quote : Char) : List Char → List Char × List Char
  | [] => ([], [])
  | [c] => if c = quote then ([], []) else ([c], [])
  | c :: d :: s =>
      if c = '\\' then
        let value := quotedValue quote s
        (c :: d :: value.1, value.2)
      else if c = quote then ([], d :: s)
      else
        let value := quotedValue quote (d :: s)
        (c :: value.1, value.2)

/-- The loop over the pairs of keyword and value. -/
def libpqPairs : ℕ → List Char → List (List Char × List Char)
  | 0, _ => []
  | n + 1, s =>
      let s := skipBlanks s
      let key := s.takeWhile fun c => c ≠ '=' && !isAsciiWhitespace c
      match skipBlanks (s.dropWhile fun c => c ≠ '=' && !isAsciiWhitespace c) with
      | [] => []
      | c :: s =>
          if c ≠ '=' then libpqPairs n (c :: s)
          else
            match skipBlanks s with
            | [] => [(key, [])]
            | q :: s =>
                if q = '\'' || q = '"' then
                  let value := quotedValue q s
                  (key, value.1) :: libpqPairs n value.2
                else
                  (key, (q :: s).takeWhile (!isAsciiWhitespace ·)) ::
                    libpqPairs n ((q :: s).dropWhile (!isAsciiWhitespace ·))

/-- The value of the last `host`. -/
def lastHost (pairs : List (List Char × List Char)) : List Char :=
  ((pairs.filter fun p => p.1 = "host".toList).getLast?).elim [] Prod.snd

def extractLibpqHost (s : List Char) : List Char := lastHost (libpqPairs s.length s)

def extractHost (conn : List Char) : List Char :=
  let trimmed := trimChars conn
  if trimmed.isEmpty then []
  else match stripScheme trimmed with
    | some rest => extractUrlHost rest
    | none => extractLibpqHost trimmed

def isLocalhostConnection (conn : List Char) : Bool := isLocalHost (extractHost conn)

/-! ## Hosts that pass -/

def octetValue (n : ℕ) (s : List Char) : ℕ := s.foldl (fun n c => n * 10 + (c.toNat - 48)) n

theorem loopbackWalk_octets (s : List Char) (octets : List ℕ) (acc digits : ℕ) (hacc : acc ≤ 255)
    (hdigits : digits ≤ 3) (h : loopbackWalk s octets acc digits = true) :
    ∃ (x : List Char) (xs : List (List Char)), s = x ++ xs.flatMap (fun y => '.' :: y) ∧
      octets.length + xs.length = 3 ∧ (1 ≤ digits + x.length ∧ digits + x.length ≤ 3) ∧
      (∀ c ∈ x, c.isDigit = true) ∧ octetValue acc x ≤ 255 ∧ (∀ y ∈ xs, Octet y) ∧
      (octets ++ [octetValue acc x]).head? = some 127 := by
  induction s generalizing octets acc digits with
  | nil =>
    simp only [loopbackWalk, Bool.and_eq_true, decide_eq_true_eq] at h
    obtain ⟨⟨hlength, hpos⟩, hhead⟩ := h
    refine ⟨[], [], rfl, hlength, ⟨?_, ?_⟩, by simp, hacc, by simp, hhead⟩
    · simp only [List.length_nil]
      omega
    · simpa using hdigits
  | cons c s ih =>
    rw [loopbackWalk] at h
    dsimp only at h
    split_ifs at h with hdot hstop hdigit hlong hbig
    · simp only [Bool.or_eq_true, decide_eq_true_eq, not_or] at hstop
      obtain ⟨x, xs, rfl, hlength, hx, hxdigits, hxbound, hxs, hhead⟩ :=
        ih (octets ++ [acc]) 0 0 (by omega) (by omega) h
      simp only [List.length_append, List.length_singleton] at hlength
      refine ⟨[], x :: xs, by simp [hdot], ?_, ⟨?_, ?_⟩, by simp, hacc, ?_, ?_⟩
      · simp only [List.length_cons]
        omega
      · simp only [List.length_nil]
        omega
      · simpa using hdigits
      · rintro y hy
        rcases List.mem_cons.mp hy with rfl | hy
        · exact ⟨by omega, hxdigits, hxbound⟩
        · exact hxs y hy
      · rw [List.head?_append] at hhead ⊢
        simpa [octetValue] using hhead
    · obtain ⟨x, xs, rfl, hlength, hx, hxdigits, hxbound, hxs, hhead⟩ :=
        ih octets (acc * 10 + (c.toNat - 48)) (digits + 1) (by omega) (by omega) h
      refine ⟨c :: x, xs, by simp, hlength, ⟨?_, ?_⟩, ?_, hxbound, hxs, hhead⟩
      · simp only [List.length_cons]
        omega
      · simp only [List.length_cons]
        omega
      · intro d hd
        rcases List.mem_cons.mp hd with rfl | hd
        · simpa using hdigit
        · exact hxdigits d hd

theorem loopback4_of_range (host : List Char) (h : isIpv4LoopbackRange host = true) :
    Loopback4 host := by
  obtain ⟨x, xs, hs, hlength, hx, hdigits, hbound, hxs, hhead⟩ :=
    loopbackWalk_octets host [] 0 0 (by omega) (by omega) h
  have hfirst : octetValue 0 x = 127 := by simpa using hhead
  exact ⟨x, xs, hs, by simpa using hlength, ⟨by simpa using hx, hdigits, hbound⟩, hxs, hfirst⟩

theorem isLocal_of_isLocalHost (host : List Char) (h : isLocalHost host = true) : IsLocal host := by
  unfold isLocalHost at h
  rcases Bool.or_eq_true_iff.mp h with h | h
  · have hall : host = [] ∨ host = "127.0.0.1".toList ∨ host = "::1".toList ∨
        host = "localhost".toList := by
      simpa [localhostAllowlist] using h
    rcases hall with rfl | rfl | rfl | rfl
    · exact .inl rfl
    · exact .inr (.inr (.inr (.inl (loopback4_of_range _ (by decide)))))
    · refine .inr (.inr (.inr (.inr ⟨List.all_iff_forall_prop.mp (by decide), by decide, by decide, by decide⟩)))
    · exact .inr (.inr (.inl rfl))
  · exact .inr (.inr (.inr (.inl (loopback4_of_range host h))))

/-- The characters of a host that passes. -/
def isHostChar (c : Char) : Bool := c.isLower || c.isDigit || c = '.' || c = ':'

theorem loopbackWalk_chars (s : List Char) (octets : List ℕ) (acc digits : ℕ)
    (h : loopbackWalk s octets acc digits = true) : ∀ c ∈ s, isHostChar c = true := by
  induction s generalizing octets acc digits with
  | nil => simp
  | cons c s ih =>
    rw [loopbackWalk] at h
    dsimp only at h
    intro d hd
    split_ifs at h with hdot hstop hdigit hlong
    · rcases List.mem_cons.mp hd with rfl | hd
      · simp [isHostChar, hdot]
      · exact ih _ _ _ h d hd
    · rcases List.mem_cons.mp hd with rfl | hd
      · have hd' : d.isDigit = true := by simpa using hdigit
        simp [isHostChar, hd']
      · exact ih _ _ _ h d hd

theorem isHostChar_of_isLocalHost (host : List Char) (h : isLocalHost host = true) :
    ∀ c ∈ host, isHostChar c = true := by
  unfold isLocalHost at h
  rcases Bool.or_eq_true_iff.mp h with h | h
  · have hall : localhostAllowlist.all (·.all isHostChar) = true := by decide
    exact List.all_eq_true.mp (List.all_eq_true.mp hall host (by simpa using h))
  · exact loopbackWalk_chars host [] 0 0 h

theorem notMem_of_isLocalHost (host : List Char) (h : isLocalHost host = true) (c : Char)
    (hc : isHostChar c = false) : c ∉ host := by
  intro hmem
  rw [isHostChar_of_isLocalHost host h c hmem] at hc
  cases hc

/-! ## URLs -/

theorem takeWhile_stop {α : Type} (p : α → Bool) (a b : List α) (ha : ∀ c ∈ a, p c = true)
    (hb : ∀ c ∈ b.head?, p c = false) : (a ++ b).takeWhile p = a := by
  rw [List.takeWhile_append_of_pos ha]
  cases b with
  | nil => simp
  | cons c b => rw [List.takeWhile_cons_of_neg (by simp [hb c rfl]), List.append_nil]

theorem dropWhile_stop {α : Type} (p : α → Bool) (a b : List α) (ha : ∀ c ∈ a, p c = true)
    (hb : ∀ c ∈ b.head?, p c = false) : (a ++ b).dropWhile p = b := by
  rw [List.dropWhile_append_of_pos ha]
  cases b with
  | nil => rfl
  | cons c b => rw [List.dropWhile_cons_of_neg (by simp [hb c rfl])]

theorem rdropWhile_append (p : Char → Bool) (a b : List Char) (h : ∀ c ∈ a.getLast?, p c = false) :
    (a ++ b).rdropWhile p = a ++ b.rdropWhile p := by
  induction b using List.reverseRecOn with
  | nil =>
    rw [List.append_nil, List.rdropWhile_nil, List.append_nil, List.rdropWhile_eq_self_iff]
    intro hne hlast
    rw [h _ (List.getLast?_eq_some_getLast hne)] at hlast
    cases hlast
  | append_singleton b c ih =>
    rw [← List.append_assoc]
    by_cases hc : p c = true
    · rw [List.rdropWhile_concat_pos _ _ _ hc, List.rdropWhile_concat_pos _ _ _ hc, ih]
    · rw [List.rdropWhile_concat_neg _ _ _ hc, List.rdropWhile_concat_neg _ _ _ hc,
        List.append_assoc]

/-- The end of a text that starts and ends without blanks is trimmed only behind it. -/
theorem trimChars_append (c : Char) (a b : List Char) (hc : isWhitespace c = false)
    (h : ∀ d ∈ (c :: a).getLast?, isWhitespace d = false) :
    trimChars (c :: a ++ b) = c :: a ++ b.rdropWhile isWhitespace := by
  have hdrop : (c :: a ++ b).dropWhile isWhitespace = c :: a ++ b := by
    rw [List.cons_append, List.dropWhile_cons_of_neg (by simp [hc])]
  rw [trimChars, hdrop]
  exact rdropWhile_append isWhitespace (c :: a) b h

theorem stripScheme_scheme (long : Bool) (rest : List Char) :
    stripScheme (Conn.scheme long ++ rest) = some rest := by
  cases long with
  | true =>
    have hshort : Text.stripPrefix "postgres://".toList (Conn.scheme true ++ rest) = none := by
      rfl
    rw [stripScheme, hshort]
    exact Text.stripPrefix_append _ rest
  | false =>
    have hlong : Text.stripPrefix "postgres://".toList (Conn.scheme false ++ rest) = some rest :=
      Text.stripPrefix_append _ rest
    rw [stripScheme, hlong]
    rfl

theorem hostPort_chars (h : HostPort) : ∀ c ∈ h.text, c ≠ '/' ∧ c ≠ '?' := by
  intro c hc
  rcases List.mem_append.mp hc with hc | hc
  · rw [HostPort.name] at hc
    split at hc
    · rcases List.mem_append.mp hc with hc | hc
      · rcases List.mem_cons.mp hc with rfl | hc
        · decide
        · exact (h.chars c hc).2
      · obtain rfl := List.mem_singleton.mp hc
        decide
    · exact (h.chars c hc).2
  · rw [HostPort.portText] at hc
    cases hport : h.port with
    | none => simp [hport] at hc
    | some p =>
      rw [hport] at hc
      rcases List.mem_cons.mp hc with rfl | hc
      · decide
      · have hchar := h.port_chars p hport c hc
        constructor
        · rintro rfl
          revert hchar
          decide
        · rintro rfl
          revert hchar
          decide

theorem hostPort_at (h : HostPort) (hhost : '@' ∉ h.host) : '@' ∉ h.text := by
  intro hc
  rcases List.mem_append.mp hc with hc | hc
  · rw [HostPort.name] at hc
    split at hc
    · simp [hhost] at hc
    · exact hhost hc
  · rw [HostPort.portText] at hc
    cases hport : h.port with
    | none => simp [hport] at hc
    | some p =>
      rw [hport] at hc
      have hmem : '@' ∈ p := by simpa using hc
      have hchar := h.port_chars p hport _ hmem
      revert hchar
      decide

theorem hostOf_text (h : HostPort) : hostOf h.text = h.host := by
  have hport : ∀ c ∈ h.portText.head?, c = ':' := by
    intro c hc
    rw [HostPort.portText] at hc
    cases hp : h.port with
    | none => simp [hp] at hc
    | some p =>
      rw [hp] at hc
      simpa using hc.symm
  have hstop : ∀ c ∈ h.portText.head?, decide (c ≠ ':') = false := fun c hc => by
    simp [hport c hc]
  cases hb : h.bracketed with
  | true =>
    have htext : h.text = '[' :: (h.host ++ (']' :: h.portText)) := by
      simp [HostPort.text, HostPort.name, hb]
    have hclosed := h.closed hb
    rw [htext, hostOf, if_pos (by simp)]
    refine takeWhile_stop _ _ _ (fun c hc => ?_) (by simp)
    have hne : c ≠ ']' := fun heq => hclosed (heq ▸ hc)
    simpa using hne
  | false =>
    obtain ⟨hcolon, hbracket⟩ := h.plain hb
    have htext : h.text = h.host ++ h.portText := by simp [HostPort.text, HostPort.name, hb]
    have hbefore : beforePort h.text = h.host := by
      rw [htext]
      refine takeWhile_stop _ _ _ (fun c hc => ?_) hstop
      have hne : c ≠ ':' := fun heq => hcolon (heq ▸ hc)
      simpa using hne
    unfold hostOf
    split
    · rename_i rest hrest
      exfalso
      cases hhost : h.host with
      | nil =>
        rw [htext, hhost, List.nil_append] at hrest
        have hhead := hport '[' (by rw [hrest]; rfl)
        cases hhead
      | cons c host =>
        rw [htext, hhost] at hrest
        cases hrest
        exact hbracket (by rw [hhost]; rfl)
    · exact hbefore

theorem behindLastAt_creds (creds : Option (List Char)) (s : List Char) (h : '@' ∉ s) :
    behindLastAt (creds.elim [] (fun c => c ++ ['@']) ++ s) = s := by
  have hstop : (s.reverse ++ (creds.elim [] fun c => c ++ ['@']).reverse).takeWhile (· ≠ '@') =
      s.reverse := by
    refine takeWhile_stop _ _ _ (fun c hc => ?_) fun c hc => ?_
    · have hne : c ≠ '@' := fun heq => h (heq ▸ List.mem_reverse.mp hc)
      simpa using hne
    · cases creds with
      | none => simp at hc
      | some u =>
        have hat : '@' = c := by simpa using hc
        simp [← hat]
  rw [behindLastAt, List.reverse_append, hstop, List.reverse_reverse]

/-- A URL with a single host, which the gate finds: no `@` but the one behind the credentials, no
slash and no question mark before it, no blank at the end of the host. -/
structure SingleHost (u : Url) : Prop where
  one : ∃ h, u.hosts = [h] ∧ '@' ∉ h.host
  creds : ∀ c ∈ u.creds, '/' ∉ c ∧ '?' ∉ c
  last : u.tail = [] → ∀ c ∈ u.hostText.getLast?, isWhitespace c = false

theorem trimChars_url (long : Bool) (u : Url)
    (hlast : u.tail = [] → ∀ c ∈ u.hostText.getLast?, isWhitespace c = false) :
    ∃ tail, trimChars (Conn.scheme long ++ u.body) =
      Conn.scheme long ++ (u.credsText ++ (u.hostText ++ tail)) ∧
      ∀ c ∈ tail.head?, c = '/' ∨ c = '?' := by
  have hscheme : ∃ s, Conn.scheme long = 'p' :: s ∧ ('p' :: s).getLast? = some '/' := by
    cases long with
    | true => exact ⟨_, rfl, rfl⟩
    | false => exact ⟨_, rfl, rfl⟩
  obtain ⟨s, hs, hslast⟩ := hscheme
  cases htail : u.tail with
  | nil =>
    refine ⟨[], ?_, by simp⟩
    have hend : ∀ d ∈ ('p' :: (s ++ (u.credsText ++ u.hostText))).getLast?,
        isWhitespace d = false := by
      intro d hd
      cases hhost : u.hostText.getLast? with
      | some c =>
        rw [← List.cons_append, List.getLast?_append, List.getLast?_append, hhost] at hd
        simp only [Option.some_or, Option.mem_def, Option.some.injEq] at hd
        rw [← hd]
        exact hlast htail c hhost
      | none =>
        rw [← List.cons_append, List.getLast?_append, List.getLast?_append, hhost, hslast] at hd
        cases hcreds : u.creds with
        | none =>
          simp only [Url.credsText, hcreds, Option.elim, List.getLast?_nil, Option.none_or,
            Option.mem_def, Option.some.injEq] at hd
          rw [← hd]
          decide
        | some c =>
          simp only [Url.credsText, hcreds, Option.elim, List.getLast?_append,
            List.getLast?_singleton, Option.some_or, Option.none_or, Option.mem_def,
            Option.some.injEq] at hd
          rw [← hd]
          decide
    have htrim := trimChars_append 'p' (s ++ (u.credsText ++ u.hostText)) [] (by decide) hend
    rw [hs, Url.body, htail]
    simpa using htrim
  | cons c t =>
    have hc := u.tail_head c (by rw [htail]; rfl)
    have hblank : isWhitespace c = false := by
      rcases hc with rfl | rfl
      · decide
      · decide
    refine ⟨c :: t.rdropWhile isWhitespace, ?_, ?_⟩
    · have htrim := trimChars_append 'p' (s ++ (u.credsText ++ (u.hostText ++ [c]))) t (by decide)
        (by
          intro d hd
          rw [← List.cons_append, List.getLast?_append, List.getLast?_append,
            List.getLast?_append] at hd
          simp only [List.getLast?_singleton, Option.some_or, Option.mem_def,
            Option.some.injEq] at hd
          rw [← hd]
          exact hblank)
      rw [hs, Url.body, htail]
      simpa using htrim
    · intro d hd
      obtain rfl : c = d := by simpa using hd
      exact hc

/-- The host of a URL that holds a single one. -/
theorem extractHost_url (long : Bool) (u : Url) (hsingle : SingleHost u) (h : HostPort)
    (hone : u.hosts = [h]) : extractHost (Conn.scheme long ++ u.body) = h.host := by
  obtain ⟨h', hone', hat⟩ := hsingle.one
  rw [hone] at hone'
  obtain rfl : h = h' := by simpa using hone'
  obtain ⟨tail, htrim, hhead⟩ := trimChars_url long u hsingle.last
  have hhost : u.hostText = h.text := by simp [Url.hostText, hone]
  have hne : (Conn.scheme long ++ (u.credsText ++ (u.hostText ++ tail))).isEmpty = false := by
    cases long <;> rfl
  have hauthority : (u.credsText ++ (u.hostText ++ tail)).takeWhile
      (fun c => c ≠ '/' && c ≠ '?') = u.credsText ++ u.hostText := by
    rw [← List.append_assoc]
    refine takeWhile_stop _ _ _ (fun c hc => ?_) fun c hc => ?_
    · have hne' : c ≠ '/' ∧ c ≠ '?' := by
        rcases List.mem_append.mp hc with hc | hc
        · rw [Url.credsText] at hc
          cases hcreds : u.creds with
          | none => simp [hcreds] at hc
          | some cr =>
            obtain ⟨hslash, hquery⟩ := hsingle.creds cr hcreds
            rw [hcreds] at hc
            rcases List.mem_append.mp hc with hc | hc
            · exact ⟨fun heq => hslash (heq ▸ hc), fun heq => hquery (heq ▸ hc)⟩
            · obtain rfl := List.mem_singleton.mp hc
              decide
        · rw [hhost] at hc
          exact hostPort_chars h c hc
      simpa using hne'
    · rcases hhead c hc with rfl | rfl
      · decide
      · decide
  unfold extractHost
  dsimp only
  rw [htrim, hne, stripScheme_scheme]
  dsimp only [Bool.false_eq_true, if_false]
  rw [if_neg (by simp), extractUrlHost, hauthority, Url.credsText,
    behindLastAt_creds _ _ (by rw [hhost]; exact hostPort_at h hat), hhost, hostOf_text]

/-! ## Keyword strings -/

abbrev KeywordPair := Pair isWhitespace

theorem isWhitespace_of_ascii (c : Char) (h : isAsciiWhitespace c = true) :
    isWhitespace c = true := by
  have hall : ∀ c ∈ [' ', '\t', '\n', '\x0c', '\r'], isWhitespace c = true :=
    List.all_eq_true.mp (by decide)
  exact hall c (by simpa [isAsciiWhitespace] using h)

theorem keyChar_not_blank (c : Char) (h : c.isLower = true ∨ c = '_') :
    isWhitespace c = false ∧ c ≠ '=' ∧ c ≠ 'P' := by
  rcases h with h | rfl
  · unfold Char.isLower at h
    simp only [Bool.and_eq_true, decide_eq_true_eq, ge_iff_le, UInt32.le_iff_toNat_le] at h
    have hlow : 97 ≤ c.toNat := h.1
    have hhigh : c.toNat ≤ 122 := h.2
    refine ⟨?_, ?_, ?_⟩
    · simp only [isWhitespace, Bool.or_eq_false_iff, Bool.and_eq_false_iff, decide_eq_false_iff_not]
      omega
    · rintro rfl
      revert hlow
      decide
    · rintro rfl
      revert hlow
      decide
  · decide

theorem skipBlanks_append (w s : List Char) (hw : ∀ c ∈ w, isAsciiWhitespace c = true)
    (hs : ∀ c ∈ s.head?, isAsciiWhitespace c = false) : skipBlanks (w ++ s) = s :=
  dropWhile_stop _ w s hw hs

theorem libpqPairs_gap (n : ℕ) (gap s : List Char) (hgap : ∀ c ∈ gap, isAsciiWhitespace c = true) :
    libpqPairs n (gap ++ s) = libpqPairs n s := by
  have hskip : skipBlanks (gap ++ s) = skipBlanks s := List.dropWhile_append_of_pos hgap
  cases n with
  | zero => rfl
  | succ n => rw [libpqPairs, libpqPairs, hskip]

theorem quotedValue_eq (raw s : List Char) (h : quotedRaw raw = true) :
    quotedValue '\'' (raw ++ '\'' :: s) = (raw, s) := by
  fun_induction quotedRaw raw with
  | case1 => cases s <;> rfl
  | case2 c =>
    simp only [Bool.and_eq_true, decide_eq_true_eq] at h
    rw [List.singleton_append, quotedValue, if_neg h.1, if_neg h.2]
    cases s <;> rfl
  | case3 d s' ih =>
    rw [List.cons_append, List.cons_append, quotedValue, if_pos rfl, ih h]
  | case4 c d s' hc ih =>
    simp only [Bool.and_eq_true, decide_eq_true_eq] at h
    have hnext := ih h.2
    rw [List.cons_append] at hnext
    rw [List.cons_append, List.cons_append, quotedValue, if_neg hc, if_neg h.1, hnext]

theorem plainRaw_blank (raw : List Char) (h : plainRaw isWhitespace raw = true)
    (hslash : '\\' ∉ raw) : ∀ c ∈ raw, isWhitespace c = false := by
  fun_induction plainRaw isWhitespace raw with
  | case1 => simp
  | case2 c =>
    simp only [Bool.and_eq_true, Bool.not_eq_true'] at h
    intro d hd
    rw [List.mem_singleton.mp hd]
    exact h.2
  | case3 => simp at hslash
  | case4 c d s _ ih =>
    simp only [Bool.and_eq_true, Bool.not_eq_true'] at h
    intro e he
    rcases List.mem_cons.mp he with rfl | he
    · exact h.1
    · exact ih h.2 (fun hmem => hslash (List.mem_cons_of_mem _ hmem)) e he

/-- A pair that the gate reads as the driver does: the five blanks of ASCII, and a value without
quotes that has no backslash and no double quote in front. -/
structure PlainPair (p : KeywordPair) : Prop where
  before : ∀ c ∈ p.before, isAsciiWhitespace c = true
  after : ∀ c ∈ p.after, isAsciiWhitespace c = true
  value : p.quoted = false → '\\' ∉ p.raw ∧ p.raw.head? ≠ some '"'

theorem libpqPairs_pair (n : ℕ) (p : KeywordPair) (s : List Char) (h : PlainPair p)
    (hs : p.quoted = false → ∀ c ∈ s.head?, isAsciiWhitespace c = true) :
    libpqPairs (n + 1) (p.text ++ s) = (p.key, p.raw) :: libpqPairs n s := by
  obtain ⟨k, key, hkey⟩ := List.exists_cons_of_ne_nil p.key_ne
  have hblank (c : Char) (hc : isWhitespace c = false) : isAsciiWhitespace c = false := by
    by_contra hascii
    rw [isWhitespace_of_ascii c (by simpa using hascii)] at hc
    cases hc
  have hkeyChars (c : Char) (hc : c ∈ p.key) :
      (decide (c ≠ '=') && !isAsciiWhitespace c) = true := by
    obtain ⟨hwhite, hne, -⟩ := keyChar_not_blank c (p.key_chars c hc)
    simp [hne, hblank c hwhite]
  have hbehind : ∀ c ∈ (p.before ++ '=' :: (p.after ++ (p.valueText ++ s))).head?,
      (decide (c ≠ '=') && !isAsciiWhitespace c) = false := by
    intro c hc
    cases hb : p.before with
    | nil =>
      rw [hb] at hc
      obtain rfl : '=' = c := by simpa using hc
      rfl
    | cons d before =>
      rw [hb] at hc
      obtain rfl : d = c := by simpa using hc
      simp [h.before d (by rw [hb]; exact List.mem_cons_self)]
  have htext : p.text ++ s = p.key ++ (p.before ++ '=' :: (p.after ++ (p.valueText ++ s))) := by
    simp [Pair.text]
  have hskip : skipBlanks (p.text ++ s) = p.text ++ s := by
    have hfirst := (keyChar_not_blank k (p.key_chars k (by rw [hkey]; exact List.mem_cons_self))).1
    rw [htext, hkey, List.cons_append]
    exact List.dropWhile_cons_of_neg (by simp [hblank k hfirst])
  have hbefore : skipBlanks (p.before ++ '=' :: (p.after ++ (p.valueText ++ s))) =
      '=' :: (p.after ++ (p.valueText ++ s)) :=
    skipBlanks_append _ _ h.before (by simp; decide)
  rw [libpqPairs, hskip, htext]
  dsimp only
  rw [takeWhile_stop _ _ _ hkeyChars hbehind, dropWhile_stop _ _ _ hkeyChars hbehind, hbefore]
  dsimp only
  rw [if_neg (by simp)]
  cases hq : p.quoted with
  | true =>
    have hvalue : p.valueText ++ s = '\'' :: (p.raw ++ '\'' :: s) := by
      simp [Pair.valueText, hq]
    rw [hvalue, skipBlanks_append _ _ h.after (by simp; decide)]
    dsimp only
    rw [if_pos (by simp), quotedValue_eq _ _ (p.quoted_raw hq)]
  | false =>
    obtain ⟨hne, hquote, hplain⟩ := p.plain_raw hq
    obtain ⟨hslash, hdouble⟩ := h.value hq
    have hraw := plainRaw_blank p.raw hplain hslash
    have hvalue : p.valueText = p.raw := by simp [Pair.valueText, hq]
    obtain ⟨c, raw, hc⟩ := List.exists_cons_of_ne_nil hne
    have hchars (d : Char) (hd : d ∈ c :: raw) : (!isAsciiWhitespace d) = true := by
      rw [hblank d (hraw d (hc ▸ hd))]
      rfl
    have hstop : ∀ d ∈ s.head?, (!isAsciiWhitespace d) = false := fun d hd => by
      rw [hs hq d hd]
      rfl
    rw [hvalue, hc, skipBlanks_append _ _ h.after (by
      intro d hd
      obtain rfl : c = d := by simpa using hd
      simpa using hchars c List.mem_cons_self)]
    rw [hc] at hquote hdouble
    have hquote' : c ≠ '\'' := by simpa using hquote
    have hdouble' : c ≠ '"' := by simpa using hdouble
    rw [List.cons_append]
    dsimp only
    rw [if_neg (by simp [hquote', hdouble']), ← List.cons_append,
      takeWhile_stop _ _ _ hchars hstop, dropWhile_stop _ _ _ hchars hstop]

/-- A keyword string that the gate reads as the driver does. -/
structure PlainKeywords (k : Keywords isWhitespace) : Prop where
  pairs : ∀ p ∈ k.pairs, PlainPair p
  gaps : ∀ gap ∈ k.gaps, ∀ c ∈ gap, isAsciiWhitespace c = true

theorem libpqPairs_eq (k : Keywords isWhitespace) (h : PlainKeywords k) (n : ℕ)
    (hn : k.pairs.length ≤ n) : libpqPairs n k.text = k.pairs.map fun p => (p.key, p.raw) := by
  induction k generalizing n with
  | last p =>
    simp only [Keywords.pairs, List.length_singleton] at hn
    obtain ⟨n, rfl⟩ : ∃ m, n = m + 1 := ⟨n - 1, by omega⟩
    have hpair := libpqPairs_pair n p [] (h.pairs p (by simp [Keywords.pairs])) (by simp)
    rw [List.append_nil] at hpair
    rw [Keywords.text, hpair]
    cases n <;> rfl
  | cons p gap hblank hne next ih =>
    simp only [Keywords.pairs, List.length_cons] at hn
    obtain ⟨n, rfl⟩ : ∃ m, n = m + 1 := ⟨n - 1, by omega⟩
    have hgap : ∀ c ∈ gap, isAsciiWhitespace c = true := h.gaps gap (by simp [Keywords.gaps])
    have hpair := libpqPairs_pair n p (gap ++ next.text) (h.pairs p (by simp [Keywords.pairs]))
      (by
        intro hq c hc
        obtain ⟨d, gap', hd⟩ := List.exists_cons_of_ne_nil (hne hq)
        rw [hd] at hc
        obtain rfl : d = c := by simpa using hc
        exact hgap d (by rw [hd]; exact List.mem_cons_self))
    have hnext : PlainKeywords next :=
      ⟨fun q hq => h.pairs q (by simp [Keywords.pairs, hq]),
        fun g hg => h.gaps g (by simp [Keywords.gaps, hg])⟩
    rw [Keywords.text, hpair, libpqPairs_gap n gap _ hgap, ih hnext n (by omega)]
    rfl

theorem pair_text_last (p : KeywordPair) (h : PlainPair p) :
    ∃ c, p.text.getLast? = some c ∧ isWhitespace c = false := by
  have hvalue : ∃ c, p.valueText.getLast? = some c ∧ isWhitespace c = false := by
    cases hq : p.quoted with
    | true =>
      refine ⟨'\'', ?_, by decide⟩
      rw [Pair.valueText, hq]
      exact List.getLast?_concat
    | false =>
      obtain ⟨hne, -, hplain⟩ := p.plain_raw hq
      have hraw := plainRaw_blank p.raw hplain (h.value hq).1
      refine ⟨p.raw.getLast hne, ?_, hraw _ (List.getLast_mem hne)⟩
      rw [Pair.valueText, hq]
      exact List.getLast?_eq_some_getLast hne
  obtain ⟨c, hc, hblank⟩ := hvalue
  refine ⟨c, ?_, hblank⟩
  rw [Pair.text, ← List.append_assoc, List.getLast?_append, List.getLast?_cons,
    List.getLast?_append, hc]
  rfl

theorem keywords_text_last (k : Keywords isWhitespace) (h : ∀ p ∈ k.pairs, PlainPair p) :
    ∃ c, k.text.getLast? = some c ∧ isWhitespace c = false := by
  induction k with
  | last p => exact pair_text_last p (h p (by simp [Keywords.pairs]))
  | cons p gap _ _ next ih =>
    obtain ⟨c, hc, hblank⟩ := ih fun q hq => h q (by simp [Keywords.pairs, hq])
    exact ⟨c, by rw [Keywords.text, List.getLast?_append, List.getLast?_append, hc]; rfl, hblank⟩

/-- A keyword string starts with a keyword and a blank or the sign behind it. -/
theorem keywords_text_key (k : Keywords isWhitespace) : ∃ key c s, k.text = key ++ c :: s ∧
    key ≠ [] ∧ (∀ d ∈ key, d.isLower = true ∨ d = '_') ∧ (c = '=' ∨ isWhitespace c = true) := by
  have hpair (p : KeywordPair) (t : List Char) : ∃ key c s, p.text ++ t = key ++ c :: s ∧
      key ≠ [] ∧ (∀ d ∈ key, d.isLower = true ∨ d = '_') ∧ (c = '=' ∨ isWhitespace c = true) := by
    cases hb : p.before with
    | nil => exact ⟨p.key, '=', _, by simp [Pair.text, hb]; rfl, p.key_ne, p.key_chars, .inl rfl⟩
    | cons c before =>
      exact ⟨p.key, c, _, by simp [Pair.text, hb]; rfl, p.key_ne, p.key_chars,
        .inr (p.before_blank c (by rw [hb]; exact List.mem_cons_self))⟩
  cases k with
  | last p =>
    have h := hpair p []
    rwa [List.append_nil] at h
  | cons p gap _ _ next => exact hpair p _

theorem stripScheme_keywords (k : Keywords isWhitespace) : stripScheme k.text = none := by
  obtain ⟨key, c, s, htext, -, hkey, hc⟩ := keywords_text_key k
  have hkeyChar (d : Char) (hd : d ∈ key) : (d.isLower || d = '_') = true := by
    simpa using hkey d hd
  have hc' : ∀ d ∈ (c :: s).head?, (d.isLower || d = '_') = false := by
    intro d hd
    obtain rfl : c = d := by simpa using hd
    by_contra hlower
    have hlower' : c.isLower = true ∨ c = '_' := by
      rw [Bool.not_eq_false, Bool.or_eq_true, decide_eq_true_eq] at hlower
      exact hlower
    have hnot := keyChar_not_blank c hlower'
    rcases hc with rfl | hblank
    · exact hnot.2.1 rfl
    · rw [hnot.1] at hblank
      cases hblank
  have hdrop := dropWhile_stop (fun d : Char => d.isLower || d = '_') key (c :: s) hkeyChar hc'
  rw [← htext] at hdrop
  have hnone (pat : List Char) (rest : List Char)
      (hpat : ∀ t, (pat ++ t).dropWhile (fun d : Char => d.isLower || d = '_') =
        ':' :: '/' :: '/' :: t) : Text.stripPrefix pat k.text ≠ some rest := by
    intro hstrip
    rw [Text.stripPrefix_some _ _ _ hstrip, hpat] at hdrop
    rcases hc with rfl | hblank
    · cases hdrop
    · obtain rfl : ':' = c := (List.cons.inj hdrop).1
      revert hblank
      decide
  have hshort (t : List Char) : ("postgres://".toList ++ t).dropWhile
      (fun d : Char => d.isLower || d = '_') = ':' :: '/' :: '/' :: t := rfl
  have hlong (t : List Char) : ("postgresql://".toList ++ t).dropWhile
      (fun d : Char => d.isLower || d = '_') = ':' :: '/' :: '/' :: t := rfl
  unfold stripScheme
  cases hfirst : Text.stripPrefix "postgres://".toList k.text with
  | some rest => exact absurd hfirst (hnone _ rest hshort)
  | none =>
    cases hsecond : Text.stripPrefix "postgresql://".toList k.text with
    | some rest => exact absurd hsecond (hnone _ rest hlong)
    | none => rfl

theorem trimChars_lead (lead s : List Char) (hlead : ∀ c ∈ lead, isWhitespace c = true) :
    trimChars (lead ++ s) = trimChars s := by
  rw [trimChars, trimChars, List.dropWhile_append_of_pos hlead]

theorem rdropWhile_all (p : Char → Bool) (s : List Char) (h : ∀ c ∈ s, p c = true) :
    s.rdropWhile p = [] := List.rdropWhile_eq_nil_iff.mpr h

theorem trimChars_keywords (lead trail : List Char) (hlead : ∀ c ∈ lead, isWhitespace c = true)
    (htrail : ∀ c ∈ trail, isWhitespace c = true) (k : Keywords isWhitespace)
    (h : ∀ p ∈ k.pairs, PlainPair p) : trimChars (lead ++ (k.text ++ trail)) = k.text := by
  obtain ⟨key, c, s, htext, hne, hkey, -⟩ := keywords_text_key k
  obtain ⟨last, hlast, hblank⟩ := keywords_text_last k h
  obtain ⟨d, key', hd⟩ := List.exists_cons_of_ne_nil hne
  have hcons : k.text = d :: (key' ++ c :: s) := by rw [htext, hd, List.cons_append]
  rw [trimChars_lead lead _ hlead, hcons, trimChars_append d _ trail, rdropWhile_all _ _ htrail,
    List.append_nil]
  · exact (keyChar_not_blank d (hkey d (by rw [hd]; exact List.mem_cons_self))).1
  · intro e he
    rw [← hcons, hlast] at he
    obtain rfl := Option.some.inj he
    exact hblank

/-! ## The gate -/

def hostPairs (k : Keywords isWhitespace) : List KeywordPair :=
  k.pairs.filter fun p => p.key = "host".toList

/-- The driver and the gate see the same host, and what else the driver reads is local. -/
def ReadAlike : Conn isWhitespace → Prop
  | .url _ u => (∀ p ∈ u.params, ∀ t ∈ Url.paramHosts p, IsLocal t) ∧
      ((∀ h ∈ u.hosts, IsLocal (percentDecode h.host)) ∨ SingleHost u)
  | .keywords _ _ _ _ none => True
  | .keywords _ _ _ _ (some k) => PlainKeywords k ∧
      (∀ p ∈ k.pairs, p.key = "hostaddr".toList → ∀ t ∈ p.hosts, IsLocal t) ∧
      ∀ p ∈ (hostPairs k).dropLast, ∀ t ∈ p.hosts, IsLocal t

theorem extractHost_keywords (lead trail : List Char) (hlead : ∀ c ∈ lead, isWhitespace c = true)
    (htrail : ∀ c ∈ trail, isWhitespace c = true) (k : Keywords isWhitespace)
    (h : PlainKeywords k) :
    extractHost (lead ++ (k.text ++ trail)) = ((hostPairs k).getLast?).elim [] Pair.raw := by
  obtain ⟨key, c, s, htext, hne, -, -⟩ := keywords_text_key k
  have hfuel : k.pairs.length ≤ k.text.length := by
    clear h htext
    induction k with
    | last p =>
      have hpos := List.length_pos_iff.mpr p.key_ne
      simp only [Keywords.pairs, Keywords.text, Pair.text, List.length_append,
        List.length_singleton]
      omega
    | cons p gap _ _ next ih =>
      have hpos := List.length_pos_iff.mpr p.key_ne
      simp only [Keywords.pairs, Keywords.text, Pair.text, List.length_append, List.length_cons]
      omega
  have hempty : k.text.isEmpty = false := by
    rw [htext]
    cases key with
    | nil => exact absurd rfl hne
    | cons d key => rfl
  unfold extractHost
  dsimp only
  rw [trimChars_keywords lead trail hlead htrail k h.pairs, hempty, stripScheme_keywords]
  simp only [Bool.false_eq_true, if_false]
  rw [extractLibpqHost, libpqPairs_eq k h _ hfuel, lastHost, List.filter_map, List.getLast?_map]
  change ((hostPairs k).getLast?.map fun p => (p.key, p.raw)).elim [] Prod.snd = _
  cases (hostPairs k).getLast? <;> rfl

theorem splitComma_eq (s : List Char) (h : ',' ∉ s) : splitComma s = [s] := by
  refine List.splitOnP_eq_singleton fun c hc => ?_
  have hne : c ≠ ',' := fun heq => h (heq ▸ hc)
  simpa using hne

/-- **The gate lets only local hosts through** when the driver reads the string as the gate
does. -/
theorem localhost_gate_local (conn : Conn isWhitespace) (halike : ReadAlike conn)
    (hgate : isLocalhostConnection conn.text = true) : ∀ t ∈ conn.targets, IsLocal t := by
  cases conn with
  | url long u =>
    obtain ⟨hparams, hhosts⟩ := halike
    intro t ht
    rcases List.mem_append.mp ht with ht | ht
    · obtain ⟨h, hh, rfl⟩ := List.mem_map.mp ht
      rcases hhosts with hlocal | hsingle
      · exact hlocal h hh
      · obtain ⟨h', hone, -⟩ := hsingle.one
        rw [hone] at hh
        obtain rfl := List.mem_singleton.mp hh
        rw [isLocalhostConnection, Conn.text, extractHost_url long u hsingle h hone] at hgate
        rw [percentDecode_eq _ (notMem_of_isLocalHost _ hgate '%' (by decide))]
        exact isLocal_of_isLocalHost _ hgate
    · obtain ⟨p, hp, hpt⟩ := List.mem_flatMap.mp ht
      exact hparams p hp t hpt
  | keywords lead trail hlead htrail k =>
    cases k with
    | none => simp [Conn.targets]
    | some k =>
      obtain ⟨hplain, haddr, hhost⟩ := halike
      intro t ht
      obtain ⟨p, hp, hpt⟩ := List.mem_flatMap.mp ht
      by_cases hkey : p.key = "host".toList
      · have hmem : p ∈ hostPairs k := List.mem_filter.mpr ⟨hp, decide_eq_true hkey⟩
        have hne : hostPairs k ≠ [] := List.ne_nil_of_mem hmem
        rw [← List.dropLast_append_getLast hne] at hmem
        rcases List.mem_append.mp hmem with hfront | hlast
        · exact hhost p hfront t hpt
        · obtain rfl := List.mem_singleton.mp hlast
          have hextract := extractHost_keywords lead trail hlead htrail k hplain
          rw [List.getLast?_eq_some_getLast hne] at hextract
          rw [isLocalhostConnection, Conn.text] at hgate
          change isLocalHost (extractHost (lead ++ (k.text ++ trail))) = true at hgate
          rw [hextract] at hgate
          dsimp only [Option.elim] at hgate
          have hslash := notMem_of_isLocalHost _ hgate '\\' (by decide)
          have hcomma := notMem_of_isLocalHost _ hgate ',' (by decide)
          rw [Pair.hosts, if_pos (.inl hkey), Pair.value, unescape_eq _ hslash,
            splitComma_eq _ hcomma, List.mem_singleton] at hpt
          rw [hpt]
          exact isLocal_of_isLocalHost _ hgate
      · by_cases hkey' : p.key = "hostaddr".toList
        · exact haddr p hp hkey' t hpt
        · rw [Pair.hosts, if_neg (by simp only [hkey, hkey', or_self, not_false_eq_true])] at hpt
          cases hpt

/-- A URL without credentials whose one host is the local one. -/
def localUrl (tail : List Char) (params : List (List Char × List Char))
    (hat : '@' ∉ tail) (hhead : ∀ c ∈ tail.head?, c = '/' ∨ c = '?')
    (hquery : readParams tail.length (tail.dropWhile (· ≠ '?')).tail = some params) : Url where
  creds := none
  hosts := [{ bracketed := false
              host := "localhost".toList
              port := some "5432".toList
              chars := List.all_iff_forall_prop.mp (by decide)
              closed := by decide
              plain := by decide
              port_chars := fun p hp => by
                obtain rfl := Option.some.inj hp
                exact List.all_iff_forall_prop.mp (by decide) }]
  tail := tail
  params := params
  creds_chars := by simp
  no_creds := fun _ => ⟨by decide, hat⟩
  tail_head := hhead
  query := hquery

/-- A pair with the same blanks on both sides of the sign. -/
def pairOf (key raw blanks : List Char) (quoted : Bool) (hne : key ≠ [])
    (hkey : (key.all fun c => c.isLower || c = '_') = true)
    (hblanks : blanks.all isWhitespace = true)
    (hquoted : quoted = true → quotedRaw raw = true)
    (hplain : quoted = false →
      raw ≠ [] ∧ raw.head? ≠ some '\'' ∧ plainRaw isWhitespace raw = true) :
    KeywordPair where
  key := key
  before := blanks
  after := blanks
  quoted := quoted
  raw := raw
  key_ne := hne
  key_chars := by simpa using hkey
  before_blank := List.all_eq_true.mp hblanks
  after_blank := List.all_eq_true.mp hblanks
  quoted_raw := hquoted
  plain_raw := hplain

/-- A quoted password, a host address, a socket and a host. -/
def localKeywords : Keywords isWhitespace :=
  .cons (pairOf "password".toList "it\\'s host=db".toList [' '] true (by decide) (by decide)
    (by decide) (by decide) (by decide)) [] (by simp) (by decide) <|
  .cons (pairOf "hostaddr".toList "127.0.0.1".toList [] false (by decide) (by decide)
    (by decide) (by decide) (by decide)) [' ', '\t'] (by simp [isWhitespace]) (by decide) <|
  .cons (pairOf "host".toList "/tmp".toList [] false (by decide) (by decide)
    (by decide) (by decide) (by decide)) [' '] (by simp [isWhitespace]) (by decide) <|
  .last (pairOf "host".toList "localhost".toList [' '] false (by decide) (by decide)
    (by decide) (by decide) (by decide))

theorem localKeywords_plain : PlainKeywords localKeywords where
  pairs := by
    intro p hp
    simp only [localKeywords, Keywords.pairs, List.mem_cons, List.not_mem_nil, or_false] at hp
    rcases hp with rfl | rfl | rfl | rfl <;>
      exact ⟨by simp [pairOf, isAsciiWhitespace], by simp [pairOf, isAsciiWhitespace], by decide⟩
  gaps := by simp [localKeywords, Keywords.gaps, isAsciiWhitespace]

def localConn : Conn isWhitespace :=
  .keywords [] [] (by simp) (by simp) (some localKeywords)

theorem localConn_readAlike : ReadAlike localConn := by
  have haddr : ∀ p ∈ localKeywords.pairs, p.key = "hostaddr".toList →
      p.hosts.all isLocalHost = true := by decide +kernel
  have hsocket : ∀ p ∈ (hostPairs localKeywords).dropLast, ∀ t ∈ p.hosts,
      t.head? = some '/' := by decide +kernel
  exact ⟨localKeywords_plain,
    fun p hp hkey t ht => isLocal_of_isLocalHost t (List.all_eq_true.mp (haddr p hp hkey) t ht),
    fun p hp t ht => .inr (.inl (hsocket p hp t ht))⟩

theorem localhost_gate_local_both :
    (isLocalhostConnection "postgres://localhost:5432/shop".toList = true ∧
      ∀ t ∈ (Conn.url false (localUrl "/shop".toList [] (by decide)
        (fun _ hc => .inl (Option.some.inj hc).symm) (by decide)) : Conn isWhitespace).targets,
          IsLocal t) ∧
    localConn.text = ("password = 'it\\'s host=db'hostaddr=127.0.0.1 \thost=/tmp " ++
      "host = localhost").toList ∧
    localConn.targets = ["127.0.0.1".toList, "/tmp".toList, "localhost".toList] ∧
    ∀ t ∈ localConn.targets, IsLocal t := by
  refine ⟨⟨by decide +kernel, ?_⟩, by decide +kernel, by decide +kernel,
    localhost_gate_local localConn localConn_readAlike (by decide +kernel)⟩
  refine localhost_gate_local _ ⟨by simp [localUrl], .inr ⟨⟨_, rfl, by decide⟩, ?_, ?_⟩⟩
    (by decide +kernel)
  · simp [localUrl]
  · simp [localUrl]

theorem not_isLocal_of_head (c : Char) (s : List Char) (hslash : c ≠ '/') (hl : c ≠ 'l')
    (hdigit : c.isDigit = false) (hcolon : c ≠ ':') : ¬IsLocal (c :: s) := by
  have hzero : c ≠ '0' := by
    rintro rfl
    cases hdigit
  have hone : c ≠ '1' := by
    rintro rfl
    cases hdigit
  rintro (h | h | h | h | h)
  · cases h
  · exact hslash (by simpa using h)
  · exact hl (List.cons.inj h).1
  · obtain ⟨x, xs, hs, -, hx, -⟩ := h
    cases x with
    | nil => exact absurd hx.length.1 (by simp)
    | cons d x =>
      obtain rfl : c = d := (List.cons.inj hs).1
      rw [hx.digits c List.mem_cons_self] at hdigit
      cases hdigit
  · rcases h.1 c List.mem_cons_self with h | h | h
    · exact hzero h
    · exact hone h
    · exact hcolon h

/-- A host parameter of the query is not seen. -/
theorem host_parameter_passes : ¬ ∀ conn : Conn isWhitespace,
    isLocalhostConnection conn.text = true → ∀ t ∈ conn.targets, IsLocal t := by
  intro hall
  have hlocal := hall
    (.url false (localUrl "/shop?host=db.example.com".toList
      [("host".toList, "db.example.com".toList)] (by decide)
      (fun _ hc => .inl (Option.some.inj hc).symm) (by decide +kernel)))
    (by decide +kernel) "db.example.com".toList (by decide +kernel)
  exact not_isLocal_of_head 'd' "b.example.com".toList (by decide) (by decide) (by decide)
    (by decide) hlocal

end Djogi

/-
  Kin.Lib.Net

  **NETWORK ADDRESSES AS TEXT** (Go's `net` and `net/netip`).

  An address is written by `TCPAddr.String` and read back by `SplitHostPort` and
  `ResolveUDPAddr`.  The text is `host:port`; a host that contains a colon
  stands in brackets.

    • `splitHostPort_unbracketed`, `splitHostPort_not_bracketed` — a host with a
      colon is refused when it has no brackets of its own around it,
    • `splitHostPort_joinHostPort` — a bracketed host comes back, or the text is
      refused: nothing else,
    • `parseIPv4_dotted` — the text of an IPv4 address is that address,
    • `lookupPort_decimal` — the decimal text of a `uint32` is a port exactly if
      it is at most 65535.
-/
import Kin.Lib.GoStd

namespace Kin.Lib

/-! ## §1. Decimal text. -/

/-- `strconv.Itoa`, `%d`. -/
def decimal (n : Nat) : GoString := ascii (toString n)

/-- The digit `d` as a byte. -/
def digit (d : Nat) : UInt8 := (48 + d).toUInt8

def isDigit (b : UInt8) : Bool := decide (48 ≤ b) && decide (b ≤ 57)

theorem digitChar_toUInt8 : ∀ d < 10, (Nat.digitChar d).toNat.toUInt8 = digit d := by decide

theorem isDigit_digit : ∀ d < 10, isDigit (digit d) = true := by decide

theorem toNat_digit : ∀ d < 10, (digit d).toNat - 48 = d := by decide

theorem decimal_eq_toDigits (n : Nat) :
    decimal n = (Nat.toDigits 10 n).map (fun c => c.toNat.toUInt8) := by
  unfold decimal ascii
  simp

theorem decimal_of_lt {n : Nat} (h : n < 10) : decimal n = [digit n] := by
  rw [decimal_eq_toDigits, Nat.toDigits_of_lt_base h]
  simp [digitChar_toUInt8 n h]

theorem decimal_of_le {n : Nat} (h : 10 ≤ n) :
    decimal n = decimal (n / 10) ++ [digit (n % 10)] := by
  have hmod : n % 10 < 10 := Nat.mod_lt _ (by omega)
  simp only [decimal_eq_toDigits]
  rw [Nat.toDigits_of_base_le (by omega) h, List.map_append]
  simp [digitChar_toUInt8 _ hmod]

/-- Only digits are written. -/
theorem isDigit_of_mem_decimal (n : Nat) : ∀ b ∈ decimal n, isDigit b = true := by
  induction n using Nat.strongRecOn with
  | ind n ih =>
    intro b hb
    rcases Nat.lt_or_ge n 10 with hlt | hge
    · rw [decimal_of_lt hlt] at hb
      rw [List.mem_singleton.mp hb]
      exact isDigit_digit n hlt
    · rw [decimal_of_le hge] at hb
      rcases List.mem_append.mp hb with hb | hb
      · exact ih (n / 10) (by omega) b hb
      · rw [List.mem_singleton.mp hb]
        exact isDigit_digit _ (by omega)

theorem notMem_decimal {b : UInt8} (h : isDigit b = false) (n : Nat) : b ∉ decimal n := by
  intro hb
  simp [isDigit_of_mem_decimal n b hb] at h

theorem decimal_ne_nil (n : Nat) : decimal n ≠ [] := by
  rcases Nat.lt_or_ge n 10 with hlt | hge
  · simp [decimal_of_lt hlt]
  · simp [decimal_of_le hge]

/-! ## §2. `SplitHostPort` and `JoinHostPort`. -/

def colon : UInt8 := 58
def lbrack : UInt8 := 91
def rbrack : UInt8 := 93

/-- `LastIndexByteString`. -/
def lastIndexByte (b : UInt8) : GoString → Option Nat
  | [] => none
  | a :: s =>
    match lastIndexByte b s with
    | some i => some (i + 1)
    | none => if a = b then some 0 else none

/-- `AddrError.Error`. -/
def addrError (addr : GoString) (why : String) : GoString :=
  if addr = [] then ascii why else ascii "address " ++ addr ++ ascii ": " ++ ascii why

/-- The checks of `SplitHostPort` for stray brackets, from the places `j` and `k` on. -/
def strayBracket (hostport : GoString) (j k : Nat) : Option String :=
  if lbrack ∈ hostport.drop j then some "unexpected '[' in address"
  else if rbrack ∈ hostport.drop k then some "unexpected ']' in address"
  else none

/-- `net.SplitHostPort`: the host and the port. -/
def splitHostPort (hostport : GoString) : Except GoString (GoString × GoString) :=
  match lastIndexByte colon hostport with
  | none => .error (addrError hostport "missing port in address")
  | some i =>
    if hostport.head? = some lbrack then
      match hostport.idxOf? rbrack with
      | none => .error (addrError hostport "missing ']' in address")
      | some e =>
        if e + 1 = hostport.length then
          .error (addrError hostport "missing port in address")
        else if e + 1 = i then
          match strayBracket hostport 1 (e + 1) with
          | some why => .error (addrError hostport why)
          | none => .ok ((hostport.take e).drop 1, hostport.drop (i + 1))
        else if hostport[e + 1]? = some colon then
          .error (addrError hostport "too many colons in address")
        else .error (addrError hostport "missing port in address")
    else if colon ∈ hostport.take i then
      .error (addrError hostport "too many colons in address")
    else
      match strayBracket hostport 0 0 with
      | some why => .error (addrError hostport why)
      | none => .ok (hostport.take i, hostport.drop (i + 1))

def joinHostPort (host port : GoString) : GoString :=
  if colon ∈ host then lbrack :: host ++ rbrack :: colon :: port
  else host ++ colon :: port

theorem lastIndexByte_eq_none {b : UInt8} {s : GoString} (h : b ∉ s) : lastIndexByte b s = none := by
  induction s with
  | nil => rfl
  | cons a s ih =>
    simp only [List.mem_cons, not_or] at h
    simp [lastIndexByte, ih h.2, Ne.symm h.1]

/-- The last colon is the one no colon follows. -/
theorem lastIndexByte_append {b : UInt8} {t : GoString} (h : b ∉ t) (s : GoString) :
    lastIndexByte b (s ++ b :: t) = some s.length := by
  induction s with
  | nil => simp [lastIndexByte, lastIndexByte_eq_none h]
  | cons a s ih =>
    show lastIndexByte b (a :: (s ++ b :: t)) = some (s.length + 1)
    simp [lastIndexByte, ih]

section Split

variable {host port : GoString} (hport : colon ∉ port)

include hport in
/-- **A plain host**: no colon and no bracket in it. -/
theorem splitHostPort_plain (hcolon : colon ∉ host) (hl : lbrack ∉ host) (hr : rbrack ∉ host)
    (hlp : lbrack ∉ port) (hrp : rbrack ∉ port) :
    splitHostPort (host ++ colon :: port) = .ok (host, port) := by
  have hhead : (host ++ colon :: port).head? ≠ some lbrack := by
    cases host with
    | nil => simp [colon, lbrack]
    | cons a s =>
      simp only [List.mem_cons, not_or] at hl
      simpa using Ne.symm hl.1
  have hstray : strayBracket (host ++ colon :: port) 0 0 = none := by
    have hl' : lbrack ∉ host ++ colon :: port := by simp [hl, hlp, show lbrack ≠ colon by decide]
    have hr' : rbrack ∉ host ++ colon :: port := by simp [hr, hrp, show rbrack ≠ colon by decide]
    simp only [strayBracket, List.drop_zero, if_neg hl', if_neg hr']
  unfold splitHostPort
  rw [lastIndexByte_append hport]
  dsimp only
  rw [if_neg hhead]
  simp [hcolon, hstray]

include hport in
/-- **A host with a colon and no bracket before it** is refused. -/
theorem splitHostPort_unbracketed (hhead : host.head? ≠ some lbrack) (hcolon : colon ∈ host) :
    splitHostPort (host ++ colon :: port)
      = .error (addrError (host ++ colon :: port) "too many colons in address") := by
  have hne : host ≠ [] := List.ne_nil_of_mem hcolon
  have hhead' : (host ++ colon :: port).head? ≠ some lbrack := by
    rwa [List.head?_append_of_ne_nil _ hne]
  unfold splitHostPort
  rw [lastIndexByte_append hport]
  dsimp only
  rw [if_neg hhead']
  simp [hcolon]

include hport in
/-- **A host that opens a bracket and does not end in one** is refused. -/
theorem splitHostPort_not_bracketed (hhead : host.head? = some lbrack)
    (hlast : host.getLast? ≠ some rbrack) :
    ∃ err, splitHostPort (host ++ colon :: port) = .error err := by
  have hne : host ≠ [] := by
    rintro rfl
    simp at hhead
  have hhead' : (host ++ colon :: port).head? = some lbrack := by
    rwa [List.head?_append_of_ne_nil _ hne]
  unfold splitHostPort
  rw [lastIndexByte_append hport]
  simp only [hhead', if_true]
  split
  next => exact ⟨_, rfl⟩
  next e he =>
    -- the bracket found would be the host's last byte
    have hend : e + 1 ≠ host.length := by
      intro heq
      obtain ⟨hlt, hget, _⟩ := List.idxOf?_eq_some_iff.mp he
      apply hlast
      rw [List.getLast?_eq_getElem?, ← heq, Nat.add_sub_cancel]
      rw [List.getElem_append_left (by omega)] at hget
      rw [List.getElem?_eq_getElem (by omega), hget]
    rw [if_neg hend]
    split
    · exact ⟨_, rfl⟩
    · split <;> exact ⟨_, rfl⟩

include hport in
/-- **What `JoinHostPort` put in brackets** comes back or is refused. -/
theorem splitHostPort_joinHostPort (hcolon : colon ∈ host) :
    splitHostPort (joinHostPort host port) = .ok (host, port)
      ∨ ∃ err, splitHostPort (joinHostPort host port) = .error err := by
  have hjoin : joinHostPort host port = (lbrack :: host ++ [rbrack]) ++ colon :: port := by
    simp [joinHostPort, hcolon]
  rw [hjoin]
  unfold splitHostPort
  rw [lastIndexByte_append hport]
  simp only [List.cons_append, List.head?_cons, if_true]
  split
  next => exact Or.inr ⟨_, rfl⟩
  next e he =>
    split
    · exact Or.inr ⟨_, rfl⟩
    · split
      next hend =>
        split
        · exact Or.inr ⟨_, rfl⟩
        · left
          have he' : e = host.length + 1 := by
            simp at hend
            omega
          subst he'
          simp
      next =>
        split <;> exact Or.inr ⟨_, rfl⟩

end Split

/-! ## §3. IP addresses and their text. -/

/-- The 16 bytes stand for an IPv4 address. -/
def is4In6 (b : Bytes 16) : Bool := b.val.take 12 = List.replicate 10 0 ++ [0xFF, 0xFF]

/-- A `net.IP`; an IPv4 address has one form only. -/
inductive IP where
  | v4 (b : Bytes 4)
  | v6 (b : Bytes 16) (h : is4In6 b = false)
  deriving DecidableEq

def IP.isV4 : IP → Bool
  | .v4 _ => true
  | .v6 _ _ => false

def dot : UInt8 := 46

/-- The fields, with dots between them. -/
def dottedFields : List UInt8 → GoString
  | [] => []
  | [b] => decimal b.toNat
  | b :: bs => decimal b.toNat ++ dot :: dottedFields bs

def dotted (b : Bytes 4) : GoString := dottedFields b.val

/-- The 16-bit groups of an IPv6 address. -/
def groups : List UInt8 → List Nat
  | hi :: lo :: bs => (hi.toNat * 256 + lo.toNat) :: groups bs
  | _ => []

/-- `appendHex`. -/
def hex (n : Nat) : GoString := (Nat.toDigits 16 n).map (fun c => c.toNat.toUInt8)

/-- The first loop of `appendTo6`: the first longest run of two or more zero
groups, as its start and end. -/
def zeroRun (g : List Nat) : Nat × Nat :=
  (List.range 8).foldl (fun z i =>
    let l := ((g.drop i).takeWhile (fun x => x = 0)).length
    if 2 ≤ l ∧ z.2 - z.1 < l then (i, i + l) else z) (255, 255)

/-- The second loop of `appendTo6`, from group `i` on; each turn moves on by at
least one group, so that eight turns are enough. -/
def appendGroups (g : List Nat) (z : Nat × Nat) : (turns i : Nat) → GoString
  | 0, _ => []
  | turns + 1, i =>
    if 8 ≤ i then []
    else if i = z.1 then
      colon :: colon ::
        (if 8 ≤ z.2 then [] else hex (g.getD z.2 0) ++ appendGroups g z turns (z.2 + 1))
    else
      (if 0 < i then [colon] else []) ++ hex (g.getD i 0) ++ appendGroups g z turns (i + 1)

def text6 (b : Bytes 16) : GoString :=
  appendGroups (groups b.val) (zeroRun (groups b.val)) 8 0

def IP.string : IP → GoString
  | .v4 b => dotted b
  | .v6 b _ => text6 b

/-- `net.TCPAddr`; only IPv6 addresses have a zone. -/
structure TCPAddr where
  ip : IP
  port : UInt16
  zone : GoString
  zone_v4 : ip.isV4 = true → zone = []

def TCPAddr.string (a : TCPAddr) : GoString :=
  joinHostPort (if a.zone = [] then a.ip.string else a.ip.string ++ 37 :: a.zone)
    (decimal a.port.toNat)

/-- `parseIPv4Fields`: the value and length of the field being read, the fields
before it, and the text left. -/
def parseIPv4Fields : (val digLen : Nat) → (fields : List UInt8) → GoString → Option (List UInt8)
  | val, _, fields, [] => if fields.length < 3 then none else some (fields ++ [val.toUInt8])
  | val, digLen, fields, c :: s =>
    if isDigit c then
      if digLen = 1 ∧ val = 0 then none
      else if 255 < val * 10 + (c.toNat - 48) then none
      else parseIPv4Fields (val * 10 + (c.toNat - 48)) (digLen + 1) fields s
    else if c = dot then
      if digLen = 0 ∨ s = [] then none
      else if fields.length = 3 then none
      else parseIPv4Fields 0 0 (fields ++ [val.toUInt8]) s
    else none

def parseIPv4 (s : GoString) : Option (Bytes 4) :=
  (parseIPv4Fields 0 0 [] s).bind (Bytes.ofList? 4)

/-- Reading the decimal text of a field gives the field. -/
theorem parseIPv4Fields_decimal (fields : List UInt8) (n : Nat) : n ≤ 255 → ∀ s,
    parseIPv4Fields 0 0 fields (decimal n ++ s)
      = parseIPv4Fields n (decimal n).length fields s := by
  induction n using Nat.strongRecOn with
  | ind n ih =>
    intro hn s
    rcases Nat.lt_or_ge n 10 with hlt | hge
    · rw [decimal_of_lt hlt]
      simp [parseIPv4Fields, isDigit_digit n hlt, toNat_digit n hlt]
      omega
    · have hmod : n % 10 < 10 := Nat.mod_lt _ (by omega)
      have hval : n / 10 * 10 + n % 10 = n := by omega
      rw [decimal_of_le hge, List.append_assoc, ih (n / 10) (by omega) (by omega)]
      simp [parseIPv4Fields, isDigit_digit _ hmod, toNat_digit _ hmod, hval,
        show ¬ n < 10 by omega, show ¬ 255 < n by omega]

theorem parseIPv4Fields_dot (fields : List UInt8) (b : UInt8) {s : GoString} (hs : s ≠ [])
    (hlen : fields.length < 3) :
    parseIPv4Fields 0 0 fields (decimal b.toNat ++ dot :: s)
      = parseIPv4Fields 0 0 (fields ++ [b]) s := by
  rw [parseIPv4Fields_decimal fields b.toNat (by have := b.toNat_lt; omega)]
  simp [parseIPv4Fields, show isDigit dot = false by decide, decimal_ne_nil, hs,
    show fields.length ≠ 3 by omega]

theorem dottedFields_ne_nil {bs : List UInt8} (h : bs ≠ []) : dottedFields bs ≠ [] := by
  match bs, h with
  | [b], _ => exact decimal_ne_nil b.toNat
  | b :: c :: bs, _ => simp [dottedFields]

/-- The fields read, one after the other, are those written. -/
theorem parseIPv4Fields_dotted (bs : List UInt8) : ∀ fields : List UInt8, bs ≠ [] →
    fields.length + bs.length = 4 →
    parseIPv4Fields 0 0 fields (dottedFields bs) = some (fields ++ bs) := by
  induction bs with
  | nil => exact fun _ h => absurd rfl h
  | cons b bs ih =>
    intro fields _ hlen
    rw [List.length_cons] at hlen
    cases bs with
    | nil =>
      have h := parseIPv4Fields_decimal fields b.toNat (by have := b.toNat_lt; omega) []
      rw [List.append_nil] at h
      show parseIPv4Fields 0 0 fields (decimal b.toNat) = some (fields ++ [b])
      rw [h]
      simp [parseIPv4Fields] at hlen ⊢
      omega
    | cons c bs =>
      show parseIPv4Fields 0 0 fields (decimal b.toNat ++ dot :: dottedFields (c :: bs)) = _
      rw [List.length_cons] at hlen
      rw [parseIPv4Fields_dot fields b (dottedFields_ne_nil (by simp)) (by omega),
        ih (fields ++ [b]) (by simp) (by simp; omega)]
      simp

theorem ne_nil_of_bytes4 (b : Bytes 4) : b.val ≠ [] := by
  intro h
  have := b.length_eq
  simp [h] at this

/-- **The text of an IPv4 address is that address.** -/
theorem parseIPv4_dotted (b : Bytes 4) : parseIPv4 (dotted b) = some b := by
  unfold parseIPv4 dotted
  rw [parseIPv4Fields_dotted b.val [] (ne_nil_of_bytes4 b) (by simp [b.length_eq])]
  exact Bytes.ofList?_val b

theorem notMem_dottedFields {c : UInt8} (hd : isDigit c = false) (hdot : c ≠ dot) (bs : List UInt8) :
    c ∉ dottedFields bs := by
  induction bs with
  | nil => simp [dottedFields]
  | cons b bs ih =>
    cases bs with
    | nil => exact notMem_decimal hd b.toNat
    | cons b' bs =>
      show c ∉ decimal b.toNat ++ dot :: dottedFields (b' :: bs)
      simp [notMem_decimal hd, hdot, ih]

theorem notMem_dotted {c : UInt8} (hd : isDigit c = false) (hdot : c ≠ dot) (b : Bytes 4) :
    c ∉ dotted b := notMem_dottedFields hd hdot b.val

/-- An IPv4 host and a decimal port split into the two. -/
theorem splitHostPort_dotted (b : Bytes 4) (n : Nat) :
    splitHostPort (dotted b ++ colon :: decimal n) = .ok (dotted b, decimal n) :=
  splitHostPort_plain (notMem_decimal (by decide) n) (notMem_dotted (by decide) (by decide) b)
    (notMem_dotted (by decide) (by decide) b) (notMem_dotted (by decide) (by decide) b)
    (notMem_decimal (by decide) n) (notMem_decimal (by decide) n)

theorem digitChar_ne_lbrack : ∀ d < 16, (Nat.digitChar d).toNat.toUInt8 ≠ lbrack := by decide

/-- Hexadecimal text does not open a bracket. -/
theorem head_hex (n : Nat) : ∃ d < 16, (hex n).head? = some (Nat.digitChar d).toNat.toUInt8 := by
  induction n using Nat.strongRecOn with
  | ind n ih =>
    unfold hex at ih ⊢
    rcases Nat.lt_or_ge n 16 with hlt | hge
    · exact ⟨n, hlt, by simp [Nat.toDigits_of_lt_base hlt]⟩
    · obtain ⟨d, hd, hhead⟩ := ih (n / 16) (by omega)
      refine ⟨d, hd, ?_⟩
      rw [Nat.toDigits_of_base_le (by omega) hge, List.map_append, List.head?_append, hhead]
      rfl

theorem colon_mem_appendGroups (g : List Nat) (z : Nat × Nat) (turns : Nat) :
    colon ∈ appendGroups g z (turns + 1) 1 := by
  unfold appendGroups
  rw [if_neg (by omega)]
  split <;> simp

/-- The text of an IPv6 address has a colon. -/
theorem colon_mem_text6 (b : Bytes 16) : colon ∈ text6 b := by
  unfold text6 appendGroups
  rw [if_neg (by omega)]
  split
  · simp
  · simp [colon_mem_appendGroups _ _ 6]

theorem head_text6 (b : Bytes 16) : ∃ c ≠ lbrack, (text6 b).head? = some c := by
  unfold text6 appendGroups
  rw [if_neg (by omega)]
  split
  · exact ⟨colon, by decide, rfl⟩
  · obtain ⟨d, hd, hhead⟩ := head_hex ((groups b.val).getD 0 0)
    refine ⟨_, digitChar_ne_lbrack d hd, ?_⟩
    rw [if_neg (by omega), List.nil_append, List.head?_append, hhead]
    rfl

/-! ## §4. Ports. -/

/-- Where `parsePort` stops telling numbers apart. -/
def portCutoff : UInt32 := 1073741824

/-- The loop of `parsePort`; `none` = not a number. -/
def parsePortLoop : UInt32 → GoString → Option UInt32
  | n, [] => some n
  | n, d :: s =>
    if isDigit d then
      if portCutoff ≤ n then some 4294967295
      else
        let n := n * 10
        let nn := n + (d.toNat - 48).toUInt32
        if nn < n then some 4294967295 else parsePortLoop nn s
    else none

/-- `parsePort`; `none` = the name of a service. -/
def parsePort : GoString → Option Int
  | [] => some 0
  | d :: s =>
    let neg := decide (d = 45)
    let digits := if d = 43 ∨ d = 45 then s else d :: s
    (parsePortLoop 0 digits).map (fun n =>
      let port : Int :=
        if !neg && decide (portCutoff ≤ n) then (portCutoff.toNat : Int) - 1
        else if neg && decide (portCutoff < n) then portCutoff.toNat
        else n.toNat
      if neg then -port else port)

/-- Reading the decimal text of a `uint32` gives the number. -/
theorem parsePortLoop_decimal (n : Nat) :
    n < 4294967296 → ∀ s, parsePortLoop 0 (decimal n ++ s) = parsePortLoop n.toUInt32 s := by
  induction n using Nat.strongRecOn with
  | ind n ih =>
    intro hn s
    have hmod : n % 10 < 10 := Nat.mod_lt _ (by omega)
    rcases Nat.lt_or_ge n 10 with hlt | hge
    · rw [decimal_of_lt hlt]
      simp [parsePortLoop, isDigit_digit n hlt, toNat_digit n hlt, portCutoff]
    · rw [decimal_of_le hge, List.append_assoc, ih (n / 10) (by omega) (by omega)]
      -- no wrap-around: what has been read is at most 429496729
      have hq : (n / 10).toUInt32.toNat = n / 10 := by
        simp
        omega
      have hd : (n % 10).toUInt32.toNat = n % 10 := by
        simp
        omega
      have hcut : ¬ portCutoff ≤ (n / 10).toUInt32 := by
        rw [UInt32.le_iff_toNat_le, hq]
        simp [portCutoff]
        omega
      have hten : ((n / 10).toUInt32 * 10).toNat = n / 10 * 10 := by
        rw [UInt32.toNat_mul, hq]
        simp
        omega
      have hsum : (n / 10).toUInt32 * 10 + (n % 10).toUInt32 = n.toUInt32 := by
        apply UInt32.toNat_inj.mp
        rw [UInt32.toNat_add, hten, hd]
        simp
        omega
      have hlt : ¬ n.toUInt32 < (n / 10).toUInt32 * 10 := by
        rw [UInt32.lt_iff_toNat_lt, hten]
        simp
        omega
      simp only [List.singleton_append, parsePortLoop, isDigit_digit _ hmod, toNat_digit _ hmod,
        if_true, if_neg hcut, hsum, if_neg hlt]

/-- The rest of the world: what is neither a number nor an IPv4 address. -/
structure Resolver where
  /-- The port of a service. -/
  service : GoString → Except GoString Int
  /-- The addresses of a host name, or of an IPv6 literal, with their zones. -/
  host : GoString → Except GoString (List (IP × GoString))

/-- No service and no host is known. -/
def Resolver.offline : Resolver :=
  ⟨fun _ => .error (ascii "unknown port"), fun _ => .error (ascii "no such host")⟩

def lookupPort (r : Resolver) (service : GoString) : Except GoString Nat := do
  let port ← match parsePort service with
    | some port => pure port
    | none => r.service service
  if port < 0 ∨ 65535 < port then .error (addrError service "invalid port") else pure port.toNat

theorem parsePort_decimal {n : Nat} (hn : n < 4294967296) :
    parsePort (decimal n) = some (if n < 1073741824 then (n : Int) else 1073741823) := by
  have hdigits : ∀ d s, decimal n = d :: s → isDigit d = true := fun d s h =>
    isDigit_of_mem_decimal n d (by rw [h]; exact List.mem_cons_self)
  have hloop := parsePortLoop_decimal n hn []
  rw [List.append_nil] at hloop
  have hto : n.toUInt32.toNat = n := by
    simp
    omega
  cases hdec : decimal n with
  | nil => exact absurd hdec (decimal_ne_nil n)
  | cons d s =>
    have hd := hdigits d s hdec
    -- a digit is no sign
    have hplus : d ≠ 43 := by
      rintro rfl
      exact absurd hd (by decide)
    have hminus : d ≠ 45 := by
      rintro rfl
      exact absurd hd (by decide)
    rw [hdec] at hloop
    have hcut : portCutoff ≤ n.toUInt32 ↔ ¬ n < 1073741824 := by
      rw [UInt32.le_iff_toNat_le, hto]
      simp [portCutoff]
    by_cases hlt : n < 1073741824
    · have hnot : ¬ portCutoff ≤ n.toUInt32 := fun h => hcut.mp h hlt
      simp [parsePort, hplus, hminus, hloop, parsePortLoop, hnot, hlt, hto]
    · have hle : portCutoff ≤ n.toUInt32 := hcut.mpr hlt
      simp [parsePort, hplus, hminus, hloop, parsePortLoop, hle, hlt]
      simp [portCutoff]

/-- **The decimal text of a `uint32`** is a port exactly up to 65535. -/
theorem lookupPort_decimal (r : Resolver) {n : Nat} (hn : n < 4294967296) :
    lookupPort r (decimal n)
      = if n ≤ 65535 then .ok n else .error (addrError (decimal n) "invalid port") := by
  unfold lookupPort
  rw [parsePort_decimal hn]
  rcases Nat.lt_or_ge n 1073741824 with hlt | hge
  · by_cases hn' : n ≤ 65535
    · have hrange : ¬ ((n : Int) < 0 ∨ 65535 < (n : Int)) := by omega
      simp only [if_pos hlt, pure_bind, if_neg hrange, if_pos hn']
      rfl
    · have hrange : (n : Int) < 0 ∨ 65535 < (n : Int) := by omega
      simp only [if_pos hlt, pure_bind, if_pos hrange, if_neg hn']
  · simp [show ¬ n < 1073741824 by omega, show ¬ n ≤ 65535 by omega]

/-! ## §5. Resolving. -/

structure UDPAddr where
  /-- `none` = the nil `IP`. -/
  ip : Option IP
  port : Nat
  zone : GoString

/-- `lookupIPAddr`: a literal, then a name. -/
def lookupIPAddr (r : Resolver) (host : GoString) : Except GoString (List (IP × GoString)) :=
  match parseIPv4 host with
  | some b => .ok [(.v4 b, [])]
  | none => r.host host

/-- `forResolve`: the first address of the family the text asks for, or else the
first one. -/
def forResolve (addr : GoString) (ips : List (IP × GoString)) : Option (IP × GoString) :=
  (ips.find? (fun a => a.1.isV4 != decide (lbrack ∈ addr))).or ips.head?

/-- `net.ResolveUDPAddr("udp", addr)`. -/
def resolveUDPAddr (r : Resolver) (addr : GoString) : Except GoString UDPAddr :=
  if addr = [] then .ok ⟨none, 0, []⟩
  else do
    let (host, service) ← splitHostPort addr
    let port ← lookupPort r service
    if host = [] then pure ⟨none, port, []⟩
    else do
      let ips ← lookupIPAddr r host
      match forResolve addr ips with
      | some (ip, zone) => pure ⟨some ip, port, zone⟩
      | none => .error (addrError host "no suitable address found")

/-- What does not split does not resolve. -/
theorem resolveUDPAddr_of_split_error (r : Resolver) {addr err : GoString} (hne : addr ≠ [])
    (h : splitHostPort addr = .error err) : resolveUDPAddr r addr = .error err := by
  unfold resolveUDPAddr
  rw [if_neg hne, h]
  rfl

theorem ne_nil_of_split_ok {addr host service : GoString}
    (h : splitHostPort addr = .ok (host, service)) : addr ≠ [] := by
  rintro rfl
  cases h

/-- A host and what is no port do not resolve. -/
theorem resolveUDPAddr_of_port_error (r : Resolver) {addr host service err : GoString}
    (hsplit : splitHostPort addr = .ok (host, service))
    (hport : lookupPort r service = .error err) : resolveUDPAddr r addr = .error err := by
  unfold resolveUDPAddr
  rw [if_neg (ne_nil_of_split_ok hsplit), hsplit]
  show (lookupPort r service).bind _ = _
  rw [hport]
  rfl

/-- An IPv4 literal and a port resolve to the two. -/
theorem resolveUDPAddr_literal (r : Resolver) {addr host service : GoString} {b : Bytes 4}
    {port : Nat} (hsplit : splitHostPort addr = .ok (host, service))
    (hport : lookupPort r service = .ok port) (hhost : parseIPv4 host = some b) :
    resolveUDPAddr r addr = .ok ⟨some (.v4 b), port, []⟩ := by
  have hne : host ≠ [] := by
    rintro rfl
    cases hhost
  have hips : lookupIPAddr r host = .ok [(.v4 b, [])] := by
    simp [lookupIPAddr, hhost]
  have hpick : forResolve addr [(.v4 b, [])] = some (.v4 b, []) := by
    by_cases hb : lbrack ∈ addr <;> simp [forResolve, hb, IP.isV4]
  unfold resolveUDPAddr
  rw [if_neg (ne_nil_of_split_ok hsplit), hsplit]
  show (lookupPort r service).bind _ = _
  rw [hport]
  simp only [Except.bind, if_neg hne]
  rw [hips]
  simp only [bind, Except.bind, hpick]
  rfl

/-- **An IPv4 address and a decimal number** resolve exactly if the number is a
port, and then to that address and that port. -/
theorem resolveUDPAddr_v4 (r : Resolver) (b : Bytes 4) {n : Nat} (hn : n < 4294967296) :
    resolveUDPAddr r (dotted b ++ colon :: decimal n)
      = if n ≤ 65535 then .ok ⟨some (.v4 b), n, []⟩
        else .error (addrError (decimal n) "invalid port") := by
  have hsplit := splitHostPort_dotted b n
  have hport := lookupPort_decimal r hn
  by_cases hle : n ≤ 65535
  · rw [if_pos hle] at hport ⊢
    exact resolveUDPAddr_literal r hsplit hport (parseIPv4_dotted b)
  · rw [if_neg hle] at hport ⊢
    exact resolveUDPAddr_of_port_error r hsplit hport

/-! ## §6. The text of a UDP address, and its port read back. -/

/-- `UDPAddr.String`; a nil IP is empty text. -/
def UDPAddr.string (a : UDPAddr) : GoString :=
  let ip := (a.ip.map IP.string).getD []
  joinHostPort (if a.zone = [] then ip else ip ++ 37 :: a.zone) (decimal a.port)

theorem UDPAddr.string_v4 (b : Bytes 4) (n : Nat) :
    (UDPAddr.mk (some (.v4 b)) n []).string = dotted b ++ colon :: decimal n := by
  have hcolon : colon ∉ dotted b := notMem_dotted (by decide) (by decide) b
  simp [UDPAddr.string, IP.string, joinHostPort, hcolon]

/-- A number of at most `k` digits. -/
theorem length_decimal_le {k : Nat} (hk : 0 < k) : ∀ {n : Nat}, n < 10 ^ k →
    (decimal n).length ≤ k := by
  induction k with
  | zero => omega
  | succ k ih =>
    intro n hn
    rcases Nat.lt_or_ge n 10 with hlt | hge
    · rw [decimal_of_lt hlt]
      simp
    · have hk : 0 < k := by
        rcases Nat.eq_zero_or_pos k with rfl | hpos
        · omega
        · exact hpos
      have hdiv : n / 10 < 10 ^ k := by
        rw [Nat.pow_succ] at hn
        omega
      have hlen := ih hk hdiv
      rw [decimal_of_le hge, List.length_append]
      simp only [List.length_singleton]
      omega

theorem length_dottedFields_le (bs : List UInt8) : (dottedFields bs).length ≤ 4 * bs.length := by
  induction bs with
  | nil => simp [dottedFields]
  | cons b bs ih =>
    have hb : (decimal b.toNat).length ≤ 3 :=
      length_decimal_le (by omega) (by have := b.toNat_lt; omega)
    cases bs with
    | nil =>
      simp only [dottedFields, List.length_singleton]
      omega
    | cons c bs =>
      simp only [dottedFields, List.length_append, List.length_cons] at ih ⊢
      omega

theorem length_dotted_le (b : Bytes 4) : (dotted b).length ≤ 16 := by
  have h := length_dottedFields_le b.val
  rw [b.length_eq] at h
  exact h

/-- The loop of `strconv.ParseUint(s, 10, 32)`. -/
def parseUintLoop : Nat → GoString → Option Nat
  | n, [] => some n
  | n, c :: s =>
    if isDigit c then
      if 4294967295 < n * 10 + (c.toNat - 48) then none
      else parseUintLoop (n * 10 + (c.toNat - 48)) s
    else none

/-- `strconv.ParseUint(s, 10, 32)`. -/
def parseUint (s : GoString) : Option Nat := if s = [] then none else parseUintLoop 0 s

theorem parseUintLoop_decimal (n : Nat) :
    n < 4294967296 → ∀ s, parseUintLoop 0 (decimal n ++ s) = parseUintLoop n s := by
  induction n using Nat.strongRecOn with
  | ind n ih =>
    intro hn s
    have hmod : n % 10 < 10 := Nat.mod_lt _ (by omega)
    rcases Nat.lt_or_ge n 10 with hlt | hge
    · have hfits : ¬ 4294967295 < 0 * 10 + n := by omega
      rw [decimal_of_lt hlt, List.singleton_append, parseUintLoop, isDigit_digit n hlt,
        toNat_digit n hlt, if_pos rfl, if_neg hfits]
      simp
    · have hsum : n / 10 * 10 + n % 10 = n := by omega
      have hfits : ¬ 4294967295 < n := by omega
      rw [decimal_of_le hge, List.append_assoc, ih (n / 10) (by omega) (by omega),
        List.singleton_append, parseUintLoop, isDigit_digit _ hmod, toNat_digit _ hmod, hsum,
        if_pos rfl, if_neg hfits]

theorem parseUint_decimal {n : Nat} (hn : n < 4294967296) : parseUint (decimal n) = some n := by
  have h := parseUintLoop_decimal n hn []
  rw [List.append_nil] at h
  rw [parseUint, if_neg (decimal_ne_nil n), h, parseUintLoop]

end Kin.Lib

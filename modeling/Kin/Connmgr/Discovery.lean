/-
  Kin.Connmgr.Discovery

  **WHICH PORT DOES A NODE REGISTER WITH THE RELAY?**

  Behind a NAT the relay sees another UDP port than the node bound.
  `externalPort` asks for it: `Listener.DiscoverExternalAddr` sends three
  datagrams to the relay, `serveUDPEcho` answers each with the address it came
  from, and the first answer from the relay's address is the result.

  All discoveries of a node share one socket and one queue of packets that are
  not QUIC: `ServePunch` and every `punchViaRelay` read from it side by side.
  Datagrams are lost, doubled and overtaken, the NAT maps the socket anew, and
  anyone can send a datagram to it.

    • `Socket`, `step` — the socket, its discoveries, the NAT and the relays,
    • `Heard` — what is known of a relay as long as nobody else uses its address,
    • `externalPort_v4` — the port is read back out of the echoed text,
    • `discovered_port_reaches` — who is told about the node by the relay then
      resolves a UDP endpoint under which the relay has seen the node's socket.
-/
import Kin.Relay.Address

namespace Kin.Connmgr

open Kin.Lib Kin.Kinpb Kin.Relay

/-! ## §1. The socket and its discoveries. -/

structure Datagram where
  src : UDPAddr
  data : GoString

/-- Where a `DiscoverExternalAddr` call stands. -/
inductive CallPC where
  /-- So many discovery packets are still to be written. -/
  | sending (udpAddr : UDPAddr) (left : Nat)
  /-- In `ReadNonQUICPacket`. -/
  | reading (udpAddr : UDPAddr)
  | done (res : Except GoString GoString)

structure Call where
  relayAddr : GoString
  pc : CallPC

/-- A discovery packet under way: whom it is for, and the source address it
arrives with. -/
structure Probe where
  dst : UDPAddr
  src : UDPAddr

/-- A `Listener`'s socket and the network around it.  What was written stays
under way: it can arrive late, twice or never. -/
structure Socket where
  /-- `Listener.Port`. -/
  port : UInt16
  /-- How an address sees the socket. -/
  nat : Option IP → Nat → UDPAddr
  probes : List Probe
  echoes : List Datagram
  /-- The packets `ReadNonQUICPacket` takes from. -/
  queue : List Datagram
  calls : List Call

def Socket.new (port : UInt16) (nat : Option IP → Nat → UDPAddr) : Socket :=
  ⟨port, nat, [], [], [], []⟩

inductive Act where
  /-- `DiscoverExternalAddr` is called. -/
  | discover (relayAddr : GoString)
  /-- A discovery packet is written, or fails to be. -/
  | write (i : Nat) (err : Option GoString)
  /-- A probe reaches the relay: one turn of `serveUDPEcho`. -/
  | echo (k : Nat)
  /-- A relay's answer arrives. -/
  | arrive (k : Nat)
  /-- A datagram from elsewhere arrives. -/
  | other (d : Datagram)
  /-- The NAT maps the socket anew. -/
  | rebind (nat : Option IP → Nat → UDPAddr)
  /-- `ReadNonQUICPacket` returns the next packet. -/
  | read (i : Nat)
  /-- It returns an error, as when the two seconds are over. -/
  | expire (i : Nat) (err : GoString)

/-- `fromUDP.IP.Equal(udpAddr.IP) && fromUDP.Port == udpAddr.Port`. -/
def isFrom (src udpAddr : UDPAddr) : Bool :=
  decide (src.ip = udpAddr.ip) && decide (src.port = udpAddr.port)

/-- `WriteTo` of one of the `for range 3` packets. -/
def afterWrite (udpAddr : UDPAddr) (left : Nat) : CallPC :=
  if left = 0 then .reading udpAddr else .sending udpAddr left

/-- What the call makes of a packet; the buffer has 64 bytes. -/
def afterPacket (udpAddr : UDPAddr) (d : Datagram) : CallPC :=
  if isFrom d.src udpAddr then .done (.ok (d.data.take 64)) else .reading udpAddr

/-- How a call starts. -/
def startCall (r : Resolver) (relayAddr : GoString) : Call :=
  match resolveUDPAddr r relayAddr with
  | .error err => ⟨relayAddr, .done (.error (ascii "resolve " ++ relayAddr ++ ascii ": " ++ err))⟩
  | .ok udpAddr => ⟨relayAddr, .sending udpAddr 3⟩

def Socket.setPC (s : Socket) (i : Nat) (c : Call) (pc : CallPC) : Socket :=
  { s with calls := s.calls.set i { c with pc := pc } }

/-- One step, if it is enabled. -/
def step (r : Resolver) (s : Socket) : Act → Option Socket
  | .discover relayAddr => some { s with calls := s.calls ++ [startCall r relayAddr] }
  | .write i err =>
    match s.calls[i]? with
    | some c =>
      match c.pc with
      | .sending udpAddr (left + 1) =>
        match err with
        | some err => some (s.setPC i c (.done (.error (ascii "send discovery: " ++ err))))
        | none =>
          some { s.setPC i c (afterWrite udpAddr left) with
            probes := s.probes ++ [⟨udpAddr, s.nat udpAddr.ip udpAddr.port⟩] }
      | _ => none
    | none => none
  | .echo k =>
    match s.probes[k]? with
    | some p => some { s with echoes := s.echoes ++ [⟨p.dst, p.src.string⟩] }
    | none => none
  | .arrive k =>
    match s.echoes[k]? with
    | some d => some { s with queue := s.queue ++ [d] }
    | none => none
  | .other d => some { s with queue := s.queue ++ [d] }
  | .rebind nat => some { s with nat := nat }
  | .read i =>
    match s.calls[i]? with
    | some c =>
      match c.pc with
      | .reading udpAddr =>
        match s.queue with
        | d :: queue =>
          some { s.setPC i c (afterPacket udpAddr d) with queue := queue }
        | [] => none
      | _ => none
    | none => none
  | .expire i err =>
    match s.calls[i]? with
    | some c =>
      match c.pc with
      | .reading _ =>
        some (s.setPC i c (.done (.error (ascii "read discovery response: " ++ err))))
      | _ => none
    | none => none

/-- `externalPort`, from what the discovery returned. -/
def externalPort (port : UInt16) (ext : Except GoString GoString) : UInt32 :=
  match ext with
  | .error _ => port.toUInt32
  | .ok ext =>
    match splitHostPort ext with
    | .error _ => port.toUInt32
    | .ok (_, portStr) =>
      match parseUint portStr with
      | none => port.toUInt32
      | some p => if p = 0 then port.toUInt32 else p.toUInt32

/-- The first message of `relay.Connect`. -/
def registerMsg (nodeID pubKey : Bytes 32) (listenPort : UInt32) : Envelope :=
  ⟨some (.relayRegister ⟨nodeID.val, pubKey.val, listenPort⟩)⟩

/-- The step relation: what each step needs and what it leads to. -/
inductive Step (r : Resolver) (s : Socket) : Act → Socket → Prop
  | discover (relayAddr : GoString) :
      Step r s (.discover relayAddr) { s with calls := s.calls ++ [startCall r relayAddr] }
  | writeError {i left : Nat} {c : Call} {udpAddr : UDPAddr} (err : GoString)
      (hc : s.calls[i]? = some c) (hpc : c.pc = .sending udpAddr (left + 1)) :
      Step r s (.write i (some err))
        (s.setPC i c (.done (.error (ascii "send discovery: " ++ err))))
  | write {i left : Nat} {c : Call} {udpAddr : UDPAddr} (hc : s.calls[i]? = some c)
      (hpc : c.pc = .sending udpAddr (left + 1)) :
      Step r s (.write i none)
        { s.setPC i c (afterWrite udpAddr left) with
          probes := s.probes ++ [⟨udpAddr, s.nat udpAddr.ip udpAddr.port⟩] }
  | echo {k : Nat} {p : Probe} (hp : s.probes[k]? = some p) :
      Step r s (.echo k) { s with echoes := s.echoes ++ [⟨p.dst, p.src.string⟩] }
  | arrive {k : Nat} {d : Datagram} (hd : s.echoes[k]? = some d) :
      Step r s (.arrive k) { s with queue := s.queue ++ [d] }
  | other (d : Datagram) : Step r s (.other d) { s with queue := s.queue ++ [d] }
  | rebind (nat : Option IP → Nat → UDPAddr) : Step r s (.rebind nat) { s with nat := nat }
  | read {i : Nat} {c : Call} {udpAddr : UDPAddr} {d : Datagram} {queue : List Datagram}
      (hc : s.calls[i]? = some c) (hpc : c.pc = .reading udpAddr) (hq : s.queue = d :: queue) :
      Step r s (.read i) { s.setPC i c (afterPacket udpAddr d) with queue := queue }
  | expire {i : Nat} {c : Call} {udpAddr : UDPAddr} (err : GoString)
      (hc : s.calls[i]? = some c) (hpc : c.pc = .reading udpAddr) :
      Step r s (.expire i err)
        (s.setPC i c (.done (.error (ascii "read discovery response: " ++ err))))

/-- **What a step can do.** -/
theorem step_sound {r : Resolver} {s s' : Socket} {a : Act} (hs : step r s a = some s') :
    Step r s a s' := by
  cases a with
  | discover relayAddr =>
    cases hs
    exact .discover relayAddr
  | write i err =>
    simp only [step] at hs
    split at hs
    next c hc =>
      split at hs
      next udpAddr left hpc =>
        split at hs
        next err =>
          cases hs
          exact .writeError err hc hpc
        next =>
          cases hs
          exact .write hc hpc
      next => cases hs
    next => cases hs
  | echo k =>
    simp only [step] at hs
    split at hs
    next p hp =>
      cases hs
      exact .echo hp
    next => cases hs
  | arrive k =>
    simp only [step] at hs
    split at hs
    next d hd =>
      cases hs
      exact .arrive hd
    next => cases hs
  | other d =>
    cases hs
    exact .other d
  | rebind nat =>
    cases hs
    exact .rebind nat
  | read i =>
    simp only [step] at hs
    split at hs
    next c hc =>
      split at hs
      next udpAddr hpc =>
        split at hs
        next d queue hq =>
          cases hs
          exact .read hc hpc hq
        next => cases hs
      next => cases hs
    next => cases hs
  | expire i err =>
    simp only [step] at hs
    split at hs
    next c hc =>
      split at hs
      next udpAddr hpc =>
        cases hs
        exact .expire err hc hpc
      next => cases hs
    next => cases hs

/-! ## §2. What is heard of a relay. -/

section Heard

variable {r : Resolver} {relay : UDPAddr} {M : UDPAddr → Prop}

/-- A text is the echo of one of the addresses. -/
def EchoOf (M : UDPAddr → Prop) (text : GoString) : Prop := ∃ e, M e ∧ text = e.string

/-- A packet that comes from the relay is an echo. -/
def Genuine (relay : UDPAddr) (M : UDPAddr → Prop) (d : Datagram) : Prop :=
  isFrom d.src relay = true → EchoOf M d.data

/-- A call knows its relay's address, and returns an echo of it. -/
structure CallOk (r : Resolver) (relay : UDPAddr) (M : UDPAddr → Prop) (c : Call) : Prop where
  sending : ∀ udpAddr left, c.pc = .sending udpAddr left → resolveUDPAddr r c.relayAddr = .ok udpAddr
  reading : ∀ udpAddr, c.pc = .reading udpAddr → resolveUDPAddr r c.relayAddr = .ok udpAddr
  result : ∀ text, c.pc = .done (.ok text) → resolveUDPAddr r c.relayAddr = .ok relay →
    ∃ e, M e ∧ text = e.string.take 64

/-- **What is known of a relay**, if `M` are the addresses the NAT has mapped
the socket to towards it: it has seen the socket under these addresses only, and
whatever it said is one of them. -/
structure Heard (r : Resolver) (relay : UDPAddr) (M : UDPAddr → Prop) (s : Socket) : Prop where
  nat : M (s.nat relay.ip relay.port)
  probes : ∀ p ∈ s.probes, isFrom p.dst relay = true → M p.src
  echoes : ∀ d ∈ s.echoes, Genuine relay M d
  queue : ∀ d ∈ s.queue, Genuine relay M d
  calls : ∀ c ∈ s.calls, CallOk r relay M c

/-- Nobody else sends from the relay's address, and the NAT maps the socket to
one of the addresses. -/
def Undisturbed (relay : UDPAddr) (M : UDPAddr → Prop) : Act → Prop
  | .other d => isFrom d.src relay = false
  | .rebind nat => M (nat relay.ip relay.port)
  | _ => True

theorem isFrom_iff {src udpAddr : UDPAddr} :
    isFrom src udpAddr = true ↔ src.ip = udpAddr.ip ∧ src.port = udpAddr.port := by
  simp [isFrom]

theorem CallOk.of_pending {c : Call} (hs : ∀ u left, c.pc ≠ .sending u left)
    (hr : ∀ u, c.pc ≠ .reading u) (hd : ∀ text, c.pc ≠ .done (.ok text)) : CallOk r relay M c :=
  ⟨fun u left h => absurd h (hs u left), fun u h => absurd h (hr u),
    fun text h => absurd h (hd text)⟩

theorem callOk_startCall (relayAddr : GoString) : CallOk r relay M (startCall r relayAddr) := by
  unfold startCall
  split
  next err herr => exact .of_pending (by simp) (by simp) (by simp)
  next udpAddr hok =>
    refine ⟨fun u left h => ?_, by simp, by simp⟩
    injection h with hu
    rw [← hu]
    exact hok

/-- A call fails. -/
theorem CallOk.fail (c : Call) (err : GoString) :
    CallOk r relay M { c with pc := .done (.error err) } :=
  .of_pending (by simp) (by simp) (by simp)

/-- A packet of the call's is written. -/
theorem CallOk.write {c : Call} (h : CallOk r relay M c) {udpAddr : UDPAddr} {left : Nat}
    (hpc : c.pc = .sending udpAddr (left + 1)) :
    CallOk r relay M { c with pc := afterWrite udpAddr left } := by
  have hres := h.sending udpAddr (left + 1) hpc
  unfold afterWrite
  split
  · refine ⟨by simp, fun u hu => ?_, by simp⟩
    injection hu with hu
    rw [← hu]
    exact hres
  · refine ⟨fun u l hu => ?_, by simp, by simp⟩
    injection hu with hu
    rw [← hu]
    exact hres

/-- A packet is read: it is taken for an answer exactly if it comes from the
call's own relay. -/
theorem CallOk.packet {c : Call} (h : CallOk r relay M c) {udpAddr : UDPAddr} {d : Datagram}
    (hpc : c.pc = .reading udpAddr) (hd : Genuine relay M d) :
    CallOk r relay M { c with pc := afterPacket udpAddr d } := by
  have hres := h.reading udpAddr hpc
  unfold afterPacket
  split
  next hfrom =>
    refine ⟨by simp, by simp, fun text htext hrelay => ?_⟩
    have hsame : udpAddr = relay := by
      rw [hres] at hrelay
      injection hrelay
    rw [hsame] at hfrom
    obtain ⟨e, he, hdata⟩ := hd hfrom
    refine ⟨e, he, ?_⟩
    injection htext with htext
    injection htext with htext
    rw [← htext, hdata]
  next =>
    refine ⟨by simp, fun u hu => ?_, by simp⟩
    injection hu with hu
    rw [← hu]
    exact hres

theorem Heard.setPC {s : Socket} (h : Heard r relay M s) (i : Nat) {c : Call} {pc : CallPC}
    (hpc : CallOk r relay M { c with pc := pc }) : Heard r relay M (s.setPC i c pc) :=
  ⟨h.nat, h.probes, h.echoes, h.queue, forall_mem_set h.calls hpc⟩

/-- **One step.** -/
theorem step_heard {s s' : Socket} {a : Act} (h : Heard r relay M s) (ha : Undisturbed relay M a)
    (hs : step r s a = some s') : Heard r relay M s' := by
  cases step_sound hs with
  | discover relayAddr =>
    exact ⟨h.nat, h.probes, h.echoes, h.queue,
      forall_mem_concat h.calls (callOk_startCall relayAddr)⟩
  | @writeError i left c udpAddr err hc hpc => exact h.setPC i (.fail c _)
  | @write i left c udpAddr hc hpc =>
    have hcall := (h.calls c (List.mem_of_getElem? hc)).write hpc
    have hset := h.setPC i hcall
    refine ⟨hset.nat, forall_mem_concat h.probes (fun hdst => ?_), hset.echoes, hset.queue,
      hset.calls⟩
    obtain ⟨hip, hport⟩ := isFrom_iff.mp hdst
    show M (s.nat udpAddr.ip udpAddr.port)
    rw [hip, hport]
    exact h.nat
  | @echo k p hp =>
    have hgenuine : Genuine relay M ⟨p.dst, p.src.string⟩ := fun hfrom =>
      ⟨p.src, h.probes p (List.mem_of_getElem? hp) hfrom, rfl⟩
    exact ⟨h.nat, h.probes, forall_mem_concat h.echoes hgenuine, h.queue, h.calls⟩
  | @arrive k d hd =>
    have hgenuine := h.echoes d (List.mem_of_getElem? hd)
    exact ⟨h.nat, h.probes, h.echoes, forall_mem_concat h.queue hgenuine, h.calls⟩
  | other d =>
    have hgenuine : Genuine relay M d := by
      intro hfrom
      rw [show isFrom d.src relay = false from ha] at hfrom
      cases hfrom
    exact ⟨h.nat, h.probes, h.echoes, forall_mem_concat h.queue hgenuine, h.calls⟩
  | rebind nat => exact ⟨ha, h.probes, h.echoes, h.queue, h.calls⟩
  | @read i c udpAddr d queue hc hpc hq =>
    have hgenuine : Genuine relay M d := h.queue d (by rw [hq]; exact List.mem_cons_self)
    have hset := h.setPC i ((h.calls c (List.mem_of_getElem? hc)).packet hpc hgenuine)
    refine ⟨hset.nat, hset.probes, hset.echoes, fun e he => ?_, hset.calls⟩
    exact h.queue e (by rw [hq]; exact List.mem_cons_of_mem _ he)
  | @expire i c udpAddr err hc hpc => exact h.setPC i (.fail c _)

end Heard

/-! ## §3. The port, and where it leads. -/

/-- The text of an IPv4 endpoint fits the buffer. -/
theorem take_string_v4 (b : Bytes 4) {p : Nat} (hp : p ≤ 65535) :
    (UDPAddr.mk (some (.v4 b)) p []).string.take 64 = dotted b ++ colon :: decimal p := by
  have hb := length_dotted_le b
  have hdec : (decimal p).length ≤ 5 := length_decimal_le (by omega) (by omega)
  rw [UDPAddr.string_v4, List.take_of_length_le]
  simp only [List.length_append, List.length_cons]
  omega

/-- `externalPort` reads the port of an IPv4 endpoint back. -/
theorem externalPort_v4 (port : UInt16) (b : Bytes 4) {p : Nat} (hpos : 0 < p) (hp : p ≤ 65535) :
    externalPort port (.ok (dotted b ++ colon :: decimal p)) = p.toUInt32 := by
  have hparse : parseUint (decimal p) = some p := parseUint_decimal (by omega)
  have hne : p ≠ 0 := by omega
  simp [externalPort, splitHostPort_dotted, hparse, hne]

/-- The relay admits the registration, and sends others to the connection's IP
and the port. -/
theorem registerMsg_reaches (r : Resolver) (nodeID pubKey : Bytes 32) {conn : TCPAddr}
    {b : Bytes 4} (hip : conn.ip = .v4 b) {p : Nat} (hp : p ≤ 65535) :
    ∃ peer, newEntry (remoteIP conn) (registerMsg nodeID pubKey p.toUInt32) = some peer
      ∧ Reaches r peer (.v4 b) p := by
  have hport : p.toUInt32.toNat = p := by
    simp
    omega
  refine ⟨⟨nodeID, pubKey.val, extAddr (remoteIP conn) p.toUInt32, .registered, []⟩, ?_, ?_⟩
  · simp [newEntry, registerMsg, Bytes.ofList?_val]
  · rw [reaches_iff]
    show ∃ a, resolveUDPAddr r (extAddr (remoteIP conn) p.toUInt32) = .ok a ∧ _
    rw [remoteIP_v4 hip, extAddr_eq, hport, resolveUDPAddr_v4 r b (by omega), if_pos hp]
    exact ⟨_, rfl, rfl, rfl⟩

/-- The addresses the NAT maps the socket to in the course of a schedule, as a
relay sees them. -/
def Mapped (nat : Option IP → Nat → UDPAddr) (acts : List Act) (relay e : UDPAddr) : Prop :=
  e = nat relay.ip relay.port ∨ ∃ nat', Act.rebind nat' ∈ acts ∧ e = nat' relay.ip relay.port

/-- **THE PORT THAT IS REGISTERED IS ONE THE RELAY HAS SEEN.**  Whatever a
socket's discoveries take from each other, whatever is lost, doubled, late or
sent by strangers, and however often the NAT maps the socket anew: if nobody
else sends from the relay's address, a discovery that succeeds returns the text,
up to the 64 bytes of the buffer, of an address `e` to which the NAT has mapped the
socket towards this relay (the only one, if it has not been mapped anew).  If `e` is
an IPv4 endpoint, it is the whole text, and if the node registers from the same IP
with the port found, the relay admits it, and whoever it tells about the node
resolves exactly `e`. -/
theorem discovered_port_reaches (r r' : Resolver) (port : UInt16)
    (nat : Option IP → Nat → UDPAddr) {acts : List Act} {s : Socket}
    (hrun : run (step r) (Socket.new port nat) acts = some s) {relay : UDPAddr}
    (hhonest : ∀ d, Act.other d ∈ acts → isFrom d.src relay = false) {c : Call}
    (hc : c ∈ s.calls) (hrelay : resolveUDPAddr r c.relayAddr = .ok relay) {text : GoString}
    (hdone : c.pc = .done (.ok text)) :
    ∃ e, Mapped nat acts relay e ∧ text = e.string.take 64
      ∧ ∀ b p, e = ⟨some (.v4 b), p, []⟩ → 0 < p → p ≤ 65535 →
        text = e.string
          ∧ ∀ (conn : TCPAddr) (nodeID pubKey : Bytes 32), conn.ip = .v4 b →
            ∃ peer, newEntry (remoteIP conn)
                (registerMsg nodeID pubKey (externalPort port (.ok text))) = some peer
              ∧ Reaches r' peer (.v4 b) p := by
  have hinit : Heard r relay (Mapped nat acts relay) (Socket.new port nat) := by
    refine ⟨Or.inl rfl, ?_, ?_, ?_, ?_⟩ <;> simp [Socket.new]
  have hacts : ∀ a ∈ acts, Undisturbed relay (Mapped nat acts relay) a := by
    intro a ha
    cases a with
    | other d => exact hhonest d ha
    | rebind nat' => exact Or.inr ⟨nat', ha, rfl⟩
    | discover _ | write _ _ | echo _ | arrive _ | read _ | expire _ _ => trivial
  have hheard : Heard r relay (Mapped nat acts relay) s :=
    run_invariant_of (P := Heard r relay (Mapped nat acts relay))
      (fun _ _ _ h ha hs => step_heard h ha hs) hinit hacts hrun
  obtain ⟨e, he, htext⟩ := (hheard.calls c hc).result text hdone hrelay
  refine ⟨e, he, htext, ?_⟩
  rintro b p rfl hpos hp
  rw [take_string_v4 b hp] at htext
  refine ⟨htext.trans (UDPAddr.string_v4 b p).symm, fun conn nodeID pubKey hip => ?_⟩
  rw [htext, externalPort_v4 port b hpos hp]
  exact registerMsg_reaches r' nodeID pubKey hip hp

/-- `198.51.100.9:7778`. -/
def relay4 : UDPAddr := ⟨some (.v4 ⟨[198, 51, 100, 9], rfl⟩), 7778, []⟩

theorem resolve_relay4 (r : Resolver) : resolveUDPAddr r relay4.string = .ok relay4 := by
  have hv4 := resolveUDPAddr_v4 r ⟨[198, 51, 100, 9], rfl⟩ (n := 7778) (by omega)
  rw [← UDPAddr.string_v4] at hv4
  exact hv4

/-- The NAT maps the socket to a port of the IP of `conn4`. -/
def mappedTo (p : Nat) : Option IP → Nat → UDPAddr := fun _ _ => ⟨some conn4.ip, p, []⟩

/-- A stranger's packet comes first; the second of the three probes is echoed. -/
def discoverOnce : List Act :=
  [.discover relay4.string, .write 0 none, .write 0 none, .write 0 none,
   .other ⟨⟨some (.v4 ⟨[192, 0, 2, 1], rfl⟩), 7778, []⟩, ascii "192.0.2.1:1"⟩,
   .echo 1, .arrive 0, .read 0, .read 0]

/-- The ports the finished discoveries lead to. -/
def Socket.ports (s : Socket) : List UInt32 :=
  s.calls.filterMap (fun c => match c.pc with
    | .done res => some (externalPort s.port res)
    | _ => none)

theorem discovered_port_reaches_once :
    ascii "203.0.113.7:40001" = UDPAddr.string ⟨some conn4.ip, 40001, []⟩
    ∧ ∃ peer, newEntry (remoteIP conn4) (registerMsg (Bytes.lit32 1) (Bytes.lit32 2) 40001)
        = some peer
      ∧ Reaches Resolver.offline peer conn4.ip 40001 := by
  obtain ⟨s, hs, hcalls⟩ : ∃ s,
      run (step .offline) (Socket.new 7777 (mappedTo 40001)) discoverOnce = some s
        ∧ s.calls = [⟨relay4.string, .done (.ok (ascii "203.0.113.7:40001"))⟩] := ⟨_, rfl, rfl⟩
  have hhonest : ∀ d, Act.other d ∈ discoverOnce → isFrom d.src relay4 = false := by
    intro d hd
    simp only [discoverOnce, List.mem_cons, Act.other.injEq, reduceCtorEq, false_or,
      List.not_mem_nil, or_false] at hd
    rw [hd]
    rfl
  have hmem : ⟨relay4.string, .done (.ok (ascii "203.0.113.7:40001"))⟩ ∈ s.calls := by
    rw [hcalls]
    exact List.mem_singleton_self _
  obtain ⟨e, he, -, hreach⟩ := discovered_port_reaches .offline .offline 7777 (mappedTo 40001) hs
    hhonest hmem (resolve_relay4 .offline) rfl
  have he' : e = ⟨some conn4.ip, 40001, []⟩ := by
    rcases he with he | ⟨nat', hmem, -⟩
    · exact he
    · simp [discoverOnce] at hmem
  obtain ⟨htext, hreach⟩ := hreach _ 40001 he' (by decide) (by decide)
  rw [he'] at htext
  exact ⟨htext, hreach conn4 _ _ rfl⟩

/-- The mapping changes between two discoveries, and the second one takes an
echo that the first left in the queue: its port is the old one, though its own
probe is echoed with the new one. -/
example : (run (step .offline) (Socket.new 7777 (mappedTo 40001))
    (discoverOnce ++ [.echo 2, .arrive 1, .rebind (mappedTo 40002), .discover relay4.string,
      .write 1 none, .write 1 none, .write 1 none, .echo 3, .arrive 2, .read 1])).map Socket.ports
    = some [40001, 40001] := by
  decide +kernel

end Kin.Connmgr

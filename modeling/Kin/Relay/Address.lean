/-
  Kin.Relay.Address

  **DO ADDRESSES SURVIVE THE WAY THROUGH THE RELAY?**

  The relay takes the IP out of the connection's address (`remoteIP` of
  `cmd/relay`), writes it in front of the port the node reports
  (`fmt.Sprintf("%s:%d", …)`) and sends the text to the other node, which
  resolves it (`Listener.Dial`, `Listener.Prime`).

    • `announced_of_run`, `sent_of_run` — over every run of the relay, what it
      says about a connection is what the connection registered with,
    • `remoteIP_v4`, `remoteIP_v6` — the IP as `remoteIP` gives it,
    • `relay_address_survives_iff` — the address resolves to the IP and the port
      exactly if the IP is an IPv4 address and the port is at most 65535.
-/
import Kin.Lib.Net
import Kin.Lib.Run
import Kin.Relay.Client
import Kin.Relay.Server

namespace Kin.Relay

open Kin.Lib Kin.Kinpb Kin.RelayClient

/-! ## §1. The three programs. -/

/-- `remoteIP`: the host of the address, or all of it if it does not split. -/
def remoteIP (conn : TCPAddr) : GoString :=
  match splitHostPort conn.string with
  | .ok (host, _) => host
  | .error _ => conn.string

/-- The address `Listener.Dial` and `Listener.Prime` use for `peerAddr`. -/
def resolvePeer (r : Resolver) (peerAddr : GoString) : Except GoString UDPAddr :=
  (resolveUDPAddr r peerAddr).mapError (fun err => ascii "resolve " ++ peerAddr ++ ascii ": " ++ err)

/-- The node that is told about `peer` resolves it to this IP and this port. -/
def Reaches (r : Resolver) (peer : Session) (ip : IP) (port : Nat) : Prop :=
  ∃ rv, rendezvousWith peer = ⟨some (.relayRendezvous rv)⟩
    ∧ ∃ a, resolvePeer r (rendezvousFromProto peer.nodeID rv).peerExternalAddr = .ok a
      ∧ a.ip = some ip ∧ a.port = port

/-- The registrations a schedule's connections are admitted with, in order. -/
def admitted (acts : List Act) : List Session :=
  acts.filterMap (fun a => match a with
    | .accept extIP env => newEntry extIP env
    | _ => none)

/-! ## §2. What the relay says is what was registered. -/

/-- What the relay says about each of its connections. -/
def Server.announced (s : Server) : List Envelope := s.sessions.map rendezvousWith

/-- Moving a connection along does not change what is said about it. -/
theorem announced_modify (s : Server) (i : Nat) {f : Session → Session}
    (hf : ∀ c, rendezvousWith (f c) = rendezvousWith c) :
    (s.modify i f).announced = s.announced := by
  apply List.ext_getElem?
  intro j
  unfold Server.announced Server.modify
  simp only [List.getElem?_map, List.getElem?_modify]
  by_cases hij : i = j
  · cases hc : s.sessions[j]? with
    | none => simp
    | some c => simp [hij, hf c]
  · simp [hij]

/-- **One step**: a connection that is admitted comes last, nothing else changes. -/
theorem step_announced {s s' : Server} {a : Act} (hs : step s a = some s') :
    s'.announced = s.announced ++ (admitted [a]).map rendezvousWith := by
  have hmove : ∀ {i : Nat} {f : Session → Session}, (∀ c, rendezvousWith (f c) = rendezvousWith c) →
      (s.modify i f).announced = s.announced ++ [] := by
    intro i f hf
    rw [announced_modify s i hf, List.append_nil]
  cases step_sound hs with
  | accept hentry => simp [Server.announced, Server.register, admitted, hentry]
  | refuse hentry => simp [admitted, hentry]
  | confirm ok hc hpc => exact hmove (fun c => rendezvousWith_write c _ ok)
  | read env hc hpc => exact hmove (fun c => rfl)
  | lookup hc hpc => exact hmove (fun c => rfl)
  | @notify i j c target ok hc hpc ht =>
    have hi := announced_modify (s.modify j (fun t => t.write (rendezvousWith c) ok)) i
      (f := Session.notified target ok) (fun d => rfl)
    exact hi.trans (hmove (fun d => rendezvousWith_write d _ ok))
  | reply ok hc hpc => exact hmove (fun c => rendezvousWith_write c _ ok)
  | readError hc hpc => exact hmove (fun c => rfl)
  | deregister hc hpc => exact hmove (fun c => rfl)

/-- **Every run**: what is said about the connections is what they were
admitted with. -/
theorem announced_of_run (acts : List Act) : ∀ {s t : Server}, run step s acts = some t →
    t.announced = s.announced ++ (admitted acts).map rendezvousWith := by
  induction acts with
  | nil =>
    intro s t h
    rw [← Option.some.inj h]
    simp [admitted]
  | cons a acts ih =>
    intro s t h
    obtain ⟨u, hu, h⟩ := run_cons_eq_some.mp h
    have hcons : admitted (a :: acts) = admitted [a] ++ admitted acts := by
      simp only [admitted, ← List.filterMap_append, List.singleton_append]
    rw [ih h, step_announced hu, hcons, List.map_append, List.append_assoc]

/-- A rendezvous is about a connection of the relay. -/
def Sayable (s : Server) (env : Envelope) : Prop :=
  ∀ rv, env = ⟨some (.relayRendezvous rv)⟩ → env ∈ s.announced

/-- So are those sent to a connection, and the one it is about to be sent. -/
structure SaysKnown (s : Server) (c : Session) : Prop where
  sent : ∀ env ∈ c.sent, Sayable s env
  next : ∀ env, c.pc = .replying env → Sayable s env

theorem sayable_relayError (s : Server) (reason : String) : Sayable s (relayError reason) := by
  intro rv h
  cases h

theorem sayable_rendezvousWith {s : Server} {i : Nat} {c : Session} (h : s.sessions[i]? = some c) :
    Sayable s (rendezvousWith c) :=
  fun _ _ => List.mem_map_of_mem (List.mem_of_getElem? h)

/-- Writing a message that is about a connection. -/
theorem SaysKnown.write {s : Server} {c : Session} (h : SaysKnown s c) {env : Envelope}
    (henv : Sayable s env) (ok : Bool) : SaysKnown s (c.write env ok) := by
  refine ⟨fun e he => ?_, fun e he => h.next e (by rwa [Session.write_pc] at he)⟩
  unfold Session.write at he
  split at he
  · exact forall_mem_concat h.sent henv e he
  · exact h.sent e he

/-- Moving on to a point where nothing unknown is about to be sent. -/
theorem SaysKnown.move {s : Server} {c : Session} (h : SaysKnown s c) {pc : ServePC}
    (hpc : ∀ env, pc = .replying env → Sayable s env) : SaysKnown s { c with pc := pc } :=
  ⟨h.sent, hpc⟩

theorem SaysKnown.mono {s s' : Server} (hsub : s.announced ⊆ s'.announced) {c : Session}
    (h : SaysKnown s c) : SaysKnown s' c :=
  ⟨fun env he rv hrv => hsub (h.sent env he rv hrv), fun env he rv hrv => hsub (h.next env he rv hrv)⟩

/-- A step of connection `i`, for all connections. -/
theorem saysKnown_modify {s t : Server} {i : Nat} {f : Session → Session}
    (h : ∀ c ∈ t.sessions, SaysKnown s c) (hf : ∀ c, SaysKnown s c → SaysKnown s (f c)) :
    ∀ c ∈ (t.modify i f).sessions, SaysKnown s c := by
  intro c hc
  obtain ⟨j, hj⟩ := List.mem_iff_getElem?.mp hc
  by_cases hij : j = i
  · subst hij
    rw [getElem?_modify_self] at hj
    obtain ⟨d, hd, rfl⟩ := Option.map_eq_some_iff.mp hj
    exact hf d (h d (List.mem_of_getElem? hd))
  · rw [getElem?_modify_of_ne t hij] at hj
    exact h c (List.mem_of_getElem? hj)

theorem afterRead_sayable (s : Server) (env e : Envelope) (h : afterRead env = .replying e) :
    Sayable s e := by
  unfold afterRead at h
  split at h
  · split at h
    · injection h with h
      rw [← h]
      exact sayable_relayError s _
    · cases h
  · cases h

theorem lookupTarget_sayable (s : Server) (target : NodeID) (e : Envelope)
    (h : s.lookupTarget target = .replying e) : Sayable s e := by
  unfold Server.lookupTarget at h
  split at h
  · injection h with h
    rw [← h]
    exact sayable_relayError s _
  · cases h

/-- **One step** keeps to what is known. -/
theorem step_saysKnown {s s' : Server} {a : Act} (h : ∀ c ∈ s.sessions, SaysKnown s c)
    (hs : step s a = some s') : ∀ c ∈ s'.sessions, SaysKnown s' c := by
  have hsub : s.announced ⊆ s'.announced := by
    rw [step_announced hs]
    exact List.subset_append_left _ _
  suffices hall : ∀ c ∈ s'.sessions, SaysKnown s c from fun c hc => (hall c hc).mono hsub
  cases step_sound hs with
  | accept hentry =>
    obtain ⟨hpc, hsent⟩ := newEntry_fresh hentry
    exact forall_mem_concat h ⟨by simp [hsent], by simp [hpc]⟩
  | refuse hentry => exact h
  | confirm ok hc hpc =>
    refine saysKnown_modify h (fun c hk => (hk.write ?_ ok).move ?_)
    · exact fun rv hrv => by cases hrv
    · cases ok <;> simp
  | read env hc hpc => exact saysKnown_modify h (fun c hk => hk.move (afterRead_sayable s env))
  | lookup hc hpc =>
    exact saysKnown_modify h (fun c hk => hk.move (lookupTarget_sayable s _))
  | @notify i j c target ok hc hpc ht =>
    have hwrite := saysKnown_modify (i := j) h
      (fun t hk => hk.write (sayable_rendezvousWith hc) ok)
    refine saysKnown_modify hwrite (fun c hk => hk.move (fun e he => ?_))
    injection he with he
    rw [← he]
    split
    · exact sayable_rendezvousWith ht
    · exact sayable_relayError s _
  | @reply i c env ok hc hpc =>
    have henv := (h c (List.mem_of_getElem? hc)).next env hpc
    exact saysKnown_modify h (fun c hk => (hk.write henv ok).move nofun)
  | readError hc hpc => exact saysKnown_modify h (fun c hk => hk.move nofun)
  | deregister hc hpc => exact saysKnown_modify h (fun c hk => hk.move nofun)

/-- **Every run**: a rendezvous the relay has sent is about a connection it
admitted, as that connection registered. -/
theorem sent_of_run {acts : List Act} {s : Server} (hrun : run step Server.new acts = some s)
    {c : Session} (hc : c ∈ s.sessions) {rv : RelayRendezvous}
    (hsent : ⟨some (.relayRendezvous rv)⟩ ∈ c.sent) :
    ∃ d ∈ admitted acts, rendezvousWith d = ⟨some (.relayRendezvous rv)⟩ := by
  have hknown : ∀ c ∈ s.sessions, SaysKnown s c :=
    run_invariant (P := fun s : Server => ∀ c ∈ s.sessions, SaysKnown s c)
      (fun s a t h hs => step_saysKnown h hs) (by simp [Server.new]) hrun
  have hmem := (hknown c hc).sent _ hsent rv rfl
  rw [announced_of_run acts hrun] at hmem
  simpa [Server.announced, Server.new] using hmem

/-! ## §3. The text of an address. -/

theorem extAddr_eq (extIP : GoString) (port : UInt32) :
    extAddr extIP port = extIP ++ colon :: decimal port.toNat := by
  unfold extAddr
  rw [List.append_assoc]
  rfl

/-- The host part of a connection's address. -/
def hostText (conn : TCPAddr) : GoString :=
  if conn.zone = [] then conn.ip.string else conn.ip.string ++ 37 :: conn.zone

theorem string_eq (conn : TCPAddr) :
    conn.string = joinHostPort (hostText conn) (decimal conn.port.toNat) := rfl

theorem remoteIP_v4 {conn : TCPAddr} {b : Bytes 4} (h : conn.ip = .v4 b) :
    remoteIP conn = dotted b := by
  have hzone : conn.zone = [] := conn.zone_v4 (by rw [h]; rfl)
  have hhost : hostText conn = dotted b := by
    simp [hostText, hzone, h, IP.string]
  have hcolon : colon ∉ dotted b := notMem_dotted (by decide) (by decide) b
  have hsplit : splitHostPort conn.string = .ok (dotted b, decimal conn.port.toNat) := by
    rw [string_eq, hhost, joinHostPort, if_neg hcolon]
    exact splitHostPort_dotted b _
  unfold remoteIP
  rw [hsplit]

/-- An IPv6 host has a colon and no bracket before it, whatever its zone. -/
theorem hostText_v6 {conn : TCPAddr} {b : Bytes 16} {h6 : is4In6 b = false}
    (h : conn.ip = .v6 b h6) :
    colon ∈ hostText conn ∧ (hostText conn).head? ≠ some lbrack := by
  obtain ⟨c, hc, hhead⟩ := head_text6 b
  have hcolon := colon_mem_text6 b
  unfold hostText
  rw [h]
  split
  · exact ⟨hcolon, by simp [IP.string, hhead, hc]⟩
  · exact ⟨by simp [IP.string, hcolon], by simp [IP.string, List.head?_append, hhead, hc]⟩

/-- `remoteIP` of an IPv6 address: the host without brackets, or the whole text,
brackets and port included. -/
theorem remoteIP_v6 {conn : TCPAddr} {b : Bytes 16} {h6 : is4In6 b = false}
    (h : conn.ip = .v6 b h6) :
    remoteIP conn = hostText conn
      ∨ remoteIP conn = (lbrack :: hostText conn ++ [rbrack, colon]) ++ decimal conn.port.toNat := by
  have hcolon := (hostText_v6 h).1
  unfold remoteIP
  rw [string_eq]
  rcases splitHostPort_joinHostPort (notMem_decimal (by decide) conn.port.toNat) hcolon with
    hok | ⟨err, herr⟩
  · rw [hok]
    exact Or.inl rfl
  · rw [herr]
    right
    simp [joinHostPort, hcolon]

theorem getLast_decimal (n : Nat) (s : GoString) : (s ++ decimal n).getLast? ≠ some rbrack := by
  intro h
  have hne := decimal_ne_nil n
  rw [List.getLast?_append_of_ne_nil _ hne] at h
  exact notMem_decimal (by decide) n (List.mem_of_getLast? h)

/-- **The address of an IPv6 node does not split**, for any zone and port. -/
theorem split_extAddr_v6 {conn : TCPAddr} {b : Bytes 16} {h6 : is4In6 b = false}
    (h : conn.ip = .v6 b h6) (port : UInt32) :
    ∃ err, splitHostPort (extAddr (remoteIP conn) port) = .error err := by
  have hport : colon ∉ decimal port.toNat := notMem_decimal (by decide) _
  obtain ⟨hcolon, hhead⟩ := hostText_v6 h
  rw [extAddr_eq]
  rcases remoteIP_v6 h with hip | hip
  · rw [hip]
    exact ⟨_, splitHostPort_unbracketed hport hhead hcolon⟩
  · rw [hip]
    exact splitHostPort_not_bracketed hport rfl (getLast_decimal _ _)

/-! ## §4. The round trip. -/

theorem mapError_eq_ok {ε ε' α : Type} (f : ε → ε') (x : Except ε α) (a : α) :
    x.mapError f = .ok a ↔ x = .ok a := by
  cases x <;> simp [Except.mapError]

/-- The address of an admitted registration. -/
theorem newEntry_externalAddr {extIP : GoString} {reg : RelayRegister} {c : Session}
    (h : newEntry extIP ⟨some (.relayRegister reg)⟩ = some c) :
    c.externalAddr = extAddr extIP reg.listenPort := by
  simp only [newEntry] at h
  split at h
  · rw [← Option.some.inj h]
  · cases h

/-- Who is told about a peer resolves the address the relay has of it. -/
theorem reaches_iff (r : Resolver) (peer : Session) (ip : IP) (port : Nat) :
    Reaches r peer ip port
      ↔ ∃ a, resolveUDPAddr r peer.externalAddr = .ok a ∧ a.ip = some ip ∧ a.port = port := by
  unfold Reaches resolvePeer
  constructor
  · rintro ⟨rv, hrv, a, ha, hip, hport⟩
    injection hrv with hrv
    injection hrv with hrv
    injection hrv with hrv
    rw [← hrv] at ha
    exact ⟨a, (mapError_eq_ok _ _ a).mp ha, hip, hport⟩
  · rintro ⟨a, ha, hip, hport⟩
    exact ⟨_, rfl, a, (mapError_eq_ok _ _ a).mpr ha, hip, hport⟩

/-- One registration: its address resolves to where it came from exactly for
IPv4 and a port that is one. -/
theorem reaches_admitted_iff (r : Resolver) (conn : TCPAddr) {reg : RelayRegister} {c : Session}
    (h : newEntry (remoteIP conn) ⟨some (.relayRegister reg)⟩ = some c) :
    Reaches r c conn.ip reg.listenPort.toNat
      ↔ conn.ip.isV4 = true ∧ reg.listenPort.toNat ≤ 65535 := by
  rw [reaches_iff, newEntry_externalAddr h]
  cases hip : conn.ip with
  | v4 b =>
    rw [remoteIP_v4 hip, extAddr_eq, resolveUDPAddr_v4 r b reg.listenPort.toNat_lt]
    by_cases hle : reg.listenPort.toNat ≤ 65535
    · simp [hle, IP.isV4]
    · simp [hle]
  | v6 b h6 =>
    obtain ⟨err, herr⟩ := split_extAddr_v6 hip reg.listenPort
    have hne : extAddr (remoteIP conn) reg.listenPort ≠ [] := by simp [extAddr_eq]
    rw [resolveUDPAddr_of_split_error r hne herr]
    simp [IP.isV4]

/-- `203.0.113.7:40000`. -/
def conn4 : TCPAddr := ⟨.v4 ⟨[203, 0, 113, 7], rfl⟩, 40000, [], fun _ => rfl⟩

/-- `[2001:db8::1]:40000`. -/
def conn6 : TCPAddr :=
  ⟨.v6 ⟨[0x20, 0x01, 0x0d, 0xb8, 0, 0, 0, 0, 0, 0, 0, 0, 0, 0, 0, 1], rfl⟩ (by decide), 40000, [],
    fun _ => rfl⟩

/-- A node registers with a port. -/
def registration (port : UInt32) : RelayRegister :=
  { nodeId := (Bytes.lit32 1).val, publicKey := (Bytes.lit32 2).val, listenPort := port }

def registered (conn : TCPAddr) (port : UInt32) : Session :=
  ⟨Bytes.lit32 1, (Bytes.lit32 2).val, extAddr (remoteIP conn) port, .registered, []⟩

theorem newEntry_registration (conn : TCPAddr) (port : UInt32) :
    newEntry (remoteIP conn) ⟨some (.relayRegister (registration port))⟩
      = some (registered conn port) := rfl

/-- **THE ROUND TRIP.**  In every run of the relay, for every TCP connection and
every registration admitted from it: the relay has the connection's entry, what
it says about it resolves to the connection's IP and the port registered EXACTLY
if the IP is an IPv4 address and the port is at most 65535, and every rendezvous
it has sent is what it says about a connection it admitted. -/
theorem relay_address_survives_iff (r : Resolver) {acts : List Act} {s : Server}
    (hrun : run step Server.new acts = some s) (conn : TCPAddr) (reg : RelayRegister) {c : Session}
    (haccept : Act.accept (remoteIP conn) ⟨some (.relayRegister reg)⟩ ∈ acts)
    (hentry : newEntry (remoteIP conn) ⟨some (.relayRegister reg)⟩ = some c) :
    rendezvousWith c ∈ s.announced
      ∧ (Reaches r c conn.ip reg.listenPort.toNat
          ↔ conn.ip.isV4 = true ∧ reg.listenPort.toNat ≤ 65535)
      ∧ ∀ d ∈ s.sessions, ∀ rv, ⟨some (.relayRendezvous rv)⟩ ∈ d.sent →
          ∃ d' ∈ admitted acts, rendezvousWith d' = ⟨some (.relayRendezvous rv)⟩ := by
  refine ⟨?_, reaches_admitted_iff r conn hentry, fun d hd rv hrv => sent_of_run hrun hd hrv⟩
  rw [announced_of_run acts hrun]
  have hmem : c ∈ admitted acts := List.mem_filterMap.mpr ⟨_, haccept, hentry⟩
  exact List.mem_append_right _ (List.mem_map_of_mem hmem)

theorem relay_address_survives_ipv4 :
    Reaches Resolver.offline (registered conn4 7777) conn4.ip 7777 := by
  have hrun : run step Server.new
      [.accept (remoteIP conn4) ⟨some (.relayRegister (registration 7777))⟩]
        = some (Server.new.register (registered conn4 7777)) := rfl
  have h := relay_address_survives_iff Resolver.offline hrun conn4 (registration 7777)
    List.mem_cons_self (newEntry_registration conn4 7777)
  exact h.2.1.mpr ⟨rfl, by decide⟩

/-- An IPv6 node registers, and `2001:db8::1:7777` is what the relay tells
others; an IPv4 node registers port 70000.  No one reaches either. -/
theorem relay_address_lost :
    newEntry (remoteIP conn6) ⟨some (.relayRegister (registration 7777))⟩
        = some (registered conn6 7777)
      ∧ (registered conn6 7777).externalAddr = ascii "2001:db8::1:7777"
      ∧ (∀ r, ¬ Reaches r (registered conn6 7777) conn6.ip 7777)
      ∧ newEntry (remoteIP conn4) ⟨some (.relayRegister (registration 70000))⟩
        = some (registered conn4 70000)
      ∧ ∀ r, ¬ Reaches r (registered conn4 70000) conn4.ip 70000 := by
  refine ⟨rfl, by decide +kernel, fun r h => ?_, rfl, fun r h => ?_⟩
  · have h6 := ((reaches_admitted_iff r conn6 (newEntry_registration conn6 7777)).mp h).1
    cases h6
  · have hport := ((reaches_admitted_iff r conn4 (newEntry_registration conn4 70000)).mp h).2
    exact absurd hport (by decide)

end Kin.Relay

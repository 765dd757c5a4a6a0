/-
  Kin.Connmgr.Dial

  **HOW A NODE IS REACHED** (`internal/connmgr/dial.go`, `internal/nat/punch.go`,
  `Listener.Dial` of `internal/transport/listener.go`).

  `Dial` gets the endpoints of a peer as they came with an invite: addresses, and
  relays under `relay://`.  It tries the addresses one after the other, then the
  relays; a relay names an address in turn, and the node is dialed there.  Every
  name, every relay and every host at the other end may be anyone's.

    endpoints ──splitEndpoints──→ direct … ──tryEach──→ Listener.Dial
                              └─→ relays … ──tryEach──→ Connect, RequestRendezvous, Punch

    • `routes_eq_of_splitEndpoints` — the two lists,
    • `tryEach_cases` — the first that succeeds, or all have failed,
    • `listenerDial_peer`, `punchViaRelay_peer` — who is at the other end,
    • `dial_in_order` — the whole of `Dial`.
-/
import Kin.Lib.Net
import Kin.Lib.Tries
import Kin.Relay.Client
import Kin.Transport.Accept

namespace Kin.Connmgr

open Kin.Lib Kin.Lib.Tries Kin.Kinpb Kin.RelayClient Kin.Transport

/-! ## §1. What the world answers. -/

/-- An established connection. -/
structure Conn where
  peerNodeID : NodeID
  /-- History: where it leads, and what the other end has shown. -/
  remote : UDPAddr
  shown : List (Except GoString Certificate)

/-- What one try meets. -/
structure Meets where
  /-- The certificates of whoever answers at the address, if anyone does. -/
  handshake : UDPAddr → Except GoString (List (Except GoString Certificate))
  /-- The error of `OpenStreamSync`. -/
  stream : Option GoString
  /-- The error of writing the framing prime. -/
  prime : Option GoString
  /-- The error of `relay.Connect`. -/
  connect : Option GoString
  /-- What `RequestRendezvous` returns. -/
  rendezvous : Except GoString RendezvousInfo

/-- What comes of one try after another. -/
structure World where
  resolver : Resolver
  meets : Nat → Meets

/-! ## §2. One try. -/

def openDialStream (m : Meets) : Except GoString Unit :=
  match m.stream with
  | some err => .error (ascii "open stream: " ++ err)
  | none =>
    match m.prime with
    | some err => .error (ascii "write framing prime: " ++ err)
    | none => .ok ()

/-- `Listener.Dial`; the handshake fails with the callback's error. -/
def listenerDial (r : Resolver) (m : Meets) (peerAddr : GoString) (peerNodeID : NodeID) :
    Except GoString Conn :=
  match resolveUDPAddr r peerAddr with
  | .error err => .error (ascii "resolve " ++ peerAddr ++ ascii ": " ++ err)
  | .ok udpAddr =>
    match m.handshake udpAddr with
    | .error err => .error (ascii "quic dial " ++ peerAddr ++ ascii ": " ++ err)
    | .ok raw =>
      match verifyPeerCertificate peerNodeID raw with
      | .error err => .error (ascii "quic dial " ++ peerAddr ++ ascii ": " ++ err)
      | .ok () =>
        match openDialStream m with
        | .error err => .error err
        | .ok () => .ok ⟨peerNodeID, udpAddr, raw⟩

def errPunchFailed : GoString := ascii "nat: hole punch failed"

/-- `nat.Punch`; the prime packets have no result. -/
def punch (r : Resolver) (m : Meets) (peerAddr : GoString) (peerNodeID : NodeID) :
    Except GoString Conn :=
  match listenerDial r m peerAddr peerNodeID with
  | .error err => .error (errPunchFailed ++ ascii ": dial " ++ peerAddr ++ ascii ": " ++ err)
  | .ok conn => .ok conn

def punchViaRelay (r : Resolver) (m : Meets) (relayAddr : GoString) (peerNodeID : NodeID) :
    Except GoString Conn :=
  match m.connect with
  | some err => .error (ascii "relay " ++ relayAddr ++ ascii ": " ++ err)
  | none =>
    match m.rendezvous with
    | .error err => .error (ascii "rendezvous: " ++ err)
    | .ok rv =>
      match punch r m rv.peerExternalAddr peerNodeID with
      | .error err => .error (ascii "punch: " ++ err)
      | .ok conn => .ok conn

/-! ## §3. All endpoints. -/

def errNoRoute : GoString := ascii "connmgr: no route to peer"

def relayScheme : GoString := ascii "relay://"

/-- The loop of `splitEndpoints`. -/
def splitEndpointsFrom (direct relayAddrs : List GoString) :
    List GoString → List GoString × List GoString
  | [] => (direct, relayAddrs)
  | ep :: endpoints =>
    if relayScheme.isPrefixOf ep then
      splitEndpointsFrom direct (relayAddrs ++ [ep.drop relayScheme.length]) endpoints
    else splitEndpointsFrom (direct ++ [ep]) relayAddrs endpoints

def splitEndpoints (endpoints : List GoString) : List GoString × List GoString :=
  splitEndpointsFrom [] [] endpoints

/-- `tryEach`, the `k`-th try first: the result, and the addresses tried. -/
def tryEach (attempt : Nat → GoString → Except GoString Conn) :
    (k : Nat) → (lastErr : Option GoString) → List GoString →
      Except GoString Conn × List GoString
  | _, lastErr, [] => (.error (lastErr.getD errNoRoute), [])
  | k, _, addr :: addrs =>
    match attempt k addr with
    | .ok conn => (.ok conn, [addr])
    | .error err =>
      let (res, tried) := tryEach attempt (k + 1) (some err) addrs
      (res, addr :: tried)

/-- A way to a peer. -/
inductive Route where
  | direct (addr : GoString)
  | relay (addr : GoString)
  deriving DecidableEq

structure Dialed where
  result : Except GoString Conn
  /-- The routes tried, in order. -/
  tried : List Route

def dial (w : World) (peerNodeID : NodeID) (endpoints : List GoString) : Dialed :=
  let (direct, relayAddrs) := splitEndpoints endpoints
  match tryEach (fun k ep => listenerDial w.resolver (w.meets k) ep peerNodeID) 0 none direct with
  | (.ok conn, tried) => ⟨.ok conn, tried.map .direct⟩
  | (.error _, tried) =>
    match tryEach (fun k addr => punchViaRelay w.resolver (w.meets k) addr peerNodeID)
        direct.length none relayAddrs with
    | (.ok conn, tried') => ⟨.ok conn, tried.map .direct ++ tried'.map .relay⟩
    | (.error _, tried') => ⟨.error errNoRoute, tried.map .direct ++ tried'.map .relay⟩

/-! ## §4. Who is at the other end. -/

/-- The other end has shown the certificate of the node. -/
def Conn.Proven (conn : Conn) (nodeID : NodeID) : Prop :=
  conn.peerNodeID = nodeID
    ∧ ∃ certs, parseCerts conn.shown = .ok certs ∧ nodeIDFromCert certs = .ok nodeID

theorem listenerDial_peer {r : Resolver} {m : Meets} {peerAddr : GoString} {peerNodeID : NodeID}
    {conn : Conn} (h : listenerDial r m peerAddr peerNodeID = .ok conn) :
    conn.Proven peerNodeID := by
  unfold listenerDial at h
  split at h
  next => cases h
  next udpAddr _ =>
    split at h
    next => cases h
    next raw _ =>
      split at h
      next => cases h
      next hverify =>
        split at h
        next => cases h
        next =>
          injection h with h
          rw [← h]
          exact ⟨rfl, verifyPeerCertificate_ok hverify⟩

theorem punchViaRelay_peer {r : Resolver} {m : Meets} {relayAddr : GoString} {peerNodeID : NodeID}
    {conn : Conn} (h : punchViaRelay r m relayAddr peerNodeID = .ok conn) :
    conn.Proven peerNodeID := by
  unfold punchViaRelay at h
  split at h
  next => cases h
  next =>
    split at h
    next => cases h
    next rv _ =>
      split at h
      next => cases h
      next conn' hpunch =>
        injection h with h
        subst h
        unfold punch at hpunch
        split at hpunch
        next => cases hpunch
        next conn'' hdial =>
          injection hpunch with hpunch
          rw [← hpunch]
          exact listenerDial_peer hdial

/-! ## §5. The order. -/

/-- What the try number `k` on a route comes to. -/
def World.attempt (w : World) (peerNodeID : NodeID) (k : Nat) : Route → Except GoString Conn
  | .direct addr => listenerDial w.resolver (w.meets k) addr peerNodeID
  | .relay addr => punchViaRelay w.resolver (w.meets k) addr peerNodeID

def isRelay (ep : GoString) : Bool := relayScheme.isPrefixOf ep

/-- The routes in the order in which `Dial` is to try them: the addresses, then
the relays, each in the order of the endpoints. -/
def routes (endpoints : List GoString) : List Route :=
  (endpoints.filter (fun ep => !isRelay ep)).map .direct
    ++ (endpoints.filter isRelay).map (fun ep => .relay (ep.drop relayScheme.length))

theorem splitEndpointsFrom_eq (endpoints : List GoString) : ∀ direct relayAddrs,
    splitEndpointsFrom direct relayAddrs endpoints
      = (direct ++ endpoints.filter (fun ep => !isRelay ep),
          relayAddrs ++ (endpoints.filter isRelay).map (fun ep => ep.drop relayScheme.length)) := by
  induction endpoints with
  | nil =>
    intro direct relayAddrs
    simp [splitEndpointsFrom]
  | cons ep endpoints ih =>
    intro direct relayAddrs
    rw [splitEndpointsFrom]
    cases hep : isRelay ep with
    | true =>
      rw [if_pos (show relayScheme.isPrefixOf ep = true from hep), ih]
      simp [hep]
    | false =>
      have hno : ¬ relayScheme.isPrefixOf ep = true := by
        rw [show relayScheme.isPrefixOf ep = false from hep]
        simp
      rw [if_neg hno, ih]
      simp [hep]

/-- The routes are the two lists of `splitEndpoints`, one behind the other. -/
theorem routes_eq_of_splitEndpoints {endpoints direct relayAddrs : List GoString}
    (h : splitEndpoints endpoints = (direct, relayAddrs)) :
    routes endpoints = direct.map .direct ++ relayAddrs.map .relay := by
  rw [splitEndpoints, splitEndpointsFrom_eq] at h
  obtain ⟨rfl, rfl⟩ := Prod.mk.inj h
  simp [routes]

/-- **`tryEach`**: the first that succeeds, with the later ones not tried, or all
have been tried and have failed. -/
theorem tryEach_cases (attempt : Nat → GoString → Except GoString Conn) (addrs : List GoString) :
    ∀ (k : Nat) (lastErr : Option GoString),
      (∃ m conn, FirstOk attempt k addrs m conn
        ∧ tryEach attempt k lastErr addrs = (.ok conn, addrs.take (m + 1)))
      ∨ (AllFail attempt k addrs
        ∧ ∃ err, tryEach attempt k lastErr addrs = (.error err, addrs)) := by
  induction addrs with
  | nil =>
    intro k lastErr
    exact Or.inr ⟨allFail_nil, _, rfl⟩
  | cons addr addrs ih =>
    intro k lastErr
    rw [tryEach]
    cases hattempt : attempt k addr with
    | ok conn =>
      exact Or.inl ⟨0, conn, ⟨allFail_nil, addr, rfl, hattempt⟩, rfl⟩
    | error err =>
      dsimp only
      rcases ih (k + 1) (some err) with ⟨m, conn, ⟨hfail, a, ha, hok⟩, heq⟩ | ⟨hfail, last, heq⟩
      · rw [heq]
        refine Or.inl ⟨m + 1, conn, ⟨allFail_cons hattempt hfail, a, ha, ?_⟩, rfl⟩
        rw [show k + (m + 1) = k + 1 + m by omega]
        exact hok
      · rw [heq]
        exact Or.inr ⟨allFail_cons hattempt hfail, last, rfl⟩

/-! ## §6. The whole of `Dial`. -/

/-- The tries go down the routes to the first that succeeds, whose connection is
returned; with no such route all have been tried and the error is `ErrNoRoute`. -/
def Dialed.GoesDown (out : Dialed) (attempt : Nat → Route → Except GoString Conn)
    (routes : List Route) : Prop :=
  (∃ m conn, FirstOk attempt 0 routes m conn
    ∧ out.result = .ok conn ∧ out.tried = routes.take (m + 1))
  ∨ (AllFail attempt 0 routes ∧ out.result = .error errNoRoute ∧ out.tried = routes)

theorem dial_goesDown (w : World) (peerNodeID : NodeID) (endpoints : List GoString) :
    (dial w peerNodeID endpoints).GoesDown (w.attempt peerNodeID) (routes endpoints) := by
  unfold dial
  obtain ⟨direct, relayAddrs, hsplit⟩ : ∃ direct relayAddrs,
      splitEndpoints endpoints = (direct, relayAddrs) := ⟨_, _, rfl⟩
  rw [routes_eq_of_splitEndpoints hsplit, hsplit]
  dsimp only
  rcases tryEach_cases (fun k ep => listenerDial w.resolver (w.meets k) ep peerNodeID)
      direct 0 none with ⟨m, conn, hfirst, heq⟩ | ⟨hfail, err, heq⟩
  · -- a direct address answers, and no relay is asked
    rw [heq]
    have hmap : FirstOk (w.attempt peerNodeID) 0 (direct.map .direct) m conn := hfirst.map
    refine Or.inl ⟨m, conn, hmap.left _, rfl, ?_⟩
    have hlt : m + 1 ≤ (direct.map Route.direct).length := hmap.lt
    rw [List.take_append_of_le_length hlt, ← List.map_take]
  · rw [heq]
    dsimp only
    have hmap : AllFail (w.attempt peerNodeID) 0 (direct.map .direct) := hfail.map
    have hlen : direct.length = 0 + (direct.map Route.direct).length := by simp
    rw [hlen]
    rcases tryEach_cases (fun k addr => punchViaRelay w.resolver (w.meets k) addr peerNodeID)
        relayAddrs (0 + (direct.map Route.direct).length) none
      with ⟨m, conn, hfirst, heq'⟩ | ⟨hfail', err', heq'⟩
    · rw [heq']
      have hmap' : FirstOk (w.attempt peerNodeID) (0 + (direct.map Route.direct).length)
          (relayAddrs.map .relay) m conn := hfirst.map
      refine Or.inl ⟨_, conn, hmap'.after hmap, rfl, ?_⟩
      rw [Nat.add_assoc, List.take_length_add_append, ← List.map_take]
    · rw [heq']
      have hmap' : AllFail (w.attempt peerNodeID) (0 + (direct.map Route.direct).length)
          (relayAddrs.map .relay) := hfail'.map
      exact Or.inr ⟨hmap.append hmap', rfl, rfl⟩

theorem attempt_proven {w : World} {peerNodeID : NodeID} {k : Nat} {route : Route} {conn : Conn}
    (h : w.attempt peerNodeID k route = .ok conn) : conn.Proven peerNodeID := by
  cases route with
  | direct addr => exact listenerDial_peer h
  | relay addr => exact punchViaRelay_peer h

/-- **THE WAY TO A PEER.**  For every list of endpoints and whatever resolvers,
relays and hosts answer: `Dial` tries the addresses and then the relays, in their
order and each once, stops at the first connection it gets, gives `ErrNoRoute`
exactly if every try has failed, and the connection it returns is one whose other
end has shown the certificate of the node that was asked for. -/
theorem dial_in_order (w : World) (peerNodeID : NodeID) (endpoints : List GoString) :
    (dial w peerNodeID endpoints).GoesDown (w.attempt peerNodeID) (routes endpoints)
      ∧ ∀ conn, (dial w peerNodeID endpoints).result = .ok conn → conn.Proven peerNodeID := by
  have hgoes := dial_goesDown w peerNodeID endpoints
  refine ⟨hgoes, ?_⟩
  intro conn hconn
  rcases hgoes with ⟨m, conn', ⟨-, route, -, hok⟩, hres, -⟩ | ⟨-, herr, -⟩
  · rw [hconn] at hres
    injection hres with hres
    rw [hres]
    exact attempt_proven hok
  · rw [hconn] at herr
    cases herr

end Kin.Connmgr

/-
  Kin.Transport.Accept

  **WHO GETS THROUGH THE ACCEPT LOOP?** (`internal/transport/tls.go`,
  `internal/transport/listener.go`, `acceptLoop` of `internal/daemon/daemon.go`).

  `acceptLoop` takes one connection after the other, and `Listener.Accept` waits
  inside its turn: for the peer to open a stream, and for the four bytes of the
  framing prime.  Neither wait has a deadline.

    handshake ──→ accept ──→ first byte of a stream ──→ four bytes ──→ Serve

    • `nodeIDFromCert`, `verifyPeerCertificate` — who is at the other end,
    • `Turn`, `step_turn` — the loop's place in the queue,
    • `accepted_in_turn` — who is served, as whom, and who keeps whom waiting.
-/
import Kin.Lib.Run
import Kin.Lib.Sha256
import Kin.Transfer.Receiver

namespace Kin.Transport

open Kin.Lib

/-! ## §1. Certificates. -/

/-- A certificate, by its public key if that is an Ed25519 one. -/
structure Certificate where
  ed25519 : Option GoString
  deriving DecidableEq

def nodeIDFromCert : List Certificate → Except GoString NodeID
  | [] => .error (ascii "transport: no peer certificates")
  | cert :: _ =>
    match cert.ed25519 with
    | none => .error (ascii "transport: peer certificate is not Ed25519")
    | some pub => .ok (Sha256.sum256 pub)

/-- `parseCerts`, from what `x509.ParseCertificate` makes of each. -/
def parseCerts : List (Except GoString Certificate) → Except GoString (List Certificate)
  | [] => .ok []
  | .error err :: _ => .error (ascii "transport: parse cert: " ++ err)
  | .ok cert :: raw =>
    match parseCerts raw with
    | .error err => .error err
    | .ok certs => .ok (cert :: certs)

/-- `VerifyPeerCertificate` of `clientTLSConfig`. -/
def verifyPeerCertificate (expectedNodeID : NodeID) (raw : List (Except GoString Certificate)) :
    Except GoString Unit :=
  match parseCerts raw with
  | .error err => .error err
  | .ok certs =>
    match nodeIDFromCert certs with
    | .error err => .error err
    | .ok gotID =>
      if gotID = expectedNodeID then .ok ()
      else .error (ascii "transport: NodeID mismatch: got " ++ Transfer.hexName gotID
        ++ ascii ", want " ++ Transfer.hexName expectedNodeID)

/-- A dialer that is content has the node it asked for at the other end. -/
theorem verifyPeerCertificate_ok {expectedNodeID : NodeID}
    {raw : List (Except GoString Certificate)}
    (h : verifyPeerCertificate expectedNodeID raw = .ok ()) :
    ∃ certs, parseCerts raw = .ok certs ∧ nodeIDFromCert certs = .ok expectedNodeID := by
  unfold verifyPeerCertificate at h
  split at h
  next => cases h
  next certs hparse =>
    split at h
    next => cases h
    next gotID hid =>
      split at h
      next heq =>
        rw [heq] at hid
        exact ⟨certs, hparse, hid⟩
      next => cases h

/-! ## §2. The loop. -/

/-- A QUIC connection at the listener. -/
structure QConn where
  /-- The peer's certificates; TLS has checked that it holds the key of the first. -/
  certs : List Certificate
  /-- What has arrived on its first stream, which `AcceptStream` sees from the
  first byte on. -/
  data : GoString
  /-- The stream is finished or the connection is gone. -/
  ended : Bool

/-- Where `acceptLoop` stands. -/
inductive AcceptPC where
  /-- In `qListener.Accept`. -/
  | waiting
  /-- In `AcceptStream` of a connection. -/
  | streaming (k : Nat)
  /-- In `consumeFramingPrime` of a connection. -/
  | priming (k : Nat)
  | stopped
  deriving DecidableEq

structure Acceptor where
  /-- The connections, in the order in which their handshakes were completed. -/
  conns : List QConn
  /-- How many of them `qListener.Accept` has returned. -/
  next : Nat
  pc : AcceptPC
  /-- What was handed to `Serve`: a connection and its `PeerNodeID`. -/
  served : List (Nat × NodeID)
  /-- History: the connections that `Listener.Dial` of other nodes returned, with
  the key of the node and the `PeerNodeID` it has. -/
  dialed : List (Nat × GoString × NodeID)

def Acceptor.new : Acceptor := ⟨[], 0, .waiting, [], []⟩

inductive Act where
  /-- A peer completes a handshake. -/
  | handshake (cert : Certificate) (more : List Certificate)
  /-- A node with the key dials, expecting the node id. -/
  | dial (key : GoString) (expectedNodeID : NodeID)
  /-- Bytes arrive on a connection's stream. -/
  | data (k : Nat) (bytes : GoString)
  | finish (k : Nat)
  | accept
  | acceptStream
  | acceptStreamError
  | prime
  | primeError
  /-- The context is cancelled and the listener closed. -/
  | stop

/-- `CloseWithError`, or the end the peer makes. -/
def Acceptor.finish (s : Acceptor) (k : Nat) : Acceptor :=
  { s with conns := s.conns.modify k (fun c => { c with ended := true }) }

/-- The end of `Accept` and the rest of the loop's turn. -/
def Acceptor.identify (s : Acceptor) (k : Nat) (c : QConn) : Acceptor :=
  match nodeIDFromCert c.certs with
  | .ok id => { s with pc := .waiting, served := s.served ++ [(k, id)] }
  | .error _ => { s.finish k with pc := .waiting }

/-- One step, if it is enabled; `own` are the listener's certificates as a dialer
parses them. -/
def step (own : List (Except GoString Certificate)) (s : Acceptor) : Act → Option Acceptor
  | .handshake cert more =>
    some { s with conns := s.conns ++ [⟨cert :: more, [], false⟩] }
  | .dial key expectedNodeID =>
    match verifyPeerCertificate expectedNodeID own with
    | .error _ => none
    | .ok () =>
      some { s with
        conns := s.conns ++ [⟨[⟨some key⟩], [], false⟩]
        dialed := s.dialed ++ [(s.conns.length, key, expectedNodeID)] }
  | .data k bytes =>
    some { s with conns := s.conns.modify k (fun c => { c with data := c.data ++ bytes }) }
  | .finish k => some (s.finish k)
  | .accept =>
    match s.pc with
    | .waiting =>
      if s.next < s.conns.length then
        some { s with pc := .streaming s.next, next := s.next + 1 }
      else none
    | _ => none
  | .acceptStream =>
    match s.pc with
    | .streaming k =>
      match s.conns[k]? with
      | some c => if c.data = [] then none else some { s with pc := .priming k }
      | none => none
    | _ => none
  | .acceptStreamError =>
    match s.pc with
    | .streaming k =>
      match s.conns[k]? with
      | some c => if c.ended then some { s.finish k with pc := .waiting } else none
      | none => none
    | _ => none
  | .prime =>
    match s.pc with
    | .priming k =>
      match s.conns[k]? with
      | some c => if c.data.length < 4 then none else some (s.identify k c)
      | none => none
    | _ => none
  | .primeError =>
    match s.pc with
    | .priming k =>
      match s.conns[k]? with
      | some c => if c.ended then some { s.finish k with pc := .waiting } else none
      | none => none
    | _ => none
  | .stop =>
    match s.pc with
    | .waiting => some { s with pc := .stopped }
    | _ => none

/-- The step relation: what each step needs and what it leads to. -/
inductive Step (own : List (Except GoString Certificate)) (s : Acceptor) : Act → Acceptor → Prop
  | handshake (cert : Certificate) (more : List Certificate) :
      Step own s (.handshake cert more)
        { s with conns := s.conns ++ [⟨cert :: more, [], false⟩] }
  | dial {key : GoString} {expectedNodeID : NodeID}
      (hverify : verifyPeerCertificate expectedNodeID own = .ok ()) :
      Step own s (.dial key expectedNodeID)
        { s with
          conns := s.conns ++ [⟨[⟨some key⟩], [], false⟩]
          dialed := s.dialed ++ [(s.conns.length, key, expectedNodeID)] }
  | data (k : Nat) (bytes : GoString) :
      Step own s (.data k bytes)
        { s with conns := s.conns.modify k (fun c => { c with data := c.data ++ bytes }) }
  | finish (k : Nat) : Step own s (.finish k) (s.finish k)
  | accept (hpc : s.pc = .waiting) (hnext : s.next < s.conns.length) :
      Step own s .accept { s with pc := .streaming s.next, next := s.next + 1 }
  | acceptStream {k : Nat} (hpc : s.pc = .streaming k) :
      Step own s .acceptStream { s with pc := .priming k }
  | acceptStreamError {k : Nat} {c : QConn} (hpc : s.pc = .streaming k)
      (hc : s.conns[k]? = some c) (hended : c.ended = true) :
      Step own s .acceptStreamError { s.finish k with pc := .waiting }
  | prime {k : Nat} {c : QConn} (hpc : s.pc = .priming k) (hc : s.conns[k]? = some c)
      (hdata : 4 ≤ c.data.length) : Step own s .prime (s.identify k c)
  | primeError {k : Nat} {c : QConn} (hpc : s.pc = .priming k) (hc : s.conns[k]? = some c)
      (hended : c.ended = true) : Step own s .primeError { s.finish k with pc := .waiting }
  | stop (hpc : s.pc = .waiting) : Step own s .stop { s with pc := .stopped }

/-- **What a step can do.** -/
theorem step_sound {own : List (Except GoString Certificate)} {s s' : Acceptor} {a : Act}
    (hs : step own s a = some s') : Step own s a s' := by
  cases a with
  | handshake cert more =>
    cases hs
    exact .handshake cert more
  | dial key expectedNodeID =>
    simp only [step] at hs
    split at hs
    next => cases hs
    next hverify =>
      cases hs
      exact .dial hverify
  | data k bytes =>
    cases hs
    exact .data k bytes
  | finish k =>
    cases hs
    exact .finish k
  | accept =>
    simp only [step] at hs
    split at hs
    next hpc =>
      split at hs
      next hnext =>
        cases hs
        exact .accept hpc hnext
      next => cases hs
    next => cases hs
  | acceptStream =>
    simp only [step] at hs
    split at hs
    next k hpc =>
      split at hs
      next c hc =>
        split at hs
        next => cases hs
        next =>
          cases hs
          exact .acceptStream hpc
      next => cases hs
    next => cases hs
  | acceptStreamError =>
    simp only [step] at hs
    split at hs
    next k hpc =>
      split at hs
      next c hc =>
        split at hs
        next hended =>
          cases hs
          exact .acceptStreamError hpc hc hended
        next => cases hs
      next => cases hs
    next => cases hs
  | prime =>
    simp only [step] at hs
    split at hs
    next k hpc =>
      split at hs
      next c hc =>
        split at hs
        next => cases hs
        next hdata =>
          cases hs
          exact .prime hpc hc (Nat.le_of_not_lt hdata)
      next => cases hs
    next => cases hs
  | primeError =>
    simp only [step] at hs
    split at hs
    next k hpc =>
      split at hs
      next c hc =>
        split at hs
        next hended =>
          cases hs
          exact .primeError hpc hc hended
        next => cases hs
      next => cases hs
    next => cases hs
  | stop =>
    simp only [step] at hs
    split at hs
    next hpc =>
      cases hs
      exact .stop hpc
    next => cases hs

/-! ## §3. The loop's place in the queue. -/

section Turns

variable {own : List (Except GoString Certificate)} {s : Acceptor}

/-- How many connections the loop is done with. -/
def Acceptor.done (s : Acceptor) : Nat :=
  match s.pc with
  | .streaming k => k
  | .priming k => k
  | .waiting => s.next
  | .stopped => s.next

/-- The connection has sent its prime, or has ended. -/
def QConn.Spoken (c : QConn) : Prop := 4 ≤ c.data.length ∨ c.ended = true

/-- The connection is open and has been handed to nobody. -/
def Acceptor.Left (s : Acceptor) (j : Nat) : Prop :=
  ∃ c, s.conns[j]? = some c ∧ c.ended = false ∧ ∀ id, (j, id) ∉ s.served

/-- A dial that was answered: the node expected is the listener's, and the
connection has the dialer's key. -/
def Acceptor.Answered (own : List (Except GoString Certificate)) (s : Acceptor)
    (x : Nat × GoString × NodeID) : Prop :=
  (∃ certs, parseCerts own = .ok certs ∧ nodeIDFromCert certs = .ok x.2.2)
    ∧ ∃ c, s.conns[x.1]? = some c ∧ c.certs = [⟨some x.2.1⟩]

/-- The connection was handed over in its turn, under its own node id. -/
def Acceptor.Identified (s : Acceptor) (x : Nat × NodeID) : Prop :=
  x.1 < s.done ∧ ∃ c, s.conns[x.1]? = some c ∧ nodeIDFromCert c.certs = .ok x.2

structure Turn (own : List (Except GoString Certificate)) (s : Acceptor) : Prop where
  bound : s.next ≤ s.conns.length
  streaming : ∀ k, s.pc = .streaming k → k + 1 = s.next
  priming : ∀ k, s.pc = .priming k → k + 1 = s.next
  passed : ∀ j < s.done, ∀ c, s.conns[j]? = some c → c.Spoken
  handled : ∀ j < s.done, ¬ s.Left j
  served : ∀ x ∈ s.served, s.Identified x
  order : (s.served.map Prod.fst).Pairwise (· < ·)
  dialed : ∀ x ∈ s.dialed, s.Answered own x

/-- What can happen to a connection: more bytes, and its end. -/
structure Grown (c c' : QConn) : Prop where
  certs : c'.certs = c.certs
  data : c.data.length ≤ c'.data.length
  ended : c.ended = true → c'.ended = true

theorem Grown.refl (c : QConn) : Grown c c := ⟨rfl, Nat.le_refl _, id⟩

theorem Grown.spoken {c c' : QConn} (h : Grown c c') (hs : c.Spoken) : c'.Spoken := by
  rcases hs with hdata | hended
  · exact Or.inl (Nat.le_trans hdata h.data)
  · exact Or.inr (h.ended hended)

/-- The connections of `s` are there in `s'`, grown. -/
structure Grows (s s' : Acceptor) : Prop where
  fwd : ∀ (j : Nat) c, s.conns[j]? = some c → ∃ c', s'.conns[j]? = some c' ∧ Grown c c'
  bwd : ∀ (j : Nat) c', s'.conns[j]? = some c' → j < s.conns.length →
    ∃ c, s.conns[j]? = some c ∧ Grown c c'
  length : s.conns.length ≤ s'.conns.length

theorem grows_modify (s : Acceptor) (k : Nat) {f : QConn → QConn} (hf : ∀ c, Grown c (f c)) :
    Grows s { s with conns := s.conns.modify k f } := by
  have hget : ∀ (j : Nat),
      (s.conns.modify k f)[j]? = (s.conns[j]?).map (if k = j then f else id) := by
    intro j
    rw [List.getElem?_modify]
    split <;> simp
  have hgrown : ∀ (j : Nat) c, Grown c ((if k = j then f else id) c) := by
    intro j c
    split
    · exact hf c
    · exact .refl c
  refine ⟨fun j c hc => ?_, fun j c' hc' _ => ?_, by simp⟩
  · exact ⟨_, by rw [hget, hc]; rfl, hgrown j c⟩
  · rw [hget] at hc'
    obtain ⟨c, hc, rfl⟩ := Option.map_eq_some_iff.mp hc'
    exact ⟨c, hc, hgrown j c⟩

theorem grows_concat (s : Acceptor) (c : QConn) : Grows s { s with conns := s.conns ++ [c] } := by
  refine ⟨fun j d hd => ?_, fun j d hd hj => ?_, by simp⟩
  · refine ⟨d, ?_, .refl d⟩
    rw [List.getElem?_append_left (List.getElem?_eq_some_iff.mp hd).1]
    exact hd
  · refine ⟨d, ?_, .refl d⟩
    rw [List.getElem?_append_left hj] at hd
    exact hd

theorem grown_ended (c : QConn) : Grown c { c with ended := true } :=
  ⟨rfl, Nat.le_refl _, fun _ => rfl⟩

theorem grown_data (c : QConn) (bytes : GoString) : Grown c { c with data := c.data ++ bytes } :=
  ⟨rfl, by simp, id⟩

theorem Acceptor.Answered.grows {s' : Acceptor} (hg : Grows s s') {x : Nat × GoString × NodeID}
    (h : s.Answered own x) : s'.Answered own x := by
  obtain ⟨hown, c, hc, hcerts⟩ := h
  obtain ⟨c', hc', hgrown⟩ := hg.fwd x.1 c hc
  exact ⟨hown, c', hc', hgrown.certs.trans hcerts⟩

/-- A step of the network: the loop stays where it is. -/
theorem Turn.grows {s' : Acceptor} (h : Turn own s) (hg : Grows s s') (hnext : s'.next = s.next)
    (hpc : s'.pc = s.pc) (hserved : s'.served = s.served)
    (hdialed : ∀ x ∈ s'.dialed, s'.Answered own x) : Turn own s' := by
  have hdone : s'.done = s.done := by
    unfold Acceptor.done
    rw [hpc, hnext]
  have hle : s.done ≤ s.conns.length := by
    have hb := h.bound
    unfold Acceptor.done
    split
    next k hk =>
      have := h.streaming k hk
      omega
    next k hk =>
      have := h.priming k hk
      omega
    next => exact hb
    next => exact hb
  refine ⟨?_, ?_, ?_, ?_, ?_, ?_, ?_, hdialed⟩
  · rw [hnext]
    exact Nat.le_trans h.bound hg.length
  · rw [hpc, hnext]
    exact h.streaming
  · rw [hpc, hnext]
    exact h.priming
  · intro j hj c' hc'
    rw [hdone] at hj
    obtain ⟨c, hc, hgrown⟩ := hg.bwd j c' hc' (by omega)
    exact hgrown.spoken (h.passed j hj c hc)
  · rintro j hj ⟨c', hc', hopen, hno⟩
    rw [hdone] at hj
    rw [hserved] at hno
    obtain ⟨c, hc, hgrown⟩ := hg.bwd j c' hc' (by omega)
    refine h.handled j hj ⟨c, hc, ?_, hno⟩
    cases hended : c.ended with
    | false => rfl
    | true =>
      rw [hgrown.ended hended] at hopen
      cases hopen
  · intro x hx
    rw [hserved] at hx
    obtain ⟨hlt, c, hc, hid⟩ := h.served x hx
    obtain ⟨c', hc', hgrown⟩ := hg.fwd x.1 c hc
    exact ⟨by rw [hdone]; exact hlt, c', hc', by rw [hgrown.certs]; exact hid⟩
  · rw [hserved]
    exact h.order

/-- The loop moves on, done with as many connections as before. -/
theorem Turn.move (h : Turn own s) {pc : AcceptPC} {next : Nat}
    (hdone : ({ s with pc := pc, next := next } : Acceptor).done = s.done)
    (hbound : next ≤ s.conns.length) (hstreaming : ∀ k, pc = .streaming k → k + 1 = next)
    (hpriming : ∀ k, pc = .priming k → k + 1 = next) :
    Turn own { s with pc := pc, next := next } := by
  refine ⟨hbound, hstreaming, hpriming, ?_, ?_, ?_, h.order, h.dialed⟩
  · rw [hdone]
    exact h.passed
  · rw [hdone]
    exact h.handled
  · intro x hx
    obtain ⟨hlt, hrest⟩ := h.served x hx
    exact ⟨by rw [hdone]; exact hlt, hrest⟩

/-- The loop finishes its turn with connection `k`. -/
theorem Turn.pass (h : Turn own s) {k : Nat} {c : QConn} (hk : k + 1 = s.next) (hdone : s.done = k)
    (hc : s.conns[k]? = some c) (hspoken : c.Spoken)
    (hleft : c.ended = false → ∃ id, (k, id) ∈ s.served) :
    Turn own { s with pc := .waiting } := by
  have hlt : ∀ j, j < k + 1 → j < s.done ∨ j = k := by
    intro j hj
    omega
  refine ⟨h.bound, by simp, by simp, ?_, ?_, ?_, h.order, h.dialed⟩
  · intro j hj d hd
    rcases hlt j (by rw [hk]; exact hj) with hold | rfl
    · exact h.passed j hold d hd
    · rw [hc] at hd
      rw [← Option.some.inj hd]
      exact hspoken
  · rintro j hj ⟨d, hd, hopen, hno⟩
    rcases hlt j (by rw [hk]; exact hj) with hold | rfl
    · exact h.handled j hold ⟨d, hd, hopen, hno⟩
    · rw [hc] at hd
      rw [← Option.some.inj hd] at hopen
      obtain ⟨id, hid⟩ := hleft hopen
      exact hno id hid
  · intro x hx
    obtain ⟨hx', hrest⟩ := h.served x hx
    refine ⟨?_, hrest⟩
    show x.1 < s.next
    omega

theorem Turn.finish (h : Turn own s) (k : Nat) : Turn own (s.finish k) :=
  h.grows (grows_modify s k grown_ended) rfl rfl rfl
    (fun x hx => (h.dialed x hx).grows (grows_modify s k grown_ended))

/-- `Accept` gives the connection up: it is closed, and the loop goes on. -/
theorem Turn.giveUp (h : Turn own s) {k : Nat} {c : QConn} (hk : k + 1 = s.next)
    (hdone : s.done = k) (hc : s.conns[k]? = some c) :
    Turn own { s.finish k with pc := .waiting } := by
  have hc' : (s.finish k).conns[k]? = some { c with ended := true } := by
    unfold Acceptor.finish
    rw [List.getElem?_modify, hc]
    simp
  exact (h.finish k).pass hk hdone hc' (Or.inr rfl) (by simp)

/-- `Accept` returns: the connection is handed over. -/
theorem Turn.handOver (h : Turn own s) {k : Nat} {c : QConn} (hpc : s.pc = .priming k)
    (hc : s.conns[k]? = some c) (hdata : 4 ≤ c.data.length) {id : NodeID}
    (hid : nodeIDFromCert c.certs = .ok id) :
    Turn own { s with pc := .waiting, served := s.served ++ [(k, id)] } := by
  have hk := h.priming k hpc
  have hdone : s.done = k := by rw [Acceptor.done, hpc]
  refine ⟨h.bound, by simp, by simp, ?_, ?_, ?_, ?_, h.dialed⟩
  · intro j hj d hd
    rcases Nat.lt_or_ge j k with hlt | hge
    · exact h.passed j (by omega) d hd
    · have hjk : j = k := by
        have : j < s.next := hj
        omega
      subst hjk
      rw [hc] at hd
      rw [← Option.some.inj hd]
      exact Or.inl hdata
  · rintro j hj ⟨d, hd, hopen, hno⟩
    rcases Nat.lt_or_ge j k with hlt | hge
    · exact h.handled j (by omega)
        ⟨d, hd, hopen, fun i hi => hno i (List.mem_append_left _ hi)⟩
    · have hjk : j = k := by
        have : j < s.next := hj
        omega
      exact hno id (by rw [hjk]; exact List.mem_append_right _ (List.mem_singleton_self _))
  · refine forall_mem_concat (fun x hx => ?_) ⟨?_, c, hc, hid⟩
    · obtain ⟨hlt, hrest⟩ := h.served x hx
      refine ⟨?_, hrest⟩
      show x.1 < s.next
      omega
    · show k < s.next
      omega
  · show ((s.served ++ [(k, id)]).map Prod.fst).Pairwise (· < ·)
    rw [List.map_append, List.pairwise_append]
    refine ⟨h.order, List.pairwise_singleton _ _, fun a ha b hb => ?_⟩
    obtain ⟨x, hx, rfl⟩ := List.mem_map.mp ha
    rw [List.mem_singleton.mp hb]
    have hlt := (h.served x hx).1
    rw [hdone] at hlt
    exact hlt

/-- **One step.** -/
theorem step_turn {s' : Acceptor} {a : Act} (h : Turn own s) (hs : step own s a = some s') :
    Turn own s' := by
  cases step_sound hs with
  | handshake cert more =>
    have hg := grows_concat s ⟨cert :: more, [], false⟩
    exact h.grows hg rfl rfl rfl (fun x hx => (h.dialed x hx).grows hg)
  | @dial key expectedNodeID hverify =>
    have hg := grows_concat s ⟨[⟨some key⟩], [], false⟩
    have hgrows : Grows s
        { s with
          conns := s.conns ++ [⟨[⟨some key⟩], [], false⟩]
          dialed := s.dialed ++ [(s.conns.length, key, expectedNodeID)] } :=
      ⟨hg.fwd, hg.bwd, hg.length⟩
    refine h.grows hgrows rfl rfl rfl (forall_mem_concat ?_ ?_)
    · exact fun x hx => (h.dialed x hx).grows hgrows
    · exact ⟨verifyPeerCertificate_ok hverify, _, List.getElem?_concat_length, rfl⟩
  | data k bytes =>
    have hg := grows_modify s k (fun c => grown_data c bytes)
    exact h.grows hg rfl rfl rfl (fun x hx => (h.dialed x hx).grows hg)
  | finish k => exact h.finish k
  | accept hpc hnext =>
    refine h.move ?_ hnext ?_ (by simp)
    · show s.next = s.done
      rw [Acceptor.done, hpc]
    · intro k hk
      injection hk with hk
      rw [← hk]
  | @acceptStream k hpc =>
    refine h.move ?_ h.bound (by simp) ?_
    · show k = s.done
      rw [Acceptor.done, hpc]
    · intro j hj
      injection hj with hj
      rw [← hj]
      exact h.streaming k hpc
  | @acceptStreamError k c hpc hc hended =>
    exact h.giveUp (h.streaming k hpc) (by rw [Acceptor.done, hpc]) hc
  | @prime k c hpc hc hdata =>
    unfold Acceptor.identify
    split
    next id hid => exact h.handOver hpc hc hdata hid
    next => exact h.giveUp (h.priming k hpc) (by rw [Acceptor.done, hpc]) hc
  | @primeError k c hpc hc hended =>
    exact h.giveUp (h.priming k hpc) (by rw [Acceptor.done, hpc]) hc
  | stop hpc =>
    refine h.move ?_ h.bound (by simp) (by simp)
    show s.next = s.done
    rw [Acceptor.done, hpc]

end Turns

/-! ## §4. Who is served. -/

/-- The loop's own steps. -/
def loopActs : List Act := [.accept, .acceptStream, .acceptStreamError, .prime, .primeError]

/-- The loop can do nothing by itself. -/
def Acceptor.Rests (own : List (Except GoString Certificate)) (s : Acceptor) : Prop :=
  ∀ a ∈ loopActs, step own s a = none

/-- An open connection that has not sent four bytes. -/
def QConn.Silent (c : QConn) : Prop := c.ended = false ∧ c.data.length < 4

/-- **In turn.** -/
structure InTurn (own : List (Except GoString Certificate)) (s : Acceptor) : Prop where
  /-- What is handed to `Serve` has the node id of its own certificate. -/
  identity : ∀ k id, (k, id) ∈ s.served →
    ∃ c, s.conns[k]? = some c ∧ nodeIDFromCert c.certs = .ok id
  /-- Connections are handed over in the order of their handshakes, each once. -/
  order : (s.served.map Prod.fst).Pairwise (· < ·)
  /-- A silent connection: none of those behind it has been handed over. -/
  blocks : ∀ j c, s.conns[j]? = some c → c.Silent → ∀ k id, (k, id) ∈ s.served → k < j
  /-- A loop that rests has handed over every open connection, or it is at a
  silent one and has handed over the open ones before it. -/
  rest : s.Rests own → s.pc ≠ .stopped →
    (∀ j, ¬ s.Left j)
      ∨ ∃ (j : Nat) (c : QConn), s.conns[j]? = some c ∧ c.Silent ∧ ∀ i < j, ¬ s.Left i
  /-- The two ends of a dialed connection know each other. -/
  bothEnds : ∀ k key expectedNodeID, (k, key, expectedNodeID) ∈ s.dialed →
    (∃ certs, parseCerts own = .ok certs ∧ nodeIDFromCert certs = .ok expectedNodeID)
      ∧ ∀ id, (k, id) ∈ s.served → id = Sha256.sum256 key

section InTurn

variable {own : List (Except GoString Certificate)} {s : Acceptor}

/-- What the loop waits for in its turn with connection `k` does not come. -/
theorem Turn.waits (h : Turn own s) {k : Nat} (hk : k + 1 = s.next) (hdone : s.done = k)
    (hsilent : ∀ c, s.conns[k]? = some c → c.Silent) :
    ∃ (j : Nat) (c : QConn), s.conns[j]? = some c ∧ c.Silent ∧ ∀ i < j, ¬ s.Left i := by
  have hlt : k < s.conns.length := by
    have := h.bound
    omega
  refine ⟨k, s.conns[k], List.getElem?_eq_getElem hlt, ?_, fun i hi => h.handled i (by omega)⟩
  exact hsilent _ (List.getElem?_eq_getElem hlt)

theorem Turn.rest (h : Turn own s) (hrests : s.Rests own) (hpc : s.pc ≠ .stopped) :
    (∀ j, ¬ s.Left j)
      ∨ ∃ (j : Nat) (c : QConn), s.conns[j]? = some c ∧ c.Silent ∧ ∀ i < j, ¬ s.Left i := by
  cases hp : s.pc with
  | stopped => exact absurd hp hpc
  | waiting =>
    -- nothing to accept: all connections have had their turn
    have haccept := hrests .accept (by simp [loopActs])
    simp only [step, hp] at haccept
    have hall : s.conns.length ≤ s.next := by
      by_contra hlt
      rw [if_pos (Nat.lt_of_not_le hlt)] at haccept
      cases haccept
    refine Or.inl (fun j hj => ?_)
    obtain ⟨c, hc, -⟩ := id hj
    have hlen := (List.getElem?_eq_some_iff.mp hc).1
    exact h.handled j (by rw [Acceptor.done, hp]; exact Nat.lt_of_lt_of_le hlen hall) hj
  | streaming k =>
    have hstream := hrests .acceptStream (by simp [loopActs])
    have herror := hrests .acceptStreamError (by simp [loopActs])
    simp only [step, hp] at hstream herror
    refine Or.inr (h.waits (h.streaming k hp) (by rw [Acceptor.done, hp]) (fun c hc => ?_))
    rw [hc] at hstream herror
    simp only [ite_eq_left_iff, reduceCtorEq, imp_false, not_not] at hstream
    simp only [ite_eq_right_iff, reduceCtorEq, imp_false, Bool.not_eq_true] at herror
    exact ⟨herror, by rw [hstream]; decide⟩
  | priming k =>
    have hprime := hrests .prime (by simp [loopActs])
    have herror := hrests .primeError (by simp [loopActs])
    simp only [step, hp] at hprime herror
    refine Or.inr (h.waits (h.priming k hp) (by rw [Acceptor.done, hp]) (fun c hc => ?_))
    rw [hc] at hprime herror
    simp only [ite_eq_left_iff, reduceCtorEq, imp_false, not_not] at hprime
    simp only [ite_eq_right_iff, reduceCtorEq, imp_false, Bool.not_eq_true] at herror
    exact ⟨herror, hprime⟩

theorem Turn.inTurn (h : Turn own s) : InTurn own s := by
  refine ⟨fun k id hx => (h.served _ hx).2, h.order, ?_, h.rest, ?_⟩
  · intro j c hc hsilent k id hx
    have hk := (h.served _ hx).1
    by_contra hge
    -- the loop has passed connection `j`, which has therefore spoken
    rcases h.passed j (by omega) c hc with hdata | hended
    · have := hsilent.2
      omega
    · rw [hsilent.1] at hended
      cases hended
  · intro k key expectedNodeID hx
    obtain ⟨hown, c, hc, hcerts⟩ := h.dialed _ hx
    refine ⟨hown, fun id hserved => ?_⟩
    obtain ⟨-, c', hc', hid⟩ := h.served _ hserved
    rw [hc] at hc'
    rw [← Option.some.inj hc', hcerts] at hid
    injection hid with hid
    exact hid.symm

end InTurn

theorem turn_new (own : List (Except GoString Certificate)) : Turn own .new := by
  refine ⟨Nat.le_refl _, ?_, ?_, ?_, ?_, ?_, ?_, ?_⟩ <;>
    simp [Acceptor.new, Acceptor.done]

/-- **THE ACCEPT LOOP GOES BY TURNS.**  For every set of peers and every timing of
their handshakes, bytes and ends: connections are handed to `Serve` in the order
of their handshakes, each once and under the node id of its own certificate, and
both ends of a dialed connection know each other; a loop that rests has handed
over every open connection, unless it waits for one that is open and has not sent
its four bytes, and then none behind that one has been handed over. -/
theorem accepted_in_turn (own : List (Except GoString Certificate)) (acts : List Act) :
    StatesMeet (step own) (InTurn own) .new acts := by
  have hturn : StatesMeet (step own) (Turn own) .new acts :=
    statesMeet_of_stepsMeet (J := fun _ => True) (C := fun _ _ => True) (fun _ _ _ _ _ => trivial)
      (fun _ _ _ _ h _ hs => step_turn h hs) trivial (turn_new own) (stepsMeet_true acts _)
  exact hturn.mono (fun _ h => h.inTurn)

/-- One peer completes its handshake and says nothing; a node that dials after it
is not served, however long it talks. -/
example : (run (step []) .new
      [.handshake ⟨none⟩ [], .handshake ⟨some [1]⟩ [], .data 1 (List.replicate 64 0), .accept]).map
        (fun s => (s.pc, s.served.length,
          loopActs.all (fun a => (step [] s a).isNone)))
    = some (.streaming 0, 0, true) := by
  decide

end Kin.Transport

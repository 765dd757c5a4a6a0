/-
  Kin.Relay.Server

  **THE RELAY SERVER** (`internal/relay/server.go`) as a system of concurrent
  `Serve` calls.

  Every connection registers under the node id it claims, is confirmed, and
  then has its `RelayConnect` requests handled one by one until reading fails.
  `handleConnect` looks the target up, writes to the target's connection and
  then to the requester's: three steps, with any steps of other connections in
  between.  Both ways out of `Serve` (a failed confirmation, a read error) end
  in `deregister`.
-/
import Kin.Kinpb.Messages
import Kin.Lib.Run

namespace Kin.Relay

open Kin.Lib Kin.Kinpb

/-! ## §1. Connections and their state. -/

/-- Where a `Serve` call stands. -/
inductive ServePC where
  /-- In the registry, not confirmed yet. -/
  | registered
  /-- About to read the next message. -/
  | serving
  /-- `handleConnect` is about to look up the target. -/
  | lookingUp (target : NodeID)
  /-- The target's entry is found; its connection is written to next. -/
  | notifying (target : Nat)
  /-- A message for the requester is written next. -/
  | replying (env : Envelope)
  /-- About to deregister. -/
  | leaving
  /-- `deregister` is done. -/
  | gone
  deriving DecidableEq

/-- An `entry` of the relay, with its `Serve` call. -/
structure Session where
  nodeID : NodeID
  publicKey : GoString
  /-- The relay's view of the address, `ip:listen_port`. -/
  externalAddr : GoString
  pc : ServePC
  /-- What has been written to the connection. -/
  sent : List Envelope

structure Server where
  /-- `registry`: the entry of each node id, by its `Serve` call. -/
  registry : GoMap NodeID Nat
  sessions : List Session

/-- `NewServer`. -/
def Server.new : Server := ⟨∅, []⟩

/-! ## §2. Messages. -/

def relayError (reason : String) : Envelope := ⟨some (.relayError ⟨ascii reason⟩)⟩

/-- `RelayRendezvous` about a peer. -/
def rendezvousWith (peer : Session) : Envelope :=
  ⟨some (.relayRendezvous ⟨peer.nodeID.val, peer.publicKey, peer.externalAddr⟩)⟩

/-- `fmt.Sprintf("%s:%d", extIP, reg.ListenPort)`. -/
def extAddr (extIP : GoString) (listenPort : UInt32) : GoString :=
  extIP ++ ascii ":" ++ ascii (toString listenPort.toNat)

/-- The entry `Serve` builds from the first message, if it admits it. -/
def newEntry (extIP : GoString) (env : Envelope) : Option Session :=
  match env.payload with
  | some (.relayRegister reg) =>
    match Bytes.ofList? 32 reg.nodeId, Bytes.ofList? 32 reg.publicKey with
    | some nodeID, some publicKey =>
      some ⟨nodeID, publicKey.val, extAddr extIP reg.listenPort, .registered, []⟩
    | _, _ => none
  | _ => none

/-- What `handleConnect` does after its look-up. -/
def Server.lookupTarget (s : Server) (target : NodeID) : ServePC :=
  match s.registry.lookup target with
  | none => .replying (relayError "peer_not_registered")
  | some j => .notifying j

/-- Where a message read in the loop leads. -/
def afterRead (env : Envelope) : ServePC :=
  match env.payload with
  | some (.relayConnect req) =>
    match Bytes.ofList? 32 req.targetNodeId with
    | none => .replying (relayError "invalid_request")
    | some target => .lookingUp target
  | _ => .serving

/-! ## §3. Steps. -/

inductive Act where
  /-- A connection sends its first message. -/
  | accept (extIP : GoString) (env : Envelope)
  /-- `RelayRegistered` is written, or fails to be. -/
  | confirm (i : Nat) (ok : Bool)
  /-- `ReadMsg` returns a message. -/
  | read (i : Nat) (env : Envelope)
  | lookup (i : Nat)
  /-- The rendezvous is written to the target, or fails to be. -/
  | notify (i : Nat) (ok : Bool)
  | reply (i : Nat) (ok : Bool)
  /-- `ReadMsg` fails. -/
  | readError (i : Nat)
  | deregister (i : Nat)

/-- `entry.send`: a message goes out unless the write fails. -/
def Session.write (c : Session) (env : Envelope) (ok : Bool) : Session :=
  if ok then { c with sent := c.sent ++ [env] } else c

def Server.modify (s : Server) (i : Nat) (f : Session → Session) : Server :=
  { s with sessions := s.sessions.modify i f }

def Server.pcAt (s : Server) (i : Nat) : Option ServePC := (s.sessions[i]?).map Session.pc

/-- Insert the entry of a new connection; it replaces the node's entry. -/
def Server.register (s : Server) (c : Session) : Server :=
  { s with
    registry := s.registry.insert c.nodeID s.sessions.length
    sessions := s.sessions ++ [c] }

/-- `RelayRegistered`, then the loop; a failed write leads out of `Serve`. -/
def Session.confirm (ok : Bool) (c : Session) : Session :=
  { c.write ⟨some (.relayRegistered ⟨c.externalAddr⟩)⟩ ok with
    pc := if ok then .serving else .leaving }

/-- The target has been written to, or could not be. -/
def Session.notified (target : Session) (ok : Bool) (c : Session) : Session :=
  { c with pc := .replying (if ok then rendezvousWith target else relayError "peer_unreachable") }

/-- One step of one connection, if it is enabled. -/
def step (s : Server) : Act → Option Server
  | .accept extIP env =>
    match newEntry extIP env with
    | some c => some (s.register c)
    | none => some s
  | .confirm i ok =>
    match s.pcAt i with
    | some .registered => some (s.modify i (Session.confirm ok))
    | _ => none
  | .read i env =>
    match s.pcAt i with
    | some .serving => some (s.modify i (fun c => { c with pc := afterRead env }))
    | _ => none
  | .lookup i =>
    match s.pcAt i with
    | some (.lookingUp target) =>
      some (s.modify i (fun c => { c with pc := s.lookupTarget target }))
    | _ => none
  | .notify i ok =>
    match s.sessions[i]? with
    | some c =>
      match c.pc with
      | .notifying j =>
        match s.sessions[j]? with
        | some target =>
          some ((s.modify j (fun t => t.write (rendezvousWith c) ok)).modify i
            (Session.notified target ok))
        | none => none
      | _ => none
    | none => none
  | .reply i ok =>
    match s.pcAt i with
    | some (.replying env) =>
      some (s.modify i (fun c => { c.write env ok with pc := .serving }))
    | _ => none
  | .readError i =>
    match s.pcAt i with
    | some .serving => some (s.modify i (fun c => { c with pc := .leaving }))
    | _ => none
  | .deregister i =>
    match s.sessions[i]? with
    | some c =>
      match c.pc with
      | .leaving =>
        some { s.modify i (fun c => { c with pc := .gone }) with
          registry := s.registry.erase c.nodeID }
      | _ => none
    | none => none

/-- The step relation: what each step needs and what it leads to. -/
inductive Step (s : Server) : Act → Server → Prop
  | accept {extIP : GoString} {env : Envelope} {c : Session} (hentry : newEntry extIP env = some c) :
      Step s (.accept extIP env) (s.register c)
  | refuse {extIP : GoString} {env : Envelope} (hentry : newEntry extIP env = none) :
      Step s (.accept extIP env) s
  | confirm {i : Nat} {c : Session} (ok : Bool) (hc : s.sessions[i]? = some c)
      (hpc : c.pc = .registered) : Step s (.confirm i ok) (s.modify i (Session.confirm ok))
  | read {i : Nat} {c : Session} (env : Envelope) (hc : s.sessions[i]? = some c)
      (hpc : c.pc = .serving) :
      Step s (.read i env) (s.modify i (fun c => { c with pc := afterRead env }))
  | lookup {i : Nat} {c : Session} {target : NodeID} (hc : s.sessions[i]? = some c)
      (hpc : c.pc = .lookingUp target) :
      Step s (.lookup i) (s.modify i (fun c => { c with pc := s.lookupTarget target }))
  | notify {i j : Nat} {c target : Session} (ok : Bool) (hc : s.sessions[i]? = some c)
      (hpc : c.pc = .notifying j) (ht : s.sessions[j]? = some target) :
      Step s (.notify i ok)
        ((s.modify j (fun t => t.write (rendezvousWith c) ok)).modify i
          (Session.notified target ok))
  | reply {i : Nat} {c : Session} {env : Envelope} (ok : Bool) (hc : s.sessions[i]? = some c)
      (hpc : c.pc = .replying env) :
      Step s (.reply i ok) (s.modify i (fun c => { c.write env ok with pc := .serving }))
  | readError {i : Nat} {c : Session} (hc : s.sessions[i]? = some c) (hpc : c.pc = .serving) :
      Step s (.readError i) (s.modify i (fun c => { c with pc := .leaving }))
  | deregister {i : Nat} {c : Session} (hc : s.sessions[i]? = some c) (hpc : c.pc = .leaving) :
      Step s (.deregister i)
        { s.modify i (fun c => { c with pc := .gone }) with registry := s.registry.erase c.nodeID }

theorem pcAt_eq_some {s : Server} {i : Nat} {pc : ServePC} (h : s.pcAt i = some pc) :
    ∃ c, s.sessions[i]? = some c ∧ c.pc = pc := Option.map_eq_some_iff.mp h

/-- **What a step can do.** -/
theorem step_sound {s s' : Server} {a : Act} (hs : step s a = some s') : Step s a s' := by
  cases a with
  | accept extIP env =>
    simp only [step] at hs
    split at hs
    next c hentry =>
      cases hs
      exact .accept hentry
    next hentry =>
      cases hs
      exact .refuse hentry
  | confirm i ok =>
    simp only [step] at hs
    split at hs
    next hpc =>
      obtain ⟨c, hc, hpc⟩ := pcAt_eq_some hpc
      cases hs
      exact .confirm ok hc hpc
    next => cases hs
  | read i env =>
    simp only [step] at hs
    split at hs
    next hpc =>
      obtain ⟨c, hc, hpc⟩ := pcAt_eq_some hpc
      cases hs
      exact .read env hc hpc
    next => cases hs
  | lookup i =>
    simp only [step] at hs
    split at hs
    next target hpc =>
      obtain ⟨c, hc, hpc⟩ := pcAt_eq_some hpc
      cases hs
      exact .lookup hc hpc
    next => cases hs
  | notify i ok =>
    simp only [step] at hs
    split at hs
    next c hc =>
      split at hs
      next j hpc =>
        split at hs
        next target ht =>
          cases hs
          exact .notify ok hc hpc ht
        next => cases hs
      next => cases hs
    next => cases hs
  | reply i ok =>
    simp only [step] at hs
    split at hs
    next env hpc =>
      obtain ⟨c, hc, hpc⟩ := pcAt_eq_some hpc
      cases hs
      exact .reply ok hc hpc
    next => cases hs
  | readError i =>
    simp only [step] at hs
    split at hs
    next hpc =>
      obtain ⟨c, hc, hpc⟩ := pcAt_eq_some hpc
      cases hs
      exact .readError hc hpc
    next => cases hs
  | deregister i =>
    simp only [step] at hs
    split at hs
    next c hc =>
      split at hs
      next hpc =>
        cases hs
        exact .deregister hc hpc
      next => cases hs
    next => cases hs

/-! ## §4. The registered connections. -/

/-- Connection `i` has registered the node and not deregistered it yet. -/
def Server.Registered (s : Server) (i : Nat) (n : NodeID) : Prop :=
  ∃ c, s.sessions[i]? = some c ∧ c.nodeID = n ∧ c.pc ≠ .gone

theorem getElem?_modify_of_ne (s : Server) {i j : Nat} (h : j ≠ i) (f : Session → Session) :
    (s.modify i f).sessions[j]? = s.sessions[j]? := by
  unfold Server.modify
  rw [List.getElem?_modify]
  simp [Ne.symm h]

theorem getElem?_modify_self (s : Server) (i : Nat) (f : Session → Session) :
    (s.modify i f).sessions[i]? = (s.sessions[i]?).map f := by
  unfold Server.modify
  rw [List.getElem?_modify]
  simp

/-- Moving a connection along, short of deregistering, changes nobody's
registration. -/
theorem registered_modify {s : Server} {i : Nat} {f : Session → Session}
    (hf : ∀ c, s.sessions[i]? = some c →
      (f c).nodeID = c.nodeID ∧ ((f c).pc = .gone ↔ c.pc = .gone)) (j : Nat) (n : NodeID) :
    (s.modify i f).Registered j n ↔ s.Registered j n := by
  unfold Server.Registered
  by_cases hj : j = i
  · subst hj
    rw [getElem?_modify_self]
    cases hc : s.sessions[j]? with
    | none => simp
    | some c =>
      obtain ⟨hid, hgone⟩ := hf c hc
      simp only [Option.map_some, Option.some.injEq, exists_eq_left', ne_eq]
      rw [hid, hgone]
  · rw [getElem?_modify_of_ne s hj]

theorem registered_register (s : Server) {c : Session} (hc : c.pc ≠ .gone) (i : Nat) (n : NodeID) :
    (s.register c).Registered i n ↔ s.Registered i n ∨ (i = s.sessions.length ∧ n = c.nodeID) := by
  unfold Server.Registered Server.register
  rcases Nat.lt_trichotomy i s.sessions.length with hlt | heq | hgt
  · rw [List.getElem?_append_left hlt]
    have hne : i ≠ s.sessions.length := Nat.ne_of_lt hlt
    simp [hne]
  · subst heq
    rw [List.getElem?_concat_length, List.getElem?_eq_none (Nat.le_refl _)]
    refine ⟨fun ⟨c', hc', hn, _⟩ => ?_, fun hor => ?_⟩
    · exact Or.inr ⟨rfl, by rw [← hn, Option.some.inj hc']⟩
    · rcases hor with ⟨c', hc', _⟩ | ⟨_, hn⟩
      · cases hc'
      · exact ⟨c, rfl, hn.symm, hc⟩
  · rw [List.getElem?_eq_none (by simp; omega), List.getElem?_eq_none (by omega)]
    have hne : i ≠ s.sessions.length := by omega
    simp [hne]

theorem registered_deregister {s : Server} {i : Nat} {c : Session} (hc : s.sessions[i]? = some c)
    (j : Nat) (n : NodeID) :
    (s.modify i (fun c => { c with pc := .gone })).Registered j n
      ↔ s.Registered j n ∧ ¬ (j = i ∧ n = c.nodeID) := by
  unfold Server.Registered
  by_cases hj : j = i
  · subst hj
    rw [getElem?_modify_self, hc]
    refine iff_of_false (fun ⟨c', hc', _, hpc⟩ => ?_) (fun ⟨⟨c', hc', hn, _⟩, hno⟩ => ?_)
    · rw [← Option.some.inj hc'] at hpc
      exact hpc rfl
    · rw [← Option.some.inj hc'] at hn
      exact hno ⟨rfl, hn.symm⟩
  · rw [getElem?_modify_of_ne s hj]
    simp [hj]

/-- An entry as `Serve` builds it. -/
theorem newEntry_fresh {extIP : GoString} {env : Envelope} {c : Session}
    (h : newEntry extIP env = some c) : c.pc = .registered ∧ c.sent = [] := by
  unfold newEntry at h
  split at h
  next =>
    split at h
    next =>
      rw [← Option.some.inj h]
      exact ⟨rfl, rfl⟩
    next => cases h
  next => cases h

@[simp] theorem Session.write_nodeID (c : Session) (env : Envelope) (ok : Bool) :
    (c.write env ok).nodeID = c.nodeID := by
  unfold Session.write
  split <;> rfl

@[simp] theorem Session.write_pc (c : Session) (env : Envelope) (ok : Bool) :
    (c.write env ok).pc = c.pc := by
  unfold Session.write
  split <;> rfl

theorem afterRead_ne_gone (env : Envelope) : afterRead env ≠ .gone := by
  unfold afterRead
  split
  · split <;> nofun
  · nofun

theorem Server.lookupTarget_ne_gone (s : Server) (target : NodeID) :
    s.lookupTarget target ≠ .gone := by
  unfold Server.lookupTarget
  split <;> nofun

/-- A step that moves connection `i` from one point of `Serve` to another,
short of its end. -/
theorem registered_move {s : Server} {i : Nat} {c : Session} {f : Session → Session}
    (hc : s.sessions[i]? = some c) (hpc : c.pc ≠ .gone) (hid : (f c).nodeID = c.nodeID)
    (hpc' : (f c).pc ≠ .gone) (j : Nat) (n : NodeID) :
    (s.modify i f).Registered j n ↔ s.Registered j n := by
  refine registered_modify (fun d hd => ?_) j n
  rw [hc] at hd
  rw [← Option.some.inj hd]
  exact ⟨hid, iff_of_false hpc' hpc⟩

/-- **What a step does to the registry**: a connection registers and its entry
replaces the node's, a connection deregisters and the node's entry is deleted,
or nothing. -/
theorem step_registry {s s' : Server} {a : Act} (hs : step s a = some s') :
    (∃ extIP env c, a = .accept extIP env ∧ newEntry extIP env = some c ∧ s' = s.register c
      ∧ c.pc = .registered)
    ∨ (∃ i c, a = .deregister i ∧ s.sessions[i]? = some c
      ∧ s'.registry = s.registry.erase c.nodeID
      ∧ ∀ j n, s'.Registered j n ↔ s.Registered j n ∧ ¬ (j = i ∧ n = c.nodeID))
    ∨ ((∀ extIP env, a = .accept extIP env → newEntry extIP env = none) ∧ (∀ i, a ≠ .deregister i)
      ∧ s'.registry = s.registry ∧ ∀ j n, s'.Registered j n ↔ s.Registered j n) := by
  have hne : ∀ {c : Session} {pc : ServePC}, c.pc = pc → pc ≠ .gone → c.pc ≠ .gone :=
    fun hpc hgone h => hgone (hpc.symm.trans h)
  cases step_sound hs with
  | accept hentry => exact Or.inl ⟨_, _, _, rfl, hentry, rfl, (newEntry_fresh hentry).1⟩
  | refuse hentry =>
    refine Or.inr (Or.inr ⟨fun extIP env ha => ?_, nofun, rfl, fun _ _ => Iff.rfl⟩)
    injection ha with hip henv
    rw [← hip, ← henv]
    exact hentry
  | confirm ok hc hpc =>
    refine Or.inr (Or.inr ⟨nofun, nofun, rfl, registered_move hc (hne hpc nofun) ?_ ?_⟩)
    · exact Session.write_nodeID _ _ _
    · cases ok <;> nofun
  | read env hc hpc =>
    exact Or.inr (Or.inr ⟨nofun, nofun, rfl,
      registered_move hc (hne hpc nofun) rfl (afterRead_ne_gone env)⟩)
  | lookup hc hpc =>
    exact Or.inr (Or.inr ⟨nofun, nofun, rfl,
      registered_move hc (hne hpc nofun) rfl (s.lookupTarget_ne_gone _)⟩)
  | @notify i j c target ok hc hpc ht =>
    refine Or.inr (Or.inr ⟨nofun, nofun, rfl, fun k n => ?_⟩)
    -- the target is written to, then the requester moves on (it may be its own target)
    have hwrite : ∀ k n, (s.modify j (fun t => t.write (rendezvousWith c) ok)).Registered k n
        ↔ s.Registered k n := registered_modify (fun t _ => by simp)
    obtain ⟨c₁, hc₁, hpc₁⟩ : ∃ c₁, (s.modify j (fun t => t.write (rendezvousWith c) ok)).sessions[i]?
        = some c₁ ∧ c₁.pc = .notifying j := by
      by_cases hij : i = j
      · subst hij
        rw [getElem?_modify_self, hc]
        exact ⟨_, rfl, by rw [Session.write_pc]; exact hpc⟩
      · rw [getElem?_modify_of_ne s hij]
        exact ⟨c, hc, hpc⟩
    have hmove := registered_move (f := Session.notified target ok) hc₁ (hne hpc₁ nofun) rfl nofun
    exact (hmove k n).trans (hwrite k n)
  | reply ok hc hpc =>
    refine Or.inr (Or.inr ⟨nofun, nofun, rfl, registered_move hc (hne hpc nofun) ?_ nofun⟩)
    exact Session.write_nodeID _ _ _
  | readError hc hpc =>
    exact Or.inr (Or.inr ⟨nofun, nofun, rfl, registered_move hc (hne hpc nofun) rfl nofun⟩)
  | deregister hc hpc => exact Or.inr (Or.inl ⟨_, _, rfl, hc, rfl, registered_deregister hc⟩)

/-! ## §5. One connection under the steps of all. -/

/-- What a step does to connection `i`, if it does anything. -/
inductive Moves (s : Server) (i : Nat) (c : Session) : Act → Session → Prop
  | confirm (ok : Bool) (hpc : c.pc = .registered) : Moves s i c (.confirm i ok) (c.confirm ok)
  | read (env : Envelope) (hpc : c.pc = .serving) :
      Moves s i c (.read i env) { c with pc := afterRead env }
  | lookup {target : NodeID} (hpc : c.pc = .lookingUp target) :
      Moves s i c (.lookup i) { c with pc := s.lookupTarget target }
  | notify {j : Nat} {target : Session} (ok : Bool) (hpc : c.pc = .notifying j) (hij : i ≠ j)
      (ht : s.sessions[j]? = some target) : Moves s i c (.notify i ok) (Session.notified target ok c)
  /-- The connection has asked for its own node. -/
  | notifySelf (ok : Bool) (hpc : c.pc = .notifying i) :
      Moves s i c (.notify i ok) (Session.notified c ok (c.write (rendezvousWith c) ok))
  /-- Another connection has asked for this one. -/
  | told {k : Nat} {d : Session} (ok : Bool) (hik : i ≠ k) (hd : s.sessions[k]? = some d)
      (hpc : d.pc = .notifying i) : Moves s i c (.notify k ok) (c.write (rendezvousWith d) ok)
  | reply {env : Envelope} (ok : Bool) (hpc : c.pc = .replying env) :
      Moves s i c (.reply i ok) { c.write env ok with pc := .serving }
  | readError (hpc : c.pc = .serving) : Moves s i c (.readError i) { c with pc := .leaving }
  | deregister (hpc : c.pc = .leaving) : Moves s i c (.deregister i) { c with pc := .gone }

theorem getElem?_modify_cases {s : Server} {i j : Nat} {f : Session → Session} {d d' : Session}
    (hd : s.sessions[j]? = some d) (h : (s.modify j f).sessions[i]? = some d') :
    (i = j ∧ d' = f d) ∨ (i ≠ j ∧ s.sessions[i]? = some d') := by
  by_cases hij : i = j
  · subst hij
    rw [getElem?_modify_self, hd] at h
    exact Or.inl ⟨rfl, (Option.some.inj h).symm⟩
  · rw [getElem?_modify_of_ne s hij] at h
    exact Or.inr ⟨hij, h⟩

/-- **Where a connection comes from**: it is new, or it was there before and the step
left it alone or moved it. -/
theorem Step.session {s s' : Server} {a : Act} (hs : Step s a s') {i : Nat} {c' : Session}
    (hc' : s'.sessions[i]? = some c') :
    (∃ extIP env, a = .accept extIP env ∧ newEntry extIP env = some c' ∧ i = s.sessions.length)
    ∨ ∃ c, s.sessions[i]? = some c ∧ (c' = c ∨ Moves s i c a c') := by
  -- the one connection a step writes to, put back at its place
  have hmod : ∀ {j : Nat} {d : Session} {f : Session → Session}, s.sessions[j]? = some d →
      (s.modify j f).sessions[i]? = some c' → (i = j → Moves s j d a (f d)) →
      ∃ c, s.sessions[i]? = some c ∧ (c' = c ∨ Moves s i c a c') := by
    intro j d f hd hf hm
    rcases getElem?_modify_cases hd hf with ⟨hij, rfl⟩ | ⟨_, hold⟩
    · subst hij
      exact ⟨d, hd, Or.inr (hm rfl)⟩
    · exact ⟨c', hold, Or.inl rfl⟩
  cases hs with
  | @accept extIP env c hentry =>
    rcases getElem?_concat_cases (l := s.sessions) hc' with ⟨hi, rfl⟩ | hold
    · exact Or.inl ⟨extIP, env, rfl, hentry, hi⟩
    · exact Or.inr ⟨c', hold, Or.inl rfl⟩
  | refuse hentry => exact Or.inr ⟨c', hc', Or.inl rfl⟩
  | confirm ok hc hpc => exact Or.inr (hmod hc hc' (fun _ => .confirm ok hpc))
  | read env hc hpc => exact Or.inr (hmod hc hc' (fun _ => .read env hpc))
  | lookup hc hpc => exact Or.inr (hmod hc hc' (fun _ => .lookup hpc))
  | @notify k j d target ok hd hpc ht =>
    right
    by_cases hjk : k = j
    · -- it is its own target
      subst hjk
      rw [hd] at ht
      rw [← Option.some.inj ht] at hc'
      have hmid : (s.modify k (fun t => t.write (rendezvousWith d) ok)).sessions[k]?
          = some (d.write (rendezvousWith d) ok) := by
        rw [getElem?_modify_self, hd]
        rfl
      rcases getElem?_modify_cases hmid hc' with ⟨rfl, rfl⟩ | ⟨hik, hold⟩
      · exact ⟨d, hd, Or.inr (.notifySelf ok hpc)⟩
      · rw [getElem?_modify_of_ne s hik] at hold
        exact ⟨c', hold, Or.inl rfl⟩
    · have hmid : (s.modify j (fun t => t.write (rendezvousWith d) ok)).sessions[k]? = some d := by
        rw [getElem?_modify_of_ne s hjk]
        exact hd
      rcases getElem?_modify_cases hmid hc' with ⟨rfl, rfl⟩ | ⟨hik, hold⟩
      · exact ⟨d, hd, Or.inr (.notify ok hpc hjk ht)⟩
      · rcases getElem?_modify_cases ht hold with ⟨rfl, rfl⟩ | ⟨_, hold⟩
        · exact ⟨target, ht, Or.inr (.told ok hik hd hpc)⟩
        · exact ⟨c', hold, Or.inl rfl⟩
  | reply ok hc hpc => exact Or.inr (hmod hc hc' (fun _ => .reply ok hpc))
  | readError hc hpc => exact Or.inr (hmod hc hc' (fun _ => .readError hpc))
  | deregister hc hpc => exact Or.inr (hmod hc hc' (fun _ => .deregister hpc))

theorem rendezvousWith_write (c : Session) (env : Envelope) (ok : Bool) :
    rendezvousWith (c.write env ok) = rendezvousWith c := by
  unfold Session.write
  split <;> rfl

/-- The connection whose `Serve` call makes the step. -/
def Act.by : Act → Option Nat
  | .accept _ _ => none
  | .confirm i _ | .read i _ | .lookup i | .notify i _ | .reply i _ | .readError i
  | .deregister i => some i

/-- What is said about a connection never changes. -/
theorem Moves.same {s : Server} {i : Nat} {c c' : Session} {a : Act} (hm : Moves s i c a c') :
    rendezvousWith c' = rendezvousWith c := by
  cases hm with
  | confirm ok hpc | notifySelf ok hpc | told ok hik hd hpc | reply ok hpc =>
    exact rendezvousWith_write c _ ok
  | _ => rfl

/-- A connection keeps its place in the relay's list. -/
theorem Step.length_le {s s' : Server} {a : Act} (hs : Step s a s') :
    s.sessions.length ≤ s'.sessions.length := by
  cases hs <;> simp [Server.register, Server.modify]

end Kin.Relay

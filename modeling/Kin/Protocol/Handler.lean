/-
  Kin.Protocol.Handler

  **THE PEER CONNECTION HANDLER** (`internal/protocol/handler.go`) as a system
  of concurrent calls.

  One handler serves any number of connections.  Every `Serve` call registers
  its connection, lists and sends the initial catalog offer, then reads and
  answers messages until it returns.  Every watcher callback changes the
  catalog and then broadcasts: it takes a snapshot of the registry and, for
  each connection of the snapshot, lists the catalog and sends an offer.

  A step is what runs under one lock: registering, one listing (a read
  transaction), one `Send` on a connection, one write of the catalog.  Between
  two steps of one call any other call may run.

  The transport takes every message the framing accepts.
-/
import Kin.Lib.Run
import Kin.Protocol.Exchange
import Kin.Protocol.Framing
import Kin.Transfer.Sender

namespace Kin.Protocol

open Kin.Lib Kin.Catalog Kin.Kinpb Kin.Transfer

/-! ## §1. Calls and their state. -/

/-- Where a `Serve` call stands. -/
inductive ServePC where
  /-- `registerConn` is done, the initial offer is not listed yet. -/
  | registered
  /-- The initial offer is listed (at the given catalog version), not sent yet. -/
  | listed (offer : CatalogOffer) (stamp : Nat)
  /-- In the loop, about to `Recv`. -/
  | reading
  /-- Answering: the messages still to be sent. -/
  | sending (rest : List Envelope)
  /-- `unregisterConn` is done. -/
  | returned
  deriving DecidableEq

/-- The messages of the current answer that are still to be sent. -/
def ServePC.rest : ServePC → List Envelope
  | .sending rest => rest
  | _ => []

/-- One `Serve` call with its connection. -/
structure ServeCall where
  peer : NodeID
  pc : ServePC
  /-- What `Recv` has returned. -/
  received : List Envelope
  /-- What the connection has been sent. -/
  sent : List Envelope
  /-- History: the catalog version when the connection was registered. -/
  since : Nat
  /-- History: the catalog version of the last offer sent. -/
  newest : Option Nat

/-- One watcher callback, from its change of the catalog on. -/
inductive Cast where
  /-- The catalog is changed, `BroadcastCatalog` has not taken its snapshot. -/
  | changed
  /-- Connections of the snapshot that are still to be served. -/
  | sending (targets : List Nat)
  /-- The offer for one connection is listed, not sent yet. -/
  | listed (target : Nat) (offer : CatalogOffer) (stamp : Nat) (targets : List Nat)
  deriving DecidableEq

structure Handler where
  catalog : Store
  /-- History: how many times the catalog has been changed. -/
  version : Nat
  sender : Sender
  /-- `conns`: the registered connection of each peer, by its `Serve` call. -/
  conns : GoMap NodeID Nat
  calls : List ServeCall
  casts : List Cast

/-- `NewHandler`. -/
def Handler.new (catalog : Store) (sender : Sender) : Handler := ⟨catalog, 0, sender, ∅, [], []⟩

/-! ## §2. What the calls do. -/

def offerMsg (offer : CatalogOffer) : Envelope := ⟨some (.catalogOffer offer)⟩

def ServeCall.send (env : Envelope) (c : ServeCall) : ServeCall :=
  if accepts env then { c with sent := c.sent ++ [env] } else c

/-- The second half of `sendCatalogOfferTo`. -/
def ServeCall.sendOffer (offer : CatalogOffer) (stamp : Nat) (c : ServeCall) : ServeCall :=
  if accepts (offerMsg offer) then
    { c with sent := c.sent ++ [offerMsg offer], newest := some stamp }
  else c

def ServePC.afterSend : List Envelope → ServePC
  | [] => .reading
  | env :: rest => .sending (env :: rest)

/-- Send the next message of an answer; an error ends the answer. -/
def ServeCall.sendNext (env : Envelope) (rest : List Envelope) (c : ServeCall) : ServeCall :=
  if accepts env then { c.send env with pc := .afterSend rest } else { c with pc := .reading }

def handleFileRequest (sender : Sender) (req : FileRequest) : List Envelope :=
  match Bytes.ofList? 32 req.fileId with
  | none => [⟨some (.error ⟨ascii "bad_request", ascii "file_id must be 32 bytes"⟩)⟩]
  | some fileID => (sender.handleRequest fileID).1

/-- `dispatch`: the catalog afterwards, and the messages to answer with. -/
def Handler.dispatch (h : Handler) (peer : NodeID) (clk : Clock) (env : Envelope) :
    Store × List Envelope :=
  match env.payload with
  | some (.fileRequest req) => (h.catalog, handleFileRequest h.sender req)
  | some (.catalogOffer offer) =>
    match handleCatalogOffer h.catalog clk peer offer with
    | (s, .ok ack) => (s, [ack])
    | (s, .error _) => (s, [])
  -- an offer that cannot be stored is not acknowledged;
  -- an ack is only logged, anything else is an unhandled message type
  | _ => (h.catalog, [])

/-- An offer received may change the catalog. -/
def versionAfter (version : Nat) (env : Envelope) : Nat :=
  match env.payload with
  | some (.catalogOffer _) => version + 1
  | _ => version

/-- `registerConn`: the connection of the new call replaces the peer's. -/
def Handler.register (h : Handler) (peer : NodeID) : Handler :=
  { h with
    conns := h.conns.insert peer h.calls.length
    calls := h.calls ++ [⟨peer, .registered, [], [], h.version, none⟩] }

def Handler.setCall (h : Handler) (i : Nat) (c : ServeCall) : Handler :=
  { h with calls := h.calls.set i c }

def Handler.setCast (h : Handler) (b : Nat) (cast : Cast) : Handler :=
  { h with casts := h.casts.set b cast }

/-- The connections in the registry, as a snapshot takes them. -/
def Handler.snapshot (h : Handler) : List Nat := h.conns.entries.map Sigma.snd

/-! ## §3. Steps. -/

inductive Act where
  /-- A `Serve` call for a connection of the peer starts and registers it. -/
  | serve (peer : NodeID)
  /-- A `Serve` call lists its initial offer. -/
  | listOffer (i : Nat)
  | sendOffer (i : Nat)
  /-- `Recv` returns a message and `dispatch` starts. -/
  | recv (i : Nat) (clk : Clock) (env : Envelope)
  /-- The next message of an answer is sent. -/
  | sendNext (i : Nat)
  /-- An answer is given up: the context is cancelled, or the file cannot be read on. -/
  | interrupt (i : Nat)
  /-- A `Serve` call returns and unregisters its peer. -/
  | ret (i : Nat)
  /-- A watcher callback changes the catalog. -/
  | change (op : Op)
  /-- A callback's `BroadcastCatalog` takes its snapshot. -/
  | snapshot (b : Nat)
  /-- A broadcast lists the catalog for one of its connections. -/
  | castList (b : Nat) (target : Nat)
  | castSend (b : Nat)
  /-- The index or the file system changes. -/
  | files (sender : Sender)

/-- One step of one call. -/
inductive Step (h : Handler) : Act → Handler → Prop
  | serve (peer : NodeID) : Step h (.serve peer) (h.register peer)
  | listOffer {i : Nat} {c : ServeCall} (hc : h.calls[i]? = some c) (hpc : c.pc = .registered) :
      Step h (.listOffer i)
        (h.setCall i { c with pc := .listed (catalogOfferFor h.catalog c.peer) h.version })
  | sendOffer {i : Nat} {c : ServeCall} {offer : CatalogOffer} {stamp : Nat}
      (hc : h.calls[i]? = some c) (hpc : c.pc = .listed offer stamp) :
      Step h (.sendOffer i) (h.setCall i { c.sendOffer offer stamp with pc := .reading })
  | recv {i : Nat} {c : ServeCall} (clk : Clock) (env : Envelope) (hc : h.calls[i]? = some c)
      (hpc : c.pc = .reading) :
      Step h (.recv i clk env)
        { h.setCall i
            { c with
              pc := .afterSend (h.dispatch c.peer clk env).2
              received := c.received ++ [env] } with
          catalog := (h.dispatch c.peer clk env).1
          version := versionAfter h.version env }
  | sendNext {i : Nat} {c : ServeCall} {env : Envelope} {rest : List Envelope}
      (hc : h.calls[i]? = some c) (hpc : c.pc = .sending (env :: rest)) :
      Step h (.sendNext i) (h.setCall i (c.sendNext env rest))
  | interrupt {i : Nat} {c : ServeCall} {rest : List Envelope} (hc : h.calls[i]? = some c)
      (hpc : c.pc = .sending rest) : Step h (.interrupt i) (h.setCall i { c with pc := .reading })
  | ret {i : Nat} {c : ServeCall} (hc : h.calls[i]? = some c) (hpc : c.pc = .reading) :
      Step h (.ret i)
        { h.setCall i { c with pc := .returned } with conns := h.conns.erase c.peer }
  | change {op : Op} (hok : op.err h.catalog = none) :
      Step h (.change op)
        { h with
          catalog := op.apply h.catalog
          version := h.version + 1
          casts := h.casts ++ [.changed] }
  | changeFailed {op : Op} {err : String} (hfail : op.err h.catalog = some err) :
      Step h (.change op) h
  | snapshot {b : Nat} (hb : h.casts[b]? = some .changed) :
      Step h (.snapshot b) (h.setCast b (.sending h.snapshot))
  | castList {b t : Nat} {targets : List Nat} {c : ServeCall}
      (hb : h.casts[b]? = some (.sending targets)) (ht : t ∈ targets)
      (hc : h.calls[t]? = some c) :
      Step h (.castList b t)
        (h.setCast b
          (.listed t (catalogOfferFor h.catalog c.peer) h.version (targets.erase t)))
  | castSend {b t : Nat} {offer : CatalogOffer} {stamp : Nat} {targets : List Nat} {c : ServeCall}
      (hb : h.casts[b]? = some (.listed t offer stamp targets)) (hc : h.calls[t]? = some c) :
      Step h (.castSend b) ((h.setCall t (c.sendOffer offer stamp)).setCast b (.sending targets))
  | files (sender : Sender) : Step h (.files sender) { h with sender := sender }

/-- The step of an action, if it is enabled. -/
def step (h : Handler) : Act → Option Handler
  | .serve peer => some (h.register peer)
  | .listOffer i =>
    match h.calls[i]? with
    | some c =>
      match c.pc with
      | .registered =>
        some (h.setCall i
          { c with pc := .listed (catalogOfferFor h.catalog c.peer) h.version })
      | _ => none
    | none => none
  | .sendOffer i =>
    match h.calls[i]? with
    | some c =>
      match c.pc with
      | .listed offer stamp =>
        some (h.setCall i { c.sendOffer offer stamp with pc := .reading })
      | _ => none
    | none => none
  | .recv i clk env =>
    match h.calls[i]? with
    | some c =>
      match c.pc with
      | .reading =>
        some { h.setCall i
          { c with
            pc := .afterSend (h.dispatch c.peer clk env).2
            received := c.received ++ [env] } with
          catalog := (h.dispatch c.peer clk env).1
          version := versionAfter h.version env }
      | _ => none
    | none => none
  | .sendNext i =>
    match h.calls[i]? with
    | some c =>
      match c.pc with
      | .sending (env :: rest) => some (h.setCall i (c.sendNext env rest))
      | _ => none
    | none => none
  | .interrupt i =>
    match h.calls[i]? with
    | some c =>
      match c.pc with
      | .sending _ => some (h.setCall i { c with pc := .reading })
      | _ => none
    | none => none
  | .ret i =>
    match h.calls[i]? with
    | some c =>
      match c.pc with
      | .reading =>
        some { h.setCall i { c with pc := .returned } with conns := h.conns.erase c.peer }
      | _ => none
    | none => none
  | .change op =>
    match op.err h.catalog with
    | none =>
      some { h with
        catalog := op.apply h.catalog
        version := h.version + 1
        casts := h.casts ++ [.changed] }
    | some _ => some h
  | .snapshot b =>
    match h.casts[b]? with
    | some .changed => some (h.setCast b (.sending h.snapshot))
    | _ => none
  | .castList b t =>
    match h.casts[b]?, h.calls[t]? with
    | some (.sending targets), some c =>
      if t ∈ targets then
        some (h.setCast b
          (.listed t (catalogOfferFor h.catalog c.peer) h.version (targets.erase t)))
      else none
    | _, _ => none
  | .castSend b =>
    match h.casts[b]? with
    | some (.listed t offer stamp targets) =>
      match h.calls[t]? with
      | some c => some ((h.setCall t (c.sendOffer offer stamp)).setCast b (.sending targets))
      | none => none
    | _ => none
  | .files sender => some { h with sender := sender }

/-- **What a step can do.** -/
theorem step_sound {h h' : Handler} {a : Act} (hs : step h a = some h') : Step h a h' := by
  cases a with
  | serve peer =>
    cases hs
    exact .serve peer
  | listOffer i =>
    simp only [step] at hs
    split at hs
    next c hc =>
      split at hs
      next hpc =>
        cases hs
        exact .listOffer hc hpc
      next => cases hs
    next => cases hs
  | sendOffer i =>
    simp only [step] at hs
    split at hs
    next c hc =>
      split at hs
      next offer stamp hpc =>
        cases hs
        exact .sendOffer hc hpc
      next => cases hs
    next => cases hs
  | recv i clk env =>
    simp only [step] at hs
    split at hs
    next c hc =>
      split at hs
      next hpc =>
        cases hs
        exact .recv clk env hc hpc
      next => cases hs
    next => cases hs
  | sendNext i =>
    simp only [step] at hs
    split at hs
    next c hc =>
      split at hs
      next env rest hpc =>
        cases hs
        exact .sendNext hc hpc
      next => cases hs
    next => cases hs
  | interrupt i =>
    simp only [step] at hs
    split at hs
    next c hc =>
      split at hs
      next rest hpc =>
        cases hs
        exact .interrupt hc hpc
      next => cases hs
    next => cases hs
  | ret i =>
    simp only [step] at hs
    split at hs
    next c hc =>
      split at hs
      next hpc =>
        cases hs
        exact .ret hc hpc
      next => cases hs
    next => cases hs
  | change op =>
    simp only [step] at hs
    split at hs
    next hok =>
      cases hs
      exact .change hok
    next err hfail =>
      cases hs
      exact .changeFailed hfail
  | snapshot b =>
    simp only [step] at hs
    split at hs
    next hb =>
      cases hs
      exact .snapshot hb
    next => cases hs
  | castList b t =>
    simp only [step] at hs
    split at hs
    next targets c hb hc =>
      split at hs
      next ht =>
        cases hs
        exact .castList hb ht hc
      next => cases hs
    next => cases hs
  | castSend b =>
    simp only [step] at hs
    split at hs
    next t offer stamp targets hb =>
      split at hs
      next c hc =>
        cases hs
        exact .castSend hb hc
      next => cases hs
    next => cases hs
  | files sender =>
    cases hs
    exact .files sender

/-! ## §4. One call under the steps of all. -/

/-- What a step does to the call with number `i`, if it does anything. -/
inductive Moves (h : Handler) (i : Nat) (c : ServeCall) : Act → ServeCall → Prop
  | listOffer (hpc : c.pc = .registered) :
      Moves h i c (.listOffer i)
        { c with pc := .listed (catalogOfferFor h.catalog c.peer) h.version }
  | sendOffer {offer : CatalogOffer} {stamp : Nat} (hpc : c.pc = .listed offer stamp) :
      Moves h i c (.sendOffer i) { c.sendOffer offer stamp with pc := .reading }
  | recv (clk : Clock) (env : Envelope) (hpc : c.pc = .reading) :
      Moves h i c (.recv i clk env)
        { c with
          pc := .afterSend (h.dispatch c.peer clk env).2
          received := c.received ++ [env] }
  | sendNext {env : Envelope} {rest : List Envelope} (hpc : c.pc = .sending (env :: rest)) :
      Moves h i c (.sendNext i) (c.sendNext env rest)
  | interrupt {rest : List Envelope} (hpc : c.pc = .sending rest) :
      Moves h i c (.interrupt i) { c with pc := .reading }
  | ret (hpc : c.pc = .reading) : Moves h i c (.ret i) { c with pc := .returned }
  | castSend {b : Nat} {offer : CatalogOffer} {stamp : Nat} {targets : List Nat}
      (hb : h.casts[b]? = some (.listed i offer stamp targets)) :
      Moves h i c (.castSend b) (c.sendOffer offer stamp)

/-- A call as `registerConn` leaves it. -/
def ServeCall.fresh (peer : NodeID) (version : Nat) : ServeCall :=
  ⟨peer, .registered, [], [], version, none⟩

/-- **Where a call comes from**: it is new, or it was there before and the
step left it alone or moved it. -/
theorem Step.call {h h' : Handler} {a : Act} (hs : Step h a h') {i : Nat} {c' : ServeCall}
    (hc' : h'.calls[i]? = some c') :
    (∃ peer, a = .serve peer ∧ i = h.calls.length ∧ c' = ServeCall.fresh peer h.version)
    ∨ ∃ c, h.calls[i]? = some c ∧ (c' = c ∨ Moves h i c a c') := by
  -- the one call a step writes to, put back at its place
  have hset : ∀ {j : Nat} {c x : ServeCall}, h.calls[j]? = some c →
      (h.calls.set j x)[i]? = some c' → (i = j → Moves h j c a x) →
      ∃ c, h.calls[i]? = some c ∧ (c' = c ∨ Moves h i c a c') := by
    intro j c x hc hx hm
    rcases getElem?_set_cases hx with ⟨hij, hcx⟩ | ⟨_, hold⟩
    · refine ⟨c, hij ▸ hc, Or.inr ?_⟩
      rw [hcx, hij]
      exact hm hij
    · exact ⟨c', hold, Or.inl rfl⟩
  cases hs with
  | serve peer =>
    have hnew : (h.calls ++ [ServeCall.fresh peer h.version])[i]? = some c' := hc'
    rcases getElem?_concat_cases hnew with ⟨hi, hc'⟩ | hold
    · exact Or.inl ⟨peer, rfl, hi, hc'⟩
    · exact Or.inr ⟨c', hold, Or.inl rfl⟩
  | listOffer hc hpc => exact Or.inr (hset hc hc' (fun _ => .listOffer hpc))
  | sendOffer hc hpc => exact Or.inr (hset hc hc' (fun _ => .sendOffer hpc))
  | recv clk env hc hpc => exact Or.inr (hset hc hc' (fun _ => .recv clk env hpc))
  | sendNext hc hpc => exact Or.inr (hset hc hc' (fun _ => .sendNext hpc))
  | interrupt hc hpc => exact Or.inr (hset hc hc' (fun _ => .interrupt hpc))
  | ret hc hpc => exact Or.inr (hset hc hc' (fun _ => .ret hpc))
  | change hok | changeFailed hfail | snapshot hb | castList hb ht hc =>
    exact Or.inr ⟨c', hc', Or.inl rfl⟩
  | castSend hb hc => exact Or.inr (hset hc hc' (fun _ => .castSend hb))
  | files sender => exact Or.inr ⟨c', hc', Or.inl rfl⟩

/-- A call stays where it is. -/
theorem Step.call_persists {h h' : Handler} {a : Act} (hs : Step h a h') {i : Nat} {c : ServeCall}
    (hc : h.calls[i]? = some c) : ∃ c', h'.calls[i]? = some c' ∧ (c' = c ∨ Moves h i c a c') := by
  -- calls are appended and replaced, never removed
  have hlen : h.calls.length ≤ h'.calls.length := by
    cases hs <;> simp [Handler.register, Handler.setCall, Handler.setCast]
  have hi : i < h'.calls.length := Nat.lt_of_lt_of_le (List.getElem?_eq_some_iff.mp hc).1 hlen
  refine ⟨h'.calls[i], List.getElem?_eq_getElem hi, ?_⟩
  rcases hs.call (List.getElem?_eq_getElem hi) with ⟨peer, _, hi', _⟩ | ⟨c₀, hc₀, hmove⟩
  · have := (List.getElem?_eq_some_iff.mp hc).1
    omega
  · rw [hc] at hc₀
    rw [Option.some.inj hc₀]
    exact hmove

/-! ## §5. What a move keeps. -/

section Fields

variable (c : ServeCall) (offer : CatalogOffer) (stamp : Nat)

@[simp] theorem ServeCall.sendOffer_peer : (c.sendOffer offer stamp).peer = c.peer := by
  unfold sendOffer
  split <;> rfl

@[simp] theorem ServeCall.sendOffer_pc : (c.sendOffer offer stamp).pc = c.pc := by
  unfold sendOffer
  split <;> rfl

@[simp] theorem ServeCall.sendOffer_since : (c.sendOffer offer stamp).since = c.since := by
  unfold sendOffer
  split <;> rfl

@[simp] theorem ServeCall.sendOffer_received :
    (c.sendOffer offer stamp).received = c.received := by
  unfold sendOffer
  split <;> rfl

end Fields

/-- The peer of a call and the version it registered at never change. -/
theorem Moves.peer_since {h : Handler} {i : Nat} {c c' : ServeCall} {a : Act}
    (hm : Moves h i c a c') : c'.peer = c.peer ∧ c'.since = c.since := by
  cases hm with
  | listOffer hpc => exact ⟨rfl, rfl⟩
  | sendOffer hpc => exact ⟨c.sendOffer_peer _ _, c.sendOffer_since _ _⟩
  | recv clk env hpc => exact ⟨rfl, rfl⟩
  | sendNext hpc =>
    unfold ServeCall.sendNext ServeCall.send
    split <;> exact ⟨rfl, rfl⟩
  | interrupt hpc => exact ⟨rfl, rfl⟩
  | ret hpc => exact ⟨rfl, rfl⟩
  | castSend hb => exact ⟨c.sendOffer_peer _ _, c.sendOffer_since _ _⟩

/-- Only returning makes a call a returned one, and it stays returned. -/
theorem Moves.returned_iff {h : Handler} {i : Nat} {c c' : ServeCall} {a : Act}
    (hm : Moves h i c a c') : c'.pc = .returned ↔ c.pc = .returned ∨ a = .ret i := by
  cases hm with
  | listOffer hpc => simp [hpc]
  | sendOffer hpc => simp [hpc]
  | recv clk env hpc =>
    unfold ServePC.afterSend
    split <;> simp [hpc]
  | sendNext hpc =>
    unfold ServeCall.sendNext ServePC.afterSend
    split
    · split <;> simp [hpc]
    · simp [hpc]
  | interrupt hpc => simp [hpc]
  | ret hpc => simp
  | castSend hb => simp

/-! ## §6. One broadcast under the steps of all. -/

/-- What a step does to the broadcast with number `b`, if it does anything. -/
inductive CastMoves (h : Handler) (b : Nat) : Option Cast → Act → Cast → Prop
  | start (op : Op) : CastMoves h b none (.change op) .changed
  | snapshot : CastMoves h b (some .changed) (.snapshot b) (.sending h.snapshot)
  | castList {t : Nat} {targets : List Nat} {c : ServeCall} (ht : t ∈ targets)
      (hc : h.calls[t]? = some c) :
      CastMoves h b (some (.sending targets)) (.castList b t)
        (.listed t (catalogOfferFor h.catalog c.peer) h.version (targets.erase t))
  | castSend {t : Nat} {offer : CatalogOffer} {stamp : Nat} {targets : List Nat} :
      CastMoves h b (some (.listed t offer stamp targets)) (.castSend b) (.sending targets)

theorem Step.cast {h h' : Handler} {a : Act} (hs : Step h a h') {b : Nat} {x : Cast}
    (hx : h'.casts[b]? = some x) : h.casts[b]? = some x ∨ CastMoves h b (h.casts[b]?) a x := by
  have hset : ∀ {d : Nat} {y z : Cast}, h.casts[d]? = some y → (h.casts.set d z)[b]? = some x →
      CastMoves h d (some y) a z → h.casts[b]? = some x ∨ CastMoves h b (h.casts[b]?) a x := by
    intro d y z hy hz hm
    rcases getElem?_set_cases hz with ⟨rfl, rfl⟩ | ⟨_, hold⟩
    · rw [hy]
      exact Or.inr hm
    · exact Or.inl hold
  cases hs with
  | @change op hok =>
    rcases getElem?_concat_cases (l := h.casts) hx with ⟨hb, rfl⟩ | hold
    · rw [List.getElem?_eq_none (Nat.le_of_eq hb.symm)]
      exact Or.inr (.start op)
    · exact Or.inl hold
  | snapshot hb => exact hset hb hx .snapshot
  | castList hb ht hc => exact hset hb hx (.castList ht hc)
  | castSend hb hc => exact hset hb hx .castSend
  | _ => exact Or.inl hx

end Kin.Protocol

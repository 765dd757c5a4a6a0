/-
  Kin.Relay.Client

  **THE RELAY CLIENT** (`internal/relay/client.go`) as a system of concurrent
  calls.

  `RequestRendezvous` and `WaitForRendezvous` put a waiter's channel into
  `pending`, wait for a message or the channel's closing, and take the entry
  out again; `readLoop` hands each message to a waiter or to `incoming`.  Three
  paths set `closed` and close every channel: `Close`, a read error, and a
  `RelayError` for any one request.  Only `Close` closes the connection, and
  only when it is the one that set `closed`.

  A step is what runs under `mu`, or one channel operation.
-/
import Kin.Kinpb.Messages

namespace Kin.RelayClient

open Kin.Lib Kin.Kinpb

/-! ## §1. Channels, waiters and the client. -/

structure RendezvousInfo where
  peerNodeID : NodeID
  peerPublicKey : GoString
  peerExternalAddr : GoString
  deriving DecidableEq, Repr

def errRelayDisconnected : String := "relay: connection lost"

/-- A waiter's channel, of capacity one. -/
structure Chan where
  buf : Option RelayRendezvous
  closed : Bool
  deriving DecidableEq

/-- Where a `RequestRendezvous` or `WaitForRendezvous` call stands. -/
inductive WaiterPC where
  /-- In `pending`, `RelayConnect` not written yet. -/
  | registered (ch : Nat)
  | waiting (ch : Nat)
  /-- The result is known, the deferred removal from `pending` is not done.  An
  error of a `WaitForRendezvous` call is its result channel closed without a value. -/
  | leaving (res : Except String RendezvousInfo)
  | done (res : Except String RendezvousInfo)

structure Waiter where
  target : NodeID
  pc : WaiterPC

structure Client where
  /-- `pending`: the waiter's channel for each target. -/
  pending : GoMap NodeID Nat
  chans : List Chan
  incoming : List RendezvousInfo
  incomingClosed : Bool
  closed : Bool
  /-- `readLoop` is running. -/
  reading : Bool
  waiters : List Waiter
  /-- How many times the connection has been closed. -/
  connCloses : Nat
  /-- A channel was closed twice, or sent on after closing. -/
  panicked : Bool
  /-- History: `readLoop` is the one that set `closed`. -/
  tornDown : Bool
  /-- History: the `Close` calls that have returned. -/
  closeReturned : Nat

/-- The client `Connect` returns. -/
def Client.new : Client := ⟨∅, [], [], false, false, true, [], 0, false, false, 0⟩

/-- Slots of the `incoming` channel. -/
def incomingCap : Nat := 16

/-! ## §2. Teardown. -/

def Client.closeChan (c : Client) (i : Nat) : Client :=
  { c with
    chans := c.chans.modify i (fun ch => { ch with closed := true })
    panicked := c.panicked || ((c.chans[i]?).map Chan.closed).getD false }

/-- `closeLocked`: whether this call did the teardown. -/
def Client.closeLocked (c : Client) : Client × Bool :=
  if c.closed then (c, false)
  else
    -- every waiter is woken, whichever request the teardown is about
    let c' := c.pending.entries.foldl (fun c e => c.closeChan e.2) c
    ({ c' with
        closed := true
        pending := ∅
        incomingClosed := true
        panicked := c'.panicked || c.incomingClosed }, true)

/-- `closeAllPending`, on `readLoop`'s side. -/
def Client.closeAllPending (c : Client) : Client :=
  let (c', did) := c.closeLocked
  { c' with tornDown := c.tornDown || did }

def Client.close (c : Client) : Client :=
  let (c', did) := c.closeLocked
  { c' with
    connCloses := c.connCloses + (if did then 1 else 0)
    closeReturned := c.closeReturned + 1 }

/-! ## §3. Dispatching messages. -/

def rendezvousFromProto (peerID : NodeID) (rv : RelayRendezvous) : RendezvousInfo :=
  ⟨peerID, rv.peerPublicKey, rv.peerExternalAddr⟩

/-- A send that gives up when the buffer is full. -/
def Client.trySend (c : Client) (i : Nat) (rv : RelayRendezvous) : Client :=
  match c.chans[i]? with
  | none => c
  | some ch =>
    if ch.closed then { c with panicked := true }
    else if ch.buf = none then { c with chans := c.chans.set i { ch with buf := some rv } }
    else c

def Client.dispatchRendezvous (c : Client) (rv : RelayRendezvous) : Client :=
  match Bytes.ofList? 32 rv.peerNodeId with
  | none => c
  | some peerID =>
    match c.pending.lookup peerID with
    | some ch => c.trySend ch rv
    | none =>
      -- nobody waits for this peer
      if c.closed then c
      else if c.incomingClosed then { c with panicked := true }
      else if c.incoming.length < incomingCap then
        { c with incoming := c.incoming ++ [rendezvousFromProto peerID rv] }
      else c

/-- One turn of `readLoop`. -/
def Client.readMsg (c : Client) : Except String Envelope → Client
  -- the loop ends; the connection is not closed here
  | .error _ => { c.closeAllPending with reading := false }
  | .ok env =>
    match env.payload with
    | some (.relayRendezvous rv) => c.dispatchRendezvous rv
    -- the loop goes on, on a client that is closed now
    | some (.relayError _) => c.closeAllPending
    | _ => c

/-! ## §4. Steps. -/

inductive Act where
  /-- A `RequestRendezvous` call starts. -/
  | request (target : NodeID)
  /-- A `WaitForRendezvous` call starts. -/
  | waitFor (target : NodeID)
  /-- `RelayConnect` is written, or fails to be with an error. -/
  | write (k : Nat) (err : Option String)
  /-- The call's context ends, for the given reason. -/
  | cancel (k : Nat) (err : String)
  /-- The call takes what its channel has: a message, or its closing. -/
  | receive (k : Nat)
  /-- The deferred removal from `pending`. -/
  | leave (k : Nat)
  | close
  /-- `ReadMsg` returns in `readLoop`. -/
  | read (msg : Except String Envelope)
  /-- A reader of `Incoming()` takes a value. -/
  | take

def Client.setPC (c : Client) (k : Nat) (pc : WaiterPC) : Client :=
  { c with waiters := c.waiters.modify k (fun w => { w with pc := pc }) }

/-- Put a new waiter into `pending`, unless the client is closed. -/
def Client.addWaiter (c : Client) (target : NodeID) (pc : Nat → WaiterPC) : Client :=
  if c.closed then
    { c with waiters := c.waiters ++ [⟨target, .done (.error errRelayDisconnected)⟩] }
  else
    { c with
      chans := c.chans ++ [⟨none, false⟩]
      pending := c.pending.insert target c.chans.length
      waiters := c.waiters ++ [⟨target, pc c.chans.length⟩] }

def afterWrite (ch : Nat) : Option String → WaiterPC
  | none => .waiting ch
  | some err => .leaving (.error ("relay connect request: " ++ err))

/-- The result of a message from the waiter's channel. -/
def received (rv : RelayRendezvous) : Except String RendezvousInfo :=
  match Bytes.ofList? 32 rv.peerNodeId with
  | none => .error "relay: invalid rendezvous peer_node_id length"
  | some peerID => .ok (rendezvousFromProto peerID rv)

def step (c : Client) : Act → Option Client
  | .request target => some (c.addWaiter target .registered)
  | .waitFor target => some (c.addWaiter target .waiting)
  | .write k err =>
    match (c.waiters[k]?).map Waiter.pc with
    | some (.registered ch) => some (c.setPC k (afterWrite ch err))
    | _ => none
  | .cancel k err =>
    match (c.waiters[k]?).map Waiter.pc with
    | some (.waiting _) => some (c.setPC k (.leaving (.error err)))
    | _ => none
  | .receive k =>
    match (c.waiters[k]?).map Waiter.pc with
    | some (.waiting i) =>
      match c.chans[i]? with
      | some ⟨some rv, closed⟩ =>
        some ({ c with chans := c.chans.set i ⟨none, closed⟩ }.setPC k
          (.leaving (received rv)))
      | some ⟨none, true⟩ => some (c.setPC k (.leaving (.error errRelayDisconnected)))
      | _ => none
    | _ => none
  | .leave k =>
    match c.waiters[k]? with
    | some w =>
      match w.pc with
      | .leaving res => some ({ c with pending := c.pending.erase w.target }.setPC k (.done res))
      | _ => none
    | none => none
  | .close => some c.close
  | .read msg => if c.reading then some (c.readMsg msg) else none
  | .take =>
    match c.incoming with
    | [] => none
    | _ :: rest => some { c with incoming := rest }

/-- The step relation: what each step needs and what it leads to. -/
inductive Step (c : Client) : Act → Client → Prop
  | request (target : NodeID) : Step c (.request target) (c.addWaiter target .registered)
  | waitFor (target : NodeID) : Step c (.waitFor target) (c.addWaiter target .waiting)
  | write {k ch : Nat} {w : Waiter} (err : Option String) (hw : c.waiters[k]? = some w)
      (hpc : w.pc = .registered ch) : Step c (.write k err) (c.setPC k (afterWrite ch err))
  | cancel {k ch : Nat} {w : Waiter} (err : String) (hw : c.waiters[k]? = some w)
      (hpc : w.pc = .waiting ch) : Step c (.cancel k err) (c.setPC k (.leaving (.error err)))
  | receive {k i : Nat} {w : Waiter} {rv : RelayRendezvous} {closed : Bool}
      (hw : c.waiters[k]? = some w) (hpc : w.pc = .waiting i)
      (hch : c.chans[i]? = some ⟨some rv, closed⟩) :
      Step c (.receive k)
        ({ c with chans := c.chans.set i ⟨none, closed⟩ }.setPC k (.leaving (received rv)))
  | receiveClosed {k i : Nat} {w : Waiter} (hw : c.waiters[k]? = some w) (hpc : w.pc = .waiting i)
      (hch : c.chans[i]? = some ⟨none, true⟩) :
      Step c (.receive k) (c.setPC k (.leaving (.error errRelayDisconnected)))
  | leave {k : Nat} {w : Waiter} {res : Except String RendezvousInfo}
      (hw : c.waiters[k]? = some w) (hpc : w.pc = .leaving res) :
      Step c (.leave k) ({ c with pending := c.pending.erase w.target }.setPC k (.done res))
  | close : Step c .close c.close
  | read (msg : Except String Envelope) (hreading : c.reading = true) :
      Step c (.read msg) (c.readMsg msg)
  | take {info : RendezvousInfo} {rest : List RendezvousInfo} (hin : c.incoming = info :: rest) :
      Step c .take { c with incoming := rest }

/-- **What a step can do.** -/
theorem step_sound {c c' : Client} {a : Act} (hs : step c a = some c') : Step c a c' := by
  cases a with
  | request target =>
    cases hs
    exact .request target
  | waitFor target =>
    cases hs
    exact .waitFor target
  | write k err =>
    simp only [step] at hs
    split at hs
    next ch hpc =>
      obtain ⟨w, hw, hpc⟩ := Option.map_eq_some_iff.mp hpc
      cases hs
      exact .write err hw hpc
    next => cases hs
  | cancel k err =>
    simp only [step] at hs
    split at hs
    next ch hpc =>
      obtain ⟨w, hw, hpc⟩ := Option.map_eq_some_iff.mp hpc
      cases hs
      exact .cancel err hw hpc
    next => cases hs
  | receive k =>
    simp only [step] at hs
    split at hs
    next i hpc =>
      obtain ⟨w, hw, hpc⟩ := Option.map_eq_some_iff.mp hpc
      split at hs
      next rv closed hch =>
        cases hs
        exact .receive hw hpc hch
      next hch =>
        cases hs
        exact .receiveClosed hw hpc hch
      next => cases hs
    next => cases hs
  | leave k =>
    simp only [step] at hs
    split at hs
    next w hw =>
      split at hs
      next res hpc =>
        cases hs
        exact .leave hw hpc
      next => cases hs
    next => cases hs
  | close =>
    cases hs
    exact .close
  | read msg =>
    simp only [step] at hs
    split at hs
    next hreading =>
      cases hs
      exact .read msg hreading
    next => cases hs
  | take =>
    simp only [step] at hs
    split at hs
    next => cases hs
    next info rest hin =>
      cases hs
      exact .take hin

end Kin.RelayClient

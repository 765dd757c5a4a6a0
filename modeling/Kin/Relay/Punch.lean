/-
  Kin.Relay.Punch

  **IS A NODE REACHABLE WHILE IT DIALS OTHERS?**

  `ServePunch` keeps one relay connection open so that other nodes can find
  this one; each `punchViaRelay` of the node opens another connection under the
  same node id.  The relay keeps one entry per id: the dialling connection
  replaces the entry of the waiting one, and deletes it on its way out.

    • `step_punchFound_iff` — the steps that take the waiting connection's place,
    • `request_announced` — the way of a request through `handleConnect`: read,
      looked up, announced on the connection found,
    • `run_waiting`, `incoming_of_read` — the way of the announcement
      to the `Incoming` channel,
    • `punch_reachable_iff` — the three put together.
-/
import Kin.Lib.Run
import Kin.Relay.NodeRegistry
import Kin.Relay.Teardown

namespace Kin.Relay

open Kin.Lib Kin.Kinpb Kin.RelayClient

/-! ## §1. Which connection a request finds. -/

/-- A connection that has never asked for a node: nothing is owed to it, and
nothing it was sent tears its client down. -/
structure OnlyWaits (t : Session) : Prop where
  pc : t.pc = .registered ∨ t.pc = .serving ∨ t.pc = .leaving ∨ t.pc = .gone
  sent : ∀ env ∈ t.sent, TearsDown (.ok env) = false

theorem OnlyWaits.write {t : Session} (h : OnlyWaits t) (env : Envelope)
    (henv : TearsDown (.ok env) = false) (ok : Bool) : OnlyWaits (t.write env ok) := by
  unfold Session.write
  cases ok with
  | false => exact h
  | true => exact ⟨h.pc, forall_mem_concat h.sent henv⟩

/-- A connection that waits is at none of the points of a request. -/
theorem OnlyWaits.not_asking {t : Session} (h : OnlyWaits t) :
    (∀ n, t.pc ≠ .lookingUp n) ∧ (∀ j, t.pc ≠ .notifying j) ∧ ∀ env, t.pc ≠ .replying env := by
  rcases h.pc with hpc | hpc | hpc | hpc <;> rw [hpc] <;> exact ⟨nofun, nofun, nofun⟩

/-- Connection `sp`, if it exists, waits. -/
def Waiting (sp : Nat) (s : Server) : Prop := ∀ t, s.sessions[sp]? = some t → OnlyWaits t

/-- The connection that makes the step has asked for a node, so it is not `sp`. -/
theorem Waiting.other {sp i : Nat} {s : Server} (h : Waiting sp s) {c : Session}
    (hc : s.sessions[i]? = some c)
    (hask : (∃ n, c.pc = .lookingUp n) ∨ (∃ j, c.pc = .notifying j) ∨ ∃ env, c.pc = .replying env) :
    sp ≠ i := by
  intro hi
  subst hi
  obtain ⟨hlook, hnotify, hreply⟩ := (h c hc).not_asking
  rcases hask with ⟨n, hn⟩ | ⟨j, hj⟩ | ⟨env, henv⟩
  · exact hlook n hn
  · exact hnotify j hj
  · exact hreply env henv

/-- A client nobody asked anything of: it is open and no caller waits in it. -/
structure Idle (cl : Client) : Prop where
  pending : cl.pending = ∅
  closed : cl.closed = false
  incomingClosed : cl.incomingClosed = false

theorem Idle.dispatch {cl : Client} (h : Idle cl) (rv : RelayRendezvous) :
    cl.dispatchRendezvous rv = match Bytes.ofList? 32 rv.peerNodeId with
      | none => cl
      | some peerID =>
        if cl.incoming.length < incomingCap then
          { cl with incoming := cl.incoming ++ [rendezvousFromProto peerID rv] }
        else cl := by
  unfold Client.dispatchRendezvous
  cases Bytes.ofList? 32 rv.peerNodeId with
  | none => rfl
  | some peerID => simp [h.pending, h.closed, h.incomingClosed]

theorem Idle.readMsg {cl : Client} (h : Idle cl) {env : Envelope}
    (henv : TearsDown (.ok env) = false) : Idle (cl.readMsg (.ok env)) := by
  unfold Client.readMsg
  split
  next => cases ‹_›
  next env' heq =>
    injection heq with heq
    subst heq
    split
    next rv hp =>
      rw [h.dispatch]
      split
      · exact h
      · split
        · exact ⟨h.pending, h.closed, h.incomingClosed⟩
        · exact h
    next re hp =>
      simp [TearsDown, hp] at henv
    next => exact h

end Kin.Relay

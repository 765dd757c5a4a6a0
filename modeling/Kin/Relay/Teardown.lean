/-
  Kin.Relay.Teardown

  **DOES `Close` CLOSE THE CONNECTION?**

  `Close` is documented to tear down the relay connection.  But it closes the
  connection only if `closed` was not set before, and a read error or a
  `RelayError` for any request sets `closed` without touching the connection:
  a `Close` that comes later finds nothing to do and leaves the connection open.

    • `step_tearDown` — every step is a `Close`, a teardown by `readLoop`, or
      leaves the four facts about the teardown alone,
    • `close_releases_conn_iff` — in every run the connection is closed at most
      once; it is closed whenever a `Close` has returned exactly if no `Close`
      comes after a teardown by `readLoop`.
-/
import Kin.Lib.Run
import Kin.Relay.Client

namespace Kin.RelayClient

open Kin.Lib Kin.Kinpb

/-! ## §1. The facts about the teardown. -/

/-- The client, reduced to what concerns its teardown. -/
structure TearDown where
  closed : Bool
  connCloses : Nat
  tornDown : Bool
  closeReturned : Nat

def Client.tearDown (c : Client) : TearDown :=
  ⟨c.closed, c.connCloses, c.tornDown, c.closeReturned⟩

/-- `Close` on the reduced client. -/
def TearDown.close (t : TearDown) : TearDown :=
  { t with
    closed := true
    connCloses := t.connCloses + (if t.closed then 0 else 1)
    closeReturned := t.closeReturned + 1 }

/-- A teardown by `readLoop` on the reduced client. -/
def TearDown.tear (t : TearDown) : TearDown :=
  { t with closed := true, tornDown := t.tornDown || !t.closed }

theorem tearDown_closeChans (es : List (Sigma (fun _ : NodeID => Nat))) :
    ∀ c : Client, (es.foldl (fun c e => c.closeChan e.2) c).tearDown = c.tearDown := by
  induction es with
  | nil =>
    intro c
    rfl
  | cons e es ih =>
    intro c
    exact ih (c.closeChan e.2)

theorem tearDown_close (c : Client) : c.close.tearDown = c.tearDown.close := by
  -- closing the waiters' channels touches none of the four
  have hloop := tearDown_closeChans c.pending.entries c
  unfold Client.tearDown at hloop ⊢
  unfold Client.close Client.closeLocked TearDown.close
  injection hloop with hclosed hconn htorn hret
  cases h : c.closed
  · simp [htorn]
  · simp [h]

theorem tearDown_closeAllPending (c : Client) : c.closeAllPending.tearDown = c.tearDown.tear := by
  have hloop := tearDown_closeChans c.pending.entries c
  unfold Client.tearDown at hloop ⊢
  unfold Client.closeAllPending Client.closeLocked TearDown.tear
  injection hloop with hclosed hconn htorn hret
  cases h : c.closed
  · simp [hconn, hret]
  · simp [h]

theorem tearDown_dispatchRendezvous (c : Client) (rv : RelayRendezvous) :
    (c.dispatchRendezvous rv).tearDown = c.tearDown := by
  unfold Client.dispatchRendezvous
  split
  · rfl
  · split
    · unfold Client.trySend
      split
      · rfl
      · split
        · rfl
        · split <;> rfl
    · split
      · rfl
      · split
        · rfl
        · split <;> rfl

/-- The messages that make `readLoop` tear the client down. -/
def TearsDown : Except String Envelope → Bool
  | .error _ => true
  | .ok env =>
    match env.payload with
    | some (.relayError _) => true
    | _ => false

theorem tearDown_readMsg (c : Client) (msg : Except String Envelope) :
    (c.readMsg msg).tearDown = if TearsDown msg then c.tearDown.tear else c.tearDown := by
  cases msg with
  | error err => exact tearDown_closeAllPending c
  | ok env =>
    obtain ⟨payload⟩ := env
    cases payload with
    | none => rfl
    | some p =>
      cases p with
      | relayRendezvous rv => exact tearDown_dispatchRendezvous c rv
      | relayError re => exact tearDown_closeAllPending c
      | _ => rfl

/-- **What a step does to the teardown.** -/
theorem step_tearDown {c c' : Client} {a : Act} (hs : step c a = some c') :
    (a = .close ∧ c'.tearDown = c.tearDown.close)
    ∨ (∃ msg, a = .read msg ∧ TearsDown msg = true ∧ c'.tearDown = c.tearDown.tear)
    ∨ (a ≠ .close ∧ c'.tearDown = c.tearDown) := by
  have hsame : a ≠ .close → c'.tearDown = c.tearDown →
      (a = .close ∧ c'.tearDown = c.tearDown.close)
      ∨ (∃ msg, a = .read msg ∧ TearsDown msg = true ∧ c'.tearDown = c.tearDown.tear)
      ∨ (a ≠ .close ∧ c'.tearDown = c.tearDown) :=
    fun ha hd => Or.inr (Or.inr ⟨ha, hd⟩)
  have hadd : ∀ (target : NodeID) (pc : Nat → WaiterPC),
      (c.addWaiter target pc).tearDown = c.tearDown := by
    intro target pc
    unfold Client.addWaiter
    split <;> rfl
  cases step_sound hs with
  | request target => exact hsame nofun (hadd target _)
  | waitFor target => exact hsame nofun (hadd target _)
  | close => exact Or.inl ⟨rfl, tearDown_close c⟩
  | read msg hreading =>
    rw [tearDown_readMsg]
    cases hmsg : TearsDown msg with
    | true => exact Or.inr (Or.inl ⟨msg, rfl, hmsg, rfl⟩)
    | false => exact Or.inr (Or.inr ⟨nofun, rfl⟩)
  | _ => exact hsame nofun rfl

/-! ## §2. Every run. -/

/-- The connection has been closed at most once, and it has been closed if a
`Close` has returned. -/
def ConnReleased (c : Client) : Prop :=
  c.connCloses ≤ 1 ∧ (0 < c.closeReturned → c.connCloses = 1)

/-- A `Close` does not come after a teardown by `readLoop`. -/
def ClosesFirst (c : Client) : Act → Prop
  | .close => c.tornDown = false
  | _ => True

/-- The connection is closed by the one call that sets `closed`, if that call
is a `Close`. -/
structure TearDown.Inv (t : TearDown) : Prop where
  torn : t.tornDown = true → t.closed = true
  conn : t.connCloses = if t.closed && !t.tornDown then 1 else 0

theorem TearDown.Inv.close {t : TearDown} (h : t.Inv) : t.close.Inv := by
  obtain ⟨closed, connCloses, tornDown, closeReturned⟩ := t
  obtain ⟨htorn, hconn⟩ := h
  refine ⟨fun _ => rfl, ?_⟩
  unfold TearDown.close
  -- the first to set `closed` decides who closed the connection
  cases closed <;> cases tornDown <;> simp_all

theorem TearDown.Inv.tear {t : TearDown} (h : t.Inv) : t.tear.Inv := by
  obtain ⟨closed, connCloses, tornDown, closeReturned⟩ := t
  obtain ⟨htorn, hconn⟩ := h
  refine ⟨fun _ => rfl, ?_⟩
  unfold TearDown.tear
  cases closed <;> cases tornDown <;> simp_all

theorem step_inv (c : Client) (a : Act) (c' : Client) (h : c.tearDown.Inv)
    (hs : step c a = some c') : c'.tearDown.Inv := by
  rcases step_tearDown hs with ⟨_, heq⟩ | ⟨_, _, _, heq⟩ | ⟨_, heq⟩
  · rw [heq]
    exact h.close
  · rw [heq]
    exact h.tear
  · rw [heq]
    exact h

/-- **One step**: from a state in which what `Close` promises holds, exactly
the steps that meet `ClosesFirst` lead to one. -/
theorem step_connReleased_iff {c c' : Client} {a : Act} (h : c.tearDown.Inv)
    (hp : ConnReleased c) (hs : step c a = some c') : ConnReleased c' ↔ ClosesFirst c a := by
  have hview : ∀ {d : Client} {t : TearDown}, d.tearDown = t →
      (ConnReleased d ↔ t.connCloses ≤ 1 ∧ (0 < t.closeReturned → t.connCloses = 1)) := by
    intro d t ht
    rw [← ht]
    exact Iff.rfl
  obtain ⟨htorn, hconn⟩ := h
  rcases step_tearDown hs with ⟨rfl, heq⟩ | ⟨msg, rfl, _, heq⟩ | ⟨hne, heq⟩
  · -- the `Close` returns now: has the connection been closed?
    rw [hview heq]
    show c.connCloses + (if c.closed then 0 else 1) ≤ 1
        ∧ (0 < c.closeReturned + 1 → c.connCloses + (if c.closed then 0 else 1) = 1)
      ↔ c.tornDown = false
    have hconn' : c.connCloses = if c.closed && !c.tornDown then 1 else 0 := hconn
    have htorn' : c.tornDown = true → c.closed = true := htorn
    rw [hconn']
    cases hc : c.closed <;> cases ht : c.tornDown <;> simp_all
  · rw [hview heq]
    exact iff_of_true hp trivial
  · rw [hview heq]
    refine iff_of_true hp ?_
    cases a with
    | close => exact absurd rfl hne
    | _ => trivial

/-- **EVERY RUN.**  Whatever messages `readLoop` reads and whatever calls run
beside it: the connection is closed at most once; and it is closed in every
state in which a `Close` has returned if and only if no `Close` comes after
`readLoop` has torn the client down. -/
theorem close_releases_conn_iff (as : List Act) :
    StatesMeet step (fun c => c.connCloses ≤ 1) Client.new as
    ∧ (StatesMeet step ConnReleased Client.new as ↔ StepsMeet step ClosesFirst Client.new as) := by
  have hinit : Client.new.tearDown.Inv := ⟨nofun, rfl⟩
  -- the connection is closed only by the one call that sets `closed`
  have honce : ∀ c : Client, c.tearDown.Inv → c.connCloses ≤ 1 := by
    intro c h
    have hconn : c.connCloses = if c.closed && !c.tornDown then 1 else 0 := h.conn
    rw [hconn]
    split <;> omega
  refine ⟨?_, statesMeet_iff_stepsMeet (J := fun c => c.tearDown.Inv) step_inv
    (fun _ _ _ h hp hs => step_connReleased_iff h hp hs) hinit ⟨Nat.zero_le 1, nofun⟩⟩
  refine statesMeet_of_stepsMeet (J := fun c => c.tearDown.Inv) (C := fun _ _ => True) step_inv
    (fun c a c' h _ _ hs => honce c' (step_inv c a c' h hs)) hinit (honce _ hinit) ?_
  exact stepsMeet_true as Client.new

/-! ## §3. A `RelayError` before `Close`. -/

/-- The relay answers one request with an error; then the client is closed. -/
def errorThenClose : List Act :=
  [.request (Bytes.lit32 0xBB), .write 0 none,
    .read (.ok ⟨some (.relayError ⟨ascii "peer_not_registered"⟩)⟩), .receive 0, .leave 0, .close]

/-- `Close` has returned, and the connection is still open. -/
theorem close_after_relayError_leaves_conn_open :
    (∃ c, run step Client.new errorThenClose = some c ∧ c.closeReturned = 1 ∧ c.connCloses = 0)
    ∧ ¬ StatesMeet step ConnReleased Client.new errorThenClose := by
  have hend : ∃ c, run step Client.new errorThenClose = some c ∧ c.closeReturned = 1
      ∧ c.connCloses = 0 := ⟨_, rfl, rfl, rfl⟩
  refine ⟨hend, fun hall => ?_⟩
  obtain ⟨c, hrun, hret, hconn⟩ := hend
  have hclosed := (hall.last hrun).2 (by omega)
  omega

end Kin.RelayClient

/-
  Kin.Daemon.Subscribers

  **SUBSCRIBING AND BROADCASTING** (`handleSubscribe`, `Broadcast`, `removeSub`
  and `Close` of `internal/daemon/server.go`).

  Two locks are at work: the server's for the list of subscribers, one per
  subscriber for its connection.  `handleSubscribe` writes the acknowledgement
  FIRST and appends the subscriber after it; `Broadcast` copies the list and
  sends without the lock:

      handleSubscribe     ack ──▶ append ──▶ read until the end ──▶ removeSub
      Broadcast           copy ──▶ send, send, …   (removeSub, close on failure)

  A broadcast that copies the list in between misses a client that has its
  acknowledgement.  Everything else is in order, over every interleaving:

    • `CallsInv.nodup`, `CallsInv.order` — no event twice, none before one
      whose broadcast was over when its own started,
    • `events_after_ack_iff` — none is lost exactly if no broadcast ends that
      copied the list before an acknowledged client was appended.
-/
import Mathlib.Logic.Function.Basic
import Kin.Daemon.Types
import Kin.Lib.Run

namespace Kin.Daemon

open Kin.Lib

/-! ## §1. Connections and calls. -/

/-- How far `handleSubscribe` is. -/
inductive SubPhase where
  /-- The request is read. -/
  | asked
  /-- The acknowledgement is written. -/
  | acked
  /-- The subscriber is appended. -/
  | listed
  | left
  deriving DecidableEq

/-- A connection that subscribes. -/
structure SubConn where
  phase : SubPhase
  /-- The client has read the acknowledgement. -/
  received : Bool
  /-- Reads and writes fail: the client is gone, or too slow. -/
  failed : Bool
  /-- `sub.closed`. -/
  closed : Bool
  /-- The calls whose event was written to it, in order. -/
  written : List Nat

/-- How far a call of `Broadcast` is; `rest` are the subscribers to come. -/
inductive CallPhase where
  | idle
  | started
  | sending (rest : List Nat)
  /-- A send has failed; `removeSub` is next. -/
  | removing (k : Nat) (rest : List Nat)
  /-- `sub.close` is next. -/
  | closing (k : Nat) (rest : List Nat)
  | finished

/-- The subscribers to come, once the list is copied. -/
def CallPhase.rest : CallPhase → Option (List Nat)
  | idle => none
  | started => none
  | sending rest => some rest
  | removing _ rest => some rest
  | closing _ rest => some rest
  | finished => some []

/-- The subscriber whose send has failed. -/
def CallPhase.dropped : CallPhase → Option Nat
  | removing k _ => some k
  | closing k _ => some k
  | _ => none

def CallPhase.isFinished : CallPhase → Bool
  | finished => true
  | _ => false

structure Call where
  event : Event
  phase : CallPhase
  /-- The copy of the list. -/
  subs : List Nat
  /-- The clients that had their acknowledgement when the call started. -/
  due : Nat → Bool
  /-- The calls that were over by then. -/
  before : Nat → Bool
  /-- The connections that were appended when the list was copied. -/
  listed : Nat → Bool

/-- The server, its connections and the calls of `Broadcast`. -/
structure Server where
  conns : Nat → SubConn
  calls : Nat → Call
  subscribers : List Nat
  closed : Bool
  /-- What the loop of `Close` has still to close. -/
  toClose : List Nat

inductive ServerAct where
  /-- `WriteJSON` of the acknowledgement. -/
  | ack (k : Nat)
  /-- The client reads it. -/
  | receive (k : Nat)
  /-- The subscriber is appended. -/
  | list (k : Nat)
  /-- The read loop ends, and `removeSub`. -/
  | leave (k : Nat)
  | fail (k : Nat)
  | start (b : Nat) (event : Event)
  /-- The next step of a call. -/
  | advance (b : Nat)
  | close
  | closeNext

namespace Server

def new : Server where
  conns _ := ⟨.asked, false, false, false, []⟩
  calls _ := ⟨.catalogUpdated, .idle, [], fun _ => false, fun _ => false, fun _ => false⟩
  subscribers := []
  closed := false
  toClose := []

def setConn (s : Server) (k : Nat) (c : SubConn) : Server :=
  { s with conns := Function.update s.conns k c }

def setCall (s : Server) (b : Nat) (c : Call) : Server :=
  { s with calls := Function.update s.calls b c }

/-- One step of `Broadcast`. -/
def advance (s : Server) (b : Nat) : Option Server :=
  match (s.calls b).phase with
  | .idle => none
  | .started =>
    -- the copy, under the server's mutex
    some (s.setCall b { s.calls b with
      subs := s.subscribers
      listed := fun k => decide ((s.conns k).phase = .listed)
      phase := .sending s.subscribers })
  | .sending [] => some (s.setCall b { s.calls b with phase := .finished })
  | .sending (k :: rest) =>
    -- `sub.send` under the subscriber's mutex: an error if it is closed or the write fails
    if (s.conns k).closed ∨ (s.conns k).failed then
      some (s.setCall b { s.calls b with phase := .removing k rest })
    else
      some ((s.setConn k { s.conns k with written := (s.conns k).written ++ [b] }).setCall b
        { s.calls b with phase := .sending rest })
  | .removing k rest =>
    -- `removeSub`; a subscriber that is not in the list is left alone
    some ({ s with subscribers := s.subscribers.erase k }.setCall b
      { s.calls b with phase := .closing k rest })
  | .closing k rest =>
    some ((s.setConn k { s.conns k with closed := true }).setCall b
      { s.calls b with phase := .sending rest })
  | .finished => none

def step (s : Server) : ServerAct → Option Server
  | .ack k =>
    if (s.conns k).phase = .asked then
      -- without its acknowledgement the connection is given up
      if (s.conns k).failed then some (s.setConn k { s.conns k with phase := .left })
      else some (s.setConn k { s.conns k with phase := .acked })
    else none
  | .receive k =>
    if (s.conns k).phase = .acked ∨ (s.conns k).phase = .listed then
      some (s.setConn k { s.conns k with received := true })
    else none
  | .list k =>
    if (s.conns k).phase = .acked then
      -- also after `Close`, whose loop has then missed it
      some { s.setConn k { s.conns k with phase := .listed } with
        subscribers := s.subscribers ++ [k] }
    else none
  | .leave k =>
    if (s.conns k).phase = .listed ∧ ((s.conns k).failed ∨ (s.conns k).closed) then
      some { s.setConn k { s.conns k with phase := .left } with
        subscribers := s.subscribers.erase k }
    else none
  | .fail k => some (s.setConn k { s.conns k with failed := true })
  | .start b event =>
    match (s.calls b).phase with
    | .idle =>
      some (s.setCall b {
        event := event
        phase := .started
        subs := []
        due := fun k => (s.conns k).received
        before := fun c => (s.calls c).phase.isFinished
        listed := fun _ => false })
    | _ => none
  | .advance b => s.advance b
  | .close =>
    -- the second call returns at once
    if s.closed then some s
    else some { s with closed := true, toClose := s.subscribers, subscribers := [] }
  | .closeNext =>
    match s.toClose with
    | [] => none
    | k :: rest => some { s.setConn k { s.conns k with closed := true } with toClose := rest }

/-! ## §2. What a client may expect. -/

/-- The connection has not failed and the server is not closed. -/
def Alive (s : Server) (k : Nat) : Prop := (s.conns k).failed = false ∧ s.closed = false

/-- The events written to a client. -/
def eventsOf (s : Server) (k : Nat) : List Event :=
  (s.conns k).written.map (fun b => (s.calls b).event)

structure EventsKept (s : Server) : Prop where
  /-- No call writes twice to one connection. -/
  once : ∀ k, (s.conns k).written.Nodup
  /-- A call that was over when another started is not written after it. -/
  order : ∀ k, (s.conns k).written.Pairwise (fun b c => (s.calls b).before c = false)
  /-- A call that is over has written to all clients it was due to. -/
  kept : ∀ b, (s.calls b).phase = .finished →
    ∀ k, (s.calls b).due k = true → s.Alive k → b ∈ (s.conns k).written

/-- The step is the last of a call. -/
def Ends (s : Server) (a : ServerAct) (b : Nat) : Prop :=
  a = .advance b ∧ (s.calls b).phase = .sending []

/-- A call that ends copied the list with every client in it that it was due to. -/
def DueListed (s : Server) (a : ServerAct) : Prop :=
  ∀ b, s.Ends a b →
    ∀ k, (s.calls b).due k = true → s.Alive k → (s.calls b).listed k = true

/-! ## §3. What holds in every state. -/

/-- A call that has copied the list and has `rest` to go. -/
structure Sent (s : Server) (b : Nat) (rest : List Nat) : Prop where
  nodup : (s.calls b).subs.Nodup
  listed : ∀ k, s.Alive k → ((s.calls b).listed k = true ↔ k ∈ (s.calls b).subs)
  /-- It has written to those before `rest`, dead connections apart, and to no
  others. -/
  split : ∃ sent, (s.calls b).subs = sent ++ rest
    ∧ (∀ k, k ∉ sent → b ∉ (s.conns k).written)
    ∧ ∀ k ∈ sent, s.Alive k → b ∈ (s.conns k).written

/-- The calls and what they have written. -/
structure CallsInv (s : Server) : Prop where
  nodup : ∀ k, (s.conns k).written.Nodup
  order : ∀ k, (s.conns k).written.Pairwise (fun b c => (s.calls b).before c = false)
  before : ∀ b c, (s.calls b).before c = true → (s.calls c).phase.isFinished = true
  unsent : ∀ b, (s.calls b).phase.rest = none → ∀ k, b ∉ (s.conns k).written
  sent : ∀ b rest, (s.calls b).phase.rest = some rest → s.Sent b rest
  dropped : ∀ b k, (s.calls b).phase.dropped = some k → ¬ s.Alive k

/-- A connection and the list of subscribers. -/
structure Entry (s : Server) (k : Nat) : Prop where
  mem : k ∈ s.subscribers → (s.conns k).phase = .listed
  alive : s.Alive k → (s.conns k).phase = .listed → k ∈ s.subscribers
  closed : (s.conns k).closed = true → ¬ s.Alive k

structure ListInv (s : Server) : Prop where
  nodup : s.subscribers.Nodup
  entry : ∀ k, s.Entry k
  toClose : s.toClose ≠ [] → s.closed = true

variable {s s' : Server} {b : Nat}

theorem setConn_self (s : Server) (k : Nat) (c : SubConn) : (s.setConn k c).conns k = c := by
  show Function.update s.conns k c k = c
  rw [Function.update_self]

theorem setConn_other (s : Server) {j k : Nat} (c : SubConn) (h : j ≠ k) :
    (s.setConn k c).conns j = s.conns j := by
  show Function.update s.conns k c j = s.conns j
  rw [Function.update_of_ne h]

/-! ### Steps beside the calls. -/

/-- Nothing is written, no call goes on, no connection comes back to life. -/
structure Beside (s s' : Server) : Prop where
  calls : s'.calls = s.calls
  written : ∀ k, (s'.conns k).written = (s.conns k).written
  alive : ∀ k, s'.Alive k → s.Alive k

theorem Beside.setConn {k : Nat} {c : SubConn} (hwritten : c.written = (s.conns k).written)
    (hfailed : c.failed = false → (s.conns k).failed = false) : Beside s (s.setConn k c) := by
  refine ⟨rfl, fun j => ?_, fun j hj => ?_⟩
  · by_cases hjk : j = k
    · rw [hjk, setConn_self, hwritten]
    · rw [setConn_other s c hjk]
  · obtain ⟨halive, hopen⟩ := hj
    refine ⟨?_, hopen⟩
    by_cases hjk : j = k
    · rw [hjk, setConn_self] at halive
      rw [hjk]
      exact hfailed halive
    · rwa [setConn_other s c hjk] at halive

theorem Sent.congr {rest : List Nat} (h : s.Sent b rest)
    (hsubs : (s'.calls b).subs = (s.calls b).subs)
    (hlisted : (s'.calls b).listed = (s.calls b).listed)
    (hwritten : ∀ k, b ∈ (s'.conns k).written ↔ b ∈ (s.conns k).written)
    (halive : ∀ k, s'.Alive k → s.Alive k) : s'.Sent b rest := by
  obtain ⟨hnodup, hlist, sent, hsplit, hnot, hall⟩ := h
  refine ⟨?_, fun k hk => ?_, sent, ?_, fun k hk => ?_, fun k hk hlive => ?_⟩
  · rw [hsubs]
    exact hnodup
  · rw [hsubs, hlisted]
    exact hlist k (halive k hk)
  · rw [hsubs]
    exact hsplit
  · rw [hwritten]
    exact hnot k hk
  · rw [hwritten]
    exact hall k hk (halive k hlive)

theorem CallsInv.beside (h : CallsInv s) (hb : Beside s s') : CallsInv s' := by
  obtain ⟨hcalls, hwritten, halive⟩ := hb
  refine ⟨fun k => ?_, fun k => ?_, fun b c hbc => ?_, fun b hrest k => ?_, fun b rest hrest => ?_,
    fun b k hphase hk => ?_⟩
  · rw [hwritten]
    exact h.nodup k
  · rw [hwritten, hcalls]
    exact h.order k
  · rw [hcalls] at hbc ⊢
    exact h.before b c hbc
  · rw [hcalls] at hrest
    rw [hwritten]
    exact h.unsent b hrest k
  · rw [hcalls] at hrest
    refine (h.sent b rest hrest).congr ?_ ?_ (fun k => ?_) halive
    · rw [hcalls]
    · rw [hcalls]
    · rw [hwritten]
  · rw [hcalls] at hphase
    exact h.dropped b k hphase (halive k hk)

/-! ### Steps of a call. -/

/-- One call goes on; it may have written to a connection that it had not
written to. -/
structure CallStep (s s' : Server) (b : Nat) (c : Call) : Prop where
  calls : s'.calls = Function.update s.calls b c
  open_ : (s.calls b).phase.isFinished = false
  before : ∀ d, c.before d = true → (s.calls d).phase.isFinished = true
  same : c.before = (s.calls b).before ∨ ∀ k, b ∉ (s.conns k).written
  written : ∀ k, (s'.conns k).written = (s.conns k).written
    ∨ ((s'.conns k).written = (s.conns k).written ++ [b] ∧ b ∉ (s.conns k).written)
  alive : ∀ k, s'.Alive k → s.Alive k

namespace CallStep

variable {c : Call}

theorem calls_self (h : CallStep s s' b c) : s'.calls b = c := by
  rw [h.calls, Function.update_self]

theorem calls_other (h : CallStep s s' b c) {d : Nat} (hd : d ≠ b) : s'.calls d = s.calls d := by
  rw [h.calls, Function.update_of_ne hd]

theorem mem_written (h : CallStep s s' b c) {d : Nat} (hd : d ≠ b) (k : Nat) :
    d ∈ (s'.conns k).written ↔ d ∈ (s.conns k).written := by
  rcases h.written k with hw | ⟨hw, -⟩
  · rw [hw]
  · rw [hw, List.mem_append, List.mem_singleton]
    exact or_iff_left hd

/-- A finished call is another one, and stays. -/
theorem finished (h : CallStep s s' b c) {d : Nat} (hd : (s.calls d).phase.isFinished = true) :
    (s'.calls d).phase.isFinished = true := by
  have hne : d ≠ b := by
    rintro rfl
    rw [h.open_] at hd
    cases hd
  rwa [h.calls_other hne]

theorem sent_other (h : CallStep s s' b c) {d : Nat} (hd : d ≠ b) {rest : List Nat}
    (hs : s.Sent d rest) : s'.Sent d rest := by
  refine hs.congr ?_ ?_ (h.mem_written hd) h.alive
  · rw [h.calls_other hd]
  · rw [h.calls_other hd]

/-- The order on a connection: a call that still writes was not over when any of
those before it started. -/
theorem order (h : CallStep s s' b c) (hinv : CallsInv s) (k : Nat) :
    (s'.conns k).written.Pairwise (fun b c => (s'.calls b).before c = false) := by
  have hold : (s.conns k).written.Pairwise (fun b c => (s'.calls b).before c = false) := by
    refine (hinv.order k).imp_of_mem fun {x y} hx _ hxy => ?_
    by_cases hxb : x = b
    · subst hxb
      rw [h.calls_self]
      rcases h.same with hsame | hnot
      · rwa [hsame]
      · exact absurd hx (hnot k)
    · rwa [h.calls_other hxb]
  -- one more call at the end: those before it started while it was under way
  rcases h.written k with hw | ⟨hw, hnot⟩
  · rw [hw]
    exact hold
  · rw [hw, List.pairwise_append]
    refine ⟨hold, List.pairwise_singleton _ _, fun x hx y hy => ?_⟩
    obtain rfl := List.mem_singleton.mp hy
    have hne : x ≠ y := fun heq => hnot (heq ▸ hx)
    rw [h.calls_other hne, ← Bool.not_eq_true]
    intro hbefore
    have hfin := hinv.before x y hbefore
    rw [h.open_] at hfin
    cases hfin

theorem callsInv (h : CallStep s s' b c) (hinv : CallsInv s)
    (hunsent : c.phase.rest = none → ∀ k, b ∉ (s'.conns k).written)
    (hsent : ∀ rest, c.phase.rest = some rest → s'.Sent b rest)
    (hdropped : ∀ k, c.phase.dropped = some k → ¬ s'.Alive k) : CallsInv s' := by
  refine ⟨fun k => ?_, h.order hinv, fun d e hde => ?_, fun d hrest k => ?_, fun d rest hrest => ?_,
    fun d k hphase => ?_⟩
  · rcases h.written k with hw | ⟨hw, hnot⟩
    · rw [hw]
      exact hinv.nodup k
    · rw [hw]
      exact List.nodup_append.mpr ⟨hinv.nodup k, List.nodup_singleton b, fun x hx y hy hxy =>
        hnot (List.mem_singleton.mp hy ▸ hxy ▸ hx)⟩
  -- a call that is over stays so, whoever remembers it
  · refine h.finished ?_
    by_cases hd : d = b
    · subst hd
      rw [h.calls_self] at hde
      exact h.before e hde
    · rw [h.calls_other hd] at hde
      exact hinv.before d e hde
  · by_cases hd : d = b
    · subst hd
      rw [h.calls_self] at hrest
      exact hunsent hrest k
    · rw [h.calls_other hd] at hrest
      rw [h.mem_written hd]
      exact hinv.unsent d hrest k
  · by_cases hd : d = b
    · subst hd
      rw [h.calls_self] at hrest
      exact hsent rest hrest
    · rw [h.calls_other hd] at hrest
      exact h.sent_other hd (hinv.sent d rest hrest)
  · by_cases hd : d = b
    · subst hd
      rw [h.calls_self] at hphase
      exact hdropped k hphase
    · rw [h.calls_other hd] at hphase
      exact fun hk => hinv.dropped d k hphase (h.alive k hk)

end CallStep

/-! ### The list. -/

/-- A step that touches one connection and its place in the list. -/
theorem ListInv.one {k : Nat} (h : ListInv s) (hclosed : s'.closed = s.closed)
    (hother : ∀ j, j ≠ k →
      s'.conns j = s.conns j ∧ (j ∈ s'.subscribers ↔ j ∈ s.subscribers))
    (hnodup : s'.subscribers.Nodup) (hentry : s'.Entry k)
    (htoClose : s'.toClose ≠ [] → s.toClose ≠ []) : ListInv s' := by
  refine ⟨hnodup, fun j => ?_, fun hne => hclosed.trans (h.toClose (htoClose hne))⟩
  by_cases hj : j = k
  · rw [hj]
    exact hentry
  · obtain ⟨hconn, hmem⟩ := hother j hj
    obtain ⟨hlisted, halive, hdead⟩ := h.entry j
    have hsame : s'.Alive j ↔ s.Alive j := by
      unfold Alive
      rw [hconn, hclosed]
    refine ⟨?_, ?_, ?_⟩
    · rw [hmem, hconn]
      exact hlisted
    · rw [hmem, hconn, hsame]
      exact halive
    · rw [hconn, hsame]
      exact hdead

/-- A step that leaves the list alone and changes one connection. -/
theorem ListInv.setConn {k : Nat} {c : SubConn} (h : ListInv s)
    (hphase : c.phase = (s.conns k).phase ∨ (k ∉ s.subscribers ∧ c.phase ≠ .listed))
    (hfailed : c.failed = false → (s.conns k).failed = false)
    (hclosed : c.closed = true → c.failed = false → s.closed = true ∨ (s.conns k).closed = true) :
    ListInv (s.setConn k c) := by
  obtain ⟨hlisted, halive, hdead⟩ := h.entry k
  have hback : (s.setConn k c).Alive k → s.Alive k := by
    rintro ⟨hlive, hopen⟩
    rw [setConn_self] at hlive
    exact ⟨hfailed hlive, hopen⟩
  refine h.one rfl (fun j hj => ⟨setConn_other s c hj, Iff.rfl⟩) h.nodup ?_ id
  refine ⟨?_, ?_, ?_⟩
  · intro hmem
    rw [setConn_self]
    rcases hphase with heq | ⟨hnot, -⟩
    · exact heq.trans (hlisted hmem)
    · exact absurd hmem hnot
  · intro hlive hc
    rw [setConn_self] at hc
    rcases hphase with heq | ⟨-, hne⟩
    · exact halive (hback hlive) (heq ▸ hc)
    · exact absurd hc hne
  · intro hc hlive
    rw [setConn_self] at hc
    obtain ⟨hf, hopen⟩ := hlive
    rw [setConn_self] at hf
    rcases hclosed hc hf with hs | hk
    · rw [show s.closed = false from hopen] at hs
      cases hs
    · exact hdead hk ⟨hfailed hf, hopen⟩

/-- What both parts say. -/
structure Inv (s : Server) : Prop where
  calls : CallsInv s
  list : ListInv s

theorem inv_new : Inv new := by
  refine ⟨⟨fun _ => List.nodup_nil, fun _ => List.Pairwise.nil, fun _ _ h => ?_,
    fun _ _ _ h => ?_, fun _ _ h => ?_, fun _ _ h => ?_⟩,
    List.nodup_nil, fun _ => ⟨fun h => ?_, fun _ h => ?_, fun h => ?_⟩, fun h => absurd rfl h⟩
  all_goals cases h

/-! ## §4. One step keeps it. -/

theorem ListInv.not_mem {k : Nat} (h : ListInv s) (hphase : (s.conns k).phase ≠ .listed) :
    k ∉ s.subscribers :=
  fun hmem => hphase ((h.entry k).mem hmem)

/-- What ends a connection, for the server. -/
theorem ListInv.not_alive {k : Nat} (h : ListInv s)
    (hgone : (s.conns k).failed = true ∨ (s.conns k).closed = true) : ¬ s.Alive k := by
  rcases hgone with hf | hc
  · intro hlive
    rw [hlive.1] at hf
    cases hf
  · exact (h.entry k).closed hc

/-- `removeSub` of a dead connection. -/
theorem ListInv.erase {k : Nat} (h : ListInv s) (hclosed : s'.closed = s.closed)
    (htoClose : s'.toClose = s.toClose) (hsubs : s'.subscribers = s.subscribers.erase k)
    (hother : ∀ j, j ≠ k → s'.conns j = s.conns j) (hdead : ¬ s'.Alive k) : ListInv s' := by
  refine h.one (k := k) hclosed (fun j hj => ⟨hother j hj, ?_⟩) ?_ ⟨fun hmem => ?_, ?_, ?_⟩ ?_
  · rw [hsubs]
    exact List.mem_erase_of_ne hj
  · rw [hsubs]
    exact h.nodup.erase k
  · rw [hsubs] at hmem
    exact absurd hmem h.nodup.not_mem_erase
  · exact fun hlive => absurd hlive hdead
  · exact fun _ => hdead
  · rw [htoClose]
    exact id

theorem inv_ack {k : Nat} (h : Inv s) (hs : s.step (.ack k) = some s') :
    Inv s' ∧ Beside s s' := by
  unfold step at hs
  dsimp only at hs
  split at hs
  · next hasked =>
    have hnot : k ∉ s.subscribers := h.list.not_mem (by rw [hasked]; exact nofun)
    -- either way the connection is not in the list, before and after
    have hgo : ∀ phase, phase ≠ SubPhase.listed →
        Inv (s.setConn k { s.conns k with phase := phase })
          ∧ Beside s (s.setConn k { s.conns k with phase := phase }) := by
      intro phase hne
      have hb : Beside s (s.setConn k { s.conns k with phase := phase }) := .setConn rfl id
      exact ⟨⟨h.calls.beside hb, h.list.setConn (.inr ⟨hnot, hne⟩) id (fun hc _ => .inr hc)⟩, hb⟩
    split at hs
    · obtain rfl := Option.some.inj hs
      exact hgo .left nofun
    · obtain rfl := Option.some.inj hs
      exact hgo .acked nofun
  · cases hs

theorem inv_receive {k : Nat} (h : Inv s) (hs : s.step (.receive k) = some s') :
    Inv s' ∧ Beside s s' := by
  obtain ⟨-, hs⟩ := Option.ite_none_right_eq_some.mp hs
  obtain rfl := Option.some.inj hs
  have hb : Beside s (s.setConn k { s.conns k with received := true }) := .setConn rfl id
  exact ⟨⟨h.calls.beside hb, h.list.setConn (.inl rfl) id (fun hc _ => .inr hc)⟩, hb⟩

theorem inv_list {k : Nat} (h : Inv s) (hs : s.step (.list k) = some s') :
    Inv s' ∧ Beside s s' := by
  obtain ⟨hacked, hs⟩ := Option.ite_none_right_eq_some.mp hs
  obtain rfl := Option.some.inj hs
  have hnot : k ∉ s.subscribers := h.list.not_mem (by rw [hacked]; exact nofun)
  have hconn : Beside s (s.setConn k { s.conns k with phase := .listed }) := .setConn rfl id
  have hb : Beside s { s.setConn k { s.conns k with phase := .listed } with
      subscribers := s.subscribers ++ [k] } := ⟨hconn.calls, hconn.written, hconn.alive⟩
  refine ⟨⟨h.calls.beside hb, ?_⟩, hb⟩
  refine h.list.one (k := k) rfl (fun j hj => ⟨setConn_other s _ hj, ?_⟩) ?_ ?_ id
  · rw [List.mem_append, List.mem_singleton]
    exact or_iff_left hj
  · exact List.nodup_append.mpr ⟨h.list.nodup, List.nodup_singleton k, fun x hx y hy hxy =>
      hnot (List.mem_singleton.mp hy ▸ hxy ▸ hx)⟩
  · refine ⟨fun _ => ?_, fun _ _ => List.mem_append_right _ List.mem_cons_self, ?_⟩
    · exact congrArg SubConn.phase (setConn_self s k _)
    · intro hc hlive
      have hc : ((s.setConn k { s.conns k with phase := .listed }).conns k).closed = true := hc
      rw [setConn_self] at hc
      exact (h.list.entry k).closed hc (hb.alive k hlive)

theorem inv_leave {k : Nat} (h : Inv s) (hs : s.step (.leave k) = some s') :
    Inv s' ∧ Beside s s' := by
  obtain ⟨⟨-, hgone⟩, hs⟩ := Option.ite_none_right_eq_some.mp hs
  obtain rfl := Option.some.inj hs
  have hconn : Beside s (s.setConn k { s.conns k with phase := .left }) := .setConn rfl id
  have hb : Beside s { s.setConn k { s.conns k with phase := .left } with
      subscribers := s.subscribers.erase k } := ⟨hconn.calls, hconn.written, hconn.alive⟩
  have hdead := h.list.not_alive hgone
  exact ⟨⟨h.calls.beside hb, h.list.erase rfl rfl rfl (fun j hj => setConn_other s _ hj)
    (fun hlive => hdead (hb.alive k hlive))⟩, hb⟩

theorem inv_fail {k : Nat} (h : Inv s) (hs : s.step (.fail k) = some s') :
    Inv s' ∧ Beside s s' := by
  obtain rfl := Option.some.inj hs
  have hb : Beside s (s.setConn k { s.conns k with failed := true }) :=
    .setConn rfl (fun hf => by cases hf)
  refine ⟨⟨h.calls.beside hb, h.list.setConn (.inl rfl) ?_ (fun hc _ => .inr hc)⟩, hb⟩
  exact fun hf => by cases hf

theorem inv_close (h : Inv s) (hs : s.step .close = some s') : Inv s' ∧ Beside s s' := by
  unfold step at hs
  dsimp only at hs
  split at hs
  · obtain rfl := Option.some.inj hs
    exact ⟨h, rfl, fun _ => rfl, fun _ => id⟩
  · obtain rfl := Option.some.inj hs
    -- from here on no connection counts as alive
    have hdead : ∀ k,
        ¬ Alive { s with closed := true, toClose := s.subscribers, subscribers := [] } k := by
      rintro k ⟨-, hopen⟩
      cases hopen
    have hb : Beside s { s with closed := true, toClose := s.subscribers, subscribers := [] } :=
      ⟨rfl, fun _ => rfl, fun k hk => absurd hk (hdead k)⟩
    refine ⟨⟨h.calls.beside hb, List.nodup_nil, fun k => ⟨fun hk => ?_, fun hk => ?_, ?_⟩,
      fun _ => rfl⟩, hb⟩
    · cases hk
    · exact absurd hk (hdead k)
    · exact fun _ => hdead k

theorem inv_closeNext (h : Inv s) (hs : s.step .closeNext = some s') : Inv s' ∧ Beside s s' := by
  unfold step at hs
  dsimp only at hs
  split at hs
  · cases hs
  · next k rest hrest =>
    obtain rfl := Option.some.inj hs
    have hclosed : s.closed = true := h.list.toClose (by rw [hrest]; exact List.cons_ne_nil _ _)
    have hconn : Beside s (s.setConn k { s.conns k with closed := true }) := .setConn rfl id
    have hb : Beside s { s.setConn k { s.conns k with closed := true } with toClose := rest } :=
      ⟨hconn.calls, hconn.written, hconn.alive⟩
    have hlist : ListInv (s.setConn k { s.conns k with closed := true }) :=
      h.list.setConn (.inl rfl) id (fun _ _ => .inl hclosed)
    exact ⟨⟨h.calls.beside hb, hlist.nodup,
      fun j => ⟨(hlist.entry j).mem, (hlist.entry j).alive, (hlist.entry j).closed⟩,
      fun _ => hclosed⟩, hb⟩

/-! ### Calls. -/

/-- A step that changes nothing but the call. -/
theorem CallStep.setCall {c : Call} (hopen : (s.calls b).phase.isFinished = false)
    (hbefore : ∀ d, c.before d = true → (s.calls d).phase.isFinished = true)
    (hsame : c.before = (s.calls b).before ∨ ∀ k, b ∉ (s.conns k).written) :
    CallStep s (s.setCall b c) b c :=
  ⟨rfl, hopen, hbefore, hsame, fun _ => .inl rfl, fun _ => id⟩

theorem ListInv.setCall (h : ListInv s) (b : Nat) (c : Call) : ListInv (s.setCall b c) :=
  ⟨h.nodup, fun k => ⟨(h.entry k).mem, (h.entry k).alive, (h.entry k).closed⟩, h.toClose⟩

theorem inv_start {event : Event} (h : Inv s) (hs : s.step (.start b event) = some s') :
    Inv s' ∧ ∃ c, CallStep s s' b c ∧ c.phase.isFinished = false := by
  unfold step at hs
  dsimp only at hs
  split at hs
  · next hidle =>
    have hunsent : ∀ k, b ∉ (s.conns k).written := h.calls.unsent b (by rw [hidle]; rfl)
    obtain rfl := Option.some.inj hs
    have hstep := CallStep.setCall (s := s) (b := b)
      (c := ⟨event, .started, [], fun k => (s.conns k).received,
        fun d => (s.calls d).phase.isFinished, fun _ => false⟩)
      (by rw [hidle]; rfl) (fun _ => id) (.inr hunsent)
    refine ⟨⟨hstep.callsInv h.calls (fun _ => hunsent) (fun rest hrest => ?_) (fun k hk => ?_),
      h.list.setCall b _⟩, _, hstep, rfl⟩
    · cases hrest
    · cases hk
  · cases hs

/-- The list is copied. -/
theorem sent_copied (h : Inv s) (hphase : (s.calls b).phase = .started) {c : Call}
    (hsubs : c.subs = s.subscribers)
    (hlisted : c.listed = fun k => decide ((s.conns k).phase = .listed)) :
    (s.setCall b c).Sent b s.subscribers := by
  have hcall : (s.setCall b c).calls b = c := by
    show Function.update s.calls b c b = c
    rw [Function.update_self]
  have hunsent : ∀ k, b ∉ (s.conns k).written := h.calls.unsent b (by rw [hphase]; rfl)
  refine ⟨?_, fun k hk => ?_, [], ?_, fun k _ => hunsent k, fun k hk => ?_⟩
  · rw [hcall, hsubs]
    exact h.list.nodup
  · rw [hcall, hsubs, hlisted]
    exact decide_eq_true_iff.trans ⟨(h.list.entry k).alive hk, (h.list.entry k).mem⟩
  · rw [hcall, hsubs]
    rfl
  · cases hk

/-- The call goes past one subscriber: it has written to it, or the connection
is dead. -/
theorem Sent.pass {k : Nat} {rest : List Nat} (h : s.Sent b (k :: rest))
    (hsubs : (s'.calls b).subs = (s.calls b).subs)
    (hlisted : (s'.calls b).listed = (s.calls b).listed)
    (hother : ∀ j, j ≠ k → (s'.conns j).written = (s.conns j).written)
    (halive : ∀ j, s'.Alive j → s.Alive j)
    (hk : s'.Alive k → b ∈ (s'.conns k).written) : s'.Sent b rest := by
  obtain ⟨hnodup, hlist, sent, hsplit, hnot, hall⟩ := h
  refine ⟨?_, fun j hj => ?_, sent ++ [k], ?_, fun j hj => ?_, fun j hj hlive => ?_⟩
  · rw [hsubs]
    exact hnodup
  · rw [hsubs, hlisted]
    exact hlist j (halive j hj)
  · rw [hsubs, hsplit, List.append_assoc]
    rfl
  · rw [List.mem_append, List.mem_singleton, not_or] at hj
    rw [hother j hj.2]
    exact hnot j hj.1
  · by_cases hjk : j = k
    · rw [hjk] at hlive ⊢
      exact hk hlive
    · rw [hother j hjk]
      have hj := (List.mem_append.mp hj).resolve_right (fun h => hjk (List.mem_singleton.mp h))
      exact hall j hj (halive j hlive)

/-- The next subscriber has not been written to. -/
theorem Sent.next {k : Nat} {rest : List Nat} (h : s.Sent b (k :: rest)) :
    b ∉ (s.conns k).written := by
  obtain ⟨hnodup, -, sent, hsplit, hnot, -⟩ := h
  rw [hsplit, List.nodup_append] at hnodup
  exact hnot k (fun hk => hnodup.2.2 k hk k List.mem_cons_self rfl)

/-- A step to a phase with the same subscribers to come. -/
theorem inv_same {c : Call} {rest : List Nat} (h : Inv s) (hstep : CallStep s s' b c)
    (hrest : (s.calls b).phase.rest = some rest) (hrest' : c.phase.rest = some rest)
    (hsubs : c.subs = (s.calls b).subs) (hlisted : c.listed = (s.calls b).listed)
    (hwritten : ∀ k, (s'.conns k).written = (s.conns k).written)
    (hdropped : ∀ k, c.phase.dropped = some k → ¬ s'.Alive k) : CallsInv s' := by
  refine hstep.callsInv h.calls (fun hnone => ?_) (fun r hr => ?_) hdropped
  · rw [hrest'] at hnone
    cases hnone
  · obtain rfl := Option.some.inj (hrest'.symm.trans hr)
    refine (h.calls.sent b rest hrest).congr ?_ ?_ (fun k => ?_) hstep.alive
    · rw [hstep.calls_self, hsubs]
    · rw [hstep.calls_self, hlisted]
    · rw [hwritten]

/-- A step past the next subscriber. -/
theorem inv_pass {c : Call} {k : Nat} {rest : List Nat} (h : Inv s) (hstep : CallStep s s' b c)
    (hphase : (s.calls b).phase = .sending (k :: rest)) (hrest : c.phase.rest = some rest)
    (hsubs : c.subs = (s.calls b).subs) (hlisted : c.listed = (s.calls b).listed)
    (hother : ∀ j, j ≠ k → (s'.conns j).written = (s.conns j).written)
    (hk : s'.Alive k → b ∈ (s'.conns k).written)
    (hdropped : ∀ k, c.phase.dropped = some k → ¬ s'.Alive k) : CallsInv s' := by
  refine hstep.callsInv h.calls (fun hnone => ?_) (fun r hr => ?_) hdropped
  · rw [hrest] at hnone
    cases hnone
  · obtain rfl := Option.some.inj (hrest.symm.trans hr)
    refine (h.calls.sent b (k :: rest) (by rw [hphase]; rfl)).pass ?_ ?_ hother hstep.alive hk
    · rw [hstep.calls_self, hsubs]
    · rw [hstep.calls_self, hlisted]

/-- The copy of the list, and a failed or closed connection: the call alone. -/
theorem advance_call {c : Call} (h : Inv s) (hopen : (s.calls b).phase.isFinished = false)
    (hbefore : c.before = (s.calls b).before) : CallStep s (s.setCall b c) b c :=
  .setCall hopen (fun d hd => h.calls.before b d (hbefore ▸ hd)) (.inl hbefore)

/-- The call copies the list. -/
theorem inv_copy (h : Inv s) (hphase : (s.calls b).phase = .started) :
    let d : Call := { s.calls b with
      subs := s.subscribers
      listed := fun k => decide ((s.conns k).phase = .listed)
      phase := .sending s.subscribers }
    Inv (s.setCall b d) ∧ CallStep s (s.setCall b d) b d := by
  intro d
  have hstep : CallStep s (s.setCall b d) b d := advance_call h (by rw [hphase]; rfl) rfl
  refine ⟨⟨hstep.callsInv h.calls (fun hnone => ?_) (fun rest hrest => ?_) (fun k hk => ?_),
    h.list.setCall b d⟩, hstep⟩
  · cases hnone
  · obtain rfl := Option.some.inj hrest
    exact sent_copied h hphase rfl rfl
  · cases hk

/-- The call gives up on a dead subscriber. -/
theorem inv_giveUp {k : Nat} {rest : List Nat} (h : Inv s)
    (hphase : (s.calls b).phase = .sending (k :: rest)) (hdead : ¬ s.Alive k) :
    let d : Call := { s.calls b with phase := .removing k rest }
    Inv (s.setCall b d) ∧ CallStep s (s.setCall b d) b d := by
  intro d
  have hstep : CallStep s (s.setCall b d) b d := advance_call h (by rw [hphase]; rfl) rfl
  refine ⟨⟨inv_pass h hstep hphase rfl rfl rfl (fun _ _ => rfl) (fun hk => absurd hk hdead)
    (fun j hj => ?_), h.list.setCall b d⟩, hstep⟩
  obtain rfl := Option.some.inj hj
  exact hdead

/-- One subscriber is sent the event. -/
theorem inv_send {k : Nat} {rest : List Nat} (h : Inv s)
    (hphase : (s.calls b).phase = .sending (k :: rest)) :
    let c : SubConn := { s.conns k with written := (s.conns k).written ++ [b] }
    let d : Call := { s.calls b with phase := .sending rest }
    Inv ((s.setConn k c).setCall b d) ∧ CallStep s ((s.setConn k c).setCall b d) b d := by
  intro c d
  -- the copy has no subscriber twice, so this one is new to the call
  have hnext := (h.calls.sent b (k :: rest) (by rw [hphase]; rfl)).next
  have hself : ((s.setConn k c).setCall b d).conns k = c := setConn_self s k c
  have hother : ∀ j, j ≠ k → ((s.setConn k c).setCall b d).conns j = s.conns j :=
    fun j hj => setConn_other s c hj
  have halive : ∀ j, ((s.setConn k c).setCall b d).Alive j → s.Alive j := by
    rintro j ⟨hlive, hopen⟩
    refine ⟨?_, hopen⟩
    by_cases hj : j = k
    · rw [hj, hself] at hlive
      rw [hj]
      exact hlive
    · rwa [hother j hj] at hlive
  have hstep : CallStep s ((s.setConn k c).setCall b d) b d := by
    refine ⟨rfl, by rw [hphase]; rfl, h.calls.before b, .inl rfl, fun j => ?_, halive⟩
    by_cases hj : j = k
    · rw [hj, hself]
      exact .inr ⟨rfl, hnext⟩
    · rw [hother j hj]
      exact .inl rfl
  refine ⟨⟨inv_pass h hstep hphase rfl rfl rfl (fun j hj => ?_) (fun _ => ?_) (fun j hj => ?_), ?_⟩,
    hstep⟩
  · rw [hother j hj]
  · rw [hself]
    exact List.mem_append_right _ List.mem_cons_self
  · cases hj
  · have hlist : ListInv (s.setConn k c) := h.list.setConn (.inl rfl) id (fun hc _ => .inr hc)
    exact hlist.setCall b d

/-- A dead subscriber is taken off the list. -/
theorem inv_remove {k : Nat} {rest : List Nat} (h : Inv s)
    (hphase : (s.calls b).phase = .removing k rest) :
    let t : Server := { s with subscribers := s.subscribers.erase k }
    let d : Call := { s.calls b with phase := .closing k rest }
    Inv (t.setCall b d) ∧ CallStep s (t.setCall b d) b d := by
  intro t d
  have hdead : ¬ s.Alive k := h.calls.dropped b k (by rw [hphase]; rfl)
  have hstep : CallStep s (t.setCall b d) b d :=
    ⟨rfl, by rw [hphase]; rfl, h.calls.before b, .inl rfl, fun _ => .inl rfl, fun _ => id⟩
  refine ⟨⟨inv_same h hstep (by rw [hphase]; rfl) rfl rfl rfl (fun _ => rfl) (fun j hj => ?_), ?_⟩,
    hstep⟩
  · obtain rfl := Option.some.inj hj
    exact hdead
  · have hlist : ListInv t := h.list.erase rfl rfl rfl (fun _ _ => rfl) hdead
    exact hlist.setCall b d

/-- And its connection is closed. -/
theorem inv_closeSub {k : Nat} {rest : List Nat} (h : Inv s)
    (hphase : (s.calls b).phase = .closing k rest) :
    let c : SubConn := { s.conns k with closed := true }
    let d : Call := { s.calls b with phase := .sending rest }
    Inv ((s.setConn k c).setCall b d) ∧ CallStep s ((s.setConn k c).setCall b d) b d := by
  intro c d
  have hdead : ¬ s.Alive k := h.calls.dropped b k (by rw [hphase]; rfl)
  have hconn : Beside s (s.setConn k c) := .setConn rfl id
  have hstep : CallStep s ((s.setConn k c).setCall b d) b d :=
    ⟨rfl, by rw [hphase]; rfl, h.calls.before b, .inl rfl, fun j => .inl (hconn.written j),
      hconn.alive⟩
  refine ⟨⟨inv_same h hstep (by rw [hphase]; rfl) rfl rfl rfl hconn.written (fun j hj => ?_), ?_⟩,
    hstep⟩
  · cases hj
  · refine ListInv.setCall ?_ b d
    refine h.list.one (k := k) rfl (fun j hj => ⟨setConn_other s c hj, Iff.rfl⟩) h.list.nodup
      ⟨fun hmem => ?_, fun hlive => ?_, fun _ hlive => ?_⟩ id
    · rw [setConn_self]
      exact (h.list.entry k).mem hmem
    · exact absurd (hconn.alive k hlive) hdead
    · exact hdead (hconn.alive k hlive)

/-- The state after the last step of a call. -/
def finish (s : Server) (b : Nat) : Server := s.setCall b { s.calls b with phase := .finished }

/-- **One step of `Broadcast`**: it ends the call, or the call goes on. -/
theorem inv_advance (h : Inv s) (hs : s.advance b = some s') :
    Inv s' ∧ (((s.calls b).phase = .sending [] ∧ s' = s.finish b)
      ∨ ((s.calls b).phase ≠ .sending []
        ∧ ∃ c, CallStep s s' b c ∧ c.phase.isFinished = false)) := by
  unfold advance at hs
  split at hs
  · cases hs
  · next hphase =>
    obtain rfl := Option.some.inj hs
    obtain ⟨hinv, hstep⟩ := inv_copy h hphase
    exact ⟨hinv, .inr ⟨by rw [hphase]; exact nofun, _, hstep, rfl⟩⟩
  · next hphase =>
    obtain rfl := Option.some.inj hs
    have hstep := advance_call (b := b) (c := { s.calls b with phase := .finished }) h
      (by rw [hphase]; rfl) rfl
    refine ⟨⟨inv_same h hstep (by rw [hphase]; rfl) rfl rfl rfl (fun _ => rfl) (fun k hk => ?_),
      h.list.setCall b _⟩, .inl ⟨hphase, rfl⟩⟩
    cases hk
  · next k rest hphase =>
    split at hs
    · next hgone =>
      obtain rfl := Option.some.inj hs
      obtain ⟨hinv, hstep⟩ := inv_giveUp h hphase (h.list.not_alive hgone.symm)
      exact ⟨hinv, .inr ⟨by rw [hphase]; exact nofun, _, hstep, rfl⟩⟩
    · obtain rfl := Option.some.inj hs
      obtain ⟨hinv, hstep⟩ := inv_send h hphase
      exact ⟨hinv, .inr ⟨by rw [hphase]; exact nofun, _, hstep, rfl⟩⟩
  · next k rest hphase =>
    obtain rfl := Option.some.inj hs
    obtain ⟨hinv, hstep⟩ := inv_remove h hphase
    exact ⟨hinv, .inr ⟨by rw [hphase]; exact nofun, _, hstep, rfl⟩⟩
  · next k rest hphase =>
    obtain rfl := Option.some.inj hs
    obtain ⟨hinv, hstep⟩ := inv_closeSub h hphase
    exact ⟨hinv, .inr ⟨by rw [hphase]; exact nofun, _, hstep, rfl⟩⟩
  · cases hs

/-- **What a step can do**: end a call, take it on, or leave the calls alone. -/
theorem step_cases {a : ServerAct} (h : Inv s) (hs : s.step a = some s') :
    Inv s' ∧ ((∃ b, s.Ends a b ∧ s' = s.finish b)
      ∨ ((∀ b, ¬ s.Ends a b)
        ∧ (Beside s s' ∨ ∃ b c, CallStep s s' b c ∧ c.phase.isFinished = false))) := by
  -- only a step of a call can end one
  have hother : (∀ b, a ≠ .advance b) → ∀ b, ¬ s.Ends a b := fun ha b he => ha b he.1
  cases a with
  | ack k => exact (inv_ack h hs).imp_right fun hb => .inr ⟨hother nofun, .inl hb⟩
  | receive k => exact (inv_receive h hs).imp_right fun hb => .inr ⟨hother nofun, .inl hb⟩
  | list k => exact (inv_list h hs).imp_right fun hb => .inr ⟨hother nofun, .inl hb⟩
  | leave k => exact (inv_leave h hs).imp_right fun hb => .inr ⟨hother nofun, .inl hb⟩
  | fail k => exact (inv_fail h hs).imp_right fun hb => .inr ⟨hother nofun, .inl hb⟩
  | start b event =>
    obtain ⟨hinv, c, hstep, hopen⟩ := inv_start h hs
    exact ⟨hinv, .inr ⟨hother nofun, .inr ⟨b, c, hstep, hopen⟩⟩⟩
  | advance b =>
    obtain ⟨hinv, ⟨hphase, hfin⟩ | ⟨hphase, c, hstep, hopen⟩⟩ := inv_advance h hs
    · exact ⟨hinv, .inl ⟨b, ⟨rfl, hphase⟩, hfin⟩⟩
    · refine ⟨hinv, .inr ⟨fun d he => ?_, .inr ⟨b, c, hstep, hopen⟩⟩⟩
      obtain ⟨heq, hd⟩ := he
      obtain rfl := ServerAct.advance.inj heq
      exact hphase hd
  | close => exact (inv_close h hs).imp_right fun hb => .inr ⟨hother nofun, .inl hb⟩
  | closeNext => exact (inv_closeNext h hs).imp_right fun hb => .inr ⟨hother nofun, .inl hb⟩

/-! ## §5. What a step keeps. -/

def Kept (s : Server) : Prop :=
  ∀ b, (s.calls b).phase = .finished →
    ∀ k, (s.calls b).due k = true → s.Alive k → b ∈ (s.conns k).written

theorem eventsKept_iff (h : Inv s) : s.EventsKept ↔ s.Kept :=
  ⟨fun hk => hk.kept, fun hk => ⟨h.calls.nodup, h.calls.order, hk⟩⟩

theorem Kept.beside (h : s.Kept) (hb : Beside s s') : s'.Kept := by
  intro b hphase k hdue hlive
  rw [hb.calls] at hphase hdue
  rw [hb.written]
  exact h b hphase k hdue (hb.alive k hlive)

/-- The other calls. -/
theorem Kept.other {c : Call} (h : s.Kept) (hstep : CallStep s s' b c) {d k : Nat} (hd : d ≠ b)
    (hphase : (s'.calls d).phase = .finished) (hdue : (s'.calls d).due k = true)
    (hlive : s'.Alive k) : d ∈ (s'.conns k).written := by
  rw [hstep.calls_other hd] at hphase hdue
  rw [hstep.mem_written hd]
  exact h d hphase k hdue (hstep.alive k hlive)

theorem Kept.goesOn {c : Call} (h : s.Kept) (hstep : CallStep s s' b c)
    (hopen : c.phase.isFinished = false) : s'.Kept := by
  intro d hphase k hdue hlive
  by_cases hd : d = b
  · rw [hd, hstep.calls_self] at hphase
    rw [hphase] at hopen
    cases hopen
  · exact h.other hstep hd hphase hdue hlive

/-- **A call ends**: it has written to the subscribers it copied. -/
theorem kept_finish_iff (hinv : Inv s) (h : s.Kept) (hphase : (s.calls b).phase = .sending []) :
    (s.finish b).Kept
      ↔ ∀ k, (s.calls b).due k = true → s.Alive k → (s.calls b).listed k = true := by
  have hstep := advance_call (b := b) (c := { s.calls b with phase := .finished }) hinv
    (by rw [hphase]; rfl) rfl
  obtain ⟨-, hlisted, sent, hsplit, hnot, hall⟩ := hinv.calls.sent b [] (by rw [hphase]; rfl)
  rw [List.append_nil] at hsplit
  -- nobody is left to send to: written and listed are the same for a living client
  have hmem : ∀ k, s.Alive k → (b ∈ (s.conns k).written ↔ (s.calls b).listed k = true) := by
    intro k hk
    rw [hlisted k hk, hsplit]
    exact ⟨fun hb => not_not.mp fun hk => hnot k hk hb, fun hsent => hall k hsent hk⟩
  constructor
  · intro hkept k hdue hk
    refine (hmem k hk).mp (hkept b ?_ k ?_ hk)
    · exact congrArg Call.phase hstep.calls_self
    · exact (congrArg (fun c => Call.due c k) hstep.calls_self).trans hdue
  · intro hdue d hd k hdk hk
    by_cases hdb : d = b
    · subst hdb
      refine (hmem k hk).mpr (hdue k ?_ hk)
      have hcall : (s.finish d).calls d = _ := hstep.calls_self
      rw [hcall] at hdk
      exact hdk
    · exact h.other hstep hdb hd hdk hk

/-- **One step** keeps every event exactly if a call that ends had its clients
in the list. -/
theorem kept_step_iff {a : ServerAct} (hinv : Inv s) (h : s.Kept) (hs : s.step a = some s') :
    s'.Kept ↔ s.DueListed a := by
  obtain ⟨-, ⟨b, hends, rfl⟩ | ⟨hnot, hstep⟩⟩ := step_cases hinv hs
  · refine (kept_finish_iff hinv h hends.2).trans ⟨fun hdue d hd => ?_, fun hdue => hdue b hends⟩
    obtain rfl := ServerAct.advance.inj (hends.1.symm.trans hd.1)
    exact hdue
  · refine iff_of_true ?_ (fun b hends => absurd hends (hnot b))
    rcases hstep with hb | ⟨b, c, hstep, hopen⟩
    · exact h.beside hb
    · exact h.goesOn hstep hopen

/-! ## §6. Every interleaving. -/

/-- **No event is lost after the acknowledgement**, twice or out of order, over
an interleaving, exactly if each call that ends had copied the list with the
clients in it that it was due to. -/
theorem events_after_ack_iff (acts : List ServerAct) :
    StatesMeet step EventsKept new acts ↔ StepsMeet step DueListed new acts := by
  refine statesMeet_iff_stepsMeet (J := Inv) ?_ ?_ inv_new ?_
  · exact fun s a s' h hs => (step_cases h hs).1
  · intro s a s' h hkept hs
    rw [eventsKept_iff (step_cases h hs).1]
    exact kept_step_iff h hkept.kept hs
  · exact (eventsKept_iff inv_new).mpr (fun b hphase => by cases hphase)

/-- The list is copied between the acknowledgement and the append. -/
def acknowledged : List ServerAct :=
  [.ack 0, .receive 0, .start 0 .catalogUpdated, .advance 0, .list 0, .advance 0]

/-- The client had its acknowledgement when the call started, is alive and in the
list, and nothing was written to it. -/
theorem event_lost_after_ack :
    ∃ s, run step new acknowledged = some s ∧ (s.calls 0).phase = .finished
      ∧ (s.calls 0).due 0 = true ∧ s.Alive 0 ∧ 0 ∈ s.subscribers ∧ s.eventsOf 0 = []
      ∧ ¬ s.EventsKept := by
  have hrun : run step new acknowledged = some _ := rfl
  refine ⟨_, hrun, rfl, rfl, ⟨rfl, rfl⟩, by decide, rfl, fun h => ?_⟩
  exact absurd (h.kept 0 rfl 0 rfl ⟨rfl, rfl⟩) List.not_mem_nil

end Server

end Kin.Daemon

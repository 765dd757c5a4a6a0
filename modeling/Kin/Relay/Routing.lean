/-
  Kin.Relay.Routing

  **WHO GETS A RENDEZVOUS.**

  The relay is not trusted: it sends any messages in any order.  To speak of
  one message, the client is run with a history beside it (`Traced`) that
  numbers the messages read, sees in which channels a dispatch has put something,
  and follows each number to who takes it.  The history only watches:
  `traced_of_run`.

    • `dispatchRendezvous_cases` — what a dispatch can do to the client,
    • `Routed` — the history is about what the channels hold, and a message is
      where `pending` had it go,
    • `Counted` — a number is in at most one place, over every run,
    • `rendezvous_routing` — a call only gets information about its own target,
      its result is final, and every message is in at most one channel or taken
      by at most one consumer: the call `pending` had for its node id, else
      `Incoming`.
-/
import Kin.Relay.Channels

namespace Kin.RelayClient

open Kin.Lib Kin.Kinpb

/-! ## §1. The history. -/

/-- Who takes a message. -/
inductive Consumer where
  | call (k : Nat)
  | incoming
  deriving DecidableEq

/-- A rendezvous read, with the call `pending` had for its node id then. -/
structure Message where
  rv : RelayRendezvous
  addressee : Option Nat

structure Traced where
  client : Client
  /-- The rendezvous messages read; a message's number is its place. -/
  messages : List Message
  /-- For each call's channel, the number of the message in its buffer. -/
  held : List (Option Nat)
  /-- The numbers of the messages in `incoming`. -/
  queued : List Nat
  /-- Who has taken which message. -/
  consumed : List (Nat × Consumer)

def Traced.new : Traced := ⟨Client.new, [], [], [], []⟩

/-- The call `pending` has for the node id of a message. -/
def Client.addressee (c : Client) (rv : RelayRendezvous) : Option Nat :=
  (Bytes.ofList? 32 rv.peerNodeId).bind (fun peerID => c.pending.lookup peerID)

/-- Between the two clients, something has been put into channel `i`. -/
def Client.Filled (c c' : Client) (i : Nat) : Prop :=
  (c.chans[i]?).bind Chan.buf = none ∧ ((c'.chans[i]?).bind Chan.buf).isSome = true

instance (c c' : Client) (i : Nat) : Decidable (c.Filled c' i) :=
  inferInstanceAs (Decidable (_ ∧ _))

/-- A rendezvous is read: its number goes wherever the client has put something. -/
def Traced.readRendezvous (t : Traced) (rv : RelayRendezvous) : Traced :=
  let n := t.messages.length
  let c := t.client.dispatchRendezvous rv
  { t with
    messages := t.messages ++ [⟨rv, t.client.addressee rv⟩]
    held := t.held.mapIdx (fun i h => if t.client.Filled c i then some n else h)
    queued := t.queued ++ List.replicate (c.incoming.length - t.client.incoming.length) n }

/-- A call receives from channel `i`. -/
def Traced.receive (t : Traced) (k i : Nat) : Traced :=
  match t.held[i]? with
  | some (some n) =>
    { t with held := t.held.set i none, consumed := t.consumed ++ [(n, .call k)] }
  | _ => t

/-- The history of an action. -/
def Traced.trace (t : Traced) : Act → Traced
  | .request _ => if t.client.closed then t else { t with held := t.held ++ [none] }
  | .waitFor _ => if t.client.closed then t else { t with held := t.held ++ [none] }
  | .receive k =>
    match (t.client.waiters[k]?).map Waiter.pc with
    | some (.waiting i) => t.receive k i
    | _ => t
  | .read (.ok ⟨some (.relayRendezvous rv)⟩) => t.readRendezvous rv
  | .take =>
    match t.queued with
    | n :: rest => { t with queued := rest, consumed := t.consumed ++ [(n, .incoming)] }
    | [] => t
  | _ => t

/-- A step of the client, with its history. -/
def tstep (t : Traced) (a : Act) : Option Traced :=
  (step t.client a).map (fun c => { t.trace a with client := c })

/-- **The history only watches**: every run of the client is one of these. -/
theorem traced_of_run (acts : List Act) : ∀ {t : Traced} {c : Client},
    run step t.client acts = some c → ∃ t', run tstep t acts = some t' ∧ t'.client = c := by
  induction acts with
  | nil =>
    intro t c h
    exact ⟨t, rfl, Option.some.inj h⟩
  | cons a acts ih =>
    intro t c h
    obtain ⟨d, hd, h⟩ := run_cons_eq_some.mp h
    obtain ⟨t', ht', hc⟩ := ih (t := { t.trace a with client := d }) h
    exact ⟨t', run_cons_eq_some.mpr ⟨_, by simp [tstep, hd], ht'⟩, hc⟩

/-- And every run of these is one of the client. -/
theorem client_of_traced {acts : List Act} : ∀ {t t' : Traced}, run tstep t acts = some t' →
    run step t.client acts = some t'.client := by
  induction acts with
  | nil =>
    intro t t' h
    rw [← Option.some.inj h]
    rfl
  | cons a acts ih =>
    intro t t' h
    obtain ⟨u, hu, h⟩ := run_cons_eq_some.mp h
    obtain ⟨c, hc, rfl⟩ := Option.map_eq_some_iff.mp hu
    exact run_cons_eq_some.mpr ⟨c, hc, ih h⟩

/-! ## §2. A message is where it was sent. -/

/-- Message `n`, for which `pending` had nobody, is the value in `incoming`. -/
def Traced.QueuedAs (t : Traced) (n : Nat) (info : RendezvousInfo) : Prop :=
  ∃ m peerID, t.messages[n]? = some m ∧ m.addressee = none
    ∧ Bytes.ofList? 32 m.rv.peerNodeId = some peerID ∧ info = rendezvousFromProto peerID m.rv

structure Routed (t : Traced) : Prop where
  sound : Sound t.client
  /-- The numbers of the history stand for what the channels hold. -/
  buffers : ∀ i : Nat, (t.client.chans[i]?).map Chan.buf
    = (t.held[i]?).map (fun h => h.bind (fun n => (t.messages[n]?).map Message.rv))
  queue : List.Forall₂ t.QueuedAs t.queued t.client.incoming
  /-- A channel holds a message for its call. -/
  heldFor : ∀ i n : Nat, t.held[i]? = some (some n) →
    ∃ m, t.messages[n]? = some m ∧ m.addressee = some i
  /-- `pending` has a call for its own target. -/
  addressed : ∀ (n k : Nat) (m : Message), t.messages[n]? = some m → m.addressee = some k →
    ∃ w, t.client.waiters[k]? = some w ∧ Bytes.ofList? 32 m.rv.peerNodeId = some w.target
  /-- Information comes from a message the call has taken. -/
  results : ∀ (k : Nat) (w : Waiter) (info : RendezvousInfo), t.client.waiters[k]? = some w →
    w.pc.result? = some (.ok info) →
    ∃ n m, (n, .call k) ∈ t.consumed ∧ t.messages[n]? = some m ∧ received m.rv = .ok info
  /-- A message taken by a call is the call's result. -/
  byCall : ∀ n k : Nat, (n, .call k) ∈ t.consumed →
    ∃ m w, t.messages[n]? = some m ∧ m.addressee = some k ∧ t.client.waiters[k]? = some w
      ∧ w.pc.result? = some (received m.rv)
  byIncoming : ∀ n : Nat, (n, .incoming) ∈ t.consumed →
    ∃ m, t.messages[n]? = some m ∧ m.addressee = none

theorem routed_new : Routed Traced.new where
  sound := sound_new
  buffers := by simp [Traced.new, Client.new]
  queue := .nil
  heldFor := by simp [Traced.new]
  addressed := by simp [Traced.new]
  results := by simp [Traced.new, Client.new]
  byCall := by simp [Traced.new]
  byIncoming := by simp [Traced.new]

/-- The teardown touches no call and nothing in `incoming`. -/
theorem closeLocked_frame (c : Client) :
    c.closeLocked.1.waiters = c.waiters ∧ c.closeLocked.1.incoming = c.incoming := by
  unfold Client.closeLocked
  split
  · exact ⟨rfl, rfl⟩
  · rw [closeChans_frame]
    exact ⟨rfl, rfl⟩

/-- **What a dispatch can do**: the message goes into the empty channel of the call
`pending` has for its node id, or, if `pending` has nobody, into `incoming`, or it is
dropped. -/
theorem dispatchRendezvous_cases {c : Client} (h : Sound c) (rv : RelayRendezvous) :
    (∃ ch, c.addressee rv = some ch ∧ c.chans[ch]? = some ⟨none, false⟩
        ∧ c.dispatchRendezvous rv = { c with chans := c.chans.set ch ⟨some rv, false⟩ })
    ∨ (∃ peerID, c.addressee rv = none ∧ Bytes.ofList? 32 rv.peerNodeId = some peerID
        ∧ c.dispatchRendezvous rv
          = { c with incoming := c.incoming ++ [rendezvousFromProto peerID rv] })
    ∨ c.dispatchRendezvous rv = c := by
  unfold Client.dispatchRendezvous Client.addressee
  cases hid : Bytes.ofList? 32 rv.peerNodeId with
  | none => exact Or.inr (Or.inr rfl)
  | some peerID =>
    dsimp only [Option.bind_some]
    cases hk : c.pending.lookup peerID with
    | some ch =>
      obtain ⟨⟨x, hx, hopen⟩, _⟩ := h.entry peerID ch hk
      obtain ⟨buf, closed⟩ := x
      cases hopen
      cases buf with
      | none => exact Or.inl ⟨ch, rfl, hx, by simp [Client.trySend, hx]⟩
      | some rv' => exact Or.inr (Or.inr (by simp [Client.trySend, hx]))
    | none =>
      have hin := h.incoming
      cases hclosed : c.closed with
      | true => exact Or.inr (Or.inr (by simp))
      | false =>
        rw [hclosed] at hin
        by_cases hroom : c.incoming.length < incomingCap
        · exact Or.inr (Or.inl ⟨peerID, rfl, rfl, by simp [hin, hroom]⟩)
        · exact Or.inr (Or.inr (by simp [hin, hroom]))

namespace Routed

variable {t : Traced}

/-- A later client has the same call for a message, with the same target. -/
theorem addressed_later (h : Routed t) {d : Client} (hlater : Later t.client d) {n k : Nat}
    {m : Message} (hm : t.messages[n]? = some m) (hk : m.addressee = some k) :
    ∃ w, d.waiters[k]? = some w ∧ Bytes.ofList? 32 m.rv.peerNodeId = some w.target := by
  obtain ⟨w, hw, ht⟩ := h.addressed n k m hm hk
  obtain ⟨w', hw', htarget, _⟩ := hlater.call k w hw
  exact ⟨w', hw', by rw [ht, htarget]⟩

/-- A later client has the same result for a message taken. -/
theorem byCall_later (h : Routed t) {d : Client} (hlater : Later t.client d) {n k : Nat}
    (hn : (n, .call k) ∈ t.consumed) :
    ∃ m w, t.messages[n]? = some m ∧ m.addressee = some k ∧ d.waiters[k]? = some w
      ∧ w.pc.result? = some (received m.rv) := by
  obtain ⟨m, w, hm, hk, hw, hr⟩ := h.byCall n k hn
  obtain ⟨w', hw', _, hr'⟩ := hlater.call k w hw
  exact ⟨m, w', hm, hk, hw', hr' _ hr⟩

/-- The client moves on, with nothing put into a channel or taken from one. -/
theorem frame (h : Routed t) {d : Client} (hsound : Sound d) (hlater : Later t.client d)
    (hbuf : ∀ i : Nat, (d.chans[i]?).map Chan.buf = (t.client.chans[i]?).map Chan.buf)
    (hin : d.incoming = t.client.incoming)
    (hres : ∀ (k : Nat) (w : Waiter) (info : RendezvousInfo), d.waiters[k]? = some w →
      w.pc.result? = some (.ok info) →
      ∃ w', t.client.waiters[k]? = some w' ∧ w'.pc.result? = some (.ok info)) :
    Routed { t with client := d } where
  sound := hsound
  buffers := fun i => (hbuf i).trans (h.buffers i)
  queue := by
    show List.Forall₂ t.QueuedAs t.queued d.incoming
    rw [hin]
    exact h.queue
  heldFor := h.heldFor
  addressed := fun n k m hm hk => h.addressed_later hlater hm hk
  results := by
    intro k w info hw hr
    obtain ⟨w', hw', hr'⟩ := hres k w info hw hr
    exact h.results k w' info hw' hr'
  byCall := fun n k hn => h.byCall_later hlater hn
  byIncoming := h.byIncoming

/-- A call moves on, and gets no information by it. -/
theorem setPC (h : Routed t) {d : Client} {k : Nat} {w : Waiter} {pc : WaiterPC}
    (hw : t.client.waiters[k]? = some w) (hsound : Sound d) (hlater : Later t.client d)
    (hch : d.chans = t.client.chans) (hin : d.incoming = t.client.incoming)
    (hwaiters : d.waiters = (t.client.setPC k pc).waiters)
    (hres : ∀ info, pc.result? = some (.ok info) → w.pc.result? = some (.ok info)) :
    Routed { t with client := d } := by
  refine h.frame hsound hlater (fun i => by rw [hch]) hin (fun j v info hv hr => ?_)
  rw [hwaiters, getElem?_setPC] at hv
  obtain ⟨v', hv', rfl⟩ := Option.map_eq_some_iff.mp hv
  refine ⟨v', hv', ?_⟩
  by_cases hkj : k = j
  · subst hkj
    rw [if_pos rfl] at hr
    rw [hw] at hv'
    rw [← Option.some.inj hv']
    exact hres info hr
  · rwa [if_neg hkj] at hr

/-- The teardown leaves what is in the buffers. -/
theorem closeLocked (h : Routed t) {d : Client} (hsound : Sound d) (hlater : Later t.client d)
    (hch : d.chans = t.client.closeLocked.1.chans) (hin : d.incoming = t.client.incoming)
    (hw : d.waiters = t.client.waiters) : Routed { t with client := d } := by
  refine h.frame hsound hlater (fun i => ?_) hin (fun k w info hk hr => ⟨w, by rw [← hw]; exact hk, hr⟩)
  rw [hch]
  unfold Client.closeLocked
  split
  · rfl
  · show ((t.client.pending.entries.foldl (fun c e => c.closeChan e.2) t.client).chans[i]?).map _ = _
    rw [getElem?_closeChans]
    cases t.client.chans[i]? <;> rfl

/-- There is a history for each channel. -/
theorem length_held (h : Routed t) : t.client.chans.length = t.held.length := by
  have hnone : ∀ i : Nat, t.client.chans.length ≤ i ↔ t.held.length ≤ i := by
    intro i
    have hi : (t.client.chans[i]?).isNone = (t.held[i]?).isNone := by
      simpa using congrArg Option.isNone (h.buffers i)
    rw [← List.getElem?_eq_none_iff, ← List.getElem?_eq_none_iff, ← Option.isNone_iff_eq_none,
      ← Option.isNone_iff_eq_none, hi]
  have hle := (hnone t.held.length).mpr (Nat.le_refl _)
  have hge := (hnone t.client.chans.length).mp (Nat.le_refl _)
  omega

/-- A call starts. -/
theorem addWaiter (h : Routed t) (target : NodeID) {pc : Nat → WaiterPC}
    (hpc : ∀ ch, (pc ch).chan? = some ch) :
    Routed { (if t.client.closed then t else { t with held := t.held ++ [none] }) with
      client := t.client.addWaiter target pc } := by
  have hsound := h.sound.addWaiter target hpc
  have hlater := Later.addWaiter t.client target pc
  have hnew : ∀ ch info, (pc ch).result? ≠ some (.ok info) := by
    intro ch info hr
    have hc := hpc ch
    cases hp : pc ch <;> simp [hp, WaiterPC.chan?, WaiterPC.result?] at hc hr
  by_cases hclosed : t.client.closed = true
  · rw [if_pos hclosed]
    unfold Client.addWaiter at hsound hlater ⊢
    rw [if_pos hclosed] at hsound hlater ⊢
    refine h.frame hsound hlater (fun i => rfl) rfl (fun k w info hw hr => ?_)
    rcases getElem?_concat_cases hw with ⟨_, rfl⟩ | hw
    · cases hr
    · exact ⟨w, hw, hr⟩
  · rw [if_neg hclosed]
    unfold Client.addWaiter at hsound hlater ⊢
    rw [if_neg hclosed] at hsound hlater ⊢
    have hlen := h.length_held
    refine ⟨hsound, fun i => ?_, h.queue, fun i n hi => ?_, ?_, ?_, ?_, h.byIncoming⟩
    · show ((t.client.chans ++ [⟨none, false⟩])[i]?).map Chan.buf = ((t.held ++ [none])[i]?).map _
      rcases Nat.lt_trichotomy i t.held.length with hlt | heq | hgt
      · rw [List.getElem?_append_left hlt, List.getElem?_append_left (by omega)]
        exact h.buffers i
      · subst heq
        rw [List.getElem?_concat_length, ← hlen, List.getElem?_concat_length]
        rfl
      · rw [List.getElem?_eq_none (by simp; omega), List.getElem?_eq_none (by simp; omega)]
        rfl
    · rcases getElem?_concat_cases hi with ⟨_, hnone⟩ | hi
      · cases hnone
      · exact h.heldFor i n hi
    · exact fun n k m hm hk => h.addressed_later hlater hm hk
    · intro k w info hw hr
      rcases getElem?_concat_cases hw with ⟨_, rfl⟩ | hw
      · exact absurd hr (hnew _ info)
      · exact h.results k w info hw hr
    · exact fun n k hn => h.byCall_later hlater hn

/-- A message is read, and its number given out. -/
theorem addMessage (h : Routed t) (rv : RelayRendezvous) :
    Routed { t with messages := t.messages ++ [⟨rv, t.client.addressee rv⟩] } where
  sound := h.sound
  buffers := by
    intro i
    rw [h.buffers i]
    cases hi : t.held[i]? with
    | none => rfl
    | some o =>
      cases o with
      | none => rfl
      | some n =>
        obtain ⟨m, hm, _⟩ := h.heldFor i n hi
        simp [hm, getElem?_concat_of hm]
  queue := h.queue.imp (fun n info ⟨m, peerID, hm, hrest⟩ =>
    ⟨m, peerID, getElem?_concat_of hm, hrest⟩)
  heldFor := by
    intro i n hi
    obtain ⟨m, hm, hk⟩ := h.heldFor i n hi
    exact ⟨m, getElem?_concat_of hm, hk⟩
  addressed := by
    intro n k m hm hk
    rcases getElem?_concat_cases hm with ⟨_, rfl⟩ | hm
    · obtain ⟨peerID, hid, hlookup⟩ := Option.bind_eq_some_iff.mp hk
      obtain ⟨_, w, hw, htarget, _⟩ := h.sound.entry peerID k hlookup
      exact ⟨w, hw, by rw [hid, htarget]⟩
    · exact h.addressed n k m hm hk
  results := by
    intro k w info hw hr
    obtain ⟨n, m, hn, hm, hrv⟩ := h.results k w info hw hr
    exact ⟨n, m, hn, getElem?_concat_of hm, hrv⟩
  byCall := by
    intro n k hn
    obtain ⟨m, w, hm, hrest⟩ := h.byCall n k hn
    exact ⟨m, w, getElem?_concat_of hm, hrest⟩
  byIncoming := by
    intro n hn
    obtain ⟨m, hm, hk⟩ := h.byIncoming n hn
    exact ⟨m, getElem?_concat_of hm, hk⟩

/-- A message goes into the empty buffer of its call's channel. -/
theorem hold (h : Routed t) {n ch : Nat} {rv : RelayRendezvous} {x : Chan}
    (hm : t.messages[n]? = some ⟨rv, some ch⟩) (hx : t.client.chans[ch]? = some x) :
    Routed { t with
      client := { t.client with chans := t.client.chans.set ch { x with buf := some rv } }
      held := t.held.set ch (some n) } where
  sound := h.sound.setBuf hx (some rv)
  buffers := by
    intro i
    show ((t.client.chans.set ch _)[i]?).map Chan.buf = ((t.held.set ch (some n))[i]?).map _
    have hlen := h.length_held
    by_cases hi : ch = i
    · subst hi
      have hlt := (List.getElem?_eq_some_iff.mp hx).1
      rw [List.getElem?_set_self hlt, List.getElem?_set_self (by omega)]
      simp [hm]
    · rw [List.getElem?_set_ne hi, List.getElem?_set_ne hi]
      exact h.buffers i
  queue := h.queue
  heldFor := by
    intro i k hi
    rcases getElem?_set_cases hi with ⟨rfl, hk⟩ | ⟨_, hi⟩
    · rw [Option.some.inj hk]
      exact ⟨_, hm, rfl⟩
    · exact h.heldFor i k hi
  addressed := h.addressed
  results := h.results
  byCall := h.byCall
  byIncoming := h.byIncoming

/-- A message goes into `incoming`. -/
theorem enqueue (h : Routed t) {n : Nat} {info : RendezvousInfo} (hq : t.QueuedAs n info) :
    Routed { t with
      client := { t.client with incoming := t.client.incoming ++ [info] }
      queued := t.queued ++ [n] } where
  sound := h.sound.congr rfl rfl rfl rfl rfl rfl
  buffers := h.buffers
  queue := List.rel_append h.queue (.cons hq .nil)
  heldFor := h.heldFor
  addressed := h.addressed
  results := h.results
  byCall := h.byCall
  byIncoming := h.byIncoming

/-- Nothing has been put into a channel that is the same. -/
theorem not_filled {c c' : Client} {i : Nat} (h : c'.chans[i]? = c.chans[i]?) : ¬ c.Filled c' i := by
  unfold Client.Filled
  rw [h]
  rintro ⟨hnone, hsome⟩
  rw [hnone] at hsome
  cases hsome

/-- A channel that is filled gets the number, the others keep theirs. -/
theorem mapIdx_filled (h : Routed t) {ch n : Nat} {rv : RelayRendezvous}
    (hx : t.client.chans[ch]? = some ⟨none, false⟩) :
    t.held.mapIdx (fun i held => if t.client.Filled
        { t.client with chans := t.client.chans.set ch ⟨some rv, false⟩ } i then some n else held)
      = t.held.set ch (some n) := by
  have hlt : ch < t.held.length := by
    rw [← h.length_held]
    exact (List.getElem?_eq_some_iff.mp hx).1
  apply List.ext_getElem?
  intro i
  rw [List.getElem?_mapIdx]
  by_cases hi : ch = i
  · subst hi
    have hfilled : t.client.Filled
        { t.client with chans := t.client.chans.set ch ⟨some rv, false⟩ } ch := by
      unfold Client.Filled
      rw [hx, getElem?_set_of_getElem? hx]
      exact ⟨rfl, rfl⟩
    rw [List.getElem?_set_self hlt, List.getElem?_eq_getElem hlt, Option.map_some, if_pos hfilled]
  · have hnot : ¬ t.client.Filled
        { t.client with chans := t.client.chans.set ch ⟨some rv, false⟩ } i :=
      not_filled (List.getElem?_set_ne hi)
    simp [List.getElem?_set_ne hi, hnot]

/-- Nothing is filled where the channels are the same. -/
theorem mapIdx_not_filled (t : Traced) {c : Client} (hch : c.chans = t.client.chans) (n : Nat) :
    t.held.mapIdx (fun i held => if t.client.Filled c i then some n else held) = t.held := by
  have hnot : ∀ i, ¬ t.client.Filled c i := fun i => not_filled (by rw [hch])
  apply List.ext_getElem?
  simp [hnot]

/-- **What a dispatch is seen to do**: the message is in its call's channel, or in
`incoming`, or nowhere; and its number is there. -/
theorem readRendezvous_cases (h : Routed t) (rv : RelayRendezvous) :
    (∃ ch, t.client.addressee rv = some ch ∧ t.client.chans[ch]? = some ⟨none, false⟩
        ∧ { t.readRendezvous rv with client := t.client.dispatchRendezvous rv }
          = { t with
              client := { t.client with chans := t.client.chans.set ch ⟨some rv, false⟩ }
              messages := t.messages ++ [⟨rv, t.client.addressee rv⟩]
              held := t.held.set ch (some t.messages.length) })
    ∨ (∃ peerID, t.client.addressee rv = none ∧ Bytes.ofList? 32 rv.peerNodeId = some peerID
        ∧ { t.readRendezvous rv with client := t.client.dispatchRendezvous rv }
          = { t with
              client := { t.client with
                incoming := t.client.incoming ++ [rendezvousFromProto peerID rv] }
              messages := t.messages ++ [⟨rv, t.client.addressee rv⟩]
              queued := t.queued ++ [t.messages.length] })
    ∨ { t.readRendezvous rv with client := t.client.dispatchRendezvous rv }
        = { t with messages := t.messages ++ [⟨rv, t.client.addressee rv⟩] } := by
  rcases dispatchRendezvous_cases h.sound rv with ⟨ch, haddr, hx, hd⟩ | ⟨peerID, haddr, hid, hd⟩ | hd
  · refine Or.inl ⟨ch, haddr, hx, ?_⟩
    unfold Traced.readRendezvous
    rw [hd]
    dsimp only
    rw [h.mapIdx_filled hx, Nat.sub_self, List.replicate_zero, List.append_nil]
  · refine Or.inr (Or.inl ⟨peerID, haddr, hid, ?_⟩)
    have hheld := mapIdx_not_filled t (c := t.client.dispatchRendezvous rv) (by rw [hd])
      t.messages.length
    unfold Traced.readRendezvous
    dsimp only
    rw [hheld, hd, List.length_append, Nat.add_sub_cancel_left]
    rfl
  · refine Or.inr (Or.inr ?_)
    have hheld := mapIdx_not_filled t (c := t.client.dispatchRendezvous rv) (by rw [hd])
      t.messages.length
    unfold Traced.readRendezvous
    dsimp only
    rw [hheld, hd, Nat.sub_self, List.replicate_zero, List.append_nil]

/-- `dispatchRendezvous`, with its history. -/
theorem readRendezvous (h : Routed t) (rv : RelayRendezvous) :
    Routed { t.readRendezvous rv with client := t.client.dispatchRendezvous rv } := by
  have hadd := h.addMessage rv
  have hnew : (t.messages ++ [⟨rv, t.client.addressee rv⟩])[t.messages.length]?
      = some ⟨rv, t.client.addressee rv⟩ := List.getElem?_concat_length
  rcases h.readRendezvous_cases rv with ⟨ch, haddr, hx, heq⟩ | ⟨peerID, haddr, hid, heq⟩ | heq
  · rw [heq]
    rw [haddr] at hadd hnew ⊢
    exact hadd.hold hnew hx
  · rw [heq]
    rw [haddr] at hadd hnew ⊢
    exact hadd.enqueue ⟨_, peerID, hnew, rfl, hid, rfl⟩
  · rw [heq]
    exact hadd

/-- A call takes the message its channel holds. -/
theorem receive (h : Routed t) {k i : Nat} {w : Waiter} {rv : RelayRendezvous} {closed : Bool}
    (hw : t.client.waiters[k]? = some w) (hpc : w.pc = .waiting i)
    (hch : t.client.chans[i]? = some ⟨some rv, closed⟩) :
    Routed { t.receive k i with
      client := { t.client with chans := t.client.chans.set i ⟨none, closed⟩ }.setPC k
        (.leaving (received rv)) } := by
  -- the call receives from its own channel, which holds message `n`
  obtain ⟨rfl, _⟩ := h.sound.own k w i hw (by rw [hpc]; rfl)
  have hbuf := h.buffers i
  rw [hch] at hbuf
  obtain ⟨o, ho, hrv⟩ := Option.map_eq_some_iff.mp hbuf.symm
  obtain ⟨n, rfl, hn⟩ := Option.bind_eq_some_iff.mp hrv
  obtain ⟨m, hm, hmrv⟩ := Option.map_eq_some_iff.mp hn
  obtain ⟨m', hm', haddr⟩ := h.heldFor i n ho
  have hmm : m' = m := Option.some.inj (hm'.symm.trans hm)
  subst hmm
  have hreceived : received m'.rv = received rv := by rw [hmrv]
  have hlater : Later t.client ({ t.client with
      chans := t.client.chans.set i ⟨none, closed⟩ }.setPC i (.leaving (received rv))) :=
    (Later.setBuf t.client hch none).trans
      (Later.setPC { t.client with chans := t.client.chans.set i ⟨none, closed⟩ } hw
        (by simp [hpc, WaiterPC.result?]))
  have hself : ({ t.client with chans := t.client.chans.set i ⟨none, closed⟩ }.setPC i
      (.leaving (received rv))).waiters[i]? = some { w with pc := .leaving (received rv) } := by
    rw [getElem?_setPC, hw]
    simp
  unfold Traced.receive
  rw [ho]
  have hsound : Sound ({ t.client with chans := t.client.chans.set i ⟨none, closed⟩ }.setPC i
      (.leaving (received rv))) :=
    (h.sound.setBuf hch none).setPC hw (fun _ hc => by cases hc) (fun _ hd => by cases hd)
  refine ⟨hsound, fun j => ?_, h.queue, fun j q hj => ?_, ?_, ?_, ?_, ?_⟩
  · show ((t.client.chans.set i _)[j]?).map Chan.buf = ((t.held.set i none)[j]?).map _
    by_cases hij : i = j
    · subst hij
      rw [getElem?_set_of_getElem? hch, getElem?_set_of_getElem? ho]
      rfl
    · rw [List.getElem?_set_ne hij, List.getElem?_set_ne hij]
      exact h.buffers j
  · rcases getElem?_set_cases hj with ⟨_, hnone⟩ | ⟨_, hj⟩
    · cases hnone
    · exact h.heldFor j q hj
  · exact fun q j mq hmq hj => h.addressed_later hlater hmq hj
  · intro j v info hv hr
    rw [getElem?_setPC] at hv
    obtain ⟨v', hv', rfl⟩ := Option.map_eq_some_iff.mp hv
    by_cases hij : i = j
    · subst hij
      rw [if_pos rfl] at hr
      exact ⟨n, m', List.mem_append_right _ List.mem_cons_self, hm,
        hreceived.trans (Option.some.inj hr)⟩
    · rw [if_neg hij] at hr
      obtain ⟨q, mq, hq, hrest⟩ := h.results j v' info hv' hr
      exact ⟨q, mq, List.mem_append_left _ hq, hrest⟩
  · intro q j hq
    rcases List.mem_append.mp hq with hq | hq
    · exact h.byCall_later hlater hq
    · have heq := List.mem_singleton.mp hq
      injection heq with hqn hcall
      injection hcall with hji
      subst hqn hji
      exact ⟨m', _, hm, haddr, hself, by rw [hreceived]; rfl⟩
  · intro q hq
    rcases List.mem_append.mp hq with hq | hq
    · exact h.byIncoming q hq
    · cases List.mem_singleton.mp hq

/-- Nothing is taken from an empty buffer. -/
theorem receive_empty (h : Routed t) {i : Nat} {closed : Bool}
    (hch : t.client.chans[i]? = some ⟨none, closed⟩) (k : Nat) : t.receive k i = t := by
  have hbuf := h.buffers i
  rw [hch] at hbuf
  unfold Traced.receive
  split
  next n hn =>
    obtain ⟨m, hm, _⟩ := h.heldFor i n hn
    simp [hn, hm] at hbuf
  next => rfl

/-- A reader of `Incoming` takes a value. -/
theorem take (h : Routed t) {info : RendezvousInfo} {rest : List RendezvousInfo}
    (hin : t.client.incoming = info :: rest) :
    Routed { t.trace .take with client := { t.client with incoming := rest } } := by
  have hqueue := h.queue
  rw [hin] at hqueue
  cases hq : t.queued with
  | nil =>
    rw [hq] at hqueue
    cases hqueue
  | cons n queued =>
    rw [hq] at hqueue
    obtain ⟨⟨m, peerID, hm, hnone, _⟩, htail⟩ := List.forall₂_cons.mp hqueue
    simp only [Traced.trace, hq]
    refine ⟨h.sound.congr rfl rfl rfl rfl rfl rfl, h.buffers, htail, h.heldFor, h.addressed, ?_, ?_,
      ?_⟩
    · intro k w info' hw hr
      obtain ⟨q, mq, hq', hrest⟩ := h.results k w info' hw hr
      exact ⟨q, mq, List.mem_append_left _ hq', hrest⟩
    · intro q k hq'
      rcases List.mem_append.mp hq' with hq' | hq'
      · exact h.byCall q k hq'
      · cases List.mem_singleton.mp hq'
    · intro q hq'
      rcases List.mem_append.mp hq' with hq' | hq'
      · exact h.byIncoming q hq'
      · have heq := List.mem_singleton.mp hq'
        injection heq with hqn _
        subst hqn
        exact ⟨m, hm, hnone⟩

/-- A message read in the loop. -/
theorem readMsg (h : Routed t) (msg : Except String Envelope) :
    Routed { t.trace (.read msg) with client := t.client.readMsg msg } := by
  have hclose : ∀ {d : Client}, d.panicked = t.client.closeLocked.1.panicked →
      d.incomingClosed = t.client.closeLocked.1.incomingClosed →
      d.closed = t.client.closeLocked.1.closed → d.pending = t.client.closeLocked.1.pending →
      d.chans = t.client.closeLocked.1.chans → d.waiters = t.client.closeLocked.1.waiters →
      d.incoming = t.client.closeLocked.1.incoming → Routed { t with client := d } := by
    intro d hp hi hc hpend hch hw hin
    obtain ⟨hwaiters, hincoming⟩ := closeLocked_frame t.client
    exact h.closeLocked (h.sound.closeLocked.congr hp hi hc hpend hch hw)
      ((Later.closeLocked t.client).congr hc hch hw) hch (hin.trans hincoming) (hw.trans hwaiters)
  cases msg with
  | error err => exact hclose rfl rfl rfl rfl rfl rfl rfl
  | ok env =>
    obtain ⟨payload⟩ := env
    cases payload with
    | none => exact h
    | some p =>
      cases p with
      | relayRendezvous rv => exact h.readRendezvous rv
      | relayError re => exact hclose rfl rfl rfl rfl rfl rfl rfl
      | _ => exact h

end Routed

/-- **One step.** -/
theorem step_routed {t t' : Traced} {a : Act} (h : Routed t) (hs : tstep t a = some t') :
    Routed t' := by
  obtain ⟨d, hd, rfl⟩ := Option.map_eq_some_iff.mp hs
  have hsound := step_keeps_sound h.sound hd
  have hlater := step_later hd
  cases step_sound hd with
  | request target => exact h.addWaiter target (fun ch => rfl)
  | waitFor target => exact h.addWaiter target (fun ch => rfl)
  | @write k ch w err hw hpc =>
    refine h.setPC hw hsound hlater rfl rfl rfl (fun info hr => ?_)
    cases err <;> cases hr
  | cancel err hw hpc => exact h.setPC hw hsound hlater rfl rfl rfl nofun
  | @receive k i w rv closed hw hpc hch =>
    have htrace : t.trace (.receive k) = t.receive k i := by simp [Traced.trace, hw, hpc]
    rw [htrace]
    exact h.receive hw hpc hch
  | @receiveClosed k i w hw hpc hch =>
    have htrace : t.trace (.receive k) = t := by
      simp [Traced.trace, hw, hpc, h.receive_empty hch k]
    rw [htrace]
    exact h.setPC hw hsound hlater rfl rfl rfl nofun
  | leave hw hpc =>
    refine h.setPC hw hsound hlater rfl rfl rfl (fun info hr => ?_)
    rw [hpc]
    exact hr
  | close =>
    obtain ⟨hwaiters, hincoming⟩ := closeLocked_frame t.client
    exact h.closeLocked hsound hlater rfl hincoming hwaiters
  | read msg hreading => exact h.readMsg msg
  | take hin => exact h.take hin

/-- **Every run.** -/
theorem routed_of_run {acts : List Act} {t : Traced} (hrun : run tstep Traced.new acts = some t) :
    Routed t :=
  run_invariant (fun _ _ _ h hs => step_routed h hs) routed_new hrun

/-! ## §3. A message is in one place. -/

/-- In how many places a number is. -/
def Traced.copies (t : Traced) (n : Nat) : Nat :=
  t.held.countP (fun h => decide (h = some n)) + t.queued.countP (fun q => decide (q = n))
    + t.consumed.countP (fun e => decide (e.1 = n))

/-- Numbers are in at most one place, and only those given out. -/
def Counted (t : Traced) : Prop :=
  ∀ n, t.copies n ≤ if n < t.messages.length then 1 else 0

/-- Filling a place adds at most the number put there. -/
theorem countP_set_le (l : List (Option Nat)) (i m n : Nat) :
    (l.set i (some m)).countP (fun h => decide (h = some n))
      ≤ l.countP (fun h => decide (h = some n)) + if m = n then 1 else 0 := by
  cases hi : l[i]? with
  | none =>
    rw [List.set_eq_of_length_le (List.getElem?_eq_none_iff.mp hi)]
    omega
  | some x =>
    have h := countP_set_add hi (some m) (fun h => decide (h = some n))
    simp only [Option.some.injEq, decide_eq_true_eq] at h
    omega

theorem counted_readRendezvous {t : Traced} (hr : Routed t) (h : Counted t)
    (rv : RelayRendezvous) :
    Counted { t.readRendezvous rv with client := t.client.dispatchRendezvous rv } := by
  intro n
  have hn := h n
  rcases hr.readRendezvous_cases rv with ⟨ch, -, -, heq⟩ | ⟨peerID, -, -, heq⟩ | heq
  · rw [heq]
    have hset := countP_set_le t.held ch t.messages.length n
    unfold Traced.copies at *
    simp only [List.length_append, List.length_singleton]
    split at hn <;> split at hset <;> split <;> omega
  · rw [heq]
    unfold Traced.copies at *
    simp only [List.countP_append, List.countP_singleton, List.length_append,
      List.length_singleton, decide_eq_true_eq]
    split at hn <;> split <;> split <;> omega
  · rw [heq]
    unfold Traced.copies at *
    simp only [List.length_append, List.length_singleton]
    split at hn <;> split <;> omega

theorem counted_receive {t : Traced} (h : Counted t) (k i : Nat) : Counted (t.receive k i) := by
  unfold Traced.receive
  split
  next m hm =>
    -- what leaves the channel is what is taken
    intro n
    have hn := h n
    have hset := countP_set_add hm none (fun h => decide (h = some n))
    simp only [Option.some.injEq, decide_eq_true_eq, reduceCtorEq, decide_false] at hset
    unfold Traced.copies at *
    simp only [List.countP_append, List.countP_singleton, decide_eq_true_eq]
    simp at hset
    omega
  next => exact h

/-- **One step.** -/
theorem step_counted {t t' : Traced} {a : Act} (hr : Routed t) (h : Counted t)
    (hs : tstep t a = some t') : Counted t' := by
  obtain ⟨c, hc, rfl⟩ := Option.map_eq_some_iff.mp hs
  have hadd : Counted (if t.client.closed then t else { t with held := t.held ++ [none] }) := by
    split
    · exact h
    · intro n
      have hn := h n
      simpa [Traced.copies] using hn
  cases step_sound hc with
  | request target => exact hadd
  | waitFor target => exact hadd
  | @receive k i w rv closed hw hpc hch | @receiveClosed k i w hw hpc hch =>
    have htrace : t.trace (.receive k) = t.receive k i := by simp [Traced.trace, hw, hpc]
    rw [htrace]
    exact counted_receive h k i
  | read msg hreading =>
    cases msg with
    | error err => exact h
    | ok env =>
      obtain ⟨payload⟩ := env
      cases payload with
      | none => exact h
      | some p =>
        cases p with
        | relayRendezvous rv => exact counted_readRendezvous hr h rv
        | _ => exact h
  | take hin =>
    cases hq : t.queued with
    | nil =>
      have hqueue := hr.queue
      rw [hin, hq] at hqueue
      cases hqueue
    | cons m rest =>
      intro n
      have hn := h n
      simp only [Traced.trace, Traced.copies, hq, List.countP_cons, List.countP_append,
        List.countP_nil, decide_eq_true_eq] at hn ⊢
      omega
  | _ => exact h

/-- **Every run.** -/
theorem counted_of_run {acts : List Act} {t : Traced} (hrun : run tstep Traced.new acts = some t) :
    Counted t := by
  refine (run_invariant (P := fun t => Routed t ∧ Counted t)
    (fun s a u h hs => ⟨step_routed h.1 hs, step_counted h.1 h.2 hs⟩)
    ⟨routed_new, fun n => ?_⟩ hrun).2
  simp [Traced.new, Traced.copies]

/-! ## §4. Routing. -/

/-- Information received names the node id of the message. -/
theorem peerNodeID_of_received {rv : RelayRendezvous} {info : RendezvousInfo}
    (h : received rv = .ok info) : Bytes.ofList? 32 rv.peerNodeId = some info.peerNodeID := by
  unfold received at h
  split at h
  next => cases h
  next peerID hid =>
    injection h with h
    rw [hid, ← h]
    rfl

/-- A call only gets information about its target. -/
theorem Routed.peerNodeID_eq_target {t : Traced} (h : Routed t) {k : Nat} {w : Waiter}
    {info : RendezvousInfo} (hw : t.client.waiters[k]? = some w)
    (hr : w.pc.result? = some (.ok info)) : info.peerNodeID = w.target := by
  obtain ⟨n, m, hn, hm, hrv⟩ := h.results k w info hw hr
  obtain ⟨m', _, hm', haddr, _⟩ := h.byCall n k hn
  have hmm : m' = m := Option.some.inj (hm'.symm.trans hm)
  subst hmm
  obtain ⟨w', hw', htarget⟩ := h.addressed n k m' hm haddr
  rw [hw] at hw'
  rw [peerNodeID_of_received hrv, ← Option.some.inj hw'] at htarget
  exact Option.some.inj htarget

/-- A rendezvous read. -/
def Act.rendezvous? : Act → Option RelayRendezvous
  | .read (.ok ⟨some (.relayRendezvous rv)⟩) => some rv
  | _ => none

/-- A step gives a number to the rendezvous it reads, and to nothing else. -/
theorem step_messages {t t' : Traced} {a : Act} (hs : tstep t a = some t') :
    t'.messages = t.messages
      ++ (a.rendezvous?.map (fun rv => ⟨rv, t.client.addressee rv⟩)).toList := by
  obtain ⟨c, hc, rfl⟩ := Option.map_eq_some_iff.mp hs
  have hsame : ∀ o : Option RelayRendezvous, o = none → ∀ u : Traced, u.messages = t.messages →
      u.messages = t.messages ++ (o.map (fun rv => ⟨rv, t.client.addressee rv⟩)).toList := by
    rintro _ rfl u hu
    rw [hu]
    exact (List.append_nil _).symm
  have hadd : (if t.client.closed then t else { t with held := t.held ++ [none] }).messages
      = t.messages := by
    split <;> rfl
  have hreceive : ∀ k i, (t.receive k i).messages = t.messages := by
    intro k i
    unfold Traced.receive
    split <;> rfl
  cases step_sound hc with
  | request target => exact hsame _ rfl _ hadd
  | waitFor target => exact hsame _ rfl _ hadd
  | @receive k i w rv closed hw hpc hch | @receiveClosed k i w hw hpc hch =>
    have htrace : t.trace (.receive k) = t.receive k i := by simp [Traced.trace, hw, hpc]
    exact hsame _ rfl _ (by rw [htrace]; exact hreceive k i)
  | read msg hreading =>
    cases msg with
    | error err => exact hsame _ rfl _ rfl
    | ok env =>
      obtain ⟨payload⟩ := env
      cases payload with
      | none => exact hsame _ rfl _ rfl
      | some p =>
        cases p with
        | relayRendezvous rv => rfl
        | _ => exact hsame _ rfl _ rfl
  | take hin =>
    refine hsame _ rfl _ ?_
    cases hq : t.queued with
    | nil => simp only [Traced.trace, hq]
    | cons m rest => simp only [Traced.trace, hq]
  | _ => exact hsame _ rfl _ rfl

/-- **Every run** gives a number to each rendezvous it reads. -/
theorem run_messages {acts : List Act} : ∀ {t t' : Traced}, run tstep t acts = some t' →
    ∃ new : List Message, t'.messages = t.messages ++ new
      ∧ new.map Message.rv = acts.filterMap Act.rendezvous? := by
  induction acts with
  | nil =>
    intro t t' h
    rw [← Option.some.inj h]
    exact ⟨[], (List.append_nil _).symm, rfl⟩
  | cons a acts ih =>
    intro t t' h
    obtain ⟨u, hu, h⟩ := run_cons_eq_some.mp h
    obtain ⟨new, hnew, hmap⟩ := ih h
    refine ⟨(a.rendezvous?.map (fun rv => ⟨rv, t.client.addressee rv⟩)).toList ++ new, ?_, ?_⟩
    · rw [hnew, step_messages hu, List.append_assoc]
    · rw [List.map_append, hmap, List.filterMap_cons]
      cases a.rendezvous? <;> rfl

/-- A message's number counts the messages before it, and its addressee is the call
`pending` had when it was read. -/
theorem run_addressee {acts before after : List Act} {rv : RelayRendezvous} {t : Traced}
    (hrun : run tstep Traced.new acts = some t)
    (hacts : acts = before ++ .read (.ok ⟨some (.relayRendezvous rv)⟩) :: after) :
    ∃ c, run step Client.new before = some c
      ∧ t.messages[(before.filterMap Act.rendezvous?).length]? = some ⟨rv, c.addressee rv⟩ := by
  subst hacts
  obtain ⟨u, hu, hrest⟩ := run_append_eq_some.mp hrun
  obtain ⟨v, hv, hafter⟩ := run_cons_eq_some.mp hrest
  obtain ⟨new, hnew, hmap⟩ := run_messages hu
  obtain ⟨later, hlater, -⟩ := run_messages hafter
  refine ⟨u.client, client_of_traced hu, ?_⟩
  have hlen : u.messages.length = (before.filterMap Act.rendezvous?).length := by
    rw [← hmap, List.length_map, hnew]
    rfl
  rw [hlater, step_messages hv, ← hlen, List.append_assoc]
  simp [Act.rendezvous?]

/-- Where the messages read in a run are: what the history `t` says of the client's
channels, and what follows for who takes a message. -/
structure RoutedTo (acts : List Act) (t : Traced) : Prop where
  /-- The numbers are those of the messages read, with the call `pending` had then. -/
  messages : t.messages.map Message.rv = acts.filterMap Act.rendezvous?
  moment : ∀ before rv after,
    acts = before ++ .read (.ok ⟨some (.relayRendezvous rv)⟩) :: after →
    ∃ c, run step Client.new before = some c
      ∧ t.messages[(before.filterMap Act.rendezvous?).length]? = some ⟨rv, c.addressee rv⟩
  /-- They stand for what the calls' channels and `Incoming` hold. -/
  buffers : ∀ i : Nat, (t.client.chans[i]?).map Chan.buf
    = (t.held[i]?).map (fun h => h.bind (fun n => (t.messages[n]?).map Message.rv))
  queue : List.Forall₂ t.QueuedAs t.queued t.client.incoming
  /-- A message is in one channel, or in `Incoming`, or taken by one consumer. -/
  once : ∀ n, t.copies n ≤ 1
  /-- A channel holds a message only for the call `pending` had for its node id. -/
  heldFor : ∀ i n : Nat, t.held[i]? = some (some n) →
    ∃ m w, t.messages[n]? = some m ∧ m.addressee = some i ∧ t.client.waiters[i]? = some w
      ∧ Bytes.ofList? 32 m.rv.peerNodeId = some w.target
  /-- So does a call take one, and the message is its result. -/
  byCall : ∀ n k, (n, .call k) ∈ t.consumed →
    ∃ m w, t.messages[n]? = some m ∧ m.addressee = some k ∧ t.client.waiters[k]? = some w
      ∧ Bytes.ofList? 32 m.rv.peerNodeId = some w.target
      ∧ w.pc.result? = some (received m.rv)
  /-- A call has no other information. -/
  results : ∀ (k : Nat) (w : Waiter) (info : RendezvousInfo), t.client.waiters[k]? = some w →
    w.pc.result? = some (.ok info) →
    ∃ n m, (n, .call k) ∈ t.consumed ∧ t.messages[n]? = some m ∧ received m.rv = .ok info
  /-- A reader of `Incoming` takes a message `pending` had nobody for. -/
  byIncoming : ∀ n : Nat, (n, .incoming) ∈ t.consumed →
    ∃ m, t.messages[n]? = some m ∧ m.addressee = none

theorem routedTo_of_run {acts : List Act} {t : Traced}
    (hrun : run tstep Traced.new acts = some t) : RoutedTo acts t := by
  have h := routed_of_run hrun
  obtain ⟨new, hnew, hmap⟩ := run_messages hrun
  refine ⟨by rw [hnew]; exact hmap, fun before rv after hacts => run_addressee hrun hacts,
    h.buffers, h.queue, fun n => ?_, fun i n hi => ?_, fun n k hn => ?_, h.results, h.byIncoming⟩
  · have hn := counted_of_run hrun n
    split at hn <;> omega
  · obtain ⟨m, hm, haddr⟩ := h.heldFor i n hi
    obtain ⟨w, hw, htarget⟩ := h.addressed n i m hm haddr
    exact ⟨m, w, hm, haddr, hw, htarget⟩
  · obtain ⟨m, w, hm, haddr, hw, hr⟩ := h.byCall n k hn
    obtain ⟨w', hw', htarget⟩ := h.addressed n k m hm haddr
    rw [hw] at hw'
    exact ⟨m, w, hm, haddr, hw, by rw [htarget, Option.some.inj hw'], hr⟩

/-- The message is put into the channel of the call `pending` has for its node id, if
that is empty, or else, if `pending` has nobody, into `Incoming`, if there is room. -/
def Client.Delivers (c : Client) (rv : RelayRendezvous) (d : Client) : Prop :=
  (∀ k, c.addressee rv = some k → (c.chans[k]?).map Chan.buf = some none →
      (d.chans[k]?).map Chan.buf = some (some rv))
    ∧ ∀ peerID, Bytes.ofList? 32 rv.peerNodeId = some peerID → c.addressee rv = none →
      c.closed = false → c.incoming.length < incomingCap →
      d.incoming = c.incoming ++ [rendezvousFromProto peerID rv]

theorem delivers_dispatchRendezvous {c : Client} (h : Sound c) (rv : RelayRendezvous) :
    c.Delivers rv (c.dispatchRendezvous rv) := by
  unfold Client.Delivers Client.addressee Client.dispatchRendezvous
  refine ⟨fun k hk hbuf => ?_, fun peerID hid haddr hclosed hroom => ?_⟩
  · obtain ⟨peerID, hid, hlook⟩ := Option.bind_eq_some_iff.mp hk
    obtain ⟨⟨x, hx, hopen⟩, -⟩ := h.entry peerID k hlook
    rw [hx] at hbuf
    have hempty : x.buf = none := Option.some.inj hbuf
    simp only [hid, hlook, Client.trySend, hx, hopen, hempty, Bool.false_eq_true, if_false, if_true]
    rw [getElem?_set_of_getElem? hx]
    rfl
  · have hlook : c.pending.lookup peerID = none := by
      rw [hid] at haddr
      exact haddr
    simp only [hid, hlook, hclosed, h.incoming, hroom, Bool.false_eq_true, if_false, if_true]

/-- **ROUTING.**  In every run, for any messages of the relay and any calls:

  1. a call's information is about its target, and its result is final, so that
     it yields at most one value,
  2. a message that is read now is delivered, unless the place for it is taken,
  3. every message read is in at most one place (the channel of one call,
     `Incoming`, or with whoever took it): with the call `pending` had for its
     node id when it was read, and with `Incoming` only if it had none. -/
theorem rendezvous_routing {acts : List Act} {c : Client}
    (hrun : run step Client.new acts = some c) :
    (∀ (k : Nat) (w : Waiter) info, c.waiters[k]? = some w →
        w.pc.result? = some (.ok info) → info.peerNodeID = w.target
          ∧ ∀ acts' d, run step c acts' = some d →
              ∃ w', d.waiters[k]? = some w' ∧ w'.pc.result? = some (.ok info))
      ∧ (∀ rv d, step c (.read (.ok ⟨some (.relayRendezvous rv)⟩)) = some d → c.Delivers rv d)
      ∧ ∃ t, run tstep Traced.new acts = some t ∧ t.client = c ∧ RoutedTo acts t := by
  obtain ⟨t, ht, rfl⟩ := traced_of_run acts (t := Traced.new) hrun
  have h := routed_of_run ht
  refine ⟨fun k w info hw hr => ⟨h.peerNodeID_eq_target hw hr, fun acts' d hd => ?_⟩,
    fun rv d hd => ?_, t, ht, rfl, routedTo_of_run ht⟩
  · obtain ⟨w', hw', _, hr'⟩ := (later_of_run hd).call k w hw
    exact ⟨w', hw', hr' _ hr⟩
  · obtain ⟨-, hread⟩ := Option.ite_none_right_eq_some.mp hd
    cases hread
    exact delivers_dispatchRendezvous h.sound rv

/-- A message about node `b`, as the relay sends it. -/
def rendezvousAbout (b : UInt8) : Act :=
  .read (.ok ⟨some (.relayRendezvous ⟨(Bytes.lit32 b).val, [], []⟩)⟩)

/-- Two messages for a call and one for nobody: the first one is taken by the call,
the second is dropped, the third waits in `Incoming`. -/
theorem rendezvous_routing_three :
    ∃ c, run step Client.new [.waitFor (Bytes.lit32 7), rendezvousAbout 7, rendezvousAbout 7,
        rendezvousAbout 8, .receive 0] = some c
      ∧ c.incoming.map RendezvousInfo.peerNodeID = [Bytes.lit32 8]
      ∧ ∃ t, t.client = c ∧ t.consumed = [(0, .call 0)] ∧ t.queued = [2]
        ∧ RoutedTo [.waitFor (Bytes.lit32 7), rendezvousAbout 7, rendezvousAbout 7,
            rendezvousAbout 8, .receive 0] t := by
  refine ⟨_, rfl, rfl, ?_⟩
  have hrun : run step Client.new [.waitFor (Bytes.lit32 7), rendezvousAbout 7,
    rendezvousAbout 7, rendezvousAbout 8, .receive 0] = some _ := rfl
  obtain ⟨-, -, t, ht, hc, hrouted⟩ := rendezvous_routing hrun
  have htraced : (run tstep Traced.new [.waitFor (Bytes.lit32 7), rendezvousAbout 7,
      rendezvousAbout 7, rendezvousAbout 8, .receive 0]).map (fun t => (t.consumed, t.queued))
      = some ([(0, .call 0)], [2]) := rfl
  rw [ht] at htraced
  have heq := Option.some.inj htraced
  exact ⟨t, hc, congrArg Prod.fst heq, congrArg Prod.snd heq, hrouted⟩

-- A call that waits need not be in `pending`: a second call replaces the entry of a
-- first one for the same target, and the first one, cancelled, deletes it on its way
-- out.  A message the second one still waits for then goes to `Incoming`.
example : ∃ c, run step Client.new [.request (Bytes.lit32 7), .waitFor (Bytes.lit32 7),
      .write 0 none, .cancel 0 "context canceled", .leave 0, rendezvousAbout 7] = some c
    ∧ (c.waiters[1]?).map Waiter.pc = some (.waiting 1)
    ∧ c.incoming.map RendezvousInfo.peerNodeID = [Bytes.lit32 7] :=
  ⟨_, rfl, rfl, rfl⟩

end Kin.RelayClient

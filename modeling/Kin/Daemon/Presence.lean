/-
  Kin.Daemon.Presence

  **WHO IS ONLINE?** (`acceptLoop` of `daemon.go`, `serveJoinedPeer` of
  `handler.go`, `BroadcastPeerOnline` and `BroadcastPeerOffline` of `server.go`).

  Every connection announces itself when it is opened and again when `Serve`
  returns:

      opened ──peer_online──▶ served ──▶ returned ──peer_offline──▶ gone

  Connections come from the accept loop, which announces one before it takes the
  next, and from joins, which run by themselves.  The events name the PEER, and
  a peer can have several connections; the one that ends announces the peer
  offline whether or not another is being served.

    • `truthful_step_iff` — one step,
    • `presence_truthful_iff` — the events tell the truth in every settled state
      exactly if no such connection is left over.

  The log is what one subscriber is sent: its mutex puts the sends of all
  broadcasts in one order, so a broadcast is one step of it.
-/
import Kin.Daemon.Types
import Kin.Lib.Run

namespace Kin.Daemon

open Kin.Lib Kin.Kinpb

/-! ## §1. Connections and events. -/

/-- Where a connection comes from. -/
inductive Via where
  | acceptLoop
  | handleJoin
  deriving DecidableEq

/-- How far its goroutine is. -/
inductive ServePhase where
  /-- Before the online broadcast. -/
  | opened
  | served
  /-- `Serve` has returned; before the offline broadcast. -/
  | returned
  | gone
  deriving DecidableEq

structure PeerConn where
  peer : NodeID
  via : Via
  phase : ServePhase
  deriving DecidableEq

/-- Its last broadcast is complete. -/
def PeerConn.Settled (c : PeerConn) : Prop := c.phase = .served ∨ c.phase = .gone

instance (c : PeerConn) : Decidable c.Settled :=
  inferInstanceAs (Decidable (c.phase = .served ∨ c.phase = .gone))

structure Presence where
  conns : List PeerConn
  events : List Event

inductive PresenceAct where
  /-- `ln.Accept` returns a connection. -/
  | accept (n : NodeID)
  /-- `handleJoin` has dialed one. -/
  | join (n : NodeID)
  | online (i : Nat)
  /-- `Serve` returns. -/
  | ret (i : Nat)
  | offline (i : Nat)
  | catalogUpdated

namespace Presence

def new : Presence := ⟨[], []⟩

/-- The `i`-th connection goes on, with the events it sends. -/
def move (s : Presence) (i : Nat) (old phase : ServePhase) (sends : NodeID → List Event) :
    Option Presence :=
  match s.conns[i]? with
  | none => none
  | some c =>
    if c.phase = old then
      some ⟨s.conns.set i { c with phase := phase }, s.events ++ sends c.peer⟩
    else none

def step (s : Presence) : PresenceAct → Option Presence
  | .accept n =>
    -- the loop is still announcing the one before
    if ∃ c ∈ s.conns, c.via = .acceptLoop ∧ c.phase = .opened then none
    else some { s with conns := s.conns ++ [⟨n, .acceptLoop, .opened⟩] }
  | .join n => some { s with conns := s.conns ++ [⟨n, .handleJoin, .opened⟩] }
  | .online i => s.move i .opened .served (fun n => [onlineEvent n])
  | .ret i => s.move i .served .returned (fun _ => [])
  | .offline i => s.move i .returned .gone (fun n => [offlineEvent n])
  | .catalogUpdated => some { s with events := s.events ++ [.catalogUpdated] }

/-! ## §2. The latest event. -/

/-- What an event says about a peer. -/
def about (n : NodeID) : Event → Option Bool
  | .peerOnline info => if info.nodeID = hexNodeID n then some true else none
  | .peerOffline nodeID => if nodeID = hexNodeID n then some false else none
  | .catalogUpdated => none
  | .other _ => none

/-- What the latest event about a peer says. -/
def latest (n : NodeID) (events : List Event) : Option Bool :=
  (events.filterMap (about n)).getLast?

theorem latest_append (n : NodeID) (es es' : List Event) :
    latest n (es ++ es') = (latest n es').or (latest n es) := by
  unfold latest
  rw [List.filterMap_append, List.getLast?_append]

theorem about_onlineEvent (n m : NodeID) :
    about n (onlineEvent m) = if m = n then some true else none := by
  show (if hexNodeID m = hexNodeID n then _ else _) = _
  by_cases h : m = n
  · rw [if_pos h, if_pos (congrArg hexNodeID h)]
  · rw [if_neg h, if_neg (fun heq => h (hexNodeID_injective heq))]

theorem about_offlineEvent (n m : NodeID) :
    about n (offlineEvent m) = if m = n then some false else none := by
  show (if hexNodeID m = hexNodeID n then _ else _) = _
  by_cases h : m = n
  · rw [if_pos h, if_pos (congrArg hexNodeID h)]
  · rw [if_neg h, if_neg (fun heq => h (hexNodeID_injective heq))]

theorem latest_singleton (n : NodeID) (e : Event) : latest n [e] = about n e := by
  unfold latest
  rw [List.filterMap_cons]
  cases about n e with
  | none => rfl
  | some b => rfl

/-! ## §3. The connections with one peer. -/

/-- The connections with a peer. -/
def connsOf (n : NodeID) (conns : List PeerConn) : List PeerConn :=
  conns.filter (fun c => decide (c.peer = n))

/-- Those beside the `i`-th. -/
def others (n : NodeID) (i : Nat) (conns : List PeerConn) : List PeerConn :=
  connsOf n (conns.eraseIdx i)

theorem mem_connsOf_set {n : NodeID} {conns : List PeerConn} {i : Nat} {c d : PeerConn}
    (hi : conns[i]? = some c) (phase : ServePhase) :
    d ∈ connsOf n (conns.set i { c with phase := phase })
      ↔ (c.peer = n ∧ d = { c with phase := phase }) ∨ d ∈ others n i conns := by
  obtain ⟨hlt, -⟩ := List.getElem?_eq_some_iff.mp hi
  unfold others connsOf
  rw [List.mem_filter, List.mem_filter, List.set_eq_take_append_cons_drop, if_pos hlt,
    List.eraseIdx_eq_take_drop_succ, decide_eq_true_iff, List.mem_append, List.mem_append,
    List.mem_cons]
  constructor
  · rintro ⟨h | rfl | h, hd⟩
    · exact Or.inr ⟨Or.inl h, hd⟩
    · exact Or.inl ⟨hd, rfl⟩
    · exact Or.inr ⟨Or.inr h, hd⟩
  · rintro (⟨hc, rfl⟩ | ⟨h | h, hd⟩)
    · exact ⟨Or.inr (Or.inl rfl), hc⟩
    · exact ⟨Or.inl h, hd⟩
    · exact ⟨Or.inr (Or.inr h), hd⟩

theorem mem_connsOf {n : NodeID} {conns : List PeerConn} {i : Nat} {c d : PeerConn}
    (hi : conns[i]? = some c) :
    d ∈ connsOf n conns ↔ (c.peer = n ∧ d = c) ∨ d ∈ others n i conns := by
  obtain ⟨hlt, hget⟩ := List.getElem?_eq_some_iff.mp hi
  have hset : conns.set i c = conns := by
    rw [← hget]
    exact List.set_getElem_self hlt
  have hmem : d ∈ connsOf n (conns.set i c) ↔ _ := mem_connsOf_set hi c.phase
  rwa [hset] at hmem

/-- Every broadcast of a connection with `n` that is due is complete. -/
def Quiet (n : NodeID) (s : Presence) : Prop := ∀ c ∈ connsOf n s.conns, c.Settled

/-- The latest event about `n` says whether one of them is being served. -/
def Truthful (n : NodeID) (s : Presence) : Prop :=
  latest n s.events = some true ↔ ∃ c ∈ connsOf n s.conns, c.phase = .served

/-- A connection that ends, with the others of its peer settled, is the last. -/
def LeavesNone (n : NodeID) (s : Presence) : PresenceAct → Prop
  | .offline i =>
    ∀ c, s.conns[i]? = some c → c.peer = n →
      (∀ d ∈ others n i s.conns, d.Settled) → ∀ d ∈ others n i s.conns, d.phase = .gone
  | _ => True

/-! ## §4. One step. -/

variable {n : NodeID} {s s' : Presence} {i : Nat}

theorem move_cases {old phase : ServePhase} {sends : NodeID → List Event}
    (hs : s.move i old phase sends = some s') :
    ∃ c, s.conns[i]? = some c ∧ c.phase = old
      ∧ s' = ⟨s.conns.set i { c with phase := phase }, s.events ++ sends c.peer⟩ := by
  unfold move at hs
  split at hs
  · cases hs
  · next c hc =>
    split at hs
    · next hold => exact ⟨c, hc, hold, (Option.some.inj hs).symm⟩
    · cases hs

/-- The state after the move of a connection with another peer. -/
theorem law_other {c : PeerConn} {es : List Event} (phase : ServePhase)
    (hi : s.conns[i]? = some c) (hn : c.peer ≠ n) (hes : latest n es = none)
    (h : s.Quiet n → s.Truthful n) :
    let t : Presence := ⟨s.conns.set i { c with phase := phase }, s.events ++ es⟩
    t.Quiet n → t.Truthful n := by
  have hmem : ∀ d, d ∈ connsOf n (s.conns.set i { c with phase := phase })
      ↔ d ∈ connsOf n s.conns := by
    intro d
    rw [mem_connsOf_set hi phase, mem_connsOf hi]
    refine or_congr_left (iff_of_false ?_ ?_)
    · exact fun h => hn h.1
    · exact fun h => hn h.1
  unfold Quiet Truthful at h ⊢
  dsimp only
  rw [latest_append, hes, Option.none_or]
  simp only [hmem]
  exact h

/-- A connection with `n` ends: what is left are the others. -/
theorem law_offline {c : PeerConn} (hi : s.conns[i]? = some c) (hn : c.peer = n) :
    let t : Presence := ⟨s.conns.set i { c with phase := .gone }, s.events ++ [offlineEvent c.peer]⟩
    (t.Quiet n → t.Truthful n)
      ↔ ((∀ d ∈ others n i s.conns, d.Settled) → ∀ d ∈ others n i s.conns, d.phase = .gone) := by
  intro t
  have hquiet : t.Quiet n ↔ ∀ d ∈ others n i s.conns, d.Settled := by
    refine ⟨fun h d hd => h d ((mem_connsOf_set hi _).mpr (.inr hd)), fun h d hd => ?_⟩
    rcases (mem_connsOf_set hi _).mp hd with ⟨-, rfl⟩ | hd
    · exact Or.inr rfl
    · exact h d hd
  have hlatest : latest n t.events = some false := by
    show latest n (s.events ++ [offlineEvent c.peer]) = some false
    rw [latest_append, latest_singleton, about_offlineEvent, if_pos hn]
    rfl
  have htruth : t.Truthful n ↔ ∀ d ∈ others n i s.conns, d.phase ≠ .served := by
    unfold Truthful
    rw [hlatest]
    constructor
    · intro h d hd hserved
      have hfalse := h.mpr ⟨d, (mem_connsOf_set hi _).mpr (.inr hd), hserved⟩
      cases hfalse
    · intro h
      refine iff_of_false (fun hfalse => by cases hfalse) ?_
      rintro ⟨d, hd, hserved⟩
      rcases (mem_connsOf_set hi _).mp hd with ⟨-, rfl⟩ | hd
      · cases hserved
      · exact h d hd hserved
  -- settled and not being served is gone
  rw [hquiet, htruth]
  refine forall_congr' fun hsettled => forall₂_congr fun d hd => ?_
  rcases hsettled d hd with h | h
  · rw [h]
    decide
  · rw [h]
    decide

theorem law_opened {via : Via} (m : NodeID) (h : s.Quiet n → s.Truthful n) :
    let t : Presence := { s with conns := s.conns ++ [⟨m, via, .opened⟩] }
    t.Quiet n → t.Truthful n := by
  intro t
  by_cases hm : m = n
  -- its online broadcast is due, so the state is not quiet
  · intro hquiet
    have hnew : (⟨m, via, .opened⟩ : PeerConn) ∈ connsOf n t.conns := by
      refine List.mem_filter.mpr ⟨List.mem_append_right _ List.mem_cons_self, ?_⟩
      exact decide_eq_true hm
    rcases hquiet _ hnew with h | h
    · cases h
    · cases h
  · have hconns : connsOf n t.conns = connsOf n s.conns := by
      show List.filter _ (s.conns ++ _) = _
      rw [List.filter_append, List.filter_cons_of_neg (by simpa using hm), List.filter_nil,
        List.append_nil]
      rfl
    unfold Quiet Truthful
    rw [hconns]
    exact h

/-- A connection announces its peer: the event is about `n` and true, or about
another peer. -/
theorem law_online {c : PeerConn} (hi : s.conns[i]? = some c) (h : s.Quiet n → s.Truthful n) :
    let t : Presence :=
      ⟨s.conns.set i { c with phase := .served }, s.events ++ [onlineEvent c.peer]⟩
    t.Quiet n → t.Truthful n := by
  intro t
  by_cases hn : c.peer = n
  · intro _
    refine iff_of_true ?_ ⟨_, (mem_connsOf_set hi _).mpr (.inl ⟨hn, rfl⟩), rfl⟩
    rw [latest_append, latest_singleton, about_onlineEvent, if_pos hn]
    rfl
  · refine law_other _ hi hn ?_ h
    rw [latest_singleton, about_onlineEvent, if_neg hn]

/-- `Serve` returns: a broadcast about the peer is due. -/
theorem law_returned {c : PeerConn} (hi : s.conns[i]? = some c) (h : s.Quiet n → s.Truthful n) :
    let t : Presence := ⟨s.conns.set i { c with phase := .returned }, s.events ++ []⟩
    t.Quiet n → t.Truthful n := by
  intro t
  by_cases hn : c.peer = n
  · intro hquiet
    rcases hquiet _ ((mem_connsOf_set hi _).mpr (.inl ⟨hn, rfl⟩)) with h | h
    · cases h
    · cases h
  · exact law_other _ hi hn rfl h

/-- **One step** keeps the events truthful exactly if it leaves none behind. -/
theorem truthful_step_iff {a : PresenceAct} (h : s.Quiet n → s.Truthful n)
    (hs : s.step a = some s') : (s'.Quiet n → s'.Truthful n) ↔ s.LeavesNone n a := by
  cases a with
  | accept m =>
    obtain ⟨-, hs⟩ := Option.ite_none_left_eq_some.mp hs
    obtain rfl := Option.some.inj hs
    exact iff_of_true (law_opened m h) trivial
  | join m =>
    obtain rfl := Option.some.inj hs
    exact iff_of_true (law_opened m h) trivial
  | online i =>
    unfold step at hs
    obtain ⟨c, hi, -, rfl⟩ := move_cases hs
    exact iff_of_true (law_online hi h) trivial
  | ret i =>
    unfold step at hs
    obtain ⟨c, hi, -, rfl⟩ := move_cases hs
    exact iff_of_true (law_returned hi h) trivial
  | offline i =>
    unfold step at hs
    obtain ⟨c, hi, -, rfl⟩ := move_cases hs
    by_cases hn : c.peer = n
    · exact (law_offline hi hn).trans ⟨fun hleft d hd _ => hleft, fun hleft => hleft c hi hn⟩
    · have hother : latest n [offlineEvent c.peer] = none := by
        rw [latest_singleton, about_offlineEvent, if_neg hn]
      refine iff_of_true (law_other _ hi hn hother h) (fun d hd hdn => ?_)
      obtain rfl := Option.some.inj (hd.symm.trans hi)
      exact absurd hdn hn
  | catalogUpdated =>
    obtain rfl := Option.some.inj hs
    refine iff_of_true ?_ trivial
    unfold Quiet Truthful
    dsimp only
    rw [latest_append]
    exact h

/-! ## §5. Every interleaving. -/

/-- **The events tell the truth** about `n` in every settled state of a run,
exactly if each connection that ends with the others settled is the last. -/
theorem presence_truthful_iff (n : NodeID) (acts : List PresenceAct) :
    StatesMeet step (fun s => s.Quiet n → s.Truthful n) new acts
      ↔ StepsMeet step (LeavesNone n) new acts := by
  refine statesMeet_iff_stepsMeet (J := fun _ => True) ?_ ?_ trivial ?_
  · exact fun _ _ _ _ _ => trivial
  · exact fun s a s' _ h hs => truthful_step_iff h hs
  · intro _
    refine iff_of_false (fun h => by cases h) ?_
    rintro ⟨c, hc, -⟩
    cases hc

/-- Both sides dial each other: the peer joins and is joined, and the first of
the two connections ends. -/
def crossed (n : NodeID) : List PresenceAct :=
  [.accept n, .online 0, .join n, .online 1, .ret 0, .offline 0]

/-- The peer is being served and was announced offline last. -/
theorem served_peer_offline :
    ∃ (n : NodeID) (s : Presence), run step new (crossed n) = some s ∧ s.Quiet n
      ∧ (∃ c ∈ connsOf n s.conns, c.phase = .served)
      ∧ s.events.getLast? = some (offlineEvent n) ∧ ¬ s.Truthful n := by
  have hrun : run step new (crossed (Bytes.lit32 7)) = some _ := rfl
  refine ⟨_, _, hrun, ?_, by decide, by decide, ?_⟩
  · unfold Quiet
    decide
  · unfold Truthful
    decide

end Presence

end Kin.Daemon

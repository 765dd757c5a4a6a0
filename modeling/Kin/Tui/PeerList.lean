/-
  Kin.Tui.PeerList

  **TWO WRITERS OF ONE LIST.**

  At the start the interface fetches the peers over one connection and receives
  events over another.  An event updates the list in place; the response
  REPLACES it, and `handlePeers` knows nobody as online.  What was learnt from
  events before the response is lost with it.

    • `flagOf_applyEvents` — what a list says of a node after events,
    • `peersAt_eq` — the response cuts off everything before it,
    • `peer_list_order_iff` — when the order does not matter.
-/
import Kin.Tui.Model

namespace Kin.Tui

open Kin.Lib Kin.Daemon

/-! ## §1. Events about peers. -/

inductive PeerEvent where
  | online (info : PeerInfo)
  | offline (nodeID : GoString)
  deriving DecidableEq

namespace PeerEvent

def event : PeerEvent → Event
  | online info => .peerOnline info
  | offline nodeID => .peerOffline nodeID

/-- The node it is about. -/
def node : PeerEvent → GoString
  | online info => info.nodeID
  | offline nodeID => nodeID

def isOnline : PeerEvent → Bool
  | online _ => true
  | offline _ => false

/-- The event on a peer list. -/
def apply (peers : List PeerInfo) : PeerEvent → List PeerInfo
  | online info =>
    (setOnline info.nodeID true peers).getD (peers ++ [{ info with online := true }])
  | offline nodeID => (setOnline nodeID false peers).getD peers

end PeerEvent

open PeerEvent

def applyEvents (peers : List PeerInfo) (es : List PeerEvent) : List PeerInfo :=
  es.foldl PeerEvent.apply peers

/-- The last event about a node: whether it was `peer_online`. -/
def lastEvent (n : GoString) (es : List PeerEvent) : Option Bool :=
  ((es.filter (fun e => decide (e.node = n))).getLast?).map isOnline

theorem lastEvent_append (n : GoString) (es es' : List PeerEvent) :
    lastEvent n (es ++ es') = (lastEvent n es').or (lastEvent n es) := by
  unfold lastEvent
  rw [List.filter_append, List.getLast?_append]
  cases (es'.filter (fun e => decide (e.node = n))).getLast? <;> rfl

theorem lastEvent_cons (n : GoString) (e : PeerEvent) (es : List PeerEvent) :
    lastEvent n (e :: es)
      = (lastEvent n es).or (if e.node = n then some e.isOnline else none) := by
  have hone : lastEvent n [e] = if e.node = n then some e.isOnline else none := by
    unfold lastEvent
    by_cases h : e.node = n
    · rw [if_pos h, List.filter_cons_of_pos (by simp [h])]
      rfl
    · rw [if_neg h, List.filter_cons_of_neg (by simp [h])]
      rfl
  rw [← hone]
  exact lastEvent_append n [e] es

/-- The last event was `peer_online`: there was one. -/
theorem online_of_lastEvent {n : GoString} {es : List PeerEvent}
    (h : lastEvent n es = some true) : ∃ info, .online info ∈ es ∧ info.nodeID = n := by
  obtain ⟨e, hlast, honline⟩ := Option.map_eq_some_iff.mp h
  have hmem := List.mem_filter.mp (List.mem_of_getLast? hlast)
  cases e with
  | online info => exact ⟨info, hmem.1, of_decide_eq_true hmem.2⟩
  | offline nodeID => cases honline

/-! ## §2. What a list says of a node. -/

def nodes (peers : List PeerInfo) : List GoString := peers.map PeerInfo.nodeID

/-- The `Online` flag of a node, if it is listed. -/
def flagOf (peers : List PeerInfo) (n : GoString) : Option Bool :=
  (peers.find? (fun p => decide (p.nodeID = n))).map PeerInfo.online

theorem flagOf_cons (p : PeerInfo) (ps : List PeerInfo) (n : GoString) :
    flagOf (p :: ps) n = if p.nodeID = n then some p.online else flagOf ps n := by
  unfold flagOf
  rw [List.find?_cons]
  by_cases h : p.nodeID = n
  · rw [if_pos h, decide_eq_true h]
    rfl
  · rw [if_neg h, decide_eq_false h]

theorem flagOf_eq_none {peers : List PeerInfo} {n : GoString} :
    flagOf peers n = none ↔ n ∉ nodes peers := by
  induction peers with
  | nil => simp [flagOf, nodes]
  | cons p ps ih =>
    rw [flagOf_cons]
    by_cases h : p.nodeID = n
    · simp [h, nodes]
    · rw [if_neg h, ih]
      simp [nodes, Ne.symm h]

/-- In a list of distinct ids the flag is that of the node's entry. -/
theorem flagOf_of_mem {peers : List PeerInfo} (hnodup : (nodes peers).Nodup) {p : PeerInfo}
    (hp : p ∈ peers) : flagOf peers p.nodeID = some p.online := by
  induction peers with
  | nil => cases hp
  | cons q qs ih =>
    obtain ⟨hnot, hnodup⟩ := List.nodup_cons.mp hnodup
    rw [flagOf_cons]
    rcases List.mem_cons.mp hp with rfl | hp
    · rw [if_pos rfl]
    · have hne : q.nodeID ≠ p.nodeID := fun h => hnot (h ▸ List.mem_map_of_mem hp)
      rw [if_neg hne, ih hnodup hp]

/-- The loop of the two updates: it finds the node or there is none. -/
theorem setOnline_cases (n : GoString) (b : Bool) (peers : List PeerInfo) :
    (setOnline n b peers = none ∧ n ∉ nodes peers)
      ∨ ∃ peers', setOnline n b peers = some peers' ∧ n ∈ nodes peers
        ∧ nodes peers' = nodes peers
        ∧ ∀ m, flagOf peers' m = if m = n then some b else flagOf peers m := by
  induction peers with
  | nil => exact Or.inl ⟨rfl, List.not_mem_nil⟩
  | cons p ps ih =>
    rw [setOnline]
    by_cases h : p.nodeID = n
    · rw [if_pos h]
      refine Or.inr ⟨_, rfl, h ▸ List.mem_cons_self, rfl, fun m => ?_⟩
      rw [flagOf_cons, flagOf_cons]
      by_cases hm : m = n
      · rw [if_pos hm, if_pos (h.trans hm.symm)]
      · have hne : p.nodeID ≠ m := fun hp => hm (hp.symm.trans h)
        rw [if_neg hm, if_neg hne, if_neg hne]
    · rw [if_neg h]
      rcases ih with ⟨hnone, hnot⟩ | ⟨ps', hsome, hmem, hnodes, hflag⟩
      · rw [hnone]
        exact Or.inl ⟨rfl, fun hn => (List.mem_cons.mp hn).elim (Ne.symm h) hnot⟩
      · rw [hsome]
        refine Or.inr ⟨_, rfl, List.mem_cons_of_mem _ hmem, ?_, fun m => ?_⟩
        · show p.nodeID :: nodes ps' = _
          rw [hnodes]
          rfl
        · rw [flagOf_cons, flagOf_cons, hflag]
          by_cases hp : p.nodeID = m
          · rw [if_pos hp, if_pos hp, if_neg (fun hm => h (hp.trans hm))]
          · rw [if_neg hp, if_neg hp]

theorem flagOf_concat (peers : List PeerInfo) (p : PeerInfo) (n : GoString) :
    flagOf (peers ++ [p]) n
      = (flagOf peers n).or (if p.nodeID = n then some p.online else none) := by
  induction peers with
  | nil =>
    rw [List.nil_append, flagOf_cons]
    rfl
  | cons q qs ih =>
    rw [List.cons_append, flagOf_cons, flagOf_cons, ih]
    split <;> rfl

/-- **One event** on the flag of a node. -/
theorem flagOf_apply (peers : List PeerInfo) (e : PeerEvent) (n : GoString) :
    flagOf (e.apply peers) n
      = if e.node = n then (if e.isOnline then some true else (flagOf peers n).map (fun _ => false))
        else flagOf peers n := by
  cases e with
  | online info =>
    show flagOf ((setOnline info.nodeID true peers).getD _) n = if info.nodeID = n then _ else _
    rcases setOnline_cases info.nodeID true peers with ⟨hnone, hnot⟩ | ⟨ps, hsome, -, -, hflag⟩
    · rw [hnone, Option.getD_none, flagOf_concat]
      by_cases hn : info.nodeID = n
      · rw [if_pos hn, if_pos hn, flagOf_eq_none.mpr (hn ▸ hnot)]
        rfl
      · rw [if_neg hn, if_neg hn, Option.or_none]
    · rw [hsome, Option.getD_some, hflag]
      by_cases hn : info.nodeID = n
      · rw [if_pos hn, if_pos hn.symm]
        rfl
      · rw [if_neg hn, if_neg (Ne.symm hn)]
  | offline nodeID =>
    show flagOf ((setOnline nodeID false peers).getD _) n = if nodeID = n then _ else _
    -- `UpdatePeerOffline` adds no peer
    rcases setOnline_cases nodeID false peers with ⟨hnone, hnot⟩ | ⟨ps, hsome, hmem, -, hflag⟩
    · rw [hnone, Option.getD_none]
      by_cases hn : nodeID = n
      · rw [if_pos hn, flagOf_eq_none.mpr (hn ▸ hnot)]
        rfl
      · rw [if_neg hn]
    · rw [hsome, Option.getD_some, hflag]
      by_cases hn : nodeID = n
      · subst hn
        rw [if_pos rfl, if_pos rfl]
        cases hold : flagOf peers nodeID with
        | none => exact absurd hmem (flagOf_eq_none.mp hold)
        | some b => rfl
      · rw [if_neg hn, if_neg (Ne.symm hn)]

theorem nodup_apply {peers : List PeerInfo} (h : (nodes peers).Nodup) (e : PeerEvent) :
    (nodes (e.apply peers)).Nodup := by
  cases e with
  | online info =>
    show (nodes ((setOnline info.nodeID true peers).getD _)).Nodup
    rcases setOnline_cases info.nodeID true peers with ⟨hnone, hnot⟩ | ⟨ps, hsome, -, hnodes, -⟩
    · rw [hnone, Option.getD_none]
      unfold nodes at hnot h ⊢
      rw [List.map_append, List.nodup_append]
      refine ⟨h, List.nodup_singleton _, fun a ha b hb hab => ?_⟩
      obtain rfl := List.mem_singleton.mp hb
      exact hnot (hab ▸ ha)
    · rw [hsome, Option.getD_some, hnodes]
      exact h
  | offline nodeID =>
    show (nodes ((setOnline nodeID false peers).getD _)).Nodup
    rcases setOnline_cases nodeID false peers with ⟨hnone, -⟩ | ⟨ps, hsome, -, hnodes, -⟩
    · rw [hnone]
      exact h
    · rw [hsome, Option.getD_some, hnodes]
      exact h

theorem nodup_applyEvents {peers : List PeerInfo} (h : (nodes peers).Nodup) (es : List PeerEvent) :
    (nodes (applyEvents peers es)).Nodup := by
  induction es generalizing peers with
  | nil => exact h
  | cons e es ih => exact ih (nodup_apply h e)

/-- **After events** a listed node has the flag of the last event about it, or
the one it had. -/
theorem flagOf_applyEvents {peers : List PeerInfo} {es : List PeerEvent} {n : GoString} {b : Bool}
    (h : flagOf (applyEvents peers es) n = some b) :
    b = (lastEvent n es).getD ((flagOf peers n).getD false) := by
  induction es generalizing peers with
  | nil =>
    show b = (flagOf peers n).getD false
    rw [show flagOf peers n = some b from h]
    rfl
  | cons e es ih =>
    have hb := ih h
    rw [lastEvent_cons]
    cases hlast : lastEvent n es with
    | some c =>
      rw [hlast] at hb
      exact hb
    | none =>
      rw [hlast, Option.getD_none, flagOf_apply] at hb
      rw [hb]
      by_cases hn : e.node = n
      · rw [if_pos hn, if_pos hn]
        cases e.isOnline with
        | true => rfl
        | false => cases flagOf peers n <;> rfl
      · rw [if_neg hn, if_neg hn]
        rfl

/-- After events the nodes listed are those from before and those that came
online. -/
theorem mem_nodes_applyEvents {peers : List PeerInfo} {es : List PeerEvent} {n : GoString} :
    n ∈ nodes (applyEvents peers es)
      ↔ n ∈ nodes peers ∨ ∃ info, .online info ∈ es ∧ info.nodeID = n := by
  have hlisted : ∀ ps : List PeerInfo, n ∈ nodes ps ↔ flagOf ps n ≠ none := by
    intro ps
    rw [Ne, flagOf_eq_none, not_not]
  induction es generalizing peers with
  | nil =>
    show n ∈ nodes peers ↔ _
    simp
  | cons e es ih =>
    show n ∈ nodes (applyEvents (e.apply peers) es) ↔ _
    refine ih.trans ?_
    rw [hlisted (e.apply peers), flagOf_apply, hlisted peers]
    cases e with
    | online info =>
      by_cases hn : info.nodeID = n
      · simp [PeerEvent.node, PeerEvent.isOnline, hn]
      · simp [PeerEvent.node, hn]
    | offline nodeID =>
      by_cases hn : nodeID = n
      · simp [PeerEvent.node, PeerEvent.isOnline, hn]
      · simp [PeerEvent.node, hn]

/-! ## §3. The response among the events. -/

/-- The messages, with the response after the first `k` events. -/
def messagesAt (peers : List PeerInfo) (es : List PeerEvent) (k : Nat) : List Msg :=
  (es.take k).map (fun e => .daemonEvent e.event) ++ .peersResult (.ok peers)
    :: (es.drop k).map (fun e => .daemonEvent e.event)

/-- The peer list at the end. -/
def peersAt (libs : Libs) (m : Model) (peers : List PeerInfo) (es : List PeerEvent) (k : Nat) :
    List PeerInfo :=
  (m.updates libs (messagesAt peers es k)).peers.peers

/-- The same nodes are listed wherever the response comes, and each of them is
shown online exactly if the last event about it was `peer_online`. -/
def OrderFree (libs : Libs) (m : Model) (peers : List PeerInfo) (es : List PeerEvent) : Prop :=
  ∀ k ≤ es.length,
    (∀ n, n ∈ nodes (peersAt libs m peers es k) ↔ n ∈ nodes (peersAt libs m peers es 0))
      ∧ ∀ p ∈ peersAt libs m peers es k,
          p.online = true ↔ lastEvent p.nodeID es = some true

theorem update_event (libs : Libs) (m : Model) (e : PeerEvent) :
    (m.update libs (.daemonEvent e.event)).1.peers.peers = e.apply m.peers.peers := by
  cases e with
  | online info =>
    show (m.peers.updatePeerOnline info).peers = (setOnline info.nodeID true m.peers.peers).getD _
    unfold PeerModel.updatePeerOnline
    cases setOnline info.nodeID true m.peers.peers <;> rfl
  | offline nodeID =>
    show (m.peers.updatePeerOffline nodeID).peers = (setOnline nodeID false m.peers.peers).getD _
    unfold PeerModel.updatePeerOffline
    cases setOnline nodeID false m.peers.peers <;> rfl

theorem updates_events (libs : Libs) (m : Model) (es : List PeerEvent) :
    (m.updates libs (es.map (fun e => .daemonEvent e.event))).peers.peers
      = applyEvents m.peers.peers es := by
  induction es generalizing m with
  | nil => rfl
  | cons e es ih =>
    show ((m.update libs (.daemonEvent e.event)).1.updates libs _).peers.peers = _
    rw [ih, update_event]
    rfl

/-- **The response replaces the list**: of the events only those after it count. -/
theorem peersAt_eq (libs : Libs) (m : Model) (peers : List PeerInfo) (es : List PeerEvent)
    (k : Nat) : peersAt libs m peers es k = applyEvents peers (es.drop k) := by
  unfold peersAt messagesAt Model.updates
  rw [List.foldl_append, List.foldl_cons]
  exact updates_events libs _ (es.drop k)

section response

variable {peers : List PeerInfo} {es : List PeerEvent}

/-- A response shows nobody online: who is shown so afterwards came online last. -/
theorem lastEvent_of_online (hnodup : (nodes peers).Nodup)
    (hoffline : ∀ p ∈ peers, p.online = false) {k : Nat} {p : PeerInfo}
    (hp : p ∈ applyEvents peers (es.drop k)) (honline : p.online = true) :
    lastEvent p.nodeID es = some true := by
  have hflag := flagOf_applyEvents (flagOf_of_mem (nodup_applyEvents hnodup _) hp)
  have hbefore : (flagOf peers p.nodeID).getD false = false := by
    unfold flagOf
    cases hfind : peers.find? (fun q => decide (q.nodeID = p.nodeID)) with
    | none => rfl
    | some q => exact hoffline q (List.mem_of_find?_eq_some hfind)
  rw [honline, hbefore] at hflag
  cases hlast : lastEvent p.nodeID (es.drop k) with
  | none =>
    rw [hlast] at hflag
    cases hflag
  | some b =>
    rw [hlast] at hflag
    have hall : lastEvent p.nodeID es = some b := by
      rw [← List.take_append_drop k es, lastEvent_append, hlast]
      rfl
    exact hall.trans (congrArg some hflag.symm)

/-- The response comes last: the list is the response. -/
theorem OrderFree.of_online {libs : Libs} {m : Model} (hoffline : ∀ p ∈ peers, p.online = false)
    (h : OrderFree libs m peers es) {info : PeerInfo} (hinfo : .online info ∈ es) :
    info.nodeID ∈ nodes peers ∧ lastEvent info.nodeID es ≠ some true := by
  -- all events first: `SetPeers` has the last word
  obtain ⟨hsame, hflags⟩ := h es.length (Nat.le_refl _)
  rw [peersAt_eq, List.drop_length] at hsame hflags
  have hlisted : info.nodeID ∈ nodes peers := by
    refine (hsame info.nodeID).mpr ?_
    rw [peersAt_eq]
    exact mem_nodes_applyEvents.mpr (Or.inr ⟨info, hinfo, rfl⟩)
  obtain ⟨p, hp, hid⟩ := List.mem_map.mp hlisted
  refine ⟨hlisted, fun hlast => ?_⟩
  have honline := (hflags p hp).mpr (hid ▸ hlast)
  rw [hoffline p hp] at honline
  cases honline

/-- Everybody who came online is in the response and has gone: nobody is shown
online. -/
theorem orderFree_of (libs : Libs) (m : Model) (hnodup : (nodes peers).Nodup)
    (hoffline : ∀ p ∈ peers, p.online = false)
    (h : ∀ info, .online info ∈ es → info.nodeID ∈ nodes peers
      ∧ lastEvent info.nodeID es ≠ some true) : OrderFree libs m peers es := by
  intro k _
  have hnodes : ∀ j n, n ∈ nodes (applyEvents peers (es.drop j)) ↔ n ∈ nodes peers := by
    intro j n
    rw [mem_nodes_applyEvents]
    refine ⟨fun hn => hn.elim id ?_, Or.inl⟩
    rintro ⟨info, hinfo, rfl⟩
    exact (h info (List.mem_of_mem_drop hinfo)).1
  simp only [peersAt_eq]
  refine ⟨fun n => by rw [hnodes k n, hnodes 0 n], fun p hp => ?_⟩
  refine ⟨lastEvent_of_online hnodup hoffline hp, fun hlast => ?_⟩
  obtain ⟨info, hinfo, hid⟩ := online_of_lastEvent hlast
  rw [← hid] at hlast
  exact absurd hlast (h info hinfo).2

end response

/-- **When the order does not matter**: exactly if every node that has come
online is in the response, and has gone offline since. -/
theorem peer_list_order_iff (libs : Libs) (rfc3339 : Time → GoString) (ops : List Peerstore.Op)
    (m : Model) (es : List PeerEvent) :
    OrderFree libs m (peerInfos rfc3339 (Peerstore.Op.applyAll Peerstore.Store.openFresh ops)) es
      ↔ ∀ info, .online info ∈ es →
          info.nodeID ∈ nodes
              (peerInfos rfc3339 (Peerstore.Op.applyAll Peerstore.Store.openFresh ops))
            ∧ lastEvent info.nodeID es ≠ some true := by
  have hnodup := peerInfos_nodup rfc3339 (keyed_applyAll ops)
  have hoffline := peerInfos_offline rfc3339
    (Peerstore.Op.applyAll Peerstore.Store.openFresh ops)
  constructor
  · intro h info hinfo
    exact h.of_online hoffline hinfo
  · intro h
    exact orderFree_of libs m hnodup hoffline h

/-- A node id. -/
def somePeer : NodeID := Bytes.lit32 0xAB

/-- What `BroadcastPeerOnline` sends of it. -/
def cameOnline : PeerEvent :=
  .online ⟨hexNodeID somePeer, shortID (hexNodeID somePeer), [], [], [], true⟩

/-- The peer store knows it. -/
def knowsPeer : List Peerstore.Op := [.putPeer ⟨0⟩ ⟨somePeer, [], [], .tofu, ⟨0⟩⟩]

/-- The node has come online before the response arrives: it is listed as
offline. -/
theorem response_hides_online :
    let peers := peerInfos (fun _ => [])
      (Peerstore.Op.applyAll Peerstore.Store.openFresh knowsPeer)
    (peersAt .plain .new peers [cameOnline] 0).map PeerInfo.online = [true]
      ∧ (peersAt .plain .new peers [cameOnline] 1).map PeerInfo.online = [false]
      ∧ lastEvent (hexNodeID somePeer) [cameOnline] = some true
      ∧ ¬ OrderFree .plain .new peers [cameOnline] := by
  refine ⟨by decide, by decide, by decide, fun h => ?_⟩
  have hflags := (h 1 (Nat.le_refl _)).2
  revert hflags
  decide

end Kin.Tui

/-
  Kin.Peerstore.Endpoints

  **THE ENDPOINTS OF A KNOWN PEER** (`internal/peerstore/store.go`).

  `PutPeer` merges the endpoints it is given into the stored ones.  The loop of
  `mergeEndpoints` remembers what was stored and not what it has appended, and the
  first list of a node is stored as it is: an endpoint that one list has twice
  stays in the record twice.

    • `putPeer_record`      — the record a `PutPeer` that succeeds has written,
    • `endpoint_union_iff`  — every run: the stored endpoints are the distinct
      ones of all lists exactly if no list repeats an endpoint that is new with it.
-/
import Kin.Lib.Distinct
import Kin.Peerstore.Pinning

namespace Kin.Peerstore

open Kin.Lib

/-! ## §1. The record of a `PutPeer`. -/

/-- The trust state a peer is stored with. -/
def Peer.trust (p : Peer) : TrustState := if p.trustState = .unset then .tofu else p.trustState

/-- The stored endpoints of a node; none of an unknown one. -/
def Store.endpointsOf (s : Store) (n : NodeID) : List GoString :=
  ((s.getPeer n).map Peer.endpoints).getD []

theorem mergeEndpoints_nil (incoming : List GoString) : mergeEndpoints [] incoming = incoming := by
  simp [mergeEndpoints]

theorem updatedPeer_eq {s : Store} {now : Time} {p updated : Peer}
    (h : s.updatedPeer now p = .ok updated) :
    updated = { p with
      endpoints := mergeEndpoints (s.endpointsOf p.nodeID) p.endpoints
      trustState := p.trust
      lastSeen := now } := by
  unfold Store.endpointsOf Store.getPeer
  unfold Store.updatedPeer at h
  split at h
  next prev hget =>
    rw [hget]
    split at h
    next => exact absurd h nofun
    next => exact (Except.ok.inj h).symm
  next hget =>
    rw [hget]
    show _ = { p with endpoints := mergeEndpoints [] p.endpoints, trustState := _, lastSeen := _ }
    rw [mergeEndpoints_nil]
    exact (Except.ok.inj h).symm

theorem json_eq {p data : Peer} (h : p.json = .ok data) :
    data = { p with endpoints := p.endpoints.map jsonString } := by
  unfold Peer.json at h
  split at h
  · exact (Except.ok.inj h).symm
  · exact absurd h nofun

/-- What a `PutPeer` that succeeds has written. -/
theorem putPeer_record {s : Store} {now : Time} {p : Peer} (hok : (s.putPeer now p).2 = none) :
    (s.putPeer now p).1.getPeer p.nodeID
      = some { p with
          endpoints := (mergeEndpoints (s.endpointsOf p.nodeID) p.endpoints).map jsonString
          trustState := p.trust
          lastSeen := now } := by
  unfold Store.putPeer at hok ⊢
  cases hupd : s.updatedPeer now p with
  | error err =>
    rw [hupd] at hok
    exact absurd hok nofun
  | ok updated =>
    rw [hupd] at hok
    dsimp only at hok ⊢
    cases hjson : updated.json with
    | error err =>
      rw [hjson] at hok
      exact absurd hok nofun
    | ok data =>
      dsimp only
      rw [Store.getPeer_put, if_pos rfl, json_eq hjson, updatedPeer_eq hupd]

/-! ## §2. Every run. -/

/-- The endpoint list that an operation stores for `n`, if it does. -/
def newList (n : NodeID) (s : Store) : Op → List (List GoString)
  | .putPeer now p =>
    if p.nodeID = n ∧ (s.putPeer now p).2 = none then [p.endpoints] else []
  | _ => []

/-- The endpoint lists of the `PutPeer` calls for `n` that succeed in a run. -/
def putLists (n : NodeID) : Store → List Op → List (List GoString)
  | _, [] => []
  | s, op :: ops => newList n s op ++ putLists n (op.apply s) ops

/-- The stored endpoints are UTF-8. -/
def Store.Normal (s : Store) (n : NodeID) : Prop := ∀ ep ∈ s.endpointsOf n, validString ep = true

theorem map_jsonString_of_valid {l : List GoString} (h : ∀ ep ∈ l, validString ep = true) :
    l.map jsonString = l := by
  have hid : l.map jsonString = l.map id :=
    List.map_congr_left fun ep hep => (jsonString_eq_self_iff ep).mpr (h ep hep)
  rw [hid, List.map_id]

theorem endpointsOf_congr {s s' : Store} {n : NodeID} (h : s'.getPeer n = s.getPeer n) :
    s'.endpointsOf n = s.endpointsOf n := by
  unfold Store.endpointsOf
  rw [h]

/-- `UpdateLastSeen` writes the endpoints back. -/
theorem endpointsOf_updateLastSeen {s : Store} {n : NodeID} (hn : s.Normal n) (now : Time) :
    (s.updateLastSeen now n).1.endpointsOf n = s.endpointsOf n := by
  have hsame := map_jsonString_of_valid hn
  unfold Store.endpointsOf at hsame
  unfold Store.updateLastSeen
  split
  next => rfl
  next p hget =>
    split
    next => rfl
    next data hjson =>
      unfold Store.endpointsOf
      rw [Store.getPeer_put, if_pos rfl, json_eq hjson]
      rw [show s.getPeer n = some p from hget] at hsame ⊢
      exact hsame

/-- A `PutPeer` that succeeds merges. -/
theorem endpointsOf_putPeer {s : Store} {now : Time} {p : Peer} (hn : s.Normal p.nodeID)
    (hok : (s.putPeer now p).2 = none) (hv : ∀ ep ∈ p.endpoints, validString ep = true) :
    (s.putPeer now p).1.endpointsOf p.nodeID = merge (s.endpointsOf p.nodeID) p.endpoints := by
  have hvalid : ∀ ep ∈ merge (s.endpointsOf p.nodeID) p.endpoints, validString ep = true := by
    intro ep hep
    rcases mem_merge.mp hep with hold | hnew
    · exact hn ep hold
    · exact hv ep hnew
  have hrec : (s.putPeer now p).1.endpointsOf p.nodeID
      = (merge (s.endpointsOf p.nodeID) p.endpoints).map jsonString := by
    rw [Store.endpointsOf, putPeer_record hok]
    rfl
  rw [hrec, map_jsonString_of_valid hvalid]

/-- **One operation** merges the list it stores, if it stores one. -/
theorem endpointsOf_apply {s : Store} {n : NodeID} (hn : s.Normal n) {op : Op}
    (hv : ∀ l ∈ newList n s op, ∀ ep ∈ l, validString ep = true) :
    (op.apply s).endpointsOf n = (newList n s op).foldl merge (s.endpointsOf n) := by
  by_cases hnode : op.node = some n
  · cases op with
    | putPeer now p =>
      have hid : p.nodeID = n := Option.some.inj hnode
      subst hid
      show (s.putPeer now p).1.endpointsOf p.nodeID = _
      cases herr : (s.putPeer now p).2 with
      | some err => simp [newList, herr, Store.putPeer_of_error herr]
      | none =>
        have hlist : newList p.nodeID s (.putPeer now p) = [p.endpoints] := if_pos ⟨rfl, herr⟩
        rw [hlist] at hv ⊢
        exact endpointsOf_putPeer hn herr (hv _ List.mem_cons_self)
    | updateLastSeen now m =>
      have hid : m = n := Option.some.inj hnode
      rw [hid]
      exact endpointsOf_updateLastSeen hn now
    | getPeer m => rfl
    | _ => cases hnode
  · have hnil : newList n s op = [] := by
      cases op with
      | putPeer now p => exact if_neg fun h => hnode (congrArg some h.1)
      | _ => rfl
    rw [hnil, endpointsOf_congr (getPeer_apply_ne s hnode)]
    rfl

/-- **Every run** merges the lists it stores, one after the other. -/
theorem endpointsOf_applyAll {n : NodeID} (ops : List Op) {s : Store} (hn : s.Normal n)
    (hv : ∀ l ∈ putLists n s ops, ∀ ep ∈ l, validString ep = true) :
    (Op.applyAll s ops).Normal n
      ∧ (Op.applyAll s ops).endpointsOf n = (putLists n s ops).foldl merge (s.endpointsOf n) := by
  induction ops generalizing s with
  | nil => exact ⟨hn, rfl⟩
  | cons op ops ih =>
    have hv₁ : ∀ l ∈ newList n s op, ∀ ep ∈ l, validString ep = true :=
      fun l hl => hv l (List.mem_append_left _ hl)
    have hstep := endpointsOf_apply hn hv₁
    have hn' : (op.apply s).Normal n := by
      intro ep hep
      rw [hstep, mem_foldl_merge] at hep
      rcases hep with hold | hnew
      · exact hn ep hold
      · obtain ⟨l, hl, hep⟩ := List.mem_flatten.mp hnew
        exact hv₁ l hl ep hep
    obtain ⟨hnormal, hends⟩ := ih hn' fun l hl => hv l (List.mem_append_right _ hl)
    refine ⟨hnormal, hends.trans ?_⟩
    rw [hstep, putLists, List.foldl_append]

/-- **Endpoint union.**  In every run from an empty store in which the endpoints
given for a node are UTF-8: the stored ones are the distinct endpoints of all lists,
each once and in the order of their first occurrence, if and only if no list repeats
an endpoint that no earlier list has.  And to store a list again changes nothing. -/
theorem endpoint_union_iff (n : NodeID) (ops : List Op)
    (hv : ∀ l ∈ putLists n Store.openFresh ops, ∀ ep ∈ l, validString ep = true) :
    let s := Op.applyAll Store.openFresh ops
    (s.endpointsOf n = (putLists n Store.openFresh ops).flatten.eraseDups
        ↔ NewOnce [] (putLists n Store.openFresh ops))
      ∧ ∀ now p, p.nodeID = n → p.endpoints ∈ putLists n Store.openFresh ops →
          (s.putPeer now p).2 = none → (s.putPeer now p).1.endpointsOf n = s.endpointsOf n := by
  intro s
  obtain ⟨hnormal, hends⟩ := endpointsOf_applyAll (n := n) ops (s := Store.openFresh) nofun hv
  have hfold : s.endpointsOf n = (putLists n Store.openFresh ops).foldl merge [] := hends
  refine ⟨?_, fun now p hid hlist hok => ?_⟩
  · rw [hfold]
    exact foldl_merge_iff (putLists n Store.openFresh ops) []
  · subst hid
    rw [endpointsOf_putPeer hnormal hok (hv _ hlist)]
    refine merge_of_subset fun ep hep => ?_
    rw [hfold]
    exact mem_foldl_merge.mpr (Or.inr (List.mem_flatten.mpr ⟨_, hlist, hep⟩))

/-- Two lists that share an endpoint. -/
theorem endpoint_union_shared :
    let n : NodeID := Bytes.lit32 1
    let put : List GoString → Op := fun eps => .putPeer ⟨0⟩ ⟨n, [7], eps, .tofu, ⟨0⟩⟩
    let s := Op.applyAll Store.openFresh
      [put [ascii "a:1", ascii "b:2"], put [ascii "b:2", ascii "c:3"]]
    s.endpointsOf n = [ascii "a:1", ascii "b:2", ascii "c:3"] := by
  intro n put s
  have hunion := (endpoint_union_iff n
    [put [ascii "a:1", ascii "b:2"], put [ascii "b:2", ascii "c:3"]] (by decide +kernel)).1.mpr
    (by decide +kernel)
  exact hunion.trans (by decide +kernel)

/-- The first list of a node has an endpoint twice, and so has the record. -/
theorem repeated_endpoint_stored_twice :
    let n : NodeID := Bytes.lit32 1
    let ops : List Op := [.putPeer ⟨0⟩ ⟨n, [7], [ascii "a:1", ascii "a:1"], .tofu, ⟨0⟩⟩]
    putLists n Store.openFresh ops = [[ascii "a:1", ascii "a:1"]]
      ∧ (Op.applyAll Store.openFresh ops).endpointsOf n = [ascii "a:1", ascii "a:1"]
      ∧ (Op.applyAll Store.openFresh ops).endpointsOf n
        ≠ (putLists n Store.openFresh ops).flatten.eraseDups := by
  decide +kernel

end Kin.Peerstore
